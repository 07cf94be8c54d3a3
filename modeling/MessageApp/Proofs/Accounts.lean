import MessageApp.Proofs.DeviceSteps

/-!
# Whose conversations the cache shows

`cacheMessage` is keyed by the chat alone and serves every account of the process. An instance's
rows are records of the snapshots its own listener got (`rowsFrom_of_run`), and a cached chat is
what some instance holds. If accounts change only where the new account may see all that is
cached, and what is new comes only from the last account's own documents, then every cached chat
is held by an instance on a document of the last account (`held_of_run`).
-/

namespace MessageApp

namespace Device

open Keyed ChatViewController

/-- The account that signed in last. -/
def lastAccount (es : List Event) : Option String :=
  es.foldl (fun last e => match e with
    | .signIn user => some user.uid
    | _ => last) none

/-- A snapshot of the document was delivered. -/
def Delivered (es : List Event) (d : Device) (p : DocPath) (doc : Doc) : Prop :=
  ∃ i self, Event.conversationSnapshot i (some doc) ∈ es ∧ d.instances[i]? = some self ∧
    self.docRefc = some p

/-- What is cached for the chat is what an instance listening to the document holds. -/
def HeldBy (d : Device) (c : String) (columns : List (List String)) (p : DocPath) : Prop :=
  ∃ self rows, self ∈ d.instances ∧ self.chatWithId = c ∧ self.docRefc = some p ∧
    self.Holds rows ∧ columns = Row.columns rows

section Members

variable (members : String → List String)

/-- The conversation of `v` with `c`, or that of the group `c` when `v` belongs to it. -/
def IsOwn (v c : String) (p : DocPath) : Prop :=
  p = .conversation v c ∨ p = .groupConversation c ∧ v ∈ members c

/-- What is cached when the account changes is the conversations of groups the new account belongs
to; a callback that brings an uncached key is of the last account's own conversation. -/
def KeepsApart (es : List Event) (d : Device) : Event → Prop
  | .signIn user => lastAccount es = some user.uid ∨
      ∀ c columns, d.globals.cacheMessage[c]? = some columns →
        user.uid ∈ members c ∧ HeldBy d c columns (.groupConversation c)
  | .conversationSnapshot i (some doc) => ∀ self p, d.instances[i]? = some self →
      self.docRefc = some p →
      firstUncached d.globals.cacheMessage self.chatWithId doc = none ∨
        ∃ u, lastAccount es = some u ∧ IsOwn members u self.chatWithId p
  | _ => True

/-- Every row that `v` sees is a record of a snapshot of `v`'s own conversation. -/
def ShowsOwn (es : List Event) (d : Device) (v : String) : Prop :=
  ∀ c columns, d.globals.cacheMessage[c]? = some columns →
    ∃ rows, columns = Row.columns rows ∧ ∀ r ∈ rows, ∃ p doc, IsOwn members v c p ∧
      Delivered es d p doc ∧ ∃ e ∈ doc.toList, r.IsOf e

end Members

theorem lastAccount_snoc_signIn (es : List Event) (user : User) :
    lastAccount (es ++ [.signIn user]) = some user.uid := by
  simp [lastAccount]

theorem lastAccount_snoc {e : Event} (he : ∀ user, e ≠ .signIn user) (es : List Event) :
    lastAccount (es ++ [e]) = lastAccount es := by
  unfold lastAccount
  rw [List.foldl_append]
  cases e with
  | signIn user => exact absurd rfl (he user)
  | _ => rfl

/-- The account signed in after an event. -/
def userAfter (user : Option User) : Event → Option User
  | .signIn user' => some user'
  | .signoutClick | .signout => none
  | _ => user

theorem step_currentUser {d d' : Device} {ws : List Write} {e : Event}
    (h : d.step e = some (d', ws)) : d'.currentUser = userAfter d.currentUser e := by
  cases e with
  | signIn user =>
    obtain ⟨rfl, -⟩ := Prod.mk.inj (Option.some.inj h)
    rfl
  | signoutClick =>
    obtain ⟨rfl, -⟩ := Prod.mk.inj (Option.some.inj h)
    rfl
  | signout =>
    obtain ⟨rfl, -⟩ := Prod.mk.inj (Option.some.inj h)
    rfl
  | bufferSnapshot uid doc =>
    obtain ⟨data, b, -, -, rfl, -⟩ := step_bufferSnapshot h
    rfl
  | openChat id g =>
    obtain ⟨v, kept, -, -, rfl, -⟩ := step_openChat h
    rfl
  | conversationSnapshot i doc =>
    obtain ⟨self, p, s, -, -, -, rfl, -⟩ := step_conversationSnapshot h
    rfl
  | roomMemberFetched i doc =>
    obtain ⟨self, self', -, -, -, rfl, -⟩ := step_roomMemberFetched h
    rfl
  | finishEditing i text t =>
    obtain ⟨self, r, -, -, hd⟩ := step_finishEditing h
    obtain ⟨rfl, -⟩ := Prod.mk.inj hd
    rfl
  | voiceCompletion i url t =>
    obtain ⟨self, r, -, -, hd⟩ := step_voiceCompletion h
    obtain ⟨rfl, -⟩ := Prod.mk.inj hd
    rfl
  | runBlock j =>
    obtain ⟨i, b, self, -, -, rfl, -⟩ := step_runBlock h
    rfl

/-- While someone is signed in, that is the last account. -/
theorem lastAccount_of_run {es : List Event} {d : Device} (h : EventRun.run next {} es = some d)
    {v : User} (hv : d.currentUser = some v) : lastAccount es = some v.uid := by
  have hI : ∀ v, d.currentUser = some v → lastAccount es = some v.uid := by
    refine EventRun.run_history
      (I := fun es d => ∀ v, d.currentUser = some v → lastAccount es = some v.uid) next ?_ ?_ h
    · intro v hv
      cases hv
    · intro es m e t _ hI hs v hv
      obtain ⟨ws, hs⟩ := exists_step_of_next hs
      rw [step_currentUser hs] at hv
      cases e with
      | signIn user =>
        obtain rfl := Option.some.inj hv
        exact lastAccount_snoc_signIn es user
      | signoutClick => cases hv
      | signout => cases hv
      | _ =>
        rw [lastAccount_snoc (by simp)]
        exact hI v hv
  exact hI v hv

/-! ## Rows come from snapshots -/

/-- The instance listens to its own chat's document, and its rows are records of the snapshots its
listener got. -/
structure RowFrom (es : List Event) (i : ℕ) (a : ChatViewController) : Prop where
  named : ∀ p, a.docRefc = some p →
    p = .groupConversation a.chatWithId ∨ ∃ u, p = .conversation u a.chatWithId
  rows : ∃ rows, a.Holds rows ∧ ∀ r ∈ rows, ∃ doc,
    Event.conversationSnapshot i (some doc) ∈ es ∧ ∃ e ∈ doc.toList, r.IsOf e

def RowsFrom (es : List Event) (d : Device) : Prop :=
  ∀ i self, d.instances[i]? = some self → RowFrom es i self

theorem RowFrom.mono {es : List Event} {e : Event} {i : ℕ} {a b : ChatViewController}
    (h : RowFrom es i a) (hs : SameRows a b) : RowFrom (es ++ [e]) i b := by
  obtain ⟨rows, hrows, hfrom⟩ := h.rows
  refine ⟨?_, rows, hs.holds.2 hrows, fun r hr => ?_⟩
  · rw [hs.docRefc, hs.chatWithId]
    exact h.named
  · obtain ⟨doc, hdoc, hof⟩ := hfrom r hr
    exact ⟨doc, List.mem_append_left _ hdoc, hof⟩

theorem openedDocRefc_named {uid id : String} {g : Bool} {p : DocPath}
    (h : openedDocRefc uid id g = some p) :
    p = .groupConversation id ∨ ∃ u, p = .conversation u id := by
  unfold openedDocRefc at h
  split_ifs at h
  · exact .inl (Option.some.inj h).symm
  · exact .inr ⟨uid, (Option.some.inj h).symm⟩

theorem RowsFrom.step {es : List Event} {d d' : Device} {ws : List Write} {e : Event}
    (hI : RowsFrom es d) (h : d.step e = some (d', ws)) : RowsFrom (es ++ [e]) d' := by
  intro j self' hj
  by_cases he : e.TouchesRows
  · cases e with
    | signout =>
      obtain ⟨rfl, -⟩ := Prod.mk.inj (Option.some.inj h)
      exact (hI j self' hj).mono (.refl self')
    | openChat id g =>
      obtain ⟨v, kept, -, -, rfl, -⟩ := step_openChat h
      simp only [List.getElem?_append, List.getElem?_singleton] at hj
      split_ifs at hj
      · exact (hI j self' hj).mono (.refl self')
      · rw [← Option.some.inj hj]
        exact ⟨fun p hp => openedDocRefc_named hp, [], rfl, by simp⟩
    | conversationSnapshot i doc =>
      obtain ⟨self, p, s, hself, hp, hl, rfl, -⟩ := step_conversationSnapshot h
      have hi := hI i self hself
      simp only [List.getElem?_set] at hj
      split_ifs at hj with hij
      · subst hij
        obtain rfl := Option.some.inj hj
        cases doc with
        | none =>
          obtain rfl := Option.some.inj hl
          exact hi.mono (.refl self)
        | some doc =>
          obtain ⟨own, hown, hfrom⟩ := hi.rows
          rcases conversationListener_cases hown hl with
            ⟨-, rfl⟩ | ⟨D₁, r, D₂, -, -, -, rfl, hrows⟩
          · exact hi.mono (.refl self)
          · refine ⟨hi.named, _, holds_withRows self _, fun a ha => ?_⟩
            rcases hrows a ha with ha | hof
            · obtain ⟨doc', hdoc', hof⟩ := hfrom a ha
              exact ⟨doc', List.mem_append_left _ hdoc', hof⟩
            · exact ⟨doc, by simp, hof⟩
      · exact (hI j self' hj).mono (.refl self')
    | _ => exact he.elim
  · obtain ⟨-, hi⟩ := step_sameRows he h
    obtain ⟨hlen, hsame⟩ := List.forall₂_iff_get.1 hi
    obtain ⟨hj', rfl⟩ := List.getElem?_eq_some_iff.1 hj
    have hj'' : j < d.instances.length := hlen ▸ hj'
    exact (hI j _ (List.getElem?_eq_getElem hj'')).mono (hsame j hj'' hj')

theorem rowsFrom_of_run {es : List Event} {d : Device} (h : EventRun.run next {} es = some d) :
    RowsFrom es d := by
  refine EventRun.run_history next ?_ ?_ h
  · intro i self hi
    simp at hi
  · intro es m e t _ hI hs
    obtain ⟨ws, hs⟩ := exists_step_of_next hs
    exact hI.step hs

/-! ## What is cached is an own document's -/

section Held

variable (members : String → List String)

/-- Every cached chat is held by an instance on a document of the last account. -/
def Held (es : List Event) (d : Device) : Prop :=
  ∀ u, lastAccount es = some u → ∀ c columns, d.globals.cacheMessage[c]? = some columns →
    ∃ p, IsOwn members u c p ∧ HeldBy d c columns p

theorem HeldBy.of_sameRows {d d' : Device} {c : String} {columns : List (List String)}
    {p : DocPath} (h : HeldBy d c columns p)
    (hi : List.Forall₂ SameRows d.instances d'.instances) : HeldBy d' c columns p := by
  obtain ⟨self, rows, hself, hc, hp, hrows, hcols⟩ := h
  obtain ⟨j, hj, rfl⟩ := List.getElem_of_mem hself
  have hj' : j < d'.instances.length := hi.length_eq ▸ hj
  have hs : SameRows d.instances[j] d'.instances[j] := (List.forall₂_iff_get.1 hi).2 j hj hj'
  exact ⟨d'.instances[j], rows, List.getElem_mem hj', hs.chatWithId.trans hc,
    hs.docRefc.trans hp, hs.holds.2 hrows, hcols⟩

/-- A callback leaves the instances of other chats. -/
theorem HeldBy.of_set {d : Device} {c : String} {columns : List (List String)} {p : DocPath}
    (h : HeldBy d c columns p) {i : ℕ} {a b : ChatViewController} {g : Globals}
    (hi : d.instances[i]? = some a) (hc : a.chatWithId ≠ c) :
    HeldBy { d with globals := g, instances := d.instances.set i b } c columns p := by
  obtain ⟨self, rows, hself, hc', hrest⟩ := h
  refine ⟨self, rows, ?_, hc', hrest⟩
  obtain ⟨j, hj, rfl⟩ := List.getElem_of_mem hself
  have hij : i ≠ j := by
    rintro rfl
    rw [List.getElem?_eq_getElem hj, Option.some.injEq] at hi
    exact hc (hi ▸ hc')
  refine List.mem_of_getElem? (i := j) ?_
  rw [List.getElem?_set_ne hij, List.getElem?_eq_getElem hj]

variable {members}

theorem Held.step_snapshot {es : List Event} {d d' : Device} {ws : List Write} {i : ℕ} {doc : Doc}
    (hR : RowsFrom es d) (hI : Held members es d)
    (hQ : KeepsApart members es d (.conversationSnapshot i (some doc)))
    (h : d.step (.conversationSnapshot i (some doc)) = some (d', ws)) :
    Held members (es ++ [.conversationSnapshot i (some doc)]) d' := by
  obtain ⟨self, p, s, hself, hp, hl, rfl, -⟩ := step_conversationSnapshot h
  obtain ⟨own, hown, -⟩ := (hR i self hself).rows
  intro u hu c columns hc
  rw [lastAccount_snoc (by simp)] at hu
  rcases conversationListener_cases hown hl with ⟨-, rfl⟩ | ⟨D₁, r, D₂, hD, hD₁, hr, rfl, -⟩
  · obtain ⟨p', hp', hheld⟩ := hI u hu c columns hc
    exact ⟨p', hp', hheld.of_sameRows (forall₂_sameRows_set hself (.refl self))⟩
  · have hi : i < d.instances.length := (List.getElem?_eq_some_iff.1 hself).1
    rcases hQ self p hself hp with hnone | ⟨u', hu', hown'⟩
    · rw [firstUncached_of_split hD hD₁ hr] at hnone
      cases hnone
    · obtain rfl := Option.some.inj (hu.symm.trans hu')
      simp only [Std.ExtTreeMap.getElem?_insert] at hc
      split_ifs at hc with hcc
      · obtain rfl : self.chatWithId = c := Std.LawfulEqCmp.eq_of_compare hcc
        obtain rfl := Option.some.inj hc
        exact ⟨p, hown', _, _, List.mem_set hi _, rfl, hp, holds_withRows self _, rfl⟩
      · obtain ⟨p', hp', hheld⟩ := hI u hu c columns hc
        exact ⟨p', hp', hheld.of_set hself fun he => hcc (he ▸ Std.ReflCmp.compare_self)⟩

theorem Held.step {es : List Event} {d d' : Device} {ws : List Write} {e : Event}
    (hR : RowsFrom es d) (hI : Held members es d) (hQ : KeepsApart members es d e)
    (h : d.step e = some (d', ws)) : Held members (es ++ [e]) d' := by
  cases e with
  | signIn user =>
    obtain ⟨rfl, -⟩ := Prod.mk.inj (Option.some.inj h)
    intro u hu c columns hc
    rw [lastAccount_snoc_signIn] at hu
    obtain rfl := Option.some.inj hu
    rcases hQ with hlast | hall
    · exact hI _ hlast c columns hc
    · obtain ⟨hm, hheld⟩ := hall c columns hc
      exact ⟨_, .inr ⟨rfl, hm⟩, hheld⟩
  | signout =>
    obtain ⟨rfl, -⟩ := Prod.mk.inj (Option.some.inj h)
    intro u hu c columns hc
    simp at hc
  | openChat id g =>
    obtain ⟨v, kept, -, -, rfl, -⟩ := step_openChat h
    intro u hu c columns hc
    rw [lastAccount_snoc (by simp)] at hu
    obtain ⟨p, hp, self, rows, hself, hrest⟩ := hI u hu c columns hc
    exact ⟨p, hp, self, rows, List.mem_append_left _ hself, hrest⟩
  | conversationSnapshot i doc =>
    cases doc with
    | none =>
      obtain ⟨self, p, s, hself, -, hl, rfl, -⟩ := step_conversationSnapshot h
      obtain rfl := Option.some.inj hl
      intro u hu c columns hc
      rw [lastAccount_snoc (by simp)] at hu
      obtain ⟨p', hp', hheld⟩ := hI u hu c columns hc
      exact ⟨p', hp', hheld.of_sameRows (forall₂_sameRows_set hself (.refl self))⟩
    | some doc => exact Held.step_snapshot hR hI hQ h
  | _ =>
    obtain ⟨hcache, hi⟩ := step_sameRows (by simp [Event.TouchesRows]) h
    intro u hu c columns hc
    rw [lastAccount_snoc (by simp)] at hu
    rw [hcache] at hc
    obtain ⟨p, hp, hheld⟩ := hI u hu c columns hc
    exact ⟨p, hp, hheld.of_sameRows hi⟩

theorem held_of_run {es : List Event} {d : Device}
    (hQ : EventRun.Meets next (KeepsApart members) {} es)
    (h : EventRun.run next {} es = some d) : Held members es d := by
  refine EventRun.run_induction next ?_ ?_ es hQ h
  · intro u hu
    simp [lastAccount] at hu
  · intro es m e t hm hI hQ hs
    obtain ⟨ws, hs⟩ := exists_step_of_next hs
    exact hI.step (rowsFrom_of_run hm) hQ hs

/-- As long as the condition is met, the account sees records of its own conversations only. -/
theorem showsOwn_of_run {es : List Event} {d : Device}
    (hQ : EventRun.Meets next (KeepsApart members) {} es)
    (h : EventRun.run next {} es = some d) {v : User} (hv : d.currentUser = some v) :
    ShowsOwn members es d v.uid := by
  intro c columns hc
  obtain ⟨p, hp, self, rows, hself, -, hp', hrows, rfl⟩ :=
    held_of_run hQ h v.uid (lastAccount_of_run h hv) c columns hc
  obtain ⟨i, hi, rfl⟩ := List.getElem_of_mem hself
  have hi := List.getElem?_eq_getElem hi
  obtain ⟨rows', hrows', hfrom⟩ := (rowsFrom_of_run h i _ hi).rows
  obtain rfl : rows' = rows := hrows'.unique hrows
  refine ⟨rows', rfl, fun r hr => ?_⟩
  obtain ⟨doc, hdoc, hof⟩ := hfrom r hr
  exact ⟨p, doc, hp, ⟨i, _, hdoc, hi, hp'⟩, hof⟩

end Held

end Device

end MessageApp
