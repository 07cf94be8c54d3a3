import MessageApp.Proofs.Accounts

/-!
# Two runs that differ in what an account has no part in

Two runs of a process take the same events, but for the messages of conversations `v` has no part
in (`SameFor`). Where both keep accounts apart, `v` sees the same rows in both: groups of `v` are
cached alike throughout, and everything is while `v` is the last account (`sameView_of_run`).
-/

namespace MessageApp

namespace ChatViewController

variable {cacheMessage cacheMessage' : Dict (List (List String))} {self self' : ChatViewController}
  {s s' : Dict (List (List String)) × ChatViewController}

theorem SameRows.of_withRows {rows : List Row} (h : SameRows self self') :
    SameRows (self.withRows rows) (self'.withRows rows) :=
  ⟨h.chatWithId, h.docRefc, rfl, rfl, rfl, rfl⟩

/-- One turn of the loop depends on the cache at its own chat and on the instance's rows. -/
theorem appendEntry_congr {own : List Row} (hself : self.Holds own) (hs : SameRows self self')
    (hcache : cacheMessage'[self.chatWithId]? = cacheMessage[self.chatWithId]?) {k : String}
    {v : Value} (h : self.appendEntry cacheMessage k v = some s)
    (h' : self'.appendEntry cacheMessage' k v = some s') :
    SameRows s.2 s'.2 ∧ s'.1[self.chatWithId]? = s.1[self.chatWithId]? ∧
      s.2.chatWithId = self.chatWithId ∧ ∃ rows, s.2.Holds rows := by
  have hkeys : cachedKeys cacheMessage' self'.chatWithId
      = cachedKeys cacheMessage self.chatWithId := by
    rw [hs.chatWithId, cachedKeys, cachedKeys, hcache]
  have hcases := appendEntry_cases (hs.holds.2 hself) h'
  rw [hkeys] at hcases
  rcases appendEntry_cases hself h with ⟨hk, rfl⟩ | ⟨hk, -, rfl⟩
  · rcases hcases with ⟨-, rfl⟩ | ⟨hk', -⟩
    · exact ⟨hs, hcache, rfl, own, hself⟩
    · exact absurd hk hk'
  · rcases hcases with ⟨hk', -⟩ | ⟨-, -, rfl⟩
    · exact absurd hk' hk
    · refine ⟨hs.of_withRows, ?_, rfl, _, holds_withRows self _⟩
      rw [hs.chatWithId]
      simp

theorem foldlM_appendEntry_congr :
    ∀ (es : List (String × Value)) {cacheMessage cacheMessage' : Dict (List (List String))}
      {self self' : ChatViewController} {own : List Row}, self.Holds own → SameRows self self' →
      cacheMessage'[self.chatWithId]? = cacheMessage[self.chatWithId]? →
      es.foldlM (fun s e => appendEntry s.1 s.2 e.1 e.2) (cacheMessage, self) = some s →
      es.foldlM (fun s e => appendEntry s.1 s.2 e.1 e.2) (cacheMessage', self') = some s' →
      SameRows s.2 s'.2 ∧ s'.1[self.chatWithId]? = s.1[self.chatWithId]?
  | [], cacheMessage, cacheMessage', self, self', own, hself, hs, hcache, h, h' => by
    simp only [List.foldlM_nil, Option.pure_def, Option.some.injEq] at h h'
    subst h h'
    exact ⟨hs, hcache⟩
  | e :: es, cacheMessage, cacheMessage', self, self', own, hself, hs, hcache, h, h' => by
    rw [List.foldlM_cons] at h h'
    obtain ⟨m, hm, h⟩ := Option.bind_eq_some_iff.1 h
    obtain ⟨m', hm', h'⟩ := Option.bind_eq_some_iff.1 h'
    obtain ⟨hs, hcache, hc, own', hself⟩ := appendEntry_congr hself hs hcache hm hm'
    rw [← hc] at hcache ⊢
    exact foldlM_appendEntry_congr es hself hs hcache h h'

theorem conversationListener_congr {own : List Row} (hself : self.Holds own)
    (hs : SameRows self self')
    (hcache : cacheMessage'[self.chatWithId]? = cacheMessage[self.chatWithId]?)
    {doc : Option Doc} (h : self.conversationListener cacheMessage doc = some s)
    (h' : self'.conversationListener cacheMessage' doc = some s') :
    SameRows s.2 s'.2 ∧ s'.1[self.chatWithId]? = s.1[self.chatWithId]? := by
  cases doc with
  | none =>
    obtain rfl := Option.some.inj h
    obtain rfl := Option.some.inj h'
    exact ⟨hs, hcache⟩
  | some doc => exact foldlM_appendEntry_congr doc.toList hself hs hcache h h'

end ChatViewController

namespace Device

open Keyed ChatViewController

variable (members : String → List String) (v : String)

/-- `v` has a part in the conversation kept at a path. -/
def HasPart : DocPath → Prop
  | .conversation a b => v = a ∨ v = b ∨ v ∈ members b
  | .groupConversation g => v ∈ members g
  | _ => False

/-- The events are the same, but for messages of conversations `v` has no part in: what a snapshot
delivers, what another account's Buffer holds, what another account sends. -/
inductive SameFor (d : Device) : Event → Event → Prop
  | same (e : Event) : SameFor d e e
  | conversationSnapshot {i : ℕ} {self : ChatViewController} {p : DocPath} (doc doc' : Option Doc) :
    d.instances[i]? = some self → self.docRefc = some p → ¬ HasPart members v p →
    SameFor d (.conversationSnapshot i doc) (.conversationSnapshot i doc')
  | bufferSnapshot {uid : String} (doc doc' : Option Doc) : uid ≠ v →
    SameFor d (.bufferSnapshot uid doc) (.bufferSnapshot uid doc')
  | finishEditing {i : ℕ} {self : ChatViewController} {user : User} (text t text' t' : String) :
    d.instances[i]? = some self → d.currentUser = some user →
    ¬ HasPart members v (.conversation user.uid self.chatWithId) →
    SameFor d (.finishEditing i text t) (.finishEditing i text' t')
  | voiceCompletion {i : ℕ} {self : ChatViewController} {user : User} (url url' : Option String)
    (t t' : String) : d.instances[i]? = some self → d.currentUser = some user →
    ¬ HasPart members v (.conversation user.uid self.chatWithId) →
    SameFor d (.voiceCompletion i url t) (.voiceCompletion i url' t')

/-- The two instances are of one chat and listen to one document; where it is the conversation of
`v`, or the chat a group of `v`, they have the same rows. -/
structure SameInstance (a b : ChatViewController) : Prop where
  chatWithId : b.chatWithId = a.chatWithId
  docRefc : b.docRefc = a.docRefc
  rows : v ∈ members a.chatWithId ∨ a.docRefc = some (.conversation v a.chatWithId) → SameRows a b

/-- What two processes have in common for `v`. -/
structure SameView (last : Option String) (d d' : Device) : Prop where
  user : d'.currentUser = d.currentUser
  instances : List.Forall₂ (SameInstance members v) d.instances d'.instances
  group : ∀ c, v ∈ members c → d'.globals.cacheMessage[c]? = d.globals.cacheMessage[c]?
  all : last = some v → d'.globals.cacheMessage = d.globals.cacheMessage

variable {members v}

theorem SameInstance.trans {a b a' b' : ChatViewController} (h : SameInstance members v a b)
    (ha : SameRows a a') (hb : SameRows b b') : SameInstance members v a' b' where
  chatWithId := by rw [hb.chatWithId, h.chatWithId, ha.chatWithId]
  docRefc := by rw [hb.docRefc, h.docRefc, ha.docRefc]
  rows hv := by
    rw [ha.chatWithId, ha.docRefc] at hv
    have hs := h.rows hv
    exact ⟨by rw [hb.chatWithId, h.chatWithId, ha.chatWithId],
      by rw [hb.docRefc, h.docRefc, ha.docRefc], by rw [hb.keys, hs.keys, ha.keys],
      by rw [hb.who, hs.who, ha.who], by rw [hb.array, hs.array, ha.array],
      by rw [hb.audio, hs.audio, ha.audio]⟩

theorem forall₂_sameInstance_trans {l m l' m' : List ChatViewController}
    (h : List.Forall₂ (SameInstance members v) l m) (hl : List.Forall₂ SameRows l l')
    (hm : List.Forall₂ SameRows m m') : List.Forall₂ (SameInstance members v) l' m' := by
  induction h generalizing l' m' with
  | nil =>
    cases hl
    cases hm
    exact .nil
  | cons hab _ ih =>
    cases hl with
    | cons ha hl =>
      cases hm with
      | cons hb hm => exact .cons (hab.trans ha hb) (ih hl hm)

theorem forall₂_set {α β : Type*} {R : α → β → Prop} {l : List α} {m : List β}
    (h : List.Forall₂ R l m) {a : α} {b : β} (hab : R a b) (i : ℕ) :
    List.Forall₂ R (l.set i a) (m.set i b) := by
  induction h generalizing i with
  | nil => exact .nil
  | cons hcd hrest ih =>
    cases i with
    | zero => exact .cons hab hrest
    | succ i => exact .cons hcd (ih i)

variable {es es' : List Event} {d d' n n' : Device} {e e' : Event} {ws ws' : List Write}

theorem SameFor.userAfter_eq {user : Option User} (h : SameFor members v d e e') :
    userAfter user e' = userAfter user e := by
  cases h <;> rfl

theorem SameFor.lastAccount_eq (h : SameFor members v d e e')
    (hlast : lastAccount es' = lastAccount es) :
    lastAccount (es' ++ [e']) = lastAccount (es ++ [e]) := by
  simp only [lastAccount, List.foldl_append, List.foldl_cons, List.foldl_nil] at hlast ⊢
  cases h <;> simp only [hlast]

theorem SameFor.touchesRows_iff (h : SameFor members v d e e') :
    e'.TouchesRows ↔ e.TouchesRows := by
  cases h <;> rfl

/-- Where the listener's document is not the last account's own, a callback brings nothing new. -/
theorem nothing_new {d : Device} {i : ℕ} {self : ChatViewController} {p : DocPath}
    {doc : Option Doc} {own : List Row} (hown : self.Holds own)
    (hi : d.instances[i]? = some self) (hp : self.docRefc = some p)
    (hQ : KeepsApart members es d (.conversationSnapshot i doc))
    (hnot : ∀ u, lastAccount es = some u → ¬ IsOwn members u self.chatWithId p)
    {s : Dict (List (List String)) × ChatViewController}
    (hl : self.conversationListener d.globals.cacheMessage doc = some s) :
    s = (d.globals.cacheMessage, self) := by
  cases doc with
  | none => exact (Option.some.inj hl).symm
  | some doc =>
    rcases hQ self p hi hp with hnone | ⟨u, hu, hown'⟩
    · exact conversationListener_of_firstUncached hown hnone hl
    · exact absurd hown' (hnot u hu)

theorem mem_of_named {es : List Event} {i : ℕ} {self : ChatViewController} {p : DocPath}
    (h : RowFrom es i self) (hp : self.docRefc = some p) (hm : v ∈ members self.chatWithId) :
    HasPart members v p := by
  rcases h.named p hp with rfl | ⟨u, rfl⟩
  · exact hm
  · exact .inr (.inr hm)

theorem SameFor.doc_eq {i : ℕ} {self : ChatViewController} {p : DocPath} {doc doc' : Option Doc}
    (h : SameFor members v d (.conversationSnapshot i doc) (.conversationSnapshot i doc'))
    (hi : d.instances[i]? = some self) (hp : self.docRefc = some p) (hpart : HasPart members v p) :
    doc' = doc := by
  cases h with
  | same => rfl
  | conversationSnapshot _ _ hi' hp' hnot =>
    obtain rfl := Option.some.inj (hi.symm.trans hi')
    obtain rfl := Option.some.inj (hp.symm.trans hp')
    exact absurd hpart hnot

/-- Two callbacks of one listener leave the other chats as they were, so the view of `v` is the same
after them if it is at their own chat. -/
theorem SameView.of_callbacks {last : Option String} (hV : SameView members v last d d')
    {self self' : ChatViewController} (hab : SameInstance members v self self')
    {own own' : List Row} (hown : self.Holds own) (hown' : self'.Holds own') {p : DocPath}
    (hp : self.docRefc = some p) {doc doc' : Option Doc}
    {s s' : Dict (List (List String)) × ChatViewController}
    (hl : self.conversationListener d.globals.cacheMessage doc = some s)
    (hl' : self'.conversationListener d'.globals.cacheMessage doc' = some s')
    (hrows : v ∈ members self.chatWithId ∨ p = .conversation v self.chatWithId → SameRows s.2 s'.2)
    (hcache : v ∈ members self.chatWithId ∨ last = some v →
      s'.1[self.chatWithId]? = s.1[self.chatWithId]?) (i : ℕ) :
    SameView members v last
      { d with
        globals := { d.globals with cacheMessage := s.1 }
        instances := d.instances.set i s.2 }
      { d' with
        globals := { d'.globals with cacheMessage := s'.1 }
        instances := d'.instances.set i s'.2 } := by
  obtain ⟨hc, hd, hframe⟩ := conversationListener_frame hown hl
  obtain ⟨hc', hd', hframe'⟩ := conversationListener_frame hown' hl'
  refine ⟨hV.user, forall₂_set hV.instances ?_ i, fun c hm => ?_, fun hv => ?_⟩
  · refine ⟨by rw [hc', hc, hab.chatWithId], by rw [hd', hd, hab.docRefc], fun hv => hrows ?_⟩
    rw [hc, hd, hp, Option.some.injEq] at hv
    exact hv
  · by_cases hcc : c = self.chatWithId
    · rw [hcc] at hm ⊢
      exact hcache (.inl hm)
    · show s'.1[c]? = s.1[c]?
      rw [hframe c hcc, hframe' c (by rwa [hab.chatWithId]), hV.group c hm]
  · show s'.1 = s.1
    refine Std.ExtTreeMap.ext_getElem? fun c => ?_
    by_cases hcc : c = self.chatWithId
    · rw [hcc]
      exact hcache (.inr hv)
    · rw [hframe c hcc, hframe' c (by rwa [hab.chatWithId]), hV.all hv]

/-- Two callbacks of one listener. In a group of `v` they get the same snapshot and find the same
rows; so they do in the conversation of `v`, if something is new to them at all; elsewhere nothing
is new while `v` is the last account. -/
theorem SameView.step_snapshot {i : ℕ} {doc doc' : Option Doc}
    (hV : SameView members v (lastAccount es) d d') (hlast : lastAccount es' = lastAccount es)
    (hR : RowsFrom es d) (hR' : RowsFrom es' d')
    (hQ : KeepsApart members es d (.conversationSnapshot i doc))
    (hQ' : KeepsApart members es' d' (.conversationSnapshot i doc'))
    (hs : SameFor members v d (.conversationSnapshot i doc) (.conversationSnapshot i doc'))
    (h : d.step (.conversationSnapshot i doc) = some (n, ws))
    (h' : d'.step (.conversationSnapshot i doc') = some (n', ws')) :
    SameView members v (lastAccount es) n n' := by
  obtain ⟨self, p, s, hself, hp, hl, rfl, -⟩ := step_conversationSnapshot h
  obtain ⟨self', p', s', hself', hp', hl', rfl, -⟩ := step_conversationSnapshot h'
  obtain ⟨own, hown, -⟩ := (hR i self hself).rows
  obtain ⟨own', hown', -⟩ := (hR' i self' hself').rows
  have hab := forall₂_getElem? hV.instances hself hself'
  have hpp : self'.docRefc = some p := hab.docRefc.trans hp
  have build := fun hrows hcache => hV.of_callbacks hab hown hown' hp hl hl' hrows hcache i
  by_cases hm : v ∈ members self.chatWithId
  · obtain rfl := hs.doc_eq hself hp (mem_of_named (hR i self hself) hp hm)
    obtain ⟨hrows, hcache⟩ :=
      conversationListener_congr hown (hab.rows (.inl hm)) (hV.group _ hm) hl hl'
    exact build (fun _ => hrows) fun _ => hcache
  · by_cases hv : lastAccount es = some v
    · by_cases hpv : p = .conversation v self.chatWithId
      · obtain rfl := hs.doc_eq hself hp (hpv ▸ .inl rfl)
        have hrows : SameRows self self' := hab.rows (.inr (hpv ▸ hp))
        obtain ⟨hrows, hcache⟩ :=
          conversationListener_congr hown hrows (by rw [hV.all hv]) hl hl'
        exact build (fun _ => hrows) fun _ => hcache
      · have hnot : ∀ u, lastAccount es = some u → ¬ IsOwn members u self.chatWithId p := by
          intro u hu
          obtain rfl := Option.some.inj (hv.symm.trans hu)
          rintro (h | ⟨-, h⟩)
          · exact hpv h
          · exact hm h
        obtain rfl := nothing_new hown hself hp hQ hnot hl
        obtain rfl := nothing_new hown' hself' hpp hQ' (by rwa [hab.chatWithId, hlast]) hl'
        refine build (fun h => ?_) fun _ => by rw [hV.all hv]
        rcases h with h | h
        · exact absurd h hm
        · exact absurd h hpv
    · refine build (fun h => ?_) fun h => ?_
      · rcases h with h | rfl
        · exact absurd h hm
        · -- the conversation of `v`, while another account is the last
          obtain rfl := hs.doc_eq hself hp (.inl rfl)
          have hnot : ∀ u, lastAccount es = some u →
              ¬ IsOwn members u self.chatWithId (.conversation v self.chatWithId) := by
            rintro u hu (h | ⟨h, -⟩)
            · obtain ⟨rfl, -⟩ := DocPath.conversation.inj h
              exact hv hu
            · cases h
          obtain rfl := nothing_new hown hself hp hQ hnot hl
          obtain rfl := nothing_new hown' hself' hpp hQ' (by rwa [hab.chatWithId, hlast]) hl'
          exact hab.rows (.inr hp)
      · rcases h with h | h
        · exact absurd h hm
        · exact absurd h hv

theorem SameView.step (hV : SameView members v (lastAccount es) d d')
    (hlast : lastAccount es' = lastAccount es) (hR : RowsFrom es d) (hR' : RowsFrom es' d')
    (hQ : KeepsApart members es d e) (hQ' : KeepsApart members es' d' e')
    (hs : SameFor members v d e e') (h : d.step e = some (n, ws))
    (h' : d'.step e' = some (n', ws')) :
    SameView members v (lastAccount (es ++ [e])) n n' := by
  have huser : n'.currentUser = n.currentUser := by
    rw [step_currentUser h, step_currentUser h', hV.user, hs.userAfter_eq]
  by_cases he : e.TouchesRows
  · cases e with
    | signout =>
      cases hs
      obtain ⟨rfl, -⟩ := Prod.mk.inj (Option.some.inj h)
      obtain ⟨rfl, -⟩ := Prod.mk.inj (Option.some.inj h')
      exact ⟨rfl, hV.instances, fun _ _ => rfl, fun _ => rfl⟩
    | openChat id g =>
      cases hs
      obtain ⟨u, kept, hu, -, rfl, -⟩ := step_openChat h
      obtain ⟨u', kept', hu', -, rfl, -⟩ := step_openChat h'
      obtain rfl : u' = u := Option.some.inj (hu'.symm.trans (hV.user.trans hu))
      rw [lastAccount_snoc (by simp)]
      refine ⟨hV.user, List.rel_append hV.instances ?_, hV.group, hV.all⟩
      exact .cons ⟨rfl, rfl, fun _ => .refl _⟩ .nil
    | conversationSnapshot i doc =>
      obtain ⟨doc', rfl⟩ : ∃ doc', e' = .conversationSnapshot i doc' := by
        cases hs <;> exact ⟨_, rfl⟩
      rw [lastAccount_snoc (by simp)]
      exact hV.step_snapshot hlast hR hR' hQ hQ' hs h h'
    | _ => exact he.elim
  · obtain ⟨hcache, hi⟩ := step_sameRows he h
    obtain ⟨hcache', hi'⟩ := step_sameRows (mt hs.touchesRows_iff.1 he) h'
    have hgroup : ∀ c, v ∈ members c →
        n'.globals.cacheMessage[c]? = n.globals.cacheMessage[c]? := by
      rw [hcache, hcache']
      exact hV.group
    refine ⟨huser, forall₂_sameInstance_trans hV.instances hi hi', hgroup, fun hv => ?_⟩
    by_cases hlv : lastAccount es = some v
    · rw [hcache, hcache', hV.all hlv]
    · -- the account changes to `v`, and only groups of `v` are cached
      cases e with
      | signIn user =>
        cases hs
        rw [lastAccount_snoc_signIn] at hv
        obtain rfl := Option.some.inj hv
        rw [hcache, hcache']
        refine Std.ExtTreeMap.ext_getElem? fun c => ?_
        by_cases hc : user.uid ∈ members c
        · exact hV.group c hc
        · have hnone : d.globals.cacheMessage[c]? = none := by
            refine Option.eq_none_iff_forall_ne_some.2 fun columns hcol => hc ?_
            exact ((hQ.resolve_left hlv) c columns hcol).1
          have hnone' : d'.globals.cacheMessage[c]? = none := by
            refine Option.eq_none_iff_forall_ne_some.2 fun columns hcol => hc ?_
            exact ((hQ'.resolve_left (by rwa [hlast])) c columns hcol).1
          rw [hnone, hnone']
      | _ =>
        rw [lastAccount_snoc (by simp)] at hv
        exact absurd hv hlv

theorem sameView_of_run {es : List (Event × Event)}
    (h : EventRun.run (EventRun.both next) ({}, {}) es = some (d, d'))
    (hs : EventRun.Meets (EventRun.both next) (fun _ p e => SameFor members v p.1 e.1 e.2)
      ({}, {}) es)
    (hQ : EventRun.Meets next (KeepsApart members) {} (es.map Prod.fst))
    (hQ' : EventRun.Meets next (KeepsApart members) {} (es.map Prod.snd)) :
    lastAccount (es.map Prod.snd) = lastAccount (es.map Prod.fst) ∧
      SameView members v (lastAccount (es.map Prod.fst)) d d' := by
  induction es using List.reverseRecOn generalizing d d' with
  | nil =>
    obtain ⟨rfl, rfl⟩ := Prod.mk.inj (Option.some.inj h)
    exact ⟨rfl, rfl, .nil, fun _ _ => rfl, fun _ => rfl⟩
  | append_singleton es e ih =>
    obtain ⟨⟨m, m'⟩, hm, he⟩ := EventRun.run_snoc_eq_some _ h
    obtain ⟨hn, hn'⟩ := (EventRun.both_eq_some next).1 he
    obtain ⟨hm₁, hm₂⟩ := (EventRun.run_both next).1 hm
    rw [List.map_append, List.map_singleton] at hQ hQ'
    obtain ⟨hlast, hV⟩ := ih hm (hs.init _) (hQ.init _) (hQ'.init _)
    have hse := hs.last _ hm
    obtain ⟨ws, hn⟩ := exists_step_of_next hn
    obtain ⟨ws', hn'⟩ := exists_step_of_next hn'
    simp only [List.map_append, List.map_singleton]
    exact ⟨hse.lastAccount_eq hlast, hV.step hlast (rowsFrom_of_run hm₁) (rowsFrom_of_run hm₂)
      (hQ.last _ hm₁) (hQ'.last _ hm₂) hse hn hn'⟩

/-- Two runs that differ only in messages of conversations `v` has no part in. -/
def Alike (members : String → List String) (v : String) (es es' : List Event) : Prop :=
  es'.length = es.length ∧ EventRun.Meets (EventRun.both next)
    (fun _ p e => SameFor members v p.1 e.1 e.2) ({}, {}) (es.zip es')

/-- The account signed in sees only records of its own conversations, and sees the same rows in
every run that differs in messages of conversations it has no part in, as long as the process
keeps accounts apart. -/
theorem no_leak {members : String → List String} {es : List Event} {d : Device}
    (h : EventRun.run next {} es = some d)
    (hQ : EventRun.Meets next (KeepsApart members) {} es) {v : User}
    (hv : d.currentUser = some v) :
    ShowsOwn members es d v.uid ∧ ∀ es' d', EventRun.run next {} es' = some d' →
      EventRun.Meets next (KeepsApart members) {} es' → Alike members v.uid es es' →
      d'.currentUser = some v ∧ d'.globals.cacheMessage = d.globals.cacheMessage := by
  refine ⟨showsOwn_of_run hQ h hv, fun es' d' h' hQ' ⟨hlen, hs⟩ => ?_⟩
  have hfst : (es.zip es').map Prod.fst = es := List.map_fst_zip (Nat.le_of_eq hlen.symm)
  have hsnd : (es.zip es').map Prod.snd = es' := List.map_snd_zip (Nat.le_of_eq hlen)
  have hboth : EventRun.run (EventRun.both next) ({}, {}) (es.zip es') = some (d, d') :=
    (EventRun.run_both next).2 ⟨by rw [hfst]; exact h, by rw [hsnd]; exact h'⟩
  obtain ⟨-, hV⟩ := sameView_of_run hboth hs (by rwa [hfst]) (by rwa [hsnd])
  rw [hfst] at hV
  exact ⟨hV.user.trans hv, hV.all (lastAccount_of_run h hv)⟩

/-- `u` gets a message in the chat with `c`, signs out the way that empties the cache, and `v`
signs in and gets a message in the chat with `c`. -/
def relogin (text : String) : List Event :=
  [.signIn { uid := "u" }, .openChat "c" false,
    .conversationSnapshot 0 (some (.ofDict (.ofList [("1", [text, "u", "false"])]))),
    .signout, .signIn { uid := "v" }, .openChat "c" false,
    .conversationSnapshot 1 (some (.ofDict (.ofList [("2", ["you", "c", "false"])])))]

/-- The chat and the document of every instance. -/
def listening (d : Device) : List (String × Option DocPath) :=
  d.instances.map fun self => (self.chatWithId, self.docRefc)

theorem exists_of_listening {d : Device} {i : ℕ} {l : List (String × Option DocPath)} {c : String}
    {p : Option DocPath} (h : listening d = l) (hi : l[i]? = some (c, p)) :
    ∃ self, d.instances[i]? = some self ∧ self.chatWithId = c ∧ self.docRefc = p := by
  rw [← h, listening, List.getElem?_map] at hi
  obtain ⟨self, hself, hcp⟩ := Option.map_eq_some_iff.1 hi
  obtain ⟨hc, hp⟩ := Prod.mk.inj hcp
  exact ⟨self, hself, hc, hp⟩

theorem relogin_listening {text : String} (htext : text = "hi" ∨ text = "ho") :
    (∀ m, EventRun.run next {} ((relogin text).take 2) = some m →
      listening m = [("c", some (.conversation "u" "c"))]) ∧
    (∀ m, EventRun.run next {} ((relogin text).take 4) = some m →
      m.globals.cacheMessage = ∅) ∧
    ∀ m, EventRun.run next {} ((relogin text).take 6) = some m →
      listening m = [("c", some (.conversation "u" "c")), ("c", some (.conversation "v" "c"))] := by
  rcases htext with rfl | rfl
  · refine ⟨?_, ?_, ?_⟩ <;> decide
  · refine ⟨?_, ?_, ?_⟩ <;> decide

theorem isOwn_of_listening {d : Device} {i : ℕ} {l : List (String × Option DocPath)} {u c : String}
    (h : listening d = l) (hi : l[i]? = some (c, some (.conversation u c)))
    {self : ChatViewController} {p : DocPath} (hself : d.instances[i]? = some self)
    (hp : self.docRefc = some p) : IsOwn (fun _ => []) u self.chatWithId p := by
  obtain ⟨self', hself', hc, hp'⟩ := exists_of_listening h hi
  obtain rfl := Option.some.inj (hself.symm.trans hself')
  rw [hc]
  exact .inl (Option.some.inj (hp.symm.trans hp'))

theorem relogin_keepsApart {text : String} (htext : text = "hi" ∨ text = "ho") :
    EventRun.Meets next (KeepsApart fun _ => []) {} (relogin text) := by
  obtain ⟨hu, hempty, hv⟩ := relogin_listening htext
  show EventRun.Meets next _ {} ([] ++ [_] ++ [_] ++ [_] ++ [_] ++ [_] ++ [_] ++ [_])
  refine .snoc _ (.snoc _ (.snoc _ (.snoc _ (.snoc _ (.snoc _ (.snoc _
    (EventRun.meets_nil next _ _) ?_) (fun _ _ => trivial)) ?_) (fun _ _ => trivial)) ?_)
      (fun _ _ => trivial)) ?_
  · rintro m hm
    obtain rfl := Option.some.inj hm
    exact .inr fun c columns hc => by simp at hc
  · exact fun m hm self p hself hp => .inr ⟨"u", rfl, isOwn_of_listening (hu m hm) rfl hself hp⟩
  · rintro m hm
    refine .inr fun c columns hc => ?_
    rw [hempty m hm] at hc
    simp at hc
  · exact fun m hm self p hself hp => .inr ⟨"v", rfl, isOwn_of_listening (hv m hm) rfl hself hp⟩

theorem relogin_alike : Alike (fun _ => []) "v" (relogin "hi") (relogin "ho") := by
  refine ⟨rfl, ?_⟩
  show EventRun.Meets _ _ (({}, {}) : Device × Device)
    ([] ++ [_] ++ [_] ++ [_] ++ [_] ++ [_] ++ [_] ++ [_])
  refine .snoc _ (.snoc _ (.snoc _ (.snoc _ (.snoc _ (.snoc _ (.snoc _
    (EventRun.meets_nil _ _ _) (fun _ _ => .same _)) (fun _ _ => .same _)) ?_) (fun _ _ => .same _))
      (fun _ _ => .same _)) (fun _ _ => .same _)) (fun _ _ => .same _)
  intro m hm
  have hu := (relogin_listening (.inl rfl)).1 m.1 ((EventRun.run_both next).1 hm).1
  obtain ⟨self, hself, -, hp⟩ := exists_of_listening (i := 0) hu rfl
  refine .conversationSnapshot _ _ hself hp ?_
  simp [HasPart]

theorem no_leak_relogin : ∃ d d', EventRun.run next {} (relogin "hi") = some d ∧
    EventRun.run next {} (relogin "ho") = some d' ∧
    ShowsOwn (fun _ => []) (relogin "hi") d "v" ∧
    d'.globals.cacheMessage = d.globals.cacheMessage := by
  obtain ⟨d, hd⟩ := Option.isSome_iff_exists.1
    (by decide : (EventRun.run next {} (relogin "hi")).isSome)
  obtain ⟨d', hd'⟩ := Option.isSome_iff_exists.1
    (by decide : (EventRun.run next {} (relogin "ho")).isSome)
  have hv : ∀ d, EventRun.run next {} (relogin "hi") = some d →
      d.currentUser = some { uid := "v" } := by decide
  obtain ⟨hown, hsame⟩ := no_leak hd (relogin_keepsApart (.inl rfl)) (hv d hd)
  exact ⟨d, d', hd, hd', hown,
    (hsame _ d' hd' (relogin_keepsApart (.inr rfl)) relogin_alike).2⟩

/-- After `SignoutClick`, `v` is shown the conversation of `u` with `c`. -/
theorem not_always_no_leak :
    ¬ ∀ members es d v, EventRun.run next {} es = some d → d.currentUser = some v →
      ShowsOwn members es d v.uid ∧ ∀ es' d', EventRun.run next {} es' = some d' →
        Alike members v.uid es es' →
        d'.currentUser = some v ∧ d'.globals.cacheMessage = d.globals.cacheMessage := by
  intro h
  have hs := (h (fun _ => []) [.signIn { uid := "u" }, .openChat "c" false,
    .conversationSnapshot 0 (some (.ofDict (.ofList [("1", ["hi", "u", "false"])]))),
    .signoutClick, .signIn { uid := "v" }] _ _ rfl rfl).1
  obtain ⟨rows, hcols, hrows⟩ := hs "c" _ rfl
  have hcols : [["1"], ["u"], ["hi"], ["false"]] = Row.columns rows := hcols
  obtain ⟨r, hr⟩ : ∃ r, r ∈ rows := by
    refine List.exists_mem_of_ne_nil rows ?_
    rintro rfl
    simp [Row.columns] at hcols
  obtain ⟨p, doc, hp, ⟨i, self, -, hi, hself⟩, -⟩ := hrows r hr
  obtain ⟨hi0, rfl⟩ := List.getElem?_eq_some_iff.1 hi
  have hi0 : i < 1 := hi0
  obtain rfl : i = 0 := Nat.lt_one_iff.1 hi0
  obtain rfl := Option.some.inj hself
  rcases hp with hp | ⟨hp, -⟩
  · exact absurd hp (by decide)
  · cases hp

end Device

end MessageApp
