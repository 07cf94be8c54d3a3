import MessageApp.Proofs.DeviceSteps

/-!
# Whose unread messages an opening writes back

One `bufferChat` serves every account of the process, and the listeners of earlier accounts keep
assigning it. Between two snapshots it is the last one delivered, less the entries from the chats
opened since (`bufferIs_of_run`), so an opening writes back its own account's entries exactly when
that snapshot was its own, or nothing foreign is left of it (`writesOwn_iff`).
-/

namespace MessageApp

namespace ChatViewController

theorem foldlM_clean {c : String} :
    ∀ (es : List (String × List String)) {b kept : Dict (List String)},
      es.foldlM (fun kept e => do
        let sender ← e.2[1]?
        if sender = c then some (kept.erase e.1) else some kept) b = some kept →
      (∀ e ∈ es, e.2[1]?.isSome) ∧
        ∀ (k : String) (l : List String), kept[k]? = some l ↔
          b[k]? = some l ∧ ∀ e ∈ es, e.1 = k → e.2[1]? ≠ some c
  | [], b, kept, h => by
    simp only [List.foldlM_nil, Option.pure_def, Option.some.injEq] at h
    simp [h]
  | e :: es, b, kept, h => by
    rw [List.foldlM_cons] at h
    obtain ⟨m, hm, h⟩ := Option.bind_eq_some_iff.1 h
    obtain ⟨sender, hsender, hm⟩ := Option.bind_eq_some_iff.1 hm
    obtain ⟨hall, hkept⟩ := foldlM_clean es h
    refine ⟨fun e' he' => ?_, fun k l => ?_⟩
    · rcases List.mem_cons.1 he' with rfl | he'
      · rw [hsender]
        rfl
      · exact hall e' he'
    · have hmk : m[k]? = some l ↔ b[k]? = some l ∧ (e.1 = k → e.2[1]? ≠ some c) := by
        rw [hsender]
        split_ifs at hm with hc
        · rw [← Option.some.inj hm, Std.ExtTreeMap.getElem?_erase]
          by_cases hk : e.1 = k <;> simp [hk, hc]
        · rw [← Option.some.inj hm]
          simp [hc]
      rw [hkept, hmk, List.forall_mem_cons, and_assoc]

/-- What is left is what another sender has sent; every entry has a sender. -/
theorem cleanBufferChat_eq_some {c : String} {b kept : Dict (List String)}
    (h : cleanBufferChat c b = some kept) :
    (∀ (k : String) (l : List String), b[k]? = some l → l[1]?.isSome) ∧
      ∀ (k : String) (l : List String), kept[k]? = some l ↔ b[k]? = some l ∧ l[1]? ≠ some c := by
  obtain ⟨hall, hkept⟩ := foldlM_clean b.toList h
  refine ⟨fun k l hk => ?_, fun k l => ?_⟩
  · exact hall (k, l) (Std.ExtTreeMap.mem_toList_iff_getElem?_eq_some.2 hk)
  · rw [hkept]
    refine and_congr_right fun hk => ⟨fun h => ?_, ?_⟩
    · exact h (k, l) (Std.ExtTreeMap.mem_toList_iff_getElem?_eq_some.2 hk) rfl
    · rintro hl ⟨k', l'⟩ he rfl
      have he : b[k']? = some l' := Std.ExtTreeMap.mem_toList_iff_getElem?_eq_some.1 he
      rw [hk] at he
      rwa [← Option.some.inj he]

end ChatViewController

namespace Device

open ChatViewController

/-- The Buffer snapshot delivered last, with its account, and the chats opened since. -/
def lastBuffer (es : List Event) : Option (String × Doc) × List String :=
  es.foldl (fun last e => match e with
    | .bufferSnapshot uid (some doc) => (some (uid, doc), [])
    | .openChat id _ => (last.1, id :: last.2)
    | _ => last) (none, [])

/-- The opening writes to its account's Buffer what a snapshot of that Buffer has delivered. -/
def WritesOwn (es : List Event) (d : Device) : Event → Prop
  | .openChat id isGroupChat => ∀ v d' ws data merge, d.currentUser = some v →
      d.step (.openChat id isGroupChat) = some (d', ws) →
      .setData (.buffer v.uid) data merge ∈ ws →
      ∀ (k : String) (x : Value), data[k]? = some x →
        ∃ doc, Event.bufferSnapshot v.uid (some doc) ∈ es ∧ doc[k]? = some x
  | _ => True

/-- The Buffer snapshot delivered last is the account's own, or each entry of it is from the chat
opened now or one opened since, or is in a snapshot of the account's own too. -/
def OpensOwn (es : List Event) (d : Device) : Event → Prop
  | .openChat id _ => ∀ v uid last, d.currentUser = some v → (lastBuffer es).1 = some (uid, last) →
      uid = v.uid ∨ ∀ (k : String) l, last[k]? = some (Value.ofStrings l) →
        (∃ s, l[1]? = some s ∧ s ∈ id :: (lastBuffer es).2) ∨
        ∃ doc, Event.bufferSnapshot v.uid (some doc) ∈ es ∧ doc[k]? = some (Value.ofStrings l)
  | _ => True

/-- A snapshot of the account's Buffer delivered the field. -/
def Event.brings (uid k : String) (x : Value) : Event → Bool
  | .bufferSnapshot uid' (some doc) => uid' = uid ∧ doc[k]? = some x
  | _ => false

theorem exists_brings_iff {es : List Event} {uid k : String} {x : Value} :
    (∃ e ∈ es, e.brings uid k x = true) ↔
      ∃ doc, Event.bufferSnapshot uid (some doc) ∈ es ∧ doc[k]? = some x := by
  constructor
  · rintro ⟨e, he, hb⟩
    unfold Event.brings at hb
    split at hb
    · obtain ⟨rfl, hk⟩ := of_decide_eq_true hb
      exact ⟨_, he, hk⟩
    · cases hb
  · rintro ⟨doc, he, hk⟩
    exact ⟨_, he, decide_eq_true ⟨rfl, hk⟩⟩

theorem opensOwn_iff {es : List Event} {d : Device} {id : String} {isGroupChat : Bool} :
    (∀ v ∈ d.currentUser, ∀ last ∈ (lastBuffer es).1, last.1 = v.uid ∨
      ∀ e ∈ last.2.toList, ∀ l ∈ e.2.strings?,
        (∃ s ∈ l[1]?, s ∈ id :: (lastBuffer es).2) ∨
        ∃ e' ∈ es, e'.brings v.uid e.1 (.ofStrings l) = true) ↔
      OpensOwn es d (.openChat id isGroupChat) := by
  simp only [exists_brings_iff]
  constructor
  · intro h v uid last hv hlast
    refine (h v hv (uid, last) hlast).imp_right fun h k l hk => ?_
    exact h (k, .ofStrings l) (Std.ExtTreeMap.mem_toList_iff_getElem?_eq_some.2 hk) l
      (Value.strings?_ofStrings l)
  · intro h v hv last hlast
    refine (h v last.1 last.2 hv hlast).imp_right fun h e he l hl => h e.1 l ?_
    rw [← Value.ofStrings_of_strings? hl]
    exact Std.ExtTreeMap.mem_toList_iff_getElem?_eq_some.1 he

instance (es : List Event) (d : Device) : DecidablePred (OpensOwn es d)
  | .openChat _ _ => decidable_of_iff _ opensOwn_iff
  | .conversationSnapshot _ _ | .signIn _ | .signoutClick | .signout | .bufferSnapshot _ _
  | .roomMemberFetched _ _ | .finishEditing _ _ _ | .voiceCompletion _ _ _ | .runBlock _ =>
    .isTrue trivial

/-- `bufferChat` is the last snapshot without the entries from the chats opened since. -/
def BufferIs (es : List Event) (d : Device) : Prop :=
  ∀ (k : String) l, d.globals.bufferChat[k]? = some l ↔
    ∃ uid last, (lastBuffer es).1 = some (uid, last) ∧
      last[k]? = some (Value.ofStrings l) ∧ ∀ id ∈ (lastBuffer es).2, l[1]? ≠ some id

theorem lastBuffer_snoc_openChat (es : List Event) (id : String) (g : Bool) :
    lastBuffer (es ++ [.openChat id g]) = ((lastBuffer es).1, id :: (lastBuffer es).2) := by
  simp [lastBuffer]

theorem lastBuffer_snoc_bufferSnapshot (es : List Event) (uid : String) (doc : Doc) :
    lastBuffer (es ++ [.bufferSnapshot uid (some doc)]) = (some (uid, doc), []) := by
  simp [lastBuffer]

theorem mem_of_lastBuffer {es : List Event} {uid : String} {doc : Doc} :
    (lastBuffer es).1 = some (uid, doc) → .bufferSnapshot uid (some doc) ∈ es := by
  induction es using List.reverseRecOn with
  | nil => simp [lastBuffer]
  | append_singleton es e ih =>
    intro h
    rw [List.mem_append, List.mem_singleton]
    by_cases he : ∃ uid' doc', e = .bufferSnapshot uid' (some doc')
    · obtain ⟨uid', doc', rfl⟩ := he
      rw [lastBuffer_snoc_bufferSnapshot] at h
      obtain ⟨rfl, rfl⟩ := Prod.mk.inj (Option.some.inj h)
      exact .inr rfl
    · refine .inl (ih ?_)
      unfold lastBuffer at h ⊢
      rw [List.foldl_append] at h
      simp only [List.foldl_cons, List.foldl_nil] at h
      split at h
      · exact absurd ⟨_, _, rfl⟩ he
      · exact h
      · exact h

/-- The events that touch `bufferChat`. -/
def Event.TouchesBuffer : Event → Prop
  | .bufferSnapshot _ _ | .openChat _ _ => True
  | _ => False

theorem lastBuffer_snoc_of_not {e : Event} (he : ¬ e.TouchesBuffer) (es : List Event) :
    lastBuffer (es ++ [e]) = lastBuffer es := by
  unfold lastBuffer
  rw [List.foldl_append]
  cases e with
  | bufferSnapshot uid doc => exact absurd trivial he
  | openChat id g => exact absurd trivial he
  | _ => rfl

theorem step_bufferChat_eq {d d' : Device} {ws : List Write} {e : Event}
    (he : ¬ e.TouchesBuffer) (h : d.step e = some (d', ws)) :
    d'.globals.bufferChat = d.globals.bufferChat := by
  cases e with
  | bufferSnapshot uid doc => exact absurd trivial he
  | openChat id g => exact absurd trivial he
  | signIn user =>
    obtain ⟨rfl, -⟩ := Prod.mk.inj (Option.some.inj h)
    rfl
  | signoutClick =>
    obtain ⟨rfl, -⟩ := Prod.mk.inj (Option.some.inj h)
    rfl
  | signout =>
    obtain ⟨rfl, -⟩ := Prod.mk.inj (Option.some.inj h)
    rfl
  | conversationSnapshot i doc =>
    obtain ⟨self, p, s, -, -, -, rfl, -⟩ := step_conversationSnapshot h
    rfl
  | roomMemberFetched i doc =>
    obtain ⟨self, self', -, -, -, rfl, -⟩ := step_roomMemberFetched h
    rfl
  | finishEditing i text t =>
    obtain ⟨self, r, -, -, hd⟩ := step_finishEditing h
    obtain ⟨rfl, -⟩ := Prod.mk.inj hd
    rfl
  | voiceCompletion i url t =>
    obtain ⟨self, r, -, -, hd⟩ := step_voiceCompletion h
    obtain ⟨rfl, -⟩ := Prod.mk.inj hd
    rfl
  | runBlock j =>
    obtain ⟨i, b, self, -, -, rfl, -⟩ := step_runBlock h
    rfl

theorem BufferIs.step {es : List Event} {d d' : Device} {ws : List Write} {e : Event}
    (hI : BufferIs es d) (h : d.step e = some (d', ws)) : BufferIs (es ++ [e]) d' := by
  by_cases he : e.TouchesBuffer
  · cases e with
    | bufferSnapshot uid doc =>
      obtain ⟨data, b, rfl, hb, rfl, -⟩ := step_bufferSnapshot h
      intro k l
      rw [lastBuffer_snoc_bufferSnapshot]
      have hk := Doc.dict?_eq_some hb k
      constructor
      · intro hl
        have hl : b[k]? = some l := hl
        exact ⟨uid, data, rfl, by rw [hk, hl]; rfl, by simp⟩
      · rintro ⟨uid', last, hlast, hl, -⟩
        obtain ⟨rfl, rfl⟩ := Prod.mk.inj (Option.some.inj hlast)
        rw [hk] at hl
        obtain ⟨l', hl', he⟩ := Option.map_eq_some_iff.1 hl
        rw [Value.ofStrings_inj.1 he] at hl'
        exact hl'
    | openChat id g =>
      obtain ⟨v, kept, -, hkept, rfl, -⟩ := step_openChat h
      obtain ⟨-, hkept⟩ := cleanBufferChat_eq_some hkept
      intro k l
      have hl : kept[k]? = some l ↔ d.globals.bufferChat[k]? = some l ∧ l[1]? ≠ some id :=
        hkept k l
      rw [lastBuffer_snoc_openChat, hl, hI k l]
      simp only [List.forall_mem_cons]
      constructor
      · rintro ⟨⟨uid, last, hlast, hk, hsince⟩, hid⟩
        exact ⟨uid, last, hlast, hk, hid, hsince⟩
      · rintro ⟨uid, last, hlast, hk, hid, hsince⟩
        exact ⟨⟨uid, last, hlast, hk, hsince⟩, hid⟩
    | _ => exact he.elim
  · intro k l
    rw [lastBuffer_snoc_of_not he, step_bufferChat_eq he h]
    exact hI k l

theorem bufferIs_of_run {es : List Event} {d : Device} (h : EventRun.run next {} es = some d) :
    BufferIs es d := by
  refine EventRun.run_history next ?_ ?_ h
  · intro k l
    simp [lastBuffer]
  · intro es m e t _ hI hs
    obtain ⟨ws, hs⟩ := exists_step_of_next hs
    exact hI.step hs

/-- An opening writes the entries of the last snapshot that are not from the chat opened now or
one opened since. -/
theorem writesOwn_iff {es : List Event} {d d' : Device} {e : Event} (hI : BufferIs es d)
    (h : d.next e = some d') : WritesOwn es d e ↔ OpensOwn es d e := by
  obtain ⟨ws, hs⟩ := exists_step_of_next h
  cases e with
  | openChat id g =>
    obtain ⟨v, kept, hv, hkept, rfl, rfl⟩ := step_openChat hs
    obtain ⟨hsender, hkept⟩ := cleanBufferChat_eq_some hkept
    constructor
    · intro hw v' uid last hv' hlast
      obtain rfl := Option.some.inj (hv.symm.trans hv')
      refine .inr fun k l hk => ?_
      by_cases hs' : ∃ s, l[1]? = some s ∧ s ∈ id :: (lastBuffer es).2
      · exact .inl hs'
      · refine .inr (hw v _ _ _ _ hv hs List.mem_cons_self k _ ?_)
        have hne : ∀ s ∈ id :: (lastBuffer es).2, l[1]? ≠ some s :=
          fun s hs hl => hs' ⟨s, hl, hs⟩
        have hb : d.globals.bufferChat[k]? = some l :=
          (hI k l).2 ⟨uid, last, hlast, hk, fun s hs => hne s (List.mem_cons_of_mem _ hs)⟩
        rw [Doc.getElem?_ofDict, (hkept k l).2 ⟨hb, hne id List.mem_cons_self⟩]
        rfl
    · intro ho v' d'' ws data merge hv' hs' hw k x hx
      obtain rfl := Option.some.inj (hv.symm.trans hv')
      obtain ⟨-, rfl⟩ := Prod.mk.inj (Option.some.inj (hs.symm.trans hs'))
      have hdata : data = .ofDict kept := by
        simp only [List.mem_cons, Write.setData.injEq, true_and, reduceCtorEq, List.not_mem_nil,
          or_false] at hw
        exact hw.1
      rw [hdata, Doc.getElem?_ofDict] at hx
      obtain ⟨l, hl, rfl⟩ := Option.map_eq_some_iff.1 hx
      obtain ⟨hb, hid⟩ := (hkept k l).1 hl
      obtain ⟨uid, last, hlast, hk, hsince⟩ := (hI k l).1 hb
      rcases ho v uid last hv hlast with rfl | hown
      · exact ⟨last, mem_of_lastBuffer hlast, hk⟩
      · rcases hown k l hk with ⟨s, hl, hmem⟩ | hown
        · rcases List.mem_cons.1 hmem with rfl | hmem
          · exact absurd hl hid
          · exact absurd hl (hsince s hmem)
        · exact hown
  | _ => exact Iff.rfl

/-- In a run, every opening writes to its account's Buffer only what snapshots of that Buffer
delivered, if and only if at every opening the last snapshot was the account's own or nothing
foreign is left of it. -/
theorem buffer_own_iff {es : List Event} {d : Device} (h : EventRun.run next {} es = some d) :
    EventRun.Meets next WritesOwn {} es ↔ EventRun.Meets next OpensOwn {} es :=
  EventRun.meets_congr (I := fun _ _ => True) next trivial
    (fun _ _ _ _ hm _ hs => ⟨writesOwn_iff (bufferIs_of_run hm) hs, fun _ => trivial⟩) h

/-- `u`'s unread message arrives, `u` signs out, `v` signs in and opens a chat. -/
def switching : List Event :=
  [.signIn { uid := "u" },
    .bufferSnapshot "u" (some (.ofDict (.ofList [("1", ["hi", "s", "false"])]))),
    .signoutClick, .signIn { uid := "v" }, .openChat "w" false]

/-- `v` opens a chat once a snapshot of its own has arrived, and the chat with `s` after a late one
of `u`'s. -/
def switchingInTime : List Event :=
  switching.take 4 ++
    [.bufferSnapshot "v" (some (.ofDict (.ofList [("2", ["yo", "t", "false"])]))),
      .openChat "w" false,
      .bufferSnapshot "u" (some (.ofDict (.ofList [("1", ["hi", "s", "false"])]))),
      .openChat "s" false]

theorem buffer_own_switchingInTime : (EventRun.run next {} switchingInTime).isSome ∧
    EventRun.Meets next WritesOwn {} switchingInTime := by
  obtain ⟨d, hd⟩ := Option.isSome_iff_exists.1
    (by decide +kernel : (EventRun.run next {} switchingInTime).isSome)
  exact ⟨hd ▸ rfl, (buffer_own_iff hd).2 (EventRun.meets_of_take _ (by decide +kernel))⟩

/-- The message of `u` is written into the store of `v`. -/
theorem not_buffer_always_own :
    ¬ ∀ es d, EventRun.run next {} es = some d → EventRun.Meets next WritesOwn {} es := by
  intro h
  obtain ⟨d, hd⟩ : ∃ d, EventRun.run next {} switching = some d := ⟨_, rfl⟩
  have hw := h switching d hd (switching.take 4) _ [] _ rfl rfl _ _ _ _ _ rfl rfl
    List.mem_cons_self "1" _ rfl
  obtain ⟨doc, hdoc, -⟩ := hw
  simp [switching] at hdoc

end Device

end MessageApp
