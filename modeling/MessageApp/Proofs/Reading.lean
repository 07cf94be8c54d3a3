import MessageApp.Proofs.Buffers

/-!
# When read messages do not stay unread

Opening a chat writes back a Buffer without the messages from its sender; nothing else removes any.
So while no message is merged into it after that write, the Buffer has none from the sender
(`Visits.Clean`), and one that was shown does not come back if no opening writes back what the
Buffer no longer has (`read_gone`). A message that arrives while its chat is on the screen is shown,
and stays unread (`not_read_always_gone`).
-/

namespace MessageApp

namespace World

variable {S : Setup} {w w' : World} {e : Event}

/-- What puts an entry into a Buffer that it did not have in the end: a message that lands when no
whole Buffer will follow, and an opening whose local copy has the entry. -/
def Refills (w : World) (x k : String) (l : List String) : Event → Prop
  | .land c => ∃ data merged, w.net.pending c = .setData (.buffer x) data true :: merged ∧
      data[k]? = some (Value.ofStrings l) ∧
      ∀ whole, Write.setData (.buffer x) whole false ∉ w.net.pending x
  | .openChat c id => c = x ∧ (w.device x).globals.bufferChat[k]? = some l ∧ l[1]? ≠ some id
  | _ => False

theorem Message.entry_sender {m : Message} (hm : m.Ok S) {x k : String} {l : List String}
    (hk : (Write.setData (.buffer x) m.doc true).entry k = some (.ofStrings l)) :
    l[1]? = some m.sender := by
  have hk : m.doc[k]? = some (Value.ofStrings l) := hk
  rw [Message.getElem?_doc] at hk
  split_ifs at hk
  rw [← Value.ofStrings_inj.1 (Option.some.inj hk)]
  exact hm.record

/-- An entry that lands in a Buffer is there in the end, or was. -/
theorem drained_land (hI : Inv S w) {c x k : String} {l : List String}
    (h : w.step S (.land c) = some w')
    (hk : field (drained S w' x) k = some (.ofStrings l)) :
    field (drained S w x) k = some (.ofStrings l) ∨ Refills w x k l (.land c) := by
  obtain ⟨q, hq, h⟩ := Option.bind_eq_some_iff.1 h
  obtain rfl := Option.some.inj h
  obtain ⟨wr, hp, hlanded, hne⟩ := WriteQueue.landed_land hq
  unfold drained at hk ⊢
  rw [store_land hlanded] at hk
  by_cases hc : x = c
  · subst hc
    rw [hp, DocWrite.replay_cons]
    exact .inl hk
  have hk : field (DocWrite.replay (DocWrite.write (w.store S) wr) (w.net.pending x)
      (.buffer x)) k = some (.ofStrings l) := by
    rwa [← hne x hc]
  have hmem : wr ∈ w.net.issued c :=
    WriteQueue.mem_issued_of_mem_pending (hp ▸ List.mem_cons_self)
  by_cases hpath : DocWrite.path wr = .buffer x
  · rcases hI.write_buffer hmem hpath with ⟨m, hm, hsender, rfl⟩ | ⟨rfl, -⟩
    · by_cases hwhole : ∃ whole, Write.setData (.buffer x) whole false ∈ w.net.pending x
      · obtain ⟨whole, hwhole⟩ := hwhole
        refine .inl ?_
        rwa [DocWrite.replay_eq_of_const (p := .buffer x) hwhole rfl (fun _ _ => rfl) _
          (w.store S)] at hk
      · -- only merges of the owner follow
        push Not at hwhole
        have hmerges : ∀ wr ∈ w.net.pending x, DocWrite.path wr = .buffer x → wr.IsMerge := by
          intro wr hwr hpath
          rcases hI.write_buffer (WriteQueue.mem_issued_of_mem_pending hwr) hpath with
            ⟨m, -, -, rfl⟩ | ⟨-, data, rfl⟩
          · trivial
          · exact absurd hwr (hwhole data)
        have hmerge : (Write.setData (.buffer x) m.doc true).IsMerge := trivial
        rw [DocWrite.read_replay (field_act_of_merges hmerges k)] at hk ⊢
        rw [DocWrite.write_self hpath, hmerge.field_act] at hk
        rw [Option.or_eq_some_iff] at hk
        rcases hk with hk | ⟨hnone, hk⟩
        · exact .inl (by rw [hk]; rfl)
        · rcases Option.or_eq_some_iff.1 hk with hk | ⟨-, hk⟩
          · exact .inr ⟨m.doc, _, hp, hk, hwhole⟩
          · exact .inl (by rw [hnone, hk]; rfl)
    · exact absurd rfl hc
  · refine .inl ?_
    rw [DocWrite.replay_apply] at hk ⊢
    rwa [DocWrite.write_ne hpath] at hk

/-- An opening leaves in the Buffer what the local copy has of the other chats. -/
theorem replay_openChat {d d' : Device} {ws : List Write} {x id : String} {isGroupChat : Bool}
    (hu : (d.currentUser.map User.uid) = some x) (hid : id ≠ "Buffer")
    (hd : d.step (.openChat id isGroupChat) = some (d', ws)) (store : Store) {k : String}
    {l : List String}
    (hk : field (DocWrite.replay store ws (.buffer x)) k = some (.ofStrings l)) :
    d.globals.bufferChat[k]? = some l ∧ l[1]? ≠ some id := by
  obtain ⟨v, kept, hv, hkept, -, rfl⟩ := Device.step_openChat hd
  rw [hv] at hu
  obtain rfl := Option.some.inj hu
  have hne : DocWrite.path (Write.delete (.chatBuffer v.uid id)) ≠ .buffer v.uid :=
    fun hp => hid (DocPath.chatBuffer.inj hp).2
  have hpath : DocWrite.path (Write.setData (.buffer v.uid) (.ofDict kept) false) =
    .buffer v.uid := rfl
  rw [DocWrite.replay_cons, DocWrite.replay_cons, DocWrite.replay_nil, DocWrite.write_ne hne,
    DocWrite.write_self hpath, Write.act_replace, field_some, Doc.getElem?_ofDict] at hk
  obtain ⟨l', hl', he⟩ := Option.map_eq_some_iff.1 hk
  obtain rfl := Value.ofStrings_inj.1 he
  exact ((ChatViewController.cleanBufferChat_eq_some hkept).2 k l').1 hl'

/-- Merges of a client's own messages leave nothing new in its Buffer but these. -/
theorem replay_own {x : String} {ws : List Write} (hown : ∀ wr ∈ ws, DocWrite.path wr = .buffer x →
    ∃ m : Message, m.Ok S ∧ m.sender = x ∧ wr = .setData (.buffer x) m.doc true) {store : Store}
    {k : String} {l : List String}
    (hk : field (DocWrite.replay store ws (.buffer x)) k = some (.ofStrings l)) :
    l[1]? = some x ∨ field (store (.buffer x)) k = some (.ofStrings l) := by
  have hmerges : ∀ wr ∈ ws, DocWrite.path wr = .buffer x → wr.IsMerge := by
    intro wr hwr hpath
    obtain ⟨m, -, -, rfl⟩ := hown wr hwr hpath
    trivial
  rcases DocWrite.mem_of_read_replay (field_act_of_merges hmerges k) hk with
    ⟨wr, hwr, hpath, hentry⟩ | hk
  · obtain ⟨m, hok, hsender, rfl⟩ := hown wr hwr hpath
    exact .inl (hsender ▸ Message.entry_sender hok hentry)
  · exact .inr hk

/-- A Buffer gets an entry by a landing or an opening, or from its own client. -/
theorem drained_step (hI : Inv S w) (h : w.step S e = some w') {x k : String} {l : List String}
    (hk : field (drained S w' x) k = some (.ofStrings l)) :
    Refills w x k l e ∨ l[1]? = some x ∨
      field (drained S w x) k = some (.ofStrings l) ∧ ∀ id, e ≠ .openChat x id := by
  rcases step_cases h with ⟨c, q, rfl, -, -⟩ | ⟨c, ev, ms, d, ws, ht, hd, rfl⟩
  · rcases drained_land hI h hk with hk | hk
    · exact .inr (.inr ⟨hk, fun id => by simp⟩)
    · exact .inl hk
  · have hI' := hI.takes ht hd
    by_cases hc : x = c
    · subst hc
      have hpending : (w.after x d ws ms).net.pending x = w.net.pending x ++ ws :=
        WriteQueue.issue_pending_self _ _ _
      unfold drained at hk ⊢
      rw [hpending, DocWrite.replay_append] at hk
      by_cases hopen : ∃ id, e = .openChat x id
      · obtain ⟨id, rfl⟩ := hopen
        cases ht with
        | openChat _ hid =>
          have hu : (w.device x).currentUser.map User.uid = some x := by rw [hI.user x]; rfl
          exact .inl ⟨rfl, replay_openChat hu (ne_buffer hid) hd _ hk⟩
      · push Not at hopen
        have hown : ∀ wr ∈ ws, DocWrite.path wr = .buffer x → ∃ m : Message, m.Ok S ∧
            m.sender = x ∧ wr = .setData (.buffer x) m.doc true := by
          intro wr hwr hpath
          have hissued : wr ∈ (w.after x d ws ms).net.issued x :=
            WriteQueue.mem_issued_issue.2 (.inr ⟨rfl, hwr⟩)
          rcases hI'.write_buffer hissued hpath with ⟨m, hm, hsender, rfl⟩ | ⟨-, data, rfl⟩
          · exact ⟨m, hI'.sent m hm, hsender, rfl⟩
          · obtain ⟨id, g, v, kept, rfl, -⟩ := Device.replace_of_step hd hwr
            cases ht
            exact absurd rfl (hopen id)
        rcases replay_own hown hk with hx | hk
        · exact .inr (.inl hx)
        · exact .inr (.inr ⟨hk, hopen⟩)
    · refine .inr (.inr ⟨?_, ?_⟩)
      · have hpending : (w.after c d ws ms).net.pending x = w.net.pending x :=
          WriteQueue.issue_pending_ne _ hc ws
        unfold drained at hk ⊢
        rwa [hpending] at hk
      · rintro id rfl
        exact hc ht.client

end World

namespace Visits

variable {S : Setup} {v v' : Visits} {e : Event}

/-- A snapshot put a message from `s` into the rows of `x`'s chat with `s` while `x` was in it. -/
def Shown (S : Setup) (es : List Event) (x s k : String) (l : List String) : Prop :=
  ∃ pre i n m post v v' a b rows rows' r,
    es = pre ++ .world (.conversationSnapshot x i n m) :: post ∧
    EventRun.run (step S) start pre = some v ∧
    v.step S (.world (.conversationSnapshot x i n m)) = some v' ∧ v.opened x = some s ∧
    (v.world.device x).instances[i]? = some a ∧ a.chatWithId = s ∧ a.Holds rows ∧
    (v'.world.device x).instances[i]? = some b ∧ b.Holds rows' ∧
    r ∈ rows' ∧ r ∉ rows ∧ r.who = s ∧ r.key = k ∧ [r.text, r.who, r.audio] = l

/-- Nothing is in flight, and `bufferChat` is what the last snapshot of the Buffer shows. -/
def Settled (S : Setup) (w : World) (x : String) : Prop :=
  w.net.Rest ∧ ∀ (k : String) l, (w.device x).globals.bufferChat[k]? = some l ↔
    field (w.store S (.buffer x)) k = some (.ofStrings l)

/-- What was shown in a chat that has been left is not unread. -/
def ReadGone (S : Setup) (es : List Event) (v : Visits) : Prop :=
  ∀ x s k l, s ≠ x → v.opened x ≠ some s → Settled S v.world x → Shown S es x s k l →
    field (v.world.store S (.buffer x)) k ≠ some (.ofStrings l) ∧
      (v.world.device x).globals.bufferChat[k]? ≠ some l

/-- A message that lands in a Buffer when no whole one of its owner will follow is not from the chat
the owner is in, nor one that was shown. An opening has nothing in its local copy, but what is from
its own chat, that the Buffer will not have. -/
def ReadsClean (S : Setup) (es : List Event) (v : Visits) : Event → Prop
  | .world (.land c) => ∀ x data merged (k : String) l s,
      v.world.net.pending c = .setData (.buffer x) data true :: merged →
      data[k]? = some (Value.ofStrings l) → l[1]? = some s →
      (∀ whole, Write.setData (.buffer x) whole false ∉ v.world.net.pending x) →
      v.opened x ≠ some s ∧ ¬ Shown S es x s k l
  | .world (.openChat x id) => ∀ (k : String) l,
      (v.world.device x).globals.bufferChat[k]? = some l → l[1]? ≠ some id →
      field (World.drained S v.world x) k = some (.ofStrings l)
  | _ => True

/-- The chat the client is in after an event. -/
def openedAfter (opened : String → Option String) : World.Event → String → Option String
  | .openChat c id => Function.update opened c (some id)
  | _ => opened

/-- The fields leaving a chat empties are empty. -/
theorem disappear_eq {w : World} (hI : World.Inv S w) (c : String) : disappear w c = w := by
  have hself : ∀ self ∈ (w.device c).instances, self.viewWillDisappear = self := by
    intro self hself
    have hsarray := (hI.instances c self hself).sarray
    have htimestamp := (hI.instances c self hself).timestamp
    obtain ⟨⟩ := self
    simp only at hsarray htimestamp
    subst hsarray htimestamp
    rfl
  have hmodify : (w.device c).instances.modify ((w.device c).instances.length - 1)
      ChatViewController.viewWillDisappear = (w.device c).instances := by
    refine List.ext_getElem? fun j => ?_
    rw [List.getElem?_modify]
    split_ifs
    · cases hj : (w.device c).instances[j]? with
      | none => rfl
      | some self => exact congrArg some (hself self (List.mem_of_getElem? hj))
    · simp
  simp only [disappear, hmodify]
  exact congrArg (fun device => { w with device := device }) (Function.update_eq_self c w.device)

theorem step_cases (h : v.step S e = some v') :
    (∃ we w, e = .world we ∧ v.world.step S we = some w ∧ v' = ⟨w, openedAfter v.opened we⟩) ∨
    ∃ c, e = .viewWillDisappear c ∧
      v' = ⟨disappear v.world c, Function.update v.opened c none⟩ := by
  cases e with
  | world we =>
    obtain ⟨w, hw, h⟩ := Option.bind_eq_some_iff.1 h
    refine .inl ⟨we, w, rfl, hw, ?_⟩
    cases we <;> exact (Option.some.inj h).symm
  | viewWillDisappear c =>
    simp only [step] at h
    split_ifs at h
    exact .inr ⟨c, rfl, (Option.some.inj h).symm⟩

def Event.world? : Event → Option World.Event
  | .world e => some e
  | .viewWillDisappear _ => none

/-- Leaving changes nothing for the clients: their run is the one without it. -/
theorem world_of_run {es : List Event} (h : EventRun.run (step S) start es = some v) :
    EventRun.run (World.step S) World.start (es.filterMap Event.world?) = some v.world := by
  refine EventRun.run_history (I := fun es v =>
    EventRun.run (World.step S) World.start (es.filterMap Event.world?) = some v.world)
    (step S) rfl ?_ h
  intro es m e t _ hI hs
  rw [List.filterMap_append]
  rcases step_cases hs with ⟨we, w, rfl, hw, rfl⟩ | ⟨c, rfl, rfl⟩
  · simp only [List.filterMap_cons, List.filterMap_nil, Event.world?]
    rw [EventRun.run_snoc, hI]
    exact hw
  · rw [disappear_eq (World.inv_of_run hI)]
    show EventRun.run _ _ (es.filterMap Event.world? ++ []) = _
    rwa [List.append_nil]

theorem inv_of_run {es : List Event} (h : EventRun.run (step S) start es = some v) :
    World.Inv S v.world :=
  World.inv_of_run (world_of_run h)

/-- While a client is in a chat its Buffer has nothing from there in the end, nor anything that was
shown. -/
structure Clean (S : Setup) (es : List Event) (v : Visits) : Prop where
  opened : ∀ x s, s ≠ x → v.opened x = some s → ∀ (k : String) l, l[1]? = some s →
    field (World.drained S v.world x) k ≠ some (.ofStrings l)
  shown : ∀ x s k l, s ≠ x → Shown S es x s k l →
    field (World.drained S v.world x) k ≠ some (.ofStrings l)

theorem shown_nil (x s k : String) (l : List String) : ¬ Shown S [] x s k l := by
  rintro ⟨pre, i, n, m, post, -, -, -, -, -, -, -, hes, -⟩
  simp at hes

theorem shown_snoc {es : List Event} {x s k : String} {l : List String}
    (h : Shown S (es ++ [e]) x s k l) :
    Shown S es x s k l ∨ ∃ i n m v, e = .world (.conversationSnapshot x i n m) ∧
      EventRun.run (step S) start es = some v ∧ v.opened x = some s ∧ l[1]? = some s := by
  obtain ⟨pre, i, n, m, post, v, v', a, b, rows, rows', r, hes, hv, hs, ho, ha, hc, hrows, hb,
    hrows', hr, hnew, rfl, rfl, rfl⟩ := h
  rcases List.eq_nil_or_concat post with rfl | ⟨post, e', rfl⟩
  · obtain ⟨rfl, rfl⟩ := List.append_singleton_inj.1 hes
    exact .inr ⟨i, n, m, v, rfl, hv, ho, rfl⟩
  · rw [List.concat_eq_append, ← List.cons_append, ← List.append_assoc] at hes
    obtain ⟨rfl, -⟩ := List.append_singleton_inj.1 hes
    exact .inl ⟨pre, i, n, m, post, v, v', a, b, rows, rows', r, rfl, hv, hs, ho, ha, hc, hrows,
      hb, hrows', hr, hnew, rfl, rfl, rfl⟩

theorem Shown.sender {es : List Event} {x s k : String} {l : List String}
    (h : Shown S es x s k l) : l[1]? = some s := by
  obtain ⟨-, -, -, -, -, -, -, -, -, -, -, r, -, -, -, -, -, -, -, -, -, -, -, rfl, -, rfl⟩ := h
  rfl

theorem clean_start : Clean S [] start where
  opened _ _ _ h := by cases h
  shown x s k l _ h := (shown_nil x s k l h).elim

/-- A client is still in the chat it was in, unless it has just opened this one. -/
theorem opened_of_after {we : World.Event} {x s : String}
    (h : openedAfter v.opened we x = some s) :
    we = .openChat x s ∨ (∀ id, we ≠ .openChat x id) ∧ v.opened x = some s := by
  cases we with
  | openChat c id =>
    by_cases hc : x = c
    · subst hc
      simp only [openedAfter, Function.update_self, Option.some.injEq] at h
      exact .inl (h ▸ rfl)
    · simp only [openedAfter, Function.update_of_ne hc] at h
      refine .inr ⟨fun id' heq => hc ?_, h⟩
      exact (World.Event.openChat.inj heq).1.symm
  | _ => exact .inr ⟨fun id => by simp, h⟩

theorem Clean.world {es : List Event} {we : World.Event} {w : World} (hI : Clean S es v)
    (hinv : World.Inv S v.world) (hv : EventRun.run (step S) start es = some v)
    (hQ : ReadsClean S es v (.world we)) (h : v.world.step S we = some w) :
    Clean S (es ++ [.world we]) ⟨w, openedAfter v.opened we⟩ := by
  have hopened : ∀ x s, s ≠ x → openedAfter v.opened we x = some s → ∀ (k : String) l,
      l[1]? = some s → field (World.drained S w x) k ≠ some (.ofStrings l) := by
    intro x s hne ho k l hl hk
    rcases World.drained_step hinv h hk with hrefills | hown | ⟨hk, hnot⟩
    · cases we with
      | land c =>
        obtain ⟨data, merged, hp, hdata, hwhole⟩ := hrefills
        exact (hQ x data merged k l s hp hdata hl hwhole).1 ho
      | openChat c id =>
        obtain ⟨rfl, -, hid⟩ := hrefills
        simp only [openedAfter, Function.update_self, Option.some.injEq] at ho
        exact hid (ho ▸ hl)
      | _ => exact hrefills.elim
    · exact hne (Option.some.inj (hl.symm.trans hown))
    · rcases opened_of_after ho with rfl | ⟨-, ho⟩
      · exact hnot s rfl
      · exact hI.opened x s hne ho k l hl hk
  refine ⟨hopened, fun x s k l hne hshown => ?_⟩
  rcases shown_snoc hshown with hold | ⟨i, n, m, v', hwe, hv', ho, hl⟩
  · intro hk
    rcases World.drained_step hinv h hk with hrefills | hown | ⟨hk, -⟩
    · cases we with
      | land c =>
        obtain ⟨data, merged, hp, hdata, hwhole⟩ := hrefills
        exact (hQ x data merged k l s hp hdata hold.sender hwhole).2 hold
      | openChat c id =>
        obtain ⟨rfl, hlocal, hid⟩ := hrefills
        exact hI.shown c s k l hne hold (hQ k l hlocal hid)
      | _ => exact hrefills.elim
    · exact hne (Option.some.inj (hold.sender.symm.trans hown))
    · exact hI.shown x s k l hne hold hk
  · obtain rfl := Option.some.inj (hv'.symm.trans hv)
    obtain rfl := Event.world.inj hwe
    exact hopened x s hne ho k l hl

theorem clean_of_run {es : List Event} (h : EventRun.run (step S) start es = some v)
    (hQ : EventRun.Meets (step S) (ReadsClean S) start es) : Clean S es v := by
  refine EventRun.run_induction (step S) clean_start ?_ es hQ h
  intro es m e t hm hI hQe hs
  rcases step_cases hs with ⟨we, w, rfl, hw, rfl⟩ | ⟨c, rfl, rfl⟩
  · exact hI.world (inv_of_run hm) hm hQe hw
  · rw [disappear_eq (inv_of_run hm)]
    refine ⟨fun x s hne ho => ?_, fun x s k l hne hshown => ?_⟩
    · by_cases hc : x = c
      · subst hc
        simp at ho
      · simp only [Function.update_of_ne hc] at ho
        exact hI.opened x s hne ho
    · rcases shown_snoc hshown with hshown | ⟨i, n, m, v', he, -⟩
      · exact hI.shown x s k l hne hshown
      · cases he

/-- In a run whose landings and openings meet the condition, no message that was shown while its
chat was open is unread once that chat has been left and nothing is in flight. -/
theorem read_gone {es : List Event} (h : EventRun.run (step S) start es = some v)
    (hQ : EventRun.Meets (step S) (ReadsClean S) start es) : ReadGone S es v := by
  rintro x s k l hne - ⟨hrest, hlast⟩ hshown
  have hdrained : World.drained S v.world x = v.world.store S (.buffer x) := by
    unfold World.drained
    rw [hrest x, DocWrite.replay_nil]
  have hgone : field (v.world.store S (.buffer x)) k ≠ some (.ofStrings l) :=
    hdrained ▸ (clean_of_run h hQ).shown x s k l hne hshown
  exact ⟨hgone, fun hk => hgone ((hlast k l).1 hk)⟩

/-- `b` sends to `a`, who opens the chat, is shown the message and leaves. -/
def waiting : List Event :=
  [.world (.openChat "b" "a"), .world (.finishEditing "b" 0 "hi" "1"), .world (.land "b"),
    .world (.land "b"), .world (.land "b"), .world (.land "b"), .world (.land "b"),
    .world (.bufferSnapshot "a" 7 0), .world (.openChat "a" "b"), .world (.land "a"),
    .world (.land "a"), .world (.conversationSnapshot "a" 0 7 0),
    .world (.bufferSnapshot "a" 7 0), .viewWillDisappear "a"]

/-- A merge into a Buffer. -/
def unreads : Write → Bool
  | .setData (.chatBuffer _ _) _ true => true
  | _ => false

theorem readsClean_land {es : List Event} {c : String}
    (h : (v.world.net.pending c).head?.all fun wr => !unreads wr) :
    ReadsClean S es v (.world (.land c)) := by
  intro x data merged k l s hp
  rw [hp] at h
  cases h

theorem waiting_clean : EventRun.Meets (step World.duo) (ReadsClean World.duo) start waiting := by
  have hb : ∀ n ∈ [2, 3, 5, 6], ∀ m,
      EventRun.run (step World.duo) start (waiting.take n) = some m →
        ((m.world.net.pending "b").head?.all fun wr => !unreads wr) := by
    decide
  have ha : ∀ n ∈ [9, 10], ∀ m,
      EventRun.run (step World.duo) start (waiting.take n) = some m →
        ((m.world.net.pending "a").head?.all fun wr => !unreads wr) := by
    decide
  have hopened : ∀ m, EventRun.run (step World.duo) start (waiting.take 4) = some m →
      (m.world.net.pending "b").head? = some (.setData (.buffer "a")
        (.ofDict (.insert ∅ "1" ["hi", "b", "false"])) true) ∧ m.opened "a" = none := by
    decide
  have hlocal : ∀ m, EventRun.run (step World.duo) start (waiting.take 8) = some m →
      (m.world.device "a").globals.bufferChat = .insert ∅ "1" ["hi", "b", "false"] := by
    decide
  show EventRun.Meets _ _ _ ([] ++ [_] ++ [_] ++ [_] ++ [_] ++ [_] ++ [_] ++ [_] ++ [_] ++ [_] ++
    [_] ++ [_] ++ [_] ++ [_] ++ [_])
  refine .snoc _ (.snoc _ (.snoc _ (.snoc _ (.snoc _ (.snoc _ (.snoc _ (.snoc _ (.snoc _ (.snoc _
    (.snoc _ (.snoc _ (.snoc _ (.snoc _ (EventRun.meets_nil _ _ _) ?_) fun _ _ => trivial)
    fun m hm => readsClean_land (hb 2 (by decide) m hm))
    fun m hm => readsClean_land (hb 3 (by decide) m hm)) ?_)
    fun m hm => readsClean_land (hb 5 (by decide) m hm))
    fun m hm => readsClean_land (hb 6 (by decide) m hm)) fun _ _ => trivial) ?_)
    fun m hm => readsClean_land (ha 9 (by decide) m hm))
    fun m hm => readsClean_land (ha 10 (by decide) m hm)) fun _ _ => trivial)
    fun _ _ => trivial) fun _ _ => trivial
  · rintro m hm k l hk -
    obtain rfl := Option.some.inj hm
    cases hk
  · rintro m hm x data merged k l s hp hk hl -
    obtain ⟨hhead, hnone⟩ := hopened m hm
    rw [hp, List.head?_cons, Option.some.injEq] at hhead
    obtain ⟨hx, -, -⟩ := Write.setData.inj hhead
    obtain rfl := (DocPath.chatBuffer.inj hx).1
    refine ⟨by simp [hnone], ?_⟩
    rintro ⟨pre, i, n, m, post, -, -, -, -, -, -, -, hes, -⟩
    have hmem : Event.world (.conversationSnapshot "a" i n m) ∈ waiting.take 4 := by
      rw [show waiting.take 4 = _ from hes]
      simp
    simp [waiting] at hmem
  · rintro m hm k l hk hne
    rw [hlocal m hm, Std.ExtTreeMap.getElem?_insert] at hk
    split_ifs at hk
    · obtain rfl := Option.some.inj hk
      exact absurd rfl hne
    · simp at hk

theorem read_gone_waiting : ∃ v, EventRun.run (step World.duo) start waiting = some v ∧
    ReadGone World.duo waiting v := by
  obtain ⟨v, hv⟩ := Option.isSome_iff_exists.1
    (by decide +kernel : (EventRun.run (step World.duo) start waiting).isSome)
  exact ⟨v, hv, read_gone hv waiting_clean⟩

/-- An instance's arrays, as the cache gets them. -/
def columns (a : ChatViewController) : List (List String) := [a.keys, a.who, a.array, a.audio]

theorem holds_of_columns {a : ChatViewController} {rows : List Row}
    (h : columns a = Row.columns rows) : a.Holds rows := by
  simp only [columns, Row.columns, List.cons.injEq, and_true] at h
  exact ChatViewController.holds_iff.2 h

/-- The message comes while `a` is in the chat. -/
def arriving : List Event :=
  [.world (.openChat "a" "b"), .world (.land "a"), .world (.land "a"), .world (.openChat "b" "a"),
    .world (.finishEditing "b" 0 "hi" "1"), .world (.land "b"), .world (.land "b"),
    .world (.land "b"), .world (.land "b"), .world (.land "b"),
    .world (.conversationSnapshot "a" 0 7 0), .world (.bufferSnapshot "a" 7 0),
    .viewWillDisappear "a"]

/-- `a` is shown the message in the chat. -/
theorem arriving_shown : Shown World.duo arriving "a" "b" "1" ["hi", "b", "false"] := by
  obtain ⟨v, hv⟩ := Option.isSome_iff_exists.1
    (by decide : (EventRun.run (step World.duo) start (arriving.take 10)).isSome)
  obtain ⟨v', hv'⟩ := Option.isSome_iff_exists.1
    (by decide +kernel : (EventRun.run (step World.duo) start (arriving.take 11)).isSome)
  have hbefore : ∀ v, EventRun.run (step World.duo) start (arriving.take 10) = some v →
      v.opened "a" = some "b" ∧
      (v.world.device "a").instances[0]?.map ChatViewController.chatWithId = some "b" ∧
      (v.world.device "a").instances[0]?.map columns = some [[], [], [], []] := by
    decide +kernel
  have hafter : ∀ v, EventRun.run (step World.duo) start (arriving.take 11) = some v →
      (v.world.device "a").instances[0]?.map columns =
        some [["1"], ["b"], ["hi"], ["false"]] := by
    decide +kernel
  obtain ⟨hopened, hchat, hempty⟩ := hbefore v hv
  obtain ⟨a, ha, hchat⟩ := Option.map_eq_some_iff.1 hchat
  rw [ha, Option.map_some, Option.some.injEq] at hempty
  obtain ⟨b, hb, hrow⟩ := Option.map_eq_some_iff.1 (hafter v' hv')
  have hstep : v.step World.duo (.world (.conversationSnapshot "a" 0 7 0)) = some v' := by
    have hsnoc : EventRun.run (step World.duo) start (arriving.take 10 ++ [_]) = some v' := hv'
    rw [EventRun.run_snoc, hv] at hsnoc
    exact hsnoc
  exact ⟨arriving.take 10, 0, 7, 0, _, v, v', a, b, [], [⟨"1", "b", "hi", "false"⟩], _, rfl, hv,
    hstep, hopened, ha, hchat, holds_of_columns hempty, hb, holds_of_columns hrow,
    List.mem_singleton_self _, List.not_mem_nil, rfl, rfl, rfl⟩

/-- It stays unread when `a` leaves. -/
theorem not_read_always_gone : ¬ ∀ (S : Setup) es v,
    EventRun.run (step S) start es = some v → ReadGone S es v := by
  intro h
  obtain ⟨v, hv⟩ := Option.isSome_iff_exists.1
    (by decide +kernel : (EventRun.run (step World.duo) start arriving).isSome)
  have hleft : ∀ v, EventRun.run (step World.duo) start arriving = some v →
      v.opened "a" = none ∧ ∀ c ∈ ["a", "b"], v.world.net.pending c = [] := by
    decide +kernel
  have hunread : ∀ v, EventRun.run (step World.duo) start arriving = some v →
      v.world.store World.duo (.buffer "a") =
        some (.ofDict (.insert ∅ "1" ["hi", "b", "false"])) ∧
      (v.world.device "a").globals.bufferChat = .insert ∅ "1" ["hi", "b", "false"] := by
    decide +kernel
  obtain ⟨hleft, hpending⟩ := hleft v hv
  obtain ⟨hstore, hlocal⟩ := hunread v hv
  have hsettled : Settled World.duo v.world "a" := by
    refine ⟨fun c => ?_, fun k l => ?_⟩
    · by_cases hc : c ∈ ["a", "b"]
      · exact hpending c hc
      · have hclients : ∀ e ∈ arriving.filterMap Event.world?, e.client ∈ ["a", "b"] := by decide
        refine (World.silent (fun e he heq => hc ?_) (world_of_run hv)).1
        exact heq ▸ hclients e he
    · rw [hlocal, hstore, field_some, Doc.getElem?_ofDict]
      simp [Option.map_eq_some_iff]
  refine (h World.duo arriving v hv "a" "b" "1" ["hi", "b", "false"] (by decide) ?_ hsettled
    arriving_shown).2 ?_
  · rw [hleft]
    exact (nomatch ·)
  · rw [hlocal, Std.ExtTreeMap.getElem?_insert_self]

end Visits

end MessageApp
