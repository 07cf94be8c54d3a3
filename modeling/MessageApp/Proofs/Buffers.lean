import MessageApp.Proofs.Clients
import MessageApp.Proofs.Unread

/-!
# When unread messages are kept

Opening a chat writes the whole `Buffer` back from a local copy, while senders merge into it. An
entry that has landed stays if no such write is still in flight when it lands, and every opening
finds it in the local copy (`unread_kept`). A copy taken before the entry landed drops it
(`not_unread_always_kept`).
-/

namespace MessageApp

namespace ChatViewController

theorem send_isMerge {self : ChatViewController} {content uid flag t : String} {wr : Write}
    (h : wr ∈ (self.send content uid flag t).2.1) : wr.IsMerge := by
  unfold send at h
  split_ifs at h
  · simp only [List.mem_cons, List.not_mem_nil, or_false] at h
    rcases h with rfl | rfl <;> trivial
  · simp only [List.mem_cons, List.not_mem_nil, or_false] at h
    rcases h with rfl | rfl | rfl <;> trivial

end ChatViewController

namespace Device

open ChatViewController

/-- Only an opening writes a whole document. -/
theorem replace_of_step {d d' : Device} {ws : List Write} {e : Event}
    (h : d.step e = some (d', ws)) {p : DocPath} {data : Doc} (hw : .setData p data false ∈ ws) :
    ∃ id g v kept, e = .openChat id g ∧ d.currentUser = some v ∧
      cleanBufferChat id d.globals.bufferChat = some kept ∧ p = .buffer v.uid ∧
      data = .ofDict kept := by
  cases e with
  | openChat id g =>
    obtain ⟨v, kept, hv, hkept, -, rfl⟩ := step_openChat h
    simp only [List.mem_cons, List.not_mem_nil, or_false, reduceCtorEq] at hw
    obtain ⟨rfl, rfl, -⟩ := Write.setData.inj hw
    exact ⟨id, g, v, kept, rfl, hv, hkept, rfl, rfl⟩
  | signIn user =>
    obtain ⟨-, rfl⟩ := Prod.mk.inj (Option.some.inj h)
    cases hw
  | signoutClick =>
    obtain ⟨-, rfl⟩ := Prod.mk.inj (Option.some.inj h)
    cases hw
  | signout =>
    obtain ⟨-, rfl⟩ := Prod.mk.inj (Option.some.inj h)
    cases hw
  | bufferSnapshot uid doc =>
    obtain ⟨data, b, -, -, -, rfl⟩ := step_bufferSnapshot h
    cases hw
  | conversationSnapshot i doc =>
    obtain ⟨self, p, s, -, -, -, -, rfl⟩ := step_conversationSnapshot h
    cases hw
  | roomMemberFetched i doc =>
    obtain ⟨self, self', -, -, -, -, rfl⟩ := step_roomMemberFetched h
    cases hw
  | finishEditing i text t =>
    obtain ⟨self, r, -, hr, hd⟩ := step_finishEditing h
    obtain ⟨-, rfl⟩ := Prod.mk.inj hd
    unfold ChatViewController.finishEditing at hr
    split_ifs at hr
    · obtain ⟨v, -, rfl⟩ := Option.map_eq_some_iff.1 hr
      exact (send_isMerge hw).elim
    · obtain rfl := Option.some.inj hr
      cases hw
  | voiceCompletion i url t =>
    obtain ⟨self, r, -, hr, hd⟩ := step_voiceCompletion h
    obtain ⟨-, rfl⟩ := Prod.mk.inj hd
    obtain ⟨v, -, rfl⟩ := Option.map_eq_some_iff.1 hr
    exact (send_isMerge hw).elim
  | runBlock j =>
    obtain ⟨i, b, self, -, -, -, rfl⟩ := step_runBlock h
    obtain ⟨id, -, hid⟩ := List.mem_map.1 hw
    cases hid

end Device

namespace World

variable {S : Setup} {w w' : World} {e : Event}

/-- Every entry merged into a Buffer is still there, unless its owner has opened the chat with its
sender since. -/
def UnreadKept (S : Setup) (es : List Event) (w : World) : Prop :=
  ∀ pre c post m x data merged k l s, es = pre ++ .land c :: post →
    EventRun.run (World.step S) start pre = some m →
    m.net.pending c = .setData (.buffer x) data true :: merged →
    data[k]? = some (Value.ofStrings l) → l[1]? = some s → .openChat x s ∉ post →
    field (w.store S (.buffer x)) k = some (.ofStrings l)

/-- The Buffer as it will be when all its owner has in flight has landed. -/
def drained (S : Setup) (w : World) (x : String) : Option Doc :=
  DocWrite.replay (w.store S) (w.net.pending x) (.buffer x)

/-- Nothing merges into a Buffer while its owner has a whole one in flight, and an opening has all
of the Buffer, but what is from its own chat, in its local copy. -/
def BufferFresh (S : Setup) (_ : List Event) (w : World) : Event → Prop
  | .land c => ∀ x data merged, w.net.pending c = .setData (.buffer x) data true :: merged →
      ∀ whole, Write.setData (.buffer x) whole false ∉ w.net.pending x
  | .openChat x id => ∀ (k : String) l, field (drained S w x) k = some (Value.ofStrings l) →
      l[1]? ≠ some id → (w.device x).globals.bufferChat[k]? = some l
  | _ => True

/-- The entry of a message is in the Buffer, and in every whole one in flight. -/
structure Safe (S : Setup) (w : World) (x k : String) (l : List String) : Prop where
  sent : ∃ m ∈ w.sent, m.t = k ∧ m.record = l
  stored : field (w.store S (.buffer x)) k = some (.ofStrings l)
  inFlight : ∀ data, Write.setData (.buffer x) data false ∈ w.net.pending x →
    data[k]? = some (.ofStrings l)

/-- What a client may write to a Buffer: the entry of a message, or its own Buffer as a whole. -/
theorem Inv.write_buffer (hI : Inv S w) {c x : String} {wr : Write} (h : wr ∈ w.net.issued c)
    (hp : DocWrite.path wr = .buffer x) :
    (∃ m ∈ w.sent, m.sender = c ∧ wr = .setData (.buffer x) m.doc true) ∨
      c = x ∧ ∃ data, wr = .setData (.buffer x) data false := by
  cases hI.issued c wr h with
  | @message m _ hm hs hmem =>
    refine .inl ⟨m, hm, hs, ?_⟩
    rw [← hp]
    exact Message.eq_of_mem_writes hmem
  | @notice m id hm hs hg hid hne =>
    exact absurd (DocPath.chatBuffer.inj hp).2 (ne_buffer (hI.sent m hm).chat)
  | clean data =>
    obtain rfl := (DocPath.chatBuffer.inj hp).1
    exact .inr ⟨rfl, data, rfl⟩
  | clear hid => exact absurd (DocPath.chatBuffer.inj hp).2 hid

/-- A write in flight keeps a safe entry. -/
theorem Safe.keeps (hI : Inv S w) (ht : (w.sent.map Message.t).Nodup) {x k : String}
    {l : List String} (hs : Safe S w x k l) {c : String} {wr : Write} (h : wr ∈ w.net.pending c)
    (hp : DocWrite.path wr = .buffer x) (doc : Option Doc)
    (hdoc : field doc k = some (.ofStrings l)) :
    field (DocWrite.act wr doc) k = some (.ofStrings l) := by
  rcases hI.write_buffer (WriteQueue.mem_issued_of_mem_pending h) hp with
    ⟨m, hm, -, rfl⟩ | ⟨rfl, data, rfl⟩
  · have hmerge : (Write.setData (.buffer x) m.doc true).IsMerge := trivial
    rw [hmerge.field_act]
    show (m.doc[k]?).or (field doc k) = _
    rw [Message.getElem?_doc, hdoc]
    split_ifs with hk
    · obtain ⟨m₀, hm₀, hk₀, rfl⟩ := hs.sent
      have : m = m₀ := List.inj_on_of_nodup_map ht hm hm₀ (hk.trans hk₀.symm)
      rw [this]
      rfl
    · rfl
  · exact hs.inFlight data h

theorem store_land {q : WriteQueue String Write} {wr : Write}
    (h : q.landed = w.net.landed ++ [wr]) :
    ({ w with net := q } : World).store S = DocWrite.write (w.store S) wr := by
  show DocWrite.replay S.init q.landed = _
  rw [h, DocWrite.replay_snoc]
  rfl

theorem Safe.step {es : List Event} (hI : Inv S w) (ht : (w.sent.map Message.t).Nodup)
    {x k : String} {l : List String} (hs : Safe S w x k l) {s : String} (hl : l[1]? = some s)
    (he : e ≠ .openChat x s) (hQ : BufferFresh S es w e) (h : w.step S e = some w') :
    Safe S w' x k l := by
  obtain ⟨m₀, hm₀, hrec⟩ := hs.sent
  rcases step_cases h with ⟨c, q, rfl, hq, rfl⟩ | ⟨c, ev, ms, d, ws, htakes, hd, rfl⟩
  · obtain ⟨wr, hp, hlanded, -⟩ := WriteQueue.landed_land hq
    refine ⟨hs.sent, ?_, fun data hdata => hs.inFlight data (WriteQueue.mem_pending_land hq hdata)⟩
    rw [store_land hlanded]
    by_cases hpath : DocWrite.path wr = .buffer x
    · rw [DocWrite.write_self hpath]
      exact hs.keeps hI ht (by rw [hp]; exact List.mem_cons_self) hpath _ hs.stored
    · rw [DocWrite.write_ne hpath]
      exact hs.stored
  · refine ⟨⟨m₀, List.mem_append_left _ hm₀, hrec⟩, hs.stored, fun data hdata => ?_⟩
    rcases WriteQueue.mem_issue_pending.1 hdata with hold | ⟨rfl, hnew⟩
    · exact hs.inFlight data hold
    · -- the owner opens a chat and writes the Buffer back
      obtain ⟨id, g, v, kept, rfl, hv, hkept, -, rfl⟩ := Device.replace_of_step hd hnew
      cases htakes
      have hid : l[1]? ≠ some id := by
        rw [hl]
        intro hsid
        exact he (by rw [Option.some.inj hsid])
      have hdrained : field (drained S w x) k = some (.ofStrings l) :=
        DocWrite.replay_keeps (I := fun doc => field doc k = some (.ofStrings l)) hs.stored
          fun wr hwr hpath doc hdoc => hs.keeps hI ht hwr hpath doc hdoc
      have hlocal := hQ k l hdrained hid
      have hk := ((ChatViewController.cleanBufferChat_eq_some hkept).2 k l).2 ⟨hlocal, hid⟩
      rw [Doc.getElem?_ofDict, hk]
      rfl

/-- An entry is safe when it lands and no whole Buffer is in flight. -/
theorem safe_landed {es : List Event} (hI : Inv S w) {c x : String} {data : Doc}
    {merged : List Write} (hp : w.net.pending c = .setData (.buffer x) data true :: merged)
    {k : String} {l : List String} (hk : data[k]? = some (Value.ofStrings l))
    (hQ : BufferFresh S es w (.land c)) (h : w.step S (.land c) = some w') : Safe S w' x k l := by
  have hmem : Write.setData (.buffer x) data true ∈ w.net.pending c := by
    rw [hp]
    exact List.mem_cons_self
  obtain ⟨q, hq, h⟩ := Option.bind_eq_some_iff.1 h
  obtain rfl := Option.some.inj h
  obtain ⟨wr, hwr, hlanded, -⟩ := WriteQueue.landed_land hq
  obtain ⟨rfl, -⟩ := List.cons.inj (hp.symm.trans hwr)
  refine ⟨?_, ?_, fun whole hwhole => ?_⟩
  · rcases hI.write_buffer (WriteQueue.mem_issued_of_mem_pending hmem) rfl with
      ⟨m, hm, -, hdata⟩ | ⟨-, whole, hdata⟩
    · obtain ⟨-, rfl, -⟩ := Write.setData.inj hdata
      rw [Message.getElem?_doc] at hk
      split_ifs at hk with ht
      exact ⟨m, hm, ht, Value.ofStrings_inj.1 (Option.some.inj hk)⟩
    · cases hdata
  · have hmerge : (Write.setData (.buffer x) data true).IsMerge := trivial
    have hpath : DocWrite.path (Write.setData (.buffer x) data true) = .buffer x := rfl
    rw [store_land hlanded, DocWrite.write_self hpath, hmerge.field_act]
    show (data[k]?).or _ = _
    rw [hk]
    rfl
  · exact absurd (WriteQueue.mem_pending_land hq hwhole) (hQ x data merged hp whole)

theorem sent_step (h : w.step S e = some w') : ∃ ms, w'.sent = w.sent ++ ms := by
  rcases step_cases h with ⟨c, q, -, -, rfl⟩ | ⟨c, ev, ms, d, ws, -, -, rfl⟩
  · exact ⟨[], (List.append_nil _).symm⟩
  · exact ⟨ms, rfl⟩

/-- Every entry merged into a Buffer is safe, unless its chat was opened since. -/
theorem safe_of_run {es : List Event}
    (hQ : EventRun.Meets (World.step S) (BufferFresh S) start es)
    (h : EventRun.run (World.step S) start es = some w) (ht : (w.sent.map Message.t).Nodup) :
    ∀ pre c post m x data merged k l s, es = pre ++ .land c :: post →
      EventRun.run (World.step S) start pre = some m →
      m.net.pending c = .setData (.buffer x) data true :: merged →
      data[k]? = some (Value.ofStrings l) → l[1]? = some s → .openChat x s ∉ post →
      Safe S w x k l := by
  induction es using List.reverseRecOn generalizing w with
  | nil =>
    intro pre c post m x data merged k l s hes
    simp at hes
  | append_singleton es e ih =>
    intro pre c post m x data merged k l s hes hpre hp hk hl hpost
    obtain ⟨n, hn, hstep⟩ := EventRun.run_snoc_eq_some _ h
    have hI := inv_of_run hn
    have hlast := hQ.last _ hn
    rcases List.eq_nil_or_concat post with rfl | ⟨post, e', rfl⟩
    · obtain ⟨rfl, rfl⟩ := List.append_singleton_inj.1 hes
      obtain rfl := Option.some.inj (hn.symm.trans hpre)
      exact safe_landed hI hp hk hlast hstep
    · rw [List.concat_eq_append] at hes hpost
      rw [← List.cons_append, ← List.append_assoc] at hes
      obtain ⟨rfl, rfl⟩ := List.append_singleton_inj.1 hes
      have ht' : (n.sent.map Message.t).Nodup := by
        obtain ⟨ms, hms⟩ := sent_step hstep
        rw [hms, List.map_append] at ht
        exact ht.of_append_left
      have hsafe := ih (hQ.init _) hn ht' pre c post m x data merged k l s rfl hpre hp hk hl
        fun hmem => hpost (List.mem_append_left _ hmem)
      refine hsafe.step hI ht' hl ?_ hlast hstep
      rintro rfl
      exact hpost (by simp)

/-- In a run whose openings and landings meet the condition, with no two sends under one
timestamp, unread messages are kept. -/
theorem unread_kept {es : List Event} (h : EventRun.run (World.step S) start es = some w)
    (ht : (w.sent.map Message.t).Nodup)
    (hQ : EventRun.Meets (World.step S) (BufferFresh S) start es) : UnreadKept S es w :=
  fun pre c post m x data merged k l s hes hpre hp hk hl hpost =>
    (safe_of_run hQ h ht pre c post m x data merged k l s hes hpre hp hk hl hpost).stored

/-- `b` sends to `a`, the Buffer's snapshot reaches `a`, and `a` opens another chat. -/
def reading : List Event :=
  [.openChat "b" "a", .finishEditing "b" 0 "hi" "1", .land "b", .land "b", .land "b",
    .bufferSnapshot "a" 3 0, .openChat "a" "g", .land "a"]

theorem bufferFresh_land {es : List Event} {c : String} {wr : Write}
    (h : (w.net.pending c).head? = some wr)
    (hwr : ∀ x data, wr = .setData (.buffer x) data true → w.net.pending x = []) :
    BufferFresh S es w (.land c) := by
  intro x data merged hp whole
  rw [hp, List.head?_cons, Option.some.injEq] at h
  rw [hwr x data h.symm]
  exact List.not_mem_nil

theorem reading_fresh : EventRun.Meets (World.step duo) (BufferFresh duo) start reading := by
  have hfirst : drained duo start "b" = none := by decide
  have hclean : ∀ m, EventRun.run (World.step duo) start (reading.take 2) = some m →
      (m.net.pending "b").head? = some (.setData (.buffer "b") (.ofDict ∅) false) := by decide
  have hclear : ∀ m, EventRun.run (World.step duo) start (reading.take 3) = some m →
      (m.net.pending "b").head? = some (.delete (.chatBuffer "b" "a")) := by decide
  have hsent : ∀ m, EventRun.run (World.step duo) start (reading.take 4) = some m →
      (m.net.pending "b").head? = some (.setData (.buffer "a")
        (.ofDict (.insert ∅ "1" ["hi", "b", "false"])) true) ∧ m.net.pending "a" = [] := by decide
  have hopen : ∀ m, EventRun.run (World.step duo) start (reading.take 6) = some m →
      drained duo m "a" = some (.ofDict (.insert ∅ "1" ["hi", "b", "false"])) ∧
      (m.device "a").globals.bufferChat = .insert ∅ "1" ["hi", "b", "false"] := by decide
  have hlast : ∀ m, EventRun.run (World.step duo) start (reading.take 7) = some m →
      (m.net.pending "a").head? = some (.setData (.buffer "a")
        (.ofDict (.insert ∅ "1" ["hi", "b", "false"])) false) := by decide
  show EventRun.Meets _ _ _ ([] ++ [_] ++ [_] ++ [_] ++ [_] ++ [_] ++ [_] ++ [_] ++ [_])
  refine .snoc _ (.snoc _ (.snoc _ (.snoc _ (.snoc _ (.snoc _ (.snoc _ (.snoc _
    (EventRun.meets_nil _ _ _) ?_) fun _ _ => trivial) ?_) ?_) ?_) fun _ _ => trivial) ?_) ?_
  · rintro m hm k l hk -
    obtain rfl := Option.some.inj hm
    rw [hfirst] at hk
    cases hk
  · exact fun m hm => bufferFresh_land (hclean m hm) (by simp)
  · exact fun m hm => bufferFresh_land (hclear m hm) (by simp)
  · intro m hm
    obtain ⟨hhead, hnil⟩ := hsent m hm
    refine bufferFresh_land hhead fun x data hx => ?_
    obtain ⟨hx, -, -⟩ := Write.setData.inj hx
    rw [← (DocPath.chatBuffer.inj hx).1, hnil]
  · rintro m hm k l hk -
    obtain ⟨hdrained, hlocal⟩ := hopen m hm
    rw [hdrained, field_some, Doc.getElem?_ofDict] at hk
    obtain ⟨l', hl', he⟩ := Option.map_eq_some_iff.1 hk
    rw [hlocal, hl', Value.ofStrings_inj.1 he]
  · exact fun m hm => bufferFresh_land (hlast m hm) (by simp)

theorem unread_kept_reading :
    ∃ w, EventRun.run (World.step duo) start reading = some w ∧ UnreadKept duo reading w := by
  obtain ⟨w, hw⟩ := Option.isSome_iff_exists.1
    (by decide : (EventRun.run (World.step duo) start reading).isSome)
  have ht : ∀ w, EventRun.run (World.step duo) start reading = some w →
      w.sent.map Message.t = ["1"] := by decide
  exact ⟨w, hw, unread_kept hw (by rw [ht w hw]; decide) reading_fresh⟩

/-- `a` opens another chat before the Buffer's snapshot has come: the entry of `b` is lost. -/
theorem not_unread_always_kept :
    ¬ ∀ (S : Setup) es w, EventRun.run (World.step S) start es = some w →
      (w.sent.map Message.t).Nodup → UnreadKept S es w := by
  intro h
  have hrun : (EventRun.run (World.step duo) start
      (reading.take 5 ++ [.openChat "a" "g", .land "a"])).isSome := by decide
  obtain ⟨w, hw⟩ := Option.isSome_iff_exists.1 hrun
  have hend : ∀ w, EventRun.run (World.step duo) start
      (reading.take 5 ++ [.openChat "a" "g", .land "a"]) = some w →
      w.sent.map Message.t = ["1"] ∧ field (w.store duo (.buffer "a")) "1" = none := by decide
  obtain ⟨ht, hnone⟩ := hend w hw
  obtain ⟨m, hm⟩ := Option.isSome_iff_exists.1
    (by decide : (EventRun.run (World.step duo) start (reading.take 4)).isSome)
  have hpending : ∀ m, EventRun.run (World.step duo) start (reading.take 4) = some m →
      (m.net.pending "b").head? =
        some (.setData (.buffer "a") (.ofDict (.insert ∅ "1" ["hi", "b", "false"])) true) := by
    decide
  obtain ⟨merged, hmerged⟩ := List.head?_eq_some_iff.1 (hpending m hm)
  have hkept := h duo _ w hw (by rw [ht]; decide) (reading.take 4) "b"
    [.openChat "a" "g", .land "a"] m "a" _ merged "1" ["hi", "b", "false"] "b" rfl hm hmerged
    (by decide) rfl (by simp)
  rw [hnone] at hkept
  cases hkept

end World

end MessageApp
