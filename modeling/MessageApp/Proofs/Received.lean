import MessageApp.Proofs.Badges
import MessageApp.Proofs.Buffers
import Mathlib.Data.List.Perm.Subperm

/-!
# What is unread was sent

An entry of a `Buffer` comes from the merge of a message sent to its user, or from the whole
`Buffer` that the user's own client has put together from snapshots of it. So no entry is of
another's message, in any version of the document, in any write in flight or in `bufferChat`
(`World.bufferSent_of_run`), and a badge counts no more messages than its friend has sent
(`World.unread_sent`).
-/

namespace MessageApp

/-- No more entries meet a condition than there are keys that such an entry may have. -/
theorem Dict.countP_le {α : Type} {d : Dict α} {P : String × α → Bool} {keys : List String}
    (h : ∀ (k : String) v, d[k]? = some v → P (k, v) = true → k ∈ keys) :
    d.toList.countP P ≤ keys.length := by
  rw [List.countP_eq_length_filter, ← List.length_map Prod.fst]
  refine (List.subperm_of_subset ?_ fun k hk => ?_).length_le
  · refine (List.filter_sublist.map Prod.fst).nodup ?_
    rw [Std.ExtTreeMap.map_fst_toList_eq_keys]
    exact Std.ExtTreeMap.nodup_keys
  · obtain ⟨⟨k, v⟩, he, rfl⟩ := List.mem_map.1 hk
    obtain ⟨he, hP⟩ := List.mem_filter.1 he
    exact h k v (Std.ExtTreeMap.mem_toList_iff_getElem?_eq_some.1 he) hP

/-- The entry of a message sent to the user. -/
def IsUnread (sent : List Message) (x k : String) (v : Value) : Prop :=
  ∃ m ∈ sent, m.isGroup = false ∧ m.chat = x ∧ m.t = k ∧ v = .ofStrings m.record

theorem IsUnread.mono {sent : List Message} {x k : String} {v : Value} (h : IsUnread sent x k v)
    (ms : List Message) : IsUnread (sent ++ ms) x k v :=
  h.imp fun _ hm => ⟨List.mem_append_left _ hm.1, hm.2⟩

namespace World

variable {S : Setup} {w w' : World}

/-- What is held of a Buffer, and every whole one a client has issued, are messages to the user. -/
structure BufferSent (w : World) : Prop where
  held : ∀ (c k : String) l, (w.device c).globals.bufferChat[k]? = some l →
    IsUnread w.sent c k (.ofStrings l)
  whole : ∀ (c : String) data, .setData (.buffer c) data false ∈ w.net.issued c →
    ∀ (k : String) v, data[k]? = some v → IsUnread w.sent c k v

/-- A message is merged into no Buffer but the one of its receiver. -/
theorem Inv.isUnread_of_merge (hI : Inv S w) {c x : String} {wr : Write}
    (h : wr ∈ w.net.issued c) (hp : DocWrite.path wr = .buffer x) {k : String} {v : Value}
    (hv : wr.entry k = some v) : IsUnread w.sent x k v := by
  cases hI.issued c wr h with
  | @message m _ hm _ hmem =>
    have hwrites := Message.exists_mem_writes.1 ⟨wr, hmem, hp⟩
    rw [Message.eq_of_mem_writes hmem, (m.posts_doc _).2] at hv
    split_ifs at hv with hk
    split_ifs at hwrites with hg
    · simp at hwrites
    · rcases hwrites with hx | hx | hx
      · exact ⟨m, hm, by simpa using hg, (DocPath.chatBuffer.inj hx).1, hk,
          (Option.some.inj hv).symm⟩
      · cases hx
      · cases hx
  | notice hm _ _ _ _ =>
    exact absurd (DocPath.chatBuffer.inj hp).2 (ne_buffer (hI.sent _ hm).chat)
  | clean data => cases hv
  | clear _ => cases hv

/-- In every version of a Buffer, every entry is of a message to its user. -/
theorem BufferSent.version (hB : BufferSent w) (hI : Inv S w)
    (hinit : ∀ x k, field (S.init (.buffer x)) k = none) {c x k : String} {n m : ℕ} {v : Value}
    (hv : field (w.version S c n m (.buffer x)) k = some v) : IsUnread w.sent x k v := by
  refine DocWrite.replay_keeps (I := fun d : Option Doc => ∀ k v, field d k = some v →
    IsUnread w.sent x k v) (fun k v hv => ?_) (fun wr hwr hp d hd k v hv => ?_) k v hv
  · rw [hinit x k] at hv
    cases hv
  · obtain ⟨c', hissued⟩ := WriteQueue.mem_issued_of_mem_seen hwr
    cases wr with
    | delete p => cases hv
    | setData p data merge =>
      obtain rfl : p = .buffer x := hp
      cases merge with
      | true =>
        have hfield := Write.IsMerge.field_act (w := .setData (.buffer x) data true) trivial d k
        rw [hv] at hfield
        rcases Option.or_eq_some_iff.1 hfield.symm with hentry | ⟨-, hv⟩
        · exact hI.isUnread_of_merge hissued rfl hentry
        · exact hd k v hv
      | false =>
        rcases hI.write_buffer hissued rfl with ⟨m, -, -, hm⟩ | ⟨rfl, -⟩
        · cases hm
        · exact hB.whole c' data hissued k v hv

theorem bufferSent_start : BufferSent start where
  held c k l h := by simp [start] at h
  whole c data h := by simp [start] at h

/-- A client puts a Buffer together from what it holds of it. -/
theorem BufferSent.takes (hB : BufferSent w) (hI : Inv S w)
    (hinit : ∀ x k, field (S.init (.buffer x)) k = none) {e : Event} {c : String}
    {ev : Device.Event} {ms : List Message} {d : Device} {ws : List Write}
    (ht : Takes S w e c ev ms) (hd : (w.device c).step ev = some (d, ws)) :
    BufferSent (w.after c d ws ms) := by
  have hheld : ∀ (k : String) l, d.globals.bufferChat[k]? = some l →
      IsUnread w.sent c k (.ofStrings l) := by
    intro k l hl
    by_cases htouch : ev.TouchesBuffer
    · cases ht with
      | openChat hc hid =>
        obtain ⟨user, kept, -, hkept, rfl, -⟩ := Device.step_openChat hd
        exact hB.held c k l (((ChatViewController.cleanBufferChat_eq_some hkept).2 k l).1 hl).1
      | @bufferSnapshot _ n m =>
        obtain ⟨data, b, hdata, hb, rfl, -⟩ := Device.step_bufferSnapshot hd
        have hl : b[k]? = some l := hl
        have hv : field (w.version S c n m (.buffer c)) k = some (.ofStrings l) := by
          rw [hdata, field_some, Doc.dict?_eq_some hb k, hl]
          rfl
        exact hB.version hI hinit hv
      | _ => exact htouch.elim
    · rw [Device.step_bufferChat_eq htouch hd] at hl
      exact hB.held c k l hl
  constructor
  · intro c' k l hl
    by_cases hc : c' = c
    · subst hc
      exact (hheld k l (by simpa [World.after] using hl)).mono ms
    · simp only [World.after, Function.update_of_ne hc] at hl
      exact (hB.held c' k l hl).mono ms
  · intro c' data hdata k v hv
    rcases WriteQueue.mem_issued_issue.1 hdata with hold | ⟨rfl, hnew⟩
    · exact (hB.whole c' data hold k v hv).mono ms
    · obtain ⟨id, g, user, kept, rfl, -, hkept, -, rfl⟩ := Device.replace_of_step hd hnew
      rw [Doc.getElem?_ofDict] at hv
      obtain ⟨l, hl, rfl⟩ := Option.map_eq_some_iff.1 hv
      have hl := ((ChatViewController.cleanBufferChat_eq_some hkept).2 k l).1 hl
      exact (hB.held c' k l hl.1).mono ms

theorem bufferSent_of_run (hinit : ∀ x k, field (S.init (.buffer x)) k = none) {es : List Event}
    (h : EventRun.run (World.step S) start es = some w) : BufferSent w := by
  refine EventRun.run_history (I := fun _ => BufferSent) (World.step S) bufferSent_start ?_ h
  intro es m e t hm hB hs
  rcases step_cases hs with ⟨c, q, rfl, hq, rfl⟩ | ⟨c, ev, ms, d, ws, ht, hd, rfl⟩
  · exact ⟨hB.held, fun c' data hdata => hB.whole c' data (WriteQueue.issued_land hq c' ▸ hdata)⟩
  · exact hB.takes (inv_of_run hm) hinit ht hd

/-- The messages of a sender among the entries of a Buffer have been sent to its user. -/
theorem BufferSent.countP_le (hB : BufferSent w) (hI : Inv S w) (x s : String) :
    (w.device x).globals.bufferChat.toList.countP (·.2[1]? = some s) ≤
      (w.sent.filter fun m => m.sender = s ∧ m.chat = x ∧ m.isGroup = false).length := by
  rw [← List.length_map Message.t]
  refine Dict.countP_le fun k l hl hs => ?_
  obtain ⟨m, hm, hg, hc, ht, hrecord⟩ := hB.held x k l hl
  have hsender : m.sender = s := by
    rw [Value.ofStrings_inj.1 hrecord, decide_eq_true_eq, (hI.sent m hm).record] at hs
    exact Option.some.inj hs
  exact List.mem_map.2 ⟨m, List.mem_filter.2 ⟨hm, by simp [hsender, hc, hg]⟩, ht⟩

/-- In every run from Buffers without entries, of clients whose users stay signed in, each entry of
any version of a user's Buffer is a message to that user, as it was sent; and at that user the badge
of a friend, who is no key of the group counter, can be counted, and counts no more than the
messages the friend has sent there. -/
theorem unread_sent (hinit : ∀ x k, field (S.init (.buffer x)) k = none) {es : List Event}
    (h : EventRun.run (World.step S) start es = some w) :
    (∀ (c x k : String) (n m : ℕ) v, field (w.version S c n m (.buffer x)) k = some v →
      IsUnread w.sent x k v) ∧
    ∀ (x s : String) bufferGroupChat, s ∉ bufferGroupChat →
      ∃ n, RecentViewController.badgeCounter
          { (w.device x).globals with bufferGroupChat := bufferGroupChat } s = some n ∧
        n ≤ (w.sent.filter fun m => m.sender = s ∧ m.chat = x ∧ m.isGroup = false).length := by
  have hI := inv_of_run h
  have hB := bufferSent_of_run hinit h
  refine ⟨fun c x k n m v hv => hB.version hI hinit hv, fun x s bufferGroupChat hs => ?_⟩
  have hsenders : ∀ e ∈ (w.device x).globals.bufferChat.toList, 2 ≤ e.2.length := by
    rintro ⟨k, l⟩ he
    obtain ⟨m, hm, -, -, -, hl⟩ :=
      hB.held x k l (Std.ExtTreeMap.mem_toList_iff_getElem?_eq_some.1 he)
    rw [Value.ofStrings_inj.1 hl]
    exact (List.getElem?_eq_some_iff.1 (hI.sent m hm).record).1
  rw [RecentViewController.badgeCounter_eq, if_pos hsenders]
  exact ⟨_, rfl, by simpa [hs] using hB.countP_le hI x s⟩

/-- `a` sends a message to `b`, who gets it unread. -/
def notified : List Event :=
  [.openChat "a" "b", .finishEditing "a" 0 "hi" "1", .land "a", .land "a", .land "a",
    .bufferSnapshot "b" 3 0]

theorem unread_sent_notified : ∃ w n, EventRun.run (World.step duo) start notified = some w ∧
    RecentViewController.badgeCounter
      { (w.device "b").globals with bufferGroupChat := ∅ } "a" = some n ∧
    n ≤ (w.sent.filter fun m => m.sender = "a" ∧ m.chat = "b" ∧ m.isGroup = false).length := by
  obtain ⟨w, hw⟩ := Option.isSome_iff_exists.1
    (by decide +kernel : (EventRun.run (World.step duo) start notified).isSome)
  obtain ⟨n, hn, hle⟩ := (unread_sent (fun _ _ => rfl) hw).2 "b" "a" ∅ (by simp)
  exact ⟨w, n, hw, hn, hle⟩

end World

end MessageApp
