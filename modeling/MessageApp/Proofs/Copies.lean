import MessageApp.Proofs.Clients

/-!
# The copies of a conversation

A conversation's document only ever gets merges, one for each message that concerns it, and at rest
all of them have landed. With distinct timestamps it is then the map of those messages' records
(`replay_eq_records`), whatever the order they landed in; so the two copies of a chat agree, and a
member's copy of a group chat is the group's restricted to what the member sent
(`copies_agree`).
-/

namespace MessageApp

namespace Message

/-- The document with exactly the records of the messages, each under its timestamp; without
messages there is none. -/
def records (ms : List Message) : Option Doc :=
  if ms = [] then none else some (.ofDict (.ofList (ms.map fun m => (m.t, m.record))))

/-- The message is from one of the two to the other. -/
def Between (a b : String) (m : Message) : Prop :=
  m.sender = a ∧ m.chat = b ∨ m.sender = b ∧ m.chat = a

instance (a b : String) : DecidablePred (Between a b) := fun m =>
  inferInstanceAs (Decidable (m.sender = a ∧ m.chat = b ∨ m.sender = b ∧ m.chat = a))

theorem isSome_records (ms : List Message) : (records ms).isSome ↔ ms ≠ [] := by
  unfold records
  split_ifs with h <;> simp [h]

theorem field_records {ms : List Message} (hn : (ms.map t).Nodup) (k : String) (v : Value) :
    field (records ms) k = some v ↔ ∃ m ∈ ms, m.t = k ∧ v = .ofStrings m.record := by
  unfold records
  split_ifs with h
  · simp [h]
  rw [field_some, Doc.getElem?_ofDict, Option.map_eq_some_iff]
  have hpair : (ms.map fun m => (m.t, m.record)).Pairwise
      fun a b => ¬ compare a.1 b.1 = .eq := by
    rw [List.pairwise_map]
    exact (List.pairwise_map.1 hn).imp fun hne he => hne (Std.LawfulEqCmp.eq_of_compare he)
  have hmem : ∀ m ∈ ms, ∀ l, (Std.ExtTreeMap.ofList (ms.map fun m => (m.t, m.record)))[m.t]? =
      some l ↔ l = m.record := by
    intro m hm l
    rw [Std.ExtTreeMap.getElem?_ofList_of_mem (k := m.t) Std.ReflCmp.compare_self hpair
      (List.mem_map.2 ⟨m, hm, rfl⟩), Option.some.injEq, eq_comm]
  constructor
  · rintro ⟨l, hl, rfl⟩
    have hk : k ∈ ms.map t := by
      by_contra hk
      rw [Std.ExtTreeMap.getElem?_ofList_of_contains_eq_false] at hl
      · cases hl
      · simpa [Function.comp_def] using hk
    obtain ⟨m, hm, rfl⟩ := List.mem_map.1 hk
    rw [(hmem m hm l).1 hl]
    exact ⟨m, hm, rfl, rfl⟩
  · rintro ⟨m, hm, rfl, rfl⟩
    exact ⟨_, (hmem m hm _).2 rfl, rfl⟩

/-- A document that is posted the messages is their records. -/
theorem replay_eq_records {store : Store} {ws : List Write} {p : DocPath} {ms : List Message}
    (h : PostedTo store ws p (ms.map fun m => (m.t, .ofStrings m.record)))
    (hn : (ms.map t).Nodup) : DocWrite.replay store ws p = records ms := by
  have hn' : ((ms.map fun m => (m.t, Value.ofStrings m.record)).map Prod.fst).Nodup := by
    rw [List.map_map]
    exact hn
  refine doc_ext ?_ fun k => Option.ext fun v => ?_
  · rw [Bool.eq_iff_iff, h.isSome_iff, isSome_records, ne_eq, List.map_eq_nil_iff]
  · rw [h.field_iff hn', field_records hn, List.mem_map]
    constructor
    · rintro ⟨m, hm, he⟩
      obtain ⟨rfl, rfl⟩ := Prod.mk.inj he
      exact ⟨m, hm, rfl, rfl⟩
    · rintro ⟨m, hm, rfl, rfl⟩
      exact ⟨m, hm, rfl⟩

end Message

namespace World

open Message

variable {S : Setup} {w : World}

/-- At rest, a document without its own unread or group data is the records of the messages whose
writes name it. -/
theorem Inv.store_eq_records (hI : Inv S w) (hrest : w.net.Rest) (ht : (w.sent.map t).Nodup)
    {p : DocPath} (h0 : S.init p = none) (hp : ∀ uid d, p ≠ .chatBuffer uid d)
    {P : Message → Prop} [DecidablePred P]
    (hP : ∀ m ∈ w.sent, (∃ wr ∈ m.writes, DocWrite.path wr = p) ↔ P m) :
    w.store S p = records (w.sent.filter P) := by
  refine replay_eq_records ⟨h0, fun wr hwr hpath => ?_, fun r hr => ?_⟩
    ((List.filter_sublist.map t).nodup ht)
  · obtain ⟨c, hc⟩ := hI.mayIssue_of_landed hwr
    cases hc with
    | @message m wr hm hs hwr =>
      refine ⟨_, List.mem_map.2 ⟨m, List.mem_filter.2 ⟨hm, ?_⟩, rfl⟩, ?_⟩
      · exact decide_eq_true ((hP m hm).1 ⟨wr, hwr, hpath⟩)
      · rw [eq_of_mem_writes hwr]
        exact m.posts_doc _
    | notice hm hs hg hid hne => exact absurd hpath.symm (hp _ _)
    | clean data => exact absurd hpath.symm (hp _ _)
    | clear hid => exact absurd hpath.symm (hp _ _)
  · obtain ⟨m, hm, rfl⟩ := List.mem_map.1 hr
    obtain ⟨hm, hPm⟩ := List.mem_filter.1 hm
    obtain ⟨wr, hwr, hpath⟩ := (hP m hm).2 (of_decide_eq_true hPm)
    refine ⟨wr, WriteQueue.mem_landed_of_rest hrest (hI.written m hm wr hwr), hpath, ?_⟩
    rw [eq_of_mem_writes hwr]
    exact m.posts_doc _

theorem isGroup_of_isUser {m : Message} (hm : m.Ok S) {id : String} (hid : S.isUser id = true)
    (hc : m.chat = id) : m.isGroup = false := by
  rw [hm.isGroup, hc]
  exact S.not_both id hid

theorem isGroup_of_isGroup {m : Message} (hm : m.Ok S) {g : String} (hg : S.isGroup g = true)
    (hc : m.chat = g) : m.isGroup = true := by
  rw [hm.isGroup, hc]
  exact hg

theorem exists_mem_writes_conversation {m : Message} (hm : m.Ok S) {a b : String}
    (ha : S.isUser a = true) (hb : S.isUser b = true) :
    (∃ wr ∈ m.writes, DocWrite.path wr = .conversation a b) ↔ Between a b m := by
  rw [exists_mem_writes]
  cases hg : m.isGroup with
  | true =>
    have hne : ∀ id, S.isUser id = true → m.chat ≠ id := by
      intro id hid hc
      rw [isGroup_of_isUser hm hid hc] at hg
      cases hg
    simp [Between, hne a ha, hne b hb]
  | false => simp [Between, and_comm]

theorem exists_mem_writes_groupConversation {m : Message} (hm : m.Ok S) {g : String}
    (hg : S.isGroup g = true) :
    (∃ wr ∈ m.writes, DocWrite.path wr = .groupConversation g) ↔ m.chat = g := by
  rw [exists_mem_writes]
  cases hb : m.isGroup with
  | true => simp
  | false =>
    have hne : m.chat ≠ g := by
      intro hc
      rw [isGroup_of_isGroup hm hg hc] at hb
      cases hb
    simp [hne]

theorem exists_mem_writes_own {m : Message} (hm : m.Ok S) {u g : String}
    (hg : S.isGroup g = true) :
    (∃ wr ∈ m.writes, DocWrite.path wr = .conversation u g) ↔ m.chat = g ∧ m.sender = u := by
  rw [exists_mem_writes]
  cases hb : m.isGroup with
  | true => simp [and_comm]
  | false =>
    have hne : m.chat ≠ g := by
      intro hc
      rw [isGroup_of_isGroup hm hg hc] at hb
      cases hb
    have hs : m.sender ≠ g := by
      rintro rfl
      rw [S.not_both _ hm.sender] at hg
      cases hg
    simp [hne, hs]

/-- At rest, with no two sends under one timestamp, both copies of the conversation of two users
are exactly the records sent between them; a group's conversation is exactly the records sent to
it, and a user's own copy of it is its restriction to the records that user sent. -/
theorem copies_agree {es : List Event} (h : EventRun.run (World.step S) start es = some w)
    (hinit : ∀ u c, S.init (.conversation u c) = none ∧ S.init (.groupConversation c) = none)
    (ht : (w.sent.map Message.t).Nodup) (hrest : w.net.Rest) :
    (∀ a b, S.isUser a = true → S.isUser b = true →
      w.store S (.conversation a b) = w.store S (.conversation b a) ∧
      w.store S (.conversation a b) = records (w.sent.filter (Between a b))) ∧
    ∀ g, S.isGroup g = true →
      w.store S (.groupConversation g) = records (w.sent.filter (·.chat = g)) ∧
      ∀ u, S.isUser u = true →
        w.store S (.conversation u g) = records (w.sent.filter fun m => m.chat = g ∧ m.sender = u) ∧
        ∀ k v, field (w.store S (.conversation u g)) k = some v ↔
          field (w.store S (.groupConversation g)) k = some v ∧
            v.strings?.bind (·[1]?) = some u := by
  have hI := inv_of_run h
  have hchat : ∀ a b, S.isUser a = true → S.isUser b = true →
      w.store S (.conversation a b) = records (w.sent.filter (Between a b)) :=
    fun a b ha hb => hI.store_eq_records hrest ht (hinit a b).1 (by simp)
      fun m hm => exists_mem_writes_conversation (hI.sent m hm) ha hb
  refine ⟨fun a b ha hb => ⟨?_, hchat a b ha hb⟩, fun g hg => ?_⟩
  · rw [hchat a b ha hb, hchat b a hb ha]
    congr 2
    funext m
    exact decide_eq_decide.2 or_comm
  have hgroup : w.store S (.groupConversation g) = records (w.sent.filter (·.chat = g)) :=
    hI.store_eq_records hrest ht (hinit g g).2 (by simp)
      fun m hm => exists_mem_writes_groupConversation (hI.sent m hm) hg
  refine ⟨hgroup, fun u hu => ?_⟩
  have hown : w.store S (.conversation u g)
      = records (w.sent.filter fun m => m.chat = g ∧ m.sender = u) :=
    hI.store_eq_records hrest ht (hinit u g).1 (by simp)
      fun m hm => exists_mem_writes_own (hI.sent m hm) hg
  refine ⟨hown, fun k v => ?_⟩
  have hn : ∀ (P : Message → Prop) [DecidablePred P],
      ((w.sent.filter P).map Message.t).Nodup :=
    fun P _ => (List.filter_sublist.map Message.t).nodup ht
  rw [hown, hgroup, field_records (hn _), field_records (hn _)]
  -- the second field of a record is its sender
  have hsender : ∀ m ∈ w.sent, (Value.ofStrings m.record).strings?.bind (·[1]?) = some m.sender :=
    fun m hm => by simpa using (hI.sent m hm).record
  constructor
  · rintro ⟨m, hm, hk, rfl⟩
    obtain ⟨hmem, hP⟩ := List.mem_filter.1 hm
    obtain ⟨hc, hs⟩ := of_decide_eq_true hP
    exact ⟨⟨m, List.mem_filter.2 ⟨hmem, decide_eq_true hc⟩, hk, rfl⟩, hs ▸ hsender m hmem⟩
  · rintro ⟨⟨m, hm, hk, rfl⟩, hv⟩
    obtain ⟨hm, hc⟩ := List.mem_filter.1 hm
    have hs : m.sender = u := Option.some.inj ((hsender m hm).symm.trans hv)
    exact ⟨m, List.mem_filter.2 ⟨hm, decide_eq_true ⟨of_decide_eq_true hc, hs⟩⟩, hk, rfl⟩

def greeting : List Event :=
  [.openChat "a" "b", .finishEditing "a" 0 "hi" "1", .land "a", .land "a", .land "a", .land "a",
    .land "a"]

theorem copies_agree_greeting : ∃ w, EventRun.run (World.step duo) start greeting = some w ∧
    w.store duo (.conversation "a" "b") = w.store duo (.conversation "b" "a") ∧
    w.store duo (.conversation "a" "b") =
      records [⟨"a", "b", false, "1", ["hi", "a", "false"]⟩] := by
  obtain ⟨w, hw⟩ := Option.isSome_iff_exists.1
    (by decide : (EventRun.run (World.step duo) start greeting).isSome)
  have hsent : ∀ w, EventRun.run (World.step duo) start greeting = some w →
      w.sent = [⟨"a", "b", false, "1", ["hi", "a", "false"]⟩] := by decide
  have hpending : ∀ w, EventRun.run (World.step duo) start greeting = some w →
      w.net.pending "a" = [] ∧ (w.device "a").blocks.length = 0 := by decide
  obtain ⟨hrest, -⟩ := @rest_of_clients _ _ ["a"] _ (by decide) hw (by simpa using hpending w hw)
  obtain ⟨hab, hba⟩ := (copies_agree hw (fun u c => ⟨rfl, rfl⟩)
    (by rw [hsent w hw]; decide) hrest).1 "a" "b" rfl rfl
  rw [hsent w hw] at hba
  exact ⟨w, hw, hab, hba⟩

end World

end MessageApp
