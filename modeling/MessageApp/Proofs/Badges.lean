import MessageApp.RecentViewController

/-!
# When a badge counts what is unread

A badge counts the entries of `Buffer` with the row's id as their sender, and one more if the group
counter has the id as a key (`badgeCounter_eq`). After a snapshot of the collection, the counter has
one key, the last group with a document; without such a group it has the keys it had
(`mem_chatBufferListener`). So a badge is right exactly when a friend's id is not such a key, and a
group has as many fields as that makes (`badge_right_iff`): one, for the last group alone
(`group_badge_right_iff`).
-/

namespace MessageApp

namespace RecentViewController

variable {g g' : Globals} {id : String}

/-! ## The counter -/

theorem foldlM_senders (l : List (String × List String)) (n : ℕ) :
    l.foldlM (fun n e => e.2[1]?.bind fun sender => some (if sender = id then n + 1 else n)) n =
      if ∀ e ∈ l, 2 ≤ e.2.length then some (n + l.countP (·.2[1]? = some id)) else none := by
  induction l generalizing n with
  | nil => simp
  | cons e l ih =>
    rw [List.foldlM_cons]
    by_cases he : 2 ≤ e.2.length
    · have hs : e.2[1]? = some e.2[1] := List.getElem?_eq_getElem he
      have hcount : (if e.2[1] = id then n + 1 else n) + l.countP (·.2[1]? = some id) =
          n + (e :: l).countP (·.2[1]? = some id) := by
        rw [List.countP_cons, hs]
        by_cases hid : e.2[1] = id
        · simp only [hid, decide_true, if_true]
          omega
        · simp [hid]
      rw [hs, Option.bind_some, Option.bind_eq_bind, Option.bind_some, ih, hcount]
      simp only [List.forall_mem_cons, he, true_and]
    · have hs : e.2[1]? = none := List.getElem?_eq_none (by omega)
      simp [hs, he]

theorem foldl_keys {l : List (String × ℕ)} (hl : (l.map Prod.fst).Nodup) (n : ℕ) :
    l.foldl (fun n e => if e.1 = id then n + 1 else n) n =
      n + if id ∈ l.map Prod.fst then 1 else 0 := by
  induction l generalizing n with
  | nil => simp
  | cons e l ih =>
    rw [List.map_cons, List.nodup_cons] at hl
    rw [List.foldl_cons, ih hl.2, List.map_cons]
    by_cases he : e.1 = id
    · have hid : id ∉ l.map Prod.fst := he ▸ hl.1
      simp [he, hid]
    · have hiff : id ∈ e.1 :: l.map Prod.fst ↔ id ∈ l.map Prod.fst := by
        simp [Ne.symm he]
      simp only [he, if_false, hiff]

/-- The badge counts the unread messages under the id, and the group counter's key. -/
theorem badgeCounter_eq : badgeCounter g id =
    if ∀ e ∈ g.bufferChat.toList, 2 ≤ e.2.length then
      some (g.bufferChat.toList.countP (·.2[1]? = some id) +
        if id ∈ g.bufferGroupChat then 1 else 0)
    else none := by
  have hnodup : (g.bufferGroupChat.toList.map Prod.fst).Nodup := by
    rw [Std.ExtTreeMap.map_fst_toList_eq_keys]
    exact Std.ExtTreeMap.nodup_keys
  unfold badgeCounter
  simp only [Option.bind_eq_bind, foldlM_senders, foldl_keys hnodup,
    Std.ExtTreeMap.map_fst_toList_eq_keys, Std.ExtTreeMap.mem_keys, Nat.zero_add]
  split_ifs <;> rfl

/-! ## The keys it has -/

/-- The last group that has a document. -/
def lastGroup (documents : List (String × Doc)) : Option String :=
  ((documents.map Prod.fst).filter (· ≠ "Buffer")).getLast?

/-- The group counter will have the id as a key. -/
def Counted (g : Globals) (documents : List (String × Doc)) (id : String) : Prop :=
  match lastGroup documents with
  | some last => id = last
  | none => id ∈ g.bufferGroupChat

instance (g : Globals) (documents : List (String × Doc)) (id : String) :
    Decidable (Counted g documents id) :=
  match h : lastGroup documents with
  | some last => decidable_of_iff (id = last) (by simp [Counted, h])
  | none => decidable_of_iff (id ∈ g.bufferGroupChat) (by simp [Counted, h])

theorem mem_chatBufferListener {documents : List (String × Doc)} :
    id ∈ (chatBufferListener g documents).bufferGroupChat ↔ Counted g documents id := by
  induction documents using List.reverseRecOn with
  | nil => exact Iff.rfl
  | append_singleton documents document ih =>
    unfold chatBufferListener Counted lastGroup at ih ⊢
    rw [List.foldl_append, List.foldl_cons, List.foldl_nil, List.map_append, List.filter_append,
      List.map_singleton]
    by_cases hd : document.1 = "Buffer"
    · simpa [hd] using ih
    · have hiff : document.1 = id ↔ id = document.1 := eq_comm
      simp [hd, hiff]

/-! ## The badge -/

/-- Both callbacks run, in either order, on the snapshots of one content of `ChatBuffer`. -/
def process (bufferFirst : Bool) (g : Globals) (content : Dict Doc) : Option Globals :=
  if bufferFirst then
    (Device.bufferListener g content["Buffer"]?).map (chatBufferListener · content.toList)
  else Device.bufferListener (chatBufferListener g content.toList) content["Buffer"]?

/-- The unread messages of friends. -/
def unread (content : Dict Doc) : Dict (List String) :=
  (content["Buffer"]?.bind Doc.dict?).getD ∅

/-- What the badge of a row should be: the entries of `Buffer` with a friend as their sender, the
fields of a group's document. -/
def expected (content : Dict Doc) (id : String) (isGroupChat : Bool) : ℕ :=
  if isGroupChat then (content[id]?.map Std.ExtTreeMap.size).getD 0
  else (unread content).toList.countP (·.2[1]? = some id)

/-- Every unread message has a sender. A friend's id is not a key the group counter will have; a
group has as many fields as there are unread messages of friends under its id, and one more if it
is such a key. -/
def CountsUnread (g : Globals) (content : Dict Doc) (id : String) (isGroupChat : Bool) : Prop :=
  (∀ e ∈ (unread content).toList, 2 ≤ e.2.length) ∧
    if isGroupChat then
      Counted g content.toList id ∧
        expected content id true = (unread content).toList.countP (·.2[1]? = some id) + 1 ∨
      ¬ Counted g content.toList id ∧
        expected content id true = (unread content).toList.countP (·.2[1]? = some id)
    else ¬ Counted g content.toList id

instance (g : Globals) (content : Dict Doc) (id : String) :
    (isGroupChat : Bool) → Decidable (CountsUnread g content id isGroupChat)
  | true => inferInstanceAs (Decidable (_ ∧ (_ ∧ _ ∨ _ ∧ _)))
  | false => inferInstanceAs (Decidable (_ ∧ ¬ _))

theorem process_eq_some {bufferFirst : Bool} {content : Dict Doc}
    (h : process bufferFirst g content = some g') :
    g' = { chatBufferListener g content.toList with bufferChat := unread content } := by
  unfold process Device.bufferListener at h
  unfold unread
  split_ifs at h
  · obtain ⟨g₁, hg, rfl⟩ := Option.map_eq_some_iff.1 h
    obtain ⟨doc, hdoc, hg⟩ := Option.bind_eq_some_iff.1 hg
    obtain ⟨b, hb, hg⟩ := Option.bind_eq_some_iff.1 hg
    obtain rfl := Option.some.inj hg
    simp [hdoc, hb, chatBufferListener]
  · obtain ⟨doc, hdoc, hg⟩ := Option.bind_eq_some_iff.1 h
    obtain ⟨b, hb, hg⟩ := Option.bind_eq_some_iff.1 hg
    obtain rfl := Option.some.inj hg
    simp [hdoc, hb]

/-- With no group that has a document, nothing of a group is unread. -/
theorem expected_of_lastGroup {content : Dict Doc} (h : lastGroup content.toList = none)
    (hne : id ≠ "Buffer") : expected content id true = 0 := by
  have hnone : content[id]? = none := by
    by_contra hsome
    obtain ⟨doc, hdoc⟩ := Option.ne_none_iff_exists'.1 hsome
    have hmem : id ∈ content.toList.map Prod.fst := List.mem_map.2
      ⟨(id, doc), Std.ExtTreeMap.mem_toList_iff_getElem?_eq_some.2 hdoc, rfl⟩
    exact List.filter_eq_nil_iff.1 (List.getLast?_eq_none_iff.1 h) id hmem (decide_eq_true hne)
  simp [expected, hnone]

/-- What the badge of a row is, after both callbacks. -/
theorem cellBadge_iff {bufferFirst : Bool} {content : Dict Doc}
    (h : process bufferFirst g content = some g') {lists : FriendLists} {row : ℕ} {name : String}
    {isGroupChat : Bool} (hid : g.listOfId[row]? = some id)
    (hname : lists.listOfFriends[row]? = some name)
    (hflag : lists.isGroupChat[row]? = some isGroupChat) {n : ℕ} :
    (∃ cell, cellForRowAt g' lists row = some cell ∧ cell.cellBadge = n) ↔
      (∀ e ∈ (unread content).toList, 2 ≤ e.2.length) ∧
        n = (unread content).toList.countP (·.2[1]? = some id) +
          if Counted g content.toList id then 1 else 0 := by
  have hbadge : (∃ cell, cellForRowAt g' lists row = some cell ∧ cell.cellBadge = n) ↔
      badgeCounter g' id = some n := by
    rw [process_eq_some h]
    simp only [cellForRowAt, chatBufferListener, hid, hname, hflag, Option.bind_eq_bind,
      Option.bind_some]
    cases badgeCounter _ id <;> simp
  have hcount : badgeCounter g' id = if ∀ e ∈ (unread content).toList, 2 ≤ e.2.length then
      some ((unread content).toList.countP (·.2[1]? = some id) +
        if id ∈ (chatBufferListener g content.toList).bufferGroupChat then 1 else 0)
      else none := by
    rw [badgeCounter_eq, process_eq_some h]
  rw [hbadge, hcount]
  simp only [mem_chatBufferListener]
  by_cases hall : ∀ e ∈ (unread content).toList, 2 ≤ e.2.length
  · rw [if_pos hall, Option.some.injEq, and_iff_right hall, eq_comm]
  · rw [if_neg hall]
    exact iff_of_false (by simp) fun h => hall h.1

/-- After both callbacks, a row's badge is the number of its unread messages if and only if the
counters count them. -/
theorem badge_right_iff {bufferFirst : Bool} {content : Dict Doc}
    (h : process bufferFirst g content = some g') {lists : FriendLists} {row : ℕ} {name : String}
    {isGroupChat : Bool} (hid : g.listOfId[row]? = some id)
    (hname : lists.listOfFriends[row]? = some name)
    (hflag : lists.isGroupChat[row]? = some isGroupChat) :
    (∃ cell, cellForRowAt g' lists row = some cell ∧
        cell.cellBadge = expected content id isGroupChat) ↔
      CountsUnread g content id isGroupChat := by
  rw [cellBadge_iff h hid hname hflag, CountsUnread]
  refine and_congr_right fun _ => ?_
  by_cases hc : Counted g content.toList id
  · cases isGroupChat with
    | false => simp [hc, expected]
    | true => simp [hc]
  · cases isGroupChat with
    | false => simp [hc, expected]
    | true => simp [hc]

/-- Where every unread message of `Buffer` is of someone else than the group, the group's badge is
right if and only if nothing of it is unread and nothing is left over in the counter, or it is the
last group with a document, which has one field. -/
theorem group_badge_right_iff {bufferFirst : Bool} {content : Dict Doc}
    (h : process bufferFirst g content = some g') {lists : FriendLists} {row : ℕ} {name : String}
    (hid : g.listOfId[row]? = some id) (hname : lists.listOfFriends[row]? = some name)
    (hflag : lists.isGroupChat[row]? = some true) (hne : id ≠ "Buffer")
    (husers : ∀ e ∈ (unread content).toList, ∃ sender, e.2[1]? = some sender ∧ sender ≠ id) :
    (∃ cell, cellForRowAt g' lists row = some cell ∧ cell.cellBadge = expected content id true) ↔
      expected content id true = 0 ∧ ¬ Counted g content.toList id ∨
      lastGroup content.toList = some id ∧ expected content id true = 1 := by
  have hall : ∀ e ∈ (unread content).toList, 2 ≤ e.2.length := fun e he => by
    obtain ⟨sender, hs, -⟩ := husers e he
    exact (List.getElem?_eq_some_iff.1 hs).1
  have hnone : (unread content).toList.countP (·.2[1]? = some id) = 0 := by
    rw [List.countP_eq_zero]
    intro e he hs
    obtain ⟨sender, hsender, hne⟩ := husers e he
    exact hne (Option.some.inj (hsender.symm.trans (of_decide_eq_true hs)))
  rw [cellBadge_iff h hid hname hflag, and_iff_right hall, hnone, Nat.zero_add]
  by_cases hc : Counted g content.toList id
  · -- without a group that has a document, what is counted is left over
    have hlast : expected content id true = 1 → lastGroup content.toList = some id := fun hone => by
      unfold Counted at hc
      split at hc
      · rename_i hlast
        exact hc ▸ hlast
      · rename_i hlast
        rw [expected_of_lastGroup hlast hne] at hone
        cases hone
    simpa [hc] using hlast
  · have hlast : lastGroup content.toList ≠ some id := fun hlast => hc (by simp [Counted, hlast])
    simp [hc, hlast]

/-- The group has two unread messages, and nobody else has any. -/
def twoUnread : Dict Doc :=
  .ofList [("Buffer", ∅), ("g", Doc.ofDict (.ofList [("1", ["hi", "b", "false"]),
    ("2", ["ho", "b", "false"])]))]

/-- A friend has two unread messages. -/
def twoFromFriend : Dict Doc :=
  .ofList [("Buffer", Doc.ofDict (.ofList [("1", ["hi", "b", "false"]),
    ("2", ["ho", "b", "false"])]))]

theorem badge_right_friend : ∃ g' cell, process true { listOfId := ["b"] } twoFromFriend = some g' ∧
    cellForRowAt g' ⟨["B"], [false], ["B"], ["b"]⟩ 0 = some cell ∧ cell.cellBadge = 2 := by
  obtain ⟨g', hg'⟩ := Option.isSome_iff_exists.1
    (by decide : (process true { listOfId := ["b"] } twoFromFriend).isSome)
  have hname : (⟨["B"], [false], ["B"], ["b"]⟩ : FriendLists).listOfFriends[0]? = some "B" := rfl
  have hflag : (⟨["B"], [false], ["B"], ["b"]⟩ : FriendLists).isGroupChat[0]? = some false := rfl
  obtain ⟨cell, hcell, hbadge⟩ := (badge_right_iff hg' rfl hname hflag).2 (by decide)
  exact ⟨g', cell, hg', hcell, hbadge⟩

/-- The badge of the group says one. -/
theorem not_badge_always_right :
    ¬ ∀ (bufferFirst : Bool) (content : Dict Doc) (g g' : Globals) (lists : FriendLists) (row : ℕ)
        (id name : String) (isGroupChat : Bool), process bufferFirst g content = some g' →
      g.listOfId[row]? = some id → lists.listOfFriends[row]? = some name →
      lists.isGroupChat[row]? = some isGroupChat →
      ∃ cell, cellForRowAt g' lists row = some cell ∧
        cell.cellBadge = expected content id isGroupChat := by
  intro h
  obtain ⟨g', hg'⟩ := Option.isSome_iff_exists.1
    (by decide : (process true { listOfId := ["g"] } twoUnread).isSome)
  obtain ⟨cell, hcell, hbadge⟩ := h true twoUnread { listOfId := ["g"] } g'
    ⟨["G"], [true], [], []⟩ 0 "g" "G" true hg' rfl rfl rfl
  have hone : ∀ g', process true { listOfId := ["g"] } twoUnread = some g' →
      (cellForRowAt g' ⟨["G"], [true], [], []⟩ 0).map Cell.cellBadge = some 1 := by decide
  have hone := hone g' hg'
  rw [hcell, Option.map_some, hbadge] at hone
  revert hone
  decide

end RecentViewController

end MessageApp
