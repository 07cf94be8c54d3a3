import MessageApp.Proofs.Friends
import Mathlib.Data.List.Pairwise

/-!
# Who is in a group

Starting a group writes its document, and once that has landed the entries of its members
(`entries_of_groupAdded`). Nothing else writes either: requests and answers write under users' ids.
So every write to a group's document, or to an entry under the group's id, is of the one start of
that group (`Membership`), and at rest the entries are those of the members
(`membership_recorded`).
-/

namespace MessageApp

namespace Requests

variable {isUser : String → Bool} {r r' : Requests} {init : Store} {e : Event} {es : List Event}

/-- A member's entry of a group. -/
def IsEntry (u g : String) (w : Write) : Prop :=
  ∃ data : Doc, w = .setData (.friends u g) data false ∧
    data["groupFlag"]? = some (Value.bool true)

/-- The id that `addDocument` picks. -/
def picked : Event → Option String
  | .startGroupChatNow _ _ documentID => some documentID
  | _ => none

/-- `u` is in the `RoomMember` of `Group/g`. -/
def InRoom (store : Store) (g u : String) : Prop :=
  ∃ members, field (store (.group g)) "RoomMember" = some (.ofStrings members) ∧ u ∈ members

/-! ## What a step writes -/

/-- Requests and answers write no group, and no entry but under users' ids. -/
theorem paths_of_writes {op : Operation} {ws : List Write} (h : op.writes = some ws)
    (hu : isUser op.user.uid = true) (ho : isUser op.other = true) :
    ∀ w ∈ ws, (∀ g, DocWrite.path w ≠ .group g) ∧
      ∀ u g, DocWrite.path w = .friends u g → isUser g = true := by
  cases op with
  | sendFriendRequest user id =>
    rcases sendFriendRequest_writes h with ⟨-, rfl⟩ | ⟨-, data, rfl⟩ <;> simp
  | agreeClicked user id name =>
    obtain ⟨data, data', -, -, rfl⟩ := agreeClicked_writes h
    have hu : isUser user.uid = true := hu
    have ho : isUser id = true := ho
    simp [hu, ho]
  | disagreeClicked user id =>
    obtain rfl := disagreeClicked_writes h
    simp

/-- The completion of `addDocument` writes an entry for each member. -/
theorem entries_of_groupAdded {user : User} {groupChatFriends : List String} {g : String}
    {ws : List Write} (h : MessageApp.groupAdded user groupChatFriends g = some ws) :
    (∀ w ∈ ws, ∃ u ∈ groupChatFriends ++ [user.uid], IsEntry u g w) ∧
      ∀ u ∈ groupChatFriends ++ [user.uid], ∃ w ∈ ws, DocWrite.path w = .friends u g := by
  obtain ⟨email, -, h⟩ := Option.bind_eq_some_iff.1 h
  obtain rfl := Option.some.inj h
  have hflag : (Std.ExtTreeMap.ofList [("username", Value.string (email ++ "Start a Group Chat")),
      ("groupFlag", .bool true)] : Doc)["groupFlag"]? = some (.bool true) :=
    Doc.getElem?_ofList_pair (by decide) (by simp)
  constructor
  · intro w hw
    rcases List.mem_cons.1 hw with rfl | hw
    · exact ⟨user.uid, by simp, _, rfl, hflag⟩
    · obtain ⟨u, hu, rfl⟩ := List.mem_map.1 hw
      exact ⟨u, List.mem_append_left _ hu, _, rfl, hflag⟩
  · intro u hu
    rcases List.mem_append.1 hu with hu | hu
    · exact ⟨_, List.mem_cons_of_mem _ (List.mem_map_of_mem hu), rfl⟩
    · rw [List.mem_singleton.1 hu]
      exact ⟨_, List.mem_cons_self, rfl⟩

/-! ## Every write has its start -/

/-- Group documents and entries under no user's id are written by starts of groups, and every start
has written its document; its entries too, unless the completion of its `addDocument` is due. -/
structure Membership (isUser : String → Bool) (es : List Event) (r : Requests) : Prop where
  room : ∀ c, ∀ w ∈ r.net.issued c, ∀ g, DocWrite.path w = .group g →
    ∃ user friends, .startGroupChatNow user friends g ∈ es ∧ w = roomWrite user friends g
  entry : ∀ c, ∀ w ∈ r.net.issued c, ∀ u g, DocWrite.path w = .friends u g → isUser g = false →
    IsEntry u g w ∧
      ∃ user friends, .startGroupChatNow user friends g ∈ es ∧ u ∈ friends ++ [user.uid]
  roomed : ∀ user friends g, .startGroupChatNow user friends g ∈ es →
    roomWrite user friends g ∈ r.net.issued user.uid
  entered : ∀ user friends g, .startGroupChatNow user friends g ∈ es →
    (user, friends, g) ∈ r.adding ∨
      ∀ u ∈ friends ++ [user.uid], ∃ w ∈ r.net.issued user.uid, DocWrite.path w = .friends u g
  started : ∀ user friends g, (user, friends, g) ∈ r.adding →
    .startGroupChatNow user friends g ∈ es

theorem membership_start : Membership isUser [] start where
  room c w hw := by cases hw
  entry c w hw := by cases hw
  roomed := by simp
  entered := by simp
  started := by simp [start]

/-- What issuing writes keeps, when each write to a group or an entry has its start, a start among
the events has written its document and is due, and what is no longer due has its entries. -/
theorem Membership.issue {c : String} {ws : List Write}
    {adding : List (User × List String × String)} (hI : Membership isUser es r) (e : Event)
    (hroom : ∀ w ∈ ws, ∀ g, DocWrite.path w = .group g →
      ∃ user friends, e = .startGroupChatNow user friends g ∧ w = roomWrite user friends g)
    (hentry : ∀ w ∈ ws, ∀ u g, DocWrite.path w = .friends u g → isUser g = false →
      IsEntry u g w ∧ ∃ user friends, (user, friends, g) ∈ r.adding ∧ u ∈ friends ++ [user.uid])
    (hstart : ∀ user friends g, e = .startGroupChatNow user friends g → c = user.uid ∧
      roomWrite user friends g ∈ ws ∧ (user, friends, g) ∈ adding)
    (hdue : ∀ user friends g, (user, friends, g) ∈ r.adding → (user, friends, g) ∈ adding ∨
      c = user.uid ∧ ∀ u ∈ friends ++ [user.uid], ∃ w ∈ ws, DocWrite.path w = .friends u g)
    (hstarted : ∀ user friends g, (user, friends, g) ∈ adding → (user, friends, g) ∈ r.adding ∨
      e = .startGroupChatNow user friends g) :
    Membership isUser (es ++ [e]) ⟨r.net.issue c ws, adding⟩ := by
  have hmono : ∀ {c' w}, w ∈ r.net.issued c' → w ∈ (r.net.issue c ws).issued c' :=
    fun hw => WriteQueue.mem_issued_issue.2 (.inl hw)
  have hes : ∀ {user friends g}, Event.startGroupChatNow user friends g ∈ es ++ [e] ↔
      .startGroupChatNow user friends g ∈ es ∨ e = .startGroupChatNow user friends g := by
    simp [eq_comm]
  refine ⟨fun c' w hw g hp => ?_, fun c' w hw u g hp hg => ?_, fun user friends g hs => ?_,
    fun user friends g hs => ?_, fun user friends g hs => ?_⟩
  · rcases WriteQueue.mem_issued_issue.1 hw with hold | ⟨-, hnew⟩
    · obtain ⟨user, friends, hs, hw⟩ := hI.room c' w hold g hp
      exact ⟨user, friends, hes.2 (.inl hs), hw⟩
    · obtain ⟨user, friends, hs, hw⟩ := hroom w hnew g hp
      exact ⟨user, friends, hes.2 (.inr hs), hw⟩
  · rcases WriteQueue.mem_issued_issue.1 hw with hold | ⟨-, hnew⟩
    · obtain ⟨hentry, user, friends, hs, hu⟩ := hI.entry c' w hold u g hp hg
      exact ⟨hentry, user, friends, hes.2 (.inl hs), hu⟩
    · obtain ⟨hentry, user, friends, hadd, hu⟩ := hentry w hnew u g hp hg
      exact ⟨hentry, user, friends, hes.2 (.inl (hI.started user friends g hadd)), hu⟩
  · rcases hes.1 hs with hs | hs
    · exact hmono (hI.roomed user friends g hs)
    · obtain ⟨rfl, hw, -⟩ := hstart user friends g hs
      exact WriteQueue.mem_issued_issue.2 (.inr ⟨rfl, hw⟩)
  · rcases hes.1 hs with hs | hs
    · rcases hI.entered user friends g hs with hadd | hold
      · refine (hdue user friends g hadd).imp_right ?_
        rintro ⟨rfl, hall⟩ u hu
        obtain ⟨w, hw, hp⟩ := hall u hu
        exact ⟨w, WriteQueue.mem_issued_issue.2 (.inr ⟨rfl, hw⟩), hp⟩
      · refine .inr fun u hu => ?_
        obtain ⟨w, hw, hp⟩ := hold u hu
        exact ⟨w, hmono hw, hp⟩
    · exact .inl (hstart user friends g hs).2.2
  · exact hes.2 ((hstarted user friends g hs).imp_left (hI.started user friends g))

theorem Membership.step (hI : Membership isUser es r) (h : r.step isUser e = some r') :
    Membership isUser (es ++ [e]) r' := by
  rcases step_inv h with ⟨c, q, rfl, hq, rfl⟩ | ⟨op, ws, rfl, hu, ho, hws, rfl⟩ |
    ⟨user, friends, g, rfl, -, rfl⟩ | ⟨j, user, friends, g, ws, rfl, hj, hws, rfl⟩
  · have hes : ∀ user friends g, Event.startGroupChatNow user friends g ∈ es ++ [.land c] ↔
        .startGroupChatNow user friends g ∈ es := by simp
    obtain ⟨hroom, hentry, hroomed, hentered, hstarted⟩ := hI
    constructor <;> simpa only [WriteQueue.issued_land hq, hes]
  · have hpaths := paths_of_writes hws hu ho
    refine hI.issue _ (fun w hw g hp => ?_) (fun w hw u g hp hg => ?_) (by simp)
      (fun user friends g h => .inl h) (fun user friends g h => .inl h)
    · exact ((hpaths w hw).1 g hp).elim
    · rw [(hpaths w hw).2 u g hp] at hg
      cases hg
  · refine hI.issue _ (fun w hw g' hp => ?_) (fun w hw u g' hp => ?_) ?_
      (fun user' friends' g' h => .inl (List.mem_append_left _ h)) (fun user' friends' g' h => ?_)
    · obtain rfl := List.mem_singleton.1 hw
      obtain rfl := DocPath.group.inj hp
      exact ⟨user, friends, rfl, rfl⟩
    · obtain rfl := List.mem_singleton.1 hw
      cases hp
    · rintro _ _ _ ⟨⟩
      simp
    · refine (List.mem_append.1 h).imp_right fun h => ?_
      obtain ⟨rfl, rfl, rfl⟩ : user' = user ∧ friends' = friends ∧ g' = g := by simpa using h
      rfl
  · obtain ⟨hentries, hall⟩ := entries_of_groupAdded hws
    refine hI.issue _ (fun w hw g' hp => ?_) (fun w hw u g' hp _ => ?_) (by simp)
      (fun user' friends' g' h => ?_) (fun _ _ _ h => .inl (List.mem_of_mem_eraseIdx h))
    · obtain ⟨u, -, data, rfl, -⟩ := hentries w hw
      cases hp
    · obtain ⟨u', hu', data, rfl, hflag⟩ := hentries w hw
      obtain ⟨rfl, rfl⟩ := DocPath.friends.inj hp
      exact ⟨⟨data, rfl, hflag⟩, user, friends, List.mem_of_getElem? hj, hu'⟩
    · by_cases heq : (user', friends', g') = (user, friends, g)
      · simp only [Prod.mk.injEq] at heq
        obtain ⟨rfl, rfl, rfl⟩ := heq
        exact .inr ⟨rfl, hall⟩
      · obtain ⟨k, hk⟩ := List.getElem?_of_mem h
        refine .inl (List.mem_eraseIdx_iff_getElem?.2 ⟨k, fun hkj => heq ?_, hk⟩)
        rw [hkj, hj] at hk
        exact (Option.some.inj hk).symm

theorem membership_of_run (h : EventRun.run (step isUser) start es = some r) :
    Membership isUser es r :=
  EventRun.run_history (step isUser) membership_start (fun _ _ _ _ _ hI hs => hI.step hs) h

/-- Ids picked apart name one start each. -/
theorem start_unique (hpicked : (es.filterMap picked).Nodup) {user user' : User}
    {friends friends' : List String} {g : String}
    (h : .startGroupChatNow user friends g ∈ es) (h' : .startGroupChatNow user' friends' g ∈ es) :
    user' = user ∧ friends' = friends := by
  have hpair := List.pairwise_filterMap.1 hpicked
  have hsymm : Std.Symm fun e e' : Event =>
      ∀ b, picked e = some b → ∀ b', picked e' = some b' → b ≠ b' :=
    ⟨fun e e' h b hb b' hb' he => h b' hb' b hb he.symm⟩
  by_contra hne
  refine hpair.forall h' h (fun he => hne ?_) g rfl g rfl rfl
  obtain ⟨rfl, rfl, -⟩ := Event.startGroupChatNow.inj he
  exact ⟨rfl, rfl⟩

section Rest

variable (hI : Membership isUser es r) (hrest : r.net.Rest)
include hI hrest

theorem Membership.group_eq (hpicked : (es.filterMap picked).Nodup) {user : User}
    {friends : List String} {g : String} (hs : .startGroupChatNow user friends g ∈ es) :
    r.store init (.group g) = some (.ofList [("RoomOwner", Value.string user.uid),
      ("RoomMember", .ofStrings (friends ++ [user.uid]))]) := by
  refine DocWrite.replay_of_forall_act (I := (· = _)) (fun w hw hp d => ?_)
    (WriteQueue.mem_landed_of_rest hrest (hI.roomed user friends g hs)) rfl
  obtain ⟨c, hc⟩ := WriteQueue.mem_issued_of_mem_landed hw
  obtain ⟨user', friends', hs', rfl⟩ := hI.room c w hc g hp
  obtain ⟨rfl, rfl⟩ := start_unique hpicked hs hs'
  rfl

omit hrest in
theorem Membership.group_none (hgroup : ∀ g, init (.group g) = none) {g : String}
    (hs : ¬ ∃ user friends, .startGroupChatNow user friends g ∈ es) :
    r.store init (.group g) = none := by
  rw [store, DocWrite.replay_of_forall_ne fun w hw hp => ?_, hgroup]
  obtain ⟨c, hc⟩ := WriteQueue.mem_issued_of_mem_landed hw
  obtain ⟨user, friends, h, -⟩ := hI.room c w hc g hp
  exact hs ⟨user, friends, h⟩

/-- The members are those of the start. -/
theorem Membership.inRoom_iff (hgroup : ∀ g, init (.group g) = none)
    (hpicked : (es.filterMap picked).Nodup) (g u : String) :
    InRoom (r.store init) g u ↔
      ∃ user friends, .startGroupChatNow user friends g ∈ es ∧ u ∈ friends ++ [user.uid] := by
  have hmember : ∀ (v : Value) (l : List String), (Std.ExtTreeMap.ofList [("RoomOwner", v),
      ("RoomMember", .ofStrings l)] : Doc)["RoomMember"]? = some (.ofStrings l) :=
    fun v l => Doc.getElem?_ofList_pair (by decide) (by simp)
  constructor
  · rintro ⟨members, hm, hu⟩
    by_cases hs : ∃ user friends, .startGroupChatNow user friends g ∈ es
    · obtain ⟨user, friends, hs⟩ := hs
      rw [hI.group_eq hrest hpicked hs, field_some, hmember, Option.some.injEq,
        Value.ofStrings_inj] at hm
      exact ⟨user, friends, hs, hm ▸ hu⟩
    · rw [hI.group_none hgroup hs] at hm
      cases hm
  · rintro ⟨user, friends, hs, hu⟩
    refine ⟨friends ++ [user.uid], ?_, hu⟩
    rw [hI.group_eq hrest hpicked hs]
    exact hmember _ _

theorem Membership.entry_iff (hfriends : ∀ u f, init (.friends u f) = none) (hadded : r.adding = [])
    {g : String} (hg : isUser g = false) (u : String) :
    (r.store init (.friends u g)).isSome ↔
      ∃ user friends, .startGroupChatNow user friends g ∈ es ∧ u ∈ friends ++ [user.uid] := by
  rw [store, isSome_replay, hfriends]
  · constructor
    · rintro (h | ⟨w, hw, hp⟩)
      · cases h
      · obtain ⟨c, hc⟩ := WriteQueue.mem_issued_of_mem_landed hw
        exact (hI.entry c w hc u g hp hg).2
    · rintro ⟨user, friends, hs, hu⟩
      rcases hI.entered user friends g hs with hadd | hall
      · rw [hadded] at hadd
        cases hadd
      · obtain ⟨w, hw, hp⟩ := hall u hu
        exact .inr ⟨w, WriteQueue.mem_landed_of_rest hrest hw, hp⟩
  · intro w hw hp d
    obtain ⟨c, hc⟩ := WriteQueue.mem_issued_of_mem_landed hw
    obtain ⟨data, rfl, -⟩ := (hI.entry c w hc u g hp hg).1
    rfl

omit hrest in
theorem Membership.entry_flag (hfriends : ∀ u f, init (.friends u f) = none) {g : String}
    (hg : isUser g = false) (u : String) (h : (r.store init (.friends u g)).isSome) :
    field (r.store init (.friends u g)) "groupFlag" = some (.bool true) := by
  obtain ⟨doc, hdoc⟩ := Option.isSome_iff_exists.1 h
  rw [hdoc]
  refine DocWrite.replay_keeps_some (I := fun doc => field (some doc) "groupFlag" =
    some (.bool true)) (hfriends u g) (fun w hw hp d _ doc hd => ?_) hdoc
  obtain ⟨c, hc⟩ := WriteQueue.mem_issued_of_mem_landed hw
  obtain ⟨data, rfl, hflag⟩ := (hI.entry c w hc u g hp hg).1
  exact Option.some.inj hd ▸ hflag

end Rest

/-- With nothing in flight and no completion due, the members of each group are those who have an
entry for it, the entries say that it is a group, and its owner is a member. The ids `addDocument`
picks are apart. -/
theorem membership_recorded (hgroup : ∀ g, init (.group g) = none)
    (hfriends : ∀ u f, init (.friends u f) = none) (hpicked : (es.filterMap picked).Nodup)
    (h : EventRun.run (step isUser) start es = some r) (hrest : r.net.Rest)
    (hadded : r.adding = []) {g : String} (hg : isUser g = false) (u : String) :
    (InRoom (r.store init) g u ↔ (r.store init (.friends u g)).isSome) ∧
    ((r.store init (.friends u g)).isSome →
      field (r.store init (.friends u g)) "groupFlag" = some (.bool true)) ∧
    ((r.store init (.group g)).isSome → ∃ owner,
      field (r.store init (.group g)) "RoomOwner" = some (.string owner) ∧
        InRoom (r.store init) g owner) := by
  have hI := membership_of_run h
  refine ⟨?_, hI.entry_flag hfriends hg u, fun hs => ?_⟩
  · rw [hI.entry_iff hrest hfriends hadded hg u, hI.inRoom_iff hrest hgroup hpicked]
  · by_cases hstart : ∃ user friends, .startGroupChatNow user friends g ∈ es
    · obtain ⟨user, friends, hstart⟩ := hstart
      refine ⟨user.uid, ?_, (hI.inRoom_iff hrest hgroup hpicked g user.uid).2
        ⟨user, friends, hstart, by simp⟩⟩
      rw [hI.group_eq hrest hpicked hstart, field_some]
      exact Doc.getElem?_ofList_pair (by decide) (by simp)
    · rw [hI.group_none hgroup hstart] at hs
      cases hs

/-- `a` starts a group with `b`. -/
def starting : List Event :=
  [.startGroupChatNow { uid := "a", email := some "a@" } ["b"] "g", .land "a", .groupAdded 0,
    .land "a", .land "a"]

theorem membership_recorded_starting :
    ∃ r, EventRun.run (step fun id => id == "a" || id == "b") start starting = some r ∧
      (r.store (fun _ => none) (.friends "b" "g")).isSome ∧
      InRoom (r.store fun _ => none) "g" "b" := by
  obtain ⟨r, hr⟩ := Option.isSome_iff_exists.1 (by decide :
    (EventRun.run (step fun id => id == "a" || id == "b") start starting).isSome)
  have hend : ∀ r, EventRun.run (step fun id => id == "a" || id == "b") start starting = some r →
      (∀ c ∈ ["a"], r.net.pending c = []) ∧ r.adding.isEmpty ∧
        (r.store (fun _ => none) (.friends "b" "g")).isSome := by decide
  obtain ⟨hpending, hadded, hb⟩ := hend r hr
  have hrest : r.net.Rest := rest_of_actors (by decide) hr hpending
  exact ⟨r, hr, hb, (membership_recorded (fun _ => rfl) (fun _ _ => rfl) (by decide) hr hrest
    (List.isEmpty_iff.1 hadded) (by decide) "b").1.2 hb⟩

end Requests

end MessageApp
