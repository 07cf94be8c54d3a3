import MessageApp.Proofs.Membership
import MessageApp.Proofs.Posts

/-!
# Writes that are rejected

An update writes its documents one by one, and nothing undoes the writes that were accepted when
another is rejected. So each document by itself shows the update or is as it was, and the whole
update shows exactly when every document does (`each_document`).
-/

namespace MessageApp

/-- What a user does that writes several documents. -/
inductive Update
  | post (p : Post)
  | operation (op : Operation)

namespace Update

def writes : Update → Option (List Write)
  | .post p => some p.writes
  | .operation op => op.writes

/-- The document has what the update is to bring about: the message under its clock, the request, or
the friendship; a request that was answered is gone. -/
def Shows : Update → DocPath → Option Doc → Prop
  | .post p, _, doc => field doc p.t = some p.record
  | .operation (.sendFriendRequest user _), _, doc => ∃ name, user.displayName = some name ∧
      doc = some (.ofList [("Requesting", Value.string "true"), ("username", .string name)])
  | .operation (.agreeClicked _ _ _), .friends _ _, doc =>
      field doc "groupFlag" = some (.bool false)
  | .operation _, _, doc => doc = none

/-- A request to the user is answered, its deletion accepted, and yet not both are friends. -/
def ConsumedUnbefriended (before after : Store) (user id : String) : Prop :=
  (before (.friendRequestFrom user id)).isSome ∧ after (.friendRequestFrom user id) = none ∧
    ¬ ((after (.friends user id)).isSome ∧ (after (.friends id user)).isSome)

/-- One of the writes is to the document. -/
def Names (ws : List Write) (p : DocPath) : Prop := ∃ w ∈ ws, DocWrite.path w = p

instance (ws : List Write) (p : DocPath) : Decidable (Names ws p) :=
  inferInstanceAs (Decidable (∃ w ∈ ws, DocWrite.path w = p))

variable {u : Update} {ws accepted : List Write}

/-- Whatever a document was, a write of the update leaves the update in it. -/
theorem shows_act (hws : u.writes = some ws) {w : Write} (hw : w ∈ ws) (doc : Option Doc) :
    u.Shows (DocWrite.path w) (DocWrite.act w doc) := by
  cases u with
  | post p =>
    obtain rfl := Option.some.inj hws
    obtain ⟨hmerge, hentry⟩ := Post.posts_of_mem_writes hw
    show field _ _ = _
    rw [hmerge.field_act, hentry, if_pos rfl, Option.some_or]
  | operation op =>
    cases op with
    | sendFriendRequest user id =>
      simp only [writes, Operation.writes, MessageApp.sendFriendRequest, Option.bind_eq_bind,
        Option.bind_some] at hws
      split_ifs at hws
      · obtain ⟨name, hname, hws⟩ := Option.bind_eq_some_iff.1 hws
        obtain rfl := Option.some.inj hws
        simp only [List.mem_cons, List.not_mem_nil, or_false] at hw
        rcases hw with rfl | rfl <;> exact ⟨name, hname, rfl⟩
      · obtain rfl := Option.some.inj hws
        cases hw
    | agreeClicked user id name =>
      obtain ⟨data, data', hflag, hflag', rfl⟩ := agreeClicked_writes hws
      simp only [List.mem_cons, List.not_mem_nil, or_false] at hw
      rcases hw with rfl | rfl | rfl | rfl
      · rfl
      · rfl
      · exact hflag
      · exact hflag'
    | disagreeClicked user id =>
      obtain rfl := disagreeClicked_writes hws
      simp only [List.mem_cons, List.not_mem_nil, or_false] at hw
      rcases hw with rfl | rfl <;> rfl

theorem shows_replay (hws : u.writes = some ws) (hsub : accepted ⊆ ws) {p : DocPath}
    (hp : Names accepted p) (store : Store) : u.Shows p (DocWrite.replay store accepted p) := by
  obtain ⟨w, hw, rfl⟩ := hp
  refine DocWrite.replay_of_forall_act (I := u.Shows (DocWrite.path w)) (fun w' hw' hp' d => ?_)
    hw rfl
  exact hp' ▸ shows_act hws (hsub hw') d

theorem replay_of_not_names {p : DocPath} (hp : ¬ Names accepted p) (store : Store) :
    DocWrite.replay store accepted p = store p :=
  DocWrite.replay_of_forall_ne fun w hw he => hp ⟨w, hw, he⟩

/-- An accepted agreement leaves both friendships: what is missing was rejected, and missing
before. -/
theorem friends_replay_isSome_iff {user : User} {id name : String}
    (hws : (Update.operation (.agreeClicked user id name)).writes = some ws)
    (hsub : accepted ⊆ ws) (store : Store) (a b : String) :
    (DocWrite.replay store accepted (.friends a b)).isSome ↔
      Names accepted (.friends a b) ∨ (store (.friends a b)).isSome := by
  by_cases hp : Names accepted (.friends a b)
  · have hshows : field _ "groupFlag" = some (.bool false) := shows_replay hws hsub hp store
    refine iff_of_true ?_ (.inl hp)
    by_contra hnone
    rw [Option.not_isSome_iff_eq_none.1 hnone] at hshows
    cases hshows
  · rw [replay_of_not_names hp, or_iff_right hp]

/-- Once the writes of an update are answered, whichever were accepted, and in whatever order: each
document with an accepted write shows the update, and every other is as it was. So the whole update
shows exactly when each of its documents had a write accepted or showed it before. A request is
consumed without the friendship exactly when its deletion is accepted and a friendship that was not
there is rejected. -/
theorem each_document (hws : u.writes = some ws) (hsub : accepted ⊆ ws) (store : Store) :
    (∀ p, Names accepted p → u.Shows p (DocWrite.replay store accepted p)) ∧
    (∀ p, ¬ Names accepted p → DocWrite.replay store accepted p = store p) ∧
    ((∀ p, Names ws p → u.Shows p (DocWrite.replay store accepted p)) ↔
      ∀ p, Names ws p → Names accepted p ∨ u.Shows p (store p)) ∧
    ∀ user id name, u = .operation (.agreeClicked user id name) →
      (ConsumedUnbefriended store (DocWrite.replay store accepted) user.uid id ↔
        (store (.friendRequestFrom user.uid id)).isSome ∧
        Names accepted (.friendRequestFrom user.uid id) ∧
        (¬ Names accepted (.friends user.uid id) ∧ store (.friends user.uid id) = none ∨
          ¬ Names accepted (.friends id user.uid) ∧ store (.friends id user.uid) = none)) := by
  refine ⟨fun p hp => shows_replay hws hsub hp store, fun p hp => replay_of_not_names hp store,
    forall₂_congr fun p _ => ?_, ?_⟩
  · by_cases hp : Names accepted p
    · exact iff_of_true (shows_replay hws hsub hp store) (.inl hp)
    · rw [replay_of_not_names hp, or_iff_right hp]
  · rintro user id name rfl
    unfold ConsumedUnbefriended
    rw [friends_replay_isSome_iff hws hsub, friends_replay_isSome_iff hws hsub]
    refine and_congr_right fun hreq => and_congr ?_ ?_
    · by_cases hp : Names accepted (.friendRequestFrom user.uid id)
      · exact iff_of_true (shows_replay hws hsub hp store) hp
      · rw [replay_of_not_names hp]
        exact iff_of_false (fun hn => by simp [hn] at hreq) hp
    · rw [not_and_or, not_or, not_or, Option.not_isSome_iff_eq_none, Option.not_isSome_iff_eq_none]

/-- `a` asks `b`. -/
def asking : List Requests.Event :=
  [.operate (.sendFriendRequest { uid := "a", displayName := some "A" } "b"), .land "a", .land "a"]

/-- What `b` writes to agree, but for the entry among the friends of `a`. -/
def agreeing : List Write :=
  (((Operation.agreeClicked { uid := "b" } "a" "A").writes).getD []).take 3

theorem each_document_agreeing : ∃ r,
    EventRun.run (Requests.step fun _ => true) Requests.start asking = some r ∧
      ConsumedUnbefriended (r.store fun _ => none)
        (DocWrite.replay (r.store fun _ => none) agreeing) "b" "a" := by
  obtain ⟨r, hr⟩ := Option.isSome_iff_exists.1
    (by decide : (EventRun.run (Requests.step fun _ => true) Requests.start asking).isSome)
  have hend : ∀ r, EventRun.run (Requests.step fun _ => true) Requests.start asking = some r →
      (r.store (fun _ => none) (.friendRequestFrom "b" "a")).isSome ∧
        r.store (fun _ => none) (.friends "a" "b") = none := by decide
  obtain ⟨hreq, hnone⟩ := hend r hr
  have hsub : agreeing ⊆ ((Operation.agreeClicked { uid := "b" } "a" "A").writes).getD [] :=
    List.take_subset 3 _
  exact ⟨r, hr, ((each_document (u := .operation (.agreeClicked { uid := "b" } "a" "A")) rfl hsub
    (r.store fun _ => none)).2.2.2 { uid := "b" } "a" "A" rfl).2
    ⟨hreq, by decide, .inr ⟨by decide, hnone⟩⟩⟩

/-- `b` agrees, and the write to the friends of `a` is rejected. -/
theorem not_all_or_nothing :
    ¬ ∀ (isUser : String → Bool) (es : List Requests.Event) (r : Requests),
      EventRun.run (Requests.step isUser) Requests.start es = some r → r.net.Rest →
      ∀ (u : Update) (ws accepted : List Write), u.writes = some ws → accepted ⊆ ws →
        (∀ p, Names ws p → u.Shows p (DocWrite.replay (r.store fun _ => none) accepted p)) ∨
          ∀ p, Names ws p →
            DocWrite.replay (r.store fun _ => none) accepted p = r.store (fun _ => none) p := by
  intro h
  obtain ⟨r, hr⟩ := Option.isSome_iff_exists.1
    (by decide : (EventRun.run (Requests.step fun _ => true) Requests.start asking).isSome)
  have hend : ∀ r, EventRun.run (Requests.step fun _ => true) Requests.start asking = some r →
      (∀ c ∈ ["a"], r.net.pending c = []) ∧
        field (DocWrite.replay (r.store fun _ => none) agreeing (.friends "a" "b")) "groupFlag" ≠
          some (.bool false) ∧
        DocWrite.replay (r.store fun _ => none) agreeing (.friendRequestFrom "b" "a") ≠
          r.store (fun _ => none) (.friendRequestFrom "b" "a") := by decide
  obtain ⟨hpending, hfriends, hreq⟩ := hend r hr
  have hrest : r.net.Rest := Requests.rest_of_actors (by decide) hr hpending
  rcases h _ _ r hr hrest (.operation (.agreeClicked { uid := "b" } "a" "A")) _ agreeing rfl
    (List.take_subset 3 _) with hall | hnone
  · exact hfriends (hall (.friends "a" "b") ⟨_, List.mem_of_mem_getLast? rfl, rfl⟩)
  · exact hreq (hnone _ ⟨_, List.mem_cons_self, rfl⟩)

end Update

end MessageApp
