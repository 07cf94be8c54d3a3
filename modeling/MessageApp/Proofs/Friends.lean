import MessageApp.Proofs.RequestSteps

/-!
# Friendships are symmetric

Only agreements write the friendship documents of two users, both of them, and nothing deletes one.
So at rest each exists exactly when the other does (`friends_symmetric`), whatever else overlaps.
-/

namespace MessageApp

namespace Requests

variable {isUser : String → Bool} {r : Requests} {init : Store}

/-- A write to a `Friends` document replaces it; between users it says that it is no group, and the
other document is written too. -/
def Befriends (isUser : String → Bool) (q : WriteQueue String Write) : Prop :=
  ∀ c, ∀ w ∈ q.issued c, ∀ a b, DocWrite.path w = .friends a b →
    ∃ data, w = .setData (.friends a b) data false ∧ (isUser b = true →
      data["groupFlag"]? = some (Value.bool false) ∧
      ∃ c' w', w' ∈ q.issued c' ∧ DocWrite.path w' = .friends b a)

theorem befriends_issue {q : WriteQueue String Write} {c : String} {ws : List Write}
    (hI : Befriends isUser q) (hws : Issues isUser c ws) : Befriends isUser (q.issue c ws) := by
  intro c' w hw a b hp
  rcases WriteQueue.mem_issued_issue.1 hw with hold | ⟨rfl, hnew⟩
  · obtain ⟨data, hdata, hb⟩ := hI c' w hold a b hp
    refine ⟨data, hdata, fun hu => ?_⟩
    obtain ⟨hf, c'', w', hw', hp'⟩ := hb hu
    exact ⟨hf, c'', w', WriteQueue.mem_issued_issue.2 (.inl hw'), hp'⟩
  · have hmem : ∀ w' ∈ ws, w' ∈ (q.issue c' ws).issued c' :=
      fun w' hw' => WriteQueue.mem_issued_issue.2 (.inr ⟨rfl, hw'⟩)
    cases hws with
    | nothing => cases hnew
    | request hne =>
      simp only [List.mem_cons, List.not_mem_nil, or_false] at hnew
      rcases hnew with rfl | rfl <;> cases hp
    | @agree id data data' hf hf' =>
      simp only [List.mem_cons, List.not_mem_nil, or_false] at hnew
      rcases hnew with rfl | rfl | rfl | rfl
      · cases hp
      · cases hp
      · obtain ⟨rfl, rfl⟩ := DocPath.friends.inj hp
        exact ⟨data, rfl, fun _ => ⟨hf, c', .setData (.friends id c') data' false,
          hmem _ (by simp), rfl⟩⟩
      · obtain ⟨rfl, rfl⟩ := DocPath.friends.inj hp
        exact ⟨data', rfl, fun _ => ⟨hf', c', .setData (.friends c' id) data false,
          hmem _ (by simp), rfl⟩⟩
    | disagree =>
      simp only [List.mem_cons, List.not_mem_nil, or_false] at hnew
      rcases hnew with rfl | rfl <;> cases hp
    | group =>
      rw [List.mem_singleton.1 hnew] at hp
      cases hp
    | added href hall =>
      obtain ⟨uid, data, rfl⟩ := hall w hnew
      obtain ⟨rfl, rfl⟩ := DocPath.friends.inj hp
      refine ⟨data, rfl, fun hu => ?_⟩
      rw [href] at hu
      cases hu

theorem befriends_of_run {es : List Event} (h : EventRun.run (step isUser) start es = some r) :
    Befriends isUser r.net := by
  refine net_induction (fun c w hw => by cases hw) (fun q c ws hI hws => befriends_issue hI hws)
    (fun q c q' hI hq c' w hw a b hp => ?_) h
  have hissued := WriteQueue.issued_land hq
  rw [hissued] at hw
  obtain ⟨data, hdata, hb⟩ := hI c' w hw a b hp
  refine ⟨data, hdata, fun hu => ?_⟩
  obtain ⟨hf, c'', w', hw', hp'⟩ := hb hu
  exact ⟨hf, c'', w', by rwa [hissued], hp'⟩

theorem Befriends.of_landed (hI : Befriends isUser r.net) {w : Write} (hw : w ∈ r.net.landed)
    {a b : String} (hp : DocWrite.path w = .friends a b) :
    ∃ data, w = .setData (.friends a b) data false ∧ (isUser b = true →
      data["groupFlag"]? = some (Value.bool false) ∧
      ∃ c' w', w' ∈ r.net.issued c' ∧ DocWrite.path w' = .friends b a) := by
  obtain ⟨c, hc⟩ := WriteQueue.mem_issued_of_mem_landed hw
  exact hI c w hc a b hp

/-- A friendship document exists exactly when a write to it has landed. -/
theorem Befriends.isSome_iff (hI : Befriends isUser r.net) {a b : String}
    (hinit : init (.friends a b) = none) :
    (r.store init (.friends a b)).isSome ↔ ∃ w ∈ r.net.landed, DocWrite.path w = .friends a b := by
  have h : ∀ w ∈ r.net.landed, DocWrite.path w = .friends a b →
      ∀ d : Option Doc, (DocWrite.act w d).isSome := by
    intro w hw hp d
    obtain ⟨data, rfl, -⟩ := hI.of_landed hw hp
    rfl
  rw [store, isSome_replay h, hinit]
  simp

theorem Befriends.groupFlag (hI : Befriends isUser r.net) {a b : String}
    (hinit : init (.friends a b) = none) (hb : isUser b = true)
    (h : (r.store init (.friends a b)).isSome) :
    field (r.store init (.friends a b)) "groupFlag" = some (.bool false) := by
  obtain ⟨doc, hdoc⟩ := Option.isSome_iff_exists.1 h
  rw [hdoc]
  refine DocWrite.replay_keeps_some (I := fun doc => field (some doc) "groupFlag" =
    some (.bool false)) hinit (fun w hw hp d _ doc hd => ?_) hdoc
  obtain ⟨data, rfl, hflag⟩ := hI.of_landed hw hp
  exact Option.some.inj hd ▸ (hflag hb).1

theorem landed_step {r' : Requests} {e : Event} (h : r.step isUser e = some r')
    (hadd : AddsGroups isUser r) {w : Write} (hw : w ∈ r.net.landed) : w ∈ r'.net.landed := by
  rcases (step_cases hadd h).2 with ⟨c, q, -, hq, rfl⟩ | ⟨-, c, ws, -, hn⟩
  · exact WriteQueue.mem_landed_land hq hw
  · rw [hn]
    exact hw

/-- From a store without friends: at rest two users are friends of each other or neither of the
other, and no group to each other; and no later step of anyone ends a friendship. -/
theorem friends_symmetric {es : List Event} (h : EventRun.run (step isUser) start es = some r)
    (hinit : ∀ a b, init (.friends a b) = none) :
    (r.net.Rest → ∀ a b, isUser a = true → isUser b = true →
      ((r.store init (.friends a b)).isSome ↔ (r.store init (.friends b a)).isSome) ∧
      ((r.store init (.friends a b)).isSome →
        field (r.store init (.friends a b)) "groupFlag" = some (.bool false) ∧
        field (r.store init (.friends b a)) "groupFlag" = some (.bool false))) ∧
    ∀ es' r', EventRun.run (step isUser) r es' = some r' → ∀ a b,
      (r.store init (.friends a b)).isSome → (r'.store init (.friends a b)).isSome := by
  have hI := befriends_of_run h
  refine ⟨fun hrest a b ha hb => ?_, fun es' r' h' a b hab => ?_⟩
  · have hsym : ∀ a b, isUser b = true → (r.store init (.friends a b)).isSome →
        (r.store init (.friends b a)).isSome := by
      intro a b hb hab
      obtain ⟨w, hw, hp⟩ := (hI.isSome_iff (hinit a b)).1 hab
      obtain ⟨data, -, hdata⟩ := hI.of_landed hw hp
      obtain ⟨-, c', w', hw', hp'⟩ := hdata hb
      exact (hI.isSome_iff (hinit b a)).2 ⟨w', WriteQueue.mem_landed_of_rest hrest hw', hp'⟩
    refine ⟨⟨hsym a b hb, hsym b a ha⟩, fun hab => ⟨hI.groupFlag (hinit a b) hb hab, ?_⟩⟩
    exact hI.groupFlag (hinit b a) ha (hsym a b hb hab)
  · obtain ⟨w, hw, hp⟩ := (hI.isSome_iff (hinit a b)).1 hab
    have hrun : EventRun.run (step isUser) start (es ++ es') = some r' := by
      rw [EventRun.run_append, h]
      exact h'
    refine ((befriends_of_run hrun).isSome_iff (hinit a b)).2 ⟨w, ?_, hp⟩
    have hmono : AddsGroups isUser r' ∧ w ∈ r'.net.landed :=
      EventRun.run_invariant (I := fun r => AddsGroups isUser r ∧ w ∈ r.net.landed) (step isUser)
        (fun _ _ _ hI hs => ⟨(step_cases hI.1 hs).1, landed_step hs hI.1 hI.2⟩)
        ⟨addsGroups_of_run h, hw⟩ h'
    exact hmono.2

/-- `a` asks `b`, who agrees. -/
def befriending : List Event :=
  [.operate (.sendFriendRequest { uid := "a", displayName := some "A" } "b"), .land "a", .land "a",
    .operate (.agreeClicked { uid := "b" } "a" "A"), .land "b", .land "b", .land "b", .land "b"]

theorem friends_symmetric_befriending :
    ∃ r, EventRun.run (step fun _ => true) start befriending = some r ∧
      (r.store (fun _ => none) (.friends "b" "a")).isSome ∧
      field (r.store (fun _ => none) (.friends "a" "b")) "groupFlag" = some (.bool false) := by
  obtain ⟨r, hr⟩ := Option.isSome_iff_exists.1
    (by decide : (EventRun.run (step fun _ => true) start befriending).isSome)
  have hend : ∀ r, EventRun.run (step fun _ => true) start befriending = some r →
      (∀ c ∈ ["a", "b"], r.net.pending c = []) ∧
        (r.store (fun _ => none) (.friends "a" "b")).isSome := by decide
  obtain ⟨hpending, hab⟩ := hend r hr
  obtain ⟨hsym, hflag⟩ := (@friends_symmetric _ _ (fun _ => none) _ hr fun _ _ => rfl).1
    (rest_of_actors (by decide) hr hpending) "a" "b" rfl rfl
  exact ⟨r, hr, hsym.1 hab, (hflag hab).1⟩

end Requests

end MessageApp
