import MessageApp.FriendRequest

/-!
# When a friendship and a request coexist

Operations executed at once keep friendships and requests apart exactly when nobody asks a friend,
and nobody agrees to a request while one of theirs in the other direction is pending
(`apart_iff`): agreeing removes the request in one direction only.
-/

namespace MessageApp

namespace Operation

/-- Between friends no request is pending, in either direction. -/
def Apart (store : Store) : Prop :=
  ∀ a b, (store (.friends a b)).isSome →
    store (.friendRequestFrom a b) = none ∧ store (.friendRequestFrom b a) = none ∧
      store (.friendRequestTo a b) = none ∧ store (.friendRequestTo b a) = none

/-- Who asks is no friend yet, and who agrees has not asked the other. -/
def Clear (_ : List Operation) (store : Store) : Operation → Prop
  | sendFriendRequest user id => user.uid ≠ id →
      store (.friends user.uid id) = none ∧ store (.friends id user.uid) = none
  | agreeClicked user id _ => user.uid ≠ id →
      store (.friendRequestFrom id user.uid) = none ∧ store (.friendRequestTo user.uid id) = none
  | disagreeClicked _ _ => True

instance (ops : List Operation) (store : Store) : DecidablePred (Clear ops store)
  | sendFriendRequest _ _ | agreeClicked _ _ _ => inferInstanceAs (Decidable (_ → _ ∧ _))
  | disagreeClicked _ _ => .isTrue trivial

variable {store store' : Store}

/-- Requests that are only ever deleted, between friends that stay the same, stay apart. -/
theorem Apart.of_le (h : Apart store)
    (hf : ∀ x y, store' (.friends x y) = store (.friends x y))
    (hfrom : ∀ x y, store (.friendRequestFrom x y) = none → store' (.friendRequestFrom x y) = none)
    (hto : ∀ x y, store (.friendRequestTo x y) = none → store' (.friendRequestTo x y) = none) :
    Apart store' := by
  intro x y hxy
  rw [hf] at hxy
  obtain ⟨h1, h2, h3, h4⟩ := h x y hxy
  exact ⟨hfrom _ _ h1, hfrom _ _ h2, hto _ _ h3, hto _ _ h4⟩

theorem apart_send {a b : String} (data : Doc) (h : Apart store)
    (hf : ∀ x y, store' (.friends x y) = store (.friends x y))
    (hfrom : ∀ x y, store' (.friendRequestFrom x y)
      = if x = b ∧ y = a then some data else store (.friendRequestFrom x y))
    (hto : ∀ x y, store' (.friendRequestTo x y)
      = if x = a ∧ y = b then some data else store (.friendRequestTo x y)) :
    Apart store' ↔ store (.friends a b) = none ∧ store (.friends b a) = none := by
  have hasked : store' (.friendRequestTo a b) = some data := by rw [hto, if_pos ⟨rfl, rfl⟩]
  constructor
  · intro h'
    refine ⟨Option.not_isSome_iff_eq_none.1 fun hab => ?_,
      Option.not_isSome_iff_eq_none.1 fun hba => ?_⟩
    · obtain ⟨-, -, hnone, -⟩ := h' a b (by rwa [hf])
      rw [hasked] at hnone
      cases hnone
    · obtain ⟨-, -, -, hnone⟩ := h' b a (by rwa [hf])
      rw [hasked] at hnone
      cases hnone
  · rintro ⟨hab, hba⟩ x y hxy
    rw [hf] at hxy
    have hne : ¬ (x = a ∧ y = b) := by
      rintro ⟨rfl, rfl⟩
      rw [hab] at hxy
      cases hxy
    have hne' : ¬ (x = b ∧ y = a) := by
      rintro ⟨rfl, rfl⟩
      rw [hba] at hxy
      cases hxy
    obtain ⟨h1, h2, h3, h4⟩ := h x y hxy
    rw [hfrom, hfrom, hto, hto, if_neg hne', if_neg (by tauto), if_neg hne, if_neg (by tauto)]
    exact ⟨h1, h2, h3, h4⟩

theorem apart_agree {a b : String} (dab dba : Doc) (h : Apart store)
    (hf : ∀ x y, store' (.friends x y) = if x = b ∧ y = a then some dba
      else if x = a ∧ y = b then some dab else store (.friends x y))
    (hfrom : ∀ x y, store' (.friendRequestFrom x y)
      = if x = a ∧ y = b then none else store (.friendRequestFrom x y))
    (hto : ∀ x y, store' (.friendRequestTo x y)
      = if x = b ∧ y = a then none else store (.friendRequestTo x y)) :
    Apart store' ↔ (a ≠ b →
      store (.friendRequestFrom b a) = none ∧ store (.friendRequestTo a b) = none) := by
  have hnew : (store' (.friends b a)).isSome := by rw [hf, if_pos ⟨rfl, rfl⟩]; rfl
  constructor
  · intro h' hne
    obtain ⟨h1, -, -, h4⟩ := h' b a hnew
    rw [hfrom, if_neg (by tauto)] at h1
    rw [hto, if_neg (by tauto)] at h4
    exact ⟨h1, h4⟩
  · intro hclear x y hxy
    rw [hfrom, hfrom, hto, hto]
    by_cases hab : a = b
    · subst hab
      by_cases hxa : x = a ∧ y = a
      · obtain ⟨rfl, rfl⟩ := hxa
        simp
      · rw [hf, if_neg hxa, if_neg hxa] at hxy
        rw [if_neg hxa, if_neg (by tauto), if_neg hxa, if_neg (by tauto)]
        exact h x y hxy
    · obtain ⟨hcf, hct⟩ := hclear hab
      by_cases h1 : x = a ∧ y = b
      · obtain ⟨rfl, rfl⟩ := h1
        have hne : ¬ (x = y ∧ y = x) := fun h => hab h.1
        simp [hcf, hct, hne]
      · by_cases h2 : x = b ∧ y = a
        · obtain ⟨rfl, rfl⟩ := h2
          simp [hcf, hct, h1]
        · rw [hf, if_neg h2, if_neg h1] at hxy
          rw [if_neg h1, if_neg (by tauto), if_neg h2, if_neg (by tauto)]
          exact h x y hxy

/-- Executed at once, an operation keeps friendships and requests apart exactly when it is clear. -/
theorem atomically_iff {isUser : String → Bool} {op : Operation} (h : Apart store)
    (hop : atomically isUser store op = some store') (ops : List Operation) :
    Apart store' ↔ Clear ops store op := by
  unfold atomically at hop
  split_ifs at hop
  obtain ⟨ws, hws, rfl⟩ := Option.map_eq_some_iff.1 hop
  cases op with
  | sendFriendRequest user id =>
    rcases sendFriendRequest_writes hws with ⟨he, rfl⟩ | ⟨hne, data, rfl⟩
    · exact iff_of_true h fun hc => absurd he hc
    · refine (apart_send data h (fun x y => ?_) (fun x y => ?_) (fun x y => ?_)).trans
        ⟨fun hc _ => hc, fun hc => hc hne⟩
      · simp [DocWrite.write]
      · simp [DocWrite.write, Function.update_apply]
      · simp [DocWrite.write, Function.update_apply]
  | agreeClicked user id name =>
    obtain ⟨data, data', -, -, rfl⟩ := agreeClicked_writes hws
    refine apart_agree data data' h (fun x y => ?_) (fun x y => ?_) (fun x y => ?_)
    · simp [DocWrite.write, Function.update_apply]
    · simp [DocWrite.write, Function.update_apply]
    · simp [DocWrite.write, Function.update_apply]
  | disagreeClicked user id =>
    obtain rfl := disagreeClicked_writes hws
    refine iff_of_true (h.of_le (fun x y => ?_) (fun x y hxy => ?_) (fun x y hxy => ?_)) trivial
    · simp [DocWrite.write]
    · simp [DocWrite.write, Function.update_apply, hxy]
    · simp [DocWrite.write, Function.update_apply, hxy]

/-- In a sequence of operations, each executed at once, from a store without friends, every state
keeps friendships and requests apart if and only if every operation is clear. -/
theorem apart_iff {isUser : String → Bool} {init store : Store} {ops : List Operation}
    (hinit : ∀ a b, init (.friends a b) = none)
    (h : EventRun.run (atomically isUser) init ops = some store) :
    (∀ pre post s, ops = pre ++ post → EventRun.run (atomically isUser) init pre = some s →
      Apart s) ↔ EventRun.Meets (atomically isUser) Clear init ops := by
  have h0 : Apart init := by
    intro a b hab
    rw [hinit] at hab
    cases hab
  exact EventRun.passes_iff_meets (I := fun _ => Apart) _ h0
    (fun ops s op s' _ hI hop => atomically_iff hI hop ops) h

/-- `a` and `b` ask each other, then `b` agrees. -/
def crossing : List Operation :=
  [.sendFriendRequest { uid := "a", displayName := some "A" } "b",
    .sendFriendRequest { uid := "b", displayName := some "B" } "a",
    .agreeClicked { uid := "b", displayName := some "B" } "a" "A"]

theorem apart_without_crossing :
    ∃ store, EventRun.run (atomically fun _ => true) (fun _ => none) [crossing[0], crossing[2]] =
      some store ∧ Apart store := by
  obtain ⟨store, h⟩ := Option.isSome_iff_exists.1 (by decide : (EventRun.run
    (atomically fun _ => true) (fun _ => none) [crossing[0], crossing[2]]).isSome)
  have hapart := (apart_iff (fun _ _ => rfl) h).2 (EventRun.meets_of_take _ (by decide))
  exact ⟨store, h, hapart _ [] store rfl h⟩

/-- After `b` has agreed, the request of `b` to `a` is still pending. -/
theorem not_always_apart :
    ¬ ∀ (isUser : String → Bool) (init : Store) ops store,
      (∀ a b, init (.friends a b) = none ∧ init (.friendRequestFrom a b) = none ∧
        init (.friendRequestTo a b) = none) →
      EventRun.run (atomically isUser) init ops = some store → Apart store := by
  intro h
  obtain ⟨store, hrun⟩ := Option.isSome_iff_exists.1 (by decide : (EventRun.run
    (atomically fun _ => true) (fun _ => none) crossing).isSome)
  have hboth : ∀ store, EventRun.run (atomically fun _ => true) (fun _ => none) crossing =
      some store → (store (.friends "a" "b")).isSome ∧
        (store (.friendRequestFrom "a" "b")).isSome := by decide
  obtain ⟨hfriends, hasked⟩ := hboth store hrun
  have hnone := (h (fun _ => true) (fun _ => none) crossing store (fun _ _ => ⟨rfl, rfl, rfl⟩) hrun
    "a" "b" hfriends).1
  rw [hnone] at hasked
  cases hasked

end Operation

end MessageApp
