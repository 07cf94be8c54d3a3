import MessageApp.FriendRequest

/-!
# What an operation issues

A step lands a write, or it is a request or an answer, or the start of a group, or its completion
(`Requests.step_inv`). What a client issues at once is a request, an agreement, a refusal, a group
or its entries (`Issues`); a step either lands a write or issues one of these
(`Requests.step_cases`).
-/

namespace MessageApp

namespace Requests

variable {isUser : String → Bool} {r r' : Requests} {e : Event}

/-- What the client of `c` may issue at once. -/
inductive Issues (isUser : String → Bool) (c : String) : List Write → Prop
  | nothing : Issues isUser c []
  | request {id : String} {data : Doc} : c ≠ id →
    Issues isUser c [.setData (.friendRequestTo c id) data false,
      .setData (.friendRequestFrom id c) data false]
  | agree {id : String} {data data' : Doc} : data["groupFlag"]? = some (Value.bool false) →
    data'["groupFlag"]? = some (Value.bool false) →
    Issues isUser c [.delete (.friendRequestFrom c id), .delete (.friendRequestTo id c),
      .setData (.friends c id) data false, .setData (.friends id c) data' false]
  | disagree {id : String} :
    Issues isUser c [.delete (.friendRequestFrom c id), .delete (.friendRequestTo id c)]
  | group {ref : String} {data : Doc} : Issues isUser c [.setData (.group ref) data false]
  | added {ref : String} {ws : List Write} : isUser ref = false →
    (∀ w ∈ ws, ∃ uid data, w = .setData (.friends uid ref) data false) → Issues isUser c ws

theorem issues_of_writes {op : Operation} {ws : List Write} (h : op.writes = some ws) :
    Issues isUser op.user.uid ws := by
  cases op with
  | sendFriendRequest user id =>
    rcases sendFriendRequest_writes h with ⟨-, rfl⟩ | ⟨hne, data, rfl⟩
    · exact .nothing
    · exact .request hne
  | agreeClicked user id name =>
    obtain ⟨data, data', hf, hf', rfl⟩ := agreeClicked_writes h
    exact .agree hf hf'
  | disagreeClicked user id =>
    obtain rfl := disagreeClicked_writes h
    exact .disagree

/-- The groups being added have no user's id. -/
def AddsGroups (isUser : String → Bool) (r : Requests) : Prop :=
  ∀ g ∈ r.adding, isUser g.2.2 = false

/-- The document of a group. -/
def roomWrite (user : User) (groupChatFriends : List String) (g : String) : Write :=
  .setData (.group g) (.ofList [("RoomOwner", Value.string user.uid),
    ("RoomMember", .ofStrings (groupChatFriends ++ [user.uid]))]) false

/-- What a step does to the queues and to the groups being added. -/
theorem step_inv (h : r.step isUser e = some r') :
    (∃ c q, e = .land c ∧ r.net.land c = some q ∧ r' = { r with net := q }) ∨
    (∃ op ws, e = .operate op ∧ isUser op.user.uid = true ∧ isUser op.other = true ∧
      op.writes = some ws ∧ r' = { r with net := r.net.issue op.user.uid ws }) ∨
    (∃ user friends g, e = .startGroupChatNow user friends g ∧ isUser g = false ∧
      r' = ⟨r.net.issue user.uid [roomWrite user friends g], r.adding ++ [(user, friends, g)]⟩) ∨
    (∃ j user friends g ws, e = .groupAdded j ∧ r.adding[j]? = some (user, friends, g) ∧
      MessageApp.groupAdded user friends g = some ws ∧
      r' = ⟨r.net.issue user.uid ws, r.adding.eraseIdx j⟩) := by
  cases e with
  | operate op =>
    simp only [step] at h
    split_ifs at h with hg
    obtain ⟨ws, hws, h⟩ := Option.bind_eq_some_iff.1 h
    exact .inr (.inl ⟨op, ws, rfl, hg.1, hg.2, hws, (Option.some.inj h).symm⟩)
  | startGroupChatNow user friends g =>
    simp only [step] at h
    split_ifs at h with hg
    obtain ⟨ws, hws, h⟩ := Option.bind_eq_some_iff.1 h
    obtain rfl := Option.some.inj hws
    exact .inr (.inr (.inl ⟨user, friends, g, rfl, hg.2, (Option.some.inj h).symm⟩))
  | groupAdded j =>
    obtain ⟨⟨user, friends, g⟩, hj, h⟩ := Option.bind_eq_some_iff.1 h
    simp only at h
    split_ifs at h
    obtain ⟨ws, hws, h⟩ := Option.bind_eq_some_iff.1 h
    exact .inr (.inr (.inr ⟨j, user, friends, g, ws, rfl, hj, hws, (Option.some.inj h).symm⟩))
  | land c =>
    obtain ⟨q, hq, h⟩ := Option.bind_eq_some_iff.1 h
    exact .inl ⟨c, q, rfl, hq, (Option.some.inj h).symm⟩

theorem step_cases (hadd : AddsGroups isUser r) (h : r.step isUser e = some r') :
    AddsGroups isUser r' ∧
      ((∃ c q, e = .land c ∧ r.net.land c = some q ∧ r'.net = q) ∨
        (∀ c, e ≠ .land c) ∧ ∃ c ws, Issues isUser c ws ∧ r'.net = r.net.issue c ws) := by
  rcases step_inv h with ⟨c, q, rfl, hq, rfl⟩ | ⟨op, ws, rfl, -, -, hws, rfl⟩ |
    ⟨user, friends, g, rfl, hg, rfl⟩ | ⟨j, user, friends, g, ws, rfl, hj, hws, rfl⟩
  · exact ⟨hadd, .inl ⟨c, q, rfl, hq, rfl⟩⟩
  · exact ⟨hadd, .inr ⟨by simp, _, ws, issues_of_writes hws, rfl⟩⟩
  · refine ⟨fun x hx => ?_, .inr ⟨by simp, _, _, .group, rfl⟩⟩
    rcases List.mem_append.1 hx with hx | hx
    · exact hadd x hx
    · rw [List.mem_singleton.1 hx]
      exact hg
  · have hg : isUser g = false := hadd _ (List.mem_of_getElem? hj)
    exact ⟨fun x hx => hadd x (List.mem_of_mem_eraseIdx hx),
      .inr ⟨by simp, _, ws, .added hg (groupAdded_writes hws), rfl⟩⟩

theorem addsGroups_of_run {es : List Event} (h : EventRun.run (step isUser) start es = some r) :
    AddsGroups isUser r :=
  EventRun.run_invariant (step isUser) (fun _ _ _ hI hs => (step_cases hI hs).1)
    (by simp [AddsGroups, start]) h

/-- What holds of the empty queues, and is kept by what clients issue and by landing, holds of the
queues in every run. -/
theorem net_induction {I : WriteQueue String Write → Prop} (h0 : I .empty)
    (hissue : ∀ q c ws, I q → Issues isUser c ws → I (q.issue c ws))
    (hland : ∀ q c q', I q → q.land c = some q' → I q') {es : List Event}
    (h : EventRun.run (step isUser) start es = some r) : I r.net := by
  refine EventRun.run_history (I := fun _ r => I r.net) (step isUser) h0
    (fun es m e t hm hI hs => ?_) h
  rcases (step_cases (addsGroups_of_run hm) hs).2 with ⟨c, q, rfl, hq, rfl⟩ | ⟨-, c, ws, hws, hn⟩
  · exact hland _ c _ hI hq
  · rw [hn]
    exact hissue _ c ws hI hws

/-- The client whose tap the event is. -/
def Event.actor : Event → Option String
  | .operate op => some op.user.uid
  | .startGroupChatNow user _ _ => some user.uid
  | _ => none

/-- Only clients that acted have anything in flight. -/
theorem rest_of_actors {cs : List String} {es : List Event}
    (hes : ∀ e ∈ es, ∀ c ∈ e.actor, c ∈ cs)
    (h : EventRun.run (step isUser) start es = some r) (hp : ∀ c ∈ cs, r.net.pending c = []) :
    r.net.Rest := by
  intro c
  by_cases hc : c ∈ cs
  · exact hp c hc
  have hne : ∀ c' ∈ cs, c ≠ c' := fun c' hc' he => hc (he ▸ hc')
  have hI : r.net.pending c = [] ∧ ∀ x ∈ r.adding, x.1.uid ∈ cs := by
    refine EventRun.run_induction (Q := fun _ _ e => ∀ c ∈ e.actor, c ∈ cs)
      (I := fun _ r => r.net.pending c = [] ∧ ∀ x ∈ r.adding, x.1.uid ∈ cs) (step isUser)
      ⟨rfl, by simp [start]⟩ ?_ es ?_ h
    · rintro es m e t - ⟨hnil, hadd⟩ hQ hs
      rcases step_inv hs with ⟨c', q, rfl, hq, rfl⟩ | ⟨op, ws, rfl, -, -, -, rfl⟩ |
        ⟨user, friends, g, rfl, -, rfl⟩ | ⟨j, user, friends, g, ws, rfl, hj, -, rfl⟩
      · refine ⟨List.eq_nil_iff_forall_not_mem.2 fun w hw => ?_, hadd⟩
        have hw := WriteQueue.mem_pending_land hq hw
        rw [hnil] at hw
        cases hw
      · exact ⟨(WriteQueue.issue_pending_ne _ (hne _ (hQ _ rfl)) ws).trans hnil, hadd⟩
      · refine ⟨(WriteQueue.issue_pending_ne _ (hne _ (hQ _ rfl)) _).trans hnil, fun x hx => ?_⟩
        rcases List.mem_append.1 hx with hx | hx
        · exact hadd x hx
        · rw [List.mem_singleton.1 hx]
          exact hQ _ rfl
      · have hu : user.uid ∈ cs := hadd _ (List.mem_of_getElem? hj)
        exact ⟨(WriteQueue.issue_pending_ne _ (hne _ hu) ws).trans hnil,
          fun x hx => hadd x (List.mem_of_mem_eraseIdx hx)⟩
    · intro pre e post t he _
      exact hes e (by rw [he]; simp)
  exact hI.1

end Requests

end MessageApp
