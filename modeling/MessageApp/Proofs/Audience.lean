import MessageApp.Lib.Run
import MessageApp.Proofs.ProcessSteps

/-!
# Who a story reaches

A story goes to its author and to all of `listOfId`, which holds the ids of the last snapshot of
`Friends` that the process got, of whichever account, friends and groups alike
(`listOfId_of_run`). So it reaches its author and the author's friends exactly when those are the
ids of the last snapshot, but for the author's own (`reaches_friends_iff`).
-/

namespace MessageApp

namespace Process

open RecentViewController

/-- The documents of the last snapshot of `Friends`. -/
def lastSnapshot (es : List Event) : List (String × Doc) :=
  es.foldl (fun last e => match e with
    | .friendsSnapshot _ documents => documents
    | _ => last) []

/-- The documents of the last snapshot of this account's own `Friends`. -/
def ownSnapshot (uid : String) (es : List Event) : List (String × Doc) :=
  es.foldl (fun last e => match e with
    | .friendsSnapshot u documents => if u = uid then documents else last
    | _ => last) []

/-- The friends that documents of `Friends` list, without the groups. -/
def friendsIn (documents : List (String × Doc)) : List String :=
  (documents.filter fun d => d.2["groupFlag"]? = some (.bool false)).map Prod.fst

/-- The story posted now is written to the friend blogs of its author and of the author's
friends. -/
def ReachesFriends (es : List Event) (p : Process) : Event → Prop
  | .sendStoryClicked (some text) t => ∀ p' ws user, p.device.currentUser = some user →
      p.step (.sendStoryClicked (some text) t) = some (p', ws) → ∀ x,
      (∃ w ∈ ws, DocWrite.path w = .friendBlog x) ↔
        x = user.uid ∨ x ∈ friendsIn (ownSnapshot user.uid es)
  | _ => True

/-- When a story is posted, the last snapshot of `Friends` has the ids of the author's friends, by
the last snapshot of the author's own, and no other but the author's. -/
def ListsOwnFriends (es : List Event) (p : Process) : Event → Prop
  | .sendStoryClicked (some _) _ => ∀ user, p.device.currentUser = some user → ∀ x ≠ user.uid,
      x ∈ (lastSnapshot es).map Prod.fst ↔ x ∈ friendsIn (ownSnapshot user.uid es)
  | _ => True

/-- The callback lists the ids of the snapshot, and leaves the other globals. -/
theorem friendsListener_globals {g g' : Globals} {lists : FriendLists}
    {documents : List (String × Doc)} (h : friendsListener g documents = some (g', lists)) :
    g' = { g with listOfId := documents.map Prod.fst } := by
  unfold friendsListener at h
  suffices ∀ (g₀ : Globals) (l₀ : FriendLists), documents.foldlM _ (g₀, l₀) = some (g', lists) →
      g' = { g₀ with listOfId := g₀.listOfId ++ documents.map Prod.fst } from
    this _ _ h
  clear h
  induction documents with
  | nil =>
    intro g₀ l₀ h
    obtain ⟨rfl, rfl⟩ := Prod.mk.inj (Option.some.inj h)
    simp
  | cons document documents ih =>
    intro g₀ l₀ h
    rw [List.foldlM_cons] at h
    obtain ⟨s, hs, h⟩ := Option.bind_eq_some_iff.1 h
    obtain ⟨v, -, hs⟩ := Option.bind_eq_some_iff.1 hs
    obtain ⟨username, -, hs⟩ := Option.bind_eq_some_iff.1 hs
    obtain ⟨v', -, hs⟩ := Option.bind_eq_some_iff.1 hs
    obtain ⟨flag, -, hs⟩ := Option.bind_eq_some_iff.1 hs
    obtain rfl := Option.some.inj hs
    rw [ih _ _ h]
    simp

/-- What the callback fills the other lists with: a name and a flag for each document, and a name
and an id for each that is no group. -/
theorem friendsListener_lists {g g' : Globals} {lists : FriendLists}
    {documents : List (String × Doc)} (h : friendsListener g documents = some (g', lists)) :
    lists.listOfFriends.length = documents.length ∧
      lists.isGroupChat.length = documents.length ∧
      lists.listOfFriendsWithoutGroup.length = (friendsIn documents).length ∧
      lists.listOfIdWithoutGroup = friendsIn documents := by
  unfold friendsListener at h
  suffices ∀ (g₀ : Globals) (l₀ : FriendLists), documents.foldlM _ (g₀, l₀) = some (g', lists) →
      lists.listOfFriends.length = l₀.listOfFriends.length + documents.length ∧
        lists.isGroupChat.length = l₀.isGroupChat.length + documents.length ∧
        lists.listOfFriendsWithoutGroup.length =
          l₀.listOfFriendsWithoutGroup.length + (friendsIn documents).length ∧
        lists.listOfIdWithoutGroup = l₀.listOfIdWithoutGroup ++ friendsIn documents by
    simpa using this _ _ h
  clear h
  induction documents with
  | nil =>
    intro g₀ l₀ h
    obtain ⟨-, rfl⟩ := Prod.mk.inj (Option.some.inj h)
    simp [friendsIn]
  | cons document documents ih =>
    intro g₀ l₀ h
    rw [List.foldlM_cons] at h
    obtain ⟨s, hs, h⟩ := Option.bind_eq_some_iff.1 h
    obtain ⟨v, -, hs⟩ := Option.bind_eq_some_iff.1 hs
    obtain ⟨username, -, hs⟩ := Option.bind_eq_some_iff.1 hs
    obtain ⟨v', hv', hs⟩ := Option.bind_eq_some_iff.1 hs
    obtain ⟨flag, hflag, hs⟩ := Option.bind_eq_some_iff.1 hs
    obtain rfl := Option.some.inj hs
    obtain ⟨hnames, hflags, hnames', hids⟩ := ih _ _ h
    have hd : friendsIn (document :: documents) =
        if flag = false then document.1 :: friendsIn documents else friendsIn documents := by
      cases v' with
      | bool b =>
        obtain rfl := Option.some.inj hflag
        cases b <;> simp [friendsIn, hv']
      | _ => cases hflag
    rw [hnames, hflags, hnames', hids, hd]
    split_ifs <;> simp <;> omega

theorem chat_listOfId {d d' : Device} {e : Device.Event} {ws : List Write}
    (h : d.step e = some (d', ws)) : d'.globals.listOfId = d.globals.listOfId := by
  cases e with
  | signIn user | signoutClick | signout =>
    obtain ⟨rfl, -⟩ := Prod.mk.inj (Option.some.inj h)
    rfl
  | bufferSnapshot uid doc =>
    obtain ⟨data, b, -, -, rfl, -⟩ := Device.step_bufferSnapshot h
    rfl
  | openChat id g =>
    obtain ⟨v, kept, -, -, rfl, -⟩ := Device.step_openChat h
    rfl
  | conversationSnapshot i doc =>
    obtain ⟨self, q, s, -, -, -, rfl, -⟩ := Device.step_conversationSnapshot h
    rfl
  | roomMemberFetched i doc =>
    obtain ⟨self, self', -, -, -, rfl, -⟩ := Device.step_roomMemberFetched h
    rfl
  | finishEditing i text t =>
    obtain ⟨self, r, -, -, hd⟩ := Device.step_finishEditing h
    obtain ⟨rfl, -⟩ := Prod.mk.inj hd
    rfl
  | voiceCompletion i url t =>
    obtain ⟨self, r, -, -, hd⟩ := Device.step_voiceCompletion h
    obtain ⟨rfl, -⟩ := Prod.mk.inj hd
    rfl
  | runBlock j =>
    obtain ⟨i, b, self, -, -, rfl, -⟩ := Device.step_runBlock h
    rfl

theorem effect_listOfId {p p' : Process} {e : Event} {ws : List AppWrite} (h : Effect p e p' ws)
    {es : List Event} (hI : p.device.globals.listOfId = (lastSnapshot es).map Prod.fst) :
    p'.device.globals.listOfId = (lastSnapshot (es ++ [e])).map Prod.fst := by
  unfold lastSnapshot at hI ⊢
  rw [List.foldl_append]
  cases h with
  | chat _ hd => exact (chat_listOfId hd).trans hI
  | friendsSnapshot _ hg =>
    rw [friendsListener_globals hg]
    rfl
  | _ => exact hI

/-- The list holds the ids of the last snapshot. -/
theorem listOfId_of_run {es : List Event} {p : Process} (h : EventRun.run next {} es = some p) :
    p.device.globals.listOfId = (lastSnapshot es).map Prod.fst := by
  refine EventRun.run_history
    (I := fun es p => p.device.globals.listOfId = (lastSnapshot es).map Prod.fst) next rfl ?_ h
  intro es m e t _ hI hs
  obtain ⟨ws, hs⟩ := exists_step_of_next hs
  exact effect_listOfId hs hI

/-- A story is written to the friend blogs of its author and of the ids in the list. -/
theorem friendBlogs_of_story {user : User} {text t : String} {listOfId : List String}
    {ws : List Write} (h : MessageApp.sendStoryClicked (some user) (some text) listOfId t = some ws)
    (x : String) : (∃ w ∈ ws, DocWrite.path w = .friendBlog x) ↔ x = user.uid ∨ x ∈ listOfId := by
  obtain rfl := Option.some.inj h
  constructor
  · rintro ⟨w, hw, hp⟩
    rcases List.mem_cons.1 hw with rfl | hw
    · cases hp
    rcases List.mem_cons.1 hw with rfl | hw
    · exact .inl (DocPath.friendBlog.inj hp).symm
    · obtain ⟨id, hid, rfl⟩ := List.mem_map.1 hw
      exact .inr (DocPath.friendBlog.inj hp ▸ hid)
  · rintro (rfl | hx)
    · exact ⟨_, List.mem_cons_of_mem _ List.mem_cons_self, rfl⟩
    · exact ⟨_, List.mem_cons_of_mem _ (List.mem_cons_of_mem _ (List.mem_map_of_mem hx)), rfl⟩

theorem reachesFriends_iff {es : List Event} {p : Process} {e : Event}
    (hI : p.device.globals.listOfId = (lastSnapshot es).map Prod.fst) :
    ReachesFriends es p e ↔ ListsOwnFriends es p e := by
  cases e with
  | sendStoryClicked text t =>
    cases text with
    | none => exact Iff.rfl
    | some text =>
      have hstory : ∀ user, p.device.currentUser = some user → ∃ ws,
          p.step (.sendStoryClicked (some text) t) = some (p, ws) ∧ ∀ x,
            (∃ w ∈ ws, DocWrite.path w = .friendBlog x) ↔
              x = user.uid ∨ x ∈ (lastSnapshot es).map Prod.fst := by
        intro user hu
        refine ⟨_, by simp only [step, hu]; rfl, fun x => ?_⟩
        have hs : MessageApp.sendStoryClicked (some user) (some text) p.device.globals.listOfId t =
          some _ := rfl
        rw [← hI, ← friendBlogs_of_story hs x]
        simp only [List.mem_map, exists_exists_and_eq_and, AppWrite.path_write]
      constructor
      · intro h user hu x hx
        obtain ⟨ws, hs, hws⟩ := hstory user hu
        have hx' := (hws x).symm.trans (h p ws user hu hs x)
        rwa [or_iff_right hx, or_iff_right hx] at hx'
      · intro h p' ws user hu hs x
        obtain ⟨ws', hs', hws⟩ := hstory user hu
        obtain ⟨rfl, rfl⟩ := Prod.mk.inj (Option.some.inj (hs'.symm.trans hs))
        rw [hws]
        by_cases hx : x = user.uid
        · simp [hx]
        · rw [or_iff_right hx, or_iff_right hx]
          exact h user hu x hx
  | _ => exact Iff.rfl

/-- Every story of a run reaches its author and the author's friends if and only if, whenever one is
posted, the last snapshot lists these friends. -/
theorem reaches_friends_iff {es : List Event} {p : Process}
    (h : EventRun.run next {} es = some p) :
    EventRun.Meets next ReachesFriends {} es ↔ EventRun.Meets next ListsOwnFriends {} es :=
  EventRun.meets_congr (I := fun _ _ => True) next trivial
    (fun _ _ _ _ hm _ _ => ⟨reachesFriends_iff (listOfId_of_run hm), fun _ => trivial⟩) h

/-- A document of `Friends`. -/
def friendDoc (name : String) (isGroupChat : Bool) : Doc :=
  .ofList [("username", Value.string name), ("groupFlag", .bool isGroupChat)]

/-- `a`, who has these friends and groups, posts a story. -/
def posting (documents : List (String × Doc)) : List Event :=
  [.chat (.signIn { uid := "a", email := some "a@" }), .friendsSnapshot "a" documents,
    .sendStoryClicked (some "hi") "1"]

theorem reaches_friends_posting : ∃ p, EventRun.run next {} (posting [("b", friendDoc "b" false)]) =
    some p ∧ EventRun.Meets next ReachesFriends {} (posting [("b", friendDoc "b" false)]) := by
  obtain ⟨p, hp⟩ := Option.isSome_iff_exists.1
    (by decide : (EventRun.run next {} (posting [("b", friendDoc "b" false)])).isSome)
  refine ⟨p, hp, (reaches_friends_iff hp).2 ?_⟩
  show EventRun.Meets next ListsOwnFriends {} ([] ++ [_] ++ [_] ++ [_])
  rw [EventRun.meets_snoc next rfl, EventRun.meets_snoc next rfl, EventRun.meets_snoc next rfl]
  refine ⟨⟨⟨EventRun.meets_nil next _ _, trivial⟩, trivial⟩, ?_⟩
  rintro user hu x -
  obtain rfl := Option.some.inj hu
  have hfriends : friendsIn [("b", friendDoc "b" false)] = ["b"] := by decide
  show x ∈ ["b"] ↔ x ∈ friendsIn [("b", friendDoc "b" false)]
  rw [hfriends]

/-- With a group in the list, the story goes to its path too. -/
theorem not_reaches_friends_always :
    ¬ ∀ es p, EventRun.run next {} es = some p → EventRun.Meets next ReachesFriends {} es := by
  intro h
  obtain ⟨p, hp⟩ := Option.isSome_iff_exists.1
    (by decide : (EventRun.run next {} (posting [("g", friendDoc "g" true)])).isSome)
  have hg := h _ p hp ((posting [("g", friendDoc "g" true)]).take 2) _ [] _ rfl rfl _ _ _ rfl rfl
    "g"
  rcases hg.1 ⟨_, List.mem_of_mem_getLast? rfl, rfl⟩ with heq | hmem
  · exact absurd heq (by decide)
  · exact absurd hmem (by decide)

end Process

end MessageApp
