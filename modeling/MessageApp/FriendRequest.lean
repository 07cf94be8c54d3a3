import MessageApp.Information
import MessageApp.Lib.Run

/-!
# Friend requests and groups

A request from `a` to `b` is two documents, `a`'s `FriendRequestTo/b` and `b`'s
`FriendRequestFrom/a`; a friendship is a document in the `Friends` of each. No operation reads what
it is about to write: the screens show snapshots, which may be out of date.
-/

namespace MessageApp

/-- `SearchResultProfileViewController.sendFriendRequest`; `displayName!` traps without one. -/
def sendFriendRequest (currentUser : Option User) (searchWithId : String) :
    Option (List Write) := do
  let myUser ← currentUser
  if myUser.uid ≠ searchWithId then do
    let data : Doc :=
      .ofList [("Requesting", Value.string "true"), ("username", .string (← myUser.displayName))]
    some [.setData (.friendRequestTo myUser.uid searchWithId) data false,
      .setData (.friendRequestFrom searchWithId myUser.uid) data false]
  else some []

/-- `FriendRequestViewController.agreeClicked` -/
def agreeClicked (currentUser : Option User) (requestWithId requestWithName : String) :
    Option (List Write) := do
  let myUser ← currentUser
  let username := match myUser.displayName with
    | none => Value.null
    | some name => .string name
  some [.delete (.friendRequestFrom myUser.uid requestWithId),
    .delete (.friendRequestTo requestWithId myUser.uid),
    .setData (.friends myUser.uid requestWithId)
      (.ofList [("username", Value.string requestWithName), ("groupFlag", .bool false)]) false,
    .setData (.friends requestWithId myUser.uid)
      (.ofList [("username", username), ("groupFlag", .bool false)]) false]

/-- `FriendRequestViewController.disagreeClicked` -/
def disagreeClicked (currentUser : Option User) (requestWithId : String) :
    Option (List Write) := do
  let myUser ← currentUser
  some [.delete (.friendRequestFrom myUser.uid requestWithId),
    .delete (.friendRequestTo requestWithId myUser.uid)]

/-- `StartGroupChatViewController.startGroupChatNow`, with the id `addDocument` picked. -/
def startGroupChatNow (currentUser : Option User) (groupChatFriends : List String)
    (documentID : String) : Option (List Write) := do
  let myUser ← currentUser
  let groupPeoples := groupChatFriends ++ [myUser.uid]
  some [.setData (.group documentID)
    (.ofList [("RoomOwner", Value.string myUser.uid), ("RoomMember", .ofStrings groupPeoples)])
    false]

/-- The completion of its `addDocument`; `email!` traps without one. -/
def groupAdded (myUser : User) (groupChatFriends : List String) (documentID : String) :
    Option (List Write) := do
  let email ← myUser.email
  let data : Doc :=
    .ofList [("username", Value.string (email ++ "Start a Group Chat")), ("groupFlag", .bool true)]
  some (.setData (.friends myUser.uid documentID) data false ::
    groupChatFriends.map fun id => .setData (.friends id documentID) data false)

/-- What one user does about another. -/
inductive Operation
  | sendFriendRequest (user : User) (searchWithId : String)
  | agreeClicked (user : User) (requestWithId requestWithName : String)
  | disagreeClicked (user : User) (requestWithId : String)

namespace Operation

def user : Operation → User
  | sendFriendRequest user _ | agreeClicked user _ _ | disagreeClicked user _ => user

def other : Operation → String
  | sendFriendRequest _ id | agreeClicked _ id _ | disagreeClicked _ id => id

def writes : Operation → Option (List Write)
  | sendFriendRequest user id => MessageApp.sendFriendRequest (some user) id
  | agreeClicked user id name => MessageApp.agreeClicked (some user) id name
  | disagreeClicked user id => MessageApp.disagreeClicked (some user) id

/-- The store after the operation, executed at once. -/
def atomically (isUser : String → Bool) (store : Store) (op : Operation) : Option Store :=
  if isUser op.user.uid = true ∧ isUser op.other = true then
    op.writes.map (DocWrite.replay store)
  else none

end Operation

section Writes

variable {user : User} {id name : String} {ws : List Write}

theorem sendFriendRequest_writes (h : (Operation.sendFriendRequest user id).writes = some ws) :
    user.uid = id ∧ ws = [] ∨ user.uid ≠ id ∧ ∃ data,
      ws = [.setData (.friendRequestTo user.uid id) data false,
        .setData (.friendRequestFrom id user.uid) data false] := by
  simp only [Operation.writes, MessageApp.sendFriendRequest, Option.bind_eq_bind,
    Option.bind_some] at h
  split_ifs at h with hne
  · obtain ⟨name, -, h⟩ := Option.bind_eq_some_iff.1 h
    exact .inr ⟨hne, _, (Option.some.inj h).symm⟩
  · exact .inl ⟨not_not.1 hne, (Option.some.inj h).symm⟩

/-- Both documents of the new friendship say that it is no group. -/
theorem agreeClicked_writes (h : (Operation.agreeClicked user id name).writes = some ws) :
    ∃ data data' : Doc, data["groupFlag"]? = some (Value.bool false) ∧
      data'["groupFlag"]? = some (Value.bool false) ∧
      ws = [.delete (.friendRequestFrom user.uid id), .delete (.friendRequestTo id user.uid),
        .setData (.friends user.uid id) data false,
        .setData (.friends id user.uid) data' false] := by
  simp only [Operation.writes, MessageApp.agreeClicked, Option.bind_eq_bind,
    Option.bind_some] at h
  have hflag : ∀ v, (Std.ExtTreeMap.ofList [("username", v), ("groupFlag", Value.bool false)] :
      Doc)["groupFlag"]? = some (Value.bool false) :=
    fun v => Doc.getElem?_ofList_pair (by decide) (by simp)
  exact ⟨_, _, hflag _, hflag _, (Option.some.inj h).symm⟩

theorem disagreeClicked_writes (h : (Operation.disagreeClicked user id).writes = some ws) :
    ws = [.delete (.friendRequestFrom user.uid id), .delete (.friendRequestTo id user.uid)] :=
  (Option.some.inj h).symm

theorem groupAdded_writes {groupChatFriends : List String}
    (h : groupAdded user groupChatFriends id = some ws) :
    ∀ w ∈ ws, ∃ uid data, w = .setData (.friends uid id) data false := by
  obtain ⟨email, -, h⟩ := Option.bind_eq_some_iff.1 h
  obtain rfl := Option.some.inj h
  intro w hw
  rcases List.mem_cons.1 hw with rfl | hw
  · exact ⟨_, _, rfl⟩
  · obtain ⟨uid, -, rfl⟩ := List.mem_map.1 hw
    exact ⟨uid, _, rfl⟩

end Writes

/-- Clients that ask, answer and start groups over one store. -/
structure Requests where
  net : WriteQueue String Write
  /-- the groups whose `addDocument` has not completed, each with its user and friends -/
  adding : List (User × List String × String)

namespace Requests

inductive Event
  | operate (op : Operation)
  | startGroupChatNow (user : User) (groupChatFriends : List String) (documentID : String)
  | groupAdded (j : ℕ)
  | land (c : String)

def start : Requests := ⟨.empty, []⟩

variable (isUser : String → Bool)

/-- A group's id is no user's; the completion of `addDocument` runs once the group's document has
landed. -/
def step (r : Requests) : Event → Option Requests
  | .operate op =>
    if isUser op.user.uid = true ∧ isUser op.other = true then do
      some { r with net := r.net.issue op.user.uid (← op.writes) }
    else none
  | .startGroupChatNow user groupChatFriends documentID =>
    if isUser user.uid = true ∧ isUser documentID = false then do
      let ws ← MessageApp.startGroupChatNow (some user) groupChatFriends documentID
      some { r with
        net := r.net.issue user.uid ws
        adding := r.adding ++ [(user, groupChatFriends, documentID)] }
    else none
  | .groupAdded j => do
    let (user, groupChatFriends, documentID) ← r.adding[j]?
    if ∀ w ∈ r.net.pending user.uid, DocWrite.path w ≠ .group documentID then do
      let ws ← MessageApp.groupAdded user groupChatFriends documentID
      some { r with net := r.net.issue user.uid ws, adding := r.adding.eraseIdx j }
    else none
  | .land c => do some { r with net := ← r.net.land c }

def store (init : Store) (r : Requests) : Store := DocWrite.replay init r.net.landed

end Requests

end MessageApp
