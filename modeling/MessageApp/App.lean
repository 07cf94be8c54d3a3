import MessageApp.Process
import Mathlib.Data.List.Sort

/-!
# The app, all users over one store

Any number of processes, each with the accounts that sign in there, write to one store. The SDK
keeps a queue of writes for each account of a process; a snapshot shows a version the store has had,
with some of the account's own later writes after it. `encoded` records what the buttons put into
documents, as it was typed, said or named there.
-/

namespace MessageApp

/-- A document's id within its collection. -/
def DocPath.documentID : DocPath → String
  | .user id | .group id | .friends _ id | .friendRequestTo _ id | .friendRequestFrom _ id
  | .chatBuffer _ id => id
  | .conversation _ _ | .groupConversation _ => "Conversation"
  | .myBlog _ | .friendBlog _ => "Blog"

inductive Encoded
  /-- with the flag that tells a recording from a text -/
  | message (author text audio t : String)
  | story (author text : String) (name : Option String) (t : String)
  | request (author name other : String)
  /-- `owner` has the friend or group `id`, by this name -/
  | friend (owner id : String) (name : Option String) (isGroupChat : Bool)
deriving DecidableEq

namespace Process

/-- Neither a snapshot nor a fetched document. -/
def Event.isLocal : Event → Bool
  | .chat (.bufferSnapshot _ _) | .chat (.conversationSnapshot _ _)
  | .chat (.roomMemberFetched _ _) | .friendsSnapshot _ _ | .requestSnapshot _ _
  | .chatBufferSnapshot _ _ => false
  | _ => true

/-- What an event puts into documents. -/
def encodes (p : Process) : Event → List Encoded
  | .chat (.finishEditing _ text t) =>
    if text ≠ "" then
      (p.device.currentUser.map fun user => .message user.uid text "false" t).toList
    else []
  | .chat (.voiceCompletion _ url t) =>
    (p.device.currentUser.map fun user => .message user.uid (url.getD "") "true" t).toList
  | .agreeClicked i => (do
    let user ← p.device.currentUser
    let self ← p.requestScreens[i]?
    some [Encoded.friend user.uid self.id (some self.name) false,
      Encoded.friend self.id user.uid user.displayName false]).getD []
  | .sendFriendRequest searchWithId => (do
    let user ← p.device.currentUser
    let name ← user.displayName
    if user.uid ≠ searchWithId then some (Encoded.request user.uid name searchWithId)
    else none).toList
  | .groupAdded j groupChatFriends => (do
    let (user, documentID) ← p.adding[j]?
    let email ← user.email
    some ((user.uid :: groupChatFriends).map fun id =>
      Encoded.friend id documentID (some (email ++ "Start a Group Chat")) true)).getD []
  | .sendStoryClicked (some text) t =>
    (p.device.currentUser.map fun user => .story user.uid text user.displayName t).toList
  | _ => []

end Process

structure App where
  net : WriteQueue (String × Option String) AppWrite
  process : String → Process
  /-- all that has been put into documents so far -/
  encoded : List Encoded

/-! ## Snapshots -/

/-- The documents that writes lead to. -/
def docs (ws : List AppWrite) : Store := DocWrite.replay (fun _ => none) ws

/-- The documents of a collection, in the order of their ids. -/
def collection (path : String → DocPath) (ws : List AppWrite) : List (String × Doc) :=
  let ids := (ws.map fun w => w.path.documentID).dedup
  (ids.insertionSort (· ≤ ·)).filterMap fun id => (docs ws (path id)).map (id, ·)

/-- What a process listens to, and the document a chat of a group fetches; a failed fetch changes
nothing. -/
inductive Query
  | friends (uid : String)
  | requests (uid : String)
  | chatBuffer (uid : String)
  | buffer (uid : String)
  | conversation (i : ℕ)
  | roomMember (i : ℕ)

/-- The callback of a query, with what it shows. -/
def Query.callback (ws : List AppWrite) (p : Process) : Query → Option Process.Event
  | friends uid => some (.friendsSnapshot uid (collection (.friends uid) ws))
  | requests uid => some (.requestSnapshot uid
      ((collection (.friendRequestFrom uid) ws).filter fun d =>
        d.2["Requesting"]? = some (.string "true")))
  | chatBuffer uid => some (.chatBufferSnapshot uid (collection (.chatBuffer uid) ws))
  | buffer uid => some (.chat (.bufferSnapshot uid (docs ws (.buffer uid))))
  | conversation i => do
    let path ← (← p.device.instances[i]?).docRefc
    some (.chat (.conversationSnapshot i (docs ws path)))
  | roomMember i => do
    let self ← p.device.instances[i]?
    some (.chat (.roomMemberFetched i (docs ws (.group self.chatWithId))))

namespace App

inductive Event
  | on (p : String) (e : Process.Event)
  /-- in what the snapshot shows `n` writes have landed, and `m` of the account's own have not -/
  | deliver (p : String) (query : Query) (n m : ℕ)
  | land (c : String × Option String)

def start : App := ⟨.empty, fun _ => {}, []⟩

variable (init : List AppWrite)

/-- The account of a process whose queue its writes go into. -/
def account (w : App) (p : String) : String × Option String :=
  (p, (w.process p).device.currentUser.map User.uid)

/-- The writes a snapshot can show, after those that made the store at the start. -/
def seen (w : App) (c : String × Option String) (n m : ℕ) : List AppWrite :=
  init ++ w.net.seen c n m

/-- A completion runs once what it completes has landed. -/
def completed (w : App) (p : String) : Process.Event → Bool
  | .afterSignUp => (w.process p).device.currentUser.all fun user =>
      (w.net.pending (p, some user.uid)).all (DocWrite.path · ≠ .user user.uid)
  | .groupAdded j _ => (w.process p).adding[j]?.all fun (user, documentID) =>
      (w.net.pending (p, some user.uid)).all (DocWrite.path · ≠ .group documentID)
  | _ => true

/-- The process takes an event; what it writes goes into the queue of the account it then has. -/
def act (w : App) (p : String) (e : Process.Event) : Option App := do
  let (q, ws) ← (w.process p).step e
  some {
    net := w.net.issue (p, q.device.currentUser.map User.uid) ws
    process := Function.update w.process p q
    encoded := w.encoded ++ (w.process p).encodes e }

def step (w : App) : Event → Option App
  | .on p e => if e.isLocal && w.completed p e then w.act p e else none
  | .deliver p query n m => do
    w.act p (← query.callback (w.seen init (w.account p) n m) (w.process p))
  | .land c => do some { w with net := ← w.net.land c }

end App

end MessageApp
