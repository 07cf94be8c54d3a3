import MessageApp.Device
import MessageApp.Lib.Run

/-!
# Clients over one store

Each user's client is a process in which that user stays signed in. Clients open chats, send and
receive snapshots; what they write goes through write queues to the store. A snapshot delivers
any version a document has had so far, with some of the client's own later writes after it.
-/

namespace MessageApp

/-- Which ids are users' and which are groups', who is in a group, and the store at the start. -/
structure Setup where
  isUser : String → Bool
  isGroup : String → Bool
  members : String → List String
  init : Store
  not_both : ∀ id, isUser id = true → isGroup id = false
  /-- no id is the name of the document `Buffer` -/
  user_ne_buffer : isUser "Buffer" = false
  group_ne_buffer : isGroup "Buffer" = false
  roomMember : ∀ g, isGroup g = true →
    field (init (.group g)) "RoomMember" = some (.ofStrings (members g))

/-- A message, as it was sent. -/
structure Message where
  sender : String
  chat : String
  isGroup : Bool
  t : String
  record : List String
deriving DecidableEq

structure World where
  net : WriteQueue String Write
  device : String → Device
  /-- every message sent so far -/
  sent : List Message

namespace World

inductive Event
  | openChat (c id : String)
  /-- in what a snapshot shows `n` writes have landed, and `m` of the client's own have not -/
  | bufferSnapshot (c : String) (n m : ℕ)
  | conversationSnapshot (c : String) (i n m : ℕ)
  /-- the fetch of `RoomMember` may fail -/
  | roomMemberFetched (c : String) (i : ℕ) (n : Option ℕ)
  | finishEditing (c : String) (i : ℕ) (text t : String)
  | voiceCompletion (c : String) (i : ℕ) (url : Option String) (t : String)
  | runBlock (c : String) (j : ℕ)
  | land (c : String)

def start : World where
  net := .empty
  device c := { currentUser := some { uid := c }, bufferListeners := [c] }
  sent := []

variable (S : Setup)

/-- The store after the first `n` writes to land, and `m` of the client's own. -/
def version (w : World) (c : String) (n m : ℕ) : Store :=
  DocWrite.replay S.init (w.net.seen c n m)

def store (w : World) : Store := DocWrite.replay S.init w.net.landed

/-- The client takes an event, and what it writes goes into its queue. -/
def act (w : World) (c : String) (e : Device.Event) : Option World := do
  let (d, ws) ← (w.device c).step e
  some { w with net := w.net.issue c ws, device := Function.update w.device c d }

def step (w : World) : Event → Option World
  | .openChat c id =>
    if S.isUser c = true ∧ (S.isUser id = true ∨ S.isGroup id = true) then
      w.act c (.openChat id (S.isGroup id))
    else none
  | .bufferSnapshot c n m => w.act c (.bufferSnapshot c (w.version S c n m (.buffer c)))
  | .conversationSnapshot c i n m => do
    let p ← (← (w.device c).instances[i]?).docRefc
    w.act c (.conversationSnapshot i (w.version S c n m p))
  | .roomMemberFetched c i n => do
    let self ← (w.device c).instances[i]?
    w.act c (.roomMemberFetched i (n.bind fun n => w.version S c n 0 (.group self.chatWithId)))
  | .finishEditing c i text t => do
    let self ← (w.device c).instances[i]?
    let w' ← w.act c (.finishEditing i text t)
    some { w' with sent := w.sent ++ if text ≠ "" then
      [⟨c, self.chatWithId, self.chatisGroupChat, t, [text, c, "false"]⟩] else [] }
  | .voiceCompletion c i url t => do
    let self ← (w.device c).instances[i]?
    let w' ← w.act c (.voiceCompletion i url t)
    some { w' with sent := w.sent ++
      [⟨c, self.chatWithId, self.chatisGroupChat, t, [url.getD "", c, "true"]⟩] }
  | .runBlock c j => w.act c (.runBlock j)
  | .land c => do some { w with net := ← w.net.land c }

end World

/-! ## Leaving a chat -/

/-- The clients, and the chat each of them is in: the one it opened last, until it leaves. -/
structure Visits where
  world : World
  opened : String → Option String

namespace Visits

inductive Event
  | world (e : World.Event)
  | viewWillDisappear (c : String)

def start : Visits := ⟨.start, fun _ => none⟩

variable (S : Setup)

/-- The instance on the screen is the one that was opened last. -/
def disappear (w : World) (c : String) : World :=
  let instances := (w.device c).instances
  { w with device := Function.update w.device c { w.device c with
    instances := instances.modify (instances.length - 1) ChatViewController.viewWillDisappear } }

def step (v : Visits) : Event → Option Visits
  | .world e => do
    let w ← v.world.step S e
    match e with
    | .openChat c id => some ⟨w, Function.update v.opened c (some id)⟩
    | _ => some ⟨w, v.opened⟩
  | .viewWillDisappear c =>
    if (v.opened c).isSome then some ⟨disappear v.world c, Function.update v.opened c none⟩
    else none

end Visits

end MessageApp
