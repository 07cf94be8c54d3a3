import MessageApp.Information

/-!
# `ChatViewController`

Opening a chat cleans the unread buffers (`buffercleaner`) and registers a listener on the
conversation (`viewWillAppear`). The listener's callback appends what the shared cache lacks to
the instance's own arrays, then puts those arrays in the cache (`conversationListener`). The table
shows the cache, whichever instance filled it (`cellForRowAt`). Sending writes one record to both
copies of a conversation and to the unread buffers (`finishEditing`, `voiceCompletion`); in a
group the unread buffers are written by a block that runs later (`Block.run`).
-/

namespace MessageApp

structure ChatViewController where
  array : List String := []
  sarray : List String := []
  who : List String := []
  keys : List String := []
  audio : List String := []
  timestamp : List String := []
  chatWithId : String := ""
  chatisGroupChat : Bool := false
  roomMember : List String := []
  /-- the document whose listener `viewWillAppear` registered -/
  docRefc : Option DocPath := none

/-- A block queued with `DispatchQueue.main.async`, with what it captured. -/
structure Block where
  bufferdata : Doc
  uid : String

namespace ChatViewController

/-! ## Opening -/

/-- The loop of `buffercleaner` over the sorted `bufferChat`: it drops every entry of the chat's
peer, and traps on an entry without a sender. -/
def cleanBufferChat (chatWithId : String) (bufferChat : Dict (List String)) :
    Option (Dict (List String)) :=
  bufferChat.toList.foldlM (fun kept e => do
    let sender ← e.2[1]?
    if sender = chatWithId then some (kept.erase e.1) else some kept) bufferChat

/-- The writes leave in this order: the whole `Buffer` document, then the group's document. The
fetch of `RoomMember` it starts in a group completes later (`roomMemberFetched`). -/
def buffercleaner (self : ChatViewController) (g : Globals) (uid : String) :
    Option (Globals × List Write) := do
  let bufferChat ← cleanBufferChat self.chatWithId g.bufferChat
  let bufferGroupChat := g.bufferGroupChat.erase self.chatWithId
  some ({ g with bufferChat := bufferChat, bufferGroupChat := bufferGroupChat },
    [.setData (.buffer uid) (.ofDict bufferChat) false,
     .delete (.chatBuffer uid self.chatWithId)])

/-- A new instance appears, for the chat `information` names; in a chat with oneself no listener
is registered. -/
def viewWillAppear (g : Globals) (uid : String) :
    Option (ChatViewController × Globals × List Write) := do
  let self : ChatViewController :=
    { chatWithId := g.information.idofChat, chatisGroupChat := g.information.isGroupChat }
  let (g, writes) ← self.buffercleaner g uid
  let docRefc := if self.chatisGroupChat then DocPath.groupConversation self.chatWithId
    else .conversation uid self.chatWithId
  some ({ self with docRefc := if uid ≠ self.chatWithId then some docRefc else none }, g, writes)

/-- The screen is left. The listener stays. -/
def viewWillDisappear (self : ChatViewController) : ChatViewController :=
  { self with sarray := [], timestamp := [] }

/-- The completion of `getDocument` on `Group/chatWithId`; `none` is a failure, or no document. -/
def roomMemberFetched (self : ChatViewController) : Option Doc → Option ChatViewController
  | none => some self
  | some data => do
    let members ← (← data["RoomMember"]?).strings?
    some { self with roomMember := members }

/-! ## Listening -/

/-- `cacheMessage[chatWithId]?[0].contains(key) ?? false` -/
def isCached (cacheMessage : Dict (List (List String))) (chatWithId key : String) : Option Bool :=
  match cacheMessage[chatWithId]? with
  | none => some false
  | some columns => columns[0]?.map (·.contains key)

/-- One turn of the callback's loop. Whether a key is new is decided by the cache; what the cache
then gets is this instance's own arrays. -/
def appendEntry (cacheMessage : Dict (List (List String))) (self : ChatViewController)
    (key : String) (value : Value) :
    Option (Dict (List (List String)) × ChatViewController) := do
  let cached ← isCached cacheMessage self.chatWithId key
  if cached then some (cacheMessage, self)
  else do
    let value ← value.strings?
    let self := { self with
      keys := self.keys ++ [key]
      array := self.array ++ [← value[0]?]
      who := self.who ++ [← value[1]?]
      audio := self.audio ++ [← value[2]?] }
    some (cacheMessage.insert self.chatWithId [self.keys, self.who, self.array, self.audio], self)

/-- The callback of the listener on the conversation, with the document it delivers. -/
def conversationListener (cacheMessage : Dict (List (List String))) (self : ChatViewController) :
    Option Doc → Option (Dict (List (List String)) × ChatViewController)
  | none => some (cacheMessage, self)
  | some data =>
    data.toList.foldlM (fun s e => appendEntry s.1 s.2 e.1 e.2) (cacheMessage, self)

/-! ## Showing -/

/-- What a cell of the table shows. -/
structure Cell where
  /-- the row is in the signed-in user's line, not the other's -/
  own : Bool
  /-- the key of the picture in `cacheItem` -/
  profileImage : String
  isAudio : Bool
  /-- the text, or where the audio button's recording is -/
  content : String

/-- `cacheMessage[chatWithId]?[2].count ?? 0` -/
def numberOfRowsInSection (self : ChatViewController)
    (cacheMessage : Dict (List (List String))) : Option ℕ :=
  match cacheMessage[self.chatWithId]? with
  | none => some 0
  | some columns => columns[2]?.map List.length

/-- Without an entry for the chat, either line traps on the sender. -/
def cellForRowAt (self : ChatViewController) (cacheMessage : Dict (List (List String)))
    (currentUser : Option User) (row : ℕ) : Option Cell := do
  let columns ← cacheMessage[self.chatWithId]?
  let who ← (← columns[1]?)[row]?
  let audio ← (← columns[3]?)[row]?
  let content ← (← columns[2]?)[row]?
  some ⟨some who = currentUser.map User.uid, who, audio ≠ "false", content⟩

/-! ## Sending -/

/-- What `finishEditing` and the completion of a voice upload do alike: append the content, the
sender and the flag to `sarray` and the clock's string to `timestamp`, write `sarray` under every
`timestamp`, and empty both. -/
def send (self : ChatViewController) (content uid flag t : String) :
    ChatViewController × List Write × Option Block :=
  let sarray := self.sarray ++ [content, uid, flag]
  let timestamp := self.timestamp ++ [t]
  let sdata : Doc := .ofDict (timestamp.foldl (fun d element => d.insert element sarray) ∅)
  let docRefc1 := DocPath.conversation uid self.chatWithId
  let self' := { self with sarray := [], timestamp := [] }
  if self.chatisGroupChat then
    (self', [.setData docRefc1 sdata true,
      .setData (.groupConversation self.chatWithId) sdata true], some ⟨sdata, uid⟩)
  else
    (self', [.setData (.buffer self.chatWithId) sdata true, .setData docRefc1 sdata true,
      .setData (.conversation self.chatWithId uid) sdata true], none)

/-- An empty text is not sent; `myUser!` traps with no user signed in. -/
def finishEditing (self : ChatViewController) (currentUser : Option User) (text t : String) :
    Option (ChatViewController × List Write × Option Block) :=
  if text ≠ "" then currentUser.map fun myUser => self.send text myUser.uid "false" t
  else some (self, [], none)

/-- The completion of `downloadURL` after a voice upload; a failure sends the empty string. -/
def voiceCompletion (self : ChatViewController) (currentUser : Option User)
    (url : Option String) (t : String) : Option (ChatViewController × List Write × Option Block) :=
  currentUser.map fun myUser => self.send (url.getD "") myUser.uid "true" t

end ChatViewController

/-- The block goes by the `roomMember` and `chatWithId` its instance has when it runs. -/
def Block.run (b : Block) (self : ChatViewController) : List Write :=
  (self.roomMember.filter (· ≠ b.uid)).map fun id =>
    .setData (.chatBuffer id self.chatWithId) b.bufferdata true

end MessageApp
