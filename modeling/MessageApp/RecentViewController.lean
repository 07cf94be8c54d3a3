import MessageApp.Device

/-!
# `RecentViewController`

The first screen lists the friends and groups of the account that was signed in when it loaded. Its
listeners fill globals, each from the snapshot it gets: the lists of friends (`friendsListener`),
the requests (`requestListener`) and the unread messages of groups (`chatBufferListener`; those of
friends are `Device.bufferListener`). A row shows the unread messages as its badge
(`cellForRowAt`); a tap on it names the chat to open (`didSelectRowAt`).
-/

namespace MessageApp

/-- The lists that are filled together with `listOfId`. -/
structure FriendLists where
  listOfFriends : List String := []
  isGroupChat : List Bool := []
  listOfFriendsWithoutGroup : List String := []
  listOfIdWithoutGroup : List String := []

structure FriendRequestInformation where
  name : List String := []
  id : List String := []

namespace RecentViewController

/-! ## Listening -/

/-- The callback on `Friends`: it traps on a document without a name or a flag. -/
def friendsListener (g : Globals) (documents : List (String × Doc)) :
    Option (Globals × FriendLists) :=
  documents.foldlM (fun s document => do
    let username ← (← document.2["username"]?).string?
    let groupChatFlag ← (← document.2["groupFlag"]?).bool?
    let lists := { s.2 with
      listOfFriends := s.2.listOfFriends ++ [username]
      isGroupChat := s.2.isGroupChat ++ [groupChatFlag] }
    some ({ s.1 with listOfId := s.1.listOfId ++ [document.1] },
      if groupChatFlag = false then
        { lists with
          listOfFriendsWithoutGroup := lists.listOfFriendsWithoutGroup ++ [username]
          listOfIdWithoutGroup := lists.listOfIdWithoutGroup ++ [document.1] }
      else lists)) ({ g with listOfId := [] }, {})

/-- The callback on the documents of `FriendRequestFrom` that are `Requesting`, here and in
`AccountViewController`. -/
def requestListener (documents : List (String × Doc)) : Option FriendRequestInformation := do
  let name ← documents.mapM fun document => do (← document.2["username"]?).string?
  some ⟨name, documents.map Prod.fst⟩

/-- The callback on the collection `ChatBuffer`: each group's document replaces what the counter
held. -/
def chatBufferListener (g : Globals) (documents : List (String × Doc)) : Globals :=
  { g with
    bufferGroupChat := documents.foldl (fun bufferGroupChat document =>
      if document.1 ≠ "Buffer" then .insert ∅ document.1 document.2.size else bufferGroupChat)
      g.bufferGroupChat }

/-! ## Showing -/

def numberOfRowsInSection (lists : FriendLists) : ℕ := lists.listOfFriends.length + 1

structure Cell where
  cellName : String
  /-- shown as a string -/
  cellBadge : ℕ
  accessibilityIdentifier : String

/-- It traps on an unread message without a sender. -/
def badgeCounter (g : Globals) (id : String) : Option ℕ := do
  let badgeCounter ← g.bufferChat.toList.foldlM (fun badgeCounter e => do
    let sender ← e.2[1]?
    some (if sender = id then badgeCounter + 1 else badgeCounter)) 0
  some (g.bufferGroupChat.toList.foldl
    (fun badgeCounter e => if e.1 = id then badgeCounter + 1 else badgeCounter) badgeCounter)

/-- The cell of row `row + 1`; row 0 is the search bar. -/
def cellForRowAt (g : Globals) (lists : FriendLists) (row : ℕ) : Option Cell := do
  let id ← g.listOfId[row]?
  let badge ← badgeCounter g id
  let name ← lists.listOfFriends[row]?
  let isGroupChat ← lists.isGroupChat[row]?
  some ⟨if isGroupChat = false then name else name ++ "(Group Chat)", badge, id⟩

/-- A tap on row `row + 1`, with its cell. -/
def didSelectRowAt (g : Globals) (lists : FriendLists) (tablecell : Cell) (row : ℕ) :
    Option Globals := do
  let isGroupChat ← lists.isGroupChat[row]?
  some { g with information := ⟨tablecell.accessibilityIdentifier, isGroupChat⟩ }

end RecentViewController

end MessageApp
