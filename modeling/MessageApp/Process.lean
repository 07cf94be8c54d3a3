import MessageApp.DiscoverSendViewController
import MessageApp.FriendRequest
import MessageApp.RecentViewController
import MessageApp.SignupViewController

/-!
# One process, with all its screens

Beside its chats a process holds the lists that the first screen's listeners fill, the list of
requests, and the screens opened from it. Each of these copies what it shows from the global before
it, when it is made; who is signed in is read when a button is pressed. Nothing but the chats' cache
is cleared when the account changes.
-/

namespace MessageApp

/-- Who a request is from: a cell of `ContentViewController`, `friendSelectedInformation`, or a
`FriendRequestViewController`. -/
structure Requester where
  name : String := ""
  id : String := ""

structure Process where
  device : Device := {}
  lists : FriendLists := {}
  friendRequestInformation : FriendRequestInformation := {}
  /-- every cell `ContentViewController` has made -/
  cells : List Requester := []
  friendSelectedInformation : Requester := {}
  /-- the selected requests whose screen has yet to load -/
  segues : ℕ := 0
  /-- every `FriendRequestViewController` that has loaded -/
  requestScreens : List Requester := []
  /-- the groups whose `addDocument` has not completed, each with its user -/
  adding : List (User × String) := []
  /-- the display names that `commitChanges` has yet to set, each with its account -/
  changing : List (String × String) := []

namespace Process

inductive Event
  /-- of the chats, and signing in and out -/
  | chat (e : Device.Event)
  /-- `createUser` has completed -/
  | signupClick (uid email : String)
  /-- `commitChanges` has completed; a failure changes nothing -/
  | changesCommitted (j : ℕ)
  /-- the screens after a sign-up have loaded -/
  | afterSignUp
  | friendsSnapshot (uid : String) (documents : List (String × Doc))
  | requestSnapshot (uid : String) (documents : List (String × Doc))
  | chatBufferSnapshot (uid : String) (documents : List (String × Doc))
  /-- `ContentViewController` -/
  | cellForRowAt (row : ℕ)
  | didSelectRowAt (cell : ℕ)
  /-- `FriendRequestViewController.viewDidLoad` -/
  | requestDidLoad
  | agreeClicked (i : ℕ)
  | disagreeClicked (i : ℕ)
  | sendFriendRequest (searchWithId : String)
  | startGroupChatNow (groupChatFriends : List String) (documentID : String)
  /-- `addDocument` has completed; the friends are the screen's selection by then -/
  | groupAdded (j : ℕ) (groupChatFriends : List String)
  | sendStoryClicked (text : Option String) (t : String)

/-- Accounts sign in with their email. -/
def signsInWithEmail : Device.Event → Bool
  | .signIn user => user.email.isSome
  | _ => true

/-- The process with another account's record, or none, as its current user. -/
def withUser (p : Process) (user : Option User) : Process :=
  { p with device := { p.device with currentUser := user } }

/-- The process after an event, with the writes it issues, in order; `none` where the event cannot
happen or the code traps. The listeners of the first screen are registered together. -/
def step (p : Process) : Event → Option (Process × List AppWrite)
  | .chat e =>
    if signsInWithEmail e then do
      let (device, ws) ← p.device.step e
      some ({ p with device := device }, ws.map .write)
    else none
  | .signupClick uid email =>
    let myUser : User := { uid := uid, email := some email }
    some ({ p.withUser myUser with changing := p.changing ++ [(uid, email)] },
      MessageApp.signupClick myUser)
  | .changesCommitted j => do
    let (uid, name) ← p.changing[j]?
    some ({ p.withUser (p.device.currentUser.map fun user =>
        if user.uid = uid then { user with displayName := some name } else user) with
      changing := p.changing.eraseIdx j }, [])
  | .afterSignUp => do
    let myUser ← p.device.currentUser
    some ({ p with device := { p.device with
      bufferListeners := p.device.bufferListeners ++ [myUser.uid] } }, [])
  | .friendsSnapshot uid documents =>
    if uid ∈ p.device.bufferListeners then do
      let (g, lists) ← RecentViewController.friendsListener p.device.globals documents
      some ({ p with device := { p.device with globals := g }, lists := lists }, [])
    else none
  | .requestSnapshot uid documents =>
    if uid ∈ p.device.bufferListeners then do
      let information ← RecentViewController.requestListener documents
      some ({ p with friendRequestInformation := information }, [])
    else none
  | .chatBufferSnapshot uid documents =>
    if uid ∈ p.device.bufferListeners then
      let g := RecentViewController.chatBufferListener p.device.globals documents
      some ({ p with device := { p.device with globals := g } }, [])
    else none
  | .cellForRowAt row => do
    let name ← p.friendRequestInformation.name[row]?
    let id ← p.friendRequestInformation.id[row]?
    some ({ p with cells := p.cells ++ [⟨name, id⟩] }, [])
  | .didSelectRowAt cell => do
    let tablecell ← p.cells[cell]?
    some ({ p with friendSelectedInformation := tablecell, segues := p.segues + 1 }, [])
  | .requestDidLoad =>
    if 0 < p.segues then
      some ({ p with
        requestScreens := p.requestScreens ++ [p.friendSelectedInformation]
        segues := p.segues - 1 }, [])
    else none
  | .agreeClicked i => do
    let self ← p.requestScreens[i]?
    some (p, (← MessageApp.agreeClicked p.device.currentUser self.id self.name).map .write)
  | .disagreeClicked i => do
    let self ← p.requestScreens[i]?
    some (p, (← MessageApp.disagreeClicked p.device.currentUser self.id).map .write)
  | .sendFriendRequest searchWithId => do
    some (p, (← MessageApp.sendFriendRequest p.device.currentUser searchWithId).map .write)
  | .startGroupChatNow groupChatFriends documentID => do
    let myUser ← p.device.currentUser
    let ws ← MessageApp.startGroupChatNow (some myUser) groupChatFriends documentID
    some ({ p with adding := p.adding ++ [(myUser, documentID)] }, ws.map .write)
  | .groupAdded j groupChatFriends => do
    let (myUser, documentID) ← p.adding[j]?
    let ws ← MessageApp.groupAdded myUser groupChatFriends documentID
    some ({ p with adding := p.adding.eraseIdx j }, ws.map .write)
  | .sendStoryClicked text t => do
    let ws ← MessageApp.sendStoryClicked p.device.currentUser text p.device.globals.listOfId t
    some (p, ws.map .write)

/-- The process after an event, without what it writes. -/
def next (p : Process) (e : Event) : Option Process := (p.step e).map Prod.fst

end Process

end MessageApp
