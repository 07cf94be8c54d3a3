import MessageApp.App
import MessageApp.StartGroupChatViewController

/-!
# The app, with the screens that list contacts

A chat is opened from a row of a first screen, and a group is started from a picker. The cells of
both show the global lists as they were when the cells were made. A tap on a row puts the cell's
name and id, and the flag that the list has by then, into the global `information`, which the chat
reads when it appears. `started` records who has started which group, and at which process.
-/

namespace MessageApp

/-- What a process holds of the screens that list contacts. -/
structure ContactScreens where
  /-- every cell of a first screen so far, each with its row -/
  cells : List (ℕ × RecentViewController.Cell) := []
  /-- of the global `information`, as are the chat's id and flag -/
  nameofChat : String := ""
  information : Information := {}
  /-- the tapped rows whose chat has yet to appear -/
  segues : ℕ := 0
  /-- `bavigationTitle` of each chat -/
  titles : List String := []
  pickers : List StartGroupChatViewController := []
  /-- the picker of each group whose `addDocument` has not completed -/
  starting : List ℕ := []

structure Contacts where
  app : App
  screens : String → ContactScreens
  /-- each group that has been started, with the process and the account -/
  started : List (String × String × String)

namespace Contacts

inductive Event
  /-- all but what these screens do -/
  | app (e : App.Event)
  | cellForRowAt (p : String) (row : ℕ)
  | didSelectRowAt (p : String) (cell : ℕ)
  | chatWillAppear (p : String)
  | pickerDidLoad (p : String)
  | picker (p : String) (j : ℕ) (e : StartGroupChatViewController.Event)
  | startGroupChatNow (p : String) (j : ℕ) (documentID : String)
  | groupAdded (p : String) (k : ℕ)

/-- What the screens do. -/
def ofScreens : App.Event → Bool
  | .on _ (.chat (.openChat _ _)) | .on _ (.startGroupChatNow _ _) | .on _ (.groupAdded _ _) => true
  | _ => false

def start : Contacts := ⟨.start, fun _ => {}, []⟩

variable (init : List AppWrite)

/-- The screens of a process after an event of theirs. -/
def display (s : Contacts) (p : String) (v : ContactScreens) : Contacts :=
  { s with screens := Function.update s.screens p v }

def step (s : Contacts) : Event → Option Contacts
  | .app e => if ofScreens e then none else do some { s with app := ← s.app.step init e }
  | .cellForRowAt p row => do
    let v := s.screens p
    let q := s.app.process p
    let tablecell ← RecentViewController.cellForRowAt q.device.globals q.lists row
    some (s.display p { v with cells := v.cells ++ [(row, tablecell)] })
  | .didSelectRowAt p cell => do
    let v := s.screens p
    let q := s.app.process p
    let (row, tablecell) ← v.cells[cell]?
    let g ← RecentViewController.didSelectRowAt q.device.globals q.lists tablecell row
    some (s.display p { v with
      nameofChat := tablecell.cellName
      information := g.information
      segues := v.segues + 1 })
  | .chatWillAppear p => do
    let v := s.screens p
    if 0 < v.segues then do
      let app ← s.app.step init
        (.on p (.chat (.openChat v.information.idofChat v.information.isGroupChat)))
      some { s.display p { v with
        segues := v.segues - 1, titles := v.titles ++ [v.nameofChat] } with app := app }
    else none
  | .pickerDidLoad p =>
    let v := s.screens p
    some (s.display p { v with pickers := v.pickers ++ [{}] })
  | .picker p j e => do
    let v := s.screens p
    let picker ← (← v.pickers[j]?).step (s.app.process p).lists e
    some (s.display p { v with pickers := v.pickers.set j picker })
  | .startGroupChatNow p j documentID => do
    let v := s.screens p
    let picker ← v.pickers[j]?
    let myUser ← (s.app.process p).device.currentUser
    let app ← s.app.step init (.on p (.startGroupChatNow picker.groupChatFriends documentID))
    some { s.display p { v with starting := v.starting ++ [j] } with
      app := app, started := s.started ++ [(p, myUser.uid, documentID)] }
  | .groupAdded p k => do
    let v := s.screens p
    let picker ← v.pickers[← v.starting[k]?]?
    let app ← s.app.step init (.on p (.groupAdded k picker.groupChatFriends))
    some { s.display p { v with starting := v.starting.eraseIdx k } with app := app }

end Contacts

end MessageApp
