import MessageApp.Process
import MessageApp.StartGroupChatViewController

/-!
# Tables over shared lists

Three kinds of screen show lists that are global. A table asks for the rows below the count it read
when it was last reloaded, whatever the lists have become since. The table of a first screen is
reloaded by that screen's own callbacks and when it appears, the table of requests when it appears,
and a picker's table when it loads.
-/

namespace MessageApp

def ContentViewController.numberOfRowsInSection (information : FriendRequestInformation) : ℕ :=
  information.id.length

structure Tables where
  process : Process := {}
  /-- the rows of each `RecentViewController`, in the order of their listeners -/
  main : List ℕ := []
  /-- the rows of each `ContentViewController` -/
  content : List ℕ := []
  /-- the rows of each `StartGroupChatViewController` -/
  picker : List ℕ := []

namespace Tables

inductive Event
  /-- all but the callbacks on `Friends` and the rows of `ContentViewController` -/
  | process (e : Process.Event)
  /-- the callback on `Friends` of a first screen -/
  | friendsSnapshot (r : ℕ) (documents : List (String × Doc))
  /-- a first screen appears, a picture arrives, or its callback on `Buffer` or `ChatBuffer` ran -/
  | mainReload (r : ℕ)
  | mainCellForRowAt (r row : ℕ)
  | mainDidSelectRowAt (r row : ℕ) (tablecell : RecentViewController.Cell)
  | contentDidLoad
  | contentWillAppear (c : ℕ)
  | contentCellForRowAt (c row : ℕ)
  | pickerDidLoad
  | pickerCellForRowAt (k row : ℕ) (tablecell : StartGroupChatViewController.Cell)

/-- A first screen loads. -/
def loadsMain : Process.Event → Bool
  | .chat (.signIn _) | .afterSignUp => true
  | _ => false

/-- The event is one of a table. -/
def ofTable : Process.Event → Bool
  | .friendsSnapshot _ _ | .cellForRowAt _ => true
  | _ => false

/-- `reloadData` on the table of a first screen. -/
def reloadMain (t : Tables) (r : ℕ) : Tables :=
  { t with main := t.main.set r (RecentViewController.numberOfRowsInSection t.process.lists) }

/-- The screens after an event; `none` where the event cannot happen or the code traps. -/
def step (t : Tables) : Event → Option Tables
  | .process e =>
    if ofTable e then none else do
      let process ← t.process.next e
      some { t with
        process := process
        main := t.main ++
          if loadsMain e then [RecentViewController.numberOfRowsInSection process.lists] else [] }
  | .friendsSnapshot r documents => do
    let uid ← t.process.device.bufferListeners[r]?
    let t := { t with process := ← t.process.next (.friendsSnapshot uid documents) }
    -- `reloadData` is inside the loop over the documents
    some (if documents.isEmpty then t else t.reloadMain r)
  | .mainReload r => some (t.reloadMain r)
  | .mainCellForRowAt r row => do
    if row + 1 < (← t.main[r]?) then do
      let _ ← RecentViewController.cellForRowAt t.process.device.globals t.process.lists row
      some t
    else none
  | .mainDidSelectRowAt r row tablecell => do
    if row + 1 < (← t.main[r]?) then do
      let globals ← RecentViewController.didSelectRowAt t.process.device.globals t.process.lists
        tablecell row
      some { t with process := { t.process with
        device := { t.process.device with globals := globals } } }
    else none
  | .contentDidLoad =>
    some { t with content := t.content ++
      [ContentViewController.numberOfRowsInSection t.process.friendRequestInformation] }
  | .contentWillAppear c =>
    some { t with
      content := t.content.set c
        (ContentViewController.numberOfRowsInSection t.process.friendRequestInformation) }
  | .contentCellForRowAt c row => do
    if row < (← t.content[c]?) then do
      some { t with process := ← t.process.next (.cellForRowAt row) }
    else none
  | .pickerDidLoad =>
    some { t with picker := t.picker ++
      [StartGroupChatViewController.numberOfRowsInSection t.process.lists] }
  | .pickerCellForRowAt k row tablecell => do
    if row < (← t.picker[k]?) then do
      let _ ← StartGroupChatViewController.cellForRowAt t.process.lists tablecell row
      some t
    else none

end Tables

end MessageApp
