import MessageApp.RecentViewController

/-!
# `StartGroupChatViewController`

The picker of a group's members lists the friends that are no groups. A row that comes on screen
gets a new cell, or one that has left the screen, as it is then (`cellForRowAt`). A tap goes by the
cell's mark, and changes the mark and the selection (`didSelectRowAt`).
-/

namespace MessageApp

namespace StartGroupChatViewController

inductive AccessoryType
  | none
  | checkmark
deriving DecidableEq

structure Cell where
  textLabel : Option String := none
  accessibilityIdentifier : Option String := none
  accessoryType : AccessoryType := .none

def numberOfRowsInSection (lists : FriendLists) : ℕ := lists.listOfFriendsWithoutGroup.length

/-- The cell that `dequeueReusableCell` has returned becomes the row's. -/
def cellForRowAt (lists : FriendLists) (tablecell : Cell) (row : ℕ) : Option Cell := do
  let tablecell := { tablecell with textLabel := ← lists.listOfFriendsWithoutGroup[row]? }
  some { tablecell with accessibilityIdentifier := ← lists.listOfIdWithoutGroup[row]? }

/-- The selection and the cell after a tap. -/
def didSelectRowAt (groupChatFriends : List String) (tablecell : Cell) :
    Option (List String × Cell) :=
  if tablecell.accessoryType = .checkmark then do
    let tablecell := { tablecell with accessoryType := .none }
    some (groupChatFriends.erase (← tablecell.accessibilityIdentifier), tablecell)
  else do
    let tablecell := { tablecell with accessoryType := .checkmark }
    some (groupChatFriends ++ [← tablecell.accessibilityIdentifier], tablecell)

end StartGroupChatViewController

open StartGroupChatViewController

/-- The screen: the selection, and the cells of the table. -/
structure StartGroupChatViewController where
  groupChatFriends : List String := []
  /-- the cell of each row on screen -/
  visible : ℕ → Option Cell := fun _ => none
  /-- the cells that have left the screen -/
  reusable : List Cell := []

namespace StartGroupChatViewController

inductive Event
  /-- the row comes on screen, with a cell that has left it or a new one -/
  | cellForRowAt (row : ℕ) (dequeued : Option ℕ)
  /-- the row leaves the screen -/
  | didEndDisplaying (row : ℕ)
  | didSelectRowAt (row : ℕ)

/-- The cell that `dequeueReusableCell` returns, and those it leaves. -/
def dequeueReusableCell (reusable : List Cell) : Option ℕ → Option (Cell × List Cell)
  | none => some ({}, reusable)
  | some j => do some (← reusable[j]?, reusable.eraseIdx j)

variable (lists : FriendLists)

def step (self : StartGroupChatViewController) : Event → Option StartGroupChatViewController
  | .cellForRowAt row dequeued =>
    if row < numberOfRowsInSection lists ∧ self.visible row = none then do
      let (tablecell, reusable) ← dequeueReusableCell self.reusable dequeued
      let tablecell ← StartGroupChatViewController.cellForRowAt lists tablecell row
      some { self with
        visible := Function.update self.visible row (some tablecell), reusable := reusable }
    else none
  | .didEndDisplaying row => do
    let tablecell ← self.visible row
    some { self with
      visible := Function.update self.visible row none
      reusable := self.reusable ++ [tablecell] }
  | .didSelectRowAt row => do
    let tablecell ← self.visible row
    let (groupChatFriends, tablecell) ←
      StartGroupChatViewController.didSelectRowAt self.groupChatFriends tablecell
    some { self with
      groupChatFriends := groupChatFriends
      visible := Function.update self.visible row (some tablecell) }

end StartGroupChatViewController

end MessageApp
