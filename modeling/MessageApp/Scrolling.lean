import Mathlib.Data.Int.Notation
import MessageApp.Device

/-!
# Scrolling to the last row

A chat's table is scrolled to its last row by blocks that run later: one is scheduled when a cached
chat opens, one for every row a callback appends, and one at the end of every callback. A block
scrolls to the last row of what is cached when it runs, in a table that has the rows it was last
reloaded with.
-/

namespace MessageApp

/-- `(cacheMessage[chatWithId]?[2].count)!-1` -/
def ChatViewController.scrollRow (self : ChatViewController)
    (cacheMessage : Dict (List (List String))) : Option ℤ := do
  let columns ← cacheMessage[self.chatWithId]?
  some (((← columns[2]?).length : ℤ) - 1)

structure Scrolling where
  device : Device := {}
  /-- the rows of each instance's table -/
  rows : List ℕ := []
  /-- the scheduled blocks, each by its instance -/
  scrolls : List ℕ := []

namespace Scrolling

inductive Event
  | device (e : Device.Event)
  /-- a scheduled block runs -/
  | scroll (k : ℕ)

/-- `reloadData` on the table of an instance, after which blocks are scheduled. -/
def reload (s : Scrolling) (i scheduled : ℕ) : Option Scrolling := do
  let self ← s.device.instances[i]?
  let n ← self.numberOfRowsInSection s.device.globals.cacheMessage
  some { s with rows := s.rows.set i n, scrolls := s.scrolls ++ List.replicate scheduled i }

def step (s : Scrolling) : Event → Option Scrolling
  | .device e => do
    let (device, _) ← s.device.step e
    match e with
    | .openChat id _ =>
      -- `buffercleaner`: the new table has no rows unless it is reloaded
      let s' := { s with device := device, rows := s.rows ++ [0] }
      if (s.device.globals.cacheMessage[id]?).isSome then s'.reload s.device.instances.length 1
      else some s'
    | .conversationSnapshot i (some _) => do
      -- every turn that appends a key schedules a block, and so does the end of the loop
      let appended := (← device.instances[i]?).keys.length - (← s.device.instances[i]?).keys.length
      { s with device := device }.reload i (appended + 1)
    | _ => some { s with device := device }
  | .scroll k => do
    let i ← s.scrolls[k]?
    let row ← (← s.device.instances[i]?).scrollRow s.device.globals.cacheMessage
    if 0 ≤ row ∧ row < (← s.rows[i]?) then some { s with scrolls := s.scrolls.eraseIdx k } else none

end Scrolling

end MessageApp
