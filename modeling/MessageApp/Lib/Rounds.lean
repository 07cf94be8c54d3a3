import Mathlib.Logic.Basic

/-!
# Rounds of two steps

A list whose elements go `P`, `Q`, `P`, `Q`, ..., and end with a `Q`. `Rounds P Q midway` says
whether it starts with the second half of a round. What is in flight of operations of two writes
each is such a list: taking its head toggles `midway` (`Rounds.cons_iff`), and whole rounds may
follow it (`Rounds.append`).
-/

inductive Rounds {α : Type*} (P Q : α → Prop) : Bool → List α → Prop
  | nil : Rounds P Q false []
  | first {x : α} {l : List α} : P x → Rounds P Q true l → Rounds P Q false (x :: l)
  | second {x : α} {l : List α} : Q x → Rounds P Q false l → Rounds P Q true (x :: l)

namespace Rounds

variable {α : Type*} {P Q : α → Prop} {midway : Bool} {l l' : List α} {x : α}

theorem cons_iff :
    Rounds P Q midway (x :: l) ↔ (if midway then Q x else P x) ∧ Rounds P Q (!midway) l := by
  constructor
  · intro h
    cases h with
    | first hx hl => exact ⟨hx, hl⟩
    | second hx hl => exact ⟨hx, hl⟩
  · rintro ⟨hx, hl⟩
    cases midway with
    | false => exact .first hx hl
    | true => exact .second hx hl

theorem append (h : Rounds P Q midway l) (h' : Rounds P Q false l') :
    Rounds P Q midway (l ++ l') := by
  induction h with
  | nil => exact h'
  | first hx _ ih => exact .first hx ih
  | second hx _ ih => exact .second hx ih

theorem round {y : α} (hx : P x) (hy : Q y) : Rounds P Q false [x, y] :=
  .first hx (.second hy .nil)

theorem not_midway_of_nil (h : Rounds P Q midway []) : midway = false := by
  cases h
  rfl

end Rounds
