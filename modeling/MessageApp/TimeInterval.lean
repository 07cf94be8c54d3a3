import MessageApp.Firestore
import MessageApp.Lib.Numeral

/-!
# Clock readings

A message or a story is stored under the string of the clock's reading,
`String(NSDate().timeIntervalSince1970)`.
-/

namespace MessageApp

/-- A reading from September 2001 on and before November 2286, in the digits `String` writes. -/
structure TimeInterval where
  whole : List (Fin 10)
  fraction : List (Fin 10)
  length_whole : whole.length = 10
  head_whole : whole.head? ≠ some 0
  written : Numeral.Fraction fraction

namespace TimeInterval

/-- The seconds since 1970. -/
def value (t : TimeInterval) : ℚ := Numeral.nat t.whole + Numeral.frac t.fraction

def character (d : Fin 10) : Char := Char.ofNat (48 + d.val)

/-- `String(t)` -/
def string (t : TimeInterval) : String :=
  String.ofList (t.whole.map character ++ '.' :: t.fraction.map character)

end TimeInterval

end MessageApp
