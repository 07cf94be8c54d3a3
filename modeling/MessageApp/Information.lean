import MessageApp.Firestore

/-!
# The process-wide state

The globals of `Information.swift` outlive every view controller, and every account that signs
in: nothing ties their contents to the account that is signed in now.
-/

namespace MessageApp

/-- `Auth.auth().currentUser` -/
structure User where
  uid : String
  email : Option String := none
  displayName : Option String := none
deriving DecidableEq

/-- The chat a tapped row is about. -/
structure Information where
  idofChat : String := ""
  isGroupChat : Bool := false

structure Globals where
  information : Information := {}
  listOfId : List String := []
  bufferChat : Dict (List String) := ∅
  bufferGroupChat : Dict Nat := ∅
  cacheMessage : Dict (List (List String)) := ∅

end MessageApp
