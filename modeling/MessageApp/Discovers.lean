import MessageApp.DiscoverViewController
import MessageApp.Pictures

/-!
# The app, with its Discover screens

A process makes a Discover screen for the account that is signed in; the screen's listener, on the
friend blog of that account, stays. A table asks for the rows it has counted when it was last
reloaded. `stories` records what has been posted, and to whose friend blogs.
-/

namespace MessageApp

structure Story where
  author : String
  text : String
  name : Option String
  t : String
  /-- the author, and whom the author's lists held by then -/
  audience : List String
deriving DecidableEq

/-- The story that an event of a process posts. -/
def Process.posts (p : Process) : Process.Event → List Story
  | .sendStoryClicked (some text) t => (p.device.currentUser.map fun user =>
      { author := user.uid, text := text, name := user.displayName, t := t
        audience := user.uid :: p.device.globals.listOfId }).toList
  | _ => []

/-- A `DiscoverViewController` that has loaded, with the account whose blog it listens to, and how
many rows its table has counted. -/
structure DiscoverScreen where
  uid : String
  screen : DiscoverViewController := {}
  rows : ℕ := 0

/-- The screen after a callback: the table is reloaded with what a document has been read into. -/
def DiscoverScreen.read (v : DiscoverScreen) (document : Option Doc)
    (screen : DiscoverViewController) : DiscoverScreen :=
  { v with
    screen := screen
    rows := if document.isSome then screen.numberOfRowsInSection else v.rows }

structure Discovers (Image Data : Type) where
  pictures : Pictures Image Data
  screens : String → List DiscoverScreen
  stories : List Story

variable {Image Data : Type}

namespace Discovers

inductive Event (Image : Type)
  | pictures (e : Pictures.Event Image)
  | discoverDidLoad (p : String)
  /-- in what the snapshot shows `n` writes have landed, and `m` of the account's own have not -/
  | blogSnapshot (p : String) (i n m : ℕ)
  | viewWillAppear (p : String) (i : ℕ)

def start : Discovers Image Data := ⟨.start, fun _ => [], []⟩

variable (init : List AppWrite) (jpeg : Jpeg Image Data)

/-- What an event posts. -/
def posts (s : Discovers Image Data) : Event Image → List Story
  | .pictures (.app e) =>
    match s.pictures.app.taken init e with
    | none => []
    | some (p, pe) => (s.pictures.app.process p).posts pe
  | _ => []

/-- The screens of a process after an event of theirs. -/
def display (s : Discovers Image Data) (p : String) (screens : List DiscoverScreen) :
    Discovers Image Data :=
  { s with screens := Function.update s.screens p screens }

/-- The document that a snapshot shows the listener of an account. -/
def blog (s : Discovers Image Data) (p uid : String) (n m : ℕ) : Option Doc :=
  docs (s.pictures.app.seen init (s.pictures.app.account p) n m) (.friendBlog uid)

def step (s : Discovers Image Data) : Event Image → Option (Discovers Image Data)
  | .pictures e => do
    some { s with
      pictures := ← s.pictures.step init jpeg e
      stories := s.stories ++ s.posts init (.pictures e) }
  | .discoverDidLoad p => do
    let myUser ← (s.pictures.app.process p).device.currentUser
    some (s.display p (s.screens p ++ [{ uid := myUser.uid }]))
  | .blogSnapshot p i n m => do
    let v ← (s.screens p)[i]?
    let document := s.blog init p v.uid n m
    let screen ← v.screen.blogListener document
    some (s.display p ((s.screens p).set i (v.read document screen)))
  | .viewWillAppear p i => do
    let v ← (s.screens p)[i]?
    some (s.display p ((s.screens p).set i { v with rows := v.screen.numberOfRowsInSection }))

end Discovers

end MessageApp
