import MessageApp.App
import MessageApp.SearchResultViewController

/-!
# The app, with its search screens

Each process has, beside the rest, the searches in flight, the tables and profiles opened from their
results, and the two globals between them. A search or a fetch may complete at any time, with what a
snapshot could show then, or fail. Requests are sent from profiles alone.
-/

namespace MessageApp

structure SearchScreens where
  searchResult : SearchResult := {}
  searchInformation : SearchInformation := {}
  /-- the names whose query has not completed -/
  searching : List String := []
  /-- the results whose table has yet to load -/
  resultSegues : ℕ := 0
  /-- how many rows each `SearchResultViewController` that has loaded remembers -/
  tables : List ℕ := []
  /-- every cell the tables have made -/
  cells : List SearchInformation := []
  /-- the selected rows whose profile has yet to load -/
  profileSegues : ℕ := 0
  /-- every `SearchResultProfileViewController` that has loaded -/
  profiles : List SearchResultProfileViewController := []
  /-- the fetches that profiles have started, each with the account that was signed in -/
  fetching : List (ℕ × String) := []
  /-- the requests that have not been acknowledged, each with the profile and the account -/
  sending : List (ℕ × String) := []

structure Searches where
  app : App
  screens : String → SearchScreens

namespace Searches

inductive Event
  /-- anything but a press of `sendFriendRequest` -/
  | app (e : App.Event)
  | addNewFriendClicked (p text : String)
  /-- with what has landed, and what the account has yet to land, if it does not fail -/
  | searchCompleted (p : String) (j : ℕ) (version : Option (ℕ × ℕ))
  | resultsDidLoad (p : String)
  | cellForRowAt (p : String) (table row : ℕ)
  | didSelectRowAt (p : String) (cell : ℕ)
  | profileDidLoad (p : String)
  | viewWillAppear (p : String) (i : ℕ)
  | requestFetched (p : String) (j : ℕ) (version : Option (ℕ × ℕ))
  | sendFriendRequest (p : String) (i : ℕ)
  | requestWritten (p : String) (j : ℕ) (ok : Bool)

def start : Searches := ⟨.start, fun _ => {}⟩

variable (init : List AppWrite)

/-- Whether the event is left to the app: requests are sent from profiles. -/
def leftToApp : App.Event → Bool
  | .on _ (.sendFriendRequest _) => false
  | _ => true

/-- The screens of a process after an event of theirs. -/
def display (s : Searches) (p : String) (screens : SearchScreens) : Searches :=
  { s with screens := Function.update s.screens p screens }

/-- `whereField("username", isEqualTo: searchName)` on the collection `User`. -/
def found (ws : List AppWrite) (searchName : String) : List (String × Doc) :=
  (collection .user ws).filter fun d => d.2["username"]? = some (.string searchName)

def step (s : Searches) : Event → Option Searches
  | .app e =>
    if leftToApp e then do some { s with app := ← s.app.step init e } else none
  | .addNewFriendClicked p text =>
    let v := s.screens p
    some (s.display p { v with searching := v.searching ++ [text] })
  | .searchCompleted p j version => do
    let v := s.screens p
    let text ← v.searching[j]?
    let v := { v with searching := v.searching.eraseIdx j }
    match version with
    | none => some (s.display p v)
    | some (n, m) =>
      let result ← RecentViewController.searchCompleted
        (found (s.app.seen init (s.app.account p) n m) text)
      some (s.display p { v with searchResult := result, resultSegues := v.resultSegues + 1 })
  | .resultsDidLoad p =>
    let v := s.screens p
    if 0 < v.resultSegues then
      let rows := SearchResultViewController.numberOfRowsInSection v.searchResult
      some (s.display p { v with
        tables := v.tables ++ [rows], resultSegues := v.resultSegues - 1 })
    else none
  | .cellForRowAt p table row => do
    let v := s.screens p
    if row < (← v.tables[table]?) then do
      let cell ← SearchResultViewController.cellForRowAt v.searchResult row
      some (s.display p { v with cells := v.cells ++ [cell] })
    else none
  | .didSelectRowAt p cell => do
    let v := s.screens p
    let tablecell ← v.cells[cell]?
    some (s.display p { v with
      searchInformation := tablecell, profileSegues := v.profileSegues + 1 })
  | .profileDidLoad p =>
    let v := s.screens p
    if 0 < v.profileSegues then
      some (s.display p { v with
        profiles := v.profiles ++ [.viewDidLoad v.searchInformation]
        profileSegues := v.profileSegues - 1 })
    else none
  | .viewWillAppear p i => do
    let v := s.screens p
    let myUser ← (s.app.process p).device.currentUser
    if i < v.profiles.length then
      some (s.display p { v with fetching := v.fetching ++ [(i, myUser.uid)] })
    else none
  | .requestFetched p j version => do
    let v := s.screens p
    let (i, uid) ← v.fetching[j]?
    let document := do
      let (n, m) ← version
      docs (s.app.seen init (p, some uid) n m)
        (.friendRequestTo uid (← v.profiles[i]?).searchWithId)
    some (s.display p { v with
      profiles := v.profiles.modify i (·.requestFetched document)
      fetching := v.fetching.eraseIdx j })
  | .sendFriendRequest p i => do
    let v := s.screens p
    let self ← v.profiles[i]?
    let myUser ← (s.app.process p).device.currentUser
    let app ← s.app.step init (.on p (.sendFriendRequest self.searchWithId))
    some ({ s with app := app }.display p (if myUser.uid ≠ self.searchWithId then
      { v with sending := v.sending ++ [(i, myUser.uid)] } else v))
  | .requestWritten p j ok => do
    let v := s.screens p
    let (i, uid) ← v.sending[j]?
    let self ← v.profiles[i]?
    if (s.app.net.pending (p, some uid)).all
        (DocWrite.path · ≠ .friendRequestFrom self.searchWithId uid) then
      some (s.display p { v with
        profiles := if ok then v.profiles.modify i (·.requestWritten) else v.profiles
        sending := v.sending.eraseIdx j })
    else none

end Searches

end MessageApp
