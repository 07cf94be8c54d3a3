import MessageApp.Information

/-!
# Searching for an account

The first screen looks accounts up by their name (`RecentViewController.addNewFriendClicked`). The
result is a global that the table of `SearchResultViewController` reads; a tap puts what its cell
shows into another global, which `SearchResultProfileViewController` copies when it loads. The
profile says whether the account has been asked.
-/

namespace MessageApp

structure SearchResult where
  nameofSearchResult : List String := []
  idofSearchResult : List String := []

/-- The account of a cell, of `searchInformation`, or of a profile. -/
structure SearchInformation where
  nameofChat : String := ""
  idofChat : String := ""
deriving DecidableEq

/-- The completion of the query of `addNewFriendClicked`; it traps on a document without a name. -/
def RecentViewController.searchCompleted (documents : List (String × Doc)) :
    Option SearchResult := do
  let nametemp ← documents.mapM fun document => do (← document.2["username"]?).string?
  some ⟨nametemp, documents.map Prod.fst⟩

namespace SearchResultViewController

def numberOfRowsInSection (searchResult : SearchResult) : ℕ :=
  searchResult.nameofSearchResult.length

/-- The text of the cell and its identifier. -/
def cellForRowAt (searchResult : SearchResult) (row : ℕ) : Option SearchInformation := do
  some ⟨← searchResult.nameofSearchResult[row]?, ← searchResult.idofSearchResult[row]?⟩

end SearchResultViewController

structure SearchResultProfileViewController where
  usernameLabel : String := "name"
  currentStatue : String := "Statue"
  searchWithId : String := ""

namespace SearchResultProfileViewController

def viewDidLoad (searchInformation : SearchInformation) : SearchResultProfileViewController :=
  { usernameLabel := searchInformation.nameofChat, searchWithId := searchInformation.idofChat }

/-- The completion of `getDocument` on `FriendRequestTo/searchWithId`, in `viewWillAppear`; `none`
is a failure, or no document. -/
def requestFetched (self : SearchResultProfileViewController) (document : Option Doc) :
    SearchResultProfileViewController :=
  { self with currentStatue := if document.isSome then "Is Requesting" else "No A Friend" }

/-- The completion of the second write of `sendFriendRequest`; a failure changes nothing. -/
def requestWritten (self : SearchResultProfileViewController) :
    SearchResultProfileViewController :=
  { self with currentStatue := "Is Requesting" }

end SearchResultProfileViewController

end MessageApp
