import MessageApp.Information

/-!
# `DiscoverViewController`

The listener on the friend blog rebuilds three arrays, of authors, texts and names, from every
version it gets. A row of the table shows one story, beside the picture of its author.
-/

namespace MessageApp

structure DiscoverViewController where
  blogArray : List String := []
  userIdArray : List String := []
  userNameArray : List String := []

namespace DiscoverViewController

/-- The callback: it traps on a field that is no array of three strings. -/
def blogListener (self : DiscoverViewController) : Option Doc → Option DiscoverViewController
  | none => some self
  | some data => data.toList.foldlM (fun self e => do
    let value ← e.2.strings?
    some {
      userIdArray := self.userIdArray ++ [← value[0]?]
      blogArray := self.blogArray ++ [← value[1]?]
      userNameArray := self.userNameArray ++ [← value[2]?] }) {}

/-- The pictures are those of `cacheItem`. -/
structure Cell (Image : Type) where
  imageProfile : Option Image
  post : String
  username : String

def numberOfRowsInSection (self : DiscoverViewController) : ℕ := self.blogArray.length

def cellForRowAt {Image : Type} (self : DiscoverViewController) (cacheItem : Dict Image)
    (row : ℕ) : Option (Cell Image) := do
  some {
    imageProfile := cacheItem[← self.userIdArray[row]?]?
    post := ← self.blogArray[row]?
    username := ← self.userNameArray[row]? }

end DiscoverViewController

end MessageApp
