import MessageApp.App

/-!
# The app, with the profile pictures

Each account has a picture in Storage, at `Profile/uid.jpg`, under which the one it picks there is
uploaded. A process downloads the picture of the account that signs in, and of every friend and
group in a snapshot of `Friends`, and keeps pictures in the global `cacheItem`, which the system may
drop at any time. What is in Storage when a download reads it may be older than what is there when
it completes. `chosen` records who has picked what.
-/

namespace MessageApp

/-- `UIImage.jpegData` and `UIImage(data:)`: what is downloaded need not be what was uploaded. -/
structure Jpeg (Image Data : Type) where
  jpegData : Image → Option Data
  image : Data → Option Image

/-- A picture on its way to `Profile/uid.jpg`. -/
structure PictureUpload (Image Data : Type) where
  uid : String
  image : Image
  data : Data

variable {Image Data : Type}

/-- `cacheItem` after a download, in `RecentViewController.viewDidLoad`; `none` is a failure. -/
def RecentViewController.pictureDownloaded (jpeg : Jpeg Image Data) (cacheItem : Dict Image)
    (documentid : String) (data : Option Data) : Dict Image :=
  match data.bind jpeg.image with
  | none => cacheItem
  | some image =>
    if cacheItem[documentid]? = none then cacheItem.insert documentid image else cacheItem

namespace AccountViewController

/-- The upload of a picked picture, if it has a JPEG representation; it traps with no user signed
in. -/
def imagePickerController (jpeg : Jpeg Image Data) (currentUser : Option User) (image : Image) :
    Option (Option (PictureUpload Image Data)) :=
  currentUser.map fun user => (jpeg.jpegData image).map (⟨user.uid, image, ·⟩)

/-- The completion of an upload that has not failed; it traps with no user signed in. -/
def pictureUploaded (cacheItem : Dict Image) (currentUser : Option User) (image : Image) :
    Option (Dict Image) :=
  currentUser.map fun user => cacheItem.insert user.uid image

end AccountViewController

/-- What a process holds of the pictures. -/
structure PictureCache (Image Data : Type) where
  cacheItem : Dict Image := ∅
  /-- the accounts and groups whose download has not completed -/
  downloading : List String := []
  /-- the uploads that have not reached Storage -/
  uploading : List (PictureUpload Image Data) := []
  /-- the uploads that have, and have not completed -/
  uploaded : List (PictureUpload Image Data) := []

/-- The accounts and groups whose pictures the process downloads on an event. -/
def Process.downloads (p : Process) : Process.Event → List String
  | .chat (.signIn user) => [user.uid]
  | .afterSignUp => (p.device.currentUser.map User.uid).toList
  | .friendsSnapshot _ documents => documents.map Prod.fst
  | _ => []

/-- After an event of the process `p`; `LoginViewController.Signout` empties the cache. -/
def PictureCache.after (v : PictureCache Image Data) (p : Process) (e : Process.Event) :
    PictureCache Image Data :=
  let cacheItem := match e with
    | .chat .signout => ∅
    | _ => v.cacheItem
  { v with cacheItem := cacheItem, downloading := v.downloading ++ p.downloads e }

/-- The event a process takes, in an event of the app. -/
def App.taken (init : List AppWrite) (w : App) : App.Event → Option (String × Process.Event)
  | .on p e => some (p, e)
  | .deliver p query n m =>
    (query.callback (w.seen init (w.account p) n m) (w.process p)).map (p, ·)
  | .land _ => none

structure Pictures (Image Data : Type) where
  app : App
  /-- all that has been put into Storage, in order, each with the account it is of -/
  storage : List (String × Data)
  caches : String → PictureCache Image Data
  /-- all that has been picked so far, each with the account that was signed in -/
  chosen : List (String × Image)

namespace Pictures

inductive Event (Image : Type)
  | app (e : App.Event)
  /-- the picker has finished, with an edited picture -/
  | imagePicked (p : String) (image : Image)
  /-- an upload has reached Storage -/
  | put (p : String) (j : ℕ)
  | uploadFailed (p : String) (j : ℕ)
  /-- the completion of an upload that has reached Storage; its answer may be lost -/
  | uploadCompleted (p : String) (j : ℕ) (ok : Bool)
  /-- the completion of a download, with how much had been put into Storage when it read it -/
  | downloaded (p : String) (j : ℕ) (version : Option ℕ)
  | evicted (p uid : String)

def start : Pictures Image Data := ⟨.start, [], fun _ => {}, []⟩

variable (init : List AppWrite) (jpeg : Jpeg Image Data)

/-- The pictures of a process after an event of theirs. -/
def display (s : Pictures Image Data) (p : String) (v : PictureCache Image Data) :
    Pictures Image Data :=
  { s with caches := Function.update s.caches p v }

/-- What `Profile/uid.jpg` held when Storage had had `n` uploads. -/
def stored (s : Pictures Image Data) (n : ℕ) (uid : String) : Option Data :=
  ((s.storage.take n).filter (·.1 = uid)).getLast?.map Prod.snd

def step (s : Pictures Image Data) : Event Image → Option (Pictures Image Data)
  | .app e => do
    let app ← s.app.step init e
    let s' := { s with app := app }
    match s.app.taken init e with
    | none => some s'
    | some (p, pe) => some (s'.display p ((s.caches p).after (s.app.process p) pe))
  | .imagePicked p image => do
    let v := s.caches p
    let currentUser := (s.app.process p).device.currentUser
    let upload ← AccountViewController.imagePickerController jpeg currentUser image
    some { s.display p { v with uploading := v.uploading ++ upload.toList } with
      chosen := s.chosen ++ (currentUser.map fun user => (user.uid, image)).toList }
  | .put p j => do
    let v := s.caches p
    let upload ← v.uploading[j]?
    some { s.display p { v with
        uploading := v.uploading.eraseIdx j, uploaded := v.uploaded ++ [upload] } with
      storage := s.storage ++ [(upload.uid, upload.data)] }
  | .uploadFailed p j => do
    let v := s.caches p
    if j < v.uploading.length then
      some (s.display p { v with uploading := v.uploading.eraseIdx j })
    else none
  | .uploadCompleted p j ok => do
    let v := s.caches p
    let upload ← v.uploaded[j]?
    let v := { v with uploaded := v.uploaded.eraseIdx j }
    if ok then do
      let currentUser := (s.app.process p).device.currentUser
      let cacheItem ← AccountViewController.pictureUploaded v.cacheItem currentUser upload.image
      some (s.display p { v with cacheItem := cacheItem })
    else some (s.display p v)
  | .downloaded p j version => do
    let v := s.caches p
    let uid ← v.downloading[j]?
    let cacheItem := RecentViewController.pictureDownloaded jpeg v.cacheItem uid
      (version.bind (s.stored · uid))
    some (s.display p { v with
      cacheItem := cacheItem, downloading := v.downloading.eraseIdx j })
  | .evicted p uid =>
    let v := s.caches p
    some (s.display p { v with cacheItem := v.cacheItem.erase uid })

end Pictures

end MessageApp
