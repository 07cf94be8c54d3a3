import MessageApp.Device

/-!
# Recording, uploading, sending

A press of the voice button creates a recorder when it begins and uploads the recorder's file when
it ends (`voiceButtonPressing`). When the upload completes, the URL of what was uploaded is fetched;
when the fetch completes, a record with that URL is sent, by the same statements as a text
(`finishEditingStatements`, `downloadURLStatements`), which go through two arrays of the instance.
The other chats, the account and the screen may change in between. Whether a recorder can be
created, a file read, an upload or a fetch completed is an input.
-/

namespace MessageApp

/-- `"Audio/uid/chatWithId/date.m4a"` -/
structure StoragePath where
  uid : String
  chatWithId : String
  date : String
deriving DecidableEq

/-- What Firebase's storage and `URL(string:)` are relied on for. -/
structure Storage where
  /-- the `absoluteString` of the URL of what was uploaded there -/
  downloadURL : StoragePath → String
  /-- `URL(string:)` is not nil -/
  isURL : String → Bool
  not_isURL_empty : isURL "" = false
  isURL_downloadURL : ∀ ref, isURL (downloadURL ref) = true

namespace ChatViewController

/-! ## The statements of the two sends -/

/-- `finishEditing`, one statement after another. -/
def finishEditingStatements (self : ChatViewController) (currentUser : Option User)
    (text t : String) : Option (ChatViewController × List Write × Option Block) :=
  if text ≠ "" then do
    let myUser ← currentUser
    let docRefc1 := DocPath.conversation myUser.uid self.chatWithId
    let docRefc2 := DocPath.conversation self.chatWithId myUser.uid
    let self := { self with sarray := self.sarray ++ [text] }
    let self := { self with sarray := self.sarray ++ [myUser.uid] }
    let self := { self with sarray := self.sarray ++ ["false"] }
    let self := { self with timestamp := self.timestamp ++ [t] }
    let (sdata, bufferdata) := self.timestamp.foldl
      (fun (sdata, bufferdata) element =>
        (sdata.insert element self.sarray, bufferdata.insert element self.sarray)) (∅, ∅)
    let (docRefc2, docBuffer, block) :=
      if self.chatisGroupChat then
        (DocPath.groupConversation self.chatWithId, [],
          some ⟨.ofDict bufferdata, myUser.uid⟩)
      else (docRefc2, [.setData (.buffer self.chatWithId) (.ofDict bufferdata) true], none)
    some ({ self with sarray := [], timestamp := [] },
      docBuffer ++ [.setData docRefc1 (.ofDict sdata) true, .setData docRefc2 (.ofDict sdata) true],
      block)
  else some (self, [], none)

/-- The completion of `downloadURL`, one statement after another. -/
def downloadURLStatements (self : ChatViewController) (currentUser : Option User)
    (url : Option String) (t : String) :
    Option (ChatViewController × List Write × Option Block) := do
  let self := { self with
    sarray := match url with
      | some downloadURL => self.sarray ++ [downloadURL]
      | none => self.sarray ++ [""] }
  let myUser ← currentUser
  let docRefc1 := DocPath.conversation myUser.uid self.chatWithId
  let docRefc2 := DocPath.conversation self.chatWithId myUser.uid
  let self := { self with sarray := self.sarray ++ [myUser.uid] }
  let self := { self with sarray := self.sarray ++ ["true"] }
  let self := { self with timestamp := self.timestamp ++ [t] }
  let (sdata, bufferdata) := self.timestamp.foldl
    (fun (sdata, bufferdata) element =>
      (sdata.insert element self.sarray, bufferdata.insert element self.sarray)) (∅, ∅)
  let (docRefc2, docBuffer, block) :=
    if self.chatisGroupChat then
      (DocPath.groupConversation self.chatWithId, [], some ⟨.ofDict bufferdata, myUser.uid⟩)
    else (docRefc2, [.setData (.buffer self.chatWithId) (.ofDict bufferdata) true], none)
  some ({ self with sarray := [], timestamp := [] },
    docBuffer ++ [.setData docRefc1 (.ofDict sdata) true, .setData docRefc2 (.ofDict sdata) true],
    block)

/-! ## The audio button -/

/-- Where the audio is read from. A string that is no URL is unwrapped all the same. -/
def audioButtonClicked (S : Storage) (accessibilityIdentifier : Option String) : Option String :=
  let string := accessibilityIdentifier.getD "nil"
  if S.isURL string then some string else none

/-! ## The voice button -/

/-- What an instance keeps between presses. -/
structure Recorder where
  /-- the file that `soundRecorder` records to -/
  soundRecorder : Option String := none
  currentDate : Option String := none
deriving DecidableEq

/-- How `voiceButtonPressing` fares when a press begins. -/
inductive Outcome (α : Type)
  /-- `AVAudioRecorder` throws -/
  | throws
  /-- `prepareToRecord` is false -/
  | unprepared
  | records (audio : α)

variable {α : Type}

/-- `voiceButtonPressing` at `.began`: the instance's recorder and the files on the device. -/
def Recorder.began (r : Recorder) (files : Dict α) (date : String) :
    Outcome α → Recorder × Dict α
  | .throws => ({ r with currentDate := some date }, files)
  | .unprepared => (⟨some (date ++ ".m4a"), some date⟩, files)
  | .records audio =>
    (⟨some (date ++ ".m4a"), some date⟩, files.insert (date ++ ".m4a") audio)

/-- `voiceButtonPressing` at `.ended`: what is uploaded, and where. A file that cannot be read is
not uploaded; a missing recorder is stopped all the same. -/
def ended (self : ChatViewController) (r : Recorder) (currentUser : Option User) (files : Dict α)
    (readable : Bool) : Option (Option (StoragePath × α)) := do
  let url ← r.soundRecorder
  match if readable then files[url]? else none with
  | none => some none
  | some data => do
    let myUser ← currentUser
    let date ← r.currentDate
    some (some (⟨myUser.uid, self.chatWithId, date⟩, data))

end ChatViewController

/-- An upload in progress, of the instance `i`. -/
structure Upload (α : Type) where
  i : ℕ
  uploadRef : StoragePath
  data : α

/-- A process with what its voice buttons have started. -/
structure Voices (α : Type) where
  device : Device := {}
  recorder : ℕ → ChatViewController.Recorder := fun _ => {}
  /-- the instance whose voice button is being pressed -/
  pressing : Option ℕ := none
  /-- the recordings, by the names of their files -/
  files : Dict α := ∅
  uploads : List (Upload α) := []
  /-- the uploads whose URL is being fetched -/
  fetches : List (Upload α) := []

namespace Voices

open ChatViewController

variable {α : Type}

inductive Event (α : Type)
  /-- all but the two sends -/
  | device (e : Device.Event)
  | finishEditing (i : ℕ) (text t : String)
  | viewWillDisappear (i : ℕ)
  | began (i : ℕ) (date : String) (outcome : Outcome α)
  | ended (i : ℕ) (readable : Bool)
  | cancelled (i : ℕ)
  | putDataCompleted (k : ℕ) (failed : Bool)
  | downloadURLCompleted (k : ℕ) (failed : Bool) (t : String)

/-- An instance has sent. -/
def afterSend (v : Voices α) (i : ℕ) (r : ChatViewController × List Write × Option Block) :
    Voices α × List Write :=
  ({ v with device := (v.device.afterSend i r).1 }, (v.device.afterSend i r).2)

/-- The URL that the fetch delivers. -/
def fetchedURL (S : Storage) (f : Upload α) (failed : Bool) : Option String :=
  if failed then none else some (S.downloadURL f.uploadRef)

/-- The process after an event, with the writes it issues, in order; `none` where the event
cannot happen or the code traps. -/
def step (S : Storage) (v : Voices α) : Event α → Option (Voices α × List Write)
  | .device e =>
    if e.isSend then none else do
      let (device, ws) ← v.device.step e
      some ({ v with device := device }, ws)
  | .finishEditing i text t => do
    some (v.afterSend i
      (← (← v.device.instances[i]?).finishEditingStatements v.device.currentUser text t))
  | .viewWillDisappear i => do
    let self ← v.device.instances[i]?
    some ({ v with device := { v.device with
      instances := v.device.instances.set i self.viewWillDisappear } }, [])
  | .began i date outcome =>
    if v.pressing = none ∧ i < v.device.instances.length then
      let (recorder, files) := (v.recorder i).began v.files date outcome
      some ({ v with
        recorder := Function.update v.recorder i recorder
        files := files
        pressing := some i }, [])
    else none
  | .ended i readable =>
    if v.pressing = some i then do
      let self ← v.device.instances[i]?
      let put ← self.ended (v.recorder i) v.device.currentUser v.files readable
      some ({ v with
        pressing := none
        uploads := v.uploads ++ (put.map fun (uploadRef, data) => ⟨i, uploadRef, data⟩).toList },
        [])
    else none
  | .cancelled i => if v.pressing = some i then some ({ v with pressing := none }, []) else none
  | .putDataCompleted k failed => do
    let upload ← v.uploads[k]?
    some ({ v with
      uploads := v.uploads.eraseIdx k
      fetches := v.fetches ++ if failed then [] else [upload] }, [])
  | .downloadURLCompleted k failed t => do
    let f ← v.fetches[k]?
    let self ← v.device.instances[f.i]?
    let r ← self.downloadURLStatements v.device.currentUser (fetchedURL S f failed) t
    some ({ v with fetches := v.fetches.eraseIdx k }.afterSend f.i r)

/-- The process after an event, without what it writes. -/
def next (S : Storage) (v : Voices α) (e : Event α) : Option (Voices α) :=
  (v.step S e).map Prod.fst

end Voices

end MessageApp
