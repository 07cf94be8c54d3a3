import MessageApp.Lib.Run
import MessageApp.Pictures

/-!
# Whose picture is shown

Storage holds, under each account, pictures that it picked there (`Kept`), and so does what is
downloaded from it. Only the completion of an upload puts a picture under an account without asking
Storage, and then under the one that is signed in by then: so the pictures of the caches are their
accounts' own exactly as long as every completion finds the account it is of (`pictures_own_iff`).
-/

namespace MessageApp

variable {Image Data : Type} {init : List AppWrite} {jpeg : Jpeg Image Data}
  {chosen chosen' : List (String × Image)}

variable (jpeg) in
/-- The data of a picture that the account has picked. -/
def IsData (chosen : List (String × Image)) (uid : String) (data : Data) : Prop :=
  ∃ image, (uid, image) ∈ chosen ∧ jpeg.jpegData image = some data

variable (jpeg) in
/-- A picture that the account has picked, or what has become of one on its way through Storage. -/
def Own (chosen : List (String × Image)) (uid : String) (image : Image) : Prop :=
  (uid, image) ∈ chosen ∨ ∃ data, IsData jpeg chosen uid data ∧ jpeg.image data = some image

variable (jpeg) in
/-- The upload is of a picture that its account has picked. -/
structure PictureUpload.Picked (chosen : List (String × Image)) (u : PictureUpload Image Data) :
    Prop where
  mem : (u.uid, u.image) ∈ chosen
  data : jpeg.jpegData u.image = some u.data

theorem IsData.mono (hc : chosen ⊆ chosen') {uid : String} {data : Data}
    (h : IsData jpeg chosen uid data) : IsData jpeg chosen' uid data :=
  h.imp fun _ h => ⟨hc h.1, h.2⟩

theorem Own.mono (hc : chosen ⊆ chosen') {uid : String} {image : Image}
    (h : Own jpeg chosen uid image) : Own jpeg chosen' uid image :=
  h.imp (fun h => hc h) fun ⟨data, hdata, hi⟩ => ⟨data, hdata.mono hc, hi⟩

theorem PictureUpload.Picked.mono (hc : chosen ⊆ chosen') {u : PictureUpload Image Data}
    (h : u.Picked jpeg chosen) : u.Picked jpeg chosen' := ⟨hc h.mem, h.data⟩

theorem RecentViewController.mem_pictureDownloaded {cacheItem : Dict Image} {id uid : String}
    {data : Option Data} {image : Image}
    (h : (pictureDownloaded jpeg cacheItem id data)[uid]? = some image) :
    cacheItem[uid]? = some image ∨ uid = id ∧ ∃ d, data = some d ∧ jpeg.image d = some image := by
  unfold pictureDownloaded at h
  split at h
  · exact .inl h
  · rename_i image' hdata
    split_ifs at h with hnone
    · rw [Std.ExtTreeMap.getElem?_insert] at h
      split_ifs at h with hid
      · obtain rfl := Std.LawfulEqCmp.eq_of_compare hid
        obtain rfl := Option.some.inj h
        exact .inr ⟨rfl, Option.bind_eq_some_iff.1 hdata⟩
      · exact .inl h
    · exact .inl h

namespace Pictures

variable {s t : Pictures Image Data}

/-- What a download reads has been put into Storage under the account. -/
theorem mem_of_stored {n : ℕ} {uid : String} {data : Data} (h : s.stored n uid = some data) :
    (uid, data) ∈ s.storage := by
  obtain ⟨⟨uid', data'⟩, hlast, rfl⟩ := Option.map_eq_some_iff.1 h
  obtain ⟨hmem, huid⟩ := List.mem_filter.1 (List.mem_of_getLast? hlast)
  obtain rfl : uid' = uid := of_decide_eq_true huid
  exact List.mem_of_mem_take hmem

/-- What an event leads to: the app after it, what a process holds, what has been put into Storage
and what has been picked. -/
inductive Turns (init : List AppWrite) (jpeg : Jpeg Image Data) (s : Pictures Image Data) :
    Event Image → App → String → PictureCache Image Data → List (String × Data) →
      List (String × Image) → Prop
  | land {e : App.Event} {app : App} (p : String) : s.app.step init e = some app →
    Turns init jpeg s (.app e) app p (s.caches p) [] []
  | app {e : App.Event} {app : App} {p : String} (pe : Process.Event) :
    s.app.step init e = some app →
    Turns init jpeg s (.app e) app p ((s.caches p).after (s.app.process p) pe) [] []
  | imagePicked {p : String} {image : Image} {user : User} :
    (s.app.process p).device.currentUser = some user →
    Turns init jpeg s (.imagePicked p image) s.app p
      { s.caches p with uploading := (s.caches p).uploading ++
        ((jpeg.jpegData image).map (⟨user.uid, image, ·⟩)).toList } [] [(user.uid, image)]
  | put {p : String} {j : ℕ} {u : PictureUpload Image Data} :
    (s.caches p).uploading[j]? = some u →
    Turns init jpeg s (.put p j) s.app p
      { s.caches p with
        uploading := (s.caches p).uploading.eraseIdx j
        uploaded := (s.caches p).uploaded ++ [u] } [(u.uid, u.data)] []
  | uploadFailed (p : String) (j : ℕ) : Turns init jpeg s (.uploadFailed p j) s.app p
      { s.caches p with uploading := (s.caches p).uploading.eraseIdx j } [] []
  | uploadCompleted {p : String} {j : ℕ} {u : PictureUpload Image Data} {user : User} :
    (s.caches p).uploaded[j]? = some u → (s.app.process p).device.currentUser = some user →
    Turns init jpeg s (.uploadCompleted p j true) s.app p
      { s.caches p with
        uploaded := (s.caches p).uploaded.eraseIdx j
        cacheItem := (s.caches p).cacheItem.insert user.uid u.image } [] []
  | answerLost (p : String) (j : ℕ) : Turns init jpeg s (.uploadCompleted p j false) s.app p
      { s.caches p with uploaded := (s.caches p).uploaded.eraseIdx j } [] []
  | downloaded (p uid : String) (j : ℕ) (version : Option ℕ) :
    Turns init jpeg s (.downloaded p j version) s.app p
      { s.caches p with
        cacheItem := RecentViewController.pictureDownloaded jpeg (s.caches p).cacheItem uid
          (version.bind (s.stored · uid))
        downloading := (s.caches p).downloading.eraseIdx j } [] []
  | evicted (p uid : String) : Turns init jpeg s (.evicted p uid) s.app p
      { s.caches p with cacheItem := (s.caches p).cacheItem.erase uid } [] []

theorem turns_of_step {e : Event Image} (h : s.step init jpeg e = some t) :
    ∃ app p v put picked, Turns init jpeg s e app p v put picked ∧
      t = ⟨app, s.storage ++ put, Function.update s.caches p v, s.chosen ++ picked⟩ := by
  have hnil : ∀ {app : App} {caches : String → PictureCache Image Data},
      some (⟨app, s.storage, caches, s.chosen⟩ : Pictures Image Data) = some t →
      t = ⟨app, s.storage ++ [], caches, s.chosen ++ []⟩ := by
    intro app caches h
    rw [List.append_nil, List.append_nil]
    exact (Option.some.inj h).symm
  cases e with
  | app e =>
    obtain ⟨app, happ, h⟩ := Option.bind_eq_some_iff.1 h
    cases htaken : s.app.taken init e with
    | none =>
      simp only [htaken] at h
      refine ⟨app, "", _, [], [], .land "" happ, ?_⟩
      rw [Function.update_eq_self]
      exact hnil h
    | some taken =>
      simp only [htaken] at h
      exact ⟨app, taken.1, _, [], [], .app taken.2 happ, hnil h⟩
  | imagePicked p image =>
    obtain ⟨upload, hu, h⟩ := Option.bind_eq_some_iff.1 h
    obtain ⟨user, huser, rfl⟩ := Option.map_eq_some_iff.1 hu
    refine ⟨s.app, p, _, [], _, .imagePicked huser, ?_⟩
    rw [huser] at h
    rw [List.append_nil]
    exact (Option.some.inj h).symm
  | put p j =>
    obtain ⟨u, hu, h⟩ := Option.bind_eq_some_iff.1 h
    refine ⟨s.app, p, _, _, [], .put hu, ?_⟩
    rw [List.append_nil]
    exact (Option.some.inj h).symm
  | uploadFailed p j =>
    simp only [step] at h
    split_ifs at h
    exact ⟨s.app, p, _, [], [], .uploadFailed p j, hnil h⟩
  | uploadCompleted p j ok =>
    obtain ⟨u, hu, h⟩ := Option.bind_eq_some_iff.1 h
    cases ok with
    | false => exact ⟨s.app, p, _, [], [], .answerLost p j, hnil h⟩
    | true =>
      obtain ⟨cacheItem, hc, h⟩ := Option.bind_eq_some_iff.1 h
      obtain ⟨user, huser, rfl⟩ := Option.map_eq_some_iff.1 hc
      exact ⟨s.app, p, _, [], [], .uploadCompleted hu huser, hnil h⟩
  | downloaded p j version =>
    obtain ⟨uid, -, h⟩ := Option.bind_eq_some_iff.1 h
    exact ⟨s.app, p, _, [], [], .downloaded p uid j version, hnil h⟩
  | evicted p uid => exact ⟨s.app, p, _, [], [], .evicted p uid, hnil h⟩

/-- The app takes the events that are its own. -/
theorem app_of_step {e : Event Image} (h : s.step init jpeg e = some t) :
    (∃ ae, e = .app ae ∧ s.app.step init ae = some t.app) ∨
      (∀ ae, e ≠ .app ae) ∧ t.app = s.app := by
  obtain ⟨app, p, v, put, picked, hturns, rfl⟩ := turns_of_step h
  cases hturns with
  | land p happ | app pe happ => exact .inl ⟨_, rfl, happ⟩
  | _ => exact .inr ⟨fun ae he => (by cases he), rfl⟩

variable (jpeg) in
/-- What is in Storage, or on its way there, has been picked by the account it is under. -/
structure Kept (s : Pictures Image Data) : Prop where
  storage : ∀ x ∈ s.storage, IsData jpeg s.chosen x.1 x.2
  uploading : ∀ p, ∀ u ∈ (s.caches p).uploading, u.Picked jpeg s.chosen
  uploaded : ∀ p, ∀ u ∈ (s.caches p).uploaded, u.Picked jpeg s.chosen

variable (jpeg) in
/-- Every picture of the caches is its account's own. -/
def Owned (s : Pictures Image Data) : Prop :=
  ∀ p uid image, (s.caches p).cacheItem[uid]? = some image → Own jpeg s.chosen uid image

variable (jpeg) in
/-- The completion of an upload finds an account signed in whose own picture it is. -/
def FindsOwner (s : Pictures Image Data) : Event Image → Prop
  | .uploadCompleted p j true => ∀ u user, (s.caches p).uploaded[j]? = some u →
      (s.app.process p).device.currentUser = some user → Own jpeg s.chosen user.uid u.image
  | _ => True

/-- The completion of an upload finds an account signed in that has picked the picture. -/
def FindsPicker [DecidableEq Image] (s : Pictures Image Data) : Event Image → Bool
  | .uploadCompleted p j true => (s.caches p).uploaded[j]?.all fun u =>
      (s.app.process p).device.currentUser.all fun user => (user.uid, u.image) ∈ s.chosen
  | _ => true

theorem FindsPicker.findsOwner [DecidableEq Image] {e : Event Image} (h : s.FindsPicker e = true) :
    s.FindsOwner jpeg e := by
  unfold FindsOwner
  split
  · intro u user hu huser
    simp only [FindsPicker, hu, huser, Option.all_some, decide_eq_true_eq] at h
    exact .inl h
  · trivial

theorem kept_start : (start : Pictures Image Data).Kept jpeg where
  storage _ h := (List.not_mem_nil h).elim
  uploading _ _ h := (List.not_mem_nil h).elim
  uploaded _ _ h := (List.not_mem_nil h).elim

theorem owned_start : (start : Pictures Image Data).Owned jpeg := fun _ uid _ h => by
  simp [start] at h

/-- What the uploads of a process become. -/
theorem Turns.uploads {e : Event Image} {p : String} {v : PictureCache Image Data}
    {put : List (String × Data)} {picked : List (String × Image)}
    {app : App} (h : Turns init jpeg s e app p v put picked) (hK : s.Kept jpeg) :
    (∀ u ∈ v.uploading, u.Picked jpeg (s.chosen ++ picked)) ∧
      (∀ u ∈ v.uploaded, u.Picked jpeg (s.chosen ++ picked)) ∧
      ∀ x ∈ put, IsData jpeg (s.chosen ++ picked) x.1 x.2 := by
  have hmono : s.chosen ⊆ s.chosen ++ picked := List.subset_append_left _ _
  have hing : ∀ u ∈ (s.caches p).uploading, u.Picked jpeg (s.chosen ++ picked) :=
    fun u hu => (hK.uploading p u hu).mono hmono
  have hed : ∀ u ∈ (s.caches p).uploaded, u.Picked jpeg (s.chosen ++ picked) :=
    fun u hu => (hK.uploaded p u hu).mono hmono
  have hnone : ∀ x ∈ ([] : List (String × Data)), IsData jpeg (s.chosen ++ picked) x.1 x.2 :=
    fun x hx => (List.not_mem_nil hx).elim
  cases h with
  | land | app | downloaded | evicted => exact ⟨hing, hed, hnone⟩
  | @imagePicked _ image user huser =>
    refine ⟨fun u hu => ?_, hed, hnone⟩
    rcases List.mem_append.1 hu with hu | hu
    · exact hing u hu
    · obtain ⟨data, hdata, rfl⟩ := Option.map_eq_some_iff.1 (Option.mem_toList.1 hu)
      exact ⟨List.mem_append_right _ (List.mem_singleton_self _), hdata⟩
  | @put _ j u hj =>
    have hu := hing u (List.mem_of_getElem? hj)
    refine ⟨fun u' hu' => hing u' (List.mem_of_mem_eraseIdx hu'), fun u' hu' => ?_, fun x hx => ?_⟩
    · rcases List.mem_append.1 hu' with hu' | hu'
      · exact hed u' hu'
      · exact List.mem_singleton.1 hu' ▸ hu
    · obtain rfl := List.mem_singleton.1 hx
      exact ⟨u.image, hu.mem, hu.data⟩
  | uploadFailed => exact ⟨fun u hu => hing u (List.mem_of_mem_eraseIdx hu), hed, hnone⟩
  | uploadCompleted | answerLost =>
    exact ⟨hing, fun u hu => hed u (List.mem_of_mem_eraseIdx hu), hnone⟩

theorem Kept.step (hK : s.Kept jpeg) {e : Event Image} (h : s.step init jpeg e = some t) :
    t.Kept jpeg := by
  obtain ⟨app, p, v, put, picked, hturns, rfl⟩ := turns_of_step h
  have hmono : s.chosen ⊆ s.chosen ++ picked := List.subset_append_left _ _
  obtain ⟨hing, hed, hput⟩ := hturns.uploads hK
  constructor
  · intro x hx
    rcases List.mem_append.1 hx with hx | hx
    · exact (hK.storage x hx).mono hmono
    · exact hput x hx
  · intro p' u hu
    by_cases hp : p' = p
    · subst hp
      exact hing u (by simpa using hu)
    · simp only [Function.update_of_ne hp] at hu
      exact (hK.uploading p' u hu).mono hmono
  · intro p' u hu
    by_cases hp : p' = p
    · subst hp
      exact hed u (by simpa using hu)
    · simp only [Function.update_of_ne hp] at hu
      exact (hK.uploaded p' u hu).mono hmono

/-- A picture that comes into a cache has come out of Storage, or is an upload that has completed,
under the account that is signed in. -/
theorem Turns.cached {e : Event Image} {p : String} {v : PictureCache Image Data}
    {put : List (String × Data)} {picked : List (String × Image)}
    {app : App} (h : Turns init jpeg s e app p v put picked) {uid : String} {image : Image}
    (hv : v.cacheItem[uid]? = some image) :
    (s.caches p).cacheItem[uid]? = some image ∨
    (∃ data, (uid, data) ∈ s.storage ∧ jpeg.image data = some image) ∨
    ∃ j u user, e = .uploadCompleted p j true ∧ (s.caches p).uploaded[j]? = some u ∧
      (s.app.process p).device.currentUser = some user ∧ user.uid = uid ∧ u.image = image := by
  cases h with
  | land | imagePicked | put | uploadFailed | answerLost => exact .inl hv
  | @app _ _ pe =>
    left
    simp only [PictureCache.after] at hv
    split at hv
    · simp at hv
    · exact hv
  | @uploadCompleted _ j u user hu huser =>
    rw [Std.ExtTreeMap.getElem?_insert] at hv
    split_ifs at hv with hid
    · exact .inr (.inr ⟨j, u, user, rfl, hu, huser, Std.LawfulEqCmp.eq_of_compare hid,
        Option.some.inj hv⟩)
    · exact .inl hv
  | downloaded version =>
    rcases RecentViewController.mem_pictureDownloaded hv with hv | ⟨rfl, data, hd, himage⟩
    · exact .inl hv
    · obtain ⟨n, -, hstored⟩ := Option.bind_eq_some_iff.1 hd
      exact .inr (.inl ⟨data, mem_of_stored hstored, himage⟩)
  | evicted p uid' =>
    rw [Std.ExtTreeMap.getElem?_erase] at hv
    split_ifs at hv
    exact .inl hv

/-- A step keeps the caches' pictures their accounts' own exactly if it finds the account. -/
theorem owned_step_iff (hK : s.Kept jpeg) (hO : s.Owned jpeg) {e : Event Image}
    (h : s.step init jpeg e = some t) : t.Owned jpeg ↔ s.FindsOwner jpeg e := by
  obtain ⟨app, p, v, put, picked, hturns, rfl⟩ := turns_of_step h
  have hmono : s.chosen ⊆ s.chosen ++ picked := List.subset_append_left _ _
  constructor
  · intro hO'
    cases hturns with
    | @uploadCompleted _ j u user hu huser =>
      intro u' user' hu' huser'
      obtain rfl := Option.some.inj (hu.symm.trans hu')
      obtain rfl := Option.some.inj (huser.symm.trans huser')
      simpa using hO' p user.uid u.image (by simp)
    | _ => trivial
  · intro hF p' uid image hc
    by_cases hp : p' = p
    · subst hp
      simp only [Function.update_self] at hc
      rcases hturns.cached hc with hc | ⟨data, hdata, himage⟩ |
        ⟨j, u, user, rfl, hu, huser, rfl, rfl⟩
      · exact (hO p' uid image hc).mono hmono
      · exact .inr ⟨data, (hK.storage _ hdata).mono hmono, himage⟩
      · exact (hF u user hu huser).mono hmono
    · simp only [Function.update_of_ne hp] at hc
      exact (hO p' uid image hc).mono hmono

/-- In every run, what is in Storage under an account, what is on its way there, and what is there
and has yet to complete, has been picked by the account; and the pictures of the caches are their
accounts' own all along exactly when every completed upload finds an account signed in whose own
picture it is. -/
theorem pictures_own_iff {es : List (Event Image)}
    (h : EventRun.run (step init jpeg) start es = some s) :
    ((∀ x ∈ s.storage, IsData jpeg s.chosen x.1 x.2) ∧
      (∀ p, ∀ u ∈ (s.caches p).uploading, u.Picked jpeg s.chosen) ∧
      ∀ p, ∀ u ∈ (s.caches p).uploaded, u.Picked jpeg s.chosen) ∧
    (EventRun.Passes (step init jpeg) (fun _ s => s.Owned jpeg) start es ↔
      EventRun.Meets (step init jpeg) (fun _ s e => s.FindsOwner jpeg e) start es) := by
  have hkept : ∀ {es : List (Event Image)} {s : Pictures Image Data},
      EventRun.run (step init jpeg) start es = some s → s.Kept jpeg :=
    EventRun.run_invariant _ (fun _ _ _ hK hs => hK.step hs) kept_start
  have hK := hkept h
  refine ⟨⟨hK.storage, hK.uploading, hK.uploaded⟩, ?_⟩
  exact EventRun.passes_iff_meets _ owned_start
    (fun es m e t hm hO hs => owned_step_iff (hkept hm) hO hs) h

/-- Pictures go unchanged. -/
def plain : Jpeg String String := ⟨some, some⟩

/-- `a` picks two pictures and signs out; the upload of the first completes after `b` has signed in,
that of the second has yet to reach Storage. -/
def handedOver : List (Event String) :=
  [.app (.on "p" (.chat (.signIn { uid := "a", email := some "a@x" }))), .imagePicked "p" "cat",
    .put "p" 0, .imagePicked "p" "dog", .app (.on "p" (.chat .signoutClick)),
    .app (.on "p" (.chat (.signIn { uid := "b", email := some "b@x" }))),
    .uploadCompleted "p" 0 true]

theorem pictures_own_iff_handedOver : ∃ s, EventRun.run (step [] plain) start handedOver = some s ∧
    (∀ x ∈ s.storage, IsData plain s.chosen x.1 x.2) ∧
    (∀ p, ∀ u ∈ (s.caches p).uploading, u.Picked plain s.chosen) ∧
    ¬ EventRun.Meets (step [] plain) (fun _ s e => s.FindsOwner plain e) start handedOver := by
  obtain ⟨s, hs⟩ := Option.isSome_iff_exists.1
    (by decide +kernel : (EventRun.run (step [] plain) start handedOver).isSome)
  have hb : ∀ s ∈ EventRun.run (step [] plain) start handedOver,
      (s.caches "p").cacheItem["b"]? = some "cat" ∧ s.chosen = [("a", "cat"), ("a", "dog")] := by
    decide +kernel
  obtain ⟨hcached, hchosen⟩ := hb s hs
  obtain ⟨⟨hstorage, huploading, -⟩, hiff⟩ := pictures_own_iff hs
  refine ⟨s, hs, hstorage, huploading, fun hmeets => ?_⟩
  have howned : s.Owned plain := (hiff.2 hmeets).last _ hs
  have hown : Own plain s.chosen "b" "cat" := howned "p" "b" "cat" hcached
  rw [hchosen] at hown
  simp [Own, IsData] at hown

end Pictures

end MessageApp
