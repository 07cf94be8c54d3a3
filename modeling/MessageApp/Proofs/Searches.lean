import MessageApp.Proofs.Wrote
import MessageApp.Searches

/-!
# Whom a search leads to

What a search lists are accounts that have signed up under the name it was for, and a name and an
account stay together on their way through the cells, the selection and the profile
(`Traced.of_turns`). So whoever is asked has been searched for by the name they signed up with
(`asked_by_name`), and a profile says that a request is on its way only if there has been one
(`requesting_was_asked`).
-/

namespace MessageApp

theorem mem_of_mem_modify {α : Type*} {l : List α} {i : ℕ} {f : α → α} {a : α}
    (h : a ∈ l.modify i f) : a ∈ l ∨ ∃ b, l[i]? = some b ∧ a = f b := by
  obtain ⟨j, hj⟩ := List.mem_iff_getElem?.1 h
  rw [List.getElem?_modify] at hj
  obtain ⟨b, hb, rfl⟩ := Option.map_eq_some_iff.1 hj
  split_ifs with hij
  · exact .inr ⟨b, hij ▸ hb, rfl⟩
  · exact .inl (List.mem_of_getElem? hb)

namespace App

variable {init : List AppWrite} {w w' : App} {e : Event} {p other : String}

theorem encoded_subset_of_step (h : w.step init e = some w') : w.encoded ⊆ w'.encoded := by
  rcases step_cases h with ⟨c', net, -, -, rfl⟩ | ⟨p, pe, q, ws, -, -, rfl⟩
  · exact fun _ h => h
  · exact List.subset_append_left _ _

/-- A request is encoded by a press of `sendFriendRequest` alone, for the account signed in. -/
theorem request_of_step (h : w.step init e = some w') {author name other : String}
    (hr : .request author name other ∈ w'.encoded) :
    .request author name other ∈ w.encoded ∨ ∃ p user, e = .on p (.sendFriendRequest other) ∧
      (w.process p).device.currentUser = some user ∧ user.uid = author ∧
      user.displayName = some name := by
  rcases step_cases h with ⟨c', net, -, -, rfl⟩ | ⟨p, pe, q, ws, hpe, -, rfl⟩
  · exact .inl hr
  · rcases List.mem_append.1 hr with hr | hr
    · exact .inl hr
    · cases Process.mem_encodes_iff.1 hr with
      | request hu hname hne =>
        cases hpe with
        | on _ => exact .inr ⟨p, _, rfl, hu, rfl, hname⟩
        | deliver hq => cases Query.shows_of_callback hq

/-- What an event writes into the document of an account is written by the sign-up. -/
theorem Delivers.signupClick {p : String} {pe : Process.Event} {x : AppWrite} {id : String}
    (hpe : Delivers init w e p pe) (h : (w.process p).Wrote pe (.user id) x) :
    ∃ name, e = .on p (.signupClick id name) ∧ x = .write (.setData (.user id)
      (.ofList [("email", Value.string name), ("username", Value.string name)]) false) := by
  cases h with
  | account _ email =>
    cases hpe with
    | on _ => exact ⟨email, rfl, rfl⟩
    | deliver hq => cases Query.shows_of_callback hq
  | chat _ hchat => exact hchat.elim

/-- Who presses `sendFriendRequest` asks the other, unless they are the other. -/
theorem request_encoded (h : w.step init (.on p (.sendFriendRequest other)) = some w') {user : User}
    (hu : (w.process p).device.currentUser = some user) (hne : user.uid ≠ other) :
    ∃ name, .request user.uid name other ∈ w'.encoded := by
  rcases step_cases h with ⟨_, _, he, -⟩ | ⟨p', pe, q, ws, hpe, heff, rfl⟩
  · cases he
  cases hpe with
  | on _ =>
    cases heff with
    | sendFriendRequest hws =>
      rw [hu] at hws
      simp only [MessageApp.sendFriendRequest, Option.bind_eq_bind, Option.bind_some] at hws
      rw [if_pos hne] at hws
      obtain ⟨name, hname, -⟩ := Option.bind_eq_some_iff.1 hws
      exact ⟨name, List.mem_append_right _ (Process.mem_encodes_iff.2 (.request hu hname hne))⟩

/-- A press of `sendFriendRequest` alone writes the document of a request that one sent. -/
theorem wrote_request {p : String} {pe : Process.Event} {x : AppWrite} {a b : String}
    (h : (w.process p).Wrote pe (.friendRequestTo a b) x) :
    (∀ doc, DocWrite.act x doc = none) ∨
      ∃ name, .request a name b ∈ (w.process p).encodes pe := by
  cases h with
  | answer => exact .inl fun _ => rfl
  | request data hu hname hne =>
    obtain ⟨name, hname⟩ := Option.isSome_iff_exists.1 hname
    exact .inr ⟨name, Process.mem_encodes_iff.2 (.request hu hname hne)⟩
  | chat _ hchat => exact hchat.elim

end App

namespace Searches

variable {init : List AppWrite} {s t : Searches}

/-- What an event leads to: the app after it, and the screens of one process. -/
inductive Turns (init : List AppWrite) (s : Searches) :
    Event → App → String → SearchScreens → Prop
  | app {e : App.Event} {app : App} (p : String) : leftToApp e = true →
    s.app.step init e = some app → Turns init s (.app e) app p (s.screens p)
  | addNewFriendClicked (p text : String) : Turns init s (.addNewFriendClicked p text) s.app p
      { s.screens p with searching := (s.screens p).searching ++ [text] }
  | searchFailed {p : String} {j : ℕ} : Turns init s (.searchCompleted p j none) s.app p
      { s.screens p with searching := (s.screens p).searching.eraseIdx j }
  | searchCompleted {p text : String} {j n m : ℕ} {result : SearchResult} :
    (s.screens p).searching[j]? = some text →
    RecentViewController.searchCompleted (found (s.app.seen init (s.app.account p) n m) text) =
      some result →
    Turns init s (.searchCompleted p j (some (n, m))) s.app p
      { s.screens p with
        searching := (s.screens p).searching.eraseIdx j
        searchResult := result
        resultSegues := (s.screens p).resultSegues + 1 }
  | resultsDidLoad {p : String} : Turns init s (.resultsDidLoad p) s.app p
      { s.screens p with
        tables := (s.screens p).tables ++
          [SearchResultViewController.numberOfRowsInSection (s.screens p).searchResult]
        resultSegues := (s.screens p).resultSegues - 1 }
  | cellForRowAt {p : String} {table row : ℕ} {cell : SearchInformation} :
    SearchResultViewController.cellForRowAt (s.screens p).searchResult row = some cell →
    Turns init s (.cellForRowAt p table row) s.app p
      { s.screens p with cells := (s.screens p).cells ++ [cell] }
  | didSelectRowAt {p : String} {cell : ℕ} {tablecell : SearchInformation} :
    (s.screens p).cells[cell]? = some tablecell →
    Turns init s (.didSelectRowAt p cell) s.app p
      { s.screens p with
        searchInformation := tablecell, profileSegues := (s.screens p).profileSegues + 1 }
  | profileDidLoad {p : String} : 0 < (s.screens p).profileSegues →
    Turns init s (.profileDidLoad p) s.app p
      { s.screens p with
        profiles := (s.screens p).profiles ++ [.viewDidLoad (s.screens p).searchInformation]
        profileSegues := (s.screens p).profileSegues - 1 }
  | viewWillAppear {p : String} {i : ℕ} {myUser : User} :
    (s.app.process p).device.currentUser = some myUser → Turns init s (.viewWillAppear p i) s.app p
      { s.screens p with fetching := (s.screens p).fetching ++ [(i, myUser.uid)] }
  | requestFetched {p uid : String} {j i : ℕ} {version : Option (ℕ × ℕ)} {document : Option Doc} :
    (s.screens p).fetching[j]? = some (i, uid) →
    (document.isSome → ∃ n m self, (s.screens p).profiles[i]? = some self ∧
      document =
        docs (s.app.seen init (p, some uid) n m) (.friendRequestTo uid self.searchWithId)) →
    Turns init s (.requestFetched p j version) s.app p
      { s.screens p with
        profiles := (s.screens p).profiles.modify i (·.requestFetched document)
        fetching := (s.screens p).fetching.eraseIdx j }
  | sendFriendRequest {p : String} {i : ℕ} {self : SearchResultProfileViewController}
    {myUser : User} {app : App} : (s.screens p).profiles[i]? = some self →
    (s.app.process p).device.currentUser = some myUser →
    s.app.step init (.on p (.sendFriendRequest self.searchWithId)) = some app →
    Turns init s (.sendFriendRequest p i) app p
      (if myUser.uid ≠ self.searchWithId then
        { s.screens p with sending := (s.screens p).sending ++ [(i, myUser.uid)] }
      else s.screens p)
  | requestFailed {p : String} {j : ℕ} : Turns init s (.requestWritten p j false) s.app p
      { s.screens p with sending := (s.screens p).sending.eraseIdx j }
  | requestWritten {p uid : String} {j i : ℕ} : (s.screens p).sending[j]? = some (i, uid) →
    Turns init s (.requestWritten p j true) s.app p
      { s.screens p with
        profiles := (s.screens p).profiles.modify i (·.requestWritten)
        sending := (s.screens p).sending.eraseIdx j }

theorem turns_of_step {e : Event} (h : s.step init e = some t) :
    ∃ app p v, Turns init s e app p v ∧ t = ⟨app, Function.update s.screens p v⟩ := by
  cases e with
  | app e =>
    simp only [step] at h
    split_ifs at h with he
    obtain ⟨app, happ, h⟩ := Option.bind_eq_some_iff.1 h
    refine ⟨app, "", _, .app "" he happ, ?_⟩
    rw [Function.update_eq_self]
    exact (Option.some.inj h).symm
  | addNewFriendClicked p text =>
    exact ⟨_, p, _, .addNewFriendClicked p text, (Option.some.inj h).symm⟩
  | searchCompleted p j version =>
    obtain ⟨text, hj, h⟩ := Option.bind_eq_some_iff.1 h
    cases version with
    | none => exact ⟨_, p, _, .searchFailed, (Option.some.inj h).symm⟩
    | some version =>
      obtain ⟨result, hr, h⟩ := Option.bind_eq_some_iff.1 h
      exact ⟨_, p, _, .searchCompleted hj hr, (Option.some.inj h).symm⟩
  | resultsDidLoad p =>
    simp only [step] at h
    split_ifs at h
    exact ⟨_, p, _, .resultsDidLoad, (Option.some.inj h).symm⟩
  | cellForRowAt p table row =>
    obtain ⟨rows, -, h⟩ := Option.bind_eq_some_iff.1 h
    split_ifs at h
    obtain ⟨cell, hcell, h⟩ := Option.bind_eq_some_iff.1 h
    exact ⟨_, p, _, .cellForRowAt hcell, (Option.some.inj h).symm⟩
  | didSelectRowAt p cell =>
    obtain ⟨tablecell, hcell, h⟩ := Option.bind_eq_some_iff.1 h
    exact ⟨_, p, _, .didSelectRowAt hcell, (Option.some.inj h).symm⟩
  | profileDidLoad p =>
    simp only [step] at h
    split_ifs at h with hs
    exact ⟨_, p, _, .profileDidLoad hs, (Option.some.inj h).symm⟩
  | viewWillAppear p i =>
    obtain ⟨myUser, hu, h⟩ := Option.bind_eq_some_iff.1 h
    split_ifs at h
    exact ⟨_, p, _, .viewWillAppear hu, (Option.some.inj h).symm⟩
  | requestFetched p j version =>
    obtain ⟨⟨i, uid⟩, hj, h⟩ := Option.bind_eq_some_iff.1 h
    refine ⟨_, p, _, .requestFetched hj fun hsome => ?_, (Option.some.inj h).symm⟩
    obtain ⟨document, hdocument⟩ := Option.isSome_iff_exists.1 hsome
    obtain ⟨⟨n, m⟩, -, hv⟩ := Option.bind_eq_some_iff.1 hdocument
    obtain ⟨self, hself, hv⟩ := Option.bind_eq_some_iff.1 hv
    exact ⟨n, m, self, hself, hdocument.trans hv.symm⟩
  | sendFriendRequest p i =>
    obtain ⟨self, hi, h⟩ := Option.bind_eq_some_iff.1 h
    obtain ⟨myUser, hu, h⟩ := Option.bind_eq_some_iff.1 h
    obtain ⟨app, happ, h⟩ := Option.bind_eq_some_iff.1 h
    exact ⟨app, p, _, .sendFriendRequest hi hu happ, (Option.some.inj h).symm⟩
  | requestWritten p j ok =>
    obtain ⟨⟨i, uid⟩, hj, h⟩ := Option.bind_eq_some_iff.1 h
    obtain ⟨self, -, h⟩ := Option.bind_eq_some_iff.1 h
    cases ok with
    | false =>
      simp only [Bool.false_eq_true, if_false] at h
      split_ifs at h
      exact ⟨_, p, _, .requestFailed, (Option.some.inj h).symm⟩
    | true =>
      simp only [if_true] at h
      split_ifs at h
      exact ⟨_, p, _, .requestWritten hj, (Option.some.inj h).symm⟩

/-- The app stays, or takes an event that is left to it, or the request of a profile. -/
theorem Turns.app_cases {e : Event} {app : App} {p : String} {v : SearchScreens}
    (h : Turns init s e app p v) :
    app = s.app ∨
    (∃ ae, e = .app ae ∧ leftToApp ae = true ∧ s.app.step init ae = some app) ∨
    ∃ i self, e = .sendFriendRequest p i ∧ (s.screens p).profiles[i]? = some self ∧
      s.app.step init (.on p (.sendFriendRequest self.searchWithId)) = some app := by
  cases h with
  | app _ he happ => exact .inr (.inl ⟨_, rfl, he, happ⟩)
  | sendFriendRequest hi _ happ => exact .inr (.inr ⟨_, _, rfl, hi, happ⟩)
  | _ => exact .inl rfl

/-! ## Whom a profile is of -/

/-- The account has signed up under the name. -/
def SignedUp (es : List Event) (id name : String) : Prop :=
  ∃ p, .app (.on p (.signupClick id name)) ∈ es

/-- The process has searched for the name, under which the account has signed up. -/
structure Found (es : List Event) (p : String) (a : SearchInformation) : Prop where
  searched : .addNewFriendClicked p a.nameofChat ∈ es
  signedUp : SignedUp es a.idofChat a.nameofChat

theorem SignedUp.mono {es : List Event} {id name : String} (h : SignedUp es id name)
    (fs : List Event) : SignedUp (es ++ fs) id name :=
  h.imp fun _ hp => List.mem_append_left _ hp

theorem Found.mono {es : List Event} {p : String} {a : SearchInformation} (h : Found es p a)
    (fs : List Event) : Found (es ++ fs) p a :=
  ⟨List.mem_append_left _ h.searched, h.signedUp.mono fs⟩

/-- The document of an account, as the sign-up writes it. -/
def userDoc (name : String) : Doc :=
  .ofList [("email", Value.string name), ("username", Value.string name)]

/-- A name and an account that are on the screens together have been searched for and found. -/
structure ScreensTraced (es : List Event) (p : String) (v : SearchScreens) : Prop where
  searching : ∀ text ∈ v.searching, .addNewFriendClicked p text ∈ es
  result : ∀ row cell, SearchResultViewController.cellForRowAt v.searchResult row = some cell →
    Found es p cell
  cells : ∀ a ∈ v.cells, Found es p a
  selected : 0 < v.profileSegues → Found es p v.searchInformation
  profiles : ∀ a ∈ v.profiles, Found es p ⟨a.usernameLabel, a.searchWithId⟩

/-- The profile shows the name `email` and is of the account `other`, and the account signed in at
its process is `author`, who is called `name`. -/
structure Asks (s : Searches) (p : String) (i : ℕ) (author name other email : String) : Prop where
  profile : ∃ self, (s.screens p).profiles[i]? = some self ∧ self.searchWithId = other ∧
    self.usernameLabel = email
  signedIn : ∃ user, (s.app.process p).device.currentUser = some user ∧ user.uid = author ∧
    user.displayName = some name

/-- The request was sent from a profile that asks it, found by the name it shows. -/
def SentFrom (init : List AppWrite) (es : List Event) (author name other : String) : Prop :=
  ∃ pre p i post m email, es = pre ++ .sendFriendRequest p i :: post ∧
    EventRun.run (step init) start pre = some m ∧ m.Asks p i author name other email ∧
    Found pre p ⟨email, other⟩

theorem SentFrom.mono {es : List Event} {author name other : String}
    (h : SentFrom init es author name other) (fs : List Event) :
    SentFrom init (es ++ fs) author name other := by
  obtain ⟨pre, p, i, post, m, email, rfl, hasks⟩ := h
  exact ⟨pre, p, i, post ++ fs, m, email, by simp, hasks⟩

structure Traced (init : List AppWrite) (es : List Event) (s : Searches) : Prop where
  users : ∀ c, ∀ x ∈ s.app.net.issued c, ∀ id, DocWrite.path x = .user id →
    ∃ name, SignedUp es id name ∧ x = .write (.setData (.user id) (userDoc name) false)
  screens : ∀ p, ScreensTraced es p (s.screens p)
  requests : ∀ author name other, .request author name other ∈ s.app.encoded →
    SentFrom init es author name other

theorem ScreensTraced.mono {es : List Event} {p : String} {v : SearchScreens}
    (h : ScreensTraced es p v) (fs : List Event) : ScreensTraced (es ++ fs) p v where
  searching text ht := List.mem_append_left _ (h.searching text ht)
  result row cell hc := (h.result row cell hc).mono fs
  cells a ha := (h.cells a ha).mono fs
  selected hs := (h.selected hs).mono fs
  profiles a ha := (h.profiles a ha).mono fs

theorem screensTraced_start (p : String) : ScreensTraced [] p {} where
  searching _ h := (List.not_mem_nil h).elim
  result _ _ h := by simp [SearchResultViewController.cellForRowAt] at h
  cells _ h := (List.not_mem_nil h).elim
  selected h := (lt_irrefl 0 h).elim
  profiles _ h := (List.not_mem_nil h).elim

theorem username_userDoc (name : String) : (userDoc name)["username"]? = some (.string name) :=
  Doc.getElem?_ofList_pair (by decide) (by simp)

/-- A query never traps: all that it finds has the name it is for. -/
theorem searchCompleted_found (ws : List AppWrite) (text : String) :
    RecentViewController.searchCompleted (found ws text) =
      some ⟨(found ws text).map fun _ => text, (found ws text).map Prod.fst⟩ := by
  have hname : ∀ d ∈ found ws text, d.2["username"]? = some (.string text) :=
    fun d hd => of_decide_eq_true (List.mem_filter.1 hd).2
  unfold RecentViewController.searchCompleted
  have hmap : (found ws text).mapM (fun d => do (← d.2["username"]?).string?) =
      some ((found ws text).map fun _ => text) := by
    generalize found ws text = documents at hname
    induction documents with
    | nil => rfl
    | cons d documents ih =>
      rw [List.mapM_cons, hname d List.mem_cons_self,
        ih fun d' hd' => hname d' (List.mem_cons_of_mem _ hd')]
      rfl
  rw [hmap]
  rfl

/-- What a snapshot has of an account, it wrote when it signed up. -/
theorem Traced.signedUp {es : List Event} (hT : Traced init es s)
    (hinit : ∀ x ∈ init, ∀ id, DocWrite.path x ≠ .user id) {c : String × Option String} {n m : ℕ}
    {id : String} {doc : Doc} (h : docs (s.app.seen init c n m) (.user id) = some doc) :
    ∃ name, SignedUp es id name ∧ doc = userDoc name := by
  refine DocWrite.replay_keeps_some (I := fun doc => ∃ name, SignedUp es id name ∧
    doc = userDoc name) rfl (fun x hx hp d _ doc hd => ?_) h
  rcases App.mem_seen hx with hx | ⟨c', hx⟩
  · exact absurd hp (hinit x hx id)
  · obtain ⟨name, hname, rfl⟩ := hT.users c' x hx id hp
    exact ⟨name, hname, (Option.some.inj hd).symm⟩

/-- What a search lists has signed up under the name it is for. -/
theorem Traced.found {es : List Event} (hT : Traced init es s)
    (hinit : ∀ x ∈ init, ∀ id, DocWrite.path x ≠ .user id) {c : String × Option String} {n m : ℕ}
    {text : String} {d : String × Doc} (h : d ∈ found (s.app.seen init c n m) text) :
    SignedUp es d.1 text := by
  obtain ⟨hd, hname⟩ := List.mem_filter.1 h
  obtain ⟨name, hsigned, hdoc⟩ := hT.signedUp hinit (mem_collection hd)
  rw [decide_eq_true_eq, hdoc, username_userDoc, Option.some.injEq, Value.string.injEq] at hname
  exact hname ▸ hsigned

theorem Traced.screens_of_turns {es : List Event} {e : Event} {app : App} {p : String}
    {v : SearchScreens} (hT : Traced init es s)
    (hinit : ∀ x ∈ init, ∀ id, DocWrite.path x ≠ .user id) (h : Turns init s e app p v) :
    ScreensTraced (es ++ [e]) p v := by
  have hs := (hT.screens p).mono [e]
  cases h with
  | app _ _ _ => exact hs
  | addNewFriendClicked _ text =>
    refine { hs with searching := fun text' ht => ?_ }
    rcases List.mem_append.1 ht with ht | ht
    · exact hs.searching text' ht
    · rw [List.mem_singleton.1 ht]
      simp
  | searchFailed =>
    exact { hs with searching := fun text ht => hs.searching text (List.mem_of_mem_eraseIdx ht) }
  | @searchCompleted _ text j n m result hj hr =>
    refine { hs with
      searching := fun text ht => hs.searching text (List.mem_of_mem_eraseIdx ht)
      result := fun row cell hcell => ?_ }
    rw [searchCompleted_found, Option.some.injEq] at hr
    subst hr
    obtain ⟨name, hname, hcell⟩ := Option.bind_eq_some_iff.1 hcell
    obtain ⟨id, hid, hcell⟩ := Option.bind_eq_some_iff.1 hcell
    obtain rfl := Option.some.inj hcell
    rw [List.getElem?_map] at hname hid
    obtain ⟨d, hd, rfl⟩ := Option.map_eq_some_iff.1 hid
    rw [hd] at hname
    obtain rfl := Option.some.inj hname
    exact ⟨hs.searching _ (List.mem_of_getElem? hj),
      (hT.found hinit (List.mem_of_getElem? hd)).mono [_]⟩
  | resultsDidLoad => exact { hs with }
  | cellForRowAt hcell =>
    refine { hs with cells := fun a ha => ?_ }
    rcases List.mem_append.1 ha with ha | ha
    · exact hs.cells a ha
    · rw [List.mem_singleton.1 ha]
      exact hs.result _ _ hcell
  | didSelectRowAt hcell =>
    exact { hs with selected := fun _ => hs.cells _ (List.mem_of_getElem? hcell) }
  | profileDidLoad hpos =>
    refine { hs with selected := fun _ => hs.selected hpos, profiles := fun a ha => ?_ }
    rcases List.mem_append.1 ha with ha | ha
    · exact hs.profiles a ha
    · rw [List.mem_singleton.1 ha]
      exact hs.selected hpos
  | viewWillAppear _ => exact { hs with }
  | requestFetched _ _ =>
    refine { hs with profiles := fun a ha => ?_ }
    rcases mem_of_mem_modify ha with ha | ⟨b, hb, rfl⟩
    · exact hs.profiles a ha
    · exact hs.profiles b (List.mem_of_getElem? hb)
  | sendFriendRequest _ _ _ =>
    split_ifs
    · exact { hs with }
    · exact hs
  | requestFailed => exact { hs with }
  | requestWritten _ =>
    refine { hs with profiles := fun a ha => ?_ }
    rcases mem_of_mem_modify ha with ha | ⟨b, hb, rfl⟩
    · exact hs.profiles a ha
    · exact hs.profiles b (List.mem_of_getElem? hb)

theorem Traced.of_turns {es : List Event} {e : Event} {app : App} {p : String}
    {v : SearchScreens} (hT : Traced init es s)
    (hinit : ∀ x ∈ init, ∀ id, DocWrite.path x ≠ .user id)
    (hrun : EventRun.run (step init) start es = some s) (h : Turns init s e app p v) :
    Traced init (es ++ [e]) ⟨app, Function.update s.screens p v⟩ := by
  refine ⟨fun c x hx id hp => ?_, fun p' => ?_, fun author name other hr => ?_⟩
  · have hold : x ∈ s.app.net.issued c → ∃ name, SignedUp (es ++ [e]) id name ∧
        x = .write (.setData (.user id) (userDoc name) false) := fun hx =>
      (hT.users c x hx id hp).imp fun _ h => ⟨h.1.mono [e], h.2⟩
    rcases h.app_cases with rfl | ⟨ae, rfl, -, happ⟩ | ⟨i, self, rfl, -, happ⟩
    · exact hold hx
    · rcases App.issued_of_step happ hx with hx | ⟨p', pe, hpe, hwrote, -⟩
      · exact hold hx
      · obtain ⟨name, rfl, rfl⟩ := hpe.signupClick (hp ▸ hwrote)
        exact ⟨name, ⟨p', by simp⟩, rfl⟩
    · rcases App.issued_of_step happ hx with hx | ⟨p', pe, hpe, hwrote, -⟩
      · exact hold hx
      · obtain ⟨name, he, -⟩ := hpe.signupClick (hp ▸ hwrote)
        cases he
  · by_cases hp : p' = p
    · subst hp
      simpa using hT.screens_of_turns hinit h
    · simpa [Function.update_of_ne hp] using (hT.screens p').mono [e]
  · have hold : .request author name other ∈ s.app.encoded →
        SentFrom init (es ++ [e]) author name other := fun hr =>
      (hT.requests author name other hr).mono [e]
    rcases h.app_cases with rfl | ⟨ae, rfl, hleft, happ⟩ | ⟨i, self, rfl, hi, happ⟩
    · exact hold hr
    · rcases App.request_of_step happ hr with hr | ⟨p', user, rfl, -⟩
      · exact hold hr
      · cases hleft
    · rcases App.request_of_step happ hr with hr | ⟨p', user, he, hu, huid, hname⟩
      · exact hold hr
      · obtain ⟨rfl, hother⟩ := App.Event.on.inj he
        obtain rfl := Process.Event.sendFriendRequest.inj hother
        exact ⟨es, p, i, [], s, self.usernameLabel, rfl, hrun,
          ⟨⟨self, hi, rfl, rfl⟩, ⟨user, hu, huid, hname⟩⟩,
          (hT.screens p).profiles self (List.mem_of_getElem? hi)⟩

theorem traced_of_run (hinit : ∀ x ∈ init, ∀ id, DocWrite.path x ≠ .user id) {es : List Event}
    (h : EventRun.run (step init) start es = some s) : Traced init es s := by
  have hstart : Traced init [] start := by
    refine ⟨fun c x hx => ?_, screensTraced_start, fun author name other hr => ?_⟩
    · exact (List.not_mem_nil hx).elim
    · exact (List.not_mem_nil hr).elim
  refine EventRun.run_history (step init) hstart (fun es m e t hm hT hs => ?_) h
  obtain ⟨app, p, v, hturns, rfl⟩ := turns_of_step hs
  exact hT.of_turns hinit hm hturns

/-- From a store without accounts, a request was sent from a profile of the account it goes to, by
the account signed in at that process, which had searched for the name the profile shows; under that
name the account it goes to had signed up. Every profile shows a name that the process has searched
for, and under which the account it is of has signed up. -/
theorem asked_by_name (hinit : ∀ x ∈ init, ∀ id, DocWrite.path x ≠ .user id) {es : List Event}
    (h : EventRun.run (step init) start es = some s) :
    (∀ author name other, .request author name other ∈ s.app.encoded →
      ∃ pre p i post m email, es = pre ++ .sendFriendRequest p i :: post ∧
        EventRun.run (step init) start pre = some m ∧ m.Asks p i author name other email ∧
        .addNewFriendClicked p email ∈ pre ∧
        ∃ p', .app (.on p' (.signupClick other email)) ∈ pre) ∧
    ∀ p, ∀ a ∈ (s.screens p).profiles, .addNewFriendClicked p a.usernameLabel ∈ es ∧
      ∃ p', .app (.on p' (.signupClick a.searchWithId a.usernameLabel)) ∈ es := by
  have hT := traced_of_run hinit h
  refine ⟨fun author name other hr => ?_, fun p a ha => ?_⟩
  · obtain ⟨pre, p, i, post, m, email, hes, hrun, hasks, hfound⟩ := hT.requests author name other hr
    exact ⟨pre, p, i, post, m, email, hes, hrun, hasks, hfound.searched, hfound.signedUp⟩
  · have hfound := (hT.screens p).profiles a ha
    exact ⟨hfound.searched, hfound.signedUp⟩

/-- `b` has signed up; `a`, at another process, searches for the name, and asks. -/
def searchingFor : List Event :=
  [.app (.on "p" (.signupClick "b" "b@x")), .app (.land ("p", some "b")),
    .app (.land ("p", some "b")), .app (.land ("p", some "b")),
    .app (.on "q" (.chat (.signIn ⟨"a", some "a@x", some "a@x"⟩))),
    .addNewFriendClicked "q" "b@x", .searchCompleted "q" 0 (some (3, 0)), .resultsDidLoad "q",
    .cellForRowAt "q" 0 0, .didSelectRowAt "q" 0, .profileDidLoad "q", .sendFriendRequest "q" 0]

theorem asked_by_name_searchingFor : ∃ s, EventRun.run (step []) start searchingFor = some s ∧
    .request "a" "a@x" "b" ∈ s.app.encoded ∧ ∃ pre p i post m email,
      searchingFor = pre ++ .sendFriendRequest p i :: post ∧
      EventRun.run (step []) start pre = some m ∧ m.Asks p i "a" "a@x" "b" email ∧
      .addNewFriendClicked p email ∈ pre ∧
      ∃ p', .app (.on p' (.signupClick "b" email)) ∈ pre := by
  obtain ⟨s, hs⟩ := Option.isSome_iff_exists.1
    (by decide +kernel : (EventRun.run (step []) start searchingFor).isSome)
  have henc : ∀ s ∈ EventRun.run (step []) start searchingFor,
      .request "a" "a@x" "b" ∈ s.app.encoded := by decide +kernel
  exact ⟨s, hs, henc s hs, (asked_by_name (by simp) hs).1 "a" "a@x" "b" (henc s hs)⟩

/-! ## What a search finds -/

/-- With every sign-up landed, and no account signed up under two names, a search that sees all that
has landed completes, and lists exactly the accounts that have signed up under the name, each once,
in the order of their ids. -/
theorem search_exact (hinit : ∀ x ∈ init, ∀ id, DocWrite.path x ≠ .user id) {es : List Event}
    (h : EventRun.run (step init) start es = some s)
    (hlanded : ∀ id name, SignedUp es id name →
      .write (.setData (.user id) (userDoc name) false) ∈ s.app.net.landed)
    (honce : ∀ id name name', SignedUp es id name → SignedUp es id name' → name = name')
    {p text : String} {j n : ℕ} (hj : (s.screens p).searching[j]? = some text)
    (hn : s.app.net.log.length ≤ n) (m : ℕ) :
    ∃ t, s.step init (.searchCompleted p j (some (n, m))) = some t ∧
      (t.screens p).searchResult.idofSearchResult.Pairwise (· < ·) ∧
      ∀ id, id ∈ (t.screens p).searchResult.idofSearchResult ↔ SignedUp es id text := by
  have hT := traced_of_run hinit h
  generalize hws : s.app.seen init (s.app.account p) n m = ws
  refine ⟨_, by simp only [step, hj, Option.bind_eq_bind, Option.bind_some, hws,
    searchCompleted_found]; rfl, ?_⟩
  simp only [display, Function.update_self]
  refine ⟨(collection_sorted .user ws).sublist (List.filter_sublist.map Prod.fst), fun id => ?_⟩
  constructor
  · intro hid
    obtain ⟨d, hd, rfl⟩ := List.mem_map.1 hid
    exact hT.found hinit (hws ▸ hd)
  · intro hsigned
    have hseen : _ ∈ s.app.seen init (s.app.account p) n m :=
      App.mem_seen_of_landed (hlanded id text hsigned) hn (s.app.account p) m
    -- all that is written there is the same
    have hdoc : docs ws (.user id) = some (userDoc text) := by
      refine DocWrite.replay_of_forall_act (I := fun d => d = some (userDoc text))
        (fun x hx hp d => ?_) (hws ▸ hseen) rfl
      rcases App.mem_seen (hws.symm ▸ hx) with hx | ⟨c', hx⟩
      · exact absurd hp (hinit x hx id)
      · obtain ⟨name, hname, rfl⟩ := hT.users c' x hx id hp
        rw [honce id name text hname hsigned]
        rfl
    refine List.mem_map.2 ⟨(id, userDoc text), List.mem_filter.2 ⟨?_, ?_⟩, rfl⟩
    · exact (mem_collection_iff fun _ => rfl).2 hdoc
    · exact decide_eq_true (username_userDoc text)

theorem search_exact_searchingFor : ∃ s t, EventRun.run (step []) start (searchingFor.take 6) =
      some s ∧ s.step [] (.searchCompleted "q" 0 (some (3, 0))) = some t ∧
    ∀ id, id ∈ (t.screens "q").searchResult.idofSearchResult ↔ id = "b" := by
  obtain ⟨s, hs⟩ := Option.isSome_iff_exists.1
    (by decide +kernel : (EventRun.run (step []) start (searchingFor.take 6)).isSome)
  have hstate : ∀ s ∈ EventRun.run (step []) start (searchingFor.take 6),
      .write (.setData (.user "b") (userDoc "b@x") false) ∈ s.app.net.landed ∧
      (s.screens "q").searching[0]? = some "b@x" ∧ s.app.net.log.length ≤ 3 := by decide +kernel
  obtain ⟨hlanded, hj, hn⟩ := hstate s hs
  have hsigned : ∀ id name, SignedUp (searchingFor.take 6) id name ↔ id = "b" ∧ name = "b@x" := by
    simp [SignedUp, searchingFor]
  obtain ⟨t, ht, -, hids⟩ := search_exact (by simp) hs
    (fun id name h => by obtain ⟨rfl, rfl⟩ := (hsigned id name).1 h; exact hlanded)
    (fun id name name' h h' => ((hsigned id name).1 h).2.trans ((hsigned id name').1 h').2.symm)
    hj hn 0
  exact ⟨s, t, hs, ht, fun id => (hids id).trans (by simp [hsigned])⟩

/-! ## What a profile says -/

/-- The account has been signed in at the process, at some state of the run. -/
def SignedInAt (init : List AppWrite) (es : List Event) (p uid : String) : Prop :=
  ∃ pre m user, pre <+: es ∧ EventRun.run (step init) start pre = some m ∧
    (m.app.process p).device.currentUser = some user ∧ user.uid = uid

theorem SignedInAt.mono {es : List Event} {p uid : String} (h : SignedInAt init es p uid)
    (fs : List Event) : SignedInAt init (es ++ fs) p uid := by
  obtain ⟨pre, m, user, hpre, hrun, hu⟩ := h
  exact ⟨pre, m, user, hpre.trans (List.prefix_append es fs), hrun, hu⟩

/-- An account of the process has asked the other. -/
def AskedFrom (init : List AppWrite) (es : List Event) (encoded : List Encoded)
    (p uid other : String) : Prop :=
  SignedInAt init es p uid ∧ ∃ name, .request uid name other ∈ encoded

theorem AskedFrom.mono {es : List Event} {encoded encoded' : List Encoded} {p uid other : String}
    (h : AskedFrom init es encoded p uid other) (he : encoded ⊆ encoded') (fs : List Event) :
    AskedFrom init (es ++ fs) encoded' p uid other :=
  ⟨h.1.mono fs, h.2.imp fun _ h => he h⟩

/-- A profile that says so, and one whose request has yet to be acknowledged, is of someone an
account of the process has asked. -/
structure StatueTraced (init : List AppWrite) (es : List Event) (encoded : List Encoded)
    (p : String) (v : SearchScreens) : Prop where
  fetching : ∀ f ∈ v.fetching, SignedInAt init es p f.2
  sending : ∀ f ∈ v.sending, ∃ a, v.profiles[f.1]? = some a ∧
    AskedFrom init es encoded p f.2 a.searchWithId
  statue : ∀ a ∈ v.profiles, a.currentStatue = "Is Requesting" →
    ∃ uid, AskedFrom init es encoded p uid a.searchWithId

theorem StatueTraced.mono {es : List Event} {encoded encoded' : List Encoded} {p : String}
    {v : SearchScreens} (h : StatueTraced init es encoded p v) (he : encoded ⊆ encoded')
    (fs : List Event) : StatueTraced init (es ++ fs) encoded' p v where
  fetching f hf := (h.fetching f hf).mono fs
  sending f hf := (h.sending f hf).imp fun _ ha => ⟨ha.1, ha.2.mono he fs⟩
  statue a ha hs := (h.statue a ha hs).imp fun _ hu => hu.mono he fs

theorem statueTraced_start (p : String) : StatueTraced init [] [] p {} where
  fetching _ h := (List.not_mem_nil h).elim
  sending _ h := (List.not_mem_nil h).elim
  statue _ h := (List.not_mem_nil h).elim

/-- A profile is changed in what it says alone. -/
theorem StatueTraced.modify {es : List Event} {encoded : List Encoded} {p : String}
    {v : SearchScreens} (h : StatueTraced init es encoded p v) {i : ℕ}
    {f : SearchResultProfileViewController → SearchResultProfileViewController}
    (hid : ∀ a, (f a).searchWithId = a.searchWithId)
    (hf : ∀ a, v.profiles[i]? = some a → (f a).currentStatue = "Is Requesting" →
      ∃ uid, AskedFrom init es encoded p uid a.searchWithId) :
    StatueTraced init es encoded p { v with profiles := v.profiles.modify i f } where
  fetching := h.fetching
  sending g hg := by
    obtain ⟨a, ha, hasked⟩ := h.sending g hg
    refine ⟨if i = g.1 then f a else a, ?_, ?_⟩
    · rw [List.getElem?_modify, ha]
      rfl
    · split_ifs
      · exact (hid a).symm ▸ hasked
      · exact hasked
  statue a ha hs := by
    rcases mem_of_mem_modify ha with ha | ⟨b, hb, rfl⟩
    · exact h.statue a ha hs
    · rw [hid]
      exact hf b hb hs

structure StatuesTraced (init : List AppWrite) (es : List Event) (s : Searches) : Prop where
  requests : ∀ c, ∀ x ∈ s.app.net.issued c, ∀ a b, DocWrite.path x = .friendRequestTo a b →
    (∀ doc, DocWrite.act x doc = none) ∨ ∃ name, .request a name b ∈ s.app.encoded
  screens : ∀ p, StatueTraced init es s.app.encoded p (s.screens p)

/-- The document of a request was written by one. -/
theorem StatuesTraced.asked {es : List Event} (hT : StatuesTraced init es s)
    (hinit : ∀ x ∈ init, ∀ a b, DocWrite.path x ≠ .friendRequestTo a b)
    {c : String × Option String} {n m : ℕ} {a b : String}
    (h : (docs (s.app.seen init c n m) (.friendRequestTo a b)).isSome) :
    ∃ name, .request a name b ∈ s.app.encoded := by
  obtain ⟨doc, hdoc⟩ := Option.isSome_iff_exists.1 h
  refine DocWrite.replay_keeps_some (I := fun _ => ∃ name, .request a name b ∈ s.app.encoded) rfl
    (fun x hx hp d _ _ hd => ?_) hdoc
  rcases App.mem_seen hx with hx | ⟨c', hx⟩
  · exact absurd hp (hinit x hx a b)
  · refine (hT.requests c' x hx a b hp).resolve_left fun hn => ?_
    rw [hn d] at hd
    cases hd

theorem Turns.encoded_subset {e : Event} {app : App} {p : String} {v : SearchScreens}
    (h : Turns init s e app p v) : s.app.encoded ⊆ app.encoded := by
  rcases h.app_cases with rfl | ⟨ae, -, -, happ⟩ | ⟨i, self, -, -, happ⟩
  · exact fun _ h => h
  · exact App.encoded_subset_of_step happ
  · exact App.encoded_subset_of_step happ

theorem StatuesTraced.screens_of_turns {es : List Event} {e : Event} {app : App} {p : String}
    {v : SearchScreens} (hT : StatuesTraced init es s)
    (hinit : ∀ x ∈ init, ∀ a b, DocWrite.path x ≠ .friendRequestTo a b)
    (hrun : EventRun.run (step init) start es = some s) (h : Turns init s e app p v) :
    StatueTraced init (es ++ [e]) app.encoded p v := by
  have hs := (hT.screens p).mono h.encoded_subset [e]
  cases h with
  | app _ _ _ => exact hs
  | viewWillAppear hu =>
    refine { hs with fetching := fun f hf => ?_ }
    rcases List.mem_append.1 hf with hf | hf
    · exact hs.fetching f hf
    · rw [List.mem_singleton.1 hf]
      exact ⟨es, s, _, List.prefix_append _ _, hrun, hu, rfl⟩
  | profileDidLoad hpos =>
    refine ⟨hs.fetching, fun f hf => ?_, fun a ha hstatue => ?_⟩
    · obtain ⟨a, ha, hasked⟩ := hs.sending f hf
      refine ⟨a, ?_, hasked⟩
      rw [List.getElem?_append_left (List.getElem?_eq_some_iff.1 ha).1, ha]
    · rcases List.mem_append.1 ha with ha | ha
      · exact hs.statue a ha hstatue
      · rw [List.mem_singleton.1 ha] at hstatue
        have hne : ("Statue" : String) ≠ "Is Requesting" := by decide
        exact absurd hstatue hne
  | @requestFetched _ uid j i version document hj hdocument =>
    have herase : StatueTraced init (es ++ [_]) s.app.encoded p
        { s.screens p with fetching := (s.screens p).fetching.eraseIdx j } :=
      { hs with fetching := fun f hf => hs.fetching f (List.mem_of_mem_eraseIdx hf) }
    refine herase.modify (fun a => rfl) fun a ha hstatue => ?_
    have hsome : document.isSome := by
      by_contra hn
      simp [SearchResultProfileViewController.requestFetched, hn] at hstatue
    obtain ⟨n, m, self, hself, hdoc⟩ := hdocument hsome
    obtain rfl := Option.some.inj (hself.symm.trans ha)
    exact ⟨uid, hs.fetching _ (List.mem_of_getElem? hj), hT.asked hinit (hdoc ▸ hsome)⟩
  | @sendFriendRequest _ i self myUser _ hi hu happ =>
    split_ifs with hne
    · refine { hs with sending := fun f hf => ?_ }
      rcases List.mem_append.1 hf with hf | hf
      · exact hs.sending f hf
      · rw [List.mem_singleton.1 hf]
        exact ⟨self, hi, ⟨es, s, myUser, List.prefix_append _ _, hrun, hu, rfl⟩,
          App.request_encoded happ hu hne⟩
    · exact hs
  | requestFailed =>
    exact { hs with sending := fun f hf => hs.sending f (List.mem_of_mem_eraseIdx hf) }
  | @requestWritten _ uid j i hj =>
    have herase : StatueTraced init (es ++ [_]) s.app.encoded p
        { s.screens p with sending := (s.screens p).sending.eraseIdx j } :=
      { hs with sending := fun f hf => hs.sending f (List.mem_of_mem_eraseIdx hf) }
    refine herase.modify (fun a => rfl) fun a ha _ => ?_
    obtain ⟨b, hb, hasked⟩ := hs.sending _ (List.mem_of_getElem? hj)
    obtain rfl := Option.some.inj (hb.symm.trans ha)
    exact ⟨uid, hasked⟩
  | _ => exact { hs with }

theorem StatuesTraced.of_turns {es : List Event} {e : Event} {app : App} {p : String}
    {v : SearchScreens} (hT : StatuesTraced init es s)
    (hinit : ∀ x ∈ init, ∀ a b, DocWrite.path x ≠ .friendRequestTo a b)
    (hrun : EventRun.run (step init) start es = some s) (h : Turns init s e app p v) :
    StatuesTraced init (es ++ [e]) ⟨app, Function.update s.screens p v⟩ := by
  have hsub := h.encoded_subset
  refine ⟨fun c x hx a b hp => ?_, fun p' => ?_⟩
  · have hold : x ∈ s.app.net.issued c →
        (∀ doc, DocWrite.act x doc = none) ∨ ∃ name, .request a name b ∈ app.encoded := fun hx =>
      (hT.requests c x hx a b hp).imp_right fun h => h.imp fun _ h => hsub h
    have hnew : ∀ ae, s.app.step init ae = some app →
        (∀ doc, DocWrite.act x doc = none) ∨ ∃ name, .request a name b ∈ app.encoded := by
      intro ae happ
      rcases App.issued_of_step happ hx with hx | ⟨p', pe, hpe, hwrote, henc⟩
      · exact hold hx
      · rw [henc]
        exact (App.wrote_request (hp ▸ hwrote)).imp_right fun h => h.imp fun _ h =>
          List.mem_append_right _ h
    rcases h.app_cases with rfl | ⟨ae, -, -, happ⟩ | ⟨i, self, -, -, happ⟩
    · exact hold hx
    · exact hnew ae happ
    · exact hnew _ happ
  · by_cases hp : p' = p
    · subst hp
      simpa using hT.screens_of_turns hinit hrun h
    · simpa [Function.update_of_ne hp] using (hT.screens p').mono hsub [e]

/-- From a store without requests, a profile that says `Is Requesting` is of someone who has been
asked by an account that was signed in at the process at some time. -/
theorem requesting_was_asked
    (hinit : ∀ x ∈ init, ∀ a b, DocWrite.path x ≠ .friendRequestTo a b) {es : List Event}
    (h : EventRun.run (step init) start es = some s) (p : String) :
    ∀ a ∈ (s.screens p).profiles, a.currentStatue = "Is Requesting" → ∃ uid,
      SignedInAt init es p uid ∧ ∃ name, .request uid name a.searchWithId ∈ s.app.encoded := by
  have hstart : StatuesTraced init [] start :=
    ⟨fun c x hx => (List.not_mem_nil hx).elim, statueTraced_start⟩
  have hT : StatuesTraced init es s := by
    refine EventRun.run_history (step init) hstart (fun es m e t hm hT hs => ?_) h
    obtain ⟨app, p, v, hturns, rfl⟩ := turns_of_step hs
    exact hT.of_turns hinit hm hturns
  exact (hT.screens p).statue

theorem requesting_was_asked_searchingFor : ∃ s a, EventRun.run (step []) start
      (searchingFor ++ [.viewWillAppear "q" 0, .requestFetched "q" 0 (some (3, 1))]) = some s ∧
    a ∈ (s.screens "q").profiles ∧ a.currentStatue = "Is Requesting" ∧
    ∃ uid name, .request uid name a.searchWithId ∈ s.app.encoded := by
  obtain ⟨s, hs⟩ := Option.isSome_iff_exists.1 (by decide +kernel : (EventRun.run (step []) start
    (searchingFor ++ [.viewWillAppear "q" 0, .requestFetched "q" 0 (some (3, 1))])).isSome)
  have hstatue : ∀ s ∈ EventRun.run (step []) start
      (searchingFor ++ [.viewWillAppear "q" 0, .requestFetched "q" 0 (some (3, 1))]),
      (s.screens "q").profiles[0]?.map (·.currentStatue) = some "Is Requesting" := by
    decide +kernel
  obtain ⟨a, ha, hsays⟩ := Option.map_eq_some_iff.1 (hstatue s hs)
  have ha := List.mem_of_getElem? ha
  obtain ⟨uid, -, name, hr⟩ := requesting_was_asked (by simp) hs "q" a ha hsays
  exact ⟨s, a, hs, ha, hsays, uid, name, hr⟩

end Searches

end MessageApp
