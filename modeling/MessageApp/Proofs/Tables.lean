import MessageApp.Proofs.Audience
import MessageApp.Tables

/-!
# Rows and the lists they index

The lists of one kind are always equally long (`Columns`), so a table indexes them safely exactly
when it remembers no more rows than it would count now (`inBounds_iff`). Only a callback on
`Friends` or on the requests changes what it would count; every table it leaves with more rows is
one that it does not reload (`in_bounds_iff`). Where it leaves none, no table traps at a list
(`answers_of_run`).
-/

namespace MessageApp

namespace Process

open RecentViewController

/-- The lists that are filled together are equally long. -/
structure Columns (p : Process) : Prop where
  listOfId : p.device.globals.listOfId.length = p.lists.listOfFriends.length
  isGroupChat : p.lists.isGroupChat.length = p.lists.listOfFriends.length
  withoutGroup :
    p.lists.listOfIdWithoutGroup.length = p.lists.listOfFriendsWithoutGroup.length
  name : p.friendRequestInformation.name.length = p.friendRequestInformation.id.length

/-- The two have the same lists. -/
structure SameLists (p p' : Process) : Prop where
  listOfId : p'.device.globals.listOfId = p.device.globals.listOfId
  lists : p'.lists = p.lists
  requests : p'.friendRequestInformation = p.friendRequestInformation

variable {p p' : Process}

theorem SameLists.columns (h : SameLists p p') (hC : Columns p) : Columns p' where
  listOfId := by
    rw [h.listOfId, h.lists]
    exact hC.listOfId
  isGroupChat := h.lists ▸ hC.isGroupChat
  withoutGroup := h.lists ▸ hC.withoutGroup
  name := h.requests ▸ hC.name

/-- The events that fill lists. -/
def Event.fillsLists : Event → Bool
  | .friendsSnapshot _ _ | .requestSnapshot _ _ => true
  | _ => false

theorem sameLists_of_next {e : Event} (he : e.fillsLists = false) (h : p.next e = some p') :
    SameLists p p' := by
  obtain ⟨ws, hs⟩ := exists_step_of_next h
  cases hs with
  | chat _ hd => exact ⟨chat_listOfId hd, rfl, rfl⟩
  | friendsSnapshot _ _ => cases he
  | requestSnapshot _ _ => cases he
  | _ => exact ⟨rfl, rfl, rfl⟩

theorem next_friendsSnapshot {uid : String} {documents : List (String × Doc)}
    (h : p.next (.friendsSnapshot uid documents) = some p') :
    p'.device.globals.listOfId.length = documents.length ∧
      p'.lists.listOfFriends.length = documents.length ∧
      p'.lists.isGroupChat.length = documents.length ∧
      p'.lists.listOfFriendsWithoutGroup.length = (friendsIn documents).length ∧
      p'.lists.listOfIdWithoutGroup.length = (friendsIn documents).length ∧
      p'.friendRequestInformation = p.friendRequestInformation := by
  obtain ⟨ws, hs⟩ := exists_step_of_next h
  cases hs with
  | friendsSnapshot _ hg =>
    obtain ⟨hnames, hflags, hnames', hids⟩ := friendsListener_lists hg
    refine ⟨?_, hnames, hflags, hnames', congrArg List.length hids, rfl⟩
    rw [friendsListener_globals hg]
    exact List.length_map _

theorem length_of_mapM {α β : Type} {f : α → Option β} {l : List α} {m : List β}
    (h : l.mapM f = some m) : m.length = l.length := by
  induction l generalizing m with
  | nil =>
    obtain rfl := Option.some.inj h
    rfl
  | cons a l ih =>
    rw [List.mapM_cons] at h
    obtain ⟨b, -, h⟩ := Option.bind_eq_some_iff.1 h
    obtain ⟨m', hm', h⟩ := Option.bind_eq_some_iff.1 h
    rw [← Option.some.inj h, List.length_cons, List.length_cons, ih hm']

theorem requestListener_length {documents : List (String × Doc)}
    {information : FriendRequestInformation} (h : requestListener documents = some information) :
    information.name.length = documents.length ∧ information.id.length = documents.length := by
  obtain ⟨name, hname, h⟩ := Option.bind_eq_some_iff.1 h
  rw [← Option.some.inj h]
  exact ⟨length_of_mapM hname, List.length_map _⟩

theorem next_requestSnapshot {uid : String} {documents : List (String × Doc)}
    (h : p.next (.requestSnapshot uid documents) = some p') :
    p'.device.globals.listOfId = p.device.globals.listOfId ∧ p'.lists = p.lists ∧
      p'.friendRequestInformation.name.length = documents.length ∧
      p'.friendRequestInformation.id.length = documents.length := by
  obtain ⟨ws, hs⟩ := exists_step_of_next h
  cases hs with
  | requestSnapshot _ hinformation =>
    exact ⟨rfl, rfl, requestListener_length hinformation⟩

theorem Columns.next {e : Event} (hC : Columns p) (h : p.next e = some p') : Columns p' := by
  cases he : e.fillsLists with
  | false => exact (sameLists_of_next he h).columns hC
  | true =>
    cases e with
    | friendsSnapshot uid documents =>
      obtain ⟨hid, hnames, hflags, hnames', hids, hrequests⟩ := next_friendsSnapshot h
      exact ⟨hid.trans hnames.symm, hflags.trans hnames.symm, hids.trans hnames'.symm,
        hrequests ▸ hC.name⟩
    | requestSnapshot uid documents =>
      obtain ⟨hid, hlists, hname, hids⟩ := next_requestSnapshot h
      exact ⟨hid ▸ hlists ▸ hC.listOfId, hlists ▸ hC.isGroupChat, hlists ▸ hC.withoutGroup,
        hname.trans hids.symm⟩
    | _ => cases he

end Process

namespace Tables

open Process

/-- Every row a table may ask for is there, in each list that its cell or a tap on it reads. -/
structure InBounds (t : Tables) : Prop where
  main : ∀ n ∈ t.main, ∀ row, row + 1 < n → row < t.process.lists.listOfFriends.length ∧
    row < t.process.device.globals.listOfId.length ∧ row < t.process.lists.isGroupChat.length
  content : ∀ n ∈ t.content, ∀ row < n, row < t.process.friendRequestInformation.name.length ∧
    row < t.process.friendRequestInformation.id.length
  picker : ∀ n ∈ t.picker, ∀ row < n, row < t.process.lists.listOfFriendsWithoutGroup.length ∧
    row < t.process.lists.listOfIdWithoutGroup.length

/-- The tables whose lists a callback replaces without a reload: the rows each remembers, with the
rows the new lists have. A table of friends counts the search bar. -/
def notReloaded (t : Tables) : Event → List (ℕ × ℕ)
  | .friendsSnapshot r documents =>
    (if documents.isEmpty then t.main else t.main.eraseIdx r).map (·, documents.length + 1) ++
      t.picker.map (·, (friendsIn documents).length)
  | .process (.requestSnapshot _ documents) => t.content.map (·, documents.length)
  | _ => []

/-- A callback leaves no table that it does not reload with more rows than its lists have. -/
def KeepsRows (_ : List Event) (t : Tables) (e : Event) : Prop := ∀ b ∈ notReloaded t e, b.1 ≤ b.2

instance (es : List Event) (t : Tables) : DecidablePred (KeepsRows es t) :=
  fun e => inferInstanceAs (Decidable (∀ b ∈ notReloaded t e, b.1 ≤ b.2))

/-- No table remembers more rows than it would count now. -/
structure Fits (t : Tables) : Prop where
  main : ∀ n ∈ t.main, n ≤ RecentViewController.numberOfRowsInSection t.process.lists
  content : ∀ n ∈ t.content,
    n ≤ ContentViewController.numberOfRowsInSection t.process.friendRequestInformation
  picker : ∀ n ∈ t.picker, n ≤ StartGroupChatViewController.numberOfRowsInSection t.process.lists

variable {t t' : Tables}

theorem keepsRows_friendsSnapshot (es : List Event) {r : ℕ} {documents : List (String × Doc)} :
    KeepsRows es t (.friendsSnapshot r documents) ↔
      (∀ n ∈ if documents.isEmpty then t.main else t.main.eraseIdx r, n ≤ documents.length + 1) ∧
        ∀ n ∈ t.picker, n ≤ (friendsIn documents).length := by
  simp only [KeepsRows, notReloaded, List.forall_mem_append, List.forall_mem_map]

theorem keepsRows_requestSnapshot (es : List Event) {uid : String}
    {documents : List (String × Doc)} :
    KeepsRows es t (.process (.requestSnapshot uid documents)) ↔
      ∀ n ∈ t.content, n ≤ documents.length := by
  simp only [KeepsRows, notReloaded, List.forall_mem_map]

theorem keepsRows_of_notReloaded {e : Event} (es : List Event) (h : notReloaded t e = []) :
    KeepsRows es t e := by
  intro b hb
  rw [h] at hb
  cases hb

theorem inBounds_iff (hC : Columns t.process) : InBounds t ↔ Fits t := by
  obtain ⟨hid, hflags, hids, hname⟩ := hC
  constructor
  · intro h
    refine ⟨fun n hn => ?_, fun n hn => ?_, fun n hn => ?_⟩
    · unfold RecentViewController.numberOfRowsInSection
      by_contra hlt
      have := (h.main n hn t.process.lists.listOfFriends.length (by omega)).1
      omega
    · unfold ContentViewController.numberOfRowsInSection
      by_contra hlt
      have := (h.content n hn t.process.friendRequestInformation.id.length (by omega)).2
      omega
    · unfold StartGroupChatViewController.numberOfRowsInSection
      by_contra hlt
      have := (h.picker n hn t.process.lists.listOfFriendsWithoutGroup.length (by omega)).1
      omega
  · intro h
    refine ⟨fun n hn row hrow => ?_, fun n hn row hrow => ?_, fun n hn row hrow => ?_⟩
    · have hle := h.main n hn
      unfold RecentViewController.numberOfRowsInSection at hle
      omega
    · have hle := h.content n hn
      unfold ContentViewController.numberOfRowsInSection at hle
      omega
    · have hle := h.picker n hn
      unfold StartGroupChatViewController.numberOfRowsInSection at hle
      omega

/-- A table's requests and taps trap at no list; a row of friends can still trap at a badge. -/
structure Answers (t : Tables) : Prop where
  mainDidSelectRowAt : ∀ n ∈ t.main, ∀ row, row + 1 < n → ∀ tablecell,
    (RecentViewController.didSelectRowAt t.process.device.globals t.process.lists tablecell
      row).isSome
  mainCellForRowAt : ∀ n ∈ t.main, ∀ row, row + 1 < n →
    ((RecentViewController.cellForRowAt t.process.device.globals t.process.lists row).isSome ↔
      ∀ id ∈ t.process.device.globals.listOfId[row]?,
        (RecentViewController.badgeCounter t.process.device.globals id).isSome)
  contentCellForRowAt : ∀ n ∈ t.content, ∀ row < n, (t.process.next (.cellForRowAt row)).isSome
  pickerCellForRowAt : ∀ n ∈ t.picker, ∀ row < n, ∀ tablecell,
    (StartGroupChatViewController.cellForRowAt t.process.lists tablecell row).isSome

theorem InBounds.answers (h : InBounds t) : Answers t where
  mainDidSelectRowAt n hn row hrow tablecell := by
    obtain ⟨-, -, hflag⟩ := h.main n hn row hrow
    simp [RecentViewController.didSelectRowAt, List.getElem?_eq_getElem hflag]
  mainCellForRowAt n hn row hrow := by
    obtain ⟨hfriends, hid, hflag⟩ := h.main n hn row hrow
    simp only [RecentViewController.cellForRowAt, List.getElem?_eq_getElem hfriends,
      List.getElem?_eq_getElem hid, List.getElem?_eq_getElem hflag, Option.bind_eq_bind,
      Option.bind_some, Option.mem_def, Option.some.injEq, forall_eq']
    cases RecentViewController.badgeCounter t.process.device.globals _ <;> rfl
  contentCellForRowAt n hn row hrow := by
    obtain ⟨hname, hid⟩ := h.content n hn row hrow
    simp [Process.next, Process.step, List.getElem?_eq_getElem hname, List.getElem?_eq_getElem hid]
  pickerCellForRowAt n hn row hrow tablecell := by
    obtain ⟨hname, hid⟩ := h.picker n hn row hrow
    simp [StartGroupChatViewController.cellForRowAt, List.getElem?_eq_getElem hname,
      List.getElem?_eq_getElem hid]

/-! ## Steps -/

theorem step_process {e : Process.Event} (h : t.step (.process e) = some t') :
    ofTable e = false ∧ ∃ p, t.process.next e = some p ∧ t' = { t with
      process := p
      main := t.main ++
        if loadsMain e then [RecentViewController.numberOfRowsInSection p.lists] else [] } := by
  cases he : ofTable e with
  | true =>
    simp only [step, he, if_true] at h
    cases h
  | false =>
    simp only [step, he, Bool.false_eq_true, if_false] at h
    obtain ⟨p, hp, h⟩ := Option.bind_eq_some_iff.1 h
    exact ⟨rfl, p, hp, (Option.some.inj h).symm⟩

theorem step_friendsSnapshot {r : ℕ} {documents : List (String × Doc)}
    (h : t.step (.friendsSnapshot r documents) = some t') :
    ∃ uid p, t.process.next (.friendsSnapshot uid documents) = some p ∧
      t' = if documents.isEmpty then { t with process := p }
        else reloadMain { t with process := p } r := by
  obtain ⟨uid, -, h⟩ := Option.bind_eq_some_iff.1 h
  obtain ⟨p, hp, h⟩ := Option.bind_eq_some_iff.1 h
  exact ⟨uid, p, hp, (Option.some.inj h).symm⟩

theorem step_mainCellForRowAt {r row : ℕ} (h : t.step (.mainCellForRowAt r row) = some t') :
    t' = t := by
  obtain ⟨n, -, h⟩ := Option.bind_eq_some_iff.1 h
  split_ifs at h
  obtain ⟨cell, -, h⟩ := Option.bind_eq_some_iff.1 h
  exact (Option.some.inj h).symm

theorem step_mainDidSelectRowAt {r row : ℕ} {tablecell : RecentViewController.Cell}
    (h : t.step (.mainDidSelectRowAt r row tablecell) = some t') :
    ∃ information, t' = { t with process := { t.process with device := { t.process.device with
      globals := { t.process.device.globals with information := information } } } } := by
  obtain ⟨n, -, h⟩ := Option.bind_eq_some_iff.1 h
  split_ifs at h
  obtain ⟨globals, hg, h⟩ := Option.bind_eq_some_iff.1 h
  obtain ⟨isGroupChat, -, hg⟩ := Option.bind_eq_some_iff.1 hg
  rw [← Option.some.inj hg] at h
  exact ⟨_, (Option.some.inj h).symm⟩

theorem step_contentCellForRowAt {c row : ℕ} (h : t.step (.contentCellForRowAt c row) = some t') :
    ∃ p, t.process.next (.cellForRowAt row) = some p ∧ t' = { t with process := p } := by
  obtain ⟨n, -, h⟩ := Option.bind_eq_some_iff.1 h
  split_ifs at h
  obtain ⟨p, hp, h⟩ := Option.bind_eq_some_iff.1 h
  exact ⟨p, hp, (Option.some.inj h).symm⟩

theorem step_pickerCellForRowAt {k row : ℕ} {tablecell : StartGroupChatViewController.Cell}
    (h : t.step (.pickerCellForRowAt k row tablecell) = some t') : t' = t := by
  obtain ⟨n, -, h⟩ := Option.bind_eq_some_iff.1 h
  split_ifs at h
  obtain ⟨cell, -, h⟩ := Option.bind_eq_some_iff.1 h
  exact (Option.some.inj h).symm

theorem columns_step {e : Event} (hC : Columns t.process) (h : t.step e = some t') :
    Columns t'.process := by
  cases e with
  | process e =>
    obtain ⟨-, p, hp, rfl⟩ := step_process h
    exact hC.next hp
  | friendsSnapshot r documents =>
    obtain ⟨uid, p, hp, rfl⟩ := step_friendsSnapshot h
    split_ifs <;> exact hC.next hp
  | mainCellForRowAt r row => exact step_mainCellForRowAt h ▸ hC
  | mainDidSelectRowAt r row tablecell =>
    obtain ⟨information, rfl⟩ := step_mainDidSelectRowAt h
    exact ⟨hC.listOfId, hC.isGroupChat, hC.withoutGroup, hC.name⟩
  | contentCellForRowAt c row =>
    obtain ⟨p, hp, rfl⟩ := step_contentCellForRowAt h
    exact hC.next hp
  | pickerCellForRowAt k row tablecell => exact step_pickerCellForRowAt h ▸ hC
  | mainReload _ | contentDidLoad | contentWillAppear _ | pickerDidLoad =>
    obtain rfl := Option.some.inj h
    exact hC

theorem columns_of_run {es : List Event} (h : EventRun.run step {} es = some t) :
    Columns t.process :=
  EventRun.run_invariant step (fun _ _ _ hC hs => columns_step hC hs)
    ⟨rfl, rfl, rfl, rfl⟩ h

/-- The tables stay as they are, but for some that count their rows now. -/
theorem Fits.of_counts (h : Fits t) (hp : SameLists t.process t'.process)
    (hmain : ∀ n ∈ t'.main, n ∈ t.main ∨
      n = RecentViewController.numberOfRowsInSection t'.process.lists)
    (hcontent : ∀ n ∈ t'.content, n ∈ t.content ∨
      n = ContentViewController.numberOfRowsInSection t'.process.friendRequestInformation)
    (hpicker : ∀ n ∈ t'.picker, n ∈ t.picker ∨
      n = StartGroupChatViewController.numberOfRowsInSection t'.process.lists) : Fits t' where
  main n hn := by
    rcases hmain n hn with hn | hn
    · rw [hp.lists]
      exact h.main n hn
    · exact hn.le
  content n hn := by
    rcases hcontent n hn with hn | hn
    · rw [hp.requests]
      exact h.content n hn
    · exact hn.le
  picker n hn := by
    rcases hpicker n hn with hn | hn
    · rw [hp.lists]
      exact h.picker n hn
    · exact hn.le

theorem fits_requestSnapshot_iff {uid : String} {documents : List (String × Doc)} (hF : Fits t)
    (es : List Event) (h : t.step (.process (.requestSnapshot uid documents)) = some t') :
    Fits t' ↔ KeepsRows es t (.process (.requestSnapshot uid documents)) := by
  obtain ⟨-, p, hp, rfl⟩ := step_process h
  obtain ⟨-, hlists, -, hids⟩ := next_requestSnapshot hp
  rw [keepsRows_requestSnapshot]
  constructor
  · intro hF' n hn
    have hle := hF'.content n hn
    rwa [ContentViewController.numberOfRowsInSection, hids] at hle
  · intro hQ
    refine ⟨?_, fun n hn => ?_, ?_⟩
    · simp only [loadsMain, Bool.false_eq_true, if_false, List.append_nil, hlists]
      exact hF.main
    · rw [ContentViewController.numberOfRowsInSection, hids]
      exact hQ n hn
    · rw [hlists]
      exact hF.picker

/-- The tables of friends that a callback does not reload keep their rows. -/
theorem main_friendsSnapshot {p : Process} {r D : ℕ} (documents : List (String × Doc))
    (hD : RecentViewController.numberOfRowsInSection p.lists = D) :
    (∀ n ∈ (if documents.isEmpty then { t with process := p }
        else reloadMain { t with process := p } r).main, n ≤ D) ↔
      ∀ n ∈ if documents.isEmpty then t.main else t.main.eraseIdx r, n ≤ D := by
  split_ifs with hdoc
  · rfl
  · simp only [reloadMain, hD]
    constructor
    · intro h n hn
      obtain ⟨r', hne, hr'⟩ := List.mem_eraseIdx_iff_getElem?.1 hn
      refine h n (List.mem_of_getElem? (i := r') ?_)
      rw [List.getElem?_set_ne hne.symm, hr']
    · intro h n hn
      obtain ⟨r', hr'⟩ := List.mem_iff_getElem?.1 hn
      by_cases hne : r' = r
      · subst hne
        rw [List.getElem?_set_self'] at hr'
        obtain ⟨_, -, rfl⟩ := Option.map_eq_some_iff.1 hr'
        exact le_rfl
      · rw [List.getElem?_set_ne (Ne.symm hne)] at hr'
        exact h n (List.mem_eraseIdx_iff_getElem?.2 ⟨r', hne, hr'⟩)

theorem fits_friendsSnapshot_iff {r : ℕ} {documents : List (String × Doc)} (hF : Fits t)
    (es : List Event) (h : t.step (.friendsSnapshot r documents) = some t') :
    Fits t' ↔ KeepsRows es t (.friendsSnapshot r documents) := by
  obtain ⟨uid, p, hp, rfl⟩ := step_friendsSnapshot h
  obtain ⟨-, hnames, -, hnames', -, hrequests⟩ := next_friendsSnapshot hp
  have hD : RecentViewController.numberOfRowsInSection p.lists = documents.length + 1 :=
    congrArg (· + 1) hnames
  have hrest : ∀ s, s = (if documents.isEmpty then { t with process := p }
      else reloadMain { t with process := p } r) →
      s.process = p ∧ s.content = t.content ∧ s.picker = t.picker := by
    rintro s rfl
    split_ifs <;> exact ⟨rfl, rfl, rfl⟩
  have hmain := main_friendsSnapshot (t := t) (r := r) documents hD
  generalize (if documents.isEmpty then { t with process := p }
      else reloadMain { t with process := p } r) = s at hmain hrest
  obtain ⟨hprocess, hcontent, hpicker⟩ := hrest s rfl
  rw [keepsRows_friendsSnapshot]
  constructor
  · intro hF'
    refine ⟨hmain.1 fun n hn => ?_, fun n hn => ?_⟩
    · rw [← hD, ← hprocess]
      exact hF'.main n hn
    · rw [← hnames', ← hprocess]
      exact hF'.picker n (hpicker ▸ hn)
  · rintro ⟨hQ, hQ'⟩
    refine ⟨fun n hn => ?_, fun n hn => ?_, fun n hn => ?_⟩
    · rw [hprocess, hD]
      exact hmain.2 hQ n hn
    · rw [hprocess, hrequests]
      exact hF.content n (hcontent ▸ hn)
    · rw [hprocess, StartGroupChatViewController.numberOfRowsInSection, hnames']
      exact hQ' n (hpicker ▸ hn)

theorem fits_step_iff {e : Event} (hF : Fits t) (es : List Event) (h : t.step e = some t') :
    Fits t' ↔ KeepsRows es t e := by
  cases e with
  | process e =>
    by_cases hrequest : ∃ uid documents, e = .requestSnapshot uid documents
    · obtain ⟨uid, documents, rfl⟩ := hrequest
      exact fits_requestSnapshot_iff hF es h
    · obtain ⟨he, p, hp, rfl⟩ := step_process h
      have hsame : SameLists t.process p := by
        refine sameLists_of_next ?_ hp
        cases e with
        | friendsSnapshot uid documents => cases he
        | requestSnapshot uid documents => exact absurd ⟨uid, documents, rfl⟩ hrequest
        | _ => rfl
      have hQ : KeepsRows es t (.process e) := by
        refine keepsRows_of_notReloaded es ?_
        cases e with
        | requestSnapshot uid documents => exact absurd ⟨uid, documents, rfl⟩ hrequest
        | _ => rfl
      refine iff_of_true (hF.of_counts hsame (fun n hn => ?_) (fun _ => .inl) fun _ => .inl) hQ
      rcases List.mem_append.1 hn with hn | hn
      · exact .inl hn
      · split_ifs at hn
        · exact .inr (List.mem_singleton.1 hn)
        · cases hn
  | friendsSnapshot r documents => exact fits_friendsSnapshot_iff hF es h
  | mainReload r =>
    obtain rfl := Option.some.inj h
    exact iff_of_true (hF.of_counts ⟨rfl, rfl, rfl⟩ (fun _ => List.mem_or_eq_of_mem_set)
      (fun _ => .inl) fun _ => .inl) (keepsRows_of_notReloaded es rfl)
  | mainCellForRowAt r row =>
    exact iff_of_true (step_mainCellForRowAt h ▸ hF) (keepsRows_of_notReloaded es rfl)
  | mainDidSelectRowAt r row tablecell =>
    obtain ⟨information, rfl⟩ := step_mainDidSelectRowAt h
    exact iff_of_true ⟨hF.main, hF.content, hF.picker⟩ (keepsRows_of_notReloaded es rfl)
  | contentDidLoad =>
    obtain rfl := Option.some.inj h
    refine iff_of_true (hF.of_counts ⟨rfl, rfl, rfl⟩ (fun _ => .inl) (fun n hn => ?_)
      fun _ => .inl) (keepsRows_of_notReloaded es rfl)
    exact (List.mem_append.1 hn).imp_right List.mem_singleton.1
  | contentWillAppear c =>
    obtain rfl := Option.some.inj h
    exact iff_of_true (hF.of_counts ⟨rfl, rfl, rfl⟩ (fun _ => .inl)
      (fun _ => List.mem_or_eq_of_mem_set) fun _ => .inl) (keepsRows_of_notReloaded es rfl)
  | contentCellForRowAt c row =>
    obtain ⟨p, hp, rfl⟩ := step_contentCellForRowAt h
    exact iff_of_true (hF.of_counts (sameLists_of_next rfl hp) (fun _ => .inl) (fun _ => .inl)
      fun _ => .inl) (keepsRows_of_notReloaded es rfl)
  | pickerDidLoad =>
    obtain rfl := Option.some.inj h
    refine iff_of_true (hF.of_counts ⟨rfl, rfl, rfl⟩ (fun _ => .inl) (fun _ => .inl)
      fun n hn => ?_) (keepsRows_of_notReloaded es rfl)
    exact (List.mem_append.1 hn).imp_right List.mem_singleton.1
  | pickerCellForRowAt k row tablecell =>
    exact iff_of_true (step_pickerCellForRowAt h ▸ hF) (keepsRows_of_notReloaded es rfl)

theorem inBounds_start : InBounds {} where
  main _ hn := by cases hn
  content _ hn := by cases hn
  picker _ hn := by cases hn

theorem inBounds_step_iff {es : List Event} {e : Event} (hm : EventRun.run step {} es = some t)
    (hI : InBounds t) (hs : t.step e = some t') : InBounds t' ↔ KeepsRows es t e := by
  have hC := columns_of_run hm
  rw [inBounds_iff (columns_step hC hs)]
  exact fits_step_iff ((inBounds_iff hC).1 hI) es hs

/-- In every state of a run every row a table may ask for is within all the lists its cell and a tap
on it read, if and only if no callback on `Friends` or on the requests leaves a table that it does
not reload with more rows than the new lists have. -/
theorem in_bounds_iff {es : List Event} (h : EventRun.run step {} es = some t) :
    EventRun.Passes step (fun _ => InBounds) {} es ↔ EventRun.Meets step KeepsRows {} es :=
  EventRun.passes_iff_meets _ inBounds_start (fun _ _ _ _ => inBounds_step_iff) h

/-- So where the callbacks keep the rows, no table's request or tap traps at a list. -/
theorem answers_of_run {es : List Event} (hQ : EventRun.Meets step KeepsRows {} es)
    (h : EventRun.run step {} es = some t) : Answers t :=
  (EventRun.run_induction (I := fun _ => InBounds) step inBounds_start
    (fun _ _ _ _ hm hI hQ hs => (inBounds_step_iff hm hI hs).2 hQ) es hQ h).answers

/-- `a`, who has one friend, signs out; `c` signs in, and has these friends. -/
def changingAccounts (documents : List (String × Doc)) : List Event :=
  [.process (.chat (.signIn { uid := "a", email := some "a" })),
    .friendsSnapshot 0 [("b", friendDoc "b" false)],
    .process (.chat .signoutClick),
    .process (.chat (.signIn { uid := "c", email := some "c" })),
    .friendsSnapshot 1 documents]

theorem in_bounds_first_account : ∃ t,
    EventRun.run step {} ((changingAccounts []).take 4) = some t ∧
      EventRun.Passes step (fun _ => InBounds) {} ((changingAccounts []).take 4) := by
  obtain ⟨t, ht⟩ := Option.isSome_iff_exists.1
    (by decide : (EventRun.run step {} ((changingAccounts []).take 4)).isSome)
  exact ⟨t, ht, (in_bounds_iff ht).2 (EventRun.meets_of_take _ (by decide))⟩

/-- `c` has no friends: neither table is reloaded, and both still count the friend of `a`. -/
theorem not_in_bounds_always : ¬ ∀ (es : List Event) (t : Tables),
    EventRun.run step {} es = some t → EventRun.Passes step (fun _ => InBounds) {} es := by
  intro hall
  obtain ⟨t, ht⟩ := Option.isSome_iff_exists.1
    (by decide : (EventRun.run step {} (changingAccounts [])).isSome)
  have hin := (hall _ t ht).last _ ht
  obtain ⟨hmain, hfriends⟩ : 2 ∈ t.main ∧ t.process.lists.listOfFriends.length = 0 :=
    (by decide : ∀ t, EventRun.run step {} (changingAccounts []) = some t →
      2 ∈ t.main ∧ t.process.lists.listOfFriends.length = 0) t ht
  have hlt := (hin.main 2 hmain 0 (by omega)).1
  omega

end Tables

end MessageApp
