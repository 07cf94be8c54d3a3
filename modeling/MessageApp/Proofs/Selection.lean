import Mathlib.Algebra.Ring.Parity
import MessageApp.Proofs.Audience
import MessageApp.StartGroupChatViewController

/-!
# The picker's selection

A tap goes by the mark of the row's cell. While every mark is right a tap toggles the row's friend,
and the selection is what was tapped an odd number of times. No other cell shows that friend, so the
marks stay right until a row comes on screen with a cell that brings a wrong one
(`shows_selection_iff`).
-/

namespace MessageApp

/-! ## Toggling -/

section Toggle

variable {α : Type*} [DecidableEq α]

/-- An element that is there is taken out, and one that is not is put in. -/
def toggle (l : List α) (a : α) : List α := if a ∈ l then l.erase a else l ++ [a]

theorem nodup_toggle {l : List α} (h : l.Nodup) (a : α) : (toggle l a).Nodup := by
  unfold toggle
  split_ifs with ha
  · exact h.erase a
  · exact h.append (List.nodup_singleton a) (by simpa using ha)

theorem mem_toggle {l : List α} (h : l.Nodup) {a x : α} :
    x ∈ toggle l a ↔ if a = x then x ∉ l else x ∈ l := by
  unfold toggle
  by_cases hax : a = x
  · subst hax
    by_cases ha : a ∈ l <;> simp [h.mem_erase_iff, ha]
  · have hxa : x ≠ a := Ne.symm hax
    by_cases ha : a ∈ l <;> simp [h.mem_erase_iff, ha, hax, hxa]

end Toggle

/-- The friends of a picker: as many names as ids, and no id twice. -/
structure PickerFriends where
  lists : FriendLists
  length_eq : lists.listOfFriendsWithoutGroup.length = lists.listOfIdWithoutGroup.length
  nodup : lists.listOfIdWithoutGroup.Nodup

/-- The documents of one snapshot of `Friends` have different ids. -/
def PickerFriends.ofSnapshot {g g' : Globals} {lists : FriendLists}
    {documents : List (String × Doc)}
    (h : RecentViewController.friendsListener g documents = some (g', lists))
    (hdocuments : (documents.map Prod.fst).Nodup) : PickerFriends where
  lists := lists
  length_eq := by
    obtain ⟨-, -, hnames, hids⟩ := Process.friendsListener_lists h
    rw [hnames, hids]
  nodup := by
    obtain ⟨-, -, -, hids⟩ := Process.friendsListener_lists h
    rw [hids]
    exact (List.filter_sublist.map Prod.fst).nodup hdocuments

namespace StartGroupChatViewController

/-! ## Steps -/

section Steps

variable {lists : FriendLists} {self self' : StartGroupChatViewController} {row : ℕ}

theorem step_cellForRowAt {dequeued : Option ℕ}
    (h : self.step lists (.cellForRowAt row dequeued) = some self') :
    ∃ tablecell reusable text id,
      dequeueReusableCell self.reusable dequeued = some (tablecell, reusable) ∧
      lists.listOfIdWithoutGroup[row]? = some id ∧
      self' = { self with
        visible := Function.update self.visible row (some { tablecell with
          textLabel := some text, accessibilityIdentifier := some id })
        reusable := reusable } := by
  simp only [step] at h
  split_ifs at h
  obtain ⟨⟨tablecell, reusable⟩, hd, h⟩ := Option.bind_eq_some_iff.1 h
  obtain ⟨cell, hc, h⟩ := Option.bind_eq_some_iff.1 h
  obtain ⟨text, -, hc⟩ := Option.bind_eq_some_iff.1 hc
  obtain ⟨id, hid, hc⟩ := Option.bind_eq_some_iff.1 hc
  obtain rfl := Option.some.inj hc
  exact ⟨tablecell, reusable, text, id, hd, hid, (Option.some.inj h).symm⟩

theorem step_didEndDisplaying (h : self.step lists (.didEndDisplaying row) = some self') :
    ∃ tablecell, self' = { self with
      visible := Function.update self.visible row none
      reusable := self.reusable ++ [tablecell] } := by
  obtain ⟨tablecell, -, h⟩ := Option.bind_eq_some_iff.1 h
  exact ⟨tablecell, (Option.some.inj h).symm⟩

theorem step_didSelectRowAt (h : self.step lists (.didSelectRowAt row) = some self') :
    ∃ tablecell r, self.visible row = some tablecell ∧
      StartGroupChatViewController.didSelectRowAt self.groupChatFriends tablecell = some r ∧
      self' = { self with
        groupChatFriends := r.1, visible := Function.update self.visible row (some r.2) } := by
  obtain ⟨tablecell, hv, h⟩ := Option.bind_eq_some_iff.1 h
  obtain ⟨r, hr, h⟩ := Option.bind_eq_some_iff.1 h
  exact ⟨tablecell, r, hv, hr, (Option.some.inj h).symm⟩

/-- On a cell whose mark is right, a tap toggles the friend and the mark. -/
theorem didSelectRowAt_of_shows {groupChatFriends : List String} {tablecell : Cell} {id : String}
    (hid : tablecell.accessibilityIdentifier = some id)
    (hmark : tablecell.accessoryType = .checkmark ↔ id ∈ groupChatFriends) :
    StartGroupChatViewController.didSelectRowAt groupChatFriends tablecell =
      some (toggle groupChatFriends id, { tablecell with
        accessoryType := if id ∈ groupChatFriends then .none else .checkmark }) := by
  unfold StartGroupChatViewController.didSelectRowAt toggle
  by_cases hmem : id ∈ groupChatFriends
  · rw [if_pos (hmark.2 hmem), if_pos hmem, if_pos hmem]
    simp [hid]
  · rw [if_neg fun h => hmem (hmark.1 h), if_neg hmem, if_neg hmem]
    simp [hid]

end Steps

/-! ## What the rows show -/

section Rows

variable (lists : FriendLists)

/-- The event is a tap on the friend. -/
def Event.taps (id : String) : Event → Bool
  | .didSelectRowAt row => lists.listOfIdWithoutGroup[row]? = some id
  | _ => false

/-- The selection is what was tapped an odd number of times, each friend once, and the rows on
screen show it. -/
structure ShowsSelection (es : List Event) (s : StartGroupChatViewController) : Prop where
  nodup : s.groupChatFriends.Nodup
  mem_iff : ∀ id, id ∈ s.groupChatFriends ↔ Odd (es.countP (Event.taps lists id))
  checkmark_iff : ∀ row tablecell id, s.visible row = some tablecell →
    lists.listOfIdWithoutGroup[row]? = some id →
    (tablecell.accessoryType = .checkmark ↔ id ∈ s.groupChatFriends)

/-- A row that comes on screen gets a cell that has a mark exactly if its friend is selected. -/
def BringsRightMark (_ : List Event) (self : StartGroupChatViewController) : Event → Prop
  | .cellForRowAt row dequeued => ∀ c ∈ dequeueReusableCell self.reusable dequeued,
      ∀ id ∈ lists.listOfIdWithoutGroup[row]?,
        (c.1.accessoryType = .checkmark ↔ id ∈ self.groupChatFriends)
  | _ => True

instance (es : List Event) (self : StartGroupChatViewController) :
    DecidablePred (BringsRightMark lists es self)
  | .cellForRowAt row dequeued => inferInstanceAs (Decidable
      (∀ c ∈ dequeueReusableCell self.reusable dequeued, ∀ id ∈ lists.listOfIdWithoutGroup[row]?,
        (c.1.accessoryType = .checkmark ↔ id ∈ self.groupChatFriends)))
  | .didEndDisplaying _ | .didSelectRowAt _ => .isTrue trivial

/-- The rows on screen are of their friends. -/
def Labelled (self : StartGroupChatViewController) : Prop :=
  ∀ row tablecell, self.visible row = some tablecell →
    ∃ id, lists.listOfIdWithoutGroup[row]? = some id ∧
      tablecell.accessibilityIdentifier = some id

variable {lists} {self self' : StartGroupChatViewController} {es : List Event}

theorem didSelectRowAt_label {groupChatFriends : List String} {tablecell : Cell}
    {r : List String × Cell}
    (h : StartGroupChatViewController.didSelectRowAt groupChatFriends tablecell = some r) :
    r.2.accessibilityIdentifier = tablecell.accessibilityIdentifier := by
  unfold StartGroupChatViewController.didSelectRowAt at h
  split_ifs at h
  all_goals
    obtain ⟨id, -, h⟩ := Option.bind_eq_some_iff.1 h
    rw [← Option.some.inj h]

theorem update_cases {visible : ℕ → Option Cell} {row row' : ℕ} {cell : Option Cell}
    {tablecell : Cell} (h : Function.update visible row cell row' = some tablecell) :
    row' = row ∧ cell = some tablecell ∨ row' ≠ row ∧ visible row' = some tablecell := by
  by_cases hrow : row' = row
  · subst hrow
    rw [Function.update_self] at h
    exact .inl ⟨rfl, h⟩
  · rw [Function.update_of_ne hrow] at h
    exact .inr ⟨hrow, h⟩

theorem Labelled.update {row : ℕ} {cell : Option Cell} (hI : Labelled lists self)
    (hv : self'.visible = Function.update self.visible row cell)
    (hcell : ∀ tablecell ∈ cell, ∃ id, lists.listOfIdWithoutGroup[row]? = some id ∧
      tablecell.accessibilityIdentifier = some id) : Labelled lists self' := by
  intro row' tablecell h
  rw [hv] at h
  rcases update_cases h with ⟨rfl, hnew⟩ | ⟨-, hold⟩
  · exact hcell tablecell hnew
  · exact hI row' tablecell hold

theorem Labelled.step {e : Event} (hI : Labelled lists self)
    (h : self.step lists e = some self') : Labelled lists self' := by
  cases e with
  | cellForRowAt row dequeued =>
    obtain ⟨tablecell, reusable, text, id, -, hid, rfl⟩ := step_cellForRowAt h
    refine hI.update rfl fun cell hcell => ?_
    obtain rfl := Option.some.inj hcell
    exact ⟨id, hid, rfl⟩
  | didEndDisplaying row =>
    obtain ⟨tablecell, rfl⟩ := step_didEndDisplaying h
    exact hI.update rfl fun cell hcell => by cases hcell
  | didSelectRowAt row =>
    obtain ⟨tablecell, r, hv, hr, rfl⟩ := step_didSelectRowAt h
    refine hI.update rfl fun cell hcell => ?_
    obtain rfl := Option.some.inj hcell
    rw [didSelectRowAt_label hr]
    exact hI row tablecell hv

theorem labelled_of_run (h : EventRun.run (step lists) {} es = some self) :
    Labelled lists self :=
  EventRun.run_invariant (step lists) (fun _ _ _ hI hs => hI.step hs) (fun _ _ h => by cases h) h

theorem countP_taps_snoc (id : String) (e : Event) :
    (es ++ [e]).countP (Event.taps lists id) =
      es.countP (Event.taps lists id) + if Event.taps lists id e then 1 else 0 := by
  rw [List.countP_append, List.countP_singleton]

/-- Without a tap, the selection is right as before. -/
theorem ShowsSelection.of_rows {e : Event} (hI : ShowsSelection lists es self)
    (he : ∀ id, Event.taps lists id e = false)
    (hsel : self'.groupChatFriends = self.groupChatFriends)
    (hrows : ∀ row tablecell id, self'.visible row = some tablecell →
      lists.listOfIdWithoutGroup[row]? = some id →
      (tablecell.accessoryType = .checkmark ↔ id ∈ self.groupChatFriends)) :
    ShowsSelection lists (es ++ [e]) self' where
  nodup := hsel ▸ hI.nodup
  mem_iff id := by
    rw [hsel, countP_taps_snoc, he id]
    exact hI.mem_iff id
  checkmark_iff := hsel ▸ hrows

/-- A row comes on screen: the marks are right exactly if its cell's is. -/
theorem shows_cellForRowAt_iff {row : ℕ} {dequeued : Option ℕ} (hI : ShowsSelection lists es self)
    (h : self.step lists (.cellForRowAt row dequeued) = some self') :
    ShowsSelection lists (es ++ [.cellForRowAt row dequeued]) self' ↔
      BringsRightMark lists es self (.cellForRowAt row dequeued) := by
  obtain ⟨tablecell, reusable, text, id, hd, hid, rfl⟩ := step_cellForRowAt h
  constructor
  · intro hI' c hd' id' hid'
    obtain rfl := Option.some.inj (hd.symm.trans hd')
    refine hI'.checkmark_iff row { tablecell with
      textLabel := some text, accessibilityIdentifier := some id } id' ?_ hid'
    exact Function.update_self ..
  · intro hmark
    refine hI.of_rows (fun _ => rfl) rfl fun row' cell id' hv hid' => ?_
    rcases update_cases hv with ⟨rfl, hnew⟩ | ⟨-, hold⟩
    · obtain rfl := Option.some.inj hnew
      exact hmark (tablecell, reusable) hd id' hid'
    · exact hI.checkmark_iff row' cell id' hold hid'

theorem ShowsSelection.didEndDisplaying {row : ℕ} (hI : ShowsSelection lists es self)
    (h : self.step lists (.didEndDisplaying row) = some self') :
    ShowsSelection lists (es ++ [.didEndDisplaying row]) self' := by
  obtain ⟨tablecell, rfl⟩ := step_didEndDisplaying h
  refine hI.of_rows (fun _ => rfl) rfl fun row' cell id hv hid => ?_
  rcases update_cases hv with ⟨-, hnew⟩ | ⟨-, hold⟩
  · cases hnew
  · exact hI.checkmark_iff row' cell id hold hid

/-- A tap toggles the row's friend, whom no other row shows. -/
theorem ShowsSelection.didSelectRowAt {row : ℕ} (hnodup : lists.listOfIdWithoutGroup.Nodup)
    (hL : Labelled lists self) (hI : ShowsSelection lists es self)
    (h : self.step lists (.didSelectRowAt row) = some self') :
    ShowsSelection lists (es ++ [.didSelectRowAt row]) self' := by
  obtain ⟨tablecell, r, hv, hr, rfl⟩ := step_didSelectRowAt h
  obtain ⟨id, hid, hlabel⟩ := hL row tablecell hv
  rw [didSelectRowAt_of_shows hlabel (hI.checkmark_iff row tablecell id hv hid)] at hr
  obtain rfl := Option.some.inj hr
  refine ⟨nodup_toggle hI.nodup id, fun x => ?_, fun row' cell x hv' hx => ?_⟩
  · rw [mem_toggle hI.nodup, countP_taps_snoc, hI.mem_iff]
    by_cases hx : id = x
    · simp [Event.taps, hid, hx, Nat.odd_add_one]
    · simp [Event.taps, hid, hx]
  · rw [mem_toggle hI.nodup]
    rcases update_cases hv' with ⟨rfl, hnew⟩ | ⟨hrow, hold⟩
    · obtain rfl := Option.some.inj (hid.symm.trans hx)
      obtain rfl := Option.some.inj hnew
      by_cases hmem : id ∈ self.groupChatFriends <;> simp [hmem]
    · have hne : id ≠ x := by
        rintro rfl
        exact hrow ((List.getElem?_inj (List.getElem?_eq_some_iff.1 hx).1 hnodup).1
          (hx.trans hid.symm))
      rw [if_neg hne]
      exact hI.checkmark_iff row' cell x hold hx

end Rows

/-- In a run of a picker, every state shows the selection, which is what was tapped an odd number of
times, if and only if every row that comes on screen gets a cell with the right mark. -/
theorem shows_selection_iff (F : PickerFriends) {es : List Event}
    {self : StartGroupChatViewController} (h : EventRun.run (step F.lists) {} es = some self) :
    EventRun.Passes (step F.lists) (ShowsSelection F.lists) {} es ↔
      EventRun.Meets (step F.lists) (BringsRightMark F.lists) {} es := by
  refine EventRun.passes_iff_meets _ ⟨List.nodup_nil, fun _ => by simp, fun _ _ _ h => by cases h⟩
    (fun es m e t hm hI hs => ?_) h
  cases e with
  | cellForRowAt row dequeued => exact shows_cellForRowAt_iff hI hs
  | didEndDisplaying row => exact iff_of_true (hI.didEndDisplaying hs) trivial
  | didSelectRowAt row =>
    exact iff_of_true (hI.didSelectRowAt F.nodup (labelled_of_run hm) hs) trivial

/-- Three friends, for a screen with room for two. -/
def threeDocuments : List (String × Doc) :=
  [("a", Process.friendDoc "A" false), ("b", Process.friendDoc "B" false),
    ("c", Process.friendDoc "C" false)]

def threeFriends : PickerFriends :=
  .ofSnapshot (show RecentViewController.friendsListener {} threeDocuments = some _ from rfl)
    (by decide)

/-- `a` is tapped, its row leaves the screen, and the row of `c` comes on it. -/
def scrolling (dequeued : Option ℕ) : List Event :=
  [.cellForRowAt 0 none, .cellForRowAt 1 none, .didSelectRowAt 0, .didEndDisplaying 0,
    .cellForRowAt 2 dequeued]

theorem shows_selection_newCell : ∃ self,
    EventRun.run (step threeFriends.lists) {} (scrolling none) = some self ∧
      EventRun.Passes (step threeFriends.lists) (ShowsSelection threeFriends.lists) {}
        (scrolling none) := by
  obtain ⟨self, h⟩ := Option.isSome_iff_exists.1
    (by decide : (EventRun.run (step threeFriends.lists) {} (scrolling none)).isSome)
  exact ⟨self, h, (shows_selection_iff threeFriends h).2 (EventRun.meets_of_take _ (by decide))⟩

/-- The cell of `a` becomes the cell of `c`, mark included. -/
theorem not_shows_selection_always :
    ¬ ∀ (F : PickerFriends) (es : List Event) (self : StartGroupChatViewController),
      EventRun.run (step F.lists) {} es = some self →
        EventRun.Passes (step F.lists) (ShowsSelection F.lists) {} es := by
  intro hall
  obtain ⟨self, h⟩ := Option.isSome_iff_exists.1
    (by decide : (EventRun.run (step threeFriends.lists) {} (scrolling (some 0))).isSome)
  have hshows := (hall threeFriends _ self h).last _ h
  obtain ⟨tablecell, hv, hmark, hsel⟩ : ∃ tablecell, self.visible 2 = some tablecell ∧
      tablecell.accessoryType = .checkmark ∧ "c" ∉ self.groupChatFriends :=
    (by decide : ∀ self,
      EventRun.run (step threeFriends.lists) {} (scrolling (some 0)) = some self →
        ∃ tablecell, self.visible 2 = some tablecell ∧
          tablecell.accessoryType = .checkmark ∧ "c" ∉ self.groupChatFriends) self h
  exact hsel ((hshows.checkmark_iff 2 tablecell "c" hv (by decide)).1 hmark)

end StartGroupChatViewController

end MessageApp
