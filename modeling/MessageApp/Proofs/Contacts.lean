import MessageApp.Contacts
import MessageApp.Proofs.Selection
import MessageApp.Proofs.Told

/-!
# Whom the screens know

Cells, pickers and chats copy from the lists and stay when the lists change, so all that they show
has been told to the process at some time (`chats_of_contacts`).
-/

namespace MessageApp

open Process

/-! ## What the screens copy -/

/-- The name under which a first screen lists a friend or group. -/
def shownName (name : String) (isGroupChat : Bool) : String :=
  if isGroupChat = false then name else name ++ "(Group Chat)"

/-- The process has been told of the id, under the name that is shown. -/
def App.Shows (w : App) (p id shown : String) : Prop :=
  ∃ name isGroupChat, w.Knows p id name isGroupChat ∧ shown = shownName name isGroupChat

theorem App.Shows.mono {w w' : App} (hG : Grows w w') {p id shown : String}
    (h : w.Shows p id shown) : w'.Shows p id shown :=
  h.imp fun _ h => h.imp fun _ h => ⟨h.1.mono hG, h.2⟩

theorem App.ListsKnown.shows_cell {w : App} {p : String} (h : w.ListsKnown p) {row : ℕ}
    {tablecell : RecentViewController.Cell}
    (hc : RecentViewController.cellForRowAt (w.process p).device.globals (w.process p).lists row =
      some tablecell) : w.Shows p tablecell.accessibilityIdentifier tablecell.cellName := by
  obtain ⟨id, hid, hc⟩ := Option.bind_eq_some_iff.1 hc
  obtain ⟨badge, -, hc⟩ := Option.bind_eq_some_iff.1 hc
  obtain ⟨name, hname, hc⟩ := Option.bind_eq_some_iff.1 hc
  obtain ⟨isGroupChat, hflag, hc⟩ := Option.bind_eq_some_iff.1 hc
  obtain rfl := Option.some.inj hc
  obtain ⟨name', hname', hknows⟩ := h.row hid hflag
  obtain rfl := Option.some.inj (hname.symm.trans hname')
  exact ⟨name, isGroupChat, hknows, rfl⟩

namespace StartGroupChatViewController

/-- The selection and the rows on screen are of ids that `P` holds of. -/
structure Picks (P : String → Prop) (picker : StartGroupChatViewController) : Prop where
  selected : ∀ id ∈ picker.groupChatFriends, P id
  visible : ∀ row tablecell, picker.visible row = some tablecell →
    ∀ id ∈ tablecell.accessibilityIdentifier, P id

variable {P Q : String → Prop} {self self' : StartGroupChatViewController} {lists : FriendLists}

theorem Picks.mono (h : self.Picks P) (hPQ : ∀ id, P id → Q id) : self.Picks Q :=
  ⟨fun id hid => hPQ id (h.selected id hid),
    fun row tablecell hv id hid => hPQ id (h.visible row tablecell hv id hid)⟩

theorem mem_of_didSelectRowAt {groupChatFriends : List String} {tablecell : Cell}
    {r : List String × Cell} {id : String}
    (h : StartGroupChatViewController.didSelectRowAt groupChatFriends tablecell = some r)
    (hid : id ∈ r.1) :
    id ∈ groupChatFriends ∨ id ∈ tablecell.accessibilityIdentifier := by
  unfold StartGroupChatViewController.didSelectRowAt at h
  split_ifs at h
  · obtain ⟨id', -, h⟩ := Option.bind_eq_some_iff.1 h
    obtain rfl := Option.some.inj h
    exact .inl (List.mem_of_mem_erase hid)
  · obtain ⟨id', hid', h⟩ := Option.bind_eq_some_iff.1 h
    obtain rfl := Option.some.inj h
    rcases List.mem_append.1 hid with hid | hid
    · exact .inl hid
    · exact .inr (List.mem_singleton.1 hid ▸ hid')

/-- A picker goes on with ids from the lists. -/
theorem Picks.step (h : self.Picks P) (hlists : ∀ id ∈ lists.listOfIdWithoutGroup, P id)
    {e : Event} (hs : self.step lists e = some self') : self'.Picks P := by
  cases e with
  | cellForRowAt row dequeued =>
    obtain ⟨tablecell, reusable, text, id, -, hid, rfl⟩ := step_cellForRowAt hs
    refine ⟨h.selected, fun row' cell hv id' hid' => ?_⟩
    rcases update_cases hv with ⟨-, hnew⟩ | ⟨-, hold⟩
    · obtain rfl := Option.some.inj hnew
      obtain rfl := Option.some.inj hid'
      exact hlists _ (List.mem_of_getElem? hid)
    · exact h.visible row' cell hold id' hid'
  | didEndDisplaying row =>
    obtain ⟨tablecell, rfl⟩ := step_didEndDisplaying hs
    refine ⟨h.selected, fun row' cell hv id' hid' => ?_⟩
    rcases update_cases hv with ⟨-, hnew⟩ | ⟨-, hold⟩
    · cases hnew
    · exact h.visible row' cell hold id' hid'
  | didSelectRowAt row =>
    obtain ⟨tablecell, r, hv, hr, rfl⟩ := step_didSelectRowAt hs
    have hcell := h.visible row tablecell hv
    refine ⟨fun id hid => ?_, fun row' cell hv' id' hid' => ?_⟩
    · rcases mem_of_didSelectRowAt hr hid with hid | hid
      · exact h.selected id hid
      · exact hcell id hid
    · rcases update_cases hv' with ⟨-, hnew⟩ | ⟨-, hold⟩
      · obtain rfl := Option.some.inj hnew
        rw [didSelectRowAt_label hr] at hid'
        exact hcell id' hid'
      · exact h.visible row' cell hold id' hid'

end StartGroupChatViewController

namespace ContactScreens

/-- The screens of the process show what it has been told. -/
structure Known (w : App) (p : String) (v : ContactScreens) : Prop where
  cells : ∀ c ∈ v.cells, w.Shows p c.2.accessibilityIdentifier c.2.cellName
  selected : 0 < v.segues → w.Shows p v.information.idofChat v.nameofChat
  pickers : ∀ picker ∈ v.pickers, picker.Picks (w.KnowsAs p false)

theorem Known.mono {w w' : App} (hG : App.Grows w w') {p : String} {v : ContactScreens}
    (h : v.Known w p) : v.Known w' p where
  cells c hc := (h.cells c hc).mono hG
  selected hs := (h.selected hs).mono hG
  pickers picker hp := (h.pickers picker hp).mono fun _ h => h.mono hG

end ContactScreens

namespace Contacts

variable {init : List AppWrite} {s t : Contacts}

/-- What an event leads to: the app after it, the screens of a process, and the group it starts. -/
inductive Turns (init : List AppWrite) (s : Contacts) :
    Event → App → String → ContactScreens → List (String × String × String) → Prop
  | app {e : App.Event} {app : App} (p : String) : ofScreens e = false →
    s.app.step init e = some app → Turns init s (.app e) app p (s.screens p) []
  | cellForRowAt {p : String} {row : ℕ} {tablecell : RecentViewController.Cell} :
    RecentViewController.cellForRowAt (s.app.process p).device.globals (s.app.process p).lists row =
      some tablecell →
    Turns init s (.cellForRowAt p row) s.app p
      { s.screens p with cells := (s.screens p).cells ++ [(row, tablecell)] } []
  | didSelectRowAt {p : String} {cell row : ℕ} {tablecell : RecentViewController.Cell}
    {isGroupChat : Bool} : (s.screens p).cells[cell]? = some (row, tablecell) →
    (s.app.process p).lists.isGroupChat[row]? = some isGroupChat →
    Turns init s (.didSelectRowAt p cell) s.app p
      { s.screens p with
        nameofChat := tablecell.cellName
        information := ⟨tablecell.accessibilityIdentifier, isGroupChat⟩
        segues := (s.screens p).segues + 1 } []
  | chatWillAppear {p : String} {app : App} : 0 < (s.screens p).segues →
    s.app.step init (.on p (.chat (.openChat (s.screens p).information.idofChat
      (s.screens p).information.isGroupChat))) = some app →
    Turns init s (.chatWillAppear p) app p
      { s.screens p with
        segues := (s.screens p).segues - 1
        titles := (s.screens p).titles ++ [(s.screens p).nameofChat] } []
  | pickerDidLoad (p : String) : Turns init s (.pickerDidLoad p) s.app p
      { s.screens p with pickers := (s.screens p).pickers ++ [{}] } []
  | picker {p : String} {j : ℕ} {e : StartGroupChatViewController.Event}
    {self self' : StartGroupChatViewController} : (s.screens p).pickers[j]? = some self →
    self.step (s.app.process p).lists e = some self' →
    Turns init s (.picker p j e) s.app p
      { s.screens p with pickers := (s.screens p).pickers.set j self' } []
  | startGroupChatNow {p documentID : String} {j : ℕ} {self : StartGroupChatViewController}
    {myUser : User} {app : App} : (s.screens p).pickers[j]? = some self →
    (s.app.process p).device.currentUser = some myUser →
    s.app.step init (.on p (.startGroupChatNow self.groupChatFriends documentID)) = some app →
    Turns init s (.startGroupChatNow p j documentID) app p
      { s.screens p with starting := (s.screens p).starting ++ [j] } [(p, myUser.uid, documentID)]
  | groupAdded {p : String} {k : ℕ} {self : StartGroupChatViewController} {app : App} :
    self ∈ (s.screens p).pickers →
    s.app.step init (.on p (.groupAdded k self.groupChatFriends)) = some app →
    Turns init s (.groupAdded p k) app p
      { s.screens p with starting := (s.screens p).starting.eraseIdx k } []

theorem turns_of_step {e : Event} (h : s.step init e = some t) :
    ∃ app p v started, Turns init s e app p v started ∧
      t = ⟨app, Function.update s.screens p v, s.started ++ started⟩ := by
  have hnil : ∀ {app : App} {screens : String → ContactScreens},
      some (⟨app, screens, s.started⟩ : Contacts) = some t →
      t = ⟨app, screens, s.started ++ []⟩ := by
    intro app screens h
    rw [List.append_nil]
    exact (Option.some.inj h).symm
  cases e with
  | app e =>
    simp only [step] at h
    split_ifs at h with he
    obtain ⟨app, happ, h⟩ := Option.bind_eq_some_iff.1 h
    refine ⟨app, "", _, [], .app "" (by simpa using he) happ, ?_⟩
    rw [Function.update_eq_self]
    exact hnil h
  | cellForRowAt p row =>
    obtain ⟨tablecell, hc, h⟩ := Option.bind_eq_some_iff.1 h
    exact ⟨_, p, _, [], .cellForRowAt hc, hnil h⟩
  | didSelectRowAt p cell =>
    obtain ⟨⟨row, tablecell⟩, hc, h⟩ := Option.bind_eq_some_iff.1 h
    obtain ⟨g, hg, h⟩ := Option.bind_eq_some_iff.1 h
    obtain ⟨isGroupChat, hflag, hg⟩ := Option.bind_eq_some_iff.1 hg
    obtain rfl := Option.some.inj hg
    exact ⟨_, p, _, [], .didSelectRowAt hc hflag, hnil h⟩
  | chatWillAppear p =>
    simp only [step] at h
    split_ifs at h with hsegues
    obtain ⟨app, happ, h⟩ := Option.bind_eq_some_iff.1 h
    exact ⟨app, p, _, [], .chatWillAppear hsegues happ, hnil h⟩
  | pickerDidLoad p => exact ⟨_, p, _, [], .pickerDidLoad p, hnil h⟩
  | picker p j e =>
    obtain ⟨self, hj, h⟩ := Option.bind_eq_some_iff.1 h
    obtain ⟨self', hself', h⟩ := Option.bind_eq_some_iff.1 h
    exact ⟨_, p, _, [], .picker hj hself', hnil h⟩
  | startGroupChatNow p j documentID =>
    obtain ⟨self, hj, h⟩ := Option.bind_eq_some_iff.1 h
    obtain ⟨myUser, hu, h⟩ := Option.bind_eq_some_iff.1 h
    obtain ⟨app, happ, h⟩ := Option.bind_eq_some_iff.1 h
    exact ⟨app, p, _, _, .startGroupChatNow hj hu happ, (Option.some.inj h).symm⟩
  | groupAdded p k =>
    obtain ⟨j, -, h⟩ := Option.bind_eq_some_iff.1 h
    obtain ⟨self, hj, h⟩ := Option.bind_eq_some_iff.1 h
    obtain ⟨app, happ, h⟩ := Option.bind_eq_some_iff.1 h
    exact ⟨app, p, _, [], .groupAdded (List.mem_of_getElem? hj) happ, hnil h⟩

theorem Turns.grows {e : Event} {app : App} {p : String} {v : ContactScreens}
    {started : List (String × String × String)} (h : Turns init s e app p v started) :
    App.Grows s.app app := by
  cases h with
  | app _ _ happ | chatWillAppear _ happ | startGroupChatNow _ _ happ | groupAdded _ happ =>
    exact App.grows_of_step happ
  | _ => exact .refl _

/-- The screens of the process go on showing what it has been told. -/
theorem Turns.known {e : Event} {app : App} {p : String} {v : ContactScreens}
    {started : List (String × String × String)} (h : Turns init s e app p v started)
    (hT : s.app.Tells) (hK : (s.screens p).Known s.app p) : v.Known app p := by
  have hkeep := hK.mono h.grows
  cases h with
  | app => exact hkeep
  | @cellForRowAt _ row tablecell hc =>
    refine ⟨fun c hmem => ?_, hK.selected, hK.pickers⟩
    rcases List.mem_append.1 hmem with hmem | hmem
    · exact hK.cells c hmem
    · obtain rfl := List.mem_singleton.1 hmem
      exact (hT.lists p).shows_cell hc
  | didSelectRowAt hc _ =>
    exact ⟨hK.cells, fun _ => hK.cells _ (List.mem_of_getElem? hc), hK.pickers⟩
  | chatWillAppear hsegues _ => exact ⟨hkeep.cells, fun _ => hkeep.selected hsegues, hkeep.pickers⟩
  | pickerDidLoad =>
    refine ⟨hK.cells, hK.selected, fun picker hmem => ?_⟩
    rcases List.mem_append.1 hmem with hmem | hmem
    · exact hK.pickers picker hmem
    · obtain rfl := List.mem_singleton.1 hmem
      exact ⟨fun id hid => (List.not_mem_nil hid).elim, fun row cell hv => (by cases hv)⟩
  | @picker _ j pe self self' hj hstep =>
    refine ⟨hK.cells, hK.selected, fun picker hmem => ?_⟩
    rcases List.mem_or_eq_of_mem_set hmem with hmem | rfl
    · exact hK.pickers picker hmem
    · exact (hK.pickers self (List.mem_of_getElem? hj)).step (hT.lists p).picked hstep
  | startGroupChatNow | groupAdded => exact ⟨hkeep.cells, hkeep.selected, hkeep.pickers⟩

/-- All that the screens of the processes show, they have been told. -/
structure Known (s : Contacts) : Prop where
  tells : s.app.Tells
  screens : ∀ p, (s.screens p).Known s.app p
  chats : ∀ p, List.Forall₂ (fun title self => s.app.Shows p self.chatWithId title)
    (s.screens p).titles (s.app.process p).device.instances

theorem known_start : start.Known where
  tells := App.tells_start
  screens _ := ⟨fun _ hc => (List.not_mem_nil hc).elim, fun h => absurd h (lt_irrefl 0),
    fun _ hp => (List.not_mem_nil hp).elim⟩
  chats _ := .nil

/-- An event of the app that is not of the screens opens no chat. -/
theorem not_openChat_of_delivers {w : App} {e : App.Event} (he : ofScreens e = false) {p : String}
    {de : Device.Event} (h : App.Delivers init w e p (.chat de)) (id : String)
    (isGroupChat : Bool) : de ≠ .openChat id isGroupChat := by
  rintro rfl
  cases h with
  | on => cases he
  | deliver hcall => cases Query.shows_of_callback hcall

theorem forall₂_set_right {α β : Type*} {R : α → β → Prop} {l : List α} {m : List β}
    (h : List.Forall₂ R l m) {k : ℕ} {a b : β} (hk : m[k]? = some a) (hab : ∀ x, R x a → R x b) :
    List.Forall₂ R l (m.set k b) := by
  induction h generalizing k with
  | nil => cases hk
  | cons hxy h ih =>
    cases k with
    | zero =>
      obtain rfl := Option.some.inj hk
      exact .cons (hab _ hxy) h
    | succ k => exact .cons hxy (ih hk)

/-- The titles stay those of the chats, where no chat opens. -/
theorem forall₂_of_opens {w : App} {p : String} {titles : List String} {d : Device}
    {e : Device.Event} {instances : List ChatViewController}
    (h : List.Forall₂ (fun title (self : ChatViewController) => w.Shows p self.chatWithId title)
      titles d.instances)
    (he : ∀ id isGroupChat, e ≠ .openChat id isGroupChat) (ho : d.Opens e instances) :
    List.Forall₂ (fun title (self : ChatViewController) => w.Shows p self.chatWithId title)
      titles instances := by
  cases ho with
  | same => exact h
  | opened heq _ => exact absurd heq (he _ _)
  | set hk hab => exact forall₂_set_right h hk fun x hx => hab.chatWithId ▸ hx
  | fetched _ hk hab _ => exact forall₂_set_right h hk fun x hx => hab.chatWithId ▸ hx

theorem Known.step (hinit : ∀ x ∈ init, ∀ uid id, DocWrite.path x ≠ .friends uid id)
    (hK : s.Known) {e : Event} (h : s.step init e = some t) : t.Known := by
  obtain ⟨app, p, v, started, hturns, rfl⟩ := turns_of_step h
  have hG := hturns.grows
  refine ⟨?_, fun p' => ?_, fun p' => ?_⟩
  · cases hturns with
    | app _ _ happ | chatWillAppear _ happ | startGroupChatNow _ _ happ | groupAdded _ happ =>
      exact hK.tells.step hinit happ
    | _ => exact hK.tells
  · by_cases hp : p' = p
    · subst hp
      simpa using hturns.known hK.tells (hK.screens p')
    · simpa [Function.update_of_ne hp] using (hK.screens p').mono hG
  · have hchats := (hK.chats p').imp fun _ _ h => App.Shows.mono hG h
    -- without a chat that opens, neither the titles nor the chats' ids change
    have hother : ∀ {ae : App.Event}, s.app.step init ae = some app →
        (∀ {de : Device.Event}, App.Delivers init s.app ae p' (.chat de) →
          ∀ id isGroupChat, de ≠ .openChat id isGroupChat) →
        List.Forall₂ (fun title self => app.Shows p' self.chatWithId title)
          (s.screens p').titles (app.process p').device.instances := by
      intro ae happ hne
      rcases App.opens_of_step happ p' with heq | ⟨de, hde, ho⟩
      · rw [heq]
        exact hchats
      · exact forall₂_of_opens hchats (hne hde) ho
    by_cases hp : p' = p
    · subst hp
      simp only [Function.update_self]
      cases hturns with
      | app _ he happ => exact hother happ fun hde => not_openChat_of_delivers he hde
      | chatWillAppear hsegues happ =>
        obtain ⟨docRefc, hinstances⟩ := App.instances_of_openChat happ
        rw [hinstances]
        exact List.rel_append hchats (.cons (((hK.screens p').selected hsegues).mono hG) .nil)
      | startGroupChatNow _ _ happ | groupAdded _ happ =>
        exact hother happ fun hde => by cases hde
      | _ => exact hchats
    · simp only [Function.update_of_ne hp]
      cases hturns with
      | app _ he happ => exact hother happ fun hde => not_openChat_of_delivers he hde
      | chatWillAppear _ happ =>
        exact hother happ fun hde => by
          cases hde
          exact absurd rfl hp
      | startGroupChatNow _ _ happ | groupAdded _ happ =>
        exact hother happ fun hde => by cases hde
      | _ => exact hchats

theorem known_of_run (hinit : ∀ x ∈ init, ∀ uid id, DocWrite.path x ≠ .friends uid id)
    {es : List Event} (h : EventRun.run (step init) start es = some s) : s.Known :=
  EventRun.run_invariant (step init) (fun _ _ _ hK hs => hK.step hinit hs) known_start h

/-- A tap finds at its row the id of the cell. -/
def FindsRow (s : Contacts) : Event → Prop
  | .didSelectRowAt p cell => ∀ c ∈ (s.screens p).cells[cell]?,
      (s.app.process p).device.globals.listOfId[c.1]? = some c.2.accessibilityIdentifier
  | _ => True

instance (s : Contacts) : DecidablePred s.FindsRow
  | .didSelectRowAt p cell => inferInstanceAs (Decidable (∀ c ∈ (s.screens p).cells[cell]?,
      (s.app.process p).device.globals.listOfId[c.1]? = some c.2.accessibilityIdentifier))
  | .app _ | .cellForRowAt _ _ | .chatWillAppear _ | .pickerDidLoad _ | .picker _ _ _
  | .startGroupChatNow _ _ _ | .groupAdded _ _ => .isTrue trivial

/-- The chats, and the one that has been tapped, are known as what they are opened as. -/
structure Flagged (s : Contacts) : Prop where
  selected : ∀ p, 0 < (s.screens p).segues →
    s.app.KnowsAs p (s.screens p).information.isGroupChat (s.screens p).information.idofChat
  chats : ∀ p, ∀ self ∈ (s.app.process p).device.instances,
    s.app.KnowsAs p self.chatisGroupChat self.chatWithId

theorem flagged_start : start.Flagged where
  selected _ h := absurd h (lt_irrefl 0)
  chats _ _ h := (List.not_mem_nil h).elim

theorem Flagged.step (hK : s.Known) (hF : s.Flagged) {e : Event} (he : s.FindsRow e)
    (h : s.step init e = some t) : t.Flagged := by
  obtain ⟨app, p, v, started, hturns, rfl⟩ := turns_of_step h
  have hG := hturns.grows
  refine ⟨fun p' => ?_, fun p' self hself => ?_⟩
  · have hkeep : 0 < (s.screens p').segues → app.KnowsAs p'
        (s.screens p').information.isGroupChat (s.screens p').information.idofChat :=
      fun hs => (hF.selected p' hs).mono hG
    by_cases hp : p' = p
    · subst hp
      simp only [Function.update_self]
      cases hturns with
      | didSelectRowAt hc hflag =>
        obtain ⟨name, -, hknows⟩ := (hK.tells.lists p').row (he _ hc) hflag
        exact fun _ => ⟨name, hknows⟩
      | chatWillAppear hsegues _ => exact fun _ => hkeep hsegues
      | _ => exact hkeep
    · simpa only [Function.update_of_ne hp] using hkeep
  · have hold : ∀ {a : ChatViewController}, a ∈ (s.app.process p').device.instances →
        app.KnowsAs p' a.chatisGroupChat a.chatWithId := fun ha => (hF.chats p' _ ha).mono hG
    have hstep : ∀ {ae : App.Event}, s.app.step init ae = some app →
        (∀ {de : Device.Event}, App.Delivers init s.app ae p' (.chat de) →
          ∀ id isGroupChat, de = .openChat id isGroupChat → app.KnowsAs p' isGroupChat id) →
        app.KnowsAs p' self.chatisGroupChat self.chatWithId := by
      intro ae happ hopen
      rcases App.opens_of_step happ p' with heq | ⟨de, hde, ho⟩
      · exact hold (heq ▸ hself)
      · rcases ho.mem hself with ⟨a, ha, hab⟩ | ⟨user, heq, -, -⟩
        · rw [hab.chatWithId, hab.chatisGroupChat]
          exact hold ha
        · exact hopen hde _ _ heq
    cases hturns with
    | app _ hof happ =>
      exact hstep happ fun hde id g heq => absurd heq (not_openChat_of_delivers hof hde id g)
    | chatWillAppear hsegues happ =>
      refine hstep happ fun hde id g heq => ?_
      cases hde
      cases heq
      exact (hF.selected _ hsegues).mono hG
    | startGroupChatNow _ _ happ | groupAdded _ happ =>
      exact hstep happ fun hde => by cases hde
    | _ => exact hold hself

theorem flagged_of_run (hinit : ∀ x ∈ init, ∀ uid id, DocWrite.path x ≠ .friends uid id)
    {es : List Event} (hmeets : EventRun.Meets (step init) (fun _ => FindsRow) start es)
    (h : EventRun.run (step init) start es = some s) : s.Flagged := by
  refine EventRun.run_induction (Q := fun _ => FindsRow) (I := fun _ s => s.Flagged) (step init)
    flagged_start ?_ es hmeets h
  intro es m e t hm hF he hs
  exact hF.step (known_of_run hinit hm) he hs

/-- From a store without friends: the title of each chat is the name of a friend or group of its id
that has been told to an account the process has listened for. If each tap finds at its row the id
of the cell, the chat is one of a friend or of a group as it has been told. -/
theorem chats_of_contacts (hinit : ∀ x ∈ init, ∀ uid id, DocWrite.path x ≠ .friends uid id)
    {es : List Event} (h : EventRun.run (step init) start es = some s) :
    (∀ p, List.Forall₂ (fun title self => s.app.Shows p self.chatWithId title)
      (s.screens p).titles (s.app.process p).device.instances) ∧
    (EventRun.Meets (step init) (fun _ => FindsRow) start es →
      ∀ p, ∀ self ∈ (s.app.process p).device.instances,
        s.app.KnowsAs p self.chatisGroupChat self.chatWithId) :=
  ⟨(known_of_run hinit h).chats, fun hmeets => (flagged_of_run hinit hmeets h).chats⟩

/-- `a` accepts `b`, and opens their chat from the row of `b`. -/
def chatting : List Event :=
  App.accepting.map .app ++ [.app (.deliver "p" (.friends "a") 4 0), .cellForRowAt "p" 0,
    .didSelectRowAt "p" 0, .chatWillAppear "p"]

theorem chats_of_contacts_chatting : ∃ s,
    EventRun.run (step App.requested) start chatting = some s ∧
      ∃ self ∈ (s.app.process "p").device.instances,
        s.app.KnowsAs "p" self.chatisGroupChat self.chatWithId := by
  obtain ⟨s, hs⟩ := Option.isSome_iff_exists.1
    (by decide +kernel : (EventRun.run (step App.requested) start chatting).isSome)
  obtain ⟨self, hself⟩ : ∃ self, self ∈ (s.app.process "p").device.instances :=
    List.exists_mem_of_length_pos ((by decide +kernel :
      ∀ s ∈ EventRun.run (step App.requested) start chatting,
        0 < (s.app.process "p").device.instances.length) s hs)
  exact ⟨s, hs, self, hself, (chats_of_contacts (by simp [App.requested]) hs).2
    (EventRun.meets_of_take _ (by decide +kernel)) "p" self hself⟩

end Contacts

end MessageApp
