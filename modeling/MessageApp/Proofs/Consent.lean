import MessageApp.Proofs.AppSteps
import MessageApp.Proofs.Documents

/-!
# Friendship takes consent

Whom a request is from travels through three globals and a cell of the table; that it is to the
account signed in is nowhere recorded. `Origins` follows the account a list, a cell, a selection and
a screen stem from. What stems from an account's list was asked of that account (`Traced.step`), so
agreeing befriends someone who asked whenever the screen stems from a list of the account that is
signed in at the click (`friends_consented`).
-/

namespace MessageApp

/-- The account whose requests each of them shows, if any. -/
structure Origins where
  information : Option String := none
  cells : List (Option String) := []
  selected : Option String := none
  screens : List (Option String) := []

def Origins.next (o : Origins) : Process.Event → Origins
  | .requestSnapshot uid _ => { o with information := some uid }
  | .cellForRowAt _ => { o with cells := o.cells ++ [o.information] }
  | .didSelectRowAt cell => { o with selected := o.cells[cell]?.join }
  | .requestDidLoad => { o with screens := o.screens ++ [o.selected] }
  | _ => o

/-- `a` has asked `b`. -/
def Asked (encoded : List Encoded) (a b : String) : Prop :=
  ∃ name, Encoded.request a name b ∈ encoded

theorem Asked.append {encoded : List Encoded} {a b : String} (h : Asked encoded a b)
    (encoded' : List Encoded) : Asked (encoded ++ encoded') a b :=
  h.imp fun _ h => List.mem_append_left _ h

/-- A requester of a list has asked the account whose list it is. -/
def AskedBy (encoded : List Encoded) (origin : Option String) (id : String) : Prop :=
  ∀ uid ∈ origin, Asked encoded id uid

theorem AskedBy.append {encoded : List Encoded} {origin : Option String} {id : String}
    (h : AskedBy encoded origin id) (encoded' : List Encoded) :
    AskedBy (encoded ++ encoded') origin id :=
  fun uid hu => (h uid hu).append encoded'

/-- Whatever stems from an account's list was asked of that account. -/
structure Traced (o : Origins) (encoded : List Encoded) (p : Process) : Prop where
  information : ∀ id ∈ p.friendRequestInformation.id, AskedBy encoded o.information id
  cells : List.Forall₂ (fun origin cell => AskedBy encoded origin cell.id) o.cells p.cells
  selected : AskedBy encoded o.selected p.friendSelectedInformation.id
  screens : List.Forall₂ (fun origin self => AskedBy encoded origin self.id) o.screens
    p.requestScreens

theorem traced_start : Traced {} [] {} where
  information _ h := (List.not_mem_nil h).elim
  cells := .nil
  selected _ h := by cases h
  screens := .nil

theorem Traced.append {o : Origins} {encoded : List Encoded} {p : Process}
    (h : Traced o encoded p) (encoded' : List Encoded) : Traced o (encoded ++ encoded') p where
  information id hid := (h.information id hid).append encoded'
  cells := h.cells.imp fun _ _ h => h.append encoded'
  selected := h.selected.append encoded'
  screens := h.screens.imp fun _ _ h => h.append encoded'

theorem Traced.step {o : Origins} {encoded : List Encoded} {p q : Process} {e : Process.Event}
    {ws : List AppWrite} (hI : Traced o encoded p) (h : Process.Effect p e q ws)
    (hasked : ∀ uid documents, e = .requestSnapshot uid documents →
      ∀ d ∈ documents, Asked encoded d.1 uid) : Traced (o.next e) encoded q := by
  cases h with
  | requestSnapshot hu hi =>
    obtain ⟨name, -, hi⟩ := Option.bind_eq_some_iff.1 hi
    obtain rfl := Option.some.inj hi
    refine ⟨fun id hid uid hu => ?_, hI.cells, hI.selected, hI.screens⟩
    obtain ⟨d, hd, rfl⟩ := List.mem_map.1 hid
    exact Option.some.inj hu ▸ hasked _ _ rfl d hd
  | cellForRowAt hname hid =>
    refine ⟨hI.information, List.rel_append hI.cells (.cons ?_ .nil), hI.selected, hI.screens⟩
    exact hI.information _ (List.mem_of_getElem? hid)
  | didSelectRowAt hc =>
    exact ⟨hI.information, hI.cells,
      fun uid hu => forall₂_getElem? hI.cells (Option.join_eq_some_iff.1 hu) hc uid rfl, hI.screens⟩
  | requestDidLoad hs =>
    exact ⟨hI.information, hI.cells, hI.selected,
      List.rel_append hI.screens (.cons hI.selected .nil)⟩
  | _ => exact ⟨hI.information, hI.cells, hI.selected, hI.screens⟩

namespace App

variable {init : List AppWrite}

/-- What the snapshots and buttons of a process have led to. -/
def Event.origins (p : String) (o : Origins) : Event → Origins
  | .on p' pe => if p' = p then o.next pe else o
  | .deliver p' (.requests uid) _ _ => if p' = p then { o with information := some uid } else o
  | _ => o

def origins (p : String) (es : List Event) : Origins := es.foldl (Event.origins p) {}

theorem origins_snoc (p : String) (es : List Event) (e : Event) :
    origins p (es ++ [e]) = Event.origins p (origins p es) e := by
  simp [origins]

/-- Agreeing now befriends someone who has asked the account that is signed in. -/
def Consents (_ : List Event) (w : App) : Event → Prop
  | .on p (.agreeClicked i) => ∀ self user, (w.process p).requestScreens[i]? = some self →
      (w.process p).device.currentUser = some user → Asked w.encoded self.id user.uid
  | _ => True

/-- A screen on which agree is clicked stems from a list of the account that is signed in. -/
def AgreesToOwn (es : List Event) (w : App) : Event → Prop
  | .on p (.agreeClicked i) => ∀ user, (w.process p).device.currentUser = some user →
      (origins p es).screens[i]? = some (some user.uid)
  | _ => True

/-! ## What is asked -/

/-- A document of the chats. -/
def IsOfChats : DocPath → Prop
  | .conversation _ _ | .groupConversation _ | .chatBuffer _ _ => True
  | _ => False

theorem send_isOfChats (self : ChatViewController) (content uid flag t : String) :
    ∀ w ∈ (self.send content uid flag t).2.1, IsOfChats (DocWrite.path w) := by
  intro w hw
  unfold ChatViewController.send at hw
  split_ifs at hw
  · rcases List.mem_pair.1 hw with rfl | rfl <;> trivial
  · rcases List.mem_cons.1 hw with rfl | hw
    · trivial
    · rcases List.mem_pair.1 hw with rfl | rfl <;> trivial

theorem chat_isOfChats {d d' : Device} {e : Device.Event} {ws : List Write}
    (h : d.step e = some (d', ws)) : ∀ w ∈ ws, IsOfChats (DocWrite.path w) := by
  have hnil : ws = [] → ∀ w ∈ ws, IsOfChats (DocWrite.path w) := by
    rintro rfl w hw
    cases hw
  cases e with
  | signIn user | signoutClick | signout =>
    obtain ⟨-, rfl⟩ := Prod.mk.inj (Option.some.inj h)
    exact hnil rfl
  | bufferSnapshot uid doc =>
    obtain ⟨data, b, -, -, -, rfl⟩ := Device.step_bufferSnapshot h
    exact hnil rfl
  | openChat id g =>
    obtain ⟨user, kept, -, -, -, rfl⟩ := Device.step_openChat h
    intro w hw
    rcases List.mem_pair.1 hw with rfl | rfl <;> trivial
  | conversationSnapshot i doc =>
    obtain ⟨self, q, s, -, -, -, -, rfl⟩ := Device.step_conversationSnapshot h
    exact hnil rfl
  | roomMemberFetched i doc =>
    obtain ⟨self, self', -, -, -, -, rfl⟩ := Device.step_roomMemberFetched h
    exact hnil rfl
  | finishEditing i text t =>
    obtain ⟨self, r, -, hr, hd⟩ := Device.step_finishEditing h
    obtain ⟨-, rfl⟩ := Prod.mk.inj hd
    unfold ChatViewController.finishEditing at hr
    split_ifs at hr
    · obtain ⟨user, -, rfl⟩ := Option.map_eq_some_iff.1 hr
      exact send_isOfChats _ _ _ _ _
    · obtain rfl := Option.some.inj hr
      exact hnil rfl
  | voiceCompletion i url t =>
    obtain ⟨self, r, -, hr, hd⟩ := Device.step_voiceCompletion h
    obtain ⟨-, rfl⟩ := Prod.mk.inj hd
    obtain ⟨user, -, rfl⟩ := Option.map_eq_some_iff.1 hr
    exact send_isOfChats _ _ _ _ _
  | runBlock j =>
    obtain ⟨i, b, self, -, -, -, rfl⟩ := Device.step_runBlock h
    intro w hw
    obtain ⟨id, -, rfl⟩ := List.mem_map.1 hw
    trivial

/-- A request document is written by `sendFriendRequest` alone. -/
theorem requests_sound {p q : Process} {e : Process.Event} {ws : List AppWrite}
    (h : Process.Effect p e q ws) {x : AppWrite} (hx : x ∈ ws) {a b : String}
    (hp : DocWrite.path x = .friendRequestFrom b a) : Sound (p.encodes e) x := by
  cases h with
  | chat _ hd =>
    obtain ⟨w, hw, rfl⟩ := List.mem_map.1 hx
    have hchat : IsOfChats (DocWrite.path w) := chat_isOfChats hd w hw
    rw [AppWrite.path_write] at hp
    rw [hp] at hchat
    exact hchat.elim
  | signupClick uid email =>
    simp only [signupClick, List.mem_cons, List.not_mem_nil, or_false] at hx
    rcases hx with rfl | rfl | rfl <;> cases hp
  | agreeClicked _ hws =>
    obtain ⟨user, -, hws⟩ := Option.bind_eq_some_iff.1 hws
    obtain rfl := Option.some.inj hws
    simp only [List.map_cons, List.map_nil, List.mem_cons, List.not_mem_nil, or_false] at hx
    rcases hx with rfl | rfl | rfl | rfl
    · trivial
    · trivial
    · cases hp
    · cases hp
  | disagreeClicked _ hws =>
    obtain ⟨user, -, hws⟩ := Option.bind_eq_some_iff.1 hws
    obtain rfl := Option.some.inj hws
    simp only [List.map_cons, List.map_nil, List.mem_cons, List.not_mem_nil, or_false] at hx
    rcases hx with rfl | rfl <;> trivial
  | sendFriendRequest hws =>
    obtain ⟨w, hw, rfl⟩ := List.mem_map.1 hx
    exact sendFriendRequest_sound hws w hw
  | startGroupChatNow hu hws =>
    obtain rfl := Option.some.inj hws
    rcases List.mem_singleton.1 hx with rfl
    cases hp
  | groupAdded _ hws =>
    obtain ⟨w, hw, rfl⟩ := List.mem_map.1 hx
    obtain ⟨uid, data, rfl⟩ := groupAdded_writes hws w hw
    cases hp
  | sendStoryClicked hws =>
    obtain ⟨w, hw, rfl⟩ := List.mem_map.1 hx
    unfold MessageApp.sendStoryClicked at hws
    split at hws
    · obtain rfl := Option.some.inj hws
      cases hw
    · obtain ⟨user, -, rfl⟩ := Option.map_eq_some_iff.1 hws
      rcases List.mem_cons.1 hw with rfl | hw
      · cases hp
      rcases List.mem_cons.1 hw with rfl | hw
      · cases hp
      obtain ⟨id, -, rfl⟩ := List.mem_map.1 hw
      cases hp
  | _ => cases hx

/-! ## Where a request comes from -/

theorem Delivers.origins {w : App} {e : Event} {p : String} {pe : Process.Event}
    (h : Delivers init w e p pe) (o : Origins) : e.origins p o = o.next pe := by
  cases h with
  | on => simp [Event.origins]
  | deliver hpe =>
    cases Query.shows_of_callback hpe with
    | requests uid => simp [Event.origins, Origins.next]
    | _ => rfl

theorem origins_of_ne {e : Event} {p : String} (h : e.process? ≠ some p) (o : Origins) :
    e.origins p o = o := by
  have hne : ∀ {p'}, some p' ≠ some p → p' ≠ p := fun h heq => h (congrArg some heq)
  cases e with
  | on p' pe => exact if_neg (hne h)
  | deliver p' query n m =>
    cases query with
    | requests uid => exact if_neg (hne h)
    | _ => rfl
  | land c => rfl

/-- The requests a snapshot lists were sent to the account whose list it is. -/
theorem Delivers.asked {w : App} {e : Event} {p : String} {uid : String}
    {documents : List (String × Doc)}
    (hinit : ∀ x ∈ init, ∀ a b, DocWrite.path x ≠ .friendRequestFrom b a)
    (hsound : ∀ c, ∀ x ∈ w.net.issued c, ∀ a b, DocWrite.path x = .friendRequestFrom b a →
      Sound w.encoded x)
    (h : Delivers init w e p (.requestSnapshot uid documents)) :
    ∀ d ∈ documents, Asked w.encoded d.1 uid := by
  cases h with
  | on hlocal => cases hlocal
  | deliver hpe =>
    cases Query.shows_of_callback hpe with
    | requests uid =>
      intro d hd
      have hdoc := mem_collection (List.mem_of_mem_filter hd)
      have hdescribes : Describes w.encoded (.friendRequestFrom uid d.1) d.2 := by
        refine describes_docs (fun x hx hp => ?_) hdoc
        rcases mem_seen hx with hx | ⟨c, hx⟩
        · exact absurd hp (hinit x hx _ _)
        · exact hsound c x hx _ _ hp
      obtain ⟨name, -, hname⟩ := hdescribes
      exact ⟨name, hname⟩

theorem traced_of_run (hinit : ∀ x ∈ init, ∀ a b, DocWrite.path x ≠ .friendRequestFrom b a)
    {es : List Event} {w : App} (h : EventRun.run (step init) start es = some w) (p : String) :
    Traced (origins p es) w.encoded (w.process p) := by
  refine (run_rule (Q := fun _ _ _ => True)
    (G := fun encoded x => ∀ a b, DocWrite.path x = .friendRequestFrom b a → Sound encoded x)
    (P := fun es encoded p q => Traced (origins p es) encoded q) ?_ ?_ (fun p => traced_start) ?_
    (fun _ _ _ _ _ _ => trivial) h).2 p
  · exact fun h a b hp => (h a b hp).mono (List.subset_append_left _ _)
  · intro es e encoded encoded' p q he hI
    rw [origins_snoc, origins_of_ne he]
    exact hI.append encoded'
  · intro es w e p pe q ws hsound hI _ hpe heff
    rw [origins_snoc, hpe.origins]
    refine ⟨(hI.append _).step heff ?_, fun x hx a b hp =>
      (requests_sound heff hx hp).mono (List.subset_append_right _ _)⟩
    rintro uid documents rfl d hd
    exact (hpe.asked hinit hsound d hd).append _

/-- From a store without requests, whoever agrees on screens of the account signed in befriends
only those who have asked. -/
theorem friends_consented (hinit : ∀ x ∈ init, ∀ a b, DocWrite.path x ≠ .friendRequestFrom b a)
    {es : List Event} (hown : EventRun.Meets (step init) AgreesToOwn start es) :
    EventRun.Meets (step init) Consents start es := by
  intro pre e post w hes hw
  have hcond := hown pre e post w hes hw
  cases e with
  | on p pe =>
    cases pe with
    | agreeClicked i =>
      intro self user hi hu
      exact forall₂_getElem? (traced_of_run hinit hw p).screens (hcond user hu) hi user.uid rfl
    | _ => trivial
  | _ => trivial

/-- `a` asks `x`, who has signed in at another process and gets the request. -/
def asking : List Event :=
  [.on "q" (.chat (.signIn { uid := "a", email := some "a@", displayName := some "a@" })),
    .on "q" (.sendFriendRequest "x"), .land ("q", some "a"), .land ("q", some "a"),
    .on "p" (.chat (.signIn { uid := "x", email := some "x@", displayName := some "x@" })),
    .deliver "p" (.requests "x") 2 0]

/-- There, `b` takes the place of `x`. -/
def switching : List Event :=
  [.on "p" (.chat .signoutClick),
    .on "p" (.chat (.signIn { uid := "b", email := some "b@", displayName := some "b@" }))]

/-- The first request of the list is selected. -/
def selecting : List Event :=
  [.on "p" (.cellForRowAt 0), .on "p" (.didSelectRowAt 0), .on "p" .requestDidLoad]

theorem friends_consented_asking :
    (EventRun.run (step []) start (asking ++ selecting ++ [.on "p" (.agreeClicked 0)])).isSome ∧
      EventRun.Meets (step []) Consents start
        (asking ++ selecting ++ [.on "p" (.agreeClicked 0)]) := by
  refine ⟨by decide, friends_consented (by simp) ?_⟩
  have hscreens : (origins "p" (asking ++ selecting)).screens[0]? = some (some "x") := rfl
  have huser : ∀ w, EventRun.run (step []) start (asking ++ selecting) = some w →
      (w.process "p").device.currentUser =
        some { uid := "x", email := some "x@", displayName := some "x@" } := by
    decide
  refine EventRun.Meets.snoc _ ?_ fun w hw user hu => ?_
  · intro pre e post w hes hw
    have he : e ∈ asking ++ selecting := by simp [hes]
    simp only [asking, selecting, List.cons_append, List.nil_append, List.mem_cons,
      List.not_mem_nil, or_false] at he
    rcases he with rfl | rfl | rfl | rfl | rfl | rfl | rfl | rfl | rfl <;> trivial
  · rw [huser w hw, Option.some.injEq] at hu
    exact hu ▸ hscreens

/-- From a store without requests and friends, the list still shows the requests to `x` when `b` has
signed in, who was not asked. -/
theorem not_friends_consented : ¬ ∀ (init : List AppWrite) (es : List Event) (w : App),
    (∀ x ∈ init, ∀ a b, DocWrite.path x ≠ .friendRequestFrom b a ∧
      DocWrite.path x ≠ .friendRequestTo a b ∧ DocWrite.path x ≠ .friends a b) →
    EventRun.run (step init) start es = some w →
    EventRun.Meets (step init) Consents start es := by
  intro h
  obtain ⟨w, hw⟩ := Option.isSome_iff_exists.1 (by decide : (EventRun.run (step []) start
    (asking ++ switching ++ selecting ++ [.on "p" (.agreeClicked 0)])).isSome)
  obtain ⟨m, hm, -⟩ := EventRun.run_snoc_eq_some _ hw
  have hfront : ∀ w, EventRun.run (step []) start (asking ++ switching ++ selecting) = some w →
      w.encoded = [.request "a" "a@" "x"] ∧
      (w.process "p").requestScreens[0]?.map Requester.id = some "a" ∧
      (w.process "p").device.currentUser.map User.uid = some "b" := by
    decide
  obtain ⟨henc, hscreen, huser⟩ := hfront m hm
  obtain ⟨self, hi, hself⟩ := Option.map_eq_some_iff.1 hscreen
  obtain ⟨user, hu, huid⟩ := Option.map_eq_some_iff.1 huser
  obtain ⟨name, hasked⟩ := (h [] _ w (by simp) hw).last _ hm self user hi hu
  rw [henc, List.mem_singleton, hself, huid] at hasked
  exact absurd (Encoded.request.inj hasked).2.2 (by decide)

end App

end MessageApp
