import MessageApp.Proofs.Contacts

/-!
# Who is in a group

A group's document and the documents in `Friends` that tell of it are written from a picker, whose
selection holds friends that have been told to the process. So whoever is in a group has started it,
or has been told as a friend to the process where it has been started (`members_of_contacts`).
-/

namespace MessageApp

namespace Process

variable {p q : Process} {pe : Event} {ws : List AppWrite}

theorem Wrote.started {x : AppWrite} {g : String} (h : p.Wrote pe (.group g) x) :
    ∃ friends user, pe = .startGroupChatNow friends g ∧ p.device.currentUser = some user ∧
      x = .write (.setData (.group g) (groupData user.uid (friends ++ [user.uid])) false) := by
  cases h with
  | group _ hu => exact ⟨_, _, rfl, hu, rfl⟩
  | chat _ hchat => exact hchat.elim

theorem encodes_group {id g : String} {name : Option String}
    (he : .friend id g name true ∈ p.encodes pe) : ∃ j friends user,
      pe = .groupAdded j friends ∧ p.adding[j]? = some (user, g) ∧ id ∈ user.uid :: friends := by
  cases mem_encodes_iff.1 he with
  | member hj _ hid => exact ⟨_, _, _, rfl, hj, hid⟩

/-- A group that is being added has been so before, or is started by the event. -/
theorem Effect.adding (h : Effect p pe q ws) {a : User × String} (ha : a ∈ q.adding) :
    a ∈ p.adding ∨ ∃ friends, pe = .startGroupChatNow friends a.2 ∧
      p.device.currentUser = some a.1 := by
  cases h with
  | startGroupChatNow hu _ =>
    rcases List.mem_append.1 ha with ha | ha
    · exact .inl ha
    · obtain rfl := List.mem_singleton.1 ha
      exact .inr ⟨_, rfl, hu⟩
  | groupAdded => exact .inl (List.mem_of_mem_eraseIdx ha)
  | _ => exact .inl ha

end Process

namespace App

variable {init : List AppWrite} {w w' : App}

/-- What an event adds to the groups of the app: one that is started, or the members of one that
has been added. -/
structure GroupsFrom (init : List AppWrite) (w w' : App) (e : Event) : Prop where
  adding : ∀ p, ∀ a ∈ (w'.process p).adding, a ∈ (w.process p).adding ∨
    ∃ friends, e = .on p (.startGroupChatNow friends a.2) ∧
      (w.process p).device.currentUser = some a.1
  issued : ∀ c, ∀ x ∈ w'.net.issued c, ∀ g, DocWrite.path x = .group g → x ∈ w.net.issued c ∨
    ∃ p friends user, e = .on p (.startGroupChatNow friends g) ∧
      (w.process p).device.currentUser = some user ∧
      x = .write (.setData (.group g) (groupData user.uid (friends ++ [user.uid])) false)
  encoded : ∀ id g name, .friend id g name true ∈ w'.encoded →
    .friend id g name true ∈ w.encoded ∨ ∃ p j friends user, e = .on p (.groupAdded j friends) ∧
      (w.process p).adding[j]? = some (user, g) ∧ id ∈ user.uid :: friends

/-- Only the process itself starts a group, or adds it. -/
theorem Delivers.eq_on {e : Event} {p : String} {pe : Process.Event} (h : Delivers init w e p pe)
    (hpe : (∃ friends g, pe = .startGroupChatNow friends g) ∨
      ∃ j friends, pe = .groupAdded j friends) : e = .on p pe := by
  cases h with
  | on => rfl
  | deliver hcall =>
    cases Query.shows_of_callback hcall with
    | _ => rcases hpe with ⟨_, _, hpe⟩ | ⟨_, _, hpe⟩ <;> cases hpe

theorem groupsFrom_of_step {e : Event} (h : w.step init e = some w') : GroupsFrom init w w' e := by
  rcases step_cases h with ⟨c, net, -, hnet, rfl⟩ | ⟨p, pe, q, ws, hpe, heff, rfl⟩
  · refine ⟨fun _ _ ha => .inl ha, fun c x hx _ _ => .inl ?_, fun _ _ _ he => .inl he⟩
    rwa [WriteQueue.issued_land hnet] at hx
  · refine ⟨fun p' a ha => ?_, fun c x hx g hg => ?_, fun id g name he => ?_⟩
    · by_cases hp : p' = p
      · subst hp
        simp only [acted, Function.update_self] at ha
        rcases heff.adding ha with ha | ⟨friends, rfl, hu⟩
        · exact .inl ha
        · exact .inr ⟨friends, hpe.eq_on (.inl ⟨_, _, rfl⟩), hu⟩
      · simp only [acted, Function.update_of_ne hp] at ha
        exact .inl ha
    · rcases WriteQueue.mem_issued_issue.1 hx with hx | ⟨-, hx⟩
      · exact .inl hx
      · obtain ⟨friends, user, rfl, hu, hx⟩ := (hg ▸ heff.wrote hx).started
        exact .inr ⟨p, friends, user, hpe.eq_on (.inl ⟨_, _, rfl⟩), hu, hx⟩
    · rcases List.mem_append.1 he with he | he
      · exact .inl he
      · obtain ⟨j, friends, user, rfl, hj, hid⟩ := Process.encodes_group he
        exact .inr ⟨p, j, friends, user, hpe.eq_on (.inr ⟨_, _, rfl⟩), hj, hid⟩

end App

namespace Contacts

variable {init : List AppWrite} {s t : Contacts}

/-- Whom the account `u` may have put in a group, at the process. -/
def Picked (w : App) (p u id : String) : Prop := id = u ∨ w.KnowsAs p false id

theorem Picked.mono {w w' : App} (hG : App.Grows w w') {p u id : String} (h : Picked w p u id) :
    Picked w' p u id := h.imp_right fun h => h.mono hG

/-- The group has been started by the account, or where it has been told of as a friend. -/
def Member (s : Contacts) (g id : String) : Prop :=
  ∃ p u, (p, u, g) ∈ s.started ∧ Picked s.app p u id

/-- The write creates the group, with members that its owner may have picked. -/
def Creates (s : Contacts) (g : String) (x : AppWrite) : Prop :=
  ∃ p u members, (p, u, g) ∈ s.started ∧ u ∈ members ∧ (∀ id ∈ members, Picked s.app p u id) ∧
    x = .write (.setData (.group g) (groupData u members) false)

/-- Groups, and those that are being added, have been started by someone who may have picked the
members. -/
structure Grouped (s : Contacts) : Prop where
  adding : ∀ p, ∀ a ∈ (s.app.process p).adding, (p, a.1.uid, a.2) ∈ s.started
  groups : ∀ c, ∀ x ∈ s.app.net.issued c, ∀ g, DocWrite.path x = .group g → s.Creates g x
  members : ∀ id g name, .friend id g name true ∈ s.app.encoded → s.Member g id

theorem Member.mono (hG : App.Grows s.app t.app) (hstarted : s.started ⊆ t.started) {g id : String}
    (h : s.Member g id) : t.Member g id :=
  h.imp fun _ h => h.imp fun _ h => ⟨hstarted h.1, h.2.mono hG⟩

theorem Creates.mono (hG : App.Grows s.app t.app) (hstarted : s.started ⊆ t.started) {g : String}
    {x : AppWrite} (h : s.Creates g x) : t.Creates g x := by
  obtain ⟨p, u, members, hs, hu, hmembers, rfl⟩ := h
  exact ⟨p, u, members, hstarted hs, hu, fun id hid => (hmembers id hid).mono hG, rfl⟩

theorem grouped_start : start.Grouped where
  adding _ _ ha := (List.not_mem_nil ha).elim
  groups _ _ hx := (List.not_mem_nil hx).elim
  members _ _ _ he := (List.not_mem_nil he).elim

/-- Groups are started and added with whom the process has been told of as friends. -/
theorem Grouped.of_groupsFrom (hGr : s.Grouped) {e : App.Event} {app : App}
    (h : s.app.step init e = some app) {screens : String → ContactScreens}
    {started : List (String × String × String)} (hstarted : s.started ⊆ started)
    (hstart : ∀ p friends g user, e = .on p (.startGroupChatNow friends g) →
      (s.app.process p).device.currentUser = some user →
      (p, user.uid, g) ∈ started ∧ ∀ id ∈ friends, s.app.KnowsAs p false id)
    (hadded : ∀ p j friends, e = .on p (.groupAdded j friends) →
      ∀ id ∈ friends, s.app.KnowsAs p false id) : Grouped ⟨app, screens, started⟩ := by
  have hfrom := App.groupsFrom_of_step h
  have hG := App.grows_of_step h
  refine ⟨fun p a ha => ?_, fun c x hx g hg => ?_, fun id g name hx => ?_⟩
  · rcases hfrom.adding p a ha with ha | ⟨friends, he, hu⟩
    · exact hstarted (hGr.adding p a ha)
    · exact (hstart p friends a.2 a.1 he hu).1
  · rcases hfrom.issued c x hx g hg with hx | ⟨p, friends, user, he, hu, rfl⟩
    · exact (hGr.groups c x hx g hg).mono hG hstarted
    · obtain ⟨hmem, hfriends⟩ := hstart p friends g user he hu
      refine ⟨p, user.uid, _, hmem, by simp, fun id hid => ?_, rfl⟩
      rcases List.mem_append.1 hid with hid | hid
      · exact .inr ((hfriends id hid).mono hG)
      · exact .inl (List.mem_singleton.1 hid)
  · rcases hfrom.encoded id g name hx with hx | ⟨p, j, friends, user, he, hj, hid⟩
    · exact (hGr.members id g name hx).mono hG hstarted
    · refine ⟨p, user.uid, hstarted (hGr.adding p _ (List.mem_of_getElem? hj)), ?_⟩
      exact (List.mem_cons.1 hid).imp_right fun hid => (hadded p j friends he id hid).mono hG

theorem Grouped.step (hK : s.Known) (hGr : s.Grouped) {e : Event} (h : s.step init e = some t) :
    t.Grouped := by
  obtain ⟨app, p, v, started, hturns, rfl⟩ := turns_of_step h
  have hsub : s.started ⊆ s.started ++ started := List.subset_append_left _ _
  cases hturns with
  | app _ hof happ =>
    refine hGr.of_groupsFrom happ hsub (fun p friends g user he => ?_) fun p j friends he => ?_
    · subst he
      cases hof
    · subst he
      cases hof
  | chatWillAppear _ happ =>
    exact hGr.of_groupsFrom happ hsub (fun _ _ _ _ he => by cases he) fun _ _ _ he => by cases he
  | @startGroupChatNow _ documentID j self myUser _ hj hu happ =>
    refine hGr.of_groupsFrom happ hsub (fun p' friends g user he hu' => ?_) fun _ _ _ he => by
      cases he
    cases he
    obtain rfl := Option.some.inj (hu.symm.trans hu')
    exact ⟨List.mem_append_right _ (List.mem_singleton_self _),
      ((hK.screens p).pickers self (List.mem_of_getElem? hj)).selected⟩
  | @groupAdded _ k self _ hself happ =>
    refine hGr.of_groupsFrom happ hsub (fun _ _ _ _ he => by cases he) fun p' j friends he => ?_
    cases he
    exact ((hK.screens p).pickers self hself).selected
  | _ =>
    simp only [List.append_nil]
    exact ⟨hGr.adding, hGr.groups, hGr.members⟩

theorem grouped_of_run (hinit : ∀ x ∈ init, ∀ uid id, DocWrite.path x ≠ .friends uid id)
    {es : List Event} (h : EventRun.run (step init) start es = some s) : s.Grouped := by
  refine EventRun.run_history (I := fun _ s => s.Grouped) (step init) grouped_start ?_ h
  intro es m e t hm hGr hs
  exact hGr.step (known_of_run hinit hm) hs

theorem creates_of_docs {ws : List AppWrite} {g : String}
    (h : ∀ x ∈ ws, DocWrite.path x = .group g → s.Creates g x) {doc : Doc}
    (hdoc : docs ws (.group g) = some doc) :
    s.Creates g (.write (.setData (.group g) doc false)) := by
  refine DocWrite.replay_keeps_some (I := fun doc =>
    s.Creates g (.write (.setData (.group g) doc false))) rfl (fun x hx hp d _ doc hd => ?_) hdoc
  have hcreates := h x hx hp
  obtain ⟨p, u, members, -, -, -, rfl⟩ := id hcreates
  obtain rfl := Option.some.inj hd
  exact hcreates

/-- From a store without friends and groups: whoever has a document in `Friends` that tells of a
group is a member of it, that is, has started it or has been told as a friend to an account that the
starting process has listened for. And a group's document is of an account that has started it, with
members of whom each is that account, or such a friend. -/
theorem members_of_contacts (hfriends : ∀ x ∈ init, ∀ uid id, DocWrite.path x ≠ .friends uid id)
    (hgroups : ∀ x ∈ init, ∀ g, DocWrite.path x ≠ .group g) {es : List Event}
    (h : EventRun.run (step init) start es = some s) (c : String × Option String) (n m : ℕ)
    (g : String) :
    (∀ id, field (docs (s.app.seen init c n m) (.friends id g)) "groupFlag" = some (.bool true) →
      s.Member g id) ∧
    ∀ doc, docs (s.app.seen init c n m) (.group g) = some doc →
      ∃ p u members, (p, u, g) ∈ s.started ∧ u ∈ members ∧
        (∀ id ∈ members, id = u ∨ s.app.KnowsAs p false id) ∧
        doc["RoomOwner"]? = some (.string u) ∧
        doc["RoomMember"]? = some (.ofStrings members) := by
  have hGr := grouped_of_run hfriends h
  have hT := (known_of_run hfriends h).tells
  refine ⟨fun id hflag => ?_, fun doc hdoc => ?_⟩
  · have hof : BefriendsOf s.app.encoded (s.app.seen init c n m) id := by
      intro x hx g hp
      rcases App.mem_seen hx with hx | ⟨c, hx⟩
      · exact absurd hp (hfriends x hx id g)
      · exact hT.befriends.written c x hx id g hp
    obtain ⟨doc, hdoc, hflag⟩ := Option.bind_eq_some_iff.1 hflag
    obtain ⟨name, isGroupChat, he, rfl⟩ := hof.friend_of_docs hdoc
    rw [groupFlag_friendData] at hflag
    obtain rfl := Value.bool.inj (Option.some.inj hflag)
    exact hGr.members id g name he
  · obtain ⟨p, u, members, hstarted, hu, hmembers, hx⟩ :=
      creates_of_docs (fun x hx hp => by
        rcases App.mem_seen hx with hx | ⟨c, hx⟩
        · exact absurd hp (hgroups x hx g)
        · exact hGr.groups c x hx g hp) hdoc
    obtain rfl : doc = groupData u members := by
      simpa using hx
    exact ⟨p, u, members, hstarted, hu, hmembers, Doc.getElem?_ofList_pair (by decide) (by simp),
      Doc.getElem?_ofList_pair (by decide) (by simp)⟩

/-- `a` accepts `b`, picks it and starts a group. -/
def grouping : List Event :=
  App.accepting.map .app ++ [.app (.deliver "p" (.friends "a") 4 0), .pickerDidLoad "p",
    .picker "p" 0 (.cellForRowAt 0 none), .picker "p" 0 (.didSelectRowAt 0),
    .startGroupChatNow "p" 0 "g", .app (.land ("p", some "a")), .groupAdded "p" 0]

theorem members_of_contacts_grouping : ∃ s,
    EventRun.run (step App.requested) start grouping = some s ∧ s.Member "g" "b" := by
  obtain ⟨s, hs⟩ := Option.isSome_iff_exists.1
    (by decide +kernel : (EventRun.run (step App.requested) start grouping).isSome)
  have hflag : ∀ s ∈ EventRun.run (step App.requested) start grouping,
      field (docs (s.app.seen App.requested ("p", some "a") 5 2) (.friends "b" "g")) "groupFlag" =
        some (.bool true) := by decide +kernel
  exact ⟨s, hs, (members_of_contacts (by simp [App.requested]) (by simp [App.requested]) hs
    ("p", some "a") 5 2 "g").1 "b" (hflag s hs)⟩

end Contacts

end MessageApp
