import MessageApp.Proofs.GroupMembers

/-!
# What a process may write

A chat writes to the copies of its conversation, to the other's unread messages, and, in a group, to
those of the members that have been fetched; the buttons write to the account's own documents, to
those of one who has asked or is asked, and to the blogs of those listed. As all of these have been
told to the process, there are rules for the store that no run breaks (`mayWrite_of_issued`): an
account writes into another's documents only what has to do with a request, a friendship or a group.
-/

namespace MessageApp

namespace Device

/-- Where the chats of a process write, for the account that is then signed in. -/
inductive WritesTo (d : Device) (u : Option String) : DocPath → Prop
  | own {uid : String} (doc : String) : u = some uid → WritesTo d u (.chatBuffer uid doc)
  | copy {self : ChatViewController} {uid : String} : self ∈ d.instances → u = some uid →
    WritesTo d u (.conversation uid self.chatWithId)
  | sent {self : ChatViewController} {uid : String} : self ∈ d.instances → u = some uid →
    WritesTo d u (.conversation self.chatWithId uid)
  | unread {self : ChatViewController} : self ∈ d.instances → WritesTo d u (.buffer self.chatWithId)
  | group {self : ChatViewController} : self ∈ d.instances →
    WritesTo d u (.groupConversation self.chatWithId)
  | notice {self : ChatViewController} {id : String} : self ∈ d.instances → id ∈ self.roomMember →
    WritesTo d u (.chatBuffer id self.chatWithId)

variable {d d' : Device} {e : Device.Event} {ws : List Write} {w : Write}

theorem writesTo_of_send {self : ChatViewController} (hself : self ∈ d.instances)
    {u : Option String} {content uid flag t : String} (hu : u = some uid)
    (hw : w ∈ (self.send content uid flag t).2.1) : d.WritesTo u (DocWrite.path w) := by
  unfold ChatViewController.send at hw
  split_ifs at hw
  · rcases List.mem_pair.1 hw with rfl | rfl
    · exact .copy hself hu
    · exact .group hself
  · rcases List.mem_cons.1 hw with rfl | hw
    · exact .unread hself
    · rcases List.mem_pair.1 hw with rfl | rfl
      · exact .copy hself hu
      · exact .sent hself hu

theorem writesTo_of_step (h : d.step e = some (d', ws)) (hw : w ∈ ws) :
    d.WritesTo (d'.currentUser.map User.uid) (DocWrite.path w) := by
  cases e with
  | signIn user | signoutClick | signout =>
    obtain ⟨-, rfl⟩ := Prod.mk.inj (Option.some.inj h)
    cases hw
  | bufferSnapshot uid doc =>
    obtain ⟨data, b, -, -, -, rfl⟩ := step_bufferSnapshot h
    cases hw
  | openChat id g =>
    obtain ⟨user, kept, hu, -, rfl, rfl⟩ := step_openChat h
    have hu : d.currentUser.map User.uid = some user.uid := by rw [hu]; rfl
    rcases List.mem_pair.1 hw with rfl | rfl
    · exact .own _ hu
    · exact .own _ hu
  | conversationSnapshot i doc =>
    obtain ⟨self, q, s, -, -, -, -, rfl⟩ := step_conversationSnapshot h
    cases hw
  | roomMemberFetched i doc =>
    obtain ⟨self, self', -, -, -, -, rfl⟩ := step_roomMemberFetched h
    cases hw
  | finishEditing i text t =>
    obtain ⟨self, r, hi, hr, hd⟩ := step_finishEditing h
    obtain ⟨rfl, rfl⟩ := Prod.mk.inj hd
    unfold ChatViewController.finishEditing at hr
    split_ifs at hr
    · obtain ⟨user, hu, rfl⟩ := Option.map_eq_some_iff.1 hr
      have hu : d.currentUser.map User.uid = some user.uid := by rw [hu]; rfl
      exact writesTo_of_send (List.mem_of_getElem? hi) hu hw
    · obtain rfl := Option.some.inj hr
      cases hw
  | voiceCompletion i url t =>
    obtain ⟨self, r, hi, hr, hd⟩ := step_voiceCompletion h
    obtain ⟨rfl, rfl⟩ := Prod.mk.inj hd
    obtain ⟨user, hu, rfl⟩ := Option.map_eq_some_iff.1 hr
    have hu : d.currentUser.map User.uid = some user.uid := by rw [hu]; rfl
    exact writesTo_of_send (List.mem_of_getElem? hi) hu hw
  | runBlock j =>
    obtain ⟨i, b, self, -, hi, rfl, rfl⟩ := step_runBlock h
    obtain ⟨id, hid, rfl⟩ := List.mem_map.1 hw
    exact .notice (List.mem_of_getElem? hi) (List.mem_filter.1 hid).1

end Device

/-- Without signing in or up, the account stays. -/
theorem Process.Effect.currentUser_eq {p q : Process} {pe : Process.Event} {ws : List AppWrite}
    (h : Effect p pe q ws) {x : AppWrite} (hx : x ∈ ws) (hchat : ∀ e, pe ≠ .chat e)
    (hsignup : ∀ uid email, pe ≠ .signupClick uid email) :
    q.device.currentUser = p.device.currentUser := by
  cases h with
  | chat => exact absurd rfl (hchat _)
  | signupClick => exact absurd rfl (hsignup _ _)
  | changesCommitted => cases hx
  | friendsSnapshot => cases hx
  | _ => rfl

theorem App.Grows.hasAsked {w w' : App} (hG : App.Grows w w') {p id : String}
    (h : (w.process p).HasAsked w.encoded id) : (w'.process p).HasAsked w'.encoded id :=
  h.imp fun v hv => ⟨hG.listens p v hv.1, hv.2.imp fun _ h => hG.encoded _ h⟩

theorem owner_inj {u u' : String} {members members' : List String}
    (h : groupData u members = groupData u' members') : u = u' := by
  have howner : ∀ u members, (groupData u members)["RoomOwner"]? = some (Value.string u) :=
    fun u members => Doc.getElem?_ofList_pair (by decide) (by simp)
  have heq := howner u members
  rw [h, howner u' members'] at heq
  exact (Value.string.inj (Option.some.inj heq)).symm

namespace Contacts

variable {init : List AppWrite} {s t : Contacts}

/-- The rules: what the account `u` of the process `p` may write. -/
inductive MayWrite (s : Contacts) (p : String) (u : Option String) : DocPath → Prop
  | user {uid : String} : u = some uid → MayWrite s p u (.user uid)
  | chatBuffer {uid : String} (doc : String) : u = some uid → MayWrite s p u (.chatBuffer uid doc)
  | myBlog {uid : String} : u = some uid → MayWrite s p u (.myBlog uid)
  | ownBlog {uid : String} : u = some uid → MayWrite s p u (.friendBlog uid)
  | asks {uid id : String} : u = some uid → uid ≠ id → MayWrite s p u (.friendRequestTo uid id)
  | asked {uid id : String} : u = some uid → uid ≠ id → MayWrite s p u (.friendRequestFrom id uid)
  | answers {uid id : String} : u = some uid → (s.app.process p).HasAsked s.app.encoded id →
    MayWrite s p u (.friendRequestFrom uid id)
  | answered {uid id : String} : u = some uid → (s.app.process p).HasAsked s.app.encoded id →
    MayWrite s p u (.friendRequestTo id uid)
  | accepts {uid id : String} : u = some uid → (s.app.process p).HasAsked s.app.encoded id →
    MayWrite s p u (.friends uid id)
  | accepted {uid id : String} : u = some uid → (s.app.process p).HasAsked s.app.encoded id →
    MayWrite s p u (.friends id uid)
  | group {uid g : String} (q : String) : u = some uid → (q, uid, g) ∈ s.started →
    MayWrite s p u (.group g)
  | member {g id : String} : s.Member g id → MayWrite s p u (.friends id g)
  | copy {uid id : String} {isGroupChat : Bool} : u = some uid → s.app.KnowsAs p isGroupChat id →
    MayWrite s p u (.conversation uid id)
  | sent {uid id : String} {isGroupChat : Bool} : u = some uid → s.app.KnowsAs p isGroupChat id →
    MayWrite s p u (.conversation id uid)
  | unread {id : String} {isGroupChat : Bool} : s.app.KnowsAs p isGroupChat id →
    MayWrite s p u (.buffer id)
  | groupConversation {g : String} {isGroupChat : Bool} : s.app.KnowsAs p isGroupChat g →
    MayWrite s p u (.groupConversation g)
  | notice {g id : String} {isGroupChat : Bool} : s.app.KnowsAs p isGroupChat g → s.Member g id →
    MayWrite s p u (.chatBuffer id g)
  | contactBlog {id : String} {isGroupChat : Bool} : s.app.KnowsAs p isGroupChat id →
    MayWrite s p u (.friendBlog id)

theorem MayWrite.mono (hG : App.Grows s.app t.app) (hstarted : s.started ⊆ t.started) {p : String}
    {u : Option String} {path : DocPath} (h : s.MayWrite p u path) : t.MayWrite p u path := by
  cases h with
  | user hu => exact .user hu
  | chatBuffer doc hu => exact .chatBuffer doc hu
  | myBlog hu => exact .myBlog hu
  | ownBlog hu => exact .ownBlog hu
  | asks hu hne => exact .asks hu hne
  | asked hu hne => exact .asked hu hne
  | answers hu ha => exact .answers hu (hG.hasAsked ha)
  | answered hu ha => exact .answered hu (hG.hasAsked ha)
  | accepts hu ha => exact .accepts hu (hG.hasAsked ha)
  | accepted hu ha => exact .accepted hu (hG.hasAsked ha)
  | group q hu hs => exact .group q hu (hstarted hs)
  | member hm => exact .member (hm.mono hG hstarted)
  | copy hu hk => exact .copy hu (hk.mono hG)
  | sent hu hk => exact .sent hu (hk.mono hG)
  | unread hk => exact .unread (hk.mono hG)
  | groupConversation hk => exact .groupConversation (hk.mono hG)
  | notice hk hm => exact .notice (hk.mono hG) (hm.mono hG hstarted)
  | contactBlog hk => exact .contactBlog (hk.mono hG)

theorem Known.knowsAs (hK : s.Known) {p : String} {self : ChatViewController}
    (hself : self ∈ (s.app.process p).device.instances) :
    ∃ isGroupChat, s.app.KnowsAs p isGroupChat self.chatWithId := by
  have hchats := hK.chats p
  obtain ⟨i, hi⟩ := List.mem_iff_getElem?.1 hself
  have hlt : i < (s.screens p).titles.length :=
    hchats.length_eq ▸ (List.getElem?_eq_some_iff.1 hi).1
  obtain ⟨name, isGroupChat, hknows, -⟩ :=
    forall₂_getElem? hchats (List.getElem?_eq_getElem hlt) hi
  exact ⟨isGroupChat, name, hknows⟩

/-- The members that chats have fetched are members of their groups. -/
def Fetched (s : Contacts) : Prop :=
  ∀ p, ∀ self ∈ (s.app.process p).device.instances, ∀ id ∈ self.roomMember,
    s.Member self.chatWithId id

/-- What the chats of a process write to is where its account may write. -/
theorem mayWrite_of_writesTo (hK : s.Known) (hF : s.Fetched) {p : String} {u : Option String}
    {path : DocPath} (h : (s.app.process p).device.WritesTo u path) : s.MayWrite p u path := by
  cases h with
  | own doc hu => exact .chatBuffer doc hu
  | copy hself hu =>
    obtain ⟨_, hk⟩ := hK.knowsAs hself
    exact .copy hu hk
  | sent hself hu =>
    obtain ⟨_, hk⟩ := hK.knowsAs hself
    exact .sent hu hk
  | unread hself =>
    obtain ⟨_, hk⟩ := hK.knowsAs hself
    exact .unread hk
  | group hself =>
    obtain ⟨_, hk⟩ := hK.knowsAs hself
    exact .groupConversation hk
  | notice hself hid =>
    obtain ⟨_, hk⟩ := hK.knowsAs hself
    exact .notice hk (hF p _ hself _ hid)

/-- A fetch of members shows a version of the document of the chat's group. -/
theorem docs_of_roomMemberFetched {w : App} {e : App.Event} {p : String} {k : ℕ} {data : Doc}
    (h : App.Delivers init w e p (.chat (.roomMemberFetched k (some data)))) :
    ∃ self n m, (w.process p).device.instances[k]? = some self ∧
      docs (w.seen init (w.account p) n m) (.group self.chatWithId) = some data := by
  generalize hpe : Process.Event.chat (.roomMemberFetched k (some data)) = pe at h
  cases h with
  | on hlocal =>
    subst hpe
    cases hlocal
  | @deliver _ query n m _ hcall =>
    cases Query.shows_of_callback hcall with
    | @roomMember i self hi =>
      obtain ⟨rfl, hdoc⟩ := Device.Event.roomMemberFetched.inj (Process.Event.chat.inj hpe)
      exact ⟨self, n, m, hi, hdoc.symm⟩
    | _ => cases hpe

theorem fetched_start : start.Fetched := fun _ _ hself => (List.not_mem_nil hself).elim

/-- What an event of the app makes of the chats has fetched members of their groups. -/
theorem Fetched.of_step (hgroups : ∀ x ∈ init, ∀ g, DocWrite.path x ≠ .group g) (hGr : s.Grouped)
    (hF : s.Fetched) {e : App.Event} {app : App} (h : s.app.step init e = some app)
    {screens : String → ContactScreens} {started : List (String × String × String)}
    (hstarted : s.started ⊆ started) : Fetched ⟨app, screens, started⟩ := by
  have hG := App.grows_of_step h
  intro p self hself id hid
  suffices hs : s.Member self.chatWithId id from hs.mono hG hstarted
  change self ∈ (app.process p).device.instances at hself
  rcases App.opens_of_step h p with heq | ⟨de, hde, ho⟩
  · exact hF p self (heq ▸ hself) id hid
  · generalize (app.process p).device.instances = instances at ho hself
    cases ho with
    | same => exact hF p self hself id hid
    | opened _ _ =>
      rcases List.mem_append.1 hself with hself | hself
      · exact hF p self hself id hid
      · obtain rfl := List.mem_singleton.1 hself
        cases hid
    | set hk hab =>
      rcases List.mem_or_eq_of_mem_set hself with hself | rfl
      · exact hF p self hself id hid
      · rw [hab.roomMember] at hid
        rw [hab.chatWithId]
        exact hF p _ (List.mem_of_getElem? hk) id hid
    | @fetched k a b data heq hk hab hmembers =>
      rcases List.mem_or_eq_of_mem_set hself with hself | rfl
      · exact hF p self hself id hid
      · obtain rfl := heq
        obtain ⟨a', n, m, hk', hdoc⟩ := docs_of_roomMemberFetched hde
        obtain rfl := Option.some.inj (hk.symm.trans hk')
        rw [hab.chatWithId]
        obtain ⟨q, u, members, hst, -, hpicked, hx⟩ :=
          creates_of_docs (fun x hx hp => by
            rcases App.mem_seen hx with hx | ⟨c, hx⟩
            · exact absurd hp (hgroups x hx _)
            · exact hGr.groups c x hx _ hp) hdoc
        obtain rfl : data = groupData u members := by
          simpa using hx
        have hroom : (groupData u members)["RoomMember"]? = some (Value.ofStrings members) :=
          Doc.getElem?_ofList_pair (by decide) (by simp)
        have hmem := Value.ofStrings_inj.1 (Option.some.inj (hroom.symm.trans hmembers))
        exact ⟨q, u, hst, hpicked id (hmem ▸ hid)⟩

theorem Fetched.step (hgroups : ∀ x ∈ init, ∀ g, DocWrite.path x ≠ .group g) (hGr : s.Grouped)
    (hF : s.Fetched) {e : Event} (h : s.step init e = some t) : t.Fetched := by
  obtain ⟨app, p, v, started, hturns, rfl⟩ := turns_of_step h
  have hsub : s.started ⊆ s.started ++ started := List.subset_append_left _ _
  cases hturns with
  | app _ _ happ | chatWillAppear _ happ | startGroupChatNow _ _ happ | groupAdded _ happ =>
    exact hF.of_step hgroups hGr happ hsub
  | _ =>
    simp only [List.append_nil]
    exact hF

/-- What an event writes, the account that is then signed in may write. -/
theorem mayWrite_of_wrote (hK : s.Known) (hF : s.Fetched) {p : String}
    (hR : (s.app.process p).Requested s.app.encoded) {pe : Process.Event} {q : Process}
    {ws : List AppWrite} (heff : Process.Effect (s.app.process p) pe q ws)
    (ht : t.app = s.app.acted p pe q ws) (hG : App.Grows s.app t.app)
    (hstarted : s.started ⊆ t.started) (hGr : t.Grouped) {x : AppWrite} (hx : x ∈ ws) :
    t.MayWrite p (q.device.currentUser.map User.uid) (DocWrite.path x) := by
  have huser : ∀ {user : User}, (∀ e, pe ≠ .chat e) → (∀ uid email, pe ≠ .signupClick uid email) →
      (s.app.process p).device.currentUser = some user →
      q.device.currentUser.map User.uid = some user.uid := by
    intro user hchat hsignup hu
    rw [heff.currentUser_eq hx hchat hsignup, hu]
    rfl
  have hissued : x ∈ t.app.net.issued (p, q.device.currentUser.map User.uid) := by
    rw [ht]
    exact WriteQueue.mem_issued_issue.2 (.inr ⟨rfl, hx⟩)
  have hwrote := heff.wrote hx
  generalize hpath : DocWrite.path x = path at hwrote ⊢
  cases hwrote with
  | chat w _ =>
    cases heff with
    | chat _ hd =>
      obtain ⟨w', hw', hww⟩ := List.mem_map.1 hx
      obtain rfl := AppWrite.write.inj hww
      subst hpath
      exact (mayWrite_of_writesTo hK hF (Device.writesTo_of_step hd hw')).mono hG hstarted
  | signedUp =>
    cases heff
    exact .chatBuffer _ rfl
  | account =>
    cases heff
    exact .user rfl
  | answered hu hi he =>
    refine .answers (huser ?_ ?_ hu) (hG.hasAsked (hR.screens _ (List.mem_of_getElem? hi))) <;>
      rcases he with rfl | rfl <;> simp
  | answer hu hi he =>
    refine .answered (huser ?_ ?_ hu) (hG.hasAsked (hR.screens _ (List.mem_of_getElem? hi))) <;>
      rcases he with rfl | rfl <;> simp
  | @friends _ uid id name isGroupChat he =>
    cases isGroupChat with
    | true =>
      refine .member (hGr.members uid id name ?_)
      rw [ht]
      exact List.mem_append_right _ he
    | false =>
      cases Process.mem_encodes_iff.1 he with
      | asked hu hi =>
        exact .accepts (huser (by simp) (by simp) hu)
          (hG.hasAsked (hR.screens _ (List.mem_of_getElem? hi)))
      | agreed hu hi =>
        exact .accepted (huser (by simp) (by simp) hu)
          (hG.hasAsked (hR.screens _ (List.mem_of_getElem? hi)))
  | request _ hu _ hne => exact .asks (huser (by simp) (by simp) hu) hne
  | requested _ hu _ hne => exact .asked (huser (by simp) (by simp) hu) hne
  | group g hu =>
    obtain ⟨p', u, members, hst, -, -, hcreates⟩ := hGr.groups _ _ hissued g hpath
    have hdata := (Write.setData.inj (AppWrite.write.inj hcreates)).2.1
    exact .group p' (owner_inj hdata ▸ huser (by simp) (by simp) hu) hst
  | myBlog hu => exact .myBlog (huser (by simp) (by simp) hu)
  | friendBlog hu hid =>
    rcases hid with rfl | hid
    · exact .ownBlog (huser (by simp) (by simp) hu)
    · obtain ⟨_, hk⟩ := (hK.tells.lists p).listed _ hid
      exact .contactBlog (hk.mono hG)

/-- What has been issued keeps the rules. -/
def Confined (s : Contacts) : Prop :=
  ∀ p u, ∀ x ∈ s.app.net.issued (p, u), s.MayWrite p u (DocWrite.path x)

theorem confined_start : start.Confined := fun _ _ _ hx => (List.not_mem_nil hx).elim

theorem Confined.of_step (hK : s.Known) (hF : s.Fetched)
    (hR : ∀ p, (s.app.process p).Requested s.app.encoded) (hC : s.Confined) {e : App.Event}
    (h : s.app.step init e = some t.app) (hstarted : s.started ⊆ t.started) (hGr : t.Grouped) :
    t.Confined := by
  have hG := App.grows_of_step h
  intro p u x hx
  rcases App.step_cases h with ⟨c, net, -, hnet, heq⟩ | ⟨p', pe, q, ws, -, heff, heq⟩
  · rw [heq, WriteQueue.issued_land hnet] at hx
    exact (hC p u x hx).mono hG hstarted
  · rw [heq] at hx
    rcases WriteQueue.mem_issued_issue.1 hx with hold | ⟨hc, hnew⟩
    · exact (hC p u x hold).mono hG hstarted
    · obtain ⟨rfl, rfl⟩ := Prod.mk.inj hc
      exact mayWrite_of_wrote hK hF (hR p) heff heq hG hstarted hGr hnew

theorem Confined.step (hK : s.Known) (hF : s.Fetched)
    (hR : ∀ p, (s.app.process p).Requested s.app.encoded) (hC : s.Confined) {e : Event}
    (h : s.step init e = some t) (hGr : t.Grouped) : t.Confined := by
  obtain ⟨app, p, v, started, hturns, rfl⟩ := turns_of_step h
  have hsub : s.started ⊆ s.started ++ started := List.subset_append_left _ _
  cases hturns with
  | app _ _ happ | chatWillAppear _ happ | startGroupChatNow _ _ happ | groupAdded _ happ =>
    exact hC.of_step hK hF hR happ hsub hGr
  | _ =>
    refine fun p u x hx => (hC p u x hx).mono ?_ ?_
    · exact .refl _
    · exact hsub

theorem app_reaches {es : List Event} (h : EventRun.run (step init) start es = some s) :
    EventRun.Reaches (App.step init) App.start s.app := by
  refine @EventRun.reaches_part _ _ (step init) _ _ (App.step init) Contacts.app start s es ?_ h
  intro m e t _ hs
  obtain ⟨app, p, v, started, hturns, rfl⟩ := turns_of_step hs
  cases hturns with
  | app _ _ happ | chatWillAppear _ happ | startGroupChatNow _ _ happ | groupAdded _ happ =>
    exact .of_step _ happ
  | _ => exact .refl _ _

/-- From a store without friends, groups and requests, every write keeps the rules. -/
theorem mayWrite_of_issued (hfriends : ∀ x ∈ init, ∀ uid id, DocWrite.path x ≠ .friends uid id)
    (hgroups : ∀ x ∈ init, ∀ g, DocWrite.path x ≠ .group g)
    (hrequests : ∀ x ∈ init, ∀ a b, DocWrite.path x ≠ .friendRequestFrom b a) {es : List Event}
    (h : EventRun.run (step init) start es = some s) (p : String) (u : Option String)
    (x : AppWrite) (hx : x ∈ s.app.net.issued (p, u)) : s.MayWrite p u (DocWrite.path x) := by
  suffices hI : s.Fetched ∧ s.Confined from hI.2 p u x hx
  refine EventRun.run_history (I := fun _ s => s.Fetched ∧ s.Confined) (step init)
    ⟨fetched_start, confined_start⟩ ?_ h
  rintro es m e t hm ⟨hF, hC⟩ hs
  have hK := known_of_run hfriends hm
  have hGr := grouped_of_run hfriends hm
  have hR : ∀ p, (m.app.process p).Requested m.app.encoded := by
    obtain ⟨es', hes'⟩ := app_reaches hm
    exact App.requested_of_run hrequests hes'
  exact ⟨hF.step hgroups hGr hs, hC.step hK hF hR hs (hGr.step hK hs)⟩

/-- `x` accepts `a`, who is then in its lists. -/
def befriending : List App.Event :=
  App.asking ++ App.selecting ++ .on "p" (.agreeClicked 0) ::
    List.replicate 4 (.land ("p", some "x")) ++ [.deliver "p" (.friends "x") 6 0]

/-- `x` writes to `a`. -/
def writing : List Event :=
  befriending.map .app ++ [.cellForRowAt "p" 0, .didSelectRowAt "p" 0, .chatWillAppear "p",
    .app (.on "p" (.chat (.finishEditing 0 "hi" "1")))]

theorem mayWrite_of_issued_writing : ∃ s, EventRun.run (step []) start writing = some s ∧
    s.MayWrite "p" (some "x") (.buffer "a") ∧
    s.MayWrite "q" (some "a") (.friendRequestTo "a" "x") := by
  obtain ⟨s, hs⟩ := Option.isSome_iff_exists.1
    (by decide +kernel : (EventRun.run (step []) start writing).isSome)
  obtain ⟨⟨x, hx, hp⟩, y, hy, hq⟩ := (by decide +kernel :
    ∀ s ∈ EventRun.run (step []) start writing,
      (∃ x ∈ s.app.net.issued ("p", some "x"), DocWrite.path x = .buffer "a") ∧
        ∃ y ∈ s.app.net.issued ("q", some "a"), DocWrite.path y = .friendRequestTo "a" "x") s hs
  have hmay := mayWrite_of_issued (by simp) (by simp) (by simp) hs
  exact ⟨s, hs, hp ▸ hmay "p" (some "x") x hx, hq ▸ hmay "q" (some "a") y hy⟩

end Contacts

end MessageApp
