import MessageApp.Proofs.Accounts
import MessageApp.Proofs.AppSteps
import MessageApp.Proofs.Audience
import MessageApp.Proofs.Readers
import MessageApp.Proofs.Unread

/-!
# What one client writes, every reader decodes

A process keeps, in its instances, its blocks and `bufferChat`, messages that were sent, and writes
only documents of the app's format (`Process.Told.step`), as long as whoever agrees or posts has a
display name. So no document of any snapshot makes its listener trap, `Buffer` apart while it has
the field of a sign-up, and what is read is what was encoded (`every_document_decodes`).
-/

namespace MessageApp

namespace ChatViewController

/-- An instance has no message half sent, and its rows are messages that were sent. -/
structure Told (encoded : List Encoded) (a : ChatViewController) : Prop where
  sarray : a.sarray = []
  timestamp : a.timestamp = []
  docRefc : ∀ path ∈ a.docRefc,
    (∃ uid, path = .conversation uid a.chatWithId) ∨ path = .groupConversation a.chatWithId
  rows : ∃ rows, a.Holds rows ∧ ∀ r ∈ rows, r.Told encoded

variable {encoded encoded' : List Encoded} {self self' : ChatViewController}

theorem Told.mono (he : encoded ⊆ encoded') (h : self.Told encoded) : self.Told encoded' where
  sarray := h.sarray
  timestamp := h.timestamp
  docRefc := h.docRefc
  rows := h.rows.imp fun _ h => ⟨h.1, fun r hr => he (h.2 r hr)⟩

theorem Told.messages (h : self.Told encoded) {path : DocPath} (hp : self.docRefc = some path)
    {doc : Doc} (hdoc : Describes encoded path doc) (k : String) (v : Value)
    (hv : doc[k]? = some v) : IsMessage encoded k v := by
  rcases h.docRefc path hp with ⟨uid, rfl⟩ | rfl
  · exact hdoc k v hv
  · exact hdoc k v hv

theorem Told.conversationListener (h : self.Told encoded)
    {cacheMessage : Dict (List (List String))} {doc : Option Doc}
    {s : Dict (List (List String)) × ChatViewController}
    (hdoc : ∀ D ∈ doc, ∀ (k : String) (v : Value), D[k]? = some v → IsMessage encoded k v)
    (hl : self.conversationListener cacheMessage doc = some s) : s.2.Told encoded := by
  cases doc with
  | none =>
    obtain rfl := Option.some.inj hl
    exact h
  | some D =>
    obtain ⟨own, hown, htold⟩ := h.rows
    have hrows := conversationListener_told hown htold (hdoc D rfl) hl
    rcases conversationListener_cases hown hl with ⟨-, rfl⟩ | ⟨D₁, r, D₂, -, -, -, rfl, -⟩
    · exact h
    · exact ⟨h.sarray, h.timestamp, h.docRefc, hrows⟩

theorem Told.roomMemberFetched (h : self.Told encoded) {doc : Option Doc}
    (hf : self.roomMemberFetched doc = some self') : self'.Told encoded := by
  have hsame := roomMemberFetched_sameRows hf
  have hrows : ∃ rows, self'.Holds rows ∧ ∀ r ∈ rows, r.Told encoded :=
    h.rows.imp fun _ h => ⟨hsame.holds.2 h.1, h.2⟩
  unfold ChatViewController.roomMemberFetched at hf
  split at hf
  · obtain rfl := Option.some.inj hf
    exact h
  · obtain ⟨v, -, hf⟩ := Option.bind_eq_some_iff.1 hf
    obtain ⟨members, -, hf⟩ := Option.bind_eq_some_iff.1 hf
    obtain rfl := Option.some.inj hf
    exact ⟨h.sarray, h.timestamp, h.docRefc, hrows⟩

/-- What an instance sends says who said what. -/
theorem Told.send (h : self.Told encoded) {content uid flag t : String}
    (henc : .message uid content flag t ∈ encoded) :
    (self.send content uid flag t).1 = self ∧
      (∀ w ∈ (self.send content uid flag t).2.1, Sound encoded (.write w)) ∧
      ∀ b ∈ (self.send content uid flag t).2.2, ∀ (k : String) (v : Value),
        b.bufferdata[k]? = some v → IsMessage encoded k v := by
  generalize hm : (⟨uid, self.chatWithId, self.chatisGroupChat, t, [content, uid, flag]⟩ :
    Message) = m
  have hdoc : ∀ (k : String) (v : Value), m.doc[k]? = some v → IsMessage encoded k v := by
    intro k v hv
    rw [Message.getElem?_doc, ← hm] at hv
    split_ifs at hv with hk
    obtain rfl := Option.some.inj hv
    exact ⟨uid, content, flag, rfl, hk ▸ henc⟩
  rw [send_of_idle h.sarray h.timestamp content uid flag t m hm.symm]
  refine ⟨rfl, fun w hw => ?_, fun b hb => ?_⟩
  · unfold Message.writes at hw
    split_ifs at hw
    · rcases List.mem_pair.1 hw with rfl | rfl <;> exact ⟨hdoc, fun _ => trivial⟩
    · rcases List.mem_cons.1 hw with rfl | hw
      · exact ⟨fun k v hv => .inl (hdoc k v hv), fun _ => trivial⟩
      · rcases List.mem_pair.1 hw with rfl | rfl <;> exact ⟨hdoc, fun _ => trivial⟩
  · simp only [Option.mem_def] at hb
    split_ifs at hb
    obtain rfl := Option.some.inj hb
    exact hdoc

end ChatViewController

namespace Device

open ChatViewController

/-- All messages of the process were sent. -/
structure Told (encoded : List Encoded) (d : Device) : Prop where
  instances : ∀ self ∈ d.instances, self.Told encoded
  cached : ∀ (c : String) columns, d.globals.cacheMessage[c]? = some columns → columns ≠ []
  blocks : ∀ b ∈ d.blocks, ∀ (k : String) (v : Value), b.2.bufferdata[k]? = some v →
    IsMessage encoded k v
  bufferChat : ∀ (k : String) (record : List String), d.globals.bufferChat[k]? = some record →
    IsMessage encoded k (.ofStrings record)

variable {encoded encoded' : List Encoded} {d d' : Device} {ws : List Write}

theorem told_start : Told encoded {} where
  instances _ h := (List.not_mem_nil h).elim
  cached c columns h := by simp at h
  blocks _ h := (List.not_mem_nil h).elim
  bufferChat k record h := by simp at h

theorem Told.mono (he : encoded ⊆ encoded') (h : d.Told encoded) : d.Told encoded' where
  instances self hself := (h.instances self hself).mono he
  cached := h.cached
  blocks b hb k v hv := (h.blocks b hb k v hv).mono he
  bufferChat k record hk := (h.bufferChat k record hk).mono he

/-- It takes no more than the instances, the blocks and two of the globals. -/
theorem Told.congr (h : d.Told encoded) (hi : d'.instances = d.instances)
    (hb : d'.blocks = d.blocks) (hcache : d'.globals.cacheMessage = d.globals.cacheMessage)
    (hbuffer : d'.globals.bufferChat = d.globals.bufferChat) : d'.Told encoded where
  instances := hi ▸ h.instances
  cached := hcache ▸ h.cached
  blocks := hb ▸ h.blocks
  bufferChat := hbuffer ▸ h.bufferChat

/-- What a snapshot of the chats shows is what was encoded. -/
def Event.Shows (encoded : List Encoded) (d : Device) : Event → Prop
  | .bufferSnapshot uid (some doc) => Describes encoded (.buffer uid) doc
  | .conversationSnapshot i (some doc) => ∀ self path, d.instances[i]? = some self →
      self.docRefc = some path → Describes encoded path doc
  | _ => True

theorem Told.set (h : d.Told encoded) {i : ℕ} {self : ChatViewController}
    (hs : self.Told encoded) : ∀ a ∈ d.instances.set i self, a.Told encoded := by
  intro a ha
  rcases List.mem_or_eq_of_mem_set ha with ha | rfl
  · exact h.instances a ha
  · exact hs

theorem Told.bufferSnapshot (h : d.Told encoded) {uid : String} {doc : Option Doc}
    (hdoc : Event.Shows encoded d (.bufferSnapshot uid doc))
    (hd : d.step (.bufferSnapshot uid doc) = some (d', ws)) : d'.Told encoded := by
  obtain ⟨data, b, rfl, hb, rfl, -⟩ := step_bufferSnapshot hd
  refine ⟨h.instances, h.cached, h.blocks, fun k record hk => ?_⟩
  have hk : b[k]? = some record := hk
  rcases hdoc k (.ofStrings record) (by rw [Doc.dict?_eq_some hb k, hk]; rfl) with hm | ⟨-, s, hs⟩
  · exact hm
  · cases hs

theorem Told.conversationSnapshot (h : d.Told encoded) {i : ℕ} {doc : Option Doc}
    (hdoc : Event.Shows encoded d (.conversationSnapshot i doc))
    (hd : d.step (.conversationSnapshot i doc) = some (d', ws)) : d'.Told encoded := by
  obtain ⟨self, p, s, hi, hp, hl, rfl, -⟩ := step_conversationSnapshot hd
  have hself : self.Told encoded := h.instances self (List.mem_of_getElem? hi)
  have hs : s.2.Told encoded := hself.conversationListener (fun D hD => by
    obtain rfl := Option.mem_def.1 hD
    exact hself.messages hp (hdoc self p hi hp)) hl
  refine ⟨h.set hs, fun c columns hc => ?_, h.blocks, h.bufferChat⟩
  obtain ⟨own, hown, -⟩ := hself.rows
  cases doc with
  | none =>
    obtain rfl := Option.some.inj hl
    exact h.cached c columns hc
  | some D =>
    rcases conversationListener_cases hown hl with ⟨-, rfl⟩ | ⟨D₁, r, D₂, -, -, -, rfl, -⟩
    · exact h.cached c columns hc
    · simp only [Std.ExtTreeMap.getElem?_insert] at hc
      split_ifs at hc
      · obtain rfl := Option.some.inj hc
        exact List.cons_ne_nil _ _
      · exact h.cached c columns hc

theorem Told.openChat (h : d.Told encoded) {id : String} {isGroupChat : Bool}
    (hd : d.step (.openChat id isGroupChat) = some (d', ws)) :
    d'.Told encoded ∧ ∀ w ∈ ws, Sound encoded (.write w) := by
  obtain ⟨user, kept, -, hkept, rfl, rfl⟩ := step_openChat hd
  obtain ⟨-, hkept⟩ := cleanBufferChat_eq_some hkept
  have hmessages : ∀ (k : String) (record : List String), kept[k]? = some record →
      IsMessage encoded k (.ofStrings record) :=
    fun k record hk => h.bufferChat k record ((hkept k record).1 hk).1
  refine ⟨⟨fun self hself => ?_, h.cached, h.blocks, hmessages⟩, fun w hw => ?_⟩
  · rcases List.mem_append.1 hself with hself | hself
    · exact h.instances self hself
    · obtain rfl := List.mem_singleton.1 hself
      refine ⟨rfl, rfl, fun path hp => ?_, [], rfl, fun r hr => (List.not_mem_nil hr).elim⟩
      simp only [openedDocRefc, Option.mem_def] at hp
      split_ifs at hp
      · exact .inr (Option.some.inj hp).symm
      · exact .inl ⟨user.uid, (Option.some.inj hp).symm⟩
  · rcases List.mem_pair.1 hw with rfl | rfl
    · refine ⟨fun k v hv => .inl ?_, fun _ => trivial⟩
      rw [Doc.getElem?_ofDict] at hv
      obtain ⟨record, hk, rfl⟩ := Option.map_eq_some_iff.1 hv
      exact hmessages k record hk
    · trivial

theorem Told.afterSend (h : d.Told encoded) {i : ℕ} {self : ChatViewController}
    (hi : d.instances[i]? = some self) {content uid flag t : String}
    (henc : .message uid content flag t ∈ encoded)
    (hd : (d', ws) = d.afterSend i (self.send content uid flag t)) :
    d'.Told encoded ∧ ∀ w ∈ ws, Sound encoded (.write w) := by
  have hself : self.Told encoded := h.instances self (List.mem_of_getElem? hi)
  obtain ⟨hs, hwrites, hblock⟩ := hself.send henc
  obtain ⟨rfl, rfl⟩ := Prod.mk.inj hd
  refine ⟨⟨h.set (hs.symm ▸ hself), h.cached, fun b hb => ?_, h.bufferChat⟩, hwrites⟩
  rcases List.mem_append.1 hb with hb | hb
  · exact h.blocks b hb
  · obtain ⟨b', hb', rfl⟩ := Option.map_eq_some_iff.1 (Option.mem_toList.1 hb)
    exact hblock b' hb'

theorem Told.runBlock (h : d.Told encoded) {j : ℕ} (hd : d.step (.runBlock j) = some (d', ws)) :
    d'.Told encoded ∧ ∀ w ∈ ws, Sound encoded (.write w) := by
  obtain ⟨i, b, self, hj, -, rfl, rfl⟩ := step_runBlock hd
  refine ⟨⟨h.instances, h.cached, fun b' hb' => h.blocks b' (List.mem_of_mem_eraseIdx hb'),
    h.bufferChat⟩, fun w hw => ?_⟩
  obtain ⟨id, -, rfl⟩ := List.mem_map.1 hw
  exact ⟨fun k v hv => .inl (h.blocks _ (List.mem_of_getElem? hj) k v hv), fun _ => trivial⟩

end Device

namespace Process

/-- All that the process holds was encoded, and accounts have their email. -/
structure Told (encoded : List Encoded) (p : Process) : Prop where
  device : p.device.Told encoded
  email : ∀ user ∈ p.device.currentUser, user.email.isSome
  adding : ∀ a ∈ p.adding, a.1.email.isSome

/-- Whoever presses a button that writes is signed in, and has a display name where it is
written. -/
def HasProfile (p : Process) : Event → Prop
  | .chat (.finishEditing _ text _) => text ≠ "" → p.device.currentUser.isSome
  | .chat (.voiceCompletion _ _ _) | .startGroupChatNow _ _ => p.device.currentUser.isSome
  | .sendFriendRequest other =>
    ∃ user ∈ p.device.currentUser, user.uid ≠ other → user.displayName.isSome
  | .agreeClicked _ | .sendStoryClicked (some _) _ =>
    ∃ user ∈ p.device.currentUser, user.displayName.isSome
  | _ => True

/-- What a snapshot of the chats shows is what was encoded. -/
def Event.Shows (encoded : List Encoded) (p : Process) : Event → Prop
  | .chat e => e.Shows encoded p.device
  | _ => True

variable {encoded encoded' : List Encoded} {p q : Process}

theorem told_start : Told encoded {} where
  device := Device.told_start
  email _ h := by cases h
  adding _ h := (List.not_mem_nil h).elim

theorem Told.mono (he : encoded ⊆ encoded') (h : p.Told encoded) : p.Told encoded' :=
  ⟨h.device.mono he, h.email, h.adding⟩

theorem chat_told {e : Device.Event} {d' : Device} {ws : List Write} (h : p.device.Told encoded)
    (hshows : e.Shows encoded p.device) (hd : p.device.step e = some (d', ws)) :
    d'.Told (encoded ++ p.encodes (.chat e)) ∧
      ∀ w ∈ ws, Sound (encoded ++ p.encodes (.chat e)) (.write w) := by
  have hmono : p.device.Told (encoded ++ p.encodes (.chat e)) :=
    h.mono (List.subset_append_left _ _)
  have hquiet : d'.Told encoded → ws = [] → d'.Told (encoded ++ p.encodes (.chat e)) ∧
      ∀ w ∈ ws, Sound (encoded ++ p.encodes (.chat e)) (.write w) := by
    rintro hd' rfl
    exact ⟨hd'.mono (List.subset_append_left _ _), fun w hw => (List.not_mem_nil hw).elim⟩
  cases e with
  | signIn user | signoutClick =>
    obtain ⟨rfl, rfl⟩ := Prod.mk.inj (Option.some.inj hd)
    exact hquiet (h.congr rfl rfl rfl rfl) rfl
  | signout =>
    obtain ⟨rfl, rfl⟩ := Prod.mk.inj (Option.some.inj hd)
    exact hquiet ⟨h.instances, fun c columns hc => by simp at hc, h.blocks, h.bufferChat⟩ rfl
  | bufferSnapshot uid doc =>
    obtain ⟨-, -, -, -, -, hws⟩ := Device.step_bufferSnapshot hd
    exact hquiet (h.bufferSnapshot hshows hd) hws
  | openChat id isGroupChat => exact hmono.openChat hd
  | conversationSnapshot i doc =>
    obtain ⟨-, -, -, -, -, -, -, hws⟩ := Device.step_conversationSnapshot hd
    exact hquiet (h.conversationSnapshot hshows hd) hws
  | roomMemberFetched i doc =>
    obtain ⟨self, self', hi, -, hf, rfl, hws⟩ := Device.step_roomMemberFetched hd
    refine hquiet ⟨h.set ?_, h.cached, h.blocks, h.bufferChat⟩ hws
    exact (h.instances self (List.mem_of_getElem? hi)).roomMemberFetched hf
  | finishEditing i text t =>
    obtain ⟨self, r, hi, hr, hd⟩ := Device.step_finishEditing hd
    unfold ChatViewController.finishEditing at hr
    split_ifs at hr with ht
    · obtain ⟨user, hu, rfl⟩ := Option.map_eq_some_iff.1 hr
      exact hmono.afterSend hi (by simp [encodes, ht, hu]) hd
    · obtain rfl := Option.some.inj hr
      obtain ⟨rfl, rfl⟩ := Prod.mk.inj hd
      refine hquiet ⟨h.set (h.instances self (List.mem_of_getElem? hi)), h.cached, ?_,
        h.bufferChat⟩ rfl
      simpa using h.blocks
  | voiceCompletion i url t =>
    obtain ⟨self, r, hi, hr, hd⟩ := Device.step_voiceCompletion hd
    obtain ⟨user, hu, rfl⟩ := Option.map_eq_some_iff.1 hr
    exact hmono.afterSend hi (by simp [encodes, hu]) hd
  | runBlock j => exact hmono.runBlock hd

/-! ## The other writers -/

theorem signupClick_sound (uid email : String) :
    ∀ x ∈ MessageApp.signupClick { uid := uid, email := some email }, Sound encoded x := by
  intro x hx
  rcases List.mem_cons.1 hx with rfl | hx
  · refine ⟨fun k v hv => .inr ?_, fun hm => by cases hm⟩
    rw [Std.ExtTreeMap.ofList_singleton, Std.ExtTreeMap.getElem?_insert] at hv
    split_ifs at hv with hk
    · exact ⟨(Std.LawfulEqCmp.eq_of_compare hk).symm, uid, (Option.some.inj hv).symm⟩
    · simp at hv
  rcases List.mem_pair.1 hx with rfl | rfl
  · trivial
  · exact ⟨fun _ _ _ => trivial, fun hm => by cases hm⟩

/-- What an entry of `Friends` says has been encoded. -/
theorem describes_friend {uid id name : String} {isGroupChat : Bool}
    (h : .friend uid id (some name) isGroupChat ∈ encoded) : Describes encoded (.friends uid id)
      (.ofList [("username", Value.string name), ("groupFlag", .bool isGroupChat)]) :=
  ⟨name, isGroupChat, Doc.getElem?_ofList_pair (by decide) (by simp),
    Doc.getElem?_ofList_pair (by decide) (by simp), h⟩

theorem agreeClicked_sound {i : ℕ} {self : Requester} {ws : List Write}
    (hi : p.requestScreens[i]? = some self) (hprofile : p.HasProfile (.agreeClicked i))
    (h : MessageApp.agreeClicked p.device.currentUser self.id self.name = some ws) :
    ∀ w ∈ ws, Sound (p.encodes (.agreeClicked i)) (.write w) := by
  obtain ⟨user, hu, hname⟩ := hprofile
  obtain ⟨name, hname⟩ := Option.isSome_iff_exists.1 hname
  have hu : p.device.currentUser = some user := hu
  have henc : p.encodes (.agreeClicked i) = [.friend user.uid self.id (some self.name) false,
      .friend self.id user.uid (some name) false] := by
    simp [encodes, hu, hi, hname]
  rw [hu] at h
  simp only [MessageApp.agreeClicked, Option.bind_eq_bind, Option.bind_some, hname,
    Option.some.injEq] at h
  subst h
  rw [henc]
  intro w hw
  simp only [List.mem_cons, List.not_mem_nil, or_false] at hw
  rcases hw with rfl | rfl | rfl | rfl
  · trivial
  · trivial
  · exact ⟨describes_friend (List.mem_cons_self ..), fun hm => by cases hm⟩
  · exact ⟨describes_friend (List.mem_cons_of_mem _ (List.mem_singleton_self _)),
      fun hm => by cases hm⟩

theorem startGroupChatNow_sound {user : User} {friends : List String} {documentID : String}
    {ws : List Write} (h : MessageApp.startGroupChatNow (some user) friends documentID = some ws) :
    ∀ w ∈ ws, Sound encoded (.write w) := by
  obtain rfl := Option.some.inj h
  intro w hw
  obtain rfl := List.mem_singleton.1 hw
  exact ⟨⟨friends ++ [user.uid], Doc.getElem?_ofList_pair (by decide) (by simp)⟩,
    fun hm => by cases hm⟩

theorem groupAdded_sound {j : ℕ} {user : User} {friends : List String} {documentID : String}
    {ws : List Write} (hj : p.adding[j]? = some (user, documentID))
    (h : MessageApp.groupAdded user friends documentID = some ws) :
    ∀ w ∈ ws, Sound (p.encodes (.groupAdded j friends)) (.write w) := by
  obtain ⟨email, hemail, h⟩ := Option.bind_eq_some_iff.1 h
  obtain rfl := Option.some.inj h
  have henc : p.encodes (.groupAdded j friends) = (user.uid :: friends).map fun id =>
      .friend id documentID (some (email ++ "Start a Group Chat")) true := by
    simp [encodes, hj, hemail]
  have hdata : ∀ id ∈ user.uid :: friends, Sound (p.encodes (.groupAdded j friends))
      (.write (.setData (.friends id documentID)
        (.ofList [("username", Value.string (email ++ "Start a Group Chat")),
          ("groupFlag", .bool true)]) false)) := by
    intro id hid
    refine ⟨describes_friend ?_, fun hm => by cases hm⟩
    rw [henc]
    exact List.mem_map_of_mem hid
  intro w hw
  rcases List.mem_cons.1 hw with rfl | hw
  · exact hdata _ List.mem_cons_self
  · obtain ⟨id, hid, rfl⟩ := List.mem_map.1 hw
    exact hdata id (List.mem_cons_of_mem _ hid)

theorem sendStoryClicked_sound {text : Option String} {listOfId : List String} {t : String}
    {ws : List Write} (hprofile : p.HasProfile (.sendStoryClicked text t))
    (h : MessageApp.sendStoryClicked p.device.currentUser text listOfId t = some ws) :
    ∀ w ∈ ws, Sound (p.encodes (.sendStoryClicked text t)) (.write w) := by
  cases text with
  | none =>
    obtain rfl := Option.some.inj h
    exact fun w hw => (List.not_mem_nil hw).elim
  | some text =>
    obtain ⟨user, hu, hname⟩ := hprofile
    obtain ⟨name, hname⟩ := Option.isSome_iff_exists.1 hname
    have hu : p.device.currentUser = some user := hu
    have henc : p.encodes (.sendStoryClicked (some text) t) =
        [.story user.uid text (some name) t] := by
      simp [encodes, hu, hname]
    rw [hu] at h
    simp only [MessageApp.sendStoryClicked, Option.map_some, hname, Option.some.injEq] at h
    subst h
    rw [henc]
    have hstory : ∀ id, Sound [.story user.uid text (some name) t] (.write
        (.setData (.friendBlog id) (.insert ∅ t (.array [some user.uid, some text, some name]))
          true)) := by
      refine fun id => ⟨fun k v hv => ?_, fun _ => trivial⟩
      rw [Std.ExtTreeMap.getElem?_insert] at hv
      split_ifs at hv with hk
      · obtain rfl := Option.some.inj hv
        obtain rfl := Std.LawfulEqCmp.eq_of_compare hk
        exact ⟨user.uid, text, name, rfl, List.mem_singleton_self _⟩
      · simp at hv
    intro w hw
    rcases List.mem_cons.1 hw with rfl | hw
    · exact ⟨fun _ _ _ => trivial, fun _ => trivial⟩
    rcases List.mem_cons.1 hw with rfl | hw
    · exact hstory _
    · obtain ⟨id, -, rfl⟩ := List.mem_map.1 hw
      exact hstory id

/-! ## All writers -/

theorem chat_email {e : Device.Event} (he : signsInWithEmail e = true) {d d' : Device}
    {ws : List Write} (h : ∀ user ∈ d.currentUser, user.email.isSome)
    (hd : d.step e = some (d', ws)) : ∀ user ∈ d'.currentUser, user.email.isSome := by
  intro user hu
  rw [Option.mem_def, Device.step_currentUser hd] at hu
  cases e with
  | signIn user' =>
    obtain rfl := Option.some.inj hu
    exact he
  | signoutClick | signout => cases hu
  | _ => exact h user hu

theorem Told.step {e : Event} {ws : List AppWrite} (h : p.Told encoded)
    (hshows : e.Shows encoded p) (hprofile : p.HasProfile e) (heff : Effect p e q ws) :
    q.Told (encoded ++ p.encodes e) ∧ ∀ x ∈ ws, Sound (encoded ++ p.encodes e) x := by
  have hmono : p.Told (encoded ++ p.encodes e) := h.mono (List.subset_append_left _ _)
  have hwrites : ∀ ws' : List Write, (∀ w ∈ ws', Sound (p.encodes e) (.write w)) →
      ∀ x ∈ ws'.map AppWrite.write, Sound (encoded ++ p.encodes e) x := by
    intro ws' hws' x hx
    obtain ⟨w, hw, rfl⟩ := List.mem_map.1 hx
    exact (hws' w hw).mono (List.subset_append_right _ _)
  have hnil : ∀ x ∈ ([] : List AppWrite), Sound (encoded ++ p.encodes e) x :=
    fun x hx => (List.not_mem_nil hx).elim
  cases heff with
  | chat he hd =>
    obtain ⟨hdevice, hws⟩ := chat_told h.device hshows hd
    refine ⟨⟨hdevice, chat_email he h.email hd, h.adding⟩, fun x hx => ?_⟩
    obtain ⟨w, hw, rfl⟩ := List.mem_map.1 hx
    exact hws w hw
  | signupClick uid email =>
    refine ⟨⟨hmono.device.congr rfl rfl rfl rfl, ?_, h.adding⟩, signupClick_sound uid email⟩
    intro user hu
    obtain rfl := Option.some.inj hu
    rfl
  | changesCommitted hj =>
    refine ⟨⟨hmono.device.congr rfl rfl rfl rfl, ?_, h.adding⟩, hnil⟩
    intro user hu
    obtain ⟨user', hu', rfl⟩ := Option.map_eq_some_iff.1 hu
    split_ifs
    · exact h.email user' hu'
    · exact h.email user' hu'
  | friendsSnapshot _ hg =>
    rw [friendsListener_globals hg]
    exact ⟨⟨hmono.device.congr rfl rfl rfl rfl, h.email, h.adding⟩, hnil⟩
  | afterSignUp | requestSnapshot | chatBufferSnapshot | cellForRowAt | didSelectRowAt
  | requestDidLoad =>
    exact ⟨⟨hmono.device.congr rfl rfl rfl rfl, h.email, h.adding⟩, hnil⟩
  | agreeClicked hi hws => exact ⟨hmono, hwrites _ (agreeClicked_sound hi hprofile hws)⟩
  | disagreeClicked _ hws =>
    obtain ⟨user, -, hws⟩ := Option.bind_eq_some_iff.1 hws
    obtain rfl := Option.some.inj hws
    refine ⟨hmono, hwrites _ fun w hw => ?_⟩
    rcases List.mem_pair.1 hw with rfl | rfl <;> trivial
  | sendFriendRequest hws => exact ⟨hmono, hwrites _ (sendFriendRequest_sound hws)⟩
  | startGroupChatNow hu hws =>
    refine ⟨⟨hmono.device, h.email, fun a ha => ?_⟩, hwrites _ (startGroupChatNow_sound hws)⟩
    rcases List.mem_append.1 ha with ha | ha
    · exact h.adding a ha
    · obtain rfl := List.mem_singleton.1 ha
      exact h.email _ hu
  | groupAdded hj hws =>
    exact ⟨⟨hmono.device, h.email, fun a ha => h.adding a (List.mem_of_mem_eraseIdx ha)⟩,
      hwrites _ (groupAdded_sound hj hws)⟩
  | sendStoryClicked hws => exact ⟨hmono, hwrites _ (sendStoryClicked_sound hprofile hws)⟩

/-- The button of a writer is there, or the operation it completes was started. -/
def Offers (p : Process) : Event → Prop
  | .agreeClicked i => i < p.requestScreens.length
  | .groupAdded j _ => j < p.adding.length
  | .chat (.finishEditing i _ _) | .chat (.voiceCompletion i _ _) => i < p.device.instances.length
  | .signupClick _ _ | .sendFriendRequest _ | .startGroupChatNow _ _ | .sendStoryClicked _ _ => True
  | _ => False

/-- No writer traps. -/
theorem Told.step_isSome {e : Event} (h : p.Told encoded) (hprofile : p.HasProfile e)
    (hoffers : p.Offers e) : (p.step e).isSome := by
  cases e with
  | chat e =>
    cases e with
    | finishEditing i text t =>
      have hi := List.getElem?_eq_getElem (show i < p.device.instances.length from hoffers)
      by_cases ht : text = ""
      · simp [Process.step, signsInWithEmail, Device.step, hi, ChatViewController.finishEditing, ht]
      · obtain ⟨user, hu⟩ := Option.isSome_iff_exists.1 (hprofile ht)
        simp [Process.step, signsInWithEmail, Device.step, hi, ChatViewController.finishEditing, ht,
          hu]
    | voiceCompletion i url t =>
      have hi := List.getElem?_eq_getElem (show i < p.device.instances.length from hoffers)
      obtain ⟨user, hu⟩ := Option.isSome_iff_exists.1 hprofile
      simp [Process.step, signsInWithEmail, Device.step, hi, ChatViewController.voiceCompletion, hu]
    | _ => exact hoffers.elim
  | signupClick uid email => rfl
  | agreeClicked i =>
    have hi := List.getElem?_eq_getElem (show i < p.requestScreens.length from hoffers)
    obtain ⟨user, hu, -⟩ := hprofile
    simp [Process.step, hi, MessageApp.agreeClicked, Option.mem_def.1 hu]
  | sendFriendRequest other =>
    obtain ⟨user, hu, hname⟩ := hprofile
    by_cases hother : user.uid = other
    · simp [Process.step, MessageApp.sendFriendRequest, Option.mem_def.1 hu, hother]
    · obtain ⟨name, hname⟩ := Option.isSome_iff_exists.1 (hname hother)
      simp [Process.step, MessageApp.sendFriendRequest, Option.mem_def.1 hu, hother, hname]
  | startGroupChatNow friends documentID =>
    obtain ⟨user, hu⟩ := Option.isSome_iff_exists.1 hprofile
    simp [Process.step, hu, MessageApp.startGroupChatNow]
  | groupAdded j friends =>
    have hj := List.getElem?_eq_getElem (show j < p.adding.length from hoffers)
    obtain ⟨email, hemail⟩ := Option.isSome_iff_exists.1
      (h.adding _ (List.getElem_mem (show j < p.adding.length from hoffers)))
    simp [Process.step, hj, MessageApp.groupAdded, hemail]
  | sendStoryClicked text t =>
    cases text with
    | none => simp [Process.step, MessageApp.sendStoryClicked]
    | some text =>
      obtain ⟨user, hu, -⟩ := hprofile
      simp [Process.step, MessageApp.sendStoryClicked, Option.mem_def.1 hu]
  | _ => exact hoffers.elim

end Process

namespace App

/-- No listener traps on what these writes lead to, and what it reads was encoded. -/
structure Decodes (w : App) (ws : List AppWrite) : Prop where
  friends : ∀ uid g documents, (∀ d ∈ documents, docs ws (.friends uid d.1) = some d.2) →
    ∃ g' lists, RecentViewController.friendsListener g documents = some (g', lists) ∧
      List.Forall₂ (fun d e => Encoded.friend uid d.1 (some e.1) e.2 ∈ w.encoded) documents
        (lists.listOfFriends.zip lists.isGroupChat)
  requests : ∀ uid documents,
    (∀ d ∈ documents, docs ws (.friendRequestFrom uid d.1) = some d.2) →
    ∃ information, RecentViewController.requestListener documents = some information ∧
      List.Forall₂ (fun d name => Encoded.request d.1 name uid ∈ w.encoded) documents
        information.name
  /-- `Buffer` has the field of a sign-up until the next write deletes it -/
  buffer : ∀ uid g doc, docs ws (.buffer uid) = some doc →
    (∀ s, doc["userID"]? ≠ some (.string s)) →
    ∃ g', Device.bufferListener g (some doc) = some g' ∧
      ∀ (k : String) (record : List String), g'.bufferChat[k]? = some record →
        ∃ author text audio, record = [text, author, audio] ∧
          .message author text audio k ∈ w.encoded
  conversation : ∀ p (i : ℕ) self path doc, (w.process p).device.instances[i]? = some self →
    self.docRefc = some path → docs ws path = some doc →
    doc.Records ∧ ∃ s rows,
      self.conversationListener (w.process p).device.globals.cacheMessage (some doc) = some s ∧
        s.2.Holds rows ∧ ∀ r ∈ rows, .message r.who r.text r.audio r.key ∈ w.encoded
  blog : ∀ uid (self : DiscoverViewController) doc, docs ws (.friendBlog uid) = some doc →
    ∃ s, self.blogListener (some doc) = some s ∧
      List.Forall₂ (fun f e => Encoded.story e.1 e.2.1 (some e.2.2) f.1 ∈ w.encoded) doc.toList
        (s.userIdArray.zip (s.blogArray.zip s.userNameArray))
  group : ∀ g (self : ChatViewController) doc, docs ws (.group g) = some doc →
    (self.roomMemberFetched (some doc)).isSome

/-- Whoever writes is signed in, and has a display name where it is written. -/
def HasProfile (_ : List Event) (w : App) : Event → Prop
  | .on p e => (w.process p).HasProfile e
  | _ => True

/-- The unwraps of a writer succeed. -/
def Unwraps (_ : List Event) (w : App) : Event → Prop
  | .on p e => (w.process p).Offers e → ((w.process p).step e).isSome
  | _ => True

variable {w : App}

section Issued

variable (hissued : ∀ c, ∀ x ∈ w.net.issued c, Sound w.encoded x)
include hissued

theorem describes_seen {c : String × Option String} {n m : ℕ} {p : DocPath} {doc : Doc}
    (hdoc : docs (w.seen [] c n m) p = some doc) : Describes w.encoded p doc := by
  refine describes_docs (fun x hx _ => ?_) hdoc
  rcases mem_seen hx with hx | ⟨c', hx⟩
  · cases hx
  · exact hissued c' x hx

/-- A callback shows what was encoded, and needs nobody's profile. -/
theorem callback_shows {c : String × Option String} {n m : ℕ} {p : Process} {query : Query}
    {pe : Process.Event} (hpe : query.callback (w.seen [] c n m) p = some pe) :
    pe.Shows w.encoded p ∧ p.HasProfile pe := by
  cases Query.shows_of_callback hpe with
  | buffer uid =>
    refine ⟨?_, trivial⟩
    show Device.Event.Shows _ _ _
    cases hdoc : docs (w.seen [] c n m) (.buffer uid) with
    | none => trivial
    | some doc => exact describes_seen hissued hdoc
  | @conversation i self path hi hpath =>
    refine ⟨?_, trivial⟩
    show Device.Event.Shows _ _ _
    cases hdoc : docs (w.seen [] c n m) path with
    | none => trivial
    | some doc =>
      intro self' path' hi' hpath'
      obtain rfl := Option.some.inj (hi.symm.trans hi')
      obtain rfl := Option.some.inj (hpath.symm.trans hpath')
      exact describes_seen hissued hdoc
  | _ => exact ⟨trivial, trivial⟩

theorem Delivers.shows {es : List Event} {e : Event} {p : String} {pe : Process.Event}
    (hpe : Delivers [] w e p pe) (hprofile : HasProfile es w e) :
    pe.Shows w.encoded (w.process p) ∧ (w.process p).HasProfile pe := by
  cases hpe with
  | on hlocal =>
    refine ⟨?_, hprofile⟩
    cases pe with
    | chat e =>
      cases e with
      | bufferSnapshot | conversationSnapshot => cases hlocal
      | _ => trivial
    | _ => trivial
  | deliver hpe => exact callback_shows hissued hpe

/-- On documents of the app's format, all listeners decode. -/
theorem decodes_seen (hprocess : ∀ p, (w.process p).Told w.encoded) (c : String × Option String)
    (n m : ℕ) : w.Decodes (w.seen [] c n m) where
  friends _ g _ h := RecentViewController.friendsListener_of_describes
    (fun d hd => describes_seen hissued (h d hd)) g
  requests _ _ h := RecentViewController.requestListener_of_describes
    fun d hd => describes_seen hissued (h d hd)
  buffer uid g doc hdoc hfield := by
    have hmessages : ∀ (k : String) (v : Value), doc[k]? = some v → IsMessage w.encoded k v := by
      intro k v hv
      rcases describes_seen hissued hdoc k v hv with hm | ⟨rfl, s, rfl⟩
      · exact hm
      · exact absurd hv (hfield s)
    obtain ⟨b, hb, hrecords⟩ := dict?_of_messages hmessages
    refine ⟨{ g with bufferChat := b }, by simp [Device.bufferListener, hb], fun k record hk => ?_⟩
    obtain ⟨author, text, audio, hrecord, henc⟩ := hrecords k record hk
    exact ⟨author, text, audio, Value.ofStrings_inj.1 hrecord, henc⟩
  conversation p i self path doc hi hpath hdoc := by
    have hself := (hprocess p).device.instances self (List.mem_of_getElem? hi)
    have hmessages := hself.messages hpath (describes_seen hissued hdoc)
    obtain ⟨own, hown, htold⟩ := hself.rows
    obtain ⟨s, hs⟩ := Option.isSome_iff_exists.1
      (ChatViewController.conversationListener_isSome (records_of_messages hmessages) hown
        fun columns hc => (hprocess p).device.cached _ columns hc)
    obtain ⟨rows, hrows, hall⟩ :=
      ChatViewController.conversationListener_told hown htold hmessages hs
    exact ⟨records_of_messages hmessages, s, rows, hs, hrows, hall⟩
  blog _ self _ hdoc :=
    DiscoverViewController.blogListener_of_describes (describes_seen hissued hdoc) self
  group g self doc hdoc := by
    obtain ⟨members, hmembers⟩ := describes_seen hissued hdoc
    simp [ChatViewController.roomMemberFetched, hmembers]

end Issued

theorem told_of_run {es : List Event} (hprofile : EventRun.Meets (step []) HasProfile start es)
    (h : EventRun.run (step []) start es = some w) :
    (∀ c, ∀ x ∈ w.net.issued c, Sound w.encoded x) ∧ ∀ p, (w.process p).Told w.encoded := by
  refine run_rule (Q := HasProfile) (G := Sound) (P := fun _ encoded _ q => q.Told encoded)
    (fun h => h.mono (List.subset_append_left _ _))
    (fun _ h => h.mono (List.subset_append_left _ _)) (fun _ => Process.told_start) ?_ hprofile h
  intro es w e p pe q ws hissued hp hprofile hpe heff
  obtain ⟨hshows, hprofile⟩ := hpe.shows hissued hprofile
  exact hp.step hshows hprofile heff

/-- In every run from the empty store in which whoever writes is signed in, and has a display name
where it is written, no writer traps, and no listener does on what it can be shown, `Buffer` apart
while it has a sign-up's field; what it reads is what was encoded. -/
theorem every_document_decodes {es : List Event}
    (hprofile : EventRun.Meets (step []) HasProfile start es) :
    EventRun.Meets (step []) Unwraps start es ∧
      ∀ w, EventRun.run (step []) start es = some w →
        ∀ c n m, w.Decodes (w.seen [] c n m) := by
  constructor
  · intro pre e post w hes hw
    cases e with
    | on p pe =>
      intro hoffers
      have hpre := (hes ▸ hprofile : EventRun.Meets _ _ _ (pre ++ _)).left (step [])
      exact ((told_of_run hpre hw).2 p).step_isSome (hprofile pre _ post w hes hw) hoffers
    | _ => trivial
  · intro w hw c n m
    obtain ⟨hissued, hprocess⟩ := told_of_run hprofile hw
    exact decodes_seen hissued hprocess c n m

/-- `a` posts a story. -/
def posting : List Event :=
  [.on "q" (.chat (.signIn { uid := "a", email := some "a@", displayName := some "a@" })),
    .on "q" (.sendStoryClicked (some "hi") "1"), .land ("q", some "a")]

theorem every_document_decodes_posting : ∃ w doc s, EventRun.run (step []) start posting = some w ∧
    docs (w.seen [] ("q", some "a") 1 1) (.friendBlog "a") = some doc ∧
    DiscoverViewController.blogListener {} (some doc) = some s := by
  obtain ⟨w, hw⟩ := Option.isSome_iff_exists.1
    (by decide : (EventRun.run (step []) start posting).isSome)
  obtain ⟨doc, hdoc⟩ := Option.isSome_iff_exists.1
    ((by decide : ∀ w, EventRun.run (step []) start posting = some w →
      (docs (w.seen [] ("q", some "a") 1 1) (.friendBlog "a")).isSome) w hw)
  have hprofile : EventRun.Meets (step []) HasProfile start posting := by
    show EventRun.Meets (step []) HasProfile start ([] ++ [_] ++ [_] ++ [_])
    rw [EventRun.meets_snoc _ rfl, EventRun.meets_snoc _ rfl, EventRun.meets_snoc _ rfl]
    exact ⟨⟨⟨EventRun.meets_nil _ _ _, trivial⟩, _, rfl, rfl⟩, trivial⟩
  obtain ⟨s, hs, -⟩ :=
    ((every_document_decodes hprofile).2 w hw ("q", some "a") 1 1).blog "a" {} doc hdoc
  exact ⟨w, doc, s, hw, hdoc, hs⟩

/-- `b`, who has just signed up, agrees to `a`'s request. -/
def agreeing : List Event :=
  [.on "q" (.chat (.signIn { uid := "a", email := some "a@", displayName := some "a@" })),
    .on "p" (.signupClick "b" "b@"), .land ("p", some "b"), .land ("p", some "b"),
    .land ("p", some "b"), .on "p" .afterSignUp,
    .on "q" (.sendFriendRequest "b"), .land ("q", some "a"), .land ("q", some "a"),
    .deliver "p" (.requests "b") 5 0, .on "p" (.cellForRowAt 0), .on "p" (.didSelectRowAt 0),
    .on "p" .requestDidLoad, .on "p" (.agreeClicked 0), .land ("p", some "b"),
    .land ("p", some "b"), .land ("p", some "b"), .land ("p", some "b")]

/-- The display name of `b` has not been set yet, so `a`'s list of friends has a null in it. -/
theorem not_every_document_decodes : ¬ ∀ es w, EventRun.run (step []) start es = some w →
    ∀ c n m, w.Decodes (w.seen [] c n m) := by
  intro h
  obtain ⟨w, hw⟩ := Option.isSome_iff_exists.1
    (by decide : (EventRun.run (step []) start agreeing).isSome)
  have hnull : ∀ w, EventRun.run (step []) start agreeing = some w →
      field (docs (w.seen [] ("q", some "a") 9 0) (.friends "a" "b")) "username" = some .null := by
    decide
  obtain ⟨doc, hdoc, hname⟩ := Option.bind_eq_some_iff.1 (hnull w hw)
  obtain ⟨g', lists, hl, -⟩ := (h agreeing w hw ("q", some "a") 9 0).friends "a" {} [("b", doc)]
    fun d hd => List.mem_singleton.1 hd ▸ hdoc
  simp [RecentViewController.friendsListener, hname, Value.string?] at hl

end App

end MessageApp
