import MessageApp.Proofs.FriendLists

/-!
# What a process has been told

The lists of a process hold friends and groups that have been told to an account it has listened for
(`App.Knows`), and nothing is ever untold. A chat stays of the one it has been opened for; what
changes is who its members are, when they are fetched (`Device.Opens`).
-/

namespace MessageApp

open Process

/-! ## Told to a process -/

theorem Device.listens_of_step {d d' : Device} {e : Device.Event} {ws : List Write} {v : String}
    (h : d.step e = some (d', ws)) (hv : v ∈ d.bufferListeners) : v ∈ d'.bufferListeners := by
  cases e with
  | signIn user =>
    obtain ⟨rfl, -⟩ := Prod.mk.inj (Option.some.inj h)
    exact List.mem_append_left _ hv
  | signoutClick | signout =>
    obtain ⟨rfl, -⟩ := Prod.mk.inj (Option.some.inj h)
    exact hv
  | bufferSnapshot uid doc =>
    obtain ⟨data, b, -, -, rfl, -⟩ := step_bufferSnapshot h
    exact hv
  | openChat id g =>
    obtain ⟨u, kept, -, -, rfl, -⟩ := step_openChat h
    exact hv
  | conversationSnapshot i doc =>
    obtain ⟨self, q, s, -, -, -, rfl, -⟩ := step_conversationSnapshot h
    exact hv
  | roomMemberFetched i doc =>
    obtain ⟨self, self', -, -, -, rfl, -⟩ := step_roomMemberFetched h
    exact hv
  | finishEditing i text t =>
    obtain ⟨self, r, -, -, hd⟩ := step_finishEditing h
    obtain ⟨rfl, -⟩ := Prod.mk.inj hd
    exact hv
  | voiceCompletion i url t =>
    obtain ⟨self, r, -, -, hd⟩ := step_voiceCompletion h
    obtain ⟨rfl, -⟩ := Prod.mk.inj hd
    exact hv
  | runBlock j =>
    obtain ⟨i, b, self, -, -, rfl, -⟩ := step_runBlock h
    exact hv

theorem Process.Effect.listens {p q : Process} {pe : Process.Event} {ws : List AppWrite}
    {v : String} (h : Effect p pe q ws) (hv : v ∈ p.device.bufferListeners) :
    v ∈ q.device.bufferListeners := by
  cases h with
  | chat _ hd => exact Device.listens_of_step hd hv
  | afterSignUp => exact List.mem_append_left _ hv
  | friendsSnapshot _ hl =>
    obtain rfl := friendsListener_globals hl
    exact hv
  | _ => exact hv

theorem Value.eq_string {v : Value} {s : String} (h : v.string? = some s) : v = .string s := by
  cases v with
  | string => exact congrArg _ (Option.some.inj h)
  | _ => cases h

theorem Value.eq_bool {v : Value} {b : Bool} (h : v.bool? = some b) : v = .bool b := by
  cases v with
  | bool => exact congrArg _ (Option.some.inj h)
  | _ => cases h

namespace RecentViewController

/-- The lists are the names and flags of the documents. -/
theorem entries_of_friendsListener {g g' : Globals} {lists : FriendLists}
    {documents : List (String × Doc)} (h : friendsListener g documents = some (g', lists)) :
    ∃ entries : List (String × Bool), List.Forall₂ (fun d e =>
      d.2["username"]? = some (Value.string e.1) ∧ d.2["groupFlag"]? = some (Value.bool e.2))
        documents entries ∧
      lists.listOfFriends = entries.map Prod.fst ∧ lists.isGroupChat = entries.map Prod.snd := by
  unfold friendsListener at h
  suffices ∀ (g₀ : Globals) (l₀ : FriendLists), documents.foldlM _ (g₀, l₀) = some (g', lists) →
      ∃ entries : List (String × Bool), List.Forall₂ _ documents entries ∧
        lists.listOfFriends = l₀.listOfFriends ++ entries.map Prod.fst ∧
        lists.isGroupChat = l₀.isGroupChat ++ entries.map Prod.snd from this _ _ h
  clear h
  induction documents with
  | nil =>
    intro g₀ l₀ h
    obtain ⟨-, rfl⟩ := Prod.mk.inj (Option.some.inj h)
    exact ⟨[], .nil, by simp⟩
  | cons document documents ih =>
    intro g₀ l₀ h
    rw [List.foldlM_cons] at h
    obtain ⟨s, hs, h⟩ := Option.bind_eq_some_iff.1 h
    obtain ⟨v, hv, hs⟩ := Option.bind_eq_some_iff.1 hs
    obtain ⟨username, hname, hs⟩ := Option.bind_eq_some_iff.1 hs
    obtain ⟨v', hv', hs⟩ := Option.bind_eq_some_iff.1 hs
    obtain ⟨flag, hflag, hs⟩ := Option.bind_eq_some_iff.1 hs
    obtain rfl := Option.some.inj hs
    obtain ⟨entries, hentries, hnames, hflags⟩ := ih _ _ h
    rw [Value.eq_string hname] at hv
    rw [Value.eq_bool hflag] at hv'
    refine ⟨(username, flag) :: entries, .cons ⟨hv, hv'⟩ hentries, ?_, ?_⟩
    · rw [hnames]
      split_ifs <;> simp
    · rw [hflags]
      split_ifs <;> simp

end RecentViewController

namespace App

variable {init : List AppWrite} {w w' : App}

/-- The friend or group has been told, with this name and flag, to an account that the process has
listened for. -/
def Knows (w : App) (p id name : String) (isGroupChat : Bool) : Prop :=
  ∃ v ∈ (w.process p).device.bufferListeners, .friend v id (some name) isGroupChat ∈ w.encoded

/-- The second is told all that the first is. -/
structure Grows (w w' : App) : Prop where
  listens : ∀ p, ∀ v ∈ (w.process p).device.bufferListeners,
    v ∈ (w'.process p).device.bufferListeners
  encoded : ∀ x ∈ w.encoded, x ∈ w'.encoded
  issued : ∀ c, ∀ x ∈ w.net.issued c, x ∈ w'.net.issued c

theorem Grows.refl (w : App) : Grows w w := ⟨fun _ _ h => h, fun _ h => h, fun _ _ h => h⟩

theorem grows_of_step {e : Event} (h : w.step init e = some w') : Grows w w' := by
  rcases step_cases h with ⟨c, net, -, hnet, rfl⟩ | ⟨p, pe, q, ws, -, heff, rfl⟩
  · exact ⟨fun _ _ h => h, fun _ h => h, fun c' x hx => by rwa [WriteQueue.issued_land hnet]⟩
  · refine ⟨fun p' v hv => ?_, fun x hx => List.mem_append_left _ hx,
      fun c x hx => WriteQueue.mem_issued_issue.2 (.inl hx)⟩
    by_cases hp : p' = p
    · subst hp
      simpa [acted] using heff.listens hv
    · simpa [acted, Function.update_of_ne hp] using hv

theorem Knows.mono (hG : Grows w w') {p id name : String} {isGroupChat : Bool}
    (h : w.Knows p id name isGroupChat) : w'.Knows p id name isGroupChat :=
  h.imp fun v hv => ⟨hG.listens p v hv.1, hG.encoded _ hv.2⟩

/-- The process has been told of the id, as a friend or as a group. -/
def KnowsAs (w : App) (p : String) (isGroupChat : Bool) (id : String) : Prop :=
  ∃ name, w.Knows p id name isGroupChat

theorem KnowsAs.mono (hG : Grows w w') {p id : String} {isGroupChat : Bool}
    (h : w.KnowsAs p isGroupChat id) : w'.KnowsAs p isGroupChat id :=
  h.imp fun _ h => h.mono hG

/-- The lists of the process hold what it has been told. -/
structure ListsKnown (w : App) (p : String) : Prop where
  row : ∀ {row : ℕ} {id : String} {isGroupChat : Bool},
    (w.process p).device.globals.listOfId[row]? = some id →
    (w.process p).lists.isGroupChat[row]? = some isGroupChat →
    ∃ name, (w.process p).lists.listOfFriends[row]? = some name ∧ w.Knows p id name isGroupChat
  picked : ∀ id ∈ (w.process p).lists.listOfIdWithoutGroup, w.KnowsAs p false id
  listed : ∀ id ∈ (w.process p).device.globals.listOfId, ∃ isGroupChat, w.KnowsAs p isGroupChat id

theorem ListsKnown.mono (hG : Grows w w') {p : String} (h : w.ListsKnown p)
    (hid : (w'.process p).device.globals.listOfId = (w.process p).device.globals.listOfId)
    (hlists : (w'.process p).lists = (w.process p).lists) : w'.ListsKnown p where
  row h₁ h₂ := by
    rw [hid] at h₁
    rw [hlists] at h₂ ⊢
    exact (h.row h₁ h₂).imp fun _ h => ⟨h.1, h.2.mono hG⟩
  picked id hmem := by
    rw [hlists] at hmem
    exact (h.picked id hmem).mono hG
  listed id hmem := by
    rw [hid] at hmem
    exact (h.listed id hmem).imp fun _ h => h.mono hG

/-- A snapshot of `Friends` fills the lists with what has been told to the account. -/
theorem listsKnown_of_friendsListener {p uid : String} {ws : List AppWrite} {g : Globals}
    {lists : FriendLists} (hof : BefriendsOf w.encoded ws uid)
    (hl : RecentViewController.friendsListener (w.process p).device.globals
      (collection (.friends uid) ws) = some (g, lists)) {w' : App} (hG : Grows w w')
    (huid : uid ∈ (w.process p).device.bufferListeners)
    (hid : (w'.process p).device.globals = g) (hlists : (w'.process p).lists = lists) :
    w'.ListsKnown p := by
  obtain ⟨entries, hentries, hnames, hflags⟩ :=
    RecentViewController.entries_of_friendsListener hl
  obtain rfl := friendsListener_globals hl
  obtain ⟨-, -, -, hids⟩ := friendsListener_lists hl
  have hknows : ∀ {id : String} {doc : Doc} {name : String} {isGroupChat : Bool},
      (id, doc) ∈ collection (.friends uid) ws → doc["username"]? = some (Value.string name) →
      doc["groupFlag"]? = some (Value.bool isGroupChat) → w'.Knows p id name isGroupChat := by
    intro id doc name isGroupChat hd hname hflag
    obtain ⟨name', flag, he, rfl⟩ := hof.friend_of_docs (mem_collection hd)
    rw [groupFlag_friendData] at hflag
    obtain rfl := Value.bool.inj (Option.some.inj hflag)
    cases name' with
    | none =>
      have hnull : (friendData none flag)["username"]? = some Value.null :=
        Doc.getElem?_ofList_pair (by decide) (by simp)
      cases hnull.symm.trans hname
    | some name' =>
      rw [username_friendData] at hname
      obtain rfl := Value.string.inj (Option.some.inj hname)
      exact ⟨uid, hG.listens p uid huid, hG.encoded _ he⟩
  have hentry : ∀ d ∈ collection (.friends uid) ws, ∃ e : String × Bool,
      d.2["username"]? = some (Value.string e.1) ∧ d.2["groupFlag"]? = some (Value.bool e.2) := by
    intro d hd
    obtain ⟨row, hrow⟩ := List.mem_iff_getElem?.1 hd
    obtain ⟨e, he⟩ : ∃ e, entries[row]? = some e :=
      ⟨_, List.getElem?_eq_getElem (hentries.length_eq ▸ (List.getElem?_eq_some_iff.1 hrow).1)⟩
    exact ⟨e, forall₂_getElem? hentries hrow he⟩
  refine ⟨?_, ?_, ?_⟩
  · intro row id isGroupChat h₁ h₂
    rw [hid, List.getElem?_map] at h₁
    rw [hlists, hflags, List.getElem?_map] at h₂
    obtain ⟨⟨id, doc⟩, hd, rfl⟩ := Option.map_eq_some_iff.1 h₁
    obtain ⟨e, he, rfl⟩ := Option.map_eq_some_iff.1 h₂
    obtain ⟨hname, hflag⟩ := forall₂_getElem? hentries hd he
    refine ⟨e.1, ?_, hknows (List.mem_of_getElem? hd) hname hflag⟩
    rw [hlists, hnames, List.getElem?_map, he]
    rfl
  · intro id hmem
    rw [hlists, hids] at hmem
    obtain ⟨⟨id, doc⟩, hd, rfl⟩ := List.mem_map.1 hmem
    obtain ⟨hd, hflag⟩ := List.mem_filter.1 hd
    obtain ⟨e, hname, -⟩ := hentry (id, doc) hd
    exact ⟨e.1, hknows hd hname (of_decide_eq_true hflag)⟩
  · intro id hmem
    rw [hid] at hmem
    obtain ⟨⟨id, doc⟩, hd, rfl⟩ := List.mem_map.1 hmem
    obtain ⟨e, hname, hflag⟩ := hentry (id, doc) hd
    exact ⟨e.2, e.1, hknows hd hname hflag⟩

/-- What is told is written into `Friends`, and what the lists hold has been told. -/
structure Tells (w : App) : Prop where
  befriends : w.Befriends
  lists : ∀ p, w.ListsKnown p

theorem tells_start : start.Tells where
  befriends := befriends_start
  lists _ := ⟨fun h _ => (by cases h), fun _ h => (List.not_mem_nil h).elim,
    fun _ h => (List.not_mem_nil h).elim⟩

theorem Tells.step (hinit : ∀ x ∈ init, ∀ uid id, DocWrite.path x ≠ .friends uid id)
    (hT : w.Tells) {e : Event} (h : w.step init e = some w') : w'.Tells := by
  refine ⟨hT.befriends.step h, fun p' => ?_⟩
  have hG := grows_of_step h
  rcases step_cases h with ⟨c, net, -, -, rfl⟩ | ⟨p, pe, q, ws, hpe, heff, rfl⟩
  · exact (hT.lists p').mono hG rfl rfl
  · by_cases hp : p' = p
    · subst hp
      have hproc : (w.acted p' pe q ws).process p' = q := by simp [acted]
      have hkeep : q.device.globals.listOfId = (w.process p').device.globals.listOfId →
          q.lists = (w.process p').lists → (w.acted p' pe q ws).ListsKnown p' :=
        fun h₁ h₂ => (hT.lists p').mono hG (by rw [hproc, h₁]) (by rw [hproc, h₂])
      cases heff with
      | chat _ hd => exact hkeep (chat_listOfId hd) rfl
      | @friendsSnapshot uid documents g lists huid hl =>
        cases hpe with
        | deliver hcall =>
          cases Query.shows_of_callback hcall with
          | friends =>
            refine listsKnown_of_friendsListener (fun x hx id hpath => ?_) hl hG huid
              (by rw [hproc]) (by rw [hproc])
            rcases mem_seen hx with hx | ⟨c, hx⟩
            · exact absurd hpath (hinit x hx uid id)
            · exact hT.befriends.written c x hx uid id hpath
        | on hlocal => cases hlocal
      | _ => exact hkeep rfl rfl
    · exact (hT.lists p').mono hG (by simp [acted, Function.update_of_ne hp])
        (by simp [acted, Function.update_of_ne hp])

end App

/-! ## Who has asked -/

/-- Someone has asked an account that the process has listened for. -/
def Process.HasAsked (encoded : List Encoded) (p : Process) (id : String) : Prop :=
  ∃ v ∈ p.device.bufferListeners, Asked encoded id v

/-- The requests on the screens of the process have been asked. -/
structure Process.Requested (encoded : List Encoded) (p : Process) : Prop where
  information : ∀ id ∈ p.friendRequestInformation.id, p.HasAsked encoded id
  cells : ∀ c ∈ p.cells, p.HasAsked encoded c.id
  selected : 0 < p.segues → p.HasAsked encoded p.friendSelectedInformation.id
  screens : ∀ self ∈ p.requestScreens, p.HasAsked encoded self.id

namespace Process

variable {encoded : List Encoded} {p q : Process}

theorem HasAsked.mono (hlistens : ∀ v ∈ p.device.bufferListeners, v ∈ q.device.bufferListeners)
    {id : String} (h : p.HasAsked encoded id) (encoded' : List Encoded) :
    q.HasAsked (encoded ++ encoded') id :=
  h.imp fun v hv => ⟨hlistens v hv.1, hv.2.append encoded'⟩

theorem Requested.append (h : p.Requested encoded) (encoded' : List Encoded) :
    p.Requested (encoded ++ encoded') where
  information id hid := (h.information id hid).mono (fun _ h => h) encoded'
  cells c hc := (h.cells c hc).mono (fun _ h => h) encoded'
  selected hs := (h.selected hs).mono (fun _ h => h) encoded'
  screens self hself := (h.screens self hself).mono (fun _ h => h) encoded'

theorem Requested.step {pe : Event} {ws : List AppWrite} (hR : p.Requested encoded)
    (h : Effect p pe q ws) (hasked : ∀ uid documents, pe = .requestSnapshot uid documents →
      ∀ d ∈ documents, Asked encoded d.1 uid) : q.Requested encoded := by
  have hkeep : ∀ {id : String}, p.HasAsked encoded id → q.HasAsked encoded id :=
    fun hid => hid.imp fun v hv => ⟨h.listens hv.1, hv.2⟩
  cases h with
  | @requestSnapshot uid documents information huid hi =>
    obtain ⟨name, -, hi⟩ := Option.bind_eq_some_iff.1 hi
    obtain rfl := Option.some.inj hi
    refine ⟨fun id hid => ?_, hR.cells, hR.selected, hR.screens⟩
    obtain ⟨d, hd, rfl⟩ := List.mem_map.1 hid
    exact ⟨uid, huid, hasked _ _ rfl d hd⟩
  | cellForRowAt _ hid =>
    refine ⟨hR.information, fun c hc => ?_, hR.selected, hR.screens⟩
    rcases List.mem_append.1 hc with hc | hc
    · exact hR.cells c hc
    · obtain rfl := List.mem_singleton.1 hc
      exact hR.information _ (List.mem_of_getElem? hid)
  | didSelectRowAt hc =>
    exact ⟨hR.information, hR.cells, fun _ => hR.cells _ (List.mem_of_getElem? hc), hR.screens⟩
  | requestDidLoad hs =>
    refine ⟨hR.information, hR.cells, fun _ => hR.selected hs, fun self hself => ?_⟩
    rcases List.mem_append.1 hself with hself | hself
    · exact hR.screens self hself
    · obtain rfl := List.mem_singleton.1 hself
      exact hR.selected hs
  | _ => exact ⟨fun id hid => hkeep (hR.information id hid), fun c hc => hkeep (hR.cells c hc),
      fun hs => hkeep (hR.selected hs), fun self hself => hkeep (hR.screens self hself)⟩

end Process

theorem App.requested_of_run {init : List AppWrite}
    (hinit : ∀ x ∈ init, ∀ a b, DocWrite.path x ≠ .friendRequestFrom b a) {es : List App.Event}
    {w : App} (h : EventRun.run (step init) start es = some w) (p : String) :
    (w.process p).Requested w.encoded := by
  refine (run_rule (Q := fun _ _ _ => True)
    (G := fun encoded x => ∀ a b, DocWrite.path x = .friendRequestFrom b a → Sound encoded x)
    (P := fun _ encoded _ q => q.Requested encoded) ?_ ?_ ?_ ?_
    (fun _ _ _ _ _ _ => trivial) h).2 p
  · exact fun h a b hp => (h a b hp).mono (List.subset_append_left _ _)
  · exact fun _ hR => hR.append _
  · exact fun _ => ⟨fun _ h => (List.not_mem_nil h).elim, fun _ h => (List.not_mem_nil h).elim,
      fun h => absurd h (lt_irrefl 0), fun _ h => (List.not_mem_nil h).elim⟩
  · intro es w e p pe q ws hsound hR _ hpe heff
    refine ⟨(hR.append _).step heff ?_, fun x hx a b hp =>
      (requests_sound heff hx hp).mono (List.subset_append_right _ _)⟩
    rintro uid documents rfl d hd
    exact (hpe.asked hinit hsound d hd).append _

/-! ## What a chat is of -/

namespace ChatViewController

/-- The two are one chat, with one listener. -/
structure SameChat (a b : ChatViewController) : Prop where
  chatWithId : b.chatWithId = a.chatWithId
  chatisGroupChat : b.chatisGroupChat = a.chatisGroupChat
  docRefc : b.docRefc = a.docRefc

/-- One chat, with the members it had. -/
structure SameMembers (a b : ChatViewController) : Prop extends SameChat a b where
  roomMember : b.roomMember = a.roomMember

variable {self self' : ChatViewController}

theorem SameChat.refl (a : ChatViewController) : SameChat a a := ⟨rfl, rfl, rfl⟩

theorem SameMembers.refl (a : ChatViewController) : SameMembers a a := ⟨.refl a, rfl⟩

theorem SameMembers.trans {a b c : ChatViewController} (h : SameMembers a b)
    (h' : SameMembers b c) : SameMembers a c where
  chatWithId := h'.chatWithId.trans h.chatWithId
  chatisGroupChat := h'.chatisGroupChat.trans h.chatisGroupChat
  docRefc := h'.docRefc.trans h.docRefc
  roomMember := h'.roomMember.trans h.roomMember

theorem send_sameMembers (self : ChatViewController) (content uid flag t : String) :
    SameMembers self (self.send content uid flag t).1 := by
  unfold send
  split_ifs <;> exact ⟨⟨rfl, rfl, rfl⟩, rfl⟩

theorem finishEditing_sameMembers {u : Option User} {text t : String}
    {r : ChatViewController × List Write × Option Block}
    (h : self.finishEditing u text t = some r) : SameMembers self r.1 := by
  unfold finishEditing at h
  split_ifs at h
  · obtain ⟨myUser, -, rfl⟩ := Option.map_eq_some_iff.1 h
    exact send_sameMembers _ _ _ _ _
  · rw [← Option.some.inj h]
    exact .refl self

theorem voiceCompletion_sameMembers {u : Option User} {url : Option String} {t : String}
    {r : ChatViewController × List Write × Option Block}
    (h : self.voiceCompletion u url t = some r) : SameMembers self r.1 := by
  obtain ⟨myUser, -, rfl⟩ := Option.map_eq_some_iff.1 h
  exact send_sameMembers _ _ _ _ _

theorem appendEntry_sameMembers {cacheMessage : Dict (List (List String))} {key : String}
    {value : Value} {s : Dict (List (List String)) × ChatViewController}
    (h : self.appendEntry cacheMessage key value = some s) : SameMembers self s.2 := by
  obtain ⟨cached, -, h⟩ := Option.bind_eq_some_iff.1 h
  simp only [] at h
  split_ifs at h
  · obtain rfl := Option.some.inj h
    exact .refl self
  · obtain ⟨value, -, h⟩ := Option.bind_eq_some_iff.1 h
    obtain ⟨text, -, h⟩ := Option.bind_eq_some_iff.1 h
    obtain ⟨who, -, h⟩ := Option.bind_eq_some_iff.1 h
    obtain ⟨audio, -, h⟩ := Option.bind_eq_some_iff.1 h
    obtain rfl := Option.some.inj h
    exact ⟨⟨rfl, rfl, rfl⟩, rfl⟩

theorem conversationListener_sameMembers {cacheMessage : Dict (List (List String))}
    {doc : Option Doc} {s : Dict (List (List String)) × ChatViewController}
    (h : self.conversationListener cacheMessage doc = some s) : SameMembers self s.2 := by
  cases doc with
  | none =>
    obtain rfl := Option.some.inj h
    exact .refl self
  | some data =>
    simp only [conversationListener] at h
    generalize data.toList = entries at h
    induction entries generalizing cacheMessage self with
    | nil =>
      obtain rfl := Option.some.inj h
      exact .refl self
    | cons e entries ih =>
      rw [List.foldlM_cons] at h
      obtain ⟨m, hm, h⟩ := Option.bind_eq_some_iff.1 h
      have hhead := appendEntry_sameMembers hm
      exact hhead.trans (ih h)

theorem roomMember_of_fetched {data : Doc} (h : self.roomMemberFetched (some data) = some self') :
    SameChat self self' ∧ data["RoomMember"]? = some (.ofStrings self'.roomMember) := by
  obtain ⟨v, hv, h⟩ := Option.bind_eq_some_iff.1 h
  obtain ⟨members, hmembers, h⟩ := Option.bind_eq_some_iff.1 h
  obtain rfl := Option.some.inj h
  exact ⟨⟨rfl, rfl, rfl⟩, by rw [hv, Value.ofStrings_of_strings? hmembers]⟩

end ChatViewController

namespace Device

open ChatViewController

variable {d d' : Device} {e : Device.Event} {ws : List Write}

/-- What an event makes of the instances. -/
inductive Opens (d : Device) (e : Device.Event) : List ChatViewController → Prop
  | same : Opens d e d.instances
  | opened {id : String} {isGroupChat : Bool} {user : User} : e = .openChat id isGroupChat →
    d.currentUser = some user → Opens d e (d.instances ++
      [{ chatWithId := id, chatisGroupChat := isGroupChat
         docRefc := openedDocRefc user.uid id isGroupChat }])
  | set {k : ℕ} {a b : ChatViewController} : d.instances[k]? = some a → SameMembers a b →
    Opens d e (d.instances.set k b)
  | fetched {k : ℕ} {a b : ChatViewController} {data : Doc} :
    e = .roomMemberFetched k (some data) → d.instances[k]? = some a → SameChat a b →
    data["RoomMember"]? = some (.ofStrings b.roomMember) → Opens d e (d.instances.set k b)

theorem opens_of_step (h : d.step e = some (d', ws)) : d.Opens e d'.instances := by
  cases e with
  | signIn user | signoutClick | signout =>
    obtain ⟨rfl, -⟩ := Prod.mk.inj (Option.some.inj h)
    exact .same
  | bufferSnapshot uid doc =>
    obtain ⟨data, b, -, -, rfl, -⟩ := step_bufferSnapshot h
    exact .same
  | openChat id g =>
    obtain ⟨user, kept, hu, -, rfl, -⟩ := step_openChat h
    exact .opened rfl hu
  | conversationSnapshot k doc =>
    obtain ⟨self, q, s, hk, -, hl, rfl, -⟩ := step_conversationSnapshot h
    exact .set hk (conversationListener_sameMembers hl)
  | roomMemberFetched k doc =>
    obtain ⟨self, self', hk, -, hf, rfl, -⟩ := step_roomMemberFetched h
    cases doc with
    | none =>
      obtain rfl := Option.some.inj hf
      exact .set hk (.refl self)
    | some data =>
      obtain ⟨hsame, hmembers⟩ := roomMember_of_fetched hf
      exact .fetched rfl hk hsame hmembers
  | finishEditing k text t =>
    obtain ⟨self, r, hk, hr, hd⟩ := step_finishEditing h
    obtain ⟨rfl, -⟩ := Prod.mk.inj hd
    exact .set hk (finishEditing_sameMembers hr)
  | voiceCompletion k url t =>
    obtain ⟨self, r, hk, hr, hd⟩ := step_voiceCompletion h
    obtain ⟨rfl, -⟩ := Prod.mk.inj hd
    exact .set hk (voiceCompletion_sameMembers hr)
  | runBlock j =>
    obtain ⟨k, b, self, -, -, rfl, -⟩ := step_runBlock h
    exact .same

variable {instances : List ChatViewController}

/-- An instance has been there as the same chat, or is opened by the event. -/
theorem Opens.mem (h : d.Opens e instances) {self : ChatViewController} (hself : self ∈ instances) :
    (∃ a ∈ d.instances, SameChat a self) ∨
    ∃ user, e = .openChat self.chatWithId self.chatisGroupChat ∧ d.currentUser = some user ∧
      self.docRefc = openedDocRefc user.uid self.chatWithId self.chatisGroupChat := by
  cases h with
  | same => exact .inl ⟨self, hself, .refl self⟩
  | opened he hu =>
    rcases List.mem_append.1 hself with hself | hself
    · exact .inl ⟨self, hself, .refl self⟩
    · obtain rfl := List.mem_singleton.1 hself
      exact .inr ⟨_, he, hu, rfl⟩
  | set hk hab =>
    rcases List.mem_or_eq_of_mem_set hself with hself | rfl
    · exact .inl ⟨self, hself, .refl self⟩
    · exact .inl ⟨_, List.mem_of_getElem? hk, hab.toSameChat⟩
  | fetched _ hk hab _ =>
    rcases List.mem_or_eq_of_mem_set hself with hself | rfl
    · exact .inl ⟨self, hself, .refl self⟩
    · exact .inl ⟨_, List.mem_of_getElem? hk, hab⟩

/-- No chat goes away. -/
theorem Opens.keeps (h : d.Opens e instances) {c : ChatViewController} (hc : c ∈ d.instances) :
    ∃ self ∈ instances, SameChat c self := by
  have hset : ∀ {k : ℕ} {a b : ChatViewController}, d.instances[k]? = some a → SameChat a b →
      ∃ self ∈ d.instances.set k b, SameChat c self := by
    intro k a b hk hab
    obtain ⟨j, hj⟩ := List.mem_iff_getElem?.1 hc
    by_cases hjk : k = j
    · subst hjk
      obtain rfl := Option.some.inj (hk.symm.trans hj)
      exact ⟨b, List.mem_set (List.getElem?_eq_some_iff.1 hk).1 _, hab⟩
    · exact ⟨c, List.mem_of_getElem? ((List.getElem?_set_ne hjk).trans hj), .refl c⟩
  cases h with
  | same => exact ⟨c, hc, .refl c⟩
  | opened => exact ⟨c, List.mem_append_left _ hc, .refl c⟩
  | set hk hab => exact hset hk hab.toSameChat
  | fetched _ hk hab _ => exact hset hk hab

end Device

/-- Only the chats' own events change the instances of a process. -/
theorem App.opens_of_step {init : List AppWrite} {w w' : App} {e : App.Event}
    (h : w.step init e = some w') (p : String) :
    (w'.process p).device.instances = (w.process p).device.instances ∨
    ∃ de, Delivers init w e p (.chat de) ∧
      (w.process p).device.Opens de (w'.process p).device.instances := by
  rcases step_cases h with ⟨c, net, -, -, rfl⟩ | ⟨p', pe, q, ws, hpe, heff, rfl⟩
  · exact .inl rfl
  · by_cases hp : p = p'
    · subst hp
      simp only [acted, Function.update_self]
      cases heff with
      | chat _ hd => exact .inr ⟨_, hpe, Device.opens_of_step hd⟩
      | _ => exact .inl rfl
    · simp [acted, Function.update_of_ne hp]

theorem App.instances_of_openChat {init : List AppWrite} {w w' : App} {p id : String}
    {isGroupChat : Bool} (h : w.step init (.on p (.chat (.openChat id isGroupChat))) = some w') :
    ∃ docRefc, (w'.process p).device.instances = (w.process p).device.instances ++
      [{ chatWithId := id, chatisGroupChat := isGroupChat, docRefc := docRefc }] := by
  rcases step_cases h with ⟨c, net, he, -, -⟩ | ⟨p', pe, q, ws, hpe, heff, rfl⟩
  · cases he
  · cases hpe with
    | on =>
      cases heff with
      | chat _ hd =>
        obtain ⟨user, kept, -, -, rfl, -⟩ := Device.step_openChat hd
        exact ⟨Device.openedDocRefc user.uid id isGroupChat,
          by simp only [acted, Function.update_self]⟩

end MessageApp
