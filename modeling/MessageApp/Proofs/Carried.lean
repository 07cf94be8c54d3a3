import MessageApp.Proofs.Parties
import MessageApp.Proofs.Received

/-!
# Where unread messages get to

A message is unread where its sender, or a block of its group, writes it. From there it is carried
on: what a process holds of a `Buffer` outlives the account, and the next one writes it into its own
`Buffer` when it opens a chat. So an entry is of a message to the account, or to one that it shares
a process with, or that such a one does (`App.Unread`); the documents of groups are never written
back. A badge counts no message that has not been sent (`Contacts.unread_of_contacts`).
-/

namespace MessageApp

/-- The message is one for the document of the account's `ChatBuffer`. -/
inductive Message.IsFor (m : Message) (id : String) : String → Prop
  | friend : m.isGroup = false → m.chat = id → IsFor m id "Buffer"
  | group : m.isGroup = true → m.sender ≠ id → IsFor m id m.chat

/-- When a message of the account has been sent. -/
def Encoded.timeFrom (id : String) : Encoded → Option String
  | .message author _ _ t => if author = id then some t else none
  | _ => none

namespace Process

/-- Every block is that of a message to a group, at an instance of the group's chat. -/
def BlocksOf (R : Message → Prop) (d : Device) : Prop :=
  ∀ ib ∈ d.blocks, ∃ m, R m ∧ ib ∈ m.queued ib.1 ∧ d.HasChat ib.1 m.chat

/-- What the chats of a process write to the document of an account's `ChatBuffer`. -/
inductive Notes (R : Message → Prop) (p : Process) (id : String) : String → Write → Prop
  | opened {chat : String} {user : User} {kept : Dict (List String)} :
    p.device.currentUser = some user → user.uid = id →
    ChatViewController.cleanBufferChat chat p.device.globals.bufferChat = some kept →
    Notes R p id "Buffer" (.setData (.buffer id) (.ofDict kept) false)
  | cleared (doc : String) : Notes R p id doc (.delete (.chatBuffer id doc))
  | friend {m : Message} : R m → m.isGroup = false → m.chat = id →
    Notes R p id "Buffer" (.setData (.buffer id) m.doc true)
  | notice {m : Message} {self : ChatViewController} : R m → m.isGroup = true → m.sender ≠ id →
    self ∈ p.device.instances → self.chatWithId = m.chat → id ∈ self.roomMember →
    Notes R p id m.chat (.setData (.chatBuffer id m.chat) m.doc true)

variable {p : Process} {R R' : Message → Prop} {e : Device.Event} {d : Device} {ws : List Write}

theorem BlocksOf.mono {d : Device} (h : BlocksOf R d) (hR : ∀ m, R m → R' m) : BlocksOf R' d :=
  fun ib hib => (h ib hib).imp fun _ hm => ⟨hR _ hm.1, hm.2⟩

theorem BlocksOf.step (hB : BlocksOf R p.device) (hset : p.device.Settled)
    (hR : ∀ m, p.Sends e m → ws = m.writes → R m) (h : p.device.step e = some (d, ws)) :
    BlocksOf R d := by
  have hold : ∀ ib ∈ p.device.blocks, ∃ m, R m ∧ ib ∈ m.queued ib.1 ∧ d.HasChat ib.1 m.chat :=
    fun ib hib => (hB ib hib).imp fun _ hm => ⟨hm.1, hm.2.1, hm.2.2.step hset h⟩
  by_cases he : e.isSend = true
  · rcases step_of_isSend (fun self hself => (hset self hself).2) he h with
      ⟨rfl, -⟩ | ⟨i, m, hm, hchat, rfl, rfl⟩
    · exact hold
    · intro ib hib
      rcases List.mem_append.1 hib with hib | hib
      · exact hold ib hib
      · obtain ⟨-, rfl⟩ := Message.eq_of_mem_queued hib
        exact ⟨m, hR m hm rfl, hib, hchat⟩
  · exact fun ib hib => hold ib (Device.mem_blocks_of_step (by simpa using he) h ib hib)

theorem notes_of_step (hB : BlocksOf R p.device) (hidle : ∀ self ∈ p.device.instances, self.Idle)
    (hR : ∀ m, p.Sends e m → ws = m.writes → R m) (h : p.device.step e = some (d, ws)) {x : Write}
    (hx : x ∈ ws) {id doc : String} (hpath : DocWrite.path x = .chatBuffer id doc) :
    Notes R p id doc x := by
  cases chatWrites_of_step hidle h with
  | nothing => cases hx
  | opened _ hu _ hkept =>
    rcases List.mem_pair.1 hx with rfl | rfl
    · obtain ⟨rfl, rfl⟩ := DocPath.chatBuffer.inj hpath
      exact .opened hu rfl hkept
    · obtain ⟨rfl, rfl⟩ := DocPath.chatBuffer.inj hpath
      exact .cleared _
  | @sent m hm _ =>
    have hwrites := Message.exists_mem_writes.1 ⟨x, hx, hpath⟩
    rw [Message.eq_of_mem_writes hx, hpath]
    split_ifs at hwrites with hg
    · simp at hwrites
    · obtain ⟨rfl, rfl⟩ : m.chat = id ∧ "Buffer" = doc := by simpa using hwrites
      exact .friend (hR m hm rfl) (by simpa using hg) rfl
  | @ran i b self hb hi _ =>
    obtain ⟨m, hm, hq, self', hi', hchat⟩ := hB _ hb
    obtain rfl := Option.some.inj (hi.symm.trans hi')
    obtain ⟨hg, heq⟩ := Message.eq_of_mem_queued hq
    obtain ⟨-, rfl⟩ := Prod.mk.inj heq
    obtain ⟨id', hid, rfl⟩ := List.mem_map.1 hx
    obtain ⟨rfl, rfl⟩ := DocPath.chatBuffer.inj hpath
    obtain ⟨hmem, hne⟩ := List.mem_filter.1 hid
    rw [hchat]
    exact .notice hm hg (Ne.symm (of_decide_eq_true hne)) (List.mem_of_getElem? hi) hchat hmem

end Process

namespace Device

variable {d d' : Device} {e : Device.Event} {ws : List Write}

/-- The events of the chats take keys from the group counter, and add none. -/
theorem bufferGroupChat_of_step (h : d.step e = some (d', ws)) {g : String}
    (hg : g ∈ d'.globals.bufferGroupChat) : g ∈ d.globals.bufferGroupChat := by
  cases e with
  | signIn user | signoutClick | signout =>
    obtain ⟨rfl, -⟩ := Prod.mk.inj (Option.some.inj h)
    exact hg
  | bufferSnapshot uid doc =>
    obtain ⟨data, b, -, -, rfl, -⟩ := step_bufferSnapshot h
    exact hg
  | openChat id g =>
    obtain ⟨user, kept, -, -, rfl, -⟩ := step_openChat h
    exact (Std.ExtTreeMap.mem_erase.1 hg).2
  | conversationSnapshot i doc =>
    obtain ⟨self, path, s, -, -, -, rfl, -⟩ := step_conversationSnapshot h
    exact hg
  | roomMemberFetched i doc =>
    obtain ⟨self, self', -, -, -, rfl, -⟩ := step_roomMemberFetched h
    exact hg
  | finishEditing i text t =>
    obtain ⟨self, r, -, -, hd⟩ := step_finishEditing h
    obtain ⟨rfl, -⟩ := Prod.mk.inj hd
    exact hg
  | voiceCompletion i url t =>
    obtain ⟨self, r, -, -, hd⟩ := step_voiceCompletion h
    obtain ⟨rfl, -⟩ := Prod.mk.inj hd
    exact hg
  | runBlock j =>
    obtain ⟨i, b, self, -, -, rfl, -⟩ := step_runBlock h
    exact hg

theorem listens_of_bufferSnapshot {uid : String} {doc : Option Doc}
    (h : d.step (.bufferSnapshot uid doc) = some (d', ws)) : uid ∈ d.bufferListeners := by
  simp only [step] at h
  split_ifs at h with huid
  exact huid

end Device

/-- A key of the group counter has been there, or is a group with a document in the snapshot. -/
theorem Process.Effect.groupCounter {p q : Process} {pe : Process.Event} {ws : List AppWrite}
    (h : Effect p pe q ws) {g : String} (hg : g ∈ q.device.globals.bufferGroupChat) :
    g ∈ p.device.globals.bufferGroupChat ∨ ∃ uid documents doc,
      pe = .chatBufferSnapshot uid documents ∧ uid ∈ p.device.bufferListeners ∧
      (g, doc) ∈ documents ∧ g ≠ "Buffer" := by
  cases h with
  | chat _ hd => exact .inl (Device.bufferGroupChat_of_step hd hg)
  | friendsSnapshot _ hl =>
    obtain rfl := friendsListener_globals hl
    exact .inl hg
  | @chatBufferSnapshot uid documents huid =>
    have hcounted := RecentViewController.mem_chatBufferListener.1 hg
    unfold RecentViewController.Counted at hcounted
    split at hcounted
    · rename_i last hlast
      obtain ⟨hmem, hne⟩ := List.mem_filter.1 (List.mem_of_getLast? hlast)
      obtain ⟨⟨g', doc⟩, hdoc, rfl⟩ := List.mem_map.1 hmem
      subst hcounted
      exact .inr ⟨uid, documents, doc, rfl, huid, hdoc, of_decide_eq_true hne⟩
    · exact .inl hcounted
  | _ => exact .inl hg

namespace App

variable {init : List AppWrite} {w w' : App}

/-- The account has written where the other has been listened for. -/
def Shares (w : App) (a b : String) : Prop :=
  ∃ p, w.HasHad p a ∧ b ∈ (w.process p).device.bufferListeners

/-- The message has been sent for the document of the account, or, in `Buffer`, for the one of an
account that it shares a process with, or of one that such an account does. -/
inductive Unread (w : App) : String → String → Message → Prop
  | sent {p doc id : String} {m : Message} : w.Sent p m → m.IsFor id doc → Unread w doc id m
  | shared {id a : String} {m : Message} : w.Shares id a → Unread w "Buffer" a m →
    Unread w "Buffer" id m

/-- What a field of the document may hold: a message, or what signing up has left. -/
inductive Entry (w : App) (id : String) : String → String → Value → Prop
  | unread {doc : String} {m : Message} : w.Unread doc id m →
    Entry w id doc m.t (.ofStrings m.record)
  | userID : Entry w id "Buffer" "userID" (.string id)

/-- A write to the document of the account's `ChatBuffer`. -/
inductive Notes (w : App) (id : String) : String → AppWrite → Prop
  | merge {doc : String} {m : Message} : w.Unread doc id m →
    Notes w id doc (.write (.setData (.chatBuffer id doc) m.doc true))
  | whole {data : Doc} : (∀ (k : String) v, data[k]? = some v → w.Entry id "Buffer" k v) →
    Notes w id "Buffer" (.write (.setData (.buffer id) data false))
  | cleared (doc : String) : Notes w id doc (.write (.delete (.chatBuffer id doc)))
  | deleteField (k : String) : Notes w id "Buffer" (.deleteField (.buffer id) k)

/-- A message for the document of the account has been written to it. -/
def Noticed (w : App) (g id : String) : Prop :=
  ∃ m, w.Unread g id m ∧ ∃ c, .write (.setData (.chatBuffer id g) m.doc true) ∈ w.net.issued c

theorem Shares.mono (hG : Grows w w') {a b : String} (h : w.Shares a b) : w'.Shares a b :=
  h.imp fun p h => ⟨h.1.mono hG, hG.listens p b h.2⟩

theorem Unread.mono (hG : Grows w w') {doc id : String} {m : Message} (h : w.Unread doc id m) :
    w'.Unread doc id m := by
  induction h with
  | sent hm hfor => exact .sent (hm.mono hG) hfor
  | shared hs _ ih => exact .shared (hs.mono hG) ih

theorem Unread.exists_sent {doc id : String} {m : Message} (h : w.Unread doc id m) :
    ∃ p, w.Sent p m := by
  induction h with
  | sent hm _ => exact ⟨_, hm⟩
  | shared _ _ ih => exact ih

/-- Outside of `Buffer`, it is to the group, and of another. -/
theorem Unread.of_ne_buffer {doc id : String} {m : Message} (h : w.Unread doc id m)
    (hne : doc ≠ "Buffer") :
    (∃ p, w.Sent p m) ∧ m.isGroup = true ∧ m.chat = doc ∧ m.sender ≠ id := by
  cases h with
  | sent hm hfor =>
    cases hfor with
    | friend => exact absurd rfl hne
    | group hg hsender => exact ⟨⟨_, hm⟩, hg, rfl, hsender⟩
  | shared => exact absurd rfl hne

theorem Noticed.mono (hG : Grows w w') {g id : String} (h : w.Noticed g id) : w'.Noticed g id :=
  h.imp fun _ h => ⟨h.1.mono hG, h.2.imp fun c hc => hG.issued c _ hc⟩

theorem Entry.mono (hG : Grows w w') {id doc k : String} {v : Value} (h : w.Entry id doc k v) :
    w'.Entry id doc k v := by
  cases h with
  | unread hm => exact .unread (hm.mono hG)
  | userID => exact .userID

theorem Notes.mono (hG : Grows w w') {id doc : String} {x : AppWrite} (h : w.Notes id doc x) :
    w'.Notes id doc x := by
  cases h with
  | merge hm => exact .merge (hm.mono hG)
  | whole hdata => exact .whole fun k v hv => (hdata k v hv).mono hG
  | cleared => exact .cleared _
  | deleteField k => exact .deleteField k

/-- A list is a message. -/
theorem Entry.exists_unread {id doc k : String} {l : List String}
    (h : w.Entry id doc k (.ofStrings l)) : ∃ m, w.Unread doc id m ∧ m.t = k ∧ m.record = l := by
  generalize hv : Value.ofStrings l = v at h
  cases h with
  | unread hm => exact ⟨_, hm, rfl, (Value.ofStrings_inj.1 hv).symm⟩
  | userID => cases hv

theorem Entry.carried {a b k : String} {l : List String} (hs : w.Shares a b)
    (h : w.Entry b "Buffer" k (.ofStrings l)) : w.Entry a "Buffer" k (.ofStrings l) := by
  obtain ⟨m, hm, rfl, rfl⟩ := h.exists_unread
  exact .unread (.shared hs hm)

/-- In every version of a document of a `ChatBuffer`, the fields are entries; and if it is not
`Buffer`, a message has been written to it. -/
theorem entry_of_docs {ws : List AppWrite} {id doc : String}
    (hws : ∀ x ∈ ws, DocWrite.path x = .chatBuffer id doc →
      w.Notes id doc x ∧ ∃ c, x ∈ w.net.issued c) {D : Doc}
    (hD : docs ws (.chatBuffer id doc) = some D) :
    (∀ (k : String) v, D[k]? = some v → w.Entry id doc k v) ∧
      (doc ≠ "Buffer" → w.Noticed doc id) := by
  refine DocWrite.replay_keeps_some (I := fun D =>
    (∀ (k : String) v, D[k]? = some v → w.Entry id doc k v) ∧ (doc ≠ "Buffer" → w.Noticed doc id))
    rfl (fun x hx hp d hd D hD => ?_) hD
  obtain ⟨hnotes, hissued⟩ := hws x hx hp
  cases hnotes with
  | @merge _ m hm =>
    refine ⟨fun k v hv => ?_, fun _ => ⟨m, hm, hissued⟩⟩
    have hposts := m.posts_doc (.chatBuffer id doc)
    have hfield := hposts.1.field_act d k
    rw [AppWrite.act_write] at hD
    rw [hD, field_some, hv, hposts.2, eq_comm, Option.or_eq_some_iff] at hfield
    rcases hfield with hfield | ⟨-, hfield⟩
    · split_ifs at hfield with ht
      exact ht ▸ Option.some.inj hfield ▸ .unread hm
    · obtain ⟨D₀, hD₀, hv⟩ := Option.bind_eq_some_iff.1 hfield
      exact (hd D₀ hD₀).1 k v hv
  | whole hdata =>
    obtain rfl := Option.some.inj hD
    exact ⟨hdata, fun hne => absurd rfl hne⟩
  | cleared => cases hD
  | deleteField k =>
    obtain ⟨D₀, hD₀, rfl⟩ := Option.map_eq_some_iff.1 hD
    refine ⟨fun k' v hv => (hd D₀ hD₀).1 k' v ?_, fun hne => absurd rfl hne⟩
    rw [Std.ExtTreeMap.getElem?_erase] at hv
    split_ifs at hv
    exact hv

/-- What a process holds of unread messages are those of accounts that it has listened for. -/
structure Holds (w : App) (p : String) (d : Device) : Prop where
  rows : d.Sourced (fun _ _ => True) fun _ => True
  blocks : Process.BlocksOf (w.Sent p) d
  friends : ∀ (k : String) l, d.globals.bufferChat[k]? = some l →
    ∃ v ∈ d.bufferListeners, w.Entry v "Buffer" k (.ofStrings l)
  groups : ∀ g ∈ d.globals.bufferGroupChat,
    g ≠ "Buffer" ∧ ∃ v ∈ d.bufferListeners, w.Noticed g v

theorem holds_start (p : String) : Holds start p {} where
  rows := Device.sourced_start
  blocks _ h := (List.not_mem_nil h).elim
  friends k l h := by simp at h
  groups g h := by simp at h

theorem Holds.mono (hG : Grows w w') {p : String} {d : Device} (h : w.Holds p d) :
    w'.Holds p d where
  rows := h.rows
  blocks := h.blocks.mono fun _ hm => hm.mono hG
  friends k l hl := (h.friends k l hl).imp fun _ h => ⟨h.1, h.2.mono hG⟩
  groups g hg := (h.groups g hg).imp_right fun h => h.imp fun _ h => ⟨h.1, h.2.mono hG⟩

/-- An event of a process keeps this, if its snapshots show entries, and what it sends has been
sent. -/
theorem Holds.step {p : String} {q : Process} {pe : Process.Event} {ws : List AppWrite}
    (hH : w'.Holds p (w.process p).device) (h : Process.Effect (w.process p) pe q ws)
    (hsent : ∀ e m, pe = .chat e → (w.process p).Sends e m → ws = m.writes.map .write →
      w'.Sent p m)
    (hfriends : ∀ uid D, pe = .chat (.bufferSnapshot uid (some D)) → ∀ (k : String) v,
      D[k]? = some v → w'.Entry uid "Buffer" k v)
    (hgroups : ∀ uid documents, pe = .chatBufferSnapshot uid documents → ∀ d ∈ documents,
      d.1 ≠ "Buffer" → w'.Noticed d.1 uid) : w'.Holds p q.device := by
  have hgroups' : ∀ g ∈ q.device.globals.bufferGroupChat,
      g ≠ "Buffer" ∧ ∃ v ∈ q.device.bufferListeners, w'.Noticed g v := by
    intro g hg
    rcases h.groupCounter hg with hg | ⟨uid, documents, doc, rfl, huid, hdoc, hne⟩
    · exact (hH.groups g hg).imp_right fun hv => hv.imp fun _ hv => ⟨h.listens hv.1, hv.2⟩
    · exact ⟨hne, uid, h.listens huid, hgroups uid documents rfl _ hdoc hne⟩
  have hold : ∀ {k : String} {l : List String},
      (w.process p).device.globals.bufferChat[k]? = some l →
      ∃ v ∈ q.device.bufferListeners, w'.Entry v "Buffer" k (.ofStrings l) := fun hl =>
    (hH.friends _ _ hl).imp fun _ hv => ⟨h.listens hv.1, hv.2⟩
  by_cases hchat : ∃ e, pe = .chat e
  · obtain ⟨e, rfl⟩ := hchat
    cases h with
    | chat _ hd =>
      refine ⟨hH.rows.step hd (fun _ _ _ _ _ => trivial) fun _ _ _ _ _ _ _ _ _ _ _ _ _ => trivial,
        hH.blocks.step hH.rows.settled (fun m hm hws => ?_) hd, fun k l hl => ?_, hgroups'⟩
      · exact hsent e m rfl hm (hws ▸ rfl)
      · by_cases htouch : e.TouchesBuffer
        · cases e with
          | openChat id isGroupChat =>
            obtain ⟨user, kept, -, hkept, rfl, -⟩ := Device.step_openChat hd
            exact hold (((ChatViewController.cleanBufferChat_eq_some hkept).2 k l).1 hl).1
          | bufferSnapshot uid doc =>
            have huid := Device.listens_of_bufferSnapshot hd
            obtain ⟨D, b, rfl, hb, rfl, -⟩ := Device.step_bufferSnapshot hd
            have hl : b[k]? = some l := hl
            refine ⟨uid, huid, hfriends uid D rfl k _ ?_⟩
            rw [Doc.dict?_eq_some hb k, hl]
            rfl
          | _ => exact htouch.elim
        · exact hold (Device.step_bufferChat_eq htouch hd ▸ hl)
  · have hsame := h.chats fun e he => hchat ⟨e, he⟩
    refine ⟨hH.rows.congr hsame.instances hsame.cacheMessage, fun ib hib => ?_,
      fun k l hl => hold (hsame.bufferChat ▸ hl), hgroups'⟩
    simp only [Device.HasChat, hsame.instances]
    exact hH.blocks ib (hsame.blocks ▸ hib)

/-- What an event writes to a `ChatBuffer` are notes, if what it sends has been sent. -/
theorem Holds.notes {p : String} {q : Process} {pe : Process.Event} {ws : List AppWrite}
    (hH : w'.Holds p (w.process p).device) (h : Process.Effect (w.process p) pe q ws)
    (hsent : ∀ e m, pe = .chat e → (w.process p).Sends e m → ws = m.writes.map .write →
      w'.Sent p m)
    (hlistens : ∀ v ∈ (w.process p).device.bufferListeners,
      v ∈ (w'.process p).device.bufferListeners)
    {x : AppWrite} (hx : x ∈ ws) (hhad : ∀ user, q.device.currentUser = some user →
      w'.HasHad p user.uid) {id doc : String} (hpath : DocWrite.path x = .chatBuffer id doc) :
    w'.Notes id doc x := by
  have hwrote := h.wrote hx
  rw [hpath] at hwrote
  cases hwrote with
  | signedUp =>
    cases h
    simp only [MessageApp.signupClick, List.mem_cons, List.not_mem_nil, or_false] at hx
    rcases hx with rfl | rfl | rfl
    · refine .whole fun k v hv => ?_
      obtain ⟨rfl, rfl⟩ : "userID" = k ∧ Value.string id = v := by
        simpa [Std.ExtTreeMap.ofList_singleton, Std.ExtTreeMap.getElem?_insert] using hv
      exact .userID
    · exact .deleteField _
    · cases hpath
  | chat wr hof =>
    cases h with
    | chat _ hd =>
      obtain ⟨wr', hwr, heq⟩ := List.mem_map.1 hx
      obtain rfl := AppWrite.write.inj heq
      have hidle := hH.rows.idle
      cases Process.notes_of_step hH.blocks hidle (fun m hm hws => hsent _ m rfl hm (hws ▸ rfl)) hd
        hwr hpath with
      | @opened chat user kept hu huid hkept =>
        refine .whole fun k v hv => ?_
        rw [Doc.getElem?_ofDict] at hv
        obtain ⟨l, hl, rfl⟩ := Option.map_eq_some_iff.1 hv
        have hl := ((ChatViewController.cleanBufferChat_eq_some hkept).2 k l).1 hl
        obtain ⟨v, hv, hentry⟩ := hH.friends k l hl.1
        have hu := ((Process.chatWrites_of_step hidle hd).currentUser_eq hwr).trans hu
        exact hentry.carried ⟨p, huid ▸ hhad user hu, hlistens v hv⟩
      | cleared => exact .cleared _
      | friend hm hg hchat => exact .merge (.sent hm (.friend hg hchat))
      | notice hm hg hne => exact .merge (.sent hm (.group hg hne))

theorem docs_of_bufferSnapshot {e : Event} {p uid : String} {doc : Option Doc}
    (h : Delivers init w e p (.chat (.bufferSnapshot uid doc))) :
    ∃ n k, docs (w.seen init (w.account p) n k) (.buffer uid) = doc := by
  obtain ⟨query, n, k, hshows⟩ := h.exists_shows rfl
  generalize hpe : Process.Event.chat (.bufferSnapshot uid doc) = pe at hshows
  cases hshows with
  | buffer =>
    obtain ⟨rfl, rfl⟩ := Device.Event.bufferSnapshot.inj (Process.Event.chat.inj hpe)
    exact ⟨n, k, rfl⟩
  | _ => cases hpe

theorem docs_of_chatBufferSnapshot {e : Event} {p uid : String} {documents : List (String × Doc)}
    (h : Delivers init w e p (.chatBufferSnapshot uid documents)) {d : String × Doc}
    (hd : d ∈ documents) :
    ∃ n k, docs (w.seen init (w.account p) n k) (.chatBuffer uid d.1) = some d.2 := by
  obtain ⟨query, n, k, hshows⟩ := h.exists_shows rfl
  generalize hpe : Process.Event.chatBufferSnapshot uid documents = pe at hshows
  cases hshows with
  | chatBuffer =>
    obtain ⟨rfl, rfl⟩ := Process.Event.chatBufferSnapshot.inj hpe
    exact ⟨n, k, mem_collection hd⟩
  | _ => cases hpe

/-- What processes hold of unread messages has been sent, and so has what they write of them. -/
structure Carried (w : App) : Prop where
  holds : ∀ p, w.Holds p (w.process p).device
  issued : ∀ c, ∀ x ∈ w.net.issued c, ∀ id doc, DocWrite.path x = .chatBuffer id doc →
    w.Notes id doc x

theorem carried_start : start.Carried where
  holds := holds_start
  issued _ _ hx := (List.not_mem_nil hx).elim

theorem Carried.entry_of_docs (hinit : ∀ x ∈ init, ∀ id doc, DocWrite.path x ≠ .chatBuffer id doc)
    (hC : w.Carried) {c : String × Option String} {n k : ℕ} {id doc : String} {D : Doc}
    (hD : docs (w.seen init c n k) (.chatBuffer id doc) = some D) :
    (∀ (k : String) v, D[k]? = some v → w.Entry id doc k v) ∧
      (doc ≠ "Buffer" → w.Noticed doc id) := by
  refine App.entry_of_docs (fun x hx hp => ?_) hD
  rcases mem_seen hx with hx | ⟨c', hx⟩
  · exact absurd hp (hinit x hx id doc)
  · exact ⟨hC.issued c' x hx id doc hp, c', hx⟩

theorem Carried.step (hinit : ∀ x ∈ init, ∀ id doc, DocWrite.path x ≠ .chatBuffer id doc)
    (hC : w.Carried) {e : Event} (h : w.step init e = some w') : w'.Carried := by
  have hG := grows_of_step h
  have hold : ∀ c, ∀ x ∈ w.net.issued c, ∀ id doc, DocWrite.path x = .chatBuffer id doc →
      w'.Notes id doc x := fun c x hx id doc hp => (hC.issued c x hx id doc hp).mono hG
  have hholds : ∀ p, w'.Holds p (w.process p).device := fun p => (hC.holds p).mono hG
  rcases step_cases h with ⟨c, net, -, hnet, rfl⟩ | ⟨p, pe, q, ws, hpe, heff, rfl⟩
  · exact ⟨hholds, fun c' x hx => hold c' x (WriteQueue.issued_land hnet c' ▸ hx)⟩
  · have hsent : ∀ e m, pe = .chat e → (w.process p).Sends e m → ws = m.writes.map .write →
        (w.acted p pe q ws).Sent p m := by
      rintro e m rfl hm hws
      exact sent_of_sends heff (hC.holds p).rows.idle hm hws
    refine ⟨fun p' => ?_, fun c x hx id doc hp => ?_⟩
    · by_cases hp : p' = p
      · subst hp
        have hq : ((w.acted p' pe q ws).process p').device = q.device := by simp [acted]
        rw [hq]
        refine (hholds p').step heff hsent ?_ ?_
        · rintro uid D rfl k v hv
          obtain ⟨n, m, hD⟩ := docs_of_bufferSnapshot hpe
          exact ((hC.entry_of_docs hinit hD).1 k v hv).mono hG
        · rintro uid documents rfl d hd hne
          obtain ⟨n, m, hD⟩ := docs_of_chatBufferSnapshot hpe hd
          exact ((hC.entry_of_docs hinit hD).2 hne).mono hG
      · simpa [acted, Function.update_of_ne hp] using hholds p'
    · rcases WriteQueue.mem_issued_issue.1 hx with hx | ⟨-, hnew⟩
      · exact hold c x hx id doc hp
      · refine (hholds p).notes heff hsent (hG.listens p) hnew (fun user hu => ⟨x, ?_⟩) hp
        refine WriteQueue.mem_issued_issue.2 (.inr ⟨?_, hnew⟩)
        rw [hu]
        rfl

theorem carried_of_run (hinit : ∀ x ∈ init, ∀ id doc, DocWrite.path x ≠ .chatBuffer id doc)
    {es : List Event} (h : EventRun.run (step init) start es = some w) : w.Carried :=
  EventRun.run_invariant (step init) (fun _ _ _ hC hs => hC.step hinit hs) carried_start h

/-- The badge of an id can be counted, and counts no more than the messages from there. -/
theorem Holds.badge {p : String} {d : Device} (hH : w.Holds p d) (id : String) :
    ∃ n, RecentViewController.badgeCounter d.globals id = some n ∧
      n ≤ (w.encoded.filterMap (Encoded.timeFrom id)).length +
        if id ∈ d.globals.bufferGroupChat then 1 else 0 := by
  have hsent : ∀ (k : String) l, d.globals.bufferChat[k]? = some l →
      ∃ text sender audio, l = [text, sender, audio] ∧
        .message sender text audio k ∈ w.encoded := by
    intro k l hl
    obtain ⟨v, -, hentry⟩ := hH.friends k l hl
    obtain ⟨m, hm, rfl, rfl⟩ := hentry.exists_unread
    obtain ⟨q, hsent⟩ := hm.exists_sent
    obtain ⟨text, audio, hrecord, hencoded⟩ := hsent.encoded
    exact ⟨text, m.sender, audio, hrecord, hencoded⟩
  have hsenders : ∀ e ∈ d.globals.bufferChat.toList, 2 ≤ e.2.length := by
    rintro ⟨k, l⟩ he
    obtain ⟨text, sender, audio, rfl, -⟩ :=
      hsent k l (Std.ExtTreeMap.mem_toList_iff_getElem?_eq_some.1 he)
    simp
  rw [RecentViewController.badgeCounter_eq, if_pos hsenders]
  refine ⟨_, rfl, Nat.add_le_add_right (Dict.countP_le fun k l hl hid => ?_) _⟩
  obtain ⟨text, sender, audio, rfl, hencoded⟩ := hsent k l hl
  obtain rfl : sender = id := by simpa using hid
  exact List.mem_filterMap.2 ⟨_, hencoded, by simp [Encoded.timeFrom]⟩

end App

namespace Contacts

variable {init : List AppWrite} {s t : Contacts}

/-- What is written to a document of a group is for a member. -/
def NoticesMembers (s : Contacts) : Prop :=
  ∀ c id g data, .write (.setData (.chatBuffer id g) data true) ∈ s.app.net.issued c →
    g ≠ "Buffer" → s.Member g id

/-- The blocks of groups write to the members that their chats have fetched. -/
theorem NoticesMembers.of_step (hF : s.Fetched) (hC : s.app.Carried) (hN : s.NoticesMembers)
    {e : App.Event} (h : s.app.step init e = some t.app) (hstarted : s.started ⊆ t.started) :
    t.NoticesMembers := by
  have hG := App.grows_of_step h
  intro c id g data hx hne
  rcases App.step_cases h with ⟨c', net, -, hnet, heq⟩ | ⟨p, pe, q, ws, -, heff, heq⟩
  · rw [heq, WriteQueue.issued_land hnet] at hx
    exact (hN c id g data hx hne).mono hG hstarted
  · rw [heq] at hx
    rcases WriteQueue.mem_issued_issue.1 hx with hold | ⟨-, hnew⟩
    · exact (hN c id g data hold hne).mono hG hstarted
    · have hwrote := heff.wrote hnew
      rw [AppWrite.path_write, Write.path_setData] at hwrote
      generalize hpath : DocPath.chatBuffer id g = path at hwrote
      cases hwrote with
      | chat =>
        cases heff with
        | chat _ hd =>
          obtain ⟨wr, hwr, hwrite⟩ := List.mem_map.1 hnew
          obtain rfl := AppWrite.write.inj hwrite
          have hnotes := Process.notes_of_step ((hC.holds p).blocks.mono fun _ _ => trivial)
            (hC.holds p).rows.idle (R := fun _ => True) (fun _ _ _ => trivial) hd hwr rfl
          cases hnotes with
          | friend => exact absurd rfl hne
          | notice _ _ _ hself hchat hid =>
            exact (hchat ▸ hF p _ hself _ hid).mono hG hstarted
      | signedUp => exact absurd (DocPath.chatBuffer.inj hpath).2 hne
      | _ => cases hpath

theorem NoticesMembers.step (hF : s.Fetched) (hC : s.app.Carried) (hN : s.NoticesMembers)
    {e : Event} (h : s.step init e = some t) : t.NoticesMembers := by
  obtain ⟨app, p, v, started, hturns, rfl⟩ := turns_of_step h
  have hsub : s.started ⊆ s.started ++ started := List.subset_append_left _ _
  cases hturns with
  | app _ _ happ | chatWillAppear _ happ | startGroupChatNow _ _ happ | groupAdded _ happ =>
    exact hN.of_step hF hC happ hsub
  | _ =>
    refine fun c id g data hx hne => (hN c id g data hx hne).mono ?_ ?_
    · exact .refl _
    · exact hsub

theorem noticesMembers_of_run
    (hfriends : ∀ x ∈ init, ∀ uid id, DocWrite.path x ≠ .friends uid id)
    (hgroups : ∀ x ∈ init, ∀ g, DocWrite.path x ≠ .group g)
    (hunread : ∀ x ∈ init, ∀ id doc, DocWrite.path x ≠ .chatBuffer id doc) {es : List Event}
    (h : EventRun.run (step init) start es = some s) : s.NoticesMembers := by
  suffices hI : s.Fetched ∧ s.NoticesMembers from hI.2
  refine EventRun.run_history (I := fun _ s => s.Fetched ∧ s.NoticesMembers) (step init)
    ⟨fetched_start, fun _ _ _ _ hx => (List.not_mem_nil hx).elim⟩ ?_ h
  rintro es m e t hm ⟨hF, hN⟩ hs
  obtain ⟨es', hes'⟩ := app_reaches hm
  exact ⟨hF.step hgroups (grouped_of_run hfriends hm) hs,
    hN.step hF (App.carried_of_run hunread hes') hs⟩

/-- From a store without friends, groups and unread messages: every field in a document of a
`ChatBuffer`, in any version of it, is the mark of a sign-up or a message that has been sent for
there, or for the `Buffer` of an account along whose processes it has been carried; and a group's
document is a member's. At every process each badge can be counted. It counts no more than the
messages that have been sent from the id, and one for a group if the group counter has the id as a
key; then another's message to that group has been sent for a member that the process has listened
for. -/
theorem unread_of_contacts (hfriends : ∀ x ∈ init, ∀ uid id, DocWrite.path x ≠ .friends uid id)
    (hgroups : ∀ x ∈ init, ∀ g, DocWrite.path x ≠ .group g)
    (hunread : ∀ x ∈ init, ∀ id doc, DocWrite.path x ≠ .chatBuffer id doc) {es : List Event}
    (h : EventRun.run (step init) start es = some s) :
    (∀ (c : String × Option String) (n k : ℕ) (id doc : String) D,
      docs (s.app.seen init c n k) (.chatBuffer id doc) = some D →
      (∀ (t : String) v, D[t]? = some v → s.app.Entry id doc t v) ∧
        (doc ≠ "Buffer" → s.Member doc id)) ∧
    ∀ p id : String,
      (∃ n, RecentViewController.badgeCounter (s.app.process p).device.globals id = some n ∧
        n ≤ (s.app.encoded.filterMap (Encoded.timeFrom id)).length +
          if id ∈ (s.app.process p).device.globals.bufferGroupChat then 1 else 0) ∧
      (id ∈ (s.app.process p).device.globals.bufferGroupChat →
        ∃ v ∈ (s.app.process p).device.bufferListeners, s.Member id v ∧
          ∃ q m, s.app.Sent q m ∧ m.isGroup = true ∧ m.chat = id ∧ m.sender ≠ v) := by
  obtain ⟨es', hes'⟩ := app_reaches h
  have hC := App.carried_of_run hunread hes'
  have hmember : ∀ {g id}, g ≠ "Buffer" → s.app.Noticed g id → s.Member g id := by
    rintro g id hne ⟨m, -, c, hx⟩
    exact noticesMembers_of_run hfriends hgroups hunread h c id g _ hx hne
  refine ⟨fun c n k id doc D hD => ?_, fun p id => ⟨(hC.holds p).badge id, fun hid => ?_⟩⟩
  · obtain ⟨hentry, hnoticed⟩ := hC.entry_of_docs hunread hD
    exact ⟨hentry, fun hne => hmember hne (hnoticed hne)⟩
  · obtain ⟨hne, v, hv, hnoticed⟩ := (hC.holds p).groups id hid
    have hmem := hmember hne hnoticed
    obtain ⟨m, hm, -⟩ := hnoticed
    obtain ⟨⟨q, hsent⟩, hg, hchat, hsender⟩ := hm.of_ne_buffer hne
    exact ⟨v, hv, hmem, q, m, hsent, hg, hchat, hsender⟩

/-- The message to the group reaches `b`, who has an unread message of it then. -/
def noticing : List Event :=
  writingToGroup ++ [.app (.deliver "p" (.roomMember 0) 9 0),
    .app (.on "p" (.chat (.runBlock 0)))] ++ List.replicate 5 (.app (.land ("p", some "a"))) ++
    [.app (.on "q" (.chat (.signIn ⟨"b", some "b@x", some "b"⟩))),
      .app (.deliver "q" (.chatBuffer "b") 12 0)]

theorem unread_of_contacts_noticing : ∃ s,
    EventRun.run (step App.requested) start noticing = some s ∧
    (∃ n, RecentViewController.badgeCounter (s.app.process "q").device.globals "g" = some n) ∧
    ∃ v ∈ (s.app.process "q").device.bufferListeners, s.Member "g" v ∧
      ∃ q m, s.app.Sent q m ∧ m.isGroup = true ∧ m.chat = "g" ∧ m.sender ≠ v := by
  obtain ⟨s, hs⟩ := Option.isSome_iff_exists.1
    (by decide +kernel : (EventRun.run (step App.requested) start noticing).isSome)
  have hkey : ∀ s ∈ EventRun.run (step App.requested) start noticing,
      "g" ∈ (s.app.process "q").device.globals.bufferGroupChat := by decide +kernel
  obtain ⟨⟨n, hn, -⟩, hgroup⟩ := (unread_of_contacts (by simp [App.requested])
    (by simp [App.requested]) (by simp [App.requested]) hs).2 "q" "g"
  exact ⟨s, hs, ⟨n, hn⟩, hgroup (hkey s hs)⟩

end Contacts

end MessageApp
