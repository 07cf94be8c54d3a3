import MessageApp.Proofs.Reach
import MessageApp.Proofs.Sends
import MessageApp.Proofs.Shown

/-!
# Whose messages a process shows

What a process has cached outlives the accounts it has had. A chat holds what was written to the
document it listens to, and so does the cache (`Device.Sourced`); and what is written to a
conversation is a message of the account that writes it, to one of the two parties or to the group
(`Process.Effect.sent`). So whatever a process has cached was sent by an account it has had, was
sent to one, or was sent to a group that one of its chats listens to; and a group is listened to
only where a member has been listened for (`Contacts.rows_of_contacts`).
-/

namespace MessageApp

/-- The document is a copy of a conversation, or a group's. -/
def DocPath.IsConversation : DocPath → Prop
  | .conversation _ _ | .groupConversation _ => True
  | _ => False

namespace Process

/-- The account that is signed in sends the message in the event. -/
structure Sends (p : Process) (e : Device.Event) (m : Message) : Prop where
  user : p.device.currentUser.map User.uid = some m.sender
  encoded : ∃ text audio, m.record = [text, m.sender, audio] ∧
    .message m.sender text audio m.t ∈ p.encodes (.chat e)

variable {p q : Process}

/-- What a chat sends is one message, if none is half sent. -/
theorem sends_of_send {self : ChatViewController} (hself : self.Idle) {user : User}
    (hu : p.device.currentUser = some user) {e : Device.Event} {text audio t : String}
    (he : .message user.uid text audio t ∈ p.encodes (.chat e)) :
    ∃ m, p.Sends e m ∧ m.chat = self.chatWithId ∧ self.send text user.uid audio t =
      (self, m.writes, if m.isGroup then some ⟨m.doc, m.sender⟩ else none) :=
  ⟨⟨user.uid, self.chatWithId, self.chatisGroupChat, t, [text, user.uid, audio]⟩,
    ⟨by rw [hu]; rfl, text, audio, rfl, he⟩, rfl,
    ChatViewController.send_of_idle hself.1 hself.2 text user.uid audio t _ rfl⟩

/-- Only the queue of the blocks keeps anything of a message that is sent. -/
theorem afterSend_of_idle {d : Device} {i : ℕ} {self : ChatViewController}
    (hi : d.instances[i]? = some self) (m : Message) :
    d.afterSend i (self, m.writes, if m.isGroup then some ⟨m.doc, m.sender⟩ else none) =
      ({ d with blocks := d.blocks ++ m.queued i }, m.writes) := by
  obtain ⟨hlt, rfl⟩ := List.getElem?_eq_some_iff.1 hi
  unfold Device.afterSend Message.queued
  simp only [List.set_getElem_self]
  split_ifs <;> rfl

/-- A send sends a message, or it is the empty text. -/
theorem step_of_isSend (hidle : ∀ self ∈ p.device.instances, self.Idle) {e : Device.Event}
    (he : e.isSend = true) {d : Device} {ws : List Write} (h : p.device.step e = some (d, ws)) :
    d = p.device ∧ ws = [] ∨ ∃ i m, p.Sends e m ∧ p.device.HasChat i m.chat ∧
      d = { p.device with blocks := p.device.blocks ++ m.queued i } ∧ ws = m.writes := by
  cases e with
  | finishEditing i text t =>
    obtain ⟨self, r, hi, hr, hd⟩ := Device.step_finishEditing h
    unfold ChatViewController.finishEditing at hr
    split_ifs at hr with htext
    · obtain ⟨user, hu, rfl⟩ := Option.map_eq_some_iff.1 hr
      obtain ⟨m, hm, hchat, hsend⟩ := sends_of_send (hidle self (List.mem_of_getElem? hi)) hu
        (mem_encodes_iff.2 (.text htext hu))
      rw [hsend, afterSend_of_idle hi] at hd
      obtain ⟨rfl, rfl⟩ := Prod.mk.inj hd
      exact .inr ⟨i, m, hm, ⟨self, hi, hchat.symm⟩, rfl, rfl⟩
    · obtain rfl := Option.some.inj hr
      obtain ⟨rfl, rfl⟩ := Prod.mk.inj hd
      obtain ⟨hlt, rfl⟩ := List.getElem?_eq_some_iff.1 hi
      exact .inl (by simp)
  | voiceCompletion i url t =>
    obtain ⟨self, r, hi, hr, hd⟩ := Device.step_voiceCompletion h
    obtain ⟨user, hu, rfl⟩ := Option.map_eq_some_iff.1 hr
    obtain ⟨m, hm, hchat, hsend⟩ := sends_of_send (hidle self (List.mem_of_getElem? hi)) hu
      (mem_encodes_iff.2 (.voice hu))
    rw [hsend, afterSend_of_idle hi] at hd
    obtain ⟨rfl, rfl⟩ := Prod.mk.inj hd
    exact .inr ⟨i, m, hm, ⟨self, hi, hchat.symm⟩, rfl, rfl⟩
  | _ => cases he

/-- What an event of the chats writes. -/
inductive ChatWrites (p : Process) (e : Device.Event) (d : Device) : List Write → Prop
  | nothing : ChatWrites p e d []
  | opened {id : String} {isGroupChat : Bool} {user : User} {kept : Dict (List String)} :
    e = .openChat id isGroupChat → p.device.currentUser = some user →
    d.currentUser = p.device.currentUser →
    ChatViewController.cleanBufferChat id p.device.globals.bufferChat = some kept →
    ChatWrites p e d [.setData (.buffer user.uid) (.ofDict kept) false,
      .delete (.chatBuffer user.uid id)]
  | sent {m : Message} : p.Sends e m → d.currentUser = p.device.currentUser →
    ChatWrites p e d m.writes
  | ran {i : ℕ} {b : Block} {self : ChatViewController} : (i, b) ∈ p.device.blocks →
    p.device.instances[i]? = some self → d.currentUser = p.device.currentUser →
    ChatWrites p e d (b.run self)

theorem chatWrites_of_step (hidle : ∀ self ∈ p.device.instances, self.Idle) {e : Device.Event}
    {d : Device} {ws : List Write} (h : p.device.step e = some (d, ws)) : ChatWrites p e d ws := by
  by_cases he : e.isSend = true
  · rcases step_of_isSend hidle he h with ⟨-, rfl⟩ | ⟨i, m, hm, -, rfl, rfl⟩
    · exact .nothing
    · exact .sent hm rfl
  · cases e with
    | finishEditing | voiceCompletion => exact absurd rfl he
    | signIn user | signoutClick | signout =>
      obtain ⟨-, rfl⟩ := Prod.mk.inj (Option.some.inj h)
      exact .nothing
    | bufferSnapshot uid doc =>
      obtain ⟨data, b, -, -, -, rfl⟩ := Device.step_bufferSnapshot h
      exact .nothing
    | openChat id g =>
      obtain ⟨user, kept, hu, hkept, rfl, rfl⟩ := Device.step_openChat h
      exact .opened rfl hu rfl hkept
    | conversationSnapshot i doc =>
      obtain ⟨self, path, s, -, -, -, -, rfl⟩ := Device.step_conversationSnapshot h
      exact .nothing
    | roomMemberFetched i doc =>
      obtain ⟨self, self', -, -, -, -, rfl⟩ := Device.step_roomMemberFetched h
      exact .nothing
    | runBlock j =>
      obtain ⟨i, b, self, hj, hi, rfl, rfl⟩ := Device.step_runBlock h
      exact .ran (List.mem_of_getElem? hj) hi rfl

theorem ChatWrites.currentUser_eq {e : Device.Event} {d : Device} {ws : List Write}
    (h : ChatWrites p e d ws) {x : Write} (hx : x ∈ ws) :
    d.currentUser = p.device.currentUser := by
  cases h with
  | nothing => cases hx
  | opened _ _ hu | sent _ hu | ran _ _ hu => exact hu

theorem ChatWrites.sends {e : Device.Event} {d : Device} {ws : List Write}
    (h : ChatWrites p e d ws) {x : Write} (hx : x ∈ ws) (hpath : (DocWrite.path x).IsConversation) :
    ∃ m, p.Sends e m ∧ ws = m.writes := by
  cases h with
  | nothing => cases hx
  | opened => rcases List.mem_pair.1 hx with rfl | rfl <;> exact hpath.elim
  | sent hm _ => exact ⟨_, hm, rfl⟩
  | ran =>
    obtain ⟨id, -, rfl⟩ := List.mem_map.1 hx
    exact hpath.elim

theorem Wrote.of_chat {pe : Event} {path : DocPath} {x : AppWrite} (h : p.Wrote pe path x)
    (hpath : path.IsConversation) : ∃ e, pe = .chat e := by
  cases h with
  | chat => exact ⟨_, rfl⟩
  | _ => exact hpath.elim

/-- Only the chats write to conversations, each time one message of the account. -/
theorem Effect.sent {pe : Event} {ws : List AppWrite} (h : Effect p pe q ws)
    (hidle : ∀ self ∈ p.device.instances, self.Idle) {x : AppWrite} (hx : x ∈ ws)
    (hpath : (DocWrite.path x).IsConversation) :
    ∃ e m, pe = .chat e ∧ p.Sends e m ∧ ws = m.writes.map .write := by
  obtain ⟨e, rfl⟩ := (h.wrote hx).of_chat hpath
  cases h with
  | chat _ hd =>
    obtain ⟨w, hw, rfl⟩ := List.mem_map.1 hx
    obtain ⟨m, hm, rfl⟩ := (chatWrites_of_step hidle hd).sends hw hpath
    exact ⟨e, m, rfl, hm, rfl⟩

/-- What the chats of both processes are, and what they have queued, held and cached. -/
structure SameChats (p q : Process) : Prop where
  instances : q.device.instances = p.device.instances
  blocks : q.device.blocks = p.device.blocks
  bufferChat : q.device.globals.bufferChat = p.device.globals.bufferChat
  cacheMessage : q.device.globals.cacheMessage = p.device.globals.cacheMessage

/-- The other events leave the chats. -/
theorem Effect.chats {pe : Event} {ws : List AppWrite} (h : Effect p pe q ws)
    (hpe : ∀ e, pe ≠ .chat e) : SameChats p q := by
  cases h with
  | chat => exact absurd rfl (hpe _)
  | friendsSnapshot _ hl =>
    obtain rfl := friendsListener_globals hl
    exact ⟨rfl, rfl, rfl, rfl⟩
  | _ => exact ⟨rfl, rfl, rfl, rfl⟩

end Process

namespace Device

open ChatViewController Keyed

/-- What a chat may listen to, where the accounts are those that `own` says. -/
inductive ListensTo (own : String → Prop) (self : ChatViewController) : DocPath → Prop
  | alone {v : String} : own v → ListensTo own self (.conversation v self.chatWithId)
  | group : self.chatisGroupChat = true → ListensTo own self (.groupConversation self.chatWithId)

/-- The rows of a chat are of the document it listens to. -/
def RowsOf (R : DocPath → Row → Prop) (self : ChatViewController) : Prop :=
  ∃ rows, self.Holds rows ∧ ∀ r ∈ rows, ∃ path ∈ self.docRefc, R path r

/-- What is cached for a chat is of documents that its instances listen to. -/
def CachedOf (R : DocPath → Row → Prop) (d : Device) (c : String) (r : Row) : Prop :=
  ∃ self ∈ d.instances, self.chatWithId = c ∧ ∃ path ∈ self.docRefc, R path r

/-- The chats hold rows that `R` says are of the documents they listen to, and so does the cache. -/
structure Sourced (R : DocPath → Row → Prop) (own : String → Prop) (d : Device) : Prop where
  idle : ∀ self ∈ d.instances, self.Idle
  listens : ∀ self ∈ d.instances, ∀ path ∈ self.docRefc, ListensTo own self path
  rows : ∀ self ∈ d.instances, RowsOf R self
  cached : ∀ (c : String) columns, d.globals.cacheMessage[c]? = some columns →
    ∃ rows, columns = Row.columns rows ∧ ∀ r ∈ rows, CachedOf R d c r

variable {R R' : DocPath → Row → Prop} {own own' : String → Prop} {d d' : Device}
  {e : Device.Event} {ws : List Write}

theorem ListensTo.of_sameChat {a b : ChatViewController} {path : DocPath}
    (h : ListensTo own a path) (hab : SameChat a b) : ListensTo own b path := by
  cases h with
  | alone hv => exact hab.chatWithId ▸ .alone hv
  | group hg => exact hab.chatWithId ▸ .group (hab.chatisGroupChat.trans hg)

theorem listensTo_of_opened {self : ChatViewController} {uid : String} (huid : own uid)
    {path : DocPath}
    (h : openedDocRefc uid self.chatWithId self.chatisGroupChat = some path) :
    ListensTo own self path := by
  unfold openedDocRefc at h
  split_ifs at h with hne hg
  · exact Option.some.inj h ▸ .group hg
  · exact Option.some.inj h ▸ .alone huid

theorem sourced_start : Sourced R own {} where
  idle _ h := (List.not_mem_nil h).elim
  listens _ h := (List.not_mem_nil h).elim
  rows _ h := (List.not_mem_nil h).elim
  cached c columns h := by simp at h

theorem Sourced.settled (hS : Sourced R own d) : d.Settled := fun self hself =>
  ⟨(hS.rows self hself).imp fun _ h => h.1, hS.idle self hself⟩

theorem Sourced.mono (hS : Sourced R own d) (hR : ∀ path r, R path r → R' path r)
    (hown : ∀ v, own v → own' v) : Sourced R' own' d where
  idle := hS.idle
  listens self hself path hpath := by
    cases hS.listens self hself path hpath with
    | alone hv => exact .alone (hown _ hv)
    | group hg => exact .group hg
  rows self hself := (hS.rows self hself).imp fun _ h => ⟨h.1, fun r hr =>
    (h.2 r hr).imp fun _ h => ⟨h.1, hR _ r h.2⟩⟩
  cached c columns hc := (hS.cached c columns hc).imp fun _ h => ⟨h.1, fun r hr =>
    (h.2 r hr).imp fun _ h => ⟨h.1, h.2.1, h.2.2.imp fun _ h => ⟨h.1, hR _ r h.2⟩⟩⟩

theorem Sourced.congr (hS : Sourced R own d) (hi : d'.instances = d.instances)
    (hc : d'.globals.cacheMessage = d.globals.cacheMessage) : Sourced R own d' where
  idle := hi ▸ hS.idle
  listens := hi ▸ hS.listens
  rows := hi ▸ hS.rows
  cached c columns h := by
    rw [hc] at h
    simp only [CachedOf, hi]
    exact hS.cached c columns h

/-- A callback adds rows of the document that it gets. -/
theorem rows_of_listener {self : ChatViewController} {rows : List Row} (hrows : self.Holds rows)
    {P : Row → Prop} (hP : ∀ r ∈ rows, P r) {cacheMessage : Dict (List (List String))}
    {doc : Option Doc} (hdoc : ∀ D ∈ doc, ∀ x ∈ D.toList, ∀ r : Row, r.IsOf x → P r)
    {s : Dict (List (List String)) × ChatViewController}
    (h : self.conversationListener cacheMessage doc = some s) :
    ∃ rows', s.2.Holds rows' ∧ (∀ r ∈ rows', P r) ∧
      ∀ (c : String) columns, s.1[c]? = some columns → cacheMessage[c]? = some columns ∨
        c = self.chatWithId ∧ columns = Row.columns rows' := by
  cases doc with
  | none =>
    obtain rfl := Option.some.inj h
    exact ⟨rows, hrows, hP, fun c columns hc => .inl hc⟩
  | some D =>
    rcases conversationListener_cases hrows h with ⟨-, rfl⟩ | ⟨D₁, r, D₂, -, -, -, rfl, hfrom⟩
    · exact ⟨rows, hrows, hP, fun c columns hc => .inl hc⟩
    · refine ⟨_, holds_withRows self _, fun a ha => ?_, fun c columns hc => ?_⟩
      · rcases hfrom a ha with ha | ⟨x, hx, hof⟩
        · exact hP a ha
        · exact hdoc D rfl x hx a hof
      · rw [Std.ExtTreeMap.getElem?_insert] at hc
        split_ifs at hc with hcc
        · exact .inr ⟨(Std.LawfulEqCmp.eq_of_compare hcc).symm, (Option.some.inj hc).symm⟩
        · exact .inl hc

theorem CachedOf.step {c : String} {r : Row} (hr : CachedOf R d c r)
    (h : d.step e = some (d', ws)) : CachedOf R d' c r := by
  obtain ⟨a, ha, hc, hpath⟩ := hr
  obtain ⟨b, hb, hab⟩ := (opens_of_step h).keeps ha
  exact ⟨b, hb, hab.chatWithId.trans hc, hab.docRefc ▸ hpath⟩

/-- A callback brings rows of its document, to its chat and to what is cached for that. -/
theorem Sourced.conversationSnapshot (hS : Sourced R own d) {i : ℕ} {doc : Option Doc}
    (h : d.step (.conversationSnapshot i doc) = some (d', ws))
    (hdoc : ∀ self path, d.instances[i]? = some self → self.docRefc = some path →
      ∀ D ∈ doc, ∀ x ∈ D.toList, ∀ r : Row, r.IsOf x → R path r) :
    (∀ self ∈ d'.instances, RowsOf R self) ∧
      ∀ (c : String) columns, d'.globals.cacheMessage[c]? = some columns →
        ∃ rows, columns = Row.columns rows ∧ ∀ r ∈ rows, CachedOf R d' c r := by
  have hstep := h
  obtain ⟨self, path, s, hi, hpath, hl, rfl, -⟩ := step_conversationSnapshot h
  obtain ⟨rows, hrows, hfrom⟩ := hS.rows self (List.mem_of_getElem? hi)
  obtain ⟨hchat, hdocRefc, -⟩ := conversationListener_frame hrows hl
  have hof : ∀ r ∈ rows, R path r := by
    intro r hr
    obtain ⟨path', hpath', hR⟩ := hfrom r hr
    obtain rfl := Option.some.inj (hpath.symm.trans hpath')
    exact hR
  obtain ⟨rows', hholds, hnew, hcached⟩ := rows_of_listener hrows hof (hdoc self path hi hpath) hl
  have hself : s.2 ∈ d.instances.set i s.2 :=
    List.mem_set (List.getElem?_eq_some_iff.1 hi).1 _
  refine ⟨fun b hb => ?_, fun c columns hc => ?_⟩
  · rcases List.mem_or_eq_of_mem_set hb with hb | rfl
    · exact hS.rows b hb
    · exact ⟨rows', hholds, fun r hr => ⟨path, hdocRefc.trans hpath, hnew r hr⟩⟩
  · rcases hcached c columns hc with hc | ⟨rfl, rfl⟩
    · obtain ⟨old, rfl, hold⟩ := hS.cached c columns hc
      exact ⟨old, rfl, fun r hr => CachedOf.step (hold r hr) hstep⟩
    · exact ⟨rows', rfl, fun r hr =>
        ⟨s.2, hself, hchat, path, hdocRefc.trans hpath, hnew r hr⟩⟩

/-- An event keeps this, if a chat opens for one of the accounts, and a callback brings rows of its
document. -/
theorem Sourced.step (hS : Sourced R own d) (h : d.step e = some (d', ws))
    (hown : ∀ id isGroupChat user, e = .openChat id isGroupChat → d.currentUser = some user →
      own user.uid)
    (hdoc : ∀ i doc self path, e = .conversationSnapshot i doc → d.instances[i]? = some self →
      self.docRefc = some path → ∀ D ∈ doc, ∀ x ∈ D.toList, ∀ r : Row, r.IsOf x → R path r) :
    Sourced R own d' := by
  have hlistens : ∀ self ∈ d'.instances, ∀ path ∈ self.docRefc, ListensTo own self path := by
    intro self hself path hpath
    rcases (opens_of_step h).mem hself with ⟨a, ha, hab⟩ | ⟨user, he, hu, hopened⟩
    · exact (hS.listens a ha path (hab.docRefc ▸ hpath)).of_sameChat hab
    · exact listensTo_of_opened (hown _ _ user he hu) (hopened ▸ hpath)
  suffices hrows : (∀ self ∈ d'.instances, RowsOf R self) ∧
      ∀ (c : String) columns, d'.globals.cacheMessage[c]? = some columns →
        ∃ rows, columns = Row.columns rows ∧ ∀ r ∈ rows, CachedOf R d' c r from
    ⟨hS.settled.step h, hlistens, hrows.1, hrows.2⟩
  have hcached : ∀ {c : String} {columns : List (List String)},
      d.globals.cacheMessage[c]? = some columns →
      ∃ rows, columns = Row.columns rows ∧ ∀ r ∈ rows, CachedOf R d' c r := fun hc =>
    (hS.cached _ _ hc).imp fun _ hold => ⟨hold.1, fun r hr => CachedOf.step (hold.2 r hr) h⟩
  by_cases he : e.TouchesRows
  · cases e with
    | signout =>
      obtain ⟨rfl, -⟩ := Prod.mk.inj (Option.some.inj h)
      exact ⟨hS.rows, fun c columns hc => by simp at hc⟩
    | openChat id isGroupChat =>
      obtain ⟨user, kept, -, -, rfl, -⟩ := step_openChat h
      refine ⟨fun self hself => ?_, fun c columns hc => hcached hc⟩
      rcases List.mem_append.1 hself with hself | hself
      · exact hS.rows self hself
      · obtain rfl := List.mem_singleton.1 hself
        exact ⟨[], rfl, fun r hr => (List.not_mem_nil hr).elim⟩
    | conversationSnapshot i doc =>
      exact hS.conversationSnapshot h fun self path => hdoc i doc self path rfl
    | _ => exact he.elim
  · obtain ⟨hcache, hsame⟩ := step_sameRows he h
    refine ⟨fun b hb => ?_, fun c columns hc => hcached (hcache ▸ hc)⟩
    obtain ⟨j, hj, rfl⟩ := List.getElem_of_mem hb
    have hj' : j < d.instances.length := hsame.length_eq ▸ hj
    have hab := (List.forall₂_iff_get.1 hsame).2 j hj' hj
    obtain ⟨rows, hrows, hfrom⟩ := hS.rows _ (List.getElem_mem hj')
    exact ⟨rows, hab.holds.2 hrows, fun r hr => hab.docRefc ▸ hfrom r hr⟩

end Device

namespace App

variable {init : List AppWrite} {w w' : App}

/-- The account has sent the message from the process, as it was typed or said there. -/
structure Sent (w : App) (p : String) (m : Message) : Prop where
  issued : ∀ x ∈ m.writes, .write x ∈ w.net.issued (p, some m.sender)
  encoded : ∃ text audio, m.record = [text, m.sender, audio] ∧
    .message m.sender text audio m.t ∈ w.encoded

/-- The account has been signed in at the process, and has written from there. -/
def HasHad (w : App) (p v : String) : Prop := ∃ x, x ∈ w.net.issued (p, some v)

/-- The row shows a message that has been sent to the document. -/
def RowOf (w : App) (path : DocPath) (r : Row) : Prop :=
  ∃ q m, w.Sent q m ∧ m.row = r ∧ ∃ x ∈ m.writes, DocWrite.path x = path

theorem Sent.mono (hG : Grows w w') {p : String} {m : Message} (h : w.Sent p m) : w'.Sent p m where
  issued x hx := hG.issued _ _ (h.issued x hx)
  encoded := h.encoded.imp fun _ h => h.imp fun _ h => ⟨h.1, hG.encoded _ h.2⟩

theorem HasHad.mono (hG : Grows w w') {p v : String} (h : w.HasHad p v) : w'.HasHad p v :=
  h.imp fun _ h => hG.issued _ _ h

theorem RowOf.mono (hG : Grows w w') {path : DocPath} {r : Row} (h : w.RowOf path r) :
    w'.RowOf path r :=
  h.imp fun _ h => h.imp fun _ h => ⟨h.1.mono hG, h.2⟩

/-- What has been written to conversations are messages that have been sent. -/
def Messages (w : App) : Prop :=
  ∀ c, ∀ x ∈ w.net.issued c, (DocWrite.path x).IsConversation →
    ∃ q m, w.Sent q m ∧ ∃ wr ∈ m.writes, x = .write wr

section Seen

variable {c : String × Option String} {n k : ℕ} {path : DocPath}

theorem Messages.posts (hinit : ∀ x ∈ init, ¬ (DocWrite.path x).IsConversation) (hM : w.Messages)
    (hpath : path.IsConversation) : ∀ x ∈ w.seen init c n k, DocWrite.path x = path →
    ∃ q m, w.Sent q m ∧ ∃ wr ∈ m.writes, DocWrite.path wr = path ∧ x = .write wr := by
  intro x hx hp
  rcases mem_seen hx with hx | ⟨c', hx⟩
  · exact absurd (hp ▸ hpath) (hinit x hx)
  · obtain ⟨q, m, hm, wr, hwr, rfl⟩ := hM c' x hx (hp ▸ hpath)
    exact ⟨q, m, hm, wr, hwr, hp, rfl⟩

theorem Messages.field_act (hinit : ∀ x ∈ init, ¬ (DocWrite.path x).IsConversation)
    (hM : w.Messages) (hpath : path.IsConversation) (t : String) :
    ∀ x ∈ w.seen init c n k, DocWrite.path x = path → ∀ d : Option Doc,
      field (DocWrite.act x d) t = (x.entry t).or (field d t) := by
  intro x hx hp d
  obtain ⟨q, m, -, wr, hwr, -, rfl⟩ := hM.posts hinit hpath x hx hp
  rw [Message.eq_of_mem_writes hwr]
  exact (m.posts_doc (DocWrite.path wr)).1.field_act d t

/-- In every version of a conversation, every field is a message that has been sent to it. -/
theorem Messages.sent_of_field (hinit : ∀ x ∈ init, ¬ (DocWrite.path x).IsConversation)
    (hM : w.Messages) (hpath : path.IsConversation) {t : String} {v : Value}
    (hv : field (docs (w.seen init c n k) path) t = some v) :
    ∃ q m, w.Sent q m ∧ (∃ wr ∈ m.writes, DocWrite.path wr = path) ∧ m.t = t ∧
      v = .ofStrings m.record := by
  rcases DocWrite.mem_of_read_replay (hM.field_act hinit hpath t) hv with ⟨x, hx, hp, he⟩ | hv
  · obtain ⟨q, m, hm, wr, hwr, hpwr, rfl⟩ := hM.posts hinit hpath x hx hp
    rw [Message.eq_of_mem_writes hwr] at he
    rw [AppWrite.entry, (m.posts_doc _).2] at he
    split_ifs at he with ht
    exact ⟨q, m, hm, ⟨wr, hwr, hpwr⟩, ht, (Option.some.inj he).symm⟩
  · cases hv

theorem Messages.rowOf_docs (hinit : ∀ x ∈ init, ¬ (DocWrite.path x).IsConversation)
    (hM : w.Messages) (hpath : path.IsConversation) {D : Doc}
    (hD : docs (w.seen init c n k) path = some D) {x : String × Value} (hx : x ∈ D.toList)
    {r : Row} (hr : r.IsOf x) : w.RowOf path r := by
  obtain ⟨t, v⟩ := x
  obtain ⟨q, m, hm, hwr, rfl, rfl⟩ := hM.sent_of_field hinit hpath (t := t) (v := v) (by
    rw [hD, field_some]
    exact Std.ExtTreeMap.mem_toList_iff_getElem?_eq_some.1 hx)
  exact ⟨q, m, hm, (World.row_of_isOf hr).symm, hwr⟩

end Seen

/-- A callback shows what has been seen. -/
theorem Delivers.exists_shows {e : Event} {p : String} {pe : Process.Event}
    (h : Delivers init w e p pe) (hlocal : pe.isLocal = false) :
    ∃ query n k, Query.Shows (w.seen init (w.account p) n k) (w.process p) query pe := by
  cases h with
  | on hpe =>
    rw [hpe] at hlocal
    cases hlocal
  | deliver hcall => exact ⟨_, _, _, Query.shows_of_callback hcall⟩

/-- A callback on a conversation shows a version of the document that the chat listens to. -/
theorem docs_of_conversationSnapshot {e : Event} {p : String} {i : ℕ} {doc : Option Doc}
    (h : Delivers init w e p (.chat (.conversationSnapshot i doc))) {self : ChatViewController}
    (hi : (w.process p).device.instances[i]? = some self) {path : DocPath}
    (hpath : self.docRefc = some path) :
    ∃ n k, docs (w.seen init (w.account p) n k) path = doc := by
  obtain ⟨query, n, k, hshows⟩ := h.exists_shows rfl
  generalize hpe : Process.Event.chat (.conversationSnapshot i doc) = pe at hshows
  cases hshows with
  | conversation hi' hpath' =>
    obtain ⟨rfl, rfl⟩ := Device.Event.conversationSnapshot.inj (Process.Event.chat.inj hpe)
    obtain rfl := Option.some.inj (hi.symm.trans hi')
    obtain rfl := Option.some.inj (hpath.symm.trans hpath')
    exact ⟨n, k, rfl⟩
  | _ => cases hpe

/-- What an event sends has been sent after it. -/
theorem sent_of_sends {p : String} {q : Process} {e : Device.Event} {m : Message}
    {ws : List AppWrite} (h : Process.Effect (w.process p) (.chat e) q ws)
    (hidle : ∀ self ∈ (w.process p).device.instances, self.Idle) (hm : (w.process p).Sends e m)
    (hws : ws = m.writes.map .write) : (w.acted p (.chat e) q ws).Sent p m where
  issued y hy := by
    have hmem : .write y ∈ ws := hws ▸ List.mem_map_of_mem hy
    refine WriteQueue.mem_issued_issue.2 (.inr ⟨?_, hmem⟩)
    cases h with
    | chat _ hd =>
      obtain ⟨y', hy', -⟩ := List.mem_map.1 hmem
      rw [← hm.user, (Process.chatWrites_of_step hidle hd).currentUser_eq hy']
  encoded := hm.encoded.imp fun _ h => h.imp fun _ h => ⟨h.1, List.mem_append_right _ h.2⟩

/-- All that is written to conversations has been sent, and the chats show nothing else. -/
structure Sources (w : App) : Prop where
  messages : w.Messages
  chats : ∀ p, (w.process p).device.Sourced w.RowOf (w.HasHad p)

theorem sources_start : start.Sources where
  messages _ _ hx := (List.not_mem_nil hx).elim
  chats _ := Device.sourced_start

theorem Sources.step (hinit : ∀ x ∈ init, ¬ (DocWrite.path x).IsConversation) (hS : w.Sources)
    {e : Event} (h : w.step init e = some w') : w'.Sources := by
  have hG := grows_of_step h
  have hold : ∀ c, ∀ x ∈ w.net.issued c, (DocWrite.path x).IsConversation →
      ∃ q m, w'.Sent q m ∧ ∃ wr ∈ m.writes, x = .write wr := fun c x hx hpath =>
    (hS.messages c x hx hpath).imp fun _ h => h.imp fun _ h => ⟨h.1.mono hG, h.2⟩
  have hchats : ∀ p, (w.process p).device.Sourced w'.RowOf (w'.HasHad p) := fun p =>
    (hS.chats p).mono (fun _ _ => RowOf.mono hG) fun _ => HasHad.mono hG
  rcases step_cases h with ⟨c, net, -, hnet, rfl⟩ | ⟨p, pe, q, ws, hpe, heff, rfl⟩
  · exact ⟨fun c' x hx => hold c' x (WriteQueue.issued_land hnet c' ▸ hx), hchats⟩
  · refine ⟨fun c x hx hpath => ?_, fun p' => ?_⟩
    · rcases WriteQueue.mem_issued_issue.1 hx with hx | ⟨-, hnew⟩
      · exact hold c x hx hpath
      · obtain ⟨e, m, rfl, hsends, hws⟩ := heff.sent (hS.chats p).idle hnew hpath
        obtain ⟨wr, hwr, rfl⟩ := List.mem_map.1 (hws ▸ hnew)
        exact ⟨p, m, sent_of_sends heff (hS.chats p).idle hsends hws, wr, hwr, rfl⟩
    · by_cases hp : p' = p
      · subst hp
        have hq : ((w.acted p' pe q ws).process p').device = q.device := by simp [acted]
        rw [hq]
        by_cases hchat : ∃ e, pe = .chat e
        · obtain ⟨de, rfl⟩ := hchat
          cases heff with
          | chat _ hd =>
            refine (hchats p').step hd ?_ ?_
            · rintro id isGroupChat user rfl hu
              obtain ⟨user', kept, hu', -, rfl, rfl⟩ := Device.step_openChat hd
              obtain rfl := Option.some.inj (hu.symm.trans hu')
              refine ⟨_, WriteQueue.mem_issued_issue.2 (.inr ⟨?_, List.mem_cons_self⟩)⟩
              change (p', some user.uid) = (p', (w.process p').device.currentUser.map User.uid)
              rw [hu]
              rfl
            · rintro i doc self path rfl hi hpath D rfl x hx r hr
              obtain ⟨n, k, hD⟩ := docs_of_conversationSnapshot hpe hi hpath
              have hconversation : path.IsConversation := by
                cases (hS.chats p').listens self (List.mem_of_getElem? hi) path hpath <;> trivial
              exact (hS.messages.rowOf_docs hinit hconversation hD hx hr).mono hG
        · have hsame := heff.chats fun e he => hchat ⟨e, he⟩
          exact (hchats p').congr hsame.instances hsame.cacheMessage
      · simpa [acted, Function.update_of_ne hp] using hchats p'

theorem sources_of_run (hinit : ∀ x ∈ init, ¬ (DocWrite.path x).IsConversation)
    {es : List Event} (h : EventRun.run (step init) start es = some w) : w.Sources :=
  EventRun.run_invariant (step init) (fun _ _ _ hS hs => hS.step hinit hs) sources_start h

/-- The message is one that the chat may show: an account of the process has sent it to `id`, or has
got it from `id`, or it has been sent to the group `id` that a chat listens to. -/
inductive Concerns (w : App) (p id : String) (m : Message) : Prop
  | sent : w.HasHad p m.sender → m.chat = id → Concerns w p id m
  | received : w.HasHad p m.chat → m.sender = id → m.isGroup = false → Concerns w p id m
  | group {self : ChatViewController} : self ∈ (w.process p).device.instances →
    self.docRefc = some (.groupConversation id) → m.chat = id → m.isGroup = true →
    Concerns w p id m

/-- What is written to a document that a chat listens to concerns the chat. -/
theorem concerns_of_writes {p : String} {self : ChatViewController}
    (hself : self ∈ (w.process p).device.instances) {path : DocPath}
    (hpath : self.docRefc = some path) (hl : Device.ListensTo (w.HasHad p) self path) {m : Message}
    (hm : ∃ x ∈ m.writes, DocWrite.path x = path) : w.Concerns p self.chatWithId m := by
  have hwrites := Message.exists_mem_writes.1 hm
  cases hl with
  | @alone v hv =>
    split_ifs at hwrites with hg
    · rcases hwrites with hp | hp
      · obtain ⟨rfl, hchat⟩ := DocPath.conversation.inj hp
        exact .sent hv hchat
      · cases hp
    · rcases hwrites with hp | hp | hp
      · cases hp
      · obtain ⟨rfl, hchat⟩ := DocPath.conversation.inj hp
        exact .sent hv hchat
      · obtain ⟨rfl, hsender⟩ := DocPath.conversation.inj hp
        exact .received hv hsender (by simpa using hg)
  | group _ =>
    split_ifs at hwrites with hg
    · rcases hwrites with hp | hp
      · cases hp
      · exact .group hself hpath (DocPath.groupConversation.inj hp) hg
    · rcases hwrites with hp | hp | hp <;> cases hp

theorem Sources.concerns (hS : w.Sources) {p id : String} {columns : List (List String)}
    (hc : (w.process p).device.globals.cacheMessage[id]? = some columns) :
    ∃ rows, columns = Row.columns rows ∧
      ∀ r ∈ rows, ∃ q m, w.Sent q m ∧ m.row = r ∧ w.Concerns p id m := by
  obtain ⟨rows, rfl, hrows⟩ := (hS.chats p).cached id columns hc
  refine ⟨rows, rfl, fun r hr => ?_⟩
  obtain ⟨self, hself, rfl, path, hpath, q, m, hm, hrow, hwrites⟩ := hrows r hr
  exact ⟨q, m, hm, hrow,
    concerns_of_writes hself hpath ((hS.chats p).listens self hself path hpath) hwrites⟩

end App

namespace Contacts

variable {init : List AppWrite} {s : Contacts}

/-- From a store without friends and conversations: every row that a process has cached for a chat
shows a message that has been sent to the chat by an account the process has had, or to such an
account by the other, or to the group, as one of its chats listens to it. If each tap finds at its
row the id of its cell, then a chat that listens to a group is at a process that has listened for a
member of the group. -/
theorem rows_of_contacts (hfriends : ∀ x ∈ init, ∀ uid id, DocWrite.path x ≠ .friends uid id)
    (hconversations : ∀ x ∈ init, ¬ (DocWrite.path x).IsConversation) {es : List Event}
    (h : EventRun.run (step init) start es = some s) (p : String) :
    (∀ (id : String) columns,
      (s.app.process p).device.globals.cacheMessage[id]? = some columns →
      ∃ rows, columns = Row.columns rows ∧
        ∀ r ∈ rows, ∃ q m, s.app.Sent q m ∧ m.row = r ∧ s.app.Concerns p id m) ∧
    (EventRun.Meets (step init) (fun _ => FindsRow) start es →
      ∀ self ∈ (s.app.process p).device.instances, ∀ g,
        self.docRefc = some (.groupConversation g) →
        ∃ v ∈ (s.app.process p).device.bufferListeners, s.Member g v) := by
  obtain ⟨es', hes'⟩ := app_reaches h
  have hS := App.sources_of_run hconversations hes'
  refine ⟨fun id columns hc => hS.concerns hc, fun hmeets self hself g hg => ?_⟩
  have hflagged := (flagged_of_run hfriends hmeets h).chats p self hself
  cases (hS.chats p).listens self hself _ hg with
  | group hgroup =>
    rw [hgroup] at hflagged
    obtain ⟨name, v, hv, he⟩ := hflagged
    exact ⟨v, hv, (grouped_of_run hfriends h).members v _ name he⟩

/-- `a` starts a group, opens its chat and writes to it. -/
def writingToGroup : List Event :=
  grouping ++ [.app (.land ("p", some "a")), .app (.land ("p", some "a")),
    .app (.deliver "p" (.friends "a") 7 0), .cellForRowAt "p" 1, .didSelectRowAt "p" 0,
    .chatWillAppear "p", .app (.on "p" (.chat (.finishEditing 0 "hi" "1"))),
    .app (.deliver "p" (.conversation 0) 7 4)]

theorem rows_of_contacts_writingToGroup : ∃ s,
    EventRun.run (step App.requested) start writingToGroup = some s ∧
    (∃ q m, s.app.Sent q m ∧ m.row = ⟨"1", "a", "hi", "false"⟩ ∧ s.app.Concerns "p" "g" m) ∧
    ∃ v ∈ (s.app.process "p").device.bufferListeners, s.Member "g" v := by
  obtain ⟨s, hs⟩ := Option.isSome_iff_exists.1
    (by decide +kernel : (EventRun.run (step App.requested) start writingToGroup).isSome)
  obtain ⟨hc, self, hself, hg⟩ := (by decide +kernel :
    ∀ s ∈ EventRun.run (step App.requested) start writingToGroup,
      (s.app.process "p").device.globals.cacheMessage["g"]? =
        some (Row.columns [⟨"1", "a", "hi", "false"⟩]) ∧
      ∃ self ∈ (s.app.process "p").device.instances,
        self.docRefc = some (.groupConversation "g")) s hs
  obtain ⟨hrows, hmembers⟩ := rows_of_contacts (by simp [App.requested])
    (by simp [App.requested, DocPath.IsConversation]) hs "p"
  obtain ⟨rows, hcolumns, hconcerns⟩ := hrows "g" _ hc
  obtain rfl := Row.columns_inj hcolumns
  exact ⟨s, hs, hconcerns _ (List.mem_singleton_self _),
    hmembers (EventRun.meets_of_take _ (by decide +kernel)) self hself "g" hg⟩

end Contacts

end MessageApp
