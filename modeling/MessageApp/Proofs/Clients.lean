import MessageApp.Messaging
import MessageApp.Proofs.DeviceSteps
import MessageApp.Proofs.Records

/-!
# What clients issue

Every write a client has issued is one of four: a write of a message it sent, the whole `Buffer`
and the deletion of a group's buffer when it opens a chat, or the notice of a message it sent, to a
member of the group. Every message sent has had all its writes issued, and its group notice is
queued as a block or has run (`inv_of_run`).
-/

namespace MessageApp

namespace Message

/-- The entry of the message, as `setData` gets it. -/
def doc (m : Message) : Doc := .ofDict (.insert ∅ m.t m.record)

/-- The writes issued when the message is sent, in order. -/
def writes (m : Message) : List Write :=
  if m.isGroup then
    [.setData (.conversation m.sender m.chat) m.doc true,
      .setData (.groupConversation m.chat) m.doc true]
  else
    [.setData (.buffer m.chat) m.doc true, .setData (.conversation m.sender m.chat) m.doc true,
      .setData (.conversation m.chat m.sender) m.doc true]

def notice (m : Message) (id : String) : Write := .setData (.chatBuffer id m.chat) m.doc true

theorem posts_doc (m : Message) (p : DocPath) :
    (Write.setData p m.doc true).Posts (m.t, .ofStrings m.record) :=
  Write.posts_ofDict p m.t m.record

theorem getElem?_doc (m : Message) (k : String) :
    m.doc[k]? = if m.t = k then some (Value.ofStrings m.record) else none :=
  (m.posts_doc (.buffer m.chat)).2 k

theorem eq_of_mem_writes {m : Message} {wr : Write} (h : wr ∈ m.writes) :
    wr = .setData (DocWrite.path wr) m.doc true := by
  unfold writes at h
  split_ifs at h
  · simp only [List.mem_cons, List.not_mem_nil, or_false] at h
    rcases h with rfl | rfl <;> rfl
  · simp only [List.mem_cons, List.not_mem_nil, or_false] at h
    rcases h with rfl | rfl | rfl <;> rfl

/-- The documents that the message is written to when it is sent. -/
theorem exists_mem_writes {m : Message} {p : DocPath} :
    (∃ wr ∈ m.writes, DocWrite.path wr = p) ↔
      if m.isGroup then .conversation m.sender m.chat = p ∨ .groupConversation m.chat = p
      else .buffer m.chat = p ∨ .conversation m.sender m.chat = p ∨
        .conversation m.chat m.sender = p := by
  unfold writes
  split_ifs <;> simp

/-- The message is from a user to a user or a group, and its record says who sent it. -/
structure Ok (S : Setup) (m : Message) : Prop where
  sender : S.isUser m.sender = true
  chat : S.isUser m.chat = true ∨ S.isGroup m.chat = true
  isGroup : m.isGroup = S.isGroup m.chat
  record : m.record[1]? = some m.sender

end Message

namespace ChatViewController

/-- An instance without a message half sent sends one message. -/
theorem send_of_idle {self : ChatViewController} (hs : self.sarray = []) (ht : self.timestamp = [])
    (content uid flag t : String) :
    ∀ m : Message, m = ⟨uid, self.chatWithId, self.chatisGroupChat, t, [content, uid, flag]⟩ →
      self.send content uid flag t
        = (self, m.writes, if m.isGroup then some ⟨m.doc, m.sender⟩ else none) := by
  rintro m rfl
  obtain ⟨⟩ := self
  simp only at hs ht
  subst hs ht
  unfold send Message.writes Message.doc
  simp only [List.nil_append, List.foldl_cons, List.foldl_nil]
  split_ifs <;> rfl

/-- An instance on the client of `c`. -/
structure OfClient (S : Setup) (c : String) (a : ChatViewController) : Prop where
  user : S.isUser c = true
  chat : S.isUser a.chatWithId = true ∨ S.isGroup a.chatWithId = true
  flag : a.chatisGroupChat = S.isGroup a.chatWithId
  sarray : a.sarray = []
  timestamp : a.timestamp = []
  roomMember : a.roomMember = [] ∨ a.roomMember = S.members a.chatWithId
  rows : ∃ rows, a.Holds rows

theorem OfClient.conversationListener {S : Setup} {c : String} {self : ChatViewController}
    (h : self.OfClient S c) {cacheMessage : Dict (List (List String))} {doc : Option Doc}
    {s : Dict (List (List String)) × ChatViewController}
    (hl : self.conversationListener cacheMessage doc = some s) :
    s.2.OfClient S c ∧ s.2.chatWithId = self.chatWithId := by
  obtain ⟨own, hown⟩ := h.rows
  cases doc with
  | none =>
    obtain rfl := Option.some.inj hl
    exact ⟨h, rfl⟩
  | some doc =>
    rcases conversationListener_cases hown hl with ⟨-, rfl⟩ | ⟨D₁, r, D₂, -, -, -, rfl, -⟩
    · exact ⟨h, rfl⟩
    · exact ⟨⟨h.user, h.chat, h.flag, h.sarray, h.timestamp, h.roomMember, _,
        holds_withRows self _⟩, rfl⟩

theorem OfClient.roomMemberFetched {S : Setup} {c : String} {self self' : ChatViewController}
    (h : self.OfClient S c) {doc : Option Doc}
    (hdoc : ∀ data, doc = some data → data["RoomMember"]? =
      some (Value.ofStrings (S.members self.chatWithId)))
    (hf : self.roomMemberFetched doc = some self') :
    self'.OfClient S c ∧ self'.chatWithId = self.chatWithId := by
  cases doc with
  | none =>
    obtain rfl := Option.some.inj hf
    exact ⟨h, rfl⟩
  | some data =>
    obtain ⟨own, hown⟩ := h.rows
    have hown' := (roomMemberFetched_sameRows hf).holds.2 hown
    unfold ChatViewController.roomMemberFetched at hf
    simp only [hdoc data rfl, Option.bind_eq_bind, Option.bind_some, Value.strings?_ofStrings,
      Option.some.injEq] at hf
    subst hf
    exact ⟨⟨h.user, h.chat, h.flag, h.sarray, h.timestamp, .inr rfl, own, hown'⟩, rfl⟩

end ChatViewController

namespace World

open ChatViewController

/-- The state after the client of `c` went from its process to `d`, writing `ws`. -/
def after (w : World) (c : String) (d : Device) (ws : List Write) (ms : List Message) : World where
  net := w.net.issue c ws
  device := Function.update w.device c d
  sent := w.sent ++ ms

/-- The client of `c` takes an event, which sends these messages. -/
inductive Takes (S : Setup) (w : World) : Event → String → Device.Event → List Message → Prop
  | openChat {c id : String} : S.isUser c = true →
    S.isUser id = true ∨ S.isGroup id = true →
    Takes S w (.openChat c id) c (.openChat id (S.isGroup id)) []
  | bufferSnapshot {c : String} {n m : ℕ} :
    Takes S w (.bufferSnapshot c n m) c (.bufferSnapshot c (w.version S c n m (.buffer c))) []
  | conversationSnapshot {c : String} {i n m : ℕ} {self : ChatViewController} {p : DocPath} :
    (w.device c).instances[i]? = some self → self.docRefc = some p →
    Takes S w (.conversationSnapshot c i n m) c (.conversationSnapshot i (w.version S c n m p)) []
  | roomMemberFetched {c : String} {i : ℕ} {n : Option ℕ} {self : ChatViewController} :
    (w.device c).instances[i]? = some self →
    Takes S w (.roomMemberFetched c i n) c
      (.roomMemberFetched i (n.bind fun n => w.version S c n 0 (.group self.chatWithId))) []
  | finishEditing {c : String} {i : ℕ} {text t : String} {self : ChatViewController} :
    (w.device c).instances[i]? = some self →
    Takes S w (.finishEditing c i text t) c (.finishEditing i text t) (if text ≠ "" then
      [⟨c, self.chatWithId, self.chatisGroupChat, t, [text, c, "false"]⟩] else [])
  | voiceCompletion {c : String} {i : ℕ} {url : Option String} {t : String}
      {self : ChatViewController} :
    (w.device c).instances[i]? = some self →
    Takes S w (.voiceCompletion c i url t) c (.voiceCompletion i url t)
      [⟨c, self.chatWithId, self.chatisGroupChat, t, [url.getD "", c, "true"]⟩]
  | runBlock {c : String} {j : ℕ} : Takes S w (.runBlock c j) c (.runBlock j) []

variable {S : Setup} {w w' : World} {e : Event}

theorem act_eq_some {c : String} {ev : Device.Event} (h : w.act c ev = some w') :
    ∃ d ws, (w.device c).step ev = some (d, ws) ∧ w' = w.after c d ws [] := by
  obtain ⟨⟨d, ws⟩, hd, h⟩ := Option.bind_eq_some_iff.1 h
  refine ⟨d, ws, hd, ?_⟩
  rw [← Option.some.inj h]
  simp [after]

/-- A step lands a write, or is one client's. -/
theorem step_cases (h : w.step S e = some w') :
    (∃ c q, e = .land c ∧ w.net.land c = some q ∧ w' = { w with net := q }) ∨
    ∃ c ev ms d ws, Takes S w e c ev ms ∧ (w.device c).step ev = some (d, ws) ∧
      w' = w.after c d ws ms := by
  cases e with
  | land c =>
    obtain ⟨q, hq, h⟩ := Option.bind_eq_some_iff.1 h
    exact .inl ⟨c, q, rfl, hq, (Option.some.inj h).symm⟩
  | openChat c id =>
    simp only [step] at h
    split_ifs at h with hc
    obtain ⟨d, ws, hd, rfl⟩ := act_eq_some h
    exact .inr ⟨c, _, _, d, ws, .openChat hc.1 hc.2, hd, rfl⟩
  | bufferSnapshot c n m =>
    obtain ⟨d, ws, hd, rfl⟩ := act_eq_some h
    exact .inr ⟨c, _, _, d, ws, .bufferSnapshot, hd, rfl⟩
  | conversationSnapshot c i n m =>
    obtain ⟨self, hi, h⟩ := Option.bind_eq_some_iff.1 h
    obtain ⟨p, hp, h⟩ := Option.bind_eq_some_iff.1 h
    obtain ⟨d, ws, hd, rfl⟩ := act_eq_some h
    exact .inr ⟨c, _, _, d, ws, .conversationSnapshot hi hp, hd, rfl⟩
  | roomMemberFetched c i n =>
    obtain ⟨self, hi, h⟩ := Option.bind_eq_some_iff.1 h
    obtain ⟨d, ws, hd, rfl⟩ := act_eq_some h
    exact .inr ⟨c, _, _, d, ws, .roomMemberFetched hi, hd, rfl⟩
  | finishEditing c i text t =>
    obtain ⟨self, hi, h⟩ := Option.bind_eq_some_iff.1 h
    obtain ⟨m, hm, h⟩ := Option.bind_eq_some_iff.1 h
    obtain ⟨d, ws, hd, rfl⟩ := act_eq_some hm
    refine .inr ⟨c, _, _, d, ws, .finishEditing hi, hd, ?_⟩
    rw [← Option.some.inj h]
    rfl
  | voiceCompletion c i url t =>
    obtain ⟨self, hi, h⟩ := Option.bind_eq_some_iff.1 h
    obtain ⟨m, hm, h⟩ := Option.bind_eq_some_iff.1 h
    obtain ⟨d, ws, hd, rfl⟩ := act_eq_some hm
    refine .inr ⟨c, _, _, d, ws, .voiceCompletion hi, hd, ?_⟩
    rw [← Option.some.inj h]
    rfl
  | runBlock c j =>
    obtain ⟨d, ws, hd, rfl⟩ := act_eq_some h
    exact .inr ⟨c, _, _, d, ws, .runBlock, hd, rfl⟩

/-- A write that the client of `c` may have issued. -/
inductive MayIssue (S : Setup) (sent : List Message) (c : String) : Write → Prop
  | message {m : Message} {wr : Write} : m ∈ sent → m.sender = c → wr ∈ m.writes →
    MayIssue S sent c wr
  | notice {m : Message} {id : String} : m ∈ sent → m.sender = c → m.isGroup = true →
    id ∈ S.members m.chat → id ≠ c → MayIssue S sent c (m.notice id)
  | clean (data : Doc) : MayIssue S sent c (.setData (.buffer c) data false)
  | clear {id : String} : id ≠ "Buffer" → MayIssue S sent c (.delete (.chatBuffer c id))

/-- A block on the client of `c` is the notice of a message `c` sent, with an instance of the
message's chat. -/
def BlockOf (sent : List Message) (c : String) (instances : List ChatViewController)
    (b : ℕ × Block) : Prop :=
  ∃ self m, instances[b.1]? = some self ∧ m ∈ sent ∧ m.sender = c ∧ m.isGroup = true ∧
    m.chat = self.chatWithId ∧ b.2 = ⟨m.doc, m.sender⟩

structure Inv (S : Setup) (w : World) : Prop where
  user : ∀ c, (w.device c).currentUser = some { uid := c }
  instances : ∀ c, ∀ self ∈ (w.device c).instances, self.OfClient S c
  blocks : ∀ c, ∀ b ∈ (w.device c).blocks, BlockOf w.sent c (w.device c).instances b
  sent : ∀ m ∈ w.sent, m.Ok S
  issued : ∀ c, ∀ wr ∈ w.net.issued c, MayIssue S w.sent c wr
  written : ∀ m ∈ w.sent, ∀ wr ∈ m.writes, wr ∈ w.net.issued m.sender

theorem inv_start : Inv S start where
  user _ := rfl
  instances := by simp [start]
  blocks := by simp [start]
  sent := by simp [start]
  issued := by simp [start]
  written := by simp [start]

theorem MayIssue.mono {sent : List Message} {c : String} {wr : Write} (h : MayIssue S sent c wr)
    (ms : List Message) : MayIssue S (sent ++ ms) c wr := by
  cases h with
  | message hm hs hwr => exact .message (List.mem_append_left _ hm) hs hwr
  | notice hm hs hg hid hne => exact .notice (List.mem_append_left _ hm) hs hg hid hne
  | clean data => exact .clean data
  | clear hid => exact .clear hid

theorem BlockOf.mono {sent : List Message} {c : String} {instances instances' : List _}
    {b : ℕ × Block} (h : BlockOf sent c instances b) (ms : List Message)
    (hi : ∀ self, instances[b.1]? = some self →
      ∃ self', instances'[b.1]? = some self' ∧ self'.chatWithId = self.chatWithId) :
    BlockOf (sent ++ ms) c instances' b := by
  obtain ⟨self, m, hself, hm, hs, hg, hc, hb⟩ := h
  obtain ⟨self', hself', hc'⟩ := hi self hself
  exact ⟨self', m, hself', List.mem_append_left _ hm, hs, hg, hc.trans hc'.symm, hb⟩

theorem ne_buffer {id : String} (h : S.isUser id = true ∨ S.isGroup id = true) :
    id ≠ "Buffer" := by
  rintro rfl
  rw [S.user_ne_buffer, S.group_ne_buffer] at h
  simp at h

/-- What a client's step has to keep. -/
theorem Inv.after (hI : Inv S w) {c : String} {d : Device} {ws : List Write} {ms : List Message}
    (hu : d.currentUser = some { uid := c }) (hi : ∀ self ∈ d.instances, self.OfClient S c)
    (hb : ∀ b ∈ d.blocks, BlockOf (w.sent ++ ms) c d.instances b)
    (hms : ∀ m ∈ ms, m.Ok S ∧ m.sender = c ∧ ∀ wr ∈ m.writes, wr ∈ ws)
    (hws : ∀ wr ∈ ws, MayIssue S (w.sent ++ ms) c wr) : Inv S (w.after c d ws ms) where
  user c' := by
    by_cases hc : c' = c
    · subst hc
      simpa [World.after] using hu
    · simpa [World.after, Function.update_of_ne hc] using hI.user c'
  instances c' := by
    by_cases hc : c' = c
    · subst hc
      simpa [World.after] using hi
    · simpa [World.after, Function.update_of_ne hc] using hI.instances c'
  blocks c' := by
    by_cases hc : c' = c
    · subst hc
      simpa [World.after] using hb
    · simp only [World.after, Function.update_of_ne hc]
      exact fun b hb => (hI.blocks c' b hb).mono ms fun self hself => ⟨self, hself, rfl⟩
  sent m hm := by
    rcases List.mem_append.1 hm with hm | hm
    · exact hI.sent m hm
    · exact (hms m hm).1
  issued c' wr hwr := by
    rcases WriteQueue.mem_issued_issue.1 hwr with hold | ⟨rfl, hnew⟩
    · exact (hI.issued c' wr hold).mono ms
    · exact hws wr hnew
  written m hm wr hwr := by
    refine WriteQueue.mem_issued_issue.2 ?_
    rcases List.mem_append.1 hm with hm | hm
    · exact .inl (hI.written m hm wr hwr)
    · obtain ⟨-, hs, hw⟩ := hms m hm
      exact .inr ⟨hs, hw wr hwr⟩

theorem MayIssue.path_ne_group {sent : List Message} {c : String} {wr : Write}
    (h : MayIssue S sent c wr) (g : String) : DocWrite.path wr ≠ .group g := by
  cases h with
  | message hm hs hwr =>
    unfold Message.writes at hwr
    split_ifs at hwr
    · simp only [List.mem_cons, List.not_mem_nil, or_false] at hwr
      rcases hwr with rfl | rfl <;> simp
    · simp only [List.mem_cons, List.not_mem_nil, or_false] at hwr
      rcases hwr with rfl | rfl | rfl <;> simp
  | notice hm hs hg hid hne => simp [Message.notice]
  | clean data => simp
  | clear hid => simp

theorem Inv.mayIssue_of_landed (hI : Inv S w) {wr : Write} (h : wr ∈ w.net.landed) :
    ∃ c, MayIssue S w.sent c wr := by
  obtain ⟨c, hc⟩ := WriteQueue.mem_issued_of_mem_landed h
  exact ⟨c, hI.issued c wr hc⟩

/-- No client writes a group's document. -/
theorem Inv.version_group (hI : Inv S w) (c : String) (n m : ℕ) (g : String) :
    w.version S c n m (.group g) = S.init (.group g) := by
  refine DocWrite.replay_of_forall_ne fun wr hwr => ?_
  obtain ⟨c', hc'⟩ := WriteQueue.mem_issued_of_mem_seen hwr
  exact (hI.issued c' wr hc').path_ne_group g

theorem blockOf_set {c : String} {ms : List Message} {instances : List ChatViewController} {i : ℕ}
    {self self' : ChatViewController} (hi : instances[i]? = some self)
    (hc : self'.chatWithId = self.chatWithId) {b : ℕ × Block}
    (hb : BlockOf w.sent c instances b) :
    BlockOf (w.sent ++ ms) c (instances.set i self') b :=
  hb.mono ms (Device.exists_set_of_chat hi hc b.1)

/-- Sending from an idle instance issues the message's writes and, in a group, queues its
notice. -/
theorem Inv.send (hI : Inv S w) {c : String} {i : ℕ} {self : ChatViewController}
    (hi : (w.device c).instances[i]? = some self) {content flag t : String} {m : Message}
    (hm : m = ⟨c, self.chatWithId, self.chatisGroupChat, t, [content, c, flag]⟩) {d : Device}
    {ws : List Write}
    (hd : (d, ws) = (w.device c).afterSend i (self.send content c flag t)) :
    Inv S (w.after c d ws [m]) ∧ ws = m.writes ∧ d.instances = (w.device c).instances ∧
      d.globals = (w.device c).globals ∧ d.blocks = (w.device c).blocks ++
        if m.isGroup then [(i, ⟨m.doc, c⟩)] else [] := by
  have hof := hI.instances c self (List.mem_of_getElem? hi)
  rw [send_of_idle hof.sarray hof.timestamp content c flag t m hm] at hd
  obtain ⟨rfl, rfl⟩ := Prod.mk.inj hd
  have hset : (w.device c).instances.set i self = (w.device c).instances := by
    obtain ⟨hlt, he⟩ := List.getElem?_eq_some_iff.1 hi
    rw [← he, List.set_getElem_self hlt]
  have hsender : m.sender = c := by rw [hm]
  have hblocks : (w.device c).blocks ++ (((if m.isGroup then some ⟨m.doc, m.sender⟩ else none :
      Option Block).map (i, ·)).toList) = (w.device c).blocks ++
        if m.isGroup then [(i, ⟨m.doc, c⟩)] else [] := by
    rw [hsender]
    split_ifs <;> rfl
  refine ⟨hI.after (hI.user c) ?_ ?_ ?_ ?_, rfl, hset, rfl, hblocks⟩
  · show ∀ a ∈ (w.device c).instances.set i self, a.OfClient S c
    rw [hset]
    exact hI.instances c
  · intro b hb
    have hb : b ∈ (w.device c).blocks ++ if m.isGroup then [(i, ⟨m.doc, c⟩)] else [] := hblocks ▸ hb
    rcases List.mem_append.1 hb with hb | hb
    · exact blockOf_set hi rfl (hI.blocks c b hb)
    · split_ifs at hb with hg
      · rw [List.mem_singleton] at hb
        subst hb
        refine ⟨self, m, ?_, by simp, hsender, hg, by rw [hm], by rw [hsender]⟩
        show ((w.device c).instances.set i self)[i]? = some self
        rw [hset, hi]
      · cases hb
  · intro m' hm'
    rw [List.mem_singleton] at hm'
    subst hm'
    refine ⟨⟨?_, ?_, ?_, ?_⟩, hsender, fun wr hwr => hwr⟩
    · rw [hsender]
      exact hof.user
    · rw [hm]
      exact hof.chat
    · rw [hm]
      exact hof.flag
    · rw [hm]
      rfl
  · exact fun wr hwr => .message (by simp) hsender hwr

/-- A client's step may replace an instance by one for the same chat. -/
theorem Inv.set_instance (hI : Inv S w) {c : String} {i : ℕ} {self self' : ChatViewController}
    {d : Device} (hi : (w.device c).instances[i]? = some self) (hs : self'.OfClient S c)
    (hc : self'.chatWithId = self.chatWithId)
    (hu : d.currentUser = (w.device c).currentUser)
    (hd : d.instances = (w.device c).instances.set i self')
    (hb : d.blocks = (w.device c).blocks) : Inv S (w.after c d [] []) := by
  refine hI.after (hu.trans (hI.user c)) (fun a ha => ?_) (fun b hbm => ?_) (by simp) (by simp)
  · rw [hd] at ha
    rcases List.mem_or_eq_of_mem_set ha with ha | rfl
    · exact hI.instances c a ha
    · exact hs
  · rw [hd]
    exact blockOf_set hi hc (hI.blocks c b (hb ▸ hbm))

theorem Inv.openChat (hI : Inv S w) {c id : String} {d : Device} {ws : List Write}
    (hc : S.isUser c = true) (hid : S.isUser id = true ∨ S.isGroup id = true)
    (hd : (w.device c).step (.openChat id (S.isGroup id)) = some (d, ws)) :
    Inv S (w.after c d ws []) := by
  obtain ⟨v, kept, hv, -, rfl, rfl⟩ := Device.step_openChat hd
  obtain rfl := Option.some.inj ((hI.user c).symm.trans hv)
  refine hI.after (hI.user c) (fun self hself => ?_) (fun b hb => ?_) (by simp) fun wr hwr => ?_
  · rcases List.mem_append.1 hself with hself | hself
    · exact hI.instances c self hself
    · rw [List.mem_singleton.1 hself]
      exact ⟨hc, hid, rfl, rfl, rfl, .inl rfl, [], rfl⟩
  · refine (hI.blocks c b hb).mono [] fun a ha => ⟨a, ?_, rfl⟩
    rw [List.getElem?_append_left (List.getElem?_eq_some_iff.1 ha).1, ha]
  · simp only [List.mem_cons, List.not_mem_nil, or_false] at hwr
    rcases hwr with rfl | rfl
    · exact .clean _
    · exact .clear (ne_buffer hid)

/-- A block issues the notices of its message, to members other than the sender. -/
theorem Inv.runBlock (hI : Inv S w) {c : String} {j : ℕ} {d : Device} {ws : List Write}
    (hd : (w.device c).step (.runBlock j) = some (d, ws)) : Inv S (w.after c d ws []) := by
  obtain ⟨i, b, self, hb, hi, rfl, rfl⟩ := Device.step_runBlock hd
  refine hI.after (hI.user c) (hI.instances c) (fun b' hb' => ?_) (by simp) fun wr hwr => ?_
  · exact (hI.blocks c b' (List.mem_of_mem_eraseIdx hb')).mono [] fun a ha => ⟨a, ha, rfl⟩
  · obtain ⟨self', m, hi', hm, hs, hg, hc, rfl⟩ := hI.blocks c _ (List.mem_of_getElem? hb)
    obtain rfl := Option.some.inj (hi.symm.trans hi')
    unfold Block.run at hwr
    obtain ⟨id, hid, rfl⟩ := List.mem_map.1 hwr
    obtain ⟨hid, hne⟩ := List.mem_filter.1 hid
    have hof := hI.instances c self (List.mem_of_getElem? hi)
    have hmem : id ∈ S.members m.chat := by
      rw [hc]
      rcases hof.roomMember with hr | hr
      · rw [hr] at hid
        cases hid
      · rwa [← hr]
    have hne : id ≠ c := by
      rw [← hs]
      simpa using hne
    rw [← hc]
    exact .notice (List.mem_append_left _ hm) hs hg hmem hne

theorem Inv.takes (hI : Inv S w) {c : String} {ev : Device.Event} {ms : List Message} {d : Device}
    {ws : List Write} (ht : Takes S w e c ev ms) (hd : (w.device c).step ev = some (d, ws)) :
    Inv S (w.after c d ws ms) := by
  cases ht with
  | openChat hc hid => exact hI.openChat hc hid hd
  | bufferSnapshot =>
    obtain ⟨data, b, -, -, rfl, rfl⟩ := Device.step_bufferSnapshot hd
    exact hI.after (hI.user c) (hI.instances c)
      (fun b hb => (hI.blocks c b hb).mono [] fun a ha => ⟨a, ha, rfl⟩) (by simp) (by simp)
  | conversationSnapshot hi hp =>
    obtain ⟨self, p, s, hi, -, hl, rfl, rfl⟩ := Device.step_conversationSnapshot hd
    obtain ⟨hs, hc⟩ := (hI.instances c self (List.mem_of_getElem? hi)).conversationListener hl
    exact hI.set_instance hi hs hc rfl rfl rfl
  | roomMemberFetched hi =>
    obtain ⟨self, self', hi', hg, hf, rfl, rfl⟩ := Device.step_roomMemberFetched hd
    obtain rfl := Option.some.inj (hi.symm.trans hi')
    have hof := hI.instances c _ (List.mem_of_getElem? hi)
    have hdoc := S.roomMember _ (hof.flag.symm.trans hg)
    obtain ⟨hs, hc⟩ := hof.roomMemberFetched (fun data hdata => by
      obtain ⟨n, -, hn⟩ := Option.bind_eq_some_iff.1 hdata
      rw [hI.version_group] at hn
      rwa [hn] at hdoc) hf
    exact hI.set_instance hi hs hc rfl rfl rfl
  | finishEditing hi =>
    obtain ⟨self, r, hi', hr, hd⟩ := Device.step_finishEditing hd
    obtain rfl := Option.some.inj (hi.symm.trans hi')
    unfold ChatViewController.finishEditing at hr
    split_ifs at hr ⊢ with ht
    · rw [hI.user c] at hr
      obtain rfl := Option.some.inj hr
      exact (hI.send hi rfl hd).1
    · obtain rfl := Option.some.inj hr
      obtain ⟨rfl, rfl⟩ := Prod.mk.inj hd
      exact hI.set_instance hi (hI.instances c _ (List.mem_of_getElem? hi)) rfl rfl rfl
        (List.append_nil _)
  | voiceCompletion hi =>
    obtain ⟨self, r, hi', hr, hd⟩ := Device.step_voiceCompletion hd
    obtain rfl := Option.some.inj (hi.symm.trans hi')
    unfold ChatViewController.voiceCompletion at hr
    rw [hI.user c] at hr
    obtain rfl := Option.some.inj hr
    exact (hI.send hi rfl hd).1
  | runBlock => exact hI.runBlock hd

theorem Inv.step (hI : Inv S w) (h : w.step S e = some w') : Inv S w' := by
  rcases step_cases h with ⟨c, q, rfl, hq, rfl⟩ | ⟨c, ev, ms, d, ws, ht, hd, rfl⟩
  · refine ⟨hI.user, hI.instances, hI.blocks, hI.sent, fun c' wr hwr => ?_, fun m hm wr hwr => ?_⟩
    · exact hI.issued c' wr (WriteQueue.issued_land hq c' ▸ hwr)
    · exact WriteQueue.issued_land hq m.sender ▸ hI.written m hm wr hwr
  · exact hI.takes ht hd

theorem inv_of_run {es : List Event} (h : EventRun.run (World.step S) start es = some w) :
    Inv S w :=
  EventRun.run_invariant (World.step S) (fun _ _ _ hI hs => hI.step hs) inv_start h

/-- The client that takes the event, or whose write lands. -/
def Event.client : Event → String
  | .openChat c _ | .bufferSnapshot c _ _ | .conversationSnapshot c _ _ _
  | .roomMemberFetched c _ _ | .finishEditing c _ _ _ | .voiceCompletion c _ _ _ | .runBlock c _
  | .land c => c

theorem Takes.client {e : Event} {c : String} {ev : Device.Event} {ms : List Message}
    (h : Takes S w e c ev ms) : e.client = c := by
  cases h <;> rfl

/-- A client that takes no event has nothing in flight, and nothing queued. -/
theorem silent {c : String} {es : List Event} (hc : ∀ e ∈ es, e.client ≠ c)
    (h : EventRun.run (World.step S) start es = some w) :
    w.net.pending c = [] ∧ (w.device c).blocks = [] := by
  refine EventRun.run_induction
    (I := fun _ w => w.net.pending c = [] ∧ (w.device c).blocks = [])
    (Q := fun _ _ e => e.client ≠ c) (World.step S) ⟨rfl, rfl⟩ ?_ es ?_ h
  · intro es m e t _ hI hQ hs
    rcases step_cases hs with ⟨c', q, rfl, hq, rfl⟩ | ⟨c', ev, ms, d, ws, ht, -, rfl⟩
    · obtain ⟨-, -, -, hne⟩ := WriteQueue.landed_land hq
      exact ⟨(hne c (Ne.symm hQ)).trans hI.1, hI.2⟩
    · have hne : c ≠ c' := fun hcc => hQ (ht.client.trans hcc.symm)
      refine ⟨(WriteQueue.issue_pending_ne _ hne ws).trans hI.1, ?_⟩
      simp only [World.after, Function.update_of_ne hne]
      exact hI.2
  · intro pre e post t hes _
    exact hc e (by rw [hes]; simp)

theorem rest_of_clients {cs : List String} {es : List Event} (hc : ∀ e ∈ es, e.client ∈ cs)
    (h : EventRun.run (World.step S) start es = some w)
    (hp : ∀ c ∈ cs, w.net.pending c = [] ∧ (w.device c).blocks = []) :
    w.net.Rest ∧ ∀ c, (w.device c).blocks = [] := by
  have hall : ∀ c, w.net.pending c = [] ∧ (w.device c).blocks = [] := by
    intro c
    by_cases hcs : c ∈ cs
    · exact hp c hcs
    · exact silent (fun e he hec => hcs (hec ▸ hc e he)) h
  exact ⟨fun c => (hall c).1, fun c => (hall c).2⟩

/-- Two users and a group of theirs. -/
def duo : Setup where
  isUser id := id = "a" || id = "b"
  isGroup id := id = "g"
  members _ := ["a", "b"]
  init p :=
    if p = .group "g" then some (.ofList [("RoomMember", Value.ofStrings ["a", "b"])]) else none
  not_both id h := by
    rcases Bool.or_eq_true_iff.1 h with h | h
    · rw [of_decide_eq_true h]
      decide
    · rw [of_decide_eq_true h]
      decide
  user_ne_buffer := by decide
  group_ne_buffer := by decide
  roomMember g hg := by
    rw [of_decide_eq_true hg]
    decide

end World

end MessageApp
