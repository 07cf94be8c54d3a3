import MessageApp.Lib.Feed
import MessageApp.Proofs.Alignment
import MessageApp.Proofs.Copies
import MessageApp.Proofs.Incremental

/-!
# What the chats show

Each user's process is one in which that user has signed in, so what is cached there is what some
instance holds (`World.backed`), and an instance of a chat holds messages of that chat alone
(`World.rowsSent_of_run`): no cell shows anything that was not sent in its conversation
(`World.cells_sent`).
-/

namespace MessageApp

namespace Message

/-- The row that shows the message. -/
def row (m : Message) : Row := .ofEntry (m.t, .ofStrings m.record)

@[simp] theorem row_key (m : Message) : m.row.key = m.t := rfl

/-- The cell that shows the message to `c`. -/
def cell (c : String) (m : Message) : ChatViewController.Cell where
  own := m.sender = c
  profileImage := m.sender
  isAudio := m.record.getD 2 "" ≠ "false"
  content := m.record.getD 0 ""

variable (S : Setup)

/-- The message is of the conversation that `c` has with `id`, or of the group `id`. -/
def InChat (c id : String) (m : Message) : Prop :=
  if S.isGroup id then m.chat = id else Between c id m

instance (c id : String) : DecidablePred (InChat S c id) := fun m =>
  inferInstanceAs (Decidable (if S.isGroup id then m.chat = id else Between c id m))

/-- The document of the conversation, as `c` listens to it. -/
def chatDoc (c id : String) : DocPath :=
  if S.isGroup id then .groupConversation id else .conversation c id

theorem exists_mem_writes_chatDoc {S : Setup} {m : Message} (hm : m.Ok S) {c id : String}
    (hc : S.isUser c = true) (hid : S.isUser id = true ∨ S.isGroup id = true) :
    (∃ wr ∈ m.writes, DocWrite.path wr = chatDoc S c id) ↔ InChat S c id m := by
  unfold chatDoc InChat
  by_cases hg : S.isGroup id = true
  · rw [if_pos hg, if_pos hg]
    exact World.exists_mem_writes_groupConversation hm hg
  · rw [if_neg hg, if_neg hg]
    exact World.exists_mem_writes_conversation hm hc (hid.resolve_right hg)

end Message

theorem ChatViewController.Follows.cachedRows_eq {cacheMessage : Dict (List (List String))}
    {self : ChatViewController} {c : String} {own : List Row}
    (h : self.Follows cacheMessage c own) : cachedRows cacheMessage c = own := by
  have hc := h.cached
  split_ifs at hc with hn
  · simp [cachedRows, hc, hn]
  · exact cachedRows_of_columns hc

namespace Device

open ChatViewController Keyed

variable {d d' : Device} {id : String} {e : Event} {ws : List Write}

/-- The process has opened the chat at most once. -/
def OpenedOnce (d : Device) (id : String) : Prop :=
  (d.instances.map ChatViewController.chatWithId).Pairwise fun a b => a ≠ id ∨ b ≠ id

/-- The instance of the chat, if there is one, holds what is cached, each key once. -/
def Followed (d : Device) (id : String) : Prop :=
  ∀ self ∈ d.instances, self.chatWithId = id →
    ∃ own, Follows d.globals.cacheMessage self id own ∧ (own.map Row.key).Nodup

theorem step_chats (hrows : ∀ self ∈ d.instances, ∃ rows, self.Holds rows)
    (h : d.step e = some (d', ws)) :
    d.instances.map ChatViewController.chatWithId <+:
      d'.instances.map ChatViewController.chatWithId := by
  rcases step_instances hrows h with hd | ⟨self, -, -, hd⟩ | ⟨i, self, self', hi, hk, hd⟩
  · exact hd ▸ List.prefix_rfl
  · rw [hd, List.map_append]
    exact List.prefix_append _ _
  · have hself : (d.instances.map ChatViewController.chatWithId)[i]? = some self'.chatWithId := by
      rw [List.getElem?_map, hi, hk.chatWithId]
      rfl
    obtain ⟨hlt, he⟩ := List.getElem?_eq_some_iff.1 hself
    have hset : d'.instances.map ChatViewController.chatWithId =
        d.instances.map ChatViewController.chatWithId := by
      rw [hd, List.map_set, ← he, List.set_getElem_self hlt]
    exact hset ▸ List.prefix_rfl

theorem OpenedOnce.of_step (hrows : ∀ self ∈ d.instances, ∃ rows, self.Holds rows)
    (h : d.step e = some (d', ws)) (ho : d'.OpenedOnce id) : d.OpenedOnce id :=
  List.Pairwise.sublist (step_chats hrows h).sublist ho

theorem OpenedOnce.index_unique (ho : d.OpenedOnce id) {i j : ℕ} {a b : ChatViewController}
    (hi : d.instances[i]? = some a) (hj : d.instances[j]? = some b) (ha : a.chatWithId = id)
    (hb : b.chatWithId = id) : i = j := by
  have hpair : ∀ {i j : ℕ} {a b : ChatViewController}, d.instances[i]? = some a →
      d.instances[j]? = some b → a.chatWithId = id → b.chatWithId = id → ¬ i < j := by
    intro i j a b hi hj ha hb hij
    obtain ⟨hlt, rfl⟩ := List.getElem?_eq_some_iff.1 hi
    obtain ⟨hlt', rfl⟩ := List.getElem?_eq_some_iff.1 hj
    have hne := List.pairwise_iff_getElem.1 (List.pairwise_map.1 ho) i j hlt hlt' hij
    exact hne.elim (· ha) (· hb)
  exact le_antisymm (not_lt.1 (hpair hj hi hb ha)) (not_lt.1 (hpair hi hj ha hb))

theorem cachedRows_eq_nil (hB : d.Backed) (h : ∀ self ∈ d.instances, self.chatWithId ≠ id) :
    d.globals.cacheMessage[id]? = none := by
  rw [Option.eq_none_iff_forall_ne_some]
  intro columns hc
  obtain ⟨-, p, self, rows, hself, hchat, -⟩ := hB id columns hc
  exact h self hself hchat

/-- A step that does not sign out only adds rows to a chat opened once. -/
theorem Followed.step (hB : d.Backed) (hrows : ∀ self ∈ d.instances, ∃ rows, self.Holds rows)
    (hF : d.Followed id) (he : e ≠ .signout) (ho : d'.OpenedOnce id)
    (h : d.step e = some (d', ws)) :
    d'.Followed id ∧
      cachedRows d.globals.cacheMessage id <+: cachedRows d'.globals.cacheMessage id := by
  by_cases htouch : e.TouchesRows
  · cases e with
    | signout => exact absurd rfl he
    | openChat id' g =>
      obtain ⟨user, kept, -, -, rfl, -⟩ := step_openChat h
      refine ⟨fun self hself hchat => ?_, List.prefix_rfl⟩
      rcases List.mem_append.1 hself with hself | hself
      · exact hF self hself hchat
      · obtain rfl := List.mem_singleton.1 hself
        -- the chat was not open before, so nothing is cached for it
        have hnone : d.globals.cacheMessage[id]? = none := by
          refine cachedRows_eq_nil hB fun a ha hac => ?_
          have hpair := (List.pairwise_append.1 (List.pairwise_map.1 ho)).2.2 a ha _ hself
          exact hpair.elim (· hac) (· hchat)
        exact ⟨[], ⟨hchat, rfl, hnone⟩, List.nodup_nil⟩
    | conversationSnapshot i doc =>
      obtain ⟨a, p, s, hi, -, hl, rfl, -⟩ := step_conversationSnapshot h
      obtain ⟨own, hown⟩ := hrows a (List.mem_of_getElem? hi)
      obtain ⟨hchat', -, hother⟩ := conversationListener_frame hown hl
      by_cases hac : a.chatWithId = id
      · obtain ⟨own, hfollows, hnodup⟩ := hF a (List.mem_of_getElem? hi) hac
        have hs : ∃ own', own <+: own' ∧ Follows s.1 s.2 id own' ∧ (own'.map Row.key).Nodup := by
          cases doc with
          | none =>
            obtain rfl := Option.some.inj hl
            exact ⟨own, List.prefix_rfl, hfollows, hnodup⟩
          | some D => exact ⟨_, List.prefix_append _ _, hfollows.step hl,
              (nodup_absorb Row.key (Row.ofDoc_keys_nodup D)).2 hnodup⟩
        obtain ⟨own', hgrow, hfollows', hnodup'⟩ := hs
        refine ⟨fun self hself hchat => ?_, ?_⟩
        · obtain ⟨j, hj⟩ := List.mem_iff_getElem?.1 hself
          have hset : (d.instances.set i s.2)[i]? = some s.2 := by
            rw [List.getElem?_set_self (List.getElem?_eq_some_iff.1 hi).1]
          obtain rfl := ho.index_unique hset hj hfollows'.chat hchat
          obtain rfl := Option.some.inj (hset.symm.trans hj)
          exact ⟨own', hfollows', hnodup'⟩
        · rw [hfollows.cachedRows_eq, hfollows'.cachedRows_eq]
          exact hgrow
      · have hcache : s.1[id]? = d.globals.cacheMessage[id]? := hother id (Ne.symm hac)
        refine ⟨fun self hself hchat => ?_, ?_⟩
        · rcases List.mem_or_eq_of_mem_set hself with hself | rfl
          · obtain ⟨own, hfollows, hnodup⟩ := hF self hself hchat
            exact ⟨own, ⟨hfollows.chat, hfollows.holds, hcache.trans hfollows.cached⟩, hnodup⟩
          · exact absurd (hchat'.symm.trans hchat) hac
        · simp only [cachedRows, hcache]
          exact List.prefix_rfl
    | _ => exact htouch.elim
  · obtain ⟨hcache, hsame⟩ := step_sameRows htouch h
    refine ⟨fun self hself hchat => ?_, hcache ▸ List.prefix_rfl⟩
    obtain ⟨j, hj, rfl⟩ := List.getElem_of_mem hself
    have hj' : j < d.instances.length := hsame.length_eq ▸ hj
    have hab := (List.forall₂_iff_get.1 hsame).2 j hj' hj
    obtain ⟨own, hfollows, hnodup⟩ :=
      hF _ (List.getElem_mem hj') (hab.chatWithId.symm.trans hchat)
    exact ⟨own, ⟨hchat, hab.holds.2 hfollows.holds, hcache ▸ hfollows.cached⟩, hnodup⟩

end Device

namespace World

open ChatViewController Message

variable {S : Setup} {w w' : World} {c id : String}

/-! ## Its clients are processes -/

/-- A client's process is one that its user has signed in to. -/
theorem device_reaches {es : List Event} (h : EventRun.run (World.step S) start es = some w)
    (c : String) : ∃ des, EventRun.run Device.next {} des = some (w.device c) := by
  have hstart : EventRun.Reaches Device.next {} (start.device c) :=
    .of_step Device.next (e := .signIn { uid := c }) rfl
  refine hstart.trans Device.next ?_
  refine @EventRun.reaches_part _ _ (World.step S) _ _ Device.next (·.device c) start w es ?_ h
  intro m e t _ hs
  rcases step_cases hs with ⟨c', q, -, -, rfl⟩ | ⟨c', ev, ms, d, ws, -, hd, rfl⟩
  · exact .refl _ _
  · by_cases hc : c = c'
    · subst hc
      refine .of_step Device.next (e := ev) ?_
      simp [Device.next, hd, World.after]
    · simp only [World.after, Function.update_of_ne hc]
      exact .refl _ _

theorem backed {es : List Event} (h : EventRun.run (World.step S) start es = some w)
    (c : String) : (w.device c).Backed := by
  obtain ⟨des, hdes⟩ := device_reaches h c
  exact Device.backed_of_run hdes

/-! ## What an instance holds was sent -/

/-- The instance listens to its chat's document, and each of its rows is a message of the chat. -/
structure RowsSent (S : Setup) (sent : List Message) (c : String) (a : ChatViewController) :
    Prop where
  docRefc : ∀ p ∈ a.docRefc, p = chatDoc S c a.chatWithId
  rows : ∃ rows, a.Holds rows ∧
    ∀ r ∈ rows, ∃ m ∈ sent, InChat S c a.chatWithId m ∧ r = m.row

theorem RowsSent.mono {sent : List Message} {a : ChatViewController} (h : RowsSent S sent c a)
    (ms : List Message) : RowsSent S (sent ++ ms) c a where
  docRefc := h.docRefc
  rows := h.rows.imp fun _ h => ⟨h.1, fun r hr => (h.2 r hr).imp fun _ hm =>
    ⟨List.mem_append_left _ hm.1, hm.2⟩⟩

theorem RowsSent.of_sameRows {sent : List Message} {a b : ChatViewController}
    (h : RowsSent S sent c a) (hab : SameRows a b) : RowsSent S sent c b where
  docRefc p hp := by
    rw [hab.chatWithId]
    exact h.docRefc p (hab.docRefc ▸ hp)
  rows := h.rows.imp fun _ h => ⟨hab.holds.2 h.1, hab.chatWithId ▸ h.2⟩

/-- What a snapshot of a chat's document has seen of it are writes of messages. -/
theorem Inv.message_of_seen (hI : Inv S w) {c' : String} {n k : ℕ} {wr : Write}
    (hwr : wr ∈ w.net.seen c' n k) (hp : DocWrite.path wr = chatDoc S c id) :
    ∃ m ∈ w.sent, wr ∈ m.writes := by
  obtain ⟨c'', hissued⟩ := WriteQueue.mem_issued_of_mem_seen hwr
  have hne : ∀ uid d, DocPath.chatBuffer uid d ≠ chatDoc S c id := by
    intro uid d
    unfold chatDoc
    split_ifs <;> simp
  cases hI.issued c'' wr hissued with
  | @message m _ hm _ hmem => exact ⟨m, hm, hmem⟩
  | notice _ _ _ _ _ => exact absurd hp (hne _ _)
  | clean data => exact absurd hp (hne _ _)
  | clear _ => exact absurd hp (hne _ _)

theorem Inv.isMerge_of_seen (hI : Inv S w) {c' : String} {n k : ℕ} :
    ∀ wr ∈ w.net.seen c' n k, DocWrite.path wr = chatDoc S c id → wr.IsMerge := by
  intro wr hwr hp
  obtain ⟨m, -, hmem⟩ := hI.message_of_seen hwr hp
  rw [eq_of_mem_writes hmem]
  trivial

/-- Every version of a chat's document has messages of the chat alone, each under its time. -/
theorem Inv.mem_version (hI : Inv S w) (hinit : S.init (chatDoc S c id) = none)
    (hc : S.isUser c = true) (hid : S.isUser id = true ∨ S.isGroup id = true) {c' : String}
    {n k : ℕ} {t : String} {v : Value}
    (hv : field (w.version S c' n k (chatDoc S c id)) t = some v) :
    ∃ m ∈ w.sent, InChat S c id m ∧ m.t = t ∧ v = .ofStrings m.record := by
  rcases DocWrite.mem_of_read_replay (field_act_of_merges hI.isMerge_of_seen t) hv with
    ⟨wr, hwr, hp, hentry⟩ | hv
  · obtain ⟨m, hm, hmem⟩ := hI.message_of_seen hwr hp
    have hchat := (exists_mem_writes_chatDoc (hI.sent m hm) hc hid).1 ⟨wr, hmem, hp⟩
    rw [eq_of_mem_writes hmem, (m.posts_doc _).2] at hentry
    split_ifs at hentry with ht
    exact ⟨m, hm, hchat, ht, (Option.some.inj hentry).symm⟩
  · rw [hinit] at hv
    cases hv

theorem row_of_isOf {r : Row} {m : Message} (h : r.IsOf (m.t, .ofStrings m.record)) :
    r = m.row := by
  obtain ⟨hk, rest, hrecord⟩ := h
  rw [Value.ofStrings_inj] at hrecord
  obtain ⟨key, who, text, audio⟩ := r
  obtain rfl : m.t = key := hk
  simp [row, Row.ofEntry, hrecord]

/-- A callback adds messages of the chat. -/
theorem RowsSent.conversationListener {self : ChatViewController}
    (h : RowsSent S w.sent c self) {cacheMessage : Dict (List (List String))} {doc : Option Doc}
    {s : Dict (List (List String)) × ChatViewController}
    (hdoc : ∀ D ∈ doc, ∀ (t : String) (v : Value), D[t]? = some v →
      ∃ m ∈ w.sent, InChat S c self.chatWithId m ∧ m.t = t ∧ v = .ofStrings m.record)
    (hl : self.conversationListener cacheMessage doc = some s) : RowsSent S w.sent c s.2 := by
  obtain ⟨own, hown, hsent⟩ := h.rows
  cases doc with
  | none =>
    obtain rfl := Option.some.inj hl
    exact h
  | some D =>
    rcases conversationListener_cases hown hl with ⟨-, rfl⟩ | ⟨D₁, r, D₂, -, -, -, rfl, hfrom⟩
    · exact h
    · refine ⟨h.docRefc, _, holds_withRows self _, fun a ha => ?_⟩
      rcases hfrom a ha with ha | ⟨⟨t, v⟩, he, hof⟩
      · exact hsent a ha
      · obtain ⟨m, hm, hchat, rfl, rfl⟩ :=
          hdoc D rfl t v (Std.ExtTreeMap.mem_toList_iff_getElem?_eq_some.1 he)
        exact ⟨m, hm, hchat, row_of_isOf hof⟩

/-- A client's step keeps what its instances hold messages of their chats. -/
theorem RowsSent.takes (hI : Inv S w)
    (hinit : ∀ u d, S.init (.conversation u d) = none ∧ S.init (.groupConversation d) = none)
    (hR : ∀ self ∈ (w.device c).instances, RowsSent S w.sent c self) {e : Event}
    {ev : Device.Event} {ms : List Message} {d : Device} {ws : List Write}
    (ht : Takes S w e c ev ms) (hd : (w.device c).step ev = some (d, ws)) :
    ∀ self ∈ d.instances, RowsSent S (w.sent ++ ms) c self := by
  by_cases htouch : ev.TouchesRows
  · cases ht with
    | @openChat _ id hc hid =>
      obtain ⟨user, kept, huser, -, rfl, -⟩ := Device.step_openChat hd
      obtain rfl := Option.some.inj ((hI.user c).symm.trans huser)
      intro self hself
      rcases List.mem_append.1 hself with hself | hself
      · exact (hR self hself).mono []
      · obtain rfl := List.mem_singleton.1 hself
        refine ⟨fun p hp => ?_, [], rfl, by simp⟩
        simp only [Device.openedDocRefc, Option.mem_def] at hp
        split_ifs at hp with hne hg
        · rw [← Option.some.inj hp, chatDoc, if_pos hg]
        · rw [← Option.some.inj hp, chatDoc, if_neg hg]
    | @conversationSnapshot _ i n k self p hi hp =>
      obtain ⟨self', p', s, hi', -, hl, rfl, -⟩ := Device.step_conversationSnapshot hd
      obtain rfl := Option.some.inj (hi.symm.trans hi')
      have hself := hR self (List.mem_of_getElem? hi)
      have hof := hI.instances c self (List.mem_of_getElem? hi)
      have hs : RowsSent S w.sent c s.2 := hself.conversationListener (fun D hD t v hv => by
        rw [hself.docRefc p hp] at hD
        refine @Inv.mem_version S w c self.chatWithId hI ?_ hof.user hof.chat c n k t v ?_
        · unfold chatDoc
          split_ifs
          · exact (hinit c _).2
          · exact (hinit c _).1
        · rw [hD]
          exact hv) hl
      intro a ha
      rcases List.mem_or_eq_of_mem_set ha with ha | rfl
      · exact (hR a ha).mono []
      · exact hs.mono []
    | _ => exact htouch.elim
  · obtain ⟨-, hsame⟩ := Device.step_sameRows htouch hd
    intro self hself
    obtain ⟨j, hj, rfl⟩ := List.getElem_of_mem hself
    have hj' : j < (w.device c).instances.length := hsame.length_eq ▸ hj
    exact ((hR _ (List.getElem_mem hj')).of_sameRows
      ((List.forall₂_iff_get.1 hsame).2 j hj' hj)).mono ms

theorem rowsSent_of_run
    (hinit : ∀ u d, S.init (.conversation u d) = none ∧ S.init (.groupConversation d) = none)
    {es : List Event} (h : EventRun.run (World.step S) start es = some w) (c : String) :
    ∀ self ∈ (w.device c).instances, RowsSent S w.sent c self := by
  refine EventRun.run_history (I := fun _ w =>
    ∀ self ∈ (w.device c).instances, RowsSent S w.sent c self) (World.step S) ?_ ?_ h
  · simp [start]
  · intro es m e t hm hR hs
    rcases step_cases hs with ⟨c', q, -, -, rfl⟩ | ⟨c', ev, ms, d, ws, ht, hd, rfl⟩
    · exact hR
    · by_cases hc : c = c'
      · subst hc
        simpa [World.after] using RowsSent.takes (inv_of_run hm) hinit hR ht hd
      · simp only [World.after, Function.update_of_ne hc]
        exact fun self hself => (hR self hself).mono ms

/-- What is cached for a chat are messages of the chat. -/
theorem cached_sent
    (hinit : ∀ u d, S.init (.conversation u d) = none ∧ S.init (.groupConversation d) = none)
    {es : List Event} (h : EventRun.run (World.step S) start es = some w) {c id : String}
    {columns : List (List String)}
    (hc : (w.device c).globals.cacheMessage[id]? = some columns) :
    ∃ rows, columns = Row.columns rows ∧
      ∀ r ∈ rows, ∃ m ∈ w.sent, InChat S c id m ∧ r = m.row := by
  obtain ⟨-, p, self, rows, hself, rfl, -, hrows, rfl⟩ := backed h c id columns hc
  obtain ⟨rows', hrows', hsent⟩ := (rowsSent_of_run hinit h c self hself).rows
  obtain rfl := hrows'.unique hrows
  exact ⟨rows', rfl, hsent⟩

theorem cachedRows_sent
    (hinit : ∀ u d, S.init (.conversation u d) = none ∧ S.init (.groupConversation d) = none)
    {es : List Event} (h : EventRun.run (World.step S) start es = some w) {c id : String} {r : Row}
    (hr : r ∈ cachedRows (w.device c).globals.cacheMessage id) :
    ∃ m ∈ w.sent, InChat S c id m ∧ r = m.row := by
  cases hc : (w.device c).globals.cacheMessage[id]? with
  | none => simp [cachedRows, hc] at hr
  | some columns =>
    obtain ⟨rows, rfl, hsent⟩ := cached_sent hinit h hc
    rw [cachedRows_of_columns hc] at hr
    exact hsent r hr

/-! ## A chat opened once -/

theorem holds_of_run {es : List Event} (h : EventRun.run (World.step S) start es = some w)
    (c : String) : ∀ self ∈ (w.device c).instances, ∃ rows, self.Holds rows :=
  fun self hself => ((inv_of_run h).instances c self hself).rows

/-- No client signs out. -/
theorem Takes.ne_signout {e : Event} {ev : Device.Event} {ms : List Message}
    (h : Takes S w e c ev ms) : ev ≠ .signout := by
  cases h <;> simp

/-- A step of the app is none of the client's process, or one of it. -/
theorem device_step {e : Event} (h : w.step S e = some w') (c : String) :
    w'.device c = w.device c ∨ ∃ ev ws, ev ≠ Device.Event.signout ∧
      (w.device c).step ev = some (w'.device c, ws) := by
  rcases step_cases h with ⟨c', q, -, -, rfl⟩ | ⟨c', ev, ms, d, ws, ht, hd, rfl⟩
  · exact .inl rfl
  · by_cases hc : c = c'
    · subst hc
      refine .inr ⟨ev, ws, ht.ne_signout, ?_⟩
      simpa [World.after] using hd
    · exact .inl (by simp [World.after, Function.update_of_ne hc])

theorem openedOnce_of_step {es : List Event} {e : Event}
    (h : EventRun.run (World.step S) start es = some w) (hs : w.step S e = some w')
    (ho : (w'.device c).OpenedOnce id) : (w.device c).OpenedOnce id := by
  rcases device_step hs c with hd | ⟨ev, ws, -, hd⟩
  · exact hd ▸ ho
  · exact ho.of_step (holds_of_run h c) hd

theorem followed_of_run {es : List Event} (h : EventRun.run (World.step S) start es = some w)
    (ho : (w.device c).OpenedOnce id) : (w.device c).Followed id := by
  refine EventRun.run_history (I := fun _ w => (w.device c).OpenedOnce id →
    (w.device c).Followed id) (World.step S) ?_ ?_ h ho
  · intro _ self hself
    simp [start] at hself
  · intro es m e t hm hF hs ho
    rcases device_step hs c with hd | ⟨ev, ws, hne, hd⟩
    · exact hd ▸ hF (hd ▸ ho)
    · exact ((hF (openedOnce_of_step hm hs ho)).step (backed hm c) (holds_of_run hm c) hne ho hd).1

/-- What has been sent in the conversation, and what of it is shown to the client. -/
def feed (S : Setup) (w : World) (c id : String) : Feed Row where
  posts := (w.sent.filter (InChat S c id)).map row
  view := cachedRows (w.device c).globals.cacheMessage id

theorem feed_sound
    (hinit : ∀ u d, S.init (.conversation u d) = none ∧ S.init (.groupConversation d) = none)
    {es : List Event} (h : EventRun.run (World.step S) start es = some w)
    (ho : (w.device c).OpenedOnce id) : (w.feed S c id).Sound Row.key := by
  refine ⟨fun r hr => ?_, ?_⟩
  · obtain ⟨m, hm, hchat, rfl⟩ := cachedRows_sent hinit h hr
    exact List.mem_map.2 ⟨m, List.mem_filter.2 ⟨hm, decide_eq_true hchat⟩, rfl⟩
  · show ((cachedRows (w.device c).globals.cacheMessage id).map Row.key).Nodup
    by_cases hopened : ∃ self ∈ (w.device c).instances, self.chatWithId = id
    · obtain ⟨self, hself, hchat⟩ := hopened
      obtain ⟨own, hfollows, hnodup⟩ := followed_of_run h ho self hself hchat
      rwa [hfollows.cachedRows_eq]
    · have hnone : (w.device c).globals.cacheMessage[id]? = none :=
        Device.cachedRows_eq_nil (backed h c) fun self hself hchat => hopened ⟨self, hself, hchat⟩
      simp [cachedRows, hnone]

/-- Every step of the app posts to the feed, or fetches from it, or leaves it. -/
theorem feed_step
    (hinit : ∀ u d, S.init (.conversation u d) = none ∧ S.init (.groupConversation d) = none)
    {es : List Event} {e : Event} (h : EventRun.run (World.step S) start es = some w)
    (hs : w.step S e = some w') (ho : (w'.device c).OpenedOnce id) :
    Feed.Reaches Row.key (w.feed S c id) (w'.feed S c id) := by
  have h' : EventRun.run (World.step S) start (es ++ [e]) = some w' := by
    rw [EventRun.run_snoc, h]
    exact hs
  refine Feed.reaches_of_prefix ?_ ?_ (feed_sound hinit h' ho)
  · rcases step_cases hs with ⟨c', q, -, -, rfl⟩ | ⟨c', ev, ms, d, ws, -, -, rfl⟩
    · exact List.prefix_rfl
    · simp only [feed, World.after, List.filter_append, List.map_append]
      exact List.prefix_append _ _
  · rcases device_step hs c with hd | ⟨ev, ws, hne, hd⟩
    · simp only [feed, hd]
      exact List.prefix_rfl
    · exact ((followed_of_run h (openedOnce_of_step h hs ho)).step (backed h c)
        (holds_of_run h c) hne ho hd).2

theorem reaches_start {es : List Event} {m : World}
    (h : EventRun.run (World.step S) start es = some w)
    (hm : EventRun.Reaches (World.step S) w m) :
    ∃ es, EventRun.run (World.step S) start es = some m :=
  EventRun.Reaches.trans (World.step S) ⟨es, h⟩ hm

theorem openedOnce_of_run {es fs : List Event} (h : EventRun.run (World.step S) start es = some w)
    (h' : EventRun.run (World.step S) w fs = some w') (ho : (w'.device c).OpenedOnce id) :
    (w.device c).OpenedOnce id := by
  refine @EventRun.run_back _ _ (World.step S) (fun w => (w.device c).OpenedOnce id) w w' fs
    (fun m e t hm hs ho => ?_) h' ho
  obtain ⟨es, hes⟩ := reaches_start h hm
  exact openedOnce_of_step hes hs ho

/-- A run of the app only posts to the feed and fetches from it. -/
theorem feed_reaches
    (hinit : ∀ u d, S.init (.conversation u d) = none ∧ S.init (.groupConversation d) = none)
    {es fs : List Event} (h : EventRun.run (World.step S) start es = some w)
    (h' : EventRun.run (World.step S) w fs = some w') (ho : (w'.device c).OpenedOnce id) :
    Feed.Reaches Row.key (w.feed S c id) (w'.feed S c id) := by
  refine @EventRun.run_simulates _ _ (World.step S) _ (Feed.Step Row.key) (·.feed S c id)
    (fun w => (w.device c).OpenedOnce id) w w' fs (fun m e t hm hs ho => ?_)
    (fun m e t hm hs ho => ?_) h' ho
  · obtain ⟨es, hes⟩ := reaches_start h hm
    exact openedOnce_of_step hes hs ho
  · obtain ⟨es, hes⟩ := reaches_start h hm
    exact feed_step hinit hes hs ho

/-- In every run from a store without conversations, whatever a table shows is messages that were
sent in its conversation, and on the client's own side are those it sent itself. -/
theorem cells_sent
    (hinit : ∀ u d, S.init (.conversation u d) = none ∧ S.init (.groupConversation d) = none)
    {es : List Event} (h : EventRun.run (World.step S) start es = some w) (c : String)
    (self : ChatViewController) :
    ∃ n, self.numberOfRowsInSection (w.device c).globals.cacheMessage = some n ∧
      ∀ row < n, ∃ m ∈ w.sent, InChat S c self.chatWithId m ∧
        self.cellForRowAt (w.device c).globals.cacheMessage (w.device c).currentUser row =
          some (m.cell c) := by
  unfold numberOfRowsInSection cellForRowAt
  cases hc : (w.device c).globals.cacheMessage[self.chatWithId]? with
  | none => exact ⟨0, rfl, fun row hrow => absurd hrow row.not_lt_zero⟩
  | some columns =>
    obtain ⟨rows, rfl, hsent⟩ := cached_sent hinit h hc
    refine ⟨rows.length, by simp [Row.columns], fun row hrow => ?_⟩
    obtain ⟨m, hm, hchat, hr⟩ := hsent _ (List.getElem_mem hrow)
    refine ⟨m, hm, hchat, ?_⟩
    have hsender : m.record[1]? = some m.sender := ((inv_of_run h).sent m hm).record
    simp [Row.columns, List.getElem?_eq_getElem hrow, hr, (inv_of_run h).user c, Message.row,
      Row.ofEntry, Message.cell, hsender]

/-- `a` sends a message to `b`, and gets it while it is still in flight. -/
def echo : List Event :=
  [.openChat "a" "b", .finishEditing "a" 0 "hi" "1", .conversationSnapshot "a" 0 0 4]

theorem cells_sent_echo : ∃ w self m, EventRun.run (World.step duo) start echo = some w ∧
    (w.device "a").instances[0]? = some self ∧ m ∈ w.sent ∧
    self.cellForRowAt (w.device "a").globals.cacheMessage (w.device "a").currentUser 0 =
      some (m.cell "a") := by
  obtain ⟨w, hw⟩ := Option.isSome_iff_exists.1
    (by decide : (EventRun.run (World.step duo) start echo).isSome)
  obtain ⟨self, hself⟩ := Option.isSome_iff_exists.1
    ((by decide : ∀ w, EventRun.run (World.step duo) start echo = some w →
      ((w.device "a").instances[0]?).isSome) w hw)
  obtain ⟨n, hn, hcells⟩ := cells_sent (fun _ _ => ⟨rfl, rfl⟩) hw "a" self
  have hcount : ∀ w ∈ EventRun.run (World.step duo) start echo,
      ∀ self ∈ (w.device "a").instances[0]?,
      self.numberOfRowsInSection (w.device "a").globals.cacheMessage = some 1 := by decide
  obtain rfl := Option.some.inj (hn.symm.trans (hcount w hw self hself))
  obtain ⟨m, hm, -, hcell⟩ := hcells 0 Nat.one_pos
  exact ⟨w, self, m, hw, hself, hm, hcell⟩

/-- In every run from a store without conversations, the rows of a chat that a client has opened at
most once are messages of the conversation, each time once, and they stay there. -/
theorem rows_stay
    (hinit : ∀ u d, S.init (.conversation u d) = none ∧ S.init (.groupConversation d) = none)
    {es fs : List Event} (h : EventRun.run (World.step S) start es = some w)
    (h' : EventRun.run (World.step S) w fs = some w') (ho : (w'.device c).OpenedOnce id) :
    (w.feed S c id).view <+: (w'.feed S c id).view ∧ (w'.feed S c id).Sound Row.key := by
  have hreach := feed_reaches hinit h h' ho
  have hall : EventRun.run (World.step S) start (es ++ fs) = some w' := by
    rw [EventRun.run_append, h]
    exact h'
  have hstart : Feed.Reaches Row.key (start.feed S c id) (w'.feed S c id) :=
    feed_reaches hinit (EventRun.run_nil (World.step S) start) hall ho
  exact ⟨hreach.view_grows, hstart.sound Feed.sound_empty⟩

theorem rows_stay_echo : ∃ w w', EventRun.run (World.step duo) start echo = some w ∧
    w.step duo (.finishEditing "a" 0 "you" "2") = some w' ∧
    (w.feed duo "a" "b").view <+: (w'.feed duo "a" "b").view := by
  obtain ⟨w', hw'⟩ := Option.isSome_iff_exists.1 (by decide :
    (EventRun.run (World.step duo) start (echo ++ [.finishEditing "a" 0 "you" "2"])).isSome)
  obtain ⟨w, hw, hs⟩ := EventRun.run_snoc_eq_some _ hw'
  have honce : ∀ w', EventRun.run (World.step duo) start
      (echo ++ [.finishEditing "a" 0 "you" "2"]) = some w' →
      ((w'.device "a").instances.map ChatViewController.chatWithId).Pairwise
        fun a b => a ≠ "b" ∨ b ≠ "b" := by decide
  have h := rows_stay (fun _ _ => ⟨rfl, rfl⟩) hw ((EventRun.run_singleton _ _ _).trans hs)
    (honce w' hw')
  exact ⟨w, w', hw, hs, h.1⟩

/-! ## A chat shown in full -/

variable (S)

/-- A snapshot of the chat's document with every one of the messages of the chat. -/
def Catches (sent : List Message) (c id : String) (w : World) : Event → Prop
  | .conversationSnapshot c' i n k => c' = c ∧
      (∃ self, (w.device c).instances[i]? = some self ∧ self.chatWithId = id) ∧
      ∀ m ∈ sent, InChat S c id m → .setData (chatDoc S c id) m.doc true ∈ w.net.seen c n k
  | _ => False

/-- The client has opened the chat once and has got all that was ever sent in it, under times of
which no two are the same. -/
structure UpToDate (es : List Event) (w : World) (c id : String) : Prop where
  once : (w.device c).OpenedOnce id
  times : ((w.sent.filter (InChat S c id)).map Message.t).Nodup
  caught : ∃ pre e post w₀, es = pre ++ e :: post ∧
    EventRun.run (World.step S) start pre = some w₀ ∧ Catches S w.sent c id w₀ e

variable {S}

/-- A snapshot with all messages leaves a row for each of them. -/
theorem Catches.keys
    (hinit : ∀ u d, S.init (.conversation u d) = none ∧ S.init (.groupConversation d) = none)
    {es : List Event} {e : Event} {sent : List Message}
    (h : EventRun.run (World.step S) start es = some w) (hs : w.step S e = some w')
    (ho : (w'.device c).OpenedOnce id) (hc : Catches S sent c id w e) {m : Message} (hm : m ∈ sent)
    (hchat : InChat S c id m) : m.t ∈ (w'.feed S c id).view.map Row.key := by
  cases e with
  | conversationSnapshot c' i n k =>
    obtain ⟨rfl, ⟨self, hi, rfl⟩, hall⟩ := hc
    rcases step_cases hs with ⟨_, _, he, -⟩ | ⟨_, _, _, d, ws, ht, hd, rfl⟩
    · cases he
    cases ht with
    | @conversationSnapshot _ _ _ _ self' p hi' hp =>
      obtain rfl := Option.some.inj (hi.symm.trans hi')
      have hself : self ∈ (w.device c').instances := List.mem_of_getElem? hi
      obtain rfl := (rowsSent_of_run hinit h c' self hself).docRefc p hp
      -- the message's write makes its time a key of the document
      have hkey : (field (w.version S c' n k (chatDoc S c' self.chatWithId)) m.t).isSome :=
        DocWrite.read_replay_isSome (field_act_of_merges (inv_of_run h).isMerge_of_seen m.t)
          (hall m hm hchat) rfl (by rw [(m.posts_doc _).2, if_pos rfl])
      obtain ⟨self', p, s, hi', -, hl, rfl, -⟩ := Device.step_conversationSnapshot hd
      obtain rfl := Option.some.inj (hi.symm.trans hi')
      obtain ⟨own, hfollows, -⟩ :=
        followed_of_run h (openedOnce_of_step h hs ho) self hself rfl
      cases hD : w.version S c' n k (chatDoc S c' self.chatWithId) with
      | none => simp [hD] at hkey
      | some D =>
        rw [hD] at hl hkey
        have hview := (hfollows.step hl).cachedRows_eq
        simp only [feed, World.after, Function.update_self, hview]
        refine (Keyed.mem_absorb_keys Row.key).2 (.inr ?_)
        rw [Row.ofDoc_keys, Std.ExtTreeMap.mem_keys, Std.ExtTreeMap.mem_iff_isSome_getElem?]
        exact hkey
  | _ => exact hc.elim

/-- A client that is up to date shows the messages of the chat, each once. -/
theorem UpToDate.perm
    (hinit : ∀ u d, S.init (.conversation u d) = none ∧ S.init (.groupConversation d) = none)
    {es : List Event} (h : EventRun.run (World.step S) start es = some w)
    (hu : UpToDate S es w c id) :
    (cachedRows (w.device c).globals.cacheMessage id).Perm
      ((w.sent.filter (InChat S c id)).map row) := by
  have hsound := feed_sound hinit h hu.once
  refine hsound.perm_of_caughtUp ?_ fun r hr => ?_
  · have htimes := hu.times
    simp only [feed, List.map_map]
    exact htimes
  · obtain ⟨pre, e, post, w₀, rfl, hpre, hcatch⟩ := hu.caught
    obtain ⟨m, hm, rfl⟩ := List.mem_map.1 hr
    obtain ⟨hm, hchat⟩ := List.mem_filter.1 hm
    rw [EventRun.run_append, hpre, Option.bind_some] at h
    obtain ⟨w₁, hs, h⟩ := Option.bind_eq_some_iff.1 h
    have h₁ : EventRun.run (World.step S) start (pre ++ [e]) = some w₁ := by
      rw [EventRun.run_snoc, hpre]
      exact hs
    have hgrow := (feed_reaches hinit h₁ h hu.once).view_grows
    have hkey := hcatch.keys hinit hpre hs (openedOnce_of_run h₁ h hu.once) hm
      (of_decide_eq_true hchat)
    exact (hgrow.sublist.map Row.key).subset hkey

/-- In every run from a store without conversations, a client that has opened a chat once, and has
got all that was ever sent in it under distinct times, shows exactly the messages of the
conversation, each once. So the two parties of a chat show the same rows, and so do any two who are
in a group. -/
theorem same_shown
    (hinit : ∀ u d, S.init (.conversation u d) = none ∧ S.init (.groupConversation d) = none)
    {es : List Event} (h : EventRun.run (World.step S) start es = some w) :
    (∀ c id, UpToDate S es w c id → (cachedRows (w.device c).globals.cacheMessage id).Perm
      ((w.sent.filter (InChat S c id)).map row)) ∧
    (∀ a b, S.isUser a = true → S.isUser b = true → UpToDate S es w a b → UpToDate S es w b a →
      (cachedRows (w.device a).globals.cacheMessage b).Perm
        (cachedRows (w.device b).globals.cacheMessage a)) ∧
    ∀ g c c', S.isGroup g = true → UpToDate S es w c g → UpToDate S es w c' g →
      (cachedRows (w.device c).globals.cacheMessage g).Perm
        (cachedRows (w.device c').globals.cacheMessage g) := by
  refine ⟨fun c id hu => hu.perm hinit h, fun a b ha hb hab hba => ?_, fun g c c' hg hu hu' => ?_⟩
  · have hsame : InChat S a b = InChat S b a := by
      funext m
      simp [InChat, S.not_both a ha, S.not_both b hb, Between, or_comm]
    refine (hab.perm hinit h).trans ?_
    simp only [hsame]
    exact (hba.perm hinit h).symm
  · have hsame : InChat S c g = InChat S c' g := by
      funext m
      simp [InChat, hg]
    refine (hu.perm hinit h).trans ?_
    simp only [hsame]
    exact (hu'.perm hinit h).symm

/-- `a` has sent a message to `b`, who opens the chat once it is there. -/
def exchange : List Event :=
  [.openChat "a" "b", .finishEditing "a" 0 "hi" "1", .land "a", .land "a", .land "a", .land "a",
    .land "a", .openChat "b" "a", .conversationSnapshot "a" 0 5 0, .conversationSnapshot "b" 0 5 0]

theorem exchange_upToDate {w : World}
    (h : EventRun.run (World.step duo) start exchange = some w) :
    UpToDate duo exchange w "a" "b" ∧ UpToDate duo exchange w "b" "a" := by
  have hcatch : ∀ w ∈ EventRun.run (World.step duo) start exchange, ∀ p ∈ [("a", "b"), ("b", "a")],
      ∀ w₀ ∈ EventRun.run (World.step duo) start (exchange.take (if p.1 = "a" then 8 else 9)),
        (w₀.device p.1).instances[0]?.map ChatViewController.chatWithId = some p.2 ∧
        ((w.device p.1).instances.map ChatViewController.chatWithId).Pairwise
          (fun a b => a ≠ p.2 ∨ b ≠ p.2) ∧
        ((w.sent.filter (InChat duo p.1 p.2)).map Message.t).Nodup ∧
        ∀ m ∈ w.sent, InChat duo p.1 p.2 m →
          Write.setData (chatDoc duo p.1 p.2) m.doc true ∈ w₀.net.seen p.1 5 0 := by
    decide +kernel
  obtain ⟨w₀, h₀⟩ := Option.isSome_iff_exists.1
    (by decide +kernel : (EventRun.run (World.step duo) start (exchange.take 8)).isSome)
  obtain ⟨w₁, h₁⟩ := Option.isSome_iff_exists.1
    (by decide +kernel : (EventRun.run (World.step duo) start (exchange.take 9)).isSome)
  obtain ⟨ha, honce, htimes, hall⟩ := hcatch w h ("a", "b") (by simp) w₀ h₀
  obtain ⟨hb, honce', htimes', hall'⟩ := hcatch w h ("b", "a") (by simp) w₁ h₁
  refine ⟨⟨honce, htimes, _, .conversationSnapshot "a" 0 5 0, _, w₀, rfl, h₀, ?_⟩,
    ⟨honce', htimes', _, .conversationSnapshot "b" 0 5 0, _, w₁, rfl, h₁, ?_⟩⟩
  · exact ⟨rfl, Option.map_eq_some_iff.1 ha, hall⟩
  · exact ⟨rfl, Option.map_eq_some_iff.1 hb, hall'⟩

theorem same_shown_exchange : ∃ w, EventRun.run (World.step duo) start exchange = some w ∧
    (cachedRows (w.device "a").globals.cacheMessage "b").Perm
      (cachedRows (w.device "b").globals.cacheMessage "a") := by
  obtain ⟨w, hw⟩ := Option.isSome_iff_exists.1
    (by decide +kernel : (EventRun.run (World.step duo) start exchange).isSome)
  obtain ⟨hab, hba⟩ := exchange_upToDate hw
  exact ⟨w, hw, (same_shown (fun _ _ => ⟨rfl, rfl⟩) hw).2.1 "a" "b" rfl rfl hab hba⟩

end World

end MessageApp
