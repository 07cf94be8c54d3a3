import MessageApp.Proofs.Clients

/-!
# Who is notified of a group message

A group message's notice waits in a block, which sends it to the `roomMember` its instance has when
it runs. If that has been fetched by then, every other member gets it (`notices_delivered`); a block
that runs before the fetch completes sends it to nobody (`not_notices_always_delivered`).
-/

namespace MessageApp

namespace World

variable {S : Setup} {w w' : World} {e : Event}

/-- Whoever the message is for has its entry landed in the group's unread buffer, and nobody
else. -/
def Notified (S : Setup) (w : World) (m : Message) : Prop :=
  (∀ id ∈ S.members m.chat, id ≠ m.sender → m.notice id ∈ w.net.landed) ∧
  ∀ id data merge, Write.setData (.chatBuffer id m.chat) data merge ∈ w.net.landed →
    data[m.t]? = some (Value.ofStrings m.record) → id ∈ S.members m.chat ∧ id ≠ m.sender

/-- A block runs after its instance has fetched the members, or there are no others. -/
def FetchedFirst (S : Setup) (_ : List Event) (w : World) : Event → Prop
  | .runBlock c j => ∀ i b self, (w.device c).blocks[j]? = some (i, b) →
      (w.device c).instances[i]? = some self → self.roomMember = S.members self.chatWithId ∨
        ∀ id ∈ S.members self.chatWithId, id = c
  | _ => True

/-- The message's notice is queued, or has been issued to every other member. -/
def Due (S : Setup) (w : World) (m : Message) : Prop :=
  (∃ b self, b ∈ (w.device m.sender).blocks ∧ b.2 = ⟨m.doc, m.sender⟩ ∧
    (w.device m.sender).instances[b.1]? = some self ∧ self.chatWithId = m.chat) ∨
  ∀ id ∈ S.members m.chat, id ≠ m.sender → m.notice id ∈ w.net.issued m.sender

/-- A queued notice stays queued through a step that is not its block's. -/
theorem due_after {m : Message} {c : String} {d : Device} {ws : List Write} {ms : List Message}
    (h : Due S w m)
    (hb : m.sender = c → ∀ b ∈ (w.device c).blocks, b.2 = ⟨m.doc, c⟩ → ∀ self,
      (w.device c).instances[b.1]? = some self → self.chatWithId = m.chat →
      b ∈ d.blocks ∨ ∀ id ∈ S.members m.chat, id ≠ c → m.notice id ∈ ws)
    (hi : ∀ (i : ℕ) (self : ChatViewController), (w.device c).instances[i]? = some self →
      ∃ self', d.instances[i]? = some self' ∧ self'.chatWithId = self.chatWithId) :
    Due S (w.after c d ws ms) m := by
  by_cases hc : m.sender = c
  · rcases h with ⟨b, self, hmem, hb2, hself, hchat⟩ | hall
    · rw [hc] at hmem hb2 hself
      rcases hb hc b hmem hb2 self hself hchat with hmem' | hnew
      · obtain ⟨self', hself', hchat'⟩ := hi b.1 self hself
        refine .inl ⟨b, self', ?_, by rw [hc]; exact hb2, ?_, hchat'.trans hchat⟩
        · simpa [World.after, hc] using hmem'
        · simpa [World.after, hc] using hself'
      · refine .inr fun id hid hne => WriteQueue.mem_issued_issue.2 (.inr ⟨hc, ?_⟩)
        exact hnew id hid (hc ▸ hne)
    · exact .inr fun id hid hne => WriteQueue.mem_issued_issue.2 (.inl (hall id hid hne))
  · rcases h with ⟨b, self, hmem, hb2, hself, hchat⟩ | hall
    · refine .inl ⟨b, self, ?_, hb2, ?_, hchat⟩
      · simpa [World.after, Function.update_of_ne hc] using hmem
      · simpa [World.after, Function.update_of_ne hc] using hself
    · exact .inr fun id hid hne => WriteQueue.mem_issued_issue.2 (.inl (hall id hid hne))

/-- The block of a message, run with the members fetched, issues its notices. -/
theorem notice_mem_run {m : Message} {self : ChatViewController} {c : String}
    (hchat : self.chatWithId = m.chat)
    (h : self.roomMember = S.members self.chatWithId ∨
      ∀ id ∈ S.members self.chatWithId, id = c) :
    ∀ id ∈ S.members m.chat, id ≠ c →
      m.notice id ∈ Block.run ⟨m.doc, c⟩ self := by
  intro id hid hne
  rcases h with hr | hnone
  · unfold Block.run Message.notice
    rw [← hchat] at hid ⊢
    refine List.mem_map.2 ⟨id, List.mem_filter.2 ⟨hr ▸ hid, ?_⟩, rfl⟩
    simpa using hne
  · exact absurd (hnone id (hchat ▸ hid)) hne

theorem due_send (hI : Inv S w) {c : String} {i : ℕ} {self : ChatViewController}
    (hi : (w.device c).instances[i]? = some self) {content flag t : String} {m : Message}
    (hm : m = ⟨c, self.chatWithId, self.chatisGroupChat, t, [content, c, flag]⟩)
    (hg : m.isGroup = true) {d : Device} {ws : List Write} {ms : List Message}
    (hd : (d, ws) = (w.device c).afterSend i (self.send content c flag t)) :
    Due S (w.after c d ws ms) m := by
  obtain ⟨-, -, hinst, -, hb⟩ := hI.send hi hm hd
  have hs : m.sender = c := by rw [hm]
  have hself : d.instances[i]? = some self := by rw [hinst, hi]
  have hmem : (i, (⟨m.doc, c⟩ : Block)) ∈ d.blocks := by
    rw [hb, if_pos hg]
    simp
  refine .inl ⟨(i, ⟨m.doc, c⟩), self, ?_, by rw [hs], ?_, by rw [hm]⟩
  · simpa [World.after, hs] using hmem
  · simpa [World.after, hs] using hself

theorem due_step {es : List Event} (hI : Inv S w) (hQ : FetchedFirst S es w e)
    (hD : ∀ m ∈ w.sent, m.isGroup = true → Due S w m) (h : w.step S e = some w') :
    ∀ m ∈ w'.sent, m.isGroup = true → Due S w' m := by
  intro m hm hg
  rcases step_cases h with ⟨c, q, rfl, hq, rfl⟩ | ⟨c, ev, ms, d, ws, ht, hd, rfl⟩
  · refine (hD m hm hg).imp_right fun hall id hid hne => ?_
    show m.notice id ∈ q.issued m.sender
    rw [WriteQueue.issued_land hq]
    exact hall id hid hne
  have hrows : ∀ self ∈ (w.device c).instances, ∃ rows, self.Holds rows :=
    fun self hself => (hI.instances c self hself).rows
  obtain ⟨hchats, hblocks⟩ := Device.step_keeps hrows hd
  have hkept : m ∈ w.sent → (∀ j, ev ≠ .runBlock j) → Due S (w.after c d ws ms) m :=
    fun hold hev => due_after (hD m hold hg) (fun _ b hb _ _ _ _ => .inl (hblocks hev b hb)) hchats
  rcases List.mem_append.1 hm with hold | hnew
  · cases ht with
    | runBlock =>
      rename_i j
      obtain ⟨i, b, self, hb, hi, rfl, rfl⟩ := Device.step_runBlock hd
      refine due_after (hD m hold hg) (fun hc b' hb' hb2 self' hself' hchat => ?_) hchats
      obtain ⟨k, hk, rfl⟩ := List.getElem_of_mem hb'
      by_cases hkj : k = j
      · -- the message's own block runs
        subst hkj
        rw [List.getElem?_eq_getElem hk, Option.some.injEq] at hb
        rw [hb] at hb2 hself'
        obtain rfl := Option.some.inj (hi.symm.trans hself')
        subst hb2
        refine .inr (notice_mem_run hchat ?_)
        exact hQ i _ self (by rw [List.getElem?_eq_getElem hk, hb]) hi
      · exact .inl (List.mem_eraseIdx_iff_getElem.2 ⟨k, hk, hkj, rfl⟩)
    | _ => exact hkept hold (by simp)
  · cases ht with
    | finishEditing hi =>
      obtain ⟨self, r, hi', hr, hd⟩ := Device.step_finishEditing hd
      obtain rfl := Option.some.inj (hi.symm.trans hi')
      unfold ChatViewController.finishEditing at hr
      split_ifs at hr hnew with ht
      · rw [hI.user c] at hr
        obtain rfl := Option.some.inj hr
        exact due_send hI hi (List.mem_singleton.1 hnew) hg hd
      · cases hnew
    | voiceCompletion hi =>
      obtain ⟨self, r, hi', hr, hd⟩ := Device.step_voiceCompletion hd
      obtain rfl := Option.some.inj (hi.symm.trans hi')
      unfold ChatViewController.voiceCompletion at hr
      rw [hI.user c] at hr
      obtain rfl := Option.some.inj hr
      exact due_send hI hi (List.mem_singleton.1 hnew) hg hd
    | _ => cases hnew

theorem due_of_run {es : List Event} (hQ : EventRun.Meets (World.step S) (FetchedFirst S) start es)
    (h : EventRun.run (World.step S) start es = some w) :
    ∀ m ∈ w.sent, m.isGroup = true → Due S w m := by
  refine EventRun.run_induction
    (I := fun _ w => ∀ m ∈ w.sent, m.isGroup = true → Due S w m) (World.step S) ?_ ?_ es hQ h
  · simp [start]
  · exact fun es m e t hm hD hQ hs => due_step (inv_of_run hm) hQ hD hs

/-- An entry in a group's unread buffer is of a message to the group, for another member. -/
theorem Inv.entry_for (hI : Inv S w) {m : Message} (hm : m ∈ w.sent) {id : String} {data : Doc}
    {merge : Bool} (hw : Write.setData (.chatBuffer id m.chat) data merge ∈ w.net.landed)
    (hk : data[m.t]? = some (Value.ofStrings m.record)) :
    id ∈ S.members m.chat ∧ id ≠ m.sender := by
  have hok := hI.sent m hm
  have hne := ne_buffer hok.chat
  obtain ⟨c, hc⟩ := hI.mayIssue_of_landed hw
  generalize hwr : Write.setData (.chatBuffer id m.chat) data merge = wr at hc
  cases hc with
  | @message m' wr hm' hs hmem =>
    have hpath : ∃ wr ∈ m'.writes, DocWrite.path wr = .chatBuffer id m.chat := ⟨wr, hmem, by
      rw [← hwr]
      rfl⟩
    rw [Message.exists_mem_writes] at hpath
    split_ifs at hpath
    · rcases hpath with h | h <;> cases h
    · rcases hpath with h | h | h
      · exact absurd (DocPath.chatBuffer.inj h).2.symm hne
      · cases h
      · cases h
  | @notice m' id' hm' hs hg hid hne' =>
    obtain ⟨hp, rfl, -⟩ := Write.setData.inj hwr
    obtain ⟨rfl, hc⟩ := DocPath.chatBuffer.inj hp
    rw [Message.getElem?_doc] at hk
    split_ifs at hk
    have hrec : m'.record = m.record := Value.ofStrings_inj.1 (Option.some.inj hk)
    have hsender : m'.sender = m.sender := by
      have h1 := (hI.sent m' hm').record
      rw [hrec, hok.record] at h1
      exact (Option.some.inj h1).symm
    rw [hc]
    exact ⟨hid, by rw [← hsender, hs]; exact hne'⟩
  | clean data' =>
    obtain ⟨hp, -, -⟩ := Write.setData.inj hwr
    exact absurd (DocPath.chatBuffer.inj hp).2 hne
  | clear hid => cases hwr

/-- Once nothing is queued or in flight, every group message has reached every other member and
nobody else, if every block ran after its instance had fetched the members. -/
theorem notices_delivered {es : List Event} (h : EventRun.run (World.step S) start es = some w)
    (hQ : EventRun.Meets (World.step S) (FetchedFirst S) start es)
    (hblocks : ∀ c, (w.device c).blocks = []) (hrest : w.net.Rest) :
    ∀ m ∈ w.sent, m.isGroup = true → Notified S w m := by
  intro m hm hg
  have hI := inv_of_run h
  refine ⟨fun id hid hne => ?_, fun id data merge hw hk => hI.entry_for hm hw hk⟩
  rcases due_of_run hQ h m hm hg with ⟨b, self, hb, -⟩ | hall
  · rw [hblocks] at hb
    cases hb
  · exact WriteQueue.mem_landed_of_rest hrest (hall id hid hne)

/-- The members are fetched, then a message is sent to the group. -/
def announcing : List Event :=
  [.openChat "a" "g", .roomMemberFetched "a" 0 (some 0), .finishEditing "a" 0 "hi" "1",
    .runBlock "a" 0, .land "a", .land "a", .land "a", .land "a", .land "a"]

theorem notices_delivered_announcing :
    ∃ w, EventRun.run (World.step duo) start announcing = some w ∧
      Notified duo w ⟨"a", "g", true, "1", ["hi", "a", "false"]⟩ := by
  obtain ⟨w, hw⟩ := Option.isSome_iff_exists.1
    (by decide : (EventRun.run (World.step duo) start announcing).isSome)
  have hend : ∀ w, EventRun.run (World.step duo) start announcing = some w →
      ⟨"a", "g", true, "1", ["hi", "a", "false"]⟩ ∈ w.sent ∧ w.net.pending "a" = [] ∧
        (w.device "a").blocks.length = 0 := by decide
  have hfetched : ∀ w, EventRun.run (World.step duo) start (announcing.take 3) = some w →
      (w.device "a").instances.map (fun self => (self.roomMember, self.chatWithId)) =
        [(["a", "b"], "g")] := by decide
  obtain ⟨hmem, hpending⟩ := hend w hw
  obtain ⟨hrest, hblocks⟩ :=
    @rest_of_clients _ _ ["a"] _ (by decide) hw (by simpa using hpending)
  refine ⟨w, hw, notices_delivered hw ?_ hblocks hrest _ hmem rfl⟩
  show EventRun.Meets _ _ _
    ([] ++ [_] ++ [_] ++ [_] ++ [_] ++ [_] ++ [_] ++ [_] ++ [_] ++ [_])
  refine .snoc _ (.snoc _ (.snoc _ (.snoc _ (.snoc _ (.snoc _ (.snoc _ (.snoc _ (.snoc _
    (EventRun.meets_nil _ _ _) ?_) ?_) ?_) ?_) ?_) ?_) ?_) ?_) ?_
  case refine_4 =>
    intro m hm i b self _ hi
    have hself := List.mem_map_of_mem (f := fun self : ChatViewController =>
      (self.roomMember, self.chatWithId)) (List.mem_of_getElem? hi)
    rw [hfetched m hm, List.mem_singleton] at hself
    obtain ⟨hr, hc⟩ := Prod.mk.inj hself
    exact .inl hr
  all_goals exact fun _ _ => trivial

/-- The message is sent, and its block runs, before the members are fetched: nobody is notified. -/
theorem not_notices_always_delivered :
    ¬ ∀ (S : Setup) es w, EventRun.run (World.step S) start es = some w →
      (∀ c, (w.device c).blocks = []) → w.net.Rest →
      ∀ m ∈ w.sent, m.isGroup = true → Notified S w m := by
  intro h
  have hrun : (EventRun.run (World.step duo) start
      [.openChat "a" "g", .finishEditing "a" 0 "hi" "1", .runBlock "a" 0, .land "a", .land "a",
        .land "a", .land "a"]).isSome := by decide
  obtain ⟨w, hw⟩ := Option.isSome_iff_exists.1 hrun
  have hend : ∀ w, EventRun.run (World.step duo) start
      [.openChat "a" "g", .finishEditing "a" 0 "hi" "1", .runBlock "a" 0, .land "a", .land "a",
        .land "a", .land "a"] = some w →
      ⟨"a", "g", true, "1", ["hi", "a", "false"]⟩ ∈ w.sent ∧
      (⟨"a", "g", true, "1", ["hi", "a", "false"]⟩ : Message).notice "b" ∉ w.net.landed ∧
      w.net.pending "a" = [] ∧ (w.device "a").blocks.length = 0 := by decide
  obtain ⟨hmem, hnot, hpending⟩ := hend w hw
  obtain ⟨hrest, hblocks⟩ :=
    @rest_of_clients _ _ ["a"] _ (by decide) hw (by simpa using hpending)
  exact hnot ((h duo _ w hw hblocks hrest _ hmem rfl).1 "b" (by decide) (by decide))

end World

end MessageApp
