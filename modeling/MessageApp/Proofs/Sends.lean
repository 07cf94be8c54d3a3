import MessageApp.Proofs.VoiceSteps

/-!
# Texts and voice messages do not mix

A send sends one message and leaves its instance as it was (`step_of_sends`); no other event of the
screen writes anything (`step_of_sends_none`). A block on the main queue is that of a message sent
to a group (`queued_of_run`), so what a block writes are notices of that message.
-/

namespace MessageApp

namespace Message

/-- The block that a message to a group leaves on the main queue, with its instance. -/
def queued (m : Message) (i : ℕ) : List (ℕ × Block) :=
  if m.isGroup then [(i, ⟨m.doc, m.sender⟩)] else []

theorem eq_of_mem_queued {m : Message} {i : ℕ} {ib : ℕ × Block} (h : ib ∈ m.queued i) :
    m.isGroup = true ∧ ib = (i, ⟨m.doc, m.sender⟩) := by
  unfold queued at h
  split_ifs at h with hg
  · exact ⟨hg, List.mem_singleton.1 h⟩
  · cases h

end Message

namespace Voices

open ChatViewController

variable {α : Type} (S : Storage)

/-- The message that an event sends, and the instance that sends it. -/
def sends (v : Voices α) : Event α → Option (ℕ × Message)
  | .finishEditing i text t => do
    let self ← v.device.instances[i]?
    let myUser ← v.device.currentUser
    if text ≠ "" then
      some (i, ⟨myUser.uid, self.chatWithId, self.chatisGroupChat, t,
        [text, myUser.uid, "false"]⟩)
    else none
  | .downloadURLCompleted k failed t => do
    let f ← v.fetches[k]?
    let self ← v.device.instances[f.i]?
    let myUser ← v.device.currentUser
    some (f.i, ⟨myUser.uid, self.chatWithId, self.chatisGroupChat, t,
      [(fetchedURL S f failed).getD "", myUser.uid, "true"]⟩)
  | _ => none

variable {S} {v v' : Voices α} {ws : List Write} {es : List (Event α)} {e : Event α}

theorem afterSend_of_idle {self : ChatViewController} {i : ℕ} (hself : self.Idle)
    (hi : v.device.instances[i]? = some self) (content uid flag t : String) {m : Message}
    (hm : m = ⟨uid, self.chatWithId, self.chatisGroupChat, t, [content, uid, flag]⟩) :
    v.afterSend i (self.send content uid flag t) =
      ({ v with device := { v.device with blocks := v.device.blocks ++ m.queued i } },
        m.writes) := by
  obtain ⟨hlt, rfl⟩ := List.getElem?_eq_some_iff.1 hi
  rw [send_of_idle hself.1 hself.2 content uid flag t m hm]
  unfold afterSend Device.afterSend Message.queued
  simp only [List.set_getElem_self]
  split_ifs <;> rfl

/-- A send writes its message, and nothing is left of it in its instance. -/
theorem step_of_sends (hv : v.device.Settled) {i : ℕ} {m : Message}
    (h : v.sends S e = some (i, m)) :
    ∃ v', v.step S e = some (v', m.writes) ∧ v'.device =
      { v.device with blocks := v.device.blocks ++ m.queued i } ∧
      ∃ self, v.device.instances[i]? = some self ∧ self.chatWithId = m.chat := by
  cases e with
  | finishEditing i' text t =>
    obtain ⟨self, hi, h⟩ := Option.bind_eq_some_iff.1 h
    obtain ⟨myUser, hu, h⟩ := Option.bind_eq_some_iff.1 h
    split_ifs at h with htext
    obtain ⟨rfl, hm⟩ := Prod.mk.inj (Option.some.inj h)
    have hself := (hv self (List.mem_of_getElem? hi)).2
    have hsend : self.finishEditingStatements v.device.currentUser text t =
        some (self.send text myUser.uid "false" t) := by
      rw [finishEditingStatements_eq, hu]
      simp [ChatViewController.finishEditing, htext]
    refine ⟨{ v with device := { v.device with blocks := v.device.blocks ++ m.queued i' } }, ?_,
      rfl, self, hi, by rw [← hm]⟩
    simp only [step, hi, hsend, Option.bind_eq_bind, Option.bind_some]
    rw [afterSend_of_idle hself hi text myUser.uid "false" t hm.symm]
  | downloadURLCompleted k failed t =>
    obtain ⟨f, hk, h⟩ := Option.bind_eq_some_iff.1 h
    obtain ⟨self, hi, h⟩ := Option.bind_eq_some_iff.1 h
    obtain ⟨myUser, hu, h⟩ := Option.bind_eq_some_iff.1 h
    obtain ⟨rfl, hm⟩ := Prod.mk.inj (Option.some.inj h)
    have hself := (hv self (List.mem_of_getElem? hi)).2
    have hsend : self.downloadURLStatements v.device.currentUser (fetchedURL S f failed) t =
        some (self.send ((fetchedURL S f failed).getD "") myUser.uid "true" t) := by
      rw [downloadURLStatements_eq, hu]
      rfl
    refine ⟨{ v with
      fetches := v.fetches.eraseIdx k
      device := { v.device with blocks := v.device.blocks ++ m.queued f.i } }, ?_, rfl, self, hi,
      by rw [← hm]⟩
    simp only [step, hk, hi, hsend, Option.bind_eq_bind, Option.bind_some]
    rw [afterSend_of_idle (v := { v with fetches := v.fetches.eraseIdx k }) hself hi _ myUser.uid
      "true" t hm.symm]
  | _ => cases h

/-- An event that sends nothing is one of the rest of the process, or writes nothing. -/
theorem step_of_sends_none (hv : v.device.Settled) (hs : v.sends S e = none)
    (h : v.step S e = some (v', ws)) :
    (∃ de, e = .device de ∧ de.isSend = false ∧ v.device.step de = some (v'.device, ws)) ∨
      v'.device = v.device ∧ ws = [] := by
  cases e with
  | device e =>
    obtain ⟨he, d, hd, rfl⟩ := step_ofDevice h
    exact .inl ⟨e, rfl, he, hd⟩
  | finishEditing i text t =>
    obtain ⟨self, hi, h⟩ := Option.bind_eq_some_iff.1 h
    obtain ⟨r, hr, h⟩ := Option.bind_eq_some_iff.1 h
    rw [finishEditingStatements_eq, ChatViewController.finishEditing] at hr
    simp only [sends, hi, Option.bind_eq_bind, Option.bind_some] at hs
    split_ifs at hr with htext
    · obtain ⟨myUser, hu, rfl⟩ := Option.map_eq_some_iff.1 hr
      simp [hu, htext] at hs
    · obtain rfl := Option.some.inj hr
      obtain ⟨rfl, rfl⟩ := Prod.mk.inj (Option.some.inj h)
      obtain ⟨hlt, rfl⟩ := List.getElem?_eq_some_iff.1 hi
      simp [Device.afterSend]
  | downloadURLCompleted k failed t =>
    obtain ⟨f, hk, h⟩ := Option.bind_eq_some_iff.1 h
    obtain ⟨self, hi, h⟩ := Option.bind_eq_some_iff.1 h
    obtain ⟨r, hr, h⟩ := Option.bind_eq_some_iff.1 h
    rw [downloadURLStatements_eq] at hr
    obtain ⟨myUser, hu, rfl⟩ := Option.map_eq_some_iff.1 hr
    simp [sends, hk, hi, hu] at hs
  | _ => exact .inr (step_quiet hv rfl h)

/-! ## Where a block comes from -/

variable (S) in
/-- An event of the run sent the message. -/
def Sent (es : List (Event α)) (i : ℕ) (m : Message) : Prop :=
  ∃ pre e post v, es = pre ++ e :: post ∧ EventRun.run (next S) {} pre = some v ∧
    v.sends S e = some (i, m)

theorem Sent.snoc {i : ℕ} {m : Message} (h : Sent S es i m) (e : Event α) :
    Sent S (es ++ [e]) i m := by
  obtain ⟨pre, e', post, v, rfl, hv, hm⟩ := h
  exact ⟨pre, e', post ++ [e], v, by simp, hv, hm⟩

theorem Sent.last {i : ℕ} {m : Message} (hv : EventRun.run (next S) {} es = some v)
    (h : v.sends S e = some (i, m)) : Sent S (es ++ [e]) i m :=
  ⟨es, e, [], v, rfl, hv, h⟩

variable (S) in
/-- Every block is that of a message sent to a group, on an instance of that group's chat. -/
def Queued (es : List (Event α)) (v : Voices α) : Prop :=
  ∀ ib ∈ v.device.blocks, ∃ m, Sent S es ib.1 m ∧ ib ∈ m.queued ib.1 ∧
    v.device.HasChat ib.1 m.chat

theorem Queued.step (hI : Queued S es v) (hv : EventRun.run (next S) {} es = some v)
    (h : v.step S e = some (v', ws)) : Queued S (es ++ [e]) v' := by
  have hset := settled_of_run hv
  have hold : ∀ ib ∈ v.device.blocks, ∃ m, Sent S (es ++ [e]) ib.1 m ∧ ib ∈ m.queued ib.1 ∧
      v'.device.HasChat ib.1 m.chat := by
    intro ib hib
    obtain ⟨m, hm, hq, hc⟩ := hI ib hib
    exact ⟨m, hm.snoc e, hq, step_hasChat hset h hc⟩
  cases hs : v.sends S e with
  | none =>
    rcases step_of_sends_none hset hs h with ⟨de, -, hde, hd⟩ | ⟨hd, -⟩
    · exact fun ib hib => hold ib (Device.mem_blocks_of_step hde hd ib hib)
    · exact fun ib hib => hold ib (hd ▸ hib)
  | some im =>
    obtain ⟨i, m⟩ := im
    obtain ⟨v'', hstep, hd, self, hi, hc⟩ := step_of_sends hset hs
    rw [h] at hstep
    obtain ⟨rfl, -⟩ := Prod.mk.inj (Option.some.inj hstep)
    intro ib hib
    rw [hd] at hib
    rcases List.mem_append.1 hib with hib | hib
    · exact hold ib hib
    · obtain ⟨-, rfl⟩ := Message.eq_of_mem_queued hib
      exact ⟨m, .last hv hs, hib, step_hasChat hset h ⟨self, hi, hc⟩⟩

theorem queued_of_run (h : EventRun.run (next S) {} es = some v) : Queued S es v := by
  refine inv_of_run (I := Queued S) ?_ (fun hm hI hs => hI.step hm hs) h
  exact fun ib hib => nomatch hib

/-- Wherever a run leads, no instance has a message half sent. A send writes one message's entry
to its documents, and queues one block with it in a group; a block writes the entry of a message
that was sent to its group, to every other member; no other event of the screen writes. The
statements of the two sends do the same, up to the flag. -/
theorem sends_do_not_mix (h : EventRun.run (next S) {} es = some v) :
    (∀ self ∈ v.device.instances, self.sarray = [] ∧ self.timestamp = []) ∧
    (∀ e i m, v.sends S e = some (i, m) → ∃ v', v.step S e = some (v', m.writes) ∧
      v'.device.instances = v.device.instances ∧
      v'.device.blocks = v.device.blocks ++ m.queued i) ∧
    (∀ j v' ws, v.step S (.device (.runBlock j)) = some (v', ws) →
      ∃ i m self, Sent S es i m ∧ m.isGroup = true ∧
        v.device.blocks[j]? = some (i, ⟨m.doc, m.sender⟩) ∧
        v.device.instances[i]? = some self ∧ self.chatWithId = m.chat ∧
        ws = (self.roomMember.filter (· ≠ m.sender)).map m.notice) ∧
    (∀ e v' ws, v.sends S e = none → (∀ de, e ≠ .device de) → v.step S e = some (v', ws) →
      v'.device = v.device ∧ ws = []) ∧
    ∀ (self : ChatViewController) (myUser : User) (content t : String), content ≠ "" →
      self.finishEditingStatements (some myUser) content t =
        some (self.send content myUser.uid "false" t) ∧
      self.downloadURLStatements (some myUser) (some content) t =
        some (self.send content myUser.uid "true" t) := by
  have hv := settled_of_run h
  refine ⟨fun self hself => (hv self hself).2, fun e i m hm => ?_, fun j v' ws hs => ?_,
    fun e v' ws hm he hs => ?_, fun self myUser content t hc => ⟨?_, ?_⟩⟩
  · obtain ⟨v', hs, hd, -⟩ := step_of_sends hv hm
    exact ⟨v', hs, by rw [hd], by rw [hd]⟩
  · obtain ⟨-, d, hd, rfl⟩ := step_ofDevice hs
    obtain ⟨i, b, self, hj, hi, -, rfl⟩ := Device.step_runBlock hd
    obtain ⟨m, hm, hq, self', hi', hc⟩ := queued_of_run h (i, b) (List.mem_of_getElem? hj)
    obtain ⟨hg, hb⟩ := Message.eq_of_mem_queued hq
    obtain rfl : self' = self := Option.some.inj (hi'.symm.trans hi)
    obtain rfl : b = ⟨m.doc, m.sender⟩ := (Prod.mk.inj hb).2
    refine ⟨i, m, self', hm, hg, hj, hi, hc, ?_⟩
    rw [Block.run, hc]
    rfl
  · rcases step_of_sends_none hv hm hs with ⟨de, rfl, -⟩ | hnone
    · exact absurd rfl (he de)
    · exact hnone
  · rw [finishEditingStatements_eq, ChatViewController.finishEditing, if_pos hc, Option.map_some]
  · rw [downloadURLStatements_eq, ChatViewController.voiceCompletion, Option.map_some,
      Option.getD_some]

/-- Storage whose URLs are the paths, and for which only the empty string is no URL. -/
def bucket : Storage where
  downloadURL ref :=
    "https://Audio/" ++ ref.uid ++ "/" ++ ref.chatWithId ++ "/" ++ ref.date ++ ".m4a"
  isURL string := string != ""
  not_isURL_empty := rfl
  isURL_downloadURL ref := by simp

/-- In the group `g`, `a` sends a text while a recording is uploaded, and leaves the screen. -/
def oneOfEach : List (Event ℕ) :=
  [.device (.signIn { uid := "a" }), .device (.openChat "g" true),
    .device (.roomMemberFetched 0 (some (.ofList [("RoomMember", Value.ofStrings ["a", "b"])]))),
    .began 0 "1" (.records 7), .ended 0 true, .putDataCompleted 0 false,
    .finishEditing 0 "hi" "2", .viewWillDisappear 0]

/-- The message with the recording of `oneOfEach`. -/
def oneRecording : Message where
  sender := "a"
  chat := "g"
  isGroup := true
  t := "3"
  record := ["https://Audio/a/g/1.m4a", "a", "true"]

theorem sends_do_not_mix_oneOfEach : ∃ v v', EventRun.run (next bucket) {} oneOfEach = some v ∧
    v.step bucket (.downloadURLCompleted 0 false "3") = some (v', oneRecording.writes) ∧
    v'.device.blocks = v.device.blocks ++ oneRecording.queued 0 := by
  obtain ⟨v, hv⟩ := Option.isSome_iff_exists.1
    (by decide : (EventRun.run (next bucket) {} oneOfEach).isSome)
  have hm : v.sends bucket (.downloadURLCompleted 0 false "3") = some (0, oneRecording) :=
    (by decide : ∀ v, EventRun.run (next bucket) {} oneOfEach = some v →
      v.sends bucket (.downloadURLCompleted 0 false "3") = some (0, oneRecording)) v hv
  obtain ⟨v', hs, -, hb⟩ := (sends_do_not_mix hv).2.1 _ 0 oneRecording hm
  exact ⟨v, v', hv, hs, hb⟩

end Voices

end MessageApp
