import MessageApp.Proofs.Sends

/-!
# Whose recording, and which

Where a voice message goes, and who its sender is, is read from the account signed in when the
fetch of its URL completes, not from the one that recorded it (`sentAsRecorder_step_iff`). What is
uploaded when a press ends is the file of the instance's recorder, which an earlier press created
if the press could not create its own (`ownAudio_ended_iff`); and a failed fetch is sent as a
recording whose URL is the empty string (`ownAudio_downloadURLCompleted_iff`).
-/

namespace MessageApp

namespace Voices

open ChatViewController

variable {α : Type} (S : Storage)

/-! ## The sender -/

/-- The write adds one record of `uid` to the conversation `uid` has there, to the other copy of
it, or to an unread buffer of someone else for it. -/
def PostsAs (uid chat : String) (isGroup : Bool) : Write → Prop
  | .setData p data true =>
    (∃ t content flag, data = .ofDict (.insert ∅ t [content, uid, flag])) ∧
      (p = .conversation uid chat ∨
        if isGroup then p = .groupConversation chat ∨ ∃ id, id ≠ uid ∧ p = .chatBuffer id chat
        else p = .conversation chat uid ∨ p = .buffer chat)
  | _ => False

/-- The upload whose fetch the event completes. -/
def fetched (v : Voices α) : Event α → Option (Upload α)
  | .downloadURLCompleted k _ _ => v.fetches[k]?
  | _ => none

/-- When the fetch of a recording's URL completes, nothing traps, and what is written then, and by
the block that is queued then, is written as the account that recorded it. -/
def SentAsRecorder (_ : List (Event α)) (v : Voices α) (e : Event α) : Prop :=
  ∀ f ∈ v.fetched e, ∃ self v' ws queued, v.device.instances[f.i]? = some self ∧
    self.chatWithId = f.uploadRef.chatWithId ∧ v.step S e = some (v', ws) ∧
    v'.device.blocks = v.device.blocks ++ queued ∧
    (∀ wr ∈ ws, PostsAs f.uploadRef.uid self.chatWithId self.chatisGroupChat wr) ∧
    ∀ ib ∈ queued, ib.1 = f.i ∧ ∀ self' : ChatViewController, self'.chatWithId = self.chatWithId →
      ∀ wr ∈ ib.2.run self', PostsAs f.uploadRef.uid self.chatWithId self.chatisGroupChat wr

/-- The account that recorded is signed in when the fetch completes. -/
def SameUser (_ : List (Event α)) (v : Voices α) (e : Event α) : Prop :=
  ∀ f ∈ v.fetched e, v.device.currentUser.map User.uid = some f.uploadRef.uid

variable {S} {v v' : Voices α} {ws : List Write} {es : List (Event α)} {e : Event α}

theorem postsAs_writes {m : Message} {content flag : String}
    (hm : m.record = [content, m.sender, flag]) {wr : Write} (h : wr ∈ m.writes) :
    PostsAs m.sender m.chat m.isGroup wr := by
  have hdoc : ∃ t content flag, m.doc = .ofDict (.insert ∅ t [content, m.sender, flag]) :=
    ⟨m.t, content, flag, by rw [Message.doc, hm]⟩
  unfold Message.writes at h
  split_ifs at h with hg
  · simp only [List.mem_cons, List.not_mem_nil, or_false] at h
    rcases h with rfl | rfl
    · exact ⟨hdoc, .inl rfl⟩
    · exact ⟨hdoc, .inr (by simp [hg])⟩
  · simp only [List.mem_cons, List.not_mem_nil, or_false] at h
    rcases h with rfl | rfl | rfl
    · exact ⟨hdoc, .inr (by simp [hg])⟩
    · exact ⟨hdoc, .inl rfl⟩
    · exact ⟨hdoc, .inr (by simp [hg])⟩

theorem postsAs_run {m : Message} {content flag : String} {i : ℕ} {ib : ℕ × Block}
    (hm : m.record = [content, m.sender, flag]) (hib : ib ∈ m.queued i)
    {self : ChatViewController} (hself : self.chatWithId = m.chat) {wr : Write}
    (h : wr ∈ ib.2.run self) : PostsAs m.sender m.chat m.isGroup wr := by
  obtain ⟨hg, rfl⟩ := Message.eq_of_mem_queued hib
  obtain ⟨id, hid, rfl⟩ := List.mem_map.1 h
  have hne : id ≠ m.sender := by simpa using (List.mem_filter.1 hid).2
  refine ⟨⟨m.t, content, flag, by rw [Message.doc, hm]⟩, .inr ?_⟩
  rw [if_pos hg, hself]
  exact .inr ⟨id, hne, rfl⟩

theorem own_mem_writes (m : Message) :
    Write.setData (.conversation m.sender m.chat) m.doc true ∈ m.writes := by
  unfold Message.writes
  split_ifs <;> simp

/-- Only its sender's writes put a message in its sender's copy. -/
theorem sender_of_postsAs {m : Message} {uid : String}
    (h : ∀ wr ∈ m.writes, PostsAs uid m.chat m.isGroup wr) : m.sender = uid := by
  obtain ⟨-, hp | hp⟩ := h _ (own_mem_writes m)
  · exact (DocPath.conversation.inj hp).1
  · split_ifs at hp
    · rcases hp with hp | ⟨id, -, hp⟩ <;> cases hp
    · rcases hp with hp | hp
      · obtain ⟨hs, hc⟩ := DocPath.conversation.inj hp
        exact hs.trans hc
      · cases hp

/-- The message that a completed fetch sends. -/
def recordingOf (S : Storage) (self : ChatViewController) (myUser : User) (f : Upload α)
    (failed : Bool) (t : String) : Message where
  sender := myUser.uid
  chat := self.chatWithId
  isGroup := self.chatisGroupChat
  t := t
  record := [(fetchedURL S f failed).getD "", myUser.uid, "true"]

theorem sends_recordingOf {k : ℕ} {f : Upload α} {self : ChatViewController} {myUser : User}
    (hk : v.fetches[k]? = some f) (hi : v.device.instances[f.i]? = some self)
    (hu : v.device.currentUser = some myUser) (failed : Bool) (t : String) :
    v.sends S (.downloadURLCompleted k failed t) =
      some (f.i, recordingOf S self myUser f failed t) := by
  simp [sends, hk, hi, hu, recordingOf]

/-- A fetch that completes without a trap finds somebody signed in. -/
theorem exists_currentUser_of_step {k : ℕ} {failed : Bool} {t : String}
    (h : v.step S (.downloadURLCompleted k failed t) = some (v', ws)) :
    ∃ myUser, v.device.currentUser = some myUser := by
  obtain ⟨f, d, -, hd, -⟩ := step_downloadURLCompleted h
  obtain ⟨self, r, -, hr, -⟩ := Device.step_voiceCompletion hd
  obtain ⟨myUser, hu, -⟩ := Option.map_eq_some_iff.1 hr
  exact ⟨myUser, hu⟩

theorem sentAsRecorder_step_iff (hv : v.device.Settled) (hp : v.Placed) :
    SentAsRecorder S es v e ↔ SameUser es v e := by
  refine forall₂_congr fun f hf => ?_
  cases e with
  | downloadURLCompleted k failed t =>
    have hk : v.fetches[k]? = some f := hf
    obtain ⟨self, hi, hc⟩ := hp.2 f (List.mem_of_getElem? hk)
    constructor
    · rintro ⟨self', v', ws, queued, hi', -, hs, -, hws, -⟩
      obtain rfl : self = self' := Option.some.inj (hi.symm.trans hi')
      obtain ⟨myUser, hu⟩ := exists_currentUser_of_step hs
      obtain ⟨v'', hs', -⟩ := step_of_sends hv (sends_recordingOf (S := S) hk hi hu failed t)
      rw [hs] at hs'
      obtain ⟨-, rfl⟩ := Prod.mk.inj (Option.some.inj hs')
      rw [hu, Option.map_some, ← sender_of_postsAs hws]
      rfl
    · intro huser
      obtain ⟨myUser, hu, huid⟩ := Option.map_eq_some_iff.1 huser
      obtain ⟨v', hs, hd, -⟩ := step_of_sends hv (sends_recordingOf (S := S) hk hi hu failed t)
      have hrec : (recordingOf S self myUser f failed t).record =
        [(fetchedURL S f failed).getD "", (recordingOf S self myUser f failed t).sender, "true"] :=
        rfl
      refine ⟨self, v', _, _, hi, hc, hs, by rw [hd], fun wr hwr => ?_, fun ib hib => ⟨?_, ?_⟩⟩
      · exact huid ▸ postsAs_writes hrec hwr
      · rw [(Message.eq_of_mem_queued hib).2]
      · exact fun self' hself' wr hwr => huid ▸ postsAs_run hrec hib hself' hwr
  | _ => cases hf

/-- In a run every recording is sent as the account that recorded it, without a trap, if and only
if that account is signed in whenever the fetch of the recording's URL completes. -/
theorem sent_as_recorder_iff (S : Storage) (es : List (Event α)) :
    EventRun.Meets (next S) (SentAsRecorder S) {} es ↔ EventRun.Meets (next S) SameUser {} es :=
  EventRun.meets_iff_of_run (next S) fun _ _ _ hm =>
    sentAsRecorder_step_iff (settled_of_run hm) (placed_of_run hm)

instance (es : List (Event α)) (v : Voices α) (e : Event α) : Decidable (SameUser es v e) :=
  inferInstanceAs (Decidable (∀ f ∈ v.fetched e, v.device.currentUser.map User.uid = _))

/-- `a` records a message to `b` and signs out; `c` signs in before the fetch completes. -/
def signedInMeanwhile : List (Event ℕ) :=
  [.device (.signIn { uid := "a" }), .device (.openChat "b" false), .began 0 "1" (.records 7),
    .ended 0 true, .putDataCompleted 0 false, .device .signoutClick,
    .device (.signIn { uid := "c" })]

theorem not_sent_as_recorder_always :
    ¬ ∀ es : List (Event ℕ), EventRun.Meets (next bucket) (SentAsRecorder bucket) {} es := by
  intro hall
  obtain ⟨v, hv⟩ := Option.isSome_iff_exists.1
    (by decide : (EventRun.run (next bucket) {} signedInMeanwhile).isSome)
  have hsent := (hall (signedInMeanwhile ++ [.downloadURLCompleted 0 false "2"])).last _ hv
  exact (by decide : ∀ v, EventRun.run (next bucket) {} signedInMeanwhile = some v →
    ¬ SameUser signedInMeanwhile v (.downloadURLCompleted 0 false "2")) v hv
      ((sentAsRecorder_step_iff (settled_of_run hv) (placed_of_run hv)).1 hsent)

/-! ## The audio -/

/-- How the instance's last press began. -/
def lastBegan (i : ℕ) (es : List (Event α)) : Option (Outcome α) :=
  es.foldl (fun last e => match e with
    | .began j _ outcome => if j = i then some outcome else last
    | _ => last) none

/-- Every voice record in the document holds the URL of the upload, and the audio button on it
finds a URL. -/
def Plays (S : Storage) (ref : StoragePath) (data : Doc) : Prop :=
  ∀ t content uid : String, data[t]? = some (Value.ofStrings [content, uid, "true"]) →
    content = S.downloadURL ref ∧ (audioButtonClicked S (some content)).isSome

/-- When a press ends there is a recorder, and what is uploaded is what the press recorded; when a
fetch completes, what is written then, and by the block that is queued then, plays. -/
def OwnAudio (S : Storage) (es : List (Event α)) (v : Voices α) : Event α → Prop
  | .ended i readable => v.pressing = some i →
    (v.recorder i).soundRecorder.isSome ∧
      ∀ v' ws uploads, v.step S (.ended i readable) = some (v', ws) →
        v'.uploads = v.uploads ++ uploads → ∀ u ∈ uploads, lastBegan i es = some (.records u.data)
  | .downloadURLCompleted k failed t => ∀ f v' ws queued, v.fetches[k]? = some f →
    v.step S (.downloadURLCompleted k failed t) = some (v', ws) →
    v'.device.blocks = v.device.blocks ++ queued →
      (∀ p data merge, .setData p data merge ∈ ws → Plays S f.uploadRef data) ∧
        ∀ ib ∈ queued, Plays S f.uploadRef ib.2.bufferdata
  | _ => True

/-- A press that ends had begun to record, or there is an earlier press's recorder and nothing can
be uploaded; a fetch succeeds, or nobody is signed in. -/
def Recorded (es : List (Event α)) (v : Voices α) : Event α → Prop
  | .ended i readable => v.pressing = some i →
    (∃ a, lastBegan i es = some (.records a)) ∨
      ∃ url, (v.recorder i).soundRecorder = some url ∧
        (readable = false ∨ v.files[url]? = none ∨ v.device.currentUser = none)
  | .downloadURLCompleted k failed _ => v.fetches[k]?.isSome →
    failed = false ∨ v.device.currentUser = none
  | _ => True

theorem lastBegan_snoc_began (i : ℕ) (es : List (Event α)) (date : String)
    (outcome : Outcome α) : lastBegan i (es ++ [.began i date outcome]) = some outcome := by
  simp [lastBegan]

theorem lastBegan_snoc (he : ∀ i date outcome, e ≠ .began i date outcome) (i : ℕ)
    (es : List (Event α)) : lastBegan i (es ++ [e]) = lastBegan i es := by
  unfold lastBegan
  rw [List.foldl_append]
  cases e with
  | began j date outcome => exact absurd rfl (he j date outcome)
  | _ => rfl

/-- While a press lasts, its instance has a date and, if the press records, the recorder of the
file it records to. -/
structure Pressed (es : List (Event α)) (v : Voices α) : Prop where
  chat : ∀ i, v.pressing = some i → ∃ chat, v.device.HasChat i chat
  currentDate : ∀ i, v.pressing = some i → ∃ date, (v.recorder i).currentDate = some date
  records : ∀ i a, v.pressing = some i → lastBegan i es = some (.records a) →
    ∃ url, (v.recorder i).soundRecorder = some url ∧ v.files[url]? = some a

theorem step_press (he : ∀ i date outcome, e ≠ .began i date outcome) (hv : v.device.Settled)
    (h : v.step S e = some (v', ws)) :
    (∀ i, v'.pressing = some i → v.pressing = some i) ∧ v'.recorder = v.recorder ∧
      v'.files = v.files := by
  cases e with
  | device e =>
    obtain ⟨-, d, -, rfl⟩ := step_ofDevice h
    exact ⟨fun _ => id, rfl, rfl⟩
  | finishEditing i text t =>
    obtain ⟨d, -, rfl⟩ := step_finishEditing h
    exact ⟨fun _ => id, rfl, rfl⟩
  | viewWillDisappear i =>
    obtain ⟨rfl, -⟩ := step_viewWillDisappear hv h
    exact ⟨fun _ => id, rfl, rfl⟩
  | began i date outcome => exact absurd rfl (he i date outcome)
  | ended i readable =>
    obtain ⟨-, self, put, -, -, rfl, -⟩ := step_ended h
    exact ⟨fun _ hp => (nomatch hp), rfl, rfl⟩
  | cancelled i =>
    obtain ⟨-, rfl, -⟩ := step_cancelled h
    exact ⟨fun _ hp => (nomatch hp), rfl, rfl⟩
  | putDataCompleted k failed =>
    obtain ⟨upload, -, rfl, -⟩ := step_putDataCompleted h
    exact ⟨fun _ => id, rfl, rfl⟩
  | downloadURLCompleted k failed t =>
    obtain ⟨f, d, -, -, rfl⟩ := step_downloadURLCompleted h
    exact ⟨fun _ => id, rfl, rfl⟩

theorem Pressed.of_began {i : ℕ} {date : String} {outcome : Outcome α}
    (h : v.step S (.began i date outcome) = some (v', ws)) :
    Pressed (es ++ [.began i date outcome]) v' := by
  obtain ⟨-, hlt, rfl, -⟩ := step_began h
  refine ⟨fun j hj => ?_, fun j hj => ?_, fun j a hj ha => ?_⟩
  · obtain rfl := Option.some.inj hj
    exact ⟨_, _, List.getElem?_eq_getElem hlt, rfl⟩
  · obtain rfl := Option.some.inj hj
    refine ⟨date, ?_⟩
    simp only [Function.update_self]
    cases outcome <;> rfl
  · obtain rfl := Option.some.inj hj
    rw [lastBegan_snoc_began, Option.some.injEq] at ha
    subst ha
    exact ⟨date ++ ".m4a", by simp [Recorder.began], by simp [Recorder.began]⟩

theorem Pressed.step (hI : Pressed es v) (hv : v.device.Settled)
    (h : v.step S e = some (v', ws)) : Pressed (es ++ [e]) v' := by
  by_cases he : ∀ i date outcome, e ≠ .began i date outcome
  · obtain ⟨hp, hr, hf⟩ := step_press he hv h
    refine ⟨fun i hi => ?_, fun i hi => ?_, fun i a hi ha => ?_⟩
    · obtain ⟨chat, hc⟩ := hI.chat i (hp i hi)
      exact ⟨chat, step_hasChat hv h hc⟩
    · rw [hr]
      exact hI.currentDate i (hp i hi)
    · rw [lastBegan_snoc he] at ha
      rw [hr, hf]
      exact hI.records i a (hp i hi) ha
  · push Not at he
    obtain ⟨i, date, outcome, rfl⟩ := he
    exact .of_began h

theorem pressed_of_run (h : EventRun.run (next S) {} es = some v) : Pressed es v := by
  refine inv_of_run (I := Pressed) ⟨?_, ?_, ?_⟩ (fun hm hI hs => hI.step (settled_of_run hm) hs) h
  · exact fun i hi => nomatch hi
  · exact fun i hi => nomatch hi
  · exact fun i a hi => nomatch hi

theorem uploads_of_ended {i : ℕ} {readable : Bool} {uploads : List (Upload α)} {u : Upload α}
    (h : v.step S (.ended i readable) = some (v', ws)) (hup : v'.uploads = v.uploads ++ uploads)
    (hu : u ∈ uploads) :
    ∃ url myUser, (v.recorder i).soundRecorder = some url ∧ readable = true ∧
      v.files[url]? = some u.data ∧ v.device.currentUser = some myUser := by
  obtain ⟨-, self, put, -, hput, rfl, -⟩ := step_ended h
  rw [← List.append_cancel_left hup] at hu
  obtain ⟨⟨ref, data⟩, rfl, rfl⟩ := Option.map_eq_some_iff.1 (Option.mem_toList.1 hu)
  obtain ⟨url, myUser, date, hurl, hr, hdata, hmy, -, -⟩ := ended_eq_some hput
  exact ⟨url, myUser, hurl, hr, hdata, hmy⟩

theorem step_ended_of_some {i : ℕ} {url : String} {data : α} {myUser : User}
    (hI : Pressed es v) (hp : v.pressing = some i) (hurl : (v.recorder i).soundRecorder = some url)
    (hdata : v.files[url]? = some data) (hu : v.device.currentUser = some myUser) :
    ∃ v' ref, v.step S (.ended i true) = some (v', []) ∧
      v'.uploads = v.uploads ++ [⟨i, ref, data⟩] := by
  obtain ⟨chat, self, hi, -⟩ := hI.chat i hp
  obtain ⟨date, hdate⟩ := hI.currentDate i hp
  exact ⟨_, ⟨myUser.uid, self.chatWithId, date⟩,
    by simp [step, hp, hi, ended, hurl, hdata, hu, hdate]; rfl, rfl⟩

theorem ownAudio_ended_iff (hI : Pressed es v) (i : ℕ) (readable : Bool) :
    OwnAudio S es v (.ended i readable) ↔ Recorded es v (.ended i readable) := by
  refine imp_congr_right fun hp => ⟨?_, ?_⟩
  · rintro ⟨hrec, hup⟩
    obtain ⟨url, hurl⟩ := Option.isSome_iff_exists.1 hrec
    cases readable with
    | false => exact .inr ⟨url, hurl, .inl rfl⟩
    | true =>
      cases hdata : v.files[url]? with
      | none => exact .inr ⟨url, hurl, .inr (.inl hdata)⟩
      | some data =>
        cases hu : v.device.currentUser with
        | none => exact .inr ⟨url, hurl, .inr (.inr rfl)⟩
        | some myUser =>
          obtain ⟨v', ref, hs, hups⟩ := step_ended_of_some (S := S) hI hp hurl hdata hu
          exact .inl ⟨data, hup v' _ _ hs hups _ (List.mem_singleton_self _)⟩
  · rintro (⟨a, ha⟩ | ⟨url, hurl, hno⟩)
    · obtain ⟨url, hurl, hfile⟩ := hI.records i a hp ha
      refine ⟨by simp [hurl], fun v' ws uploads hs hups u hu => ?_⟩
      obtain ⟨url', -, hurl', -, hdata, -⟩ := uploads_of_ended hs hups hu
      obtain rfl : url = url' := Option.some.inj (hurl.symm.trans hurl')
      obtain rfl : a = u.data := Option.some.inj (hfile.symm.trans hdata)
      exact ha
    · refine ⟨by simp [hurl], fun v' ws uploads hs hups u hu => ?_⟩
      obtain ⟨url', myUser, hurl', hr, hdata, hmy⟩ := uploads_of_ended hs hups hu
      obtain rfl : url = url' := Option.some.inj (hurl.symm.trans hurl')
      rcases hno with rfl | hno | hno
      · cases hr
      · rw [hno] at hdata
        cases hdata
      · rw [hno] at hmy
        cases hmy

/-- A recording's message plays exactly if its fetch succeeded. -/
theorem plays_recordingOf_iff (self : ChatViewController) (myUser : User) (f : Upload α)
    (failed : Bool) (t : String) :
    Plays S f.uploadRef (recordingOf S self myUser f failed t).doc ↔ failed = false := by
  constructor
  · intro hplays
    obtain ⟨-, hclick⟩ := hplays t ((fetchedURL S f failed).getD "") myUser.uid
      (by simp [Message.getElem?_doc, recordingOf])
    cases failed with
    | false => rfl
    | true => simp [audioButtonClicked, fetchedURL, S.not_isURL_empty] at hclick
  · rintro rfl t' content uid ht
    rw [Message.getElem?_doc] at ht
    split_ifs at ht
    have hrec := Value.ofStrings_inj.1 (Option.some.inj ht)
    obtain rfl : S.downloadURL f.uploadRef = content := (List.cons.inj hrec).1
    exact ⟨rfl, by simp [audioButtonClicked, S.isURL_downloadURL]⟩

theorem ownAudio_downloadURLCompleted_iff (hv : v.device.Settled) (hp : v.Placed) (k : ℕ)
    (failed : Bool) (t : String) :
    OwnAudio S es v (.downloadURLCompleted k failed t) ↔
      Recorded es v (.downloadURLCompleted k failed t) := by
  constructor
  · intro hown hk
    obtain ⟨f, hk⟩ := Option.isSome_iff_exists.1 hk
    obtain ⟨self, hi, -⟩ := hp.2 f (List.mem_of_getElem? hk)
    cases hu : v.device.currentUser with
    | none => exact .inr rfl
    | some myUser =>
      obtain ⟨v', hs, hd, -⟩ := step_of_sends hv (sends_recordingOf (S := S) hk hi hu failed t)
      have hws := (hown f v' _ _ hk hs (by rw [hd])).1
      refine .inl ((plays_recordingOf_iff (S := S) self myUser f failed t).1 ?_)
      exact hws (.conversation myUser.uid self.chatWithId) _ true
        (own_mem_writes (recordingOf S self myUser f failed t))
  · intro hrec f v' ws queued hk hs hq
    obtain ⟨self, hi, -⟩ := hp.2 f (List.mem_of_getElem? hk)
    obtain ⟨myUser, hu⟩ := exists_currentUser_of_step hs
    have hfailed : failed = false := by
      rcases hrec (by simp [hk]) with hfailed | hnone
      · exact hfailed
      · rw [hu] at hnone
        cases hnone
    obtain ⟨v'', hs', hd, -⟩ := step_of_sends hv (sends_recordingOf (S := S) hk hi hu failed t)
    rw [hs] at hs'
    obtain ⟨rfl, rfl⟩ := Prod.mk.inj (Option.some.inj hs')
    rw [hd] at hq
    have hplays := (plays_recordingOf_iff (S := S) self myUser f failed t).2 hfailed
    refine ⟨fun p data merge hmem => ?_, fun ib hib => ?_⟩
    · obtain ⟨-, rfl, -⟩ := Write.setData.inj (Message.eq_of_mem_writes hmem)
      exact hplays
    · rw [← List.append_cancel_left hq] at hib
      rw [(Message.eq_of_mem_queued hib).2]
      exact hplays

/-- In a run every recording sent is that of its own press, and every press ends without a trap
for want of a recorder, if and only if every press that ends had begun to record, or uploads
nothing of an earlier one, and no fetch fails. -/
theorem own_audio_iff (S : Storage) (es : List (Event α)) :
    EventRun.Meets (next S) (OwnAudio S) {} es ↔ EventRun.Meets (next S) Recorded {} es := by
  refine EventRun.meets_iff_of_run (next S) fun es v e hm => ?_
  cases e with
  | ended i readable => exact ownAudio_ended_iff (pressed_of_run hm) i readable
  | downloadURLCompleted k failed t =>
    exact ownAudio_downloadURLCompleted_iff (settled_of_run hm) (placed_of_run hm) k failed t
  | _ => exact Iff.rfl

/-- `a` presses the button in the chat with `b`. -/
def press (es : List (Event ℕ)) : List (Event ℕ) :=
  .device (.signIn { uid := "a" }) :: .device (.openChat "b" false) :: es

/-- Without a recorder the press traps when it ends; with an earlier press's recorder that press's
audio is uploaded again; a failed fetch sends a recording that traps the audio button. -/
theorem not_own_audio_always :
    ¬ EventRun.Meets (next bucket) (OwnAudio bucket) {}
      (press [.began 0 "1" .throws] ++ [.ended 0 true]) ∧
    ¬ EventRun.Meets (next bucket) (OwnAudio bucket) {}
      (press [.began 0 "1" (.records 7), .ended 0 true, .began 0 "2" .throws] ++
        [.ended 0 true]) ∧
    ¬ EventRun.Meets (next bucket) (OwnAudio bucket) {}
      (press [.began 0 "1" (.records 7), .ended 0 true, .putDataCompleted 0 false] ++
        [.downloadURLCompleted 0 true "3"]) := by
  refine ⟨fun h => ?_, fun h => ?_, fun h => ?_⟩
  · obtain ⟨v, hv⟩ := Option.isSome_iff_exists.1
      (by decide : (EventRun.run (next bucket) {} (press [.began 0 "1" .throws])).isSome)
    obtain ⟨hp, hnil⟩ : v.pressing = some 0 ∧ (v.recorder 0).soundRecorder = none :=
      (by decide : ∀ v, EventRun.run (next bucket) {} (press [.began 0 "1" .throws]) = some v →
        v.pressing = some 0 ∧ (v.recorder 0).soundRecorder = none) v hv
    have hrec := (h.last _ hv hp).1
    rw [hnil] at hrec
    cases hrec
  · let es := press [.began 0 "1" (.records 7), .ended 0 true, .began 0 "2" .throws]
    obtain ⟨v, hv⟩ := Option.isSome_iff_exists.1
      (by decide : (EventRun.run (next bucket) {} es).isSome)
    obtain ⟨hp, hurl, hdata, hu⟩ :=
      (by decide : ∀ v, EventRun.run (next bucket) {} es = some v →
        v.pressing = some 0 ∧ (v.recorder 0).soundRecorder = some "1.m4a" ∧
          v.files["1.m4a"]? = some 7 ∧ v.device.currentUser.isSome) v hv
    obtain ⟨myUser, hu⟩ := Option.isSome_iff_exists.1 hu
    obtain ⟨v', ref, hs, hups⟩ := step_ended_of_some (pressed_of_run hv) hp hurl hdata hu
    have hown := (h.last _ hv hp).2 v' _ _ hs hups _ (List.mem_singleton_self _)
    cases hown
  · let es := press [.began 0 "1" (.records 7), .ended 0 true, .putDataCompleted 0 false]
    obtain ⟨v, hv⟩ := Option.isSome_iff_exists.1
      (by decide : (EventRun.run (next bucket) {} es).isSome)
    obtain ⟨hk, hu⟩ := (by decide : ∀ v, EventRun.run (next bucket) {} es = some v →
      v.fetches[0]?.isSome ∧ v.device.currentUser.isSome) v hv
    rcases (ownAudio_downloadURLCompleted_iff (settled_of_run hv) (placed_of_run hv) 0 true
      "3").1 (h.last _ hv) hk with hfalse | hnone
    · cases hfalse
    · rw [hnone] at hu
      cases hu

end Voices

end MessageApp
