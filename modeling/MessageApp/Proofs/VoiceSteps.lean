import MessageApp.Voices
import MessageApp.Proofs.Accounts
import MessageApp.Proofs.Clients

/-!
# What one event does to the voice buttons' process

Between events an instance has no message half sent (`settled_of_run`), so leaving its screen
changes nothing, and every event is one of the process or leaves the process alone (`step_device`).
So the process stays where its own runs lead (`reaches_of_run`), and an upload stays with the chat
it was recorded in (`placed_of_run`).
-/

namespace MessageApp

namespace ChatViewController

/-- No message is half sent. -/
def Idle (self : ChatViewController) : Prop := self.sarray = [] ∧ self.timestamp = []

theorem Idle.viewWillDisappear {self : ChatViewController} (h : self.Idle) :
    self.viewWillDisappear = self := by
  obtain ⟨⟩ := self
  obtain ⟨rfl, rfl⟩ := h
  rfl

theorem Idle.of_kept {self self' : ChatViewController} (h : self.Idle) (hk : Kept self self') :
    self'.Idle := by
  rcases hk.scratch with ⟨hs, ht⟩ | hsent
  · exact ⟨hs.trans h.1, ht.trans h.2⟩
  · exact hsent

/-! ## The two sends are one -/

theorem foldl_insert_both {V : Type} (v : V) (l : List String) (a b : Dict V) :
    l.foldl (fun (a, b) element => (a.insert element v, b.insert element v)) (a, b) =
      (l.foldl (fun a element => a.insert element v) a,
        l.foldl (fun b element => b.insert element v) b) := by
  induction l generalizing a b with
  | nil => rfl
  | cons x l ih => exact ih _ _

theorem finishEditingStatements_eq (self : ChatViewController) (currentUser : Option User)
    (text t : String) :
    self.finishEditingStatements currentUser text t = self.finishEditing currentUser text t := by
  unfold finishEditingStatements ChatViewController.finishEditing ChatViewController.send
  cases currentUser with
  | none => simp
  | some myUser =>
    simp only [foldl_insert_both, List.append_assoc, List.cons_append, List.nil_append]
    by_cases hg : self.chatisGroupChat <;> simp [hg]

theorem downloadURLStatements_eq (self : ChatViewController) (currentUser : Option User)
    (url : Option String) (t : String) :
    self.downloadURLStatements currentUser url t = self.voiceCompletion currentUser url t := by
  unfold downloadURLStatements ChatViewController.voiceCompletion ChatViewController.send
  cases currentUser with
  | none => rfl
  | some myUser =>
    simp only [foldl_insert_both, List.append_assoc, List.cons_append, List.nil_append]
    by_cases hg : self.chatisGroupChat <;> cases url <;> simp [hg]

end ChatViewController

namespace Device

open ChatViewController

variable {d d' : Device} {ws : List Write} {e : Event}

/-- Every instance's rows are some rows, and none has a message half sent. -/
def Settled (d : Device) : Prop :=
  ∀ self ∈ d.instances, (∃ rows, self.Holds rows) ∧ self.Idle

theorem Settled.step (hd : d.Settled) (h : d.step e = some (d', ws)) :
    ∀ self ∈ d'.instances, self.Idle := by
  have hold : ∀ self ∈ d.instances, self.Idle := fun self hself => (hd self hself).2
  rcases step_instances (fun self hself => (hd self hself).1) h with
    heq | ⟨a, hs, ht, heq⟩ | ⟨i, a, a', hi, hk, heq⟩
  · exact heq ▸ hold
  · rw [heq]
    intro self hself
    rcases List.mem_append.1 hself with hself | hself
    · exact hold self hself
    · rw [List.mem_singleton.1 hself]
      exact ⟨hs, ht⟩
  · rw [heq]
    intro self hself
    rcases List.mem_or_eq_of_mem_set hself with hself | rfl
    · exact hold self hself
    · exact (hold a (List.mem_of_getElem? hi)).of_kept hk

theorem settled_of_reaches (h : EventRun.Reaches next {} d) : d.Settled := by
  obtain ⟨es, hes⟩ := h
  refine EventRun.run_history (I := fun _ => Settled) next (by simp [Settled]) ?_ hes
  intro es m e t hm hI he self hself
  have ht : EventRun.run next {} (es ++ [e]) = some t := by rwa [EventRun.run_snoc, hm]
  obtain ⟨ws, hs⟩ := exists_step_of_next he
  obtain ⟨i, hi⟩ := List.getElem?_of_mem hself
  obtain ⟨rows, hrows, -⟩ := (rowsFrom_of_run ht i self hi).rows
  exact ⟨⟨rows, hrows⟩, hI.step hs self hself⟩

/-- A block is queued by a send alone. -/
theorem mem_blocks_of_step (he : e.isSend = false) (h : d.step e = some (d', ws)) :
    ∀ b ∈ d'.blocks, b ∈ d.blocks := by
  intro b hb
  rcases step_blocks h with hd | ⟨j, -, hd⟩ | ⟨hsend, -⟩
  · exact hd ▸ hb
  · rw [hd] at hb
    exact List.mem_of_mem_eraseIdx hb
  · rw [he] at hsend
    cases hsend

def HasChat (d : Device) (i : ℕ) (chat : String) : Prop :=
  ∃ self, d.instances[i]? = some self ∧ self.chatWithId = chat

theorem HasChat.step {i : ℕ} {chat : String} (hc : d.HasChat i chat) (hd : d.Settled)
    (h : d.step e = some (d', ws)) : d'.HasChat i chat := by
  obtain ⟨self, hi, rfl⟩ := hc
  exact (step_keeps (fun self hself => (hd self hself).1) h).1 i self hi

end Device

namespace Voices

open ChatViewController

variable {α : Type} {S : Storage} {v v' : Voices α} {ws : List Write}

theorem exists_step_of_next {e : Event α} (h : v.next S e = some v') :
    ∃ ws, v.step S e = some (v', ws) := by
  obtain ⟨⟨_, ws⟩, hs, rfl⟩ := Option.map_eq_some_iff.1 h
  exact ⟨ws, hs⟩

theorem step_ofDevice {e : Device.Event} (h : v.step S (.device e) = some (v', ws)) :
    e.isSend = false ∧ ∃ d, v.device.step e = some (d, ws) ∧ v' = { v with device := d } := by
  simp only [step] at h
  split_ifs at h with he
  obtain ⟨⟨d, ws'⟩, hs, h⟩ := Option.bind_eq_some_iff.1 h
  obtain ⟨rfl, rfl⟩ := Prod.mk.inj (Option.some.inj h)
  exact ⟨by simpa using he, d, hs, rfl⟩

theorem step_finishEditing {i : ℕ} {text t : String}
    (h : v.step S (.finishEditing i text t) = some (v', ws)) :
    ∃ d, v.device.step (.finishEditing i text t) = some (d, ws) ∧ v' = { v with device := d } := by
  obtain ⟨self, hi, h⟩ := Option.bind_eq_some_iff.1 h
  obtain ⟨r, hr, h⟩ := Option.bind_eq_some_iff.1 h
  obtain ⟨rfl, rfl⟩ := Prod.mk.inj (Option.some.inj h)
  rw [finishEditingStatements_eq] at hr
  exact ⟨_, by simp [Device.step, hi, hr], rfl⟩

theorem step_viewWillDisappear (hv : v.device.Settled) {i : ℕ}
    (h : v.step S (.viewWillDisappear i) = some (v', ws)) : v' = v ∧ ws = [] := by
  obtain ⟨self, hi, h⟩ := Option.bind_eq_some_iff.1 h
  obtain ⟨rfl, rfl⟩ := Prod.mk.inj (Option.some.inj h)
  rw [(hv self (List.mem_of_getElem? hi)).2.viewWillDisappear]
  obtain ⟨hlt, rfl⟩ := List.getElem?_eq_some_iff.1 hi
  rw [List.set_getElem_self]
  exact ⟨rfl, rfl⟩

theorem step_began {i : ℕ} {date : String} {outcome : Outcome α}
    (h : v.step S (.began i date outcome) = some (v', ws)) :
    v.pressing = none ∧ i < v.device.instances.length ∧
      v' = { v with
        recorder := Function.update v.recorder i ((v.recorder i).began v.files date outcome).1
        files := ((v.recorder i).began v.files date outcome).2
        pressing := some i } ∧ ws = [] := by
  simp only [step] at h
  split_ifs at h with hp
  obtain ⟨rfl, rfl⟩ := Prod.mk.inj (Option.some.inj h)
  exact ⟨hp.1, hp.2, rfl, rfl⟩

theorem step_ended {i : ℕ} {readable : Bool} (h : v.step S (.ended i readable) = some (v', ws)) :
    v.pressing = some i ∧ ∃ self put, v.device.instances[i]? = some self ∧
      self.ended (v.recorder i) v.device.currentUser v.files readable = some put ∧
      v' = { v with
        pressing := none
        uploads := v.uploads ++ (put.map fun (ref, data) => ⟨i, ref, data⟩).toList } ∧
      ws = [] := by
  simp only [step] at h
  split_ifs at h with hp
  obtain ⟨self, hi, h⟩ := Option.bind_eq_some_iff.1 h
  obtain ⟨put, hput, h⟩ := Option.bind_eq_some_iff.1 h
  obtain ⟨rfl, rfl⟩ := Prod.mk.inj (Option.some.inj h)
  exact ⟨hp, self, put, hi, hput, rfl, rfl⟩

theorem step_cancelled {i : ℕ} (h : v.step S (.cancelled i) = some (v', ws)) :
    v.pressing = some i ∧ v' = { v with pressing := none } ∧ ws = [] := by
  simp only [step] at h
  split_ifs at h with hp
  obtain ⟨rfl, rfl⟩ := Prod.mk.inj (Option.some.inj h)
  exact ⟨hp, rfl, rfl⟩

theorem step_putDataCompleted {k : ℕ} {failed : Bool}
    (h : v.step S (.putDataCompleted k failed) = some (v', ws)) :
    ∃ upload, v.uploads[k]? = some upload ∧
      v' = { v with
        uploads := v.uploads.eraseIdx k
        fetches := v.fetches ++ if failed then [] else [upload] } ∧ ws = [] := by
  obtain ⟨upload, hk, h⟩ := Option.bind_eq_some_iff.1 h
  obtain ⟨rfl, rfl⟩ := Prod.mk.inj (Option.some.inj h)
  exact ⟨upload, hk, rfl, rfl⟩

theorem step_downloadURLCompleted {k : ℕ} {failed : Bool} {t : String}
    (h : v.step S (.downloadURLCompleted k failed t) = some (v', ws)) :
    ∃ f d, v.fetches[k]? = some f ∧
      v.device.step (.voiceCompletion f.i (fetchedURL S f failed) t) = some (d, ws) ∧
      v' = { v with fetches := v.fetches.eraseIdx k, device := d } := by
  obtain ⟨f, hk, h⟩ := Option.bind_eq_some_iff.1 h
  obtain ⟨self, hi, h⟩ := Option.bind_eq_some_iff.1 h
  obtain ⟨r, hr, h⟩ := Option.bind_eq_some_iff.1 h
  obtain ⟨rfl, rfl⟩ := Prod.mk.inj (Option.some.inj h)
  rw [downloadURLStatements_eq] at hr
  exact ⟨f, _, hk, by simp [Device.step, hi, hr], rfl⟩

/-- The event is about the screen or the storage alone. -/
def Event.isQuiet : Event α → Bool
  | .device _ | .finishEditing _ _ _ | .downloadURLCompleted _ _ _ => false
  | _ => true

theorem step_quiet (hv : v.device.Settled) {e : Event α} (he : e.isQuiet)
    (h : v.step S e = some (v', ws)) : v'.device = v.device ∧ ws = [] := by
  cases e with
  | viewWillDisappear i =>
    obtain ⟨rfl, rfl⟩ := step_viewWillDisappear hv h
    exact ⟨rfl, rfl⟩
  | began i date outcome =>
    obtain ⟨-, -, rfl, rfl⟩ := step_began h
    exact ⟨rfl, rfl⟩
  | ended i readable =>
    obtain ⟨-, self, put, -, -, rfl, rfl⟩ := step_ended h
    exact ⟨rfl, rfl⟩
  | cancelled i =>
    obtain ⟨-, rfl, rfl⟩ := step_cancelled h
    exact ⟨rfl, rfl⟩
  | putDataCompleted k failed =>
    obtain ⟨upload, -, rfl, rfl⟩ := step_putDataCompleted h
    exact ⟨rfl, rfl⟩
  | device e => cases he
  | finishEditing i text t => cases he
  | downloadURLCompleted k failed t => cases he

theorem step_device (hv : v.device.Settled) {e : Event α} (h : v.step S e = some (v', ws)) :
    (∃ de, v.device.step de = some (v'.device, ws)) ∨ v'.device = v.device ∧ ws = [] := by
  cases e with
  | device e =>
    obtain ⟨-, d, hd, rfl⟩ := step_ofDevice h
    exact .inl ⟨_, hd⟩
  | finishEditing i text t =>
    obtain ⟨d, hd, rfl⟩ := step_finishEditing h
    exact .inl ⟨_, hd⟩
  | downloadURLCompleted k failed t =>
    obtain ⟨f, d, -, hd, rfl⟩ := step_downloadURLCompleted h
    exact .inl ⟨_, hd⟩
  | _ => exact .inr (step_quiet hv rfl h)

theorem reaches_of_run {es : List (Event α)} (h : EventRun.run (next S) {} es = some v) :
    EventRun.Reaches Device.next {} v.device := by
  have hstep : ∀ (m : Voices α) (e : Event α) (t : Voices α),
      EventRun.Reaches Device.next ({} : Voices α).device m.device → m.next S e = some t →
        EventRun.Reaches Device.next m.device t.device := by
    intro m e t hm he
    obtain ⟨ws, hs⟩ := exists_step_of_next he
    rcases step_device (Device.settled_of_reaches hm) hs with ⟨de, hd⟩ | ⟨hd, -⟩
    · exact .of_step Device.next (e := de) (by simp [Device.next, hd])
    · exact hd ▸ .refl Device.next _
  exact EventRun.reaches_part (next S) hstep h

theorem settled_of_run {es : List (Event α)} (h : EventRun.run (next S) {} es = some v) :
    v.device.Settled :=
  Device.settled_of_reaches (reaches_of_run h)

/-- What holds at the start and is kept by every step holds wherever a run leads. -/
theorem inv_of_run {I : List (Event α) → Voices α → Prop} (h0 : I [] {})
    (hs : ∀ {es v e v' ws}, EventRun.run (next S) {} es = some v → I es v →
      v.step S e = some (v', ws) → I (es ++ [e]) v') {es : List (Event α)}
    (h : EventRun.run (next S) {} es = some v) : I es v := by
  refine EventRun.run_history (next S) h0 ?_ h
  intro es m e t hm hI he
  obtain ⟨ws, hstep⟩ := exists_step_of_next he
  exact hs hm hI hstep

theorem step_hasChat (hv : v.device.Settled) {e : Event α} (h : v.step S e = some (v', ws))
    {i : ℕ} {chat : String} (hc : v.device.HasChat i chat) : v'.device.HasChat i chat := by
  rcases step_device hv h with ⟨de, hd⟩ | ⟨hd, -⟩
  · exact hc.step hv hd
  · exact hd ▸ hc

/-- What is uploaded and what is fetched is of the instance's chat. -/
def Placed (v : Voices α) : Prop :=
  (∀ u ∈ v.uploads, v.device.HasChat u.i u.uploadRef.chatWithId) ∧
    ∀ f ∈ v.fetches, v.device.HasChat f.i f.uploadRef.chatWithId

theorem ended_eq_some {self : ChatViewController} {r : Recorder} {currentUser : Option User}
    {files : Dict α} {readable : Bool} {ref : StoragePath} {data : α}
    (h : self.ended r currentUser files readable = some (some (ref, data))) :
    ∃ url myUser date, r.soundRecorder = some url ∧ readable = true ∧ files[url]? = some data ∧
      currentUser = some myUser ∧ r.currentDate = some date ∧
      ref = ⟨myUser.uid, self.chatWithId, date⟩ := by
  obtain ⟨url, hurl, h⟩ := Option.bind_eq_some_iff.1 h
  split at h
  · cases h
  · rename_i data' hdata
    obtain ⟨myUser, hu, h⟩ := Option.bind_eq_some_iff.1 h
    obtain ⟨date, hdate, h⟩ := Option.bind_eq_some_iff.1 h
    obtain ⟨rfl, rfl⟩ := Prod.mk.inj (Option.some.inj (Option.some.inj h))
    split_ifs at hdata with hr
    exact ⟨url, myUser, date, hurl, hr, hdata, hu, hdate, rfl⟩

theorem Placed.step (hI : v.Placed) (hv : v.device.Settled) {e : Event α}
    (h : v.step S e = some (v', ws)) : v'.Placed := by
  have hu : ∀ u ∈ v.uploads, v'.device.HasChat u.i u.uploadRef.chatWithId :=
    fun u hmem => step_hasChat hv h (hI.1 u hmem)
  have hf : ∀ f ∈ v.fetches, v'.device.HasChat f.i f.uploadRef.chatWithId :=
    fun f hmem => step_hasChat hv h (hI.2 f hmem)
  cases e with
  | device e =>
    obtain ⟨-, d, hd, rfl⟩ := step_ofDevice h
    exact ⟨hu, hf⟩
  | finishEditing i text t =>
    obtain ⟨d, hd, rfl⟩ := step_finishEditing h
    exact ⟨hu, hf⟩
  | viewWillDisappear i =>
    obtain ⟨rfl, -⟩ := step_viewWillDisappear hv h
    exact ⟨hu, hf⟩
  | began i date outcome =>
    obtain ⟨-, -, rfl, -⟩ := step_began h
    exact ⟨hu, hf⟩
  | ended i readable =>
    obtain ⟨-, self, put, hi, hput, rfl, -⟩ := step_ended h
    refine ⟨fun u hmem => ?_, hf⟩
    rcases List.mem_append.1 hmem with hmem | hmem
    · exact hu u hmem
    · obtain ⟨⟨ref, data⟩, rfl, rfl⟩ := Option.map_eq_some_iff.1 (Option.mem_toList.1 hmem)
      obtain ⟨-, myUser, date, -, -, -, -, -, rfl⟩ := ended_eq_some hput
      exact ⟨self, hi, rfl⟩
  | cancelled i =>
    obtain ⟨-, rfl, -⟩ := step_cancelled h
    exact ⟨hu, hf⟩
  | putDataCompleted k failed =>
    obtain ⟨upload, hk, rfl, -⟩ := step_putDataCompleted h
    refine ⟨fun u hmem => hu u (List.mem_of_mem_eraseIdx hmem), fun f hmem => ?_⟩
    rcases List.mem_append.1 hmem with hmem | hmem
    · exact hf f hmem
    · split_ifs at hmem
      · cases hmem
      · rw [List.mem_singleton.1 hmem]
        exact hu upload (List.mem_of_getElem? hk)
  | downloadURLCompleted k failed t =>
    obtain ⟨f, d, -, hd, rfl⟩ := step_downloadURLCompleted h
    exact ⟨hu, fun f hmem => hf f (List.mem_of_mem_eraseIdx hmem)⟩

theorem placed_of_run {es : List (Event α)} (h : EventRun.run (next S) {} es = some v) :
    v.Placed := by
  refine inv_of_run (I := fun _ => Placed) ?_ (fun hm hI hs => hI.step (settled_of_run hm) hs) h
  simp [Placed]

end Voices

end MessageApp
