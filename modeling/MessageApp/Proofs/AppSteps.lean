import MessageApp.App
import MessageApp.Lib.Run
import MessageApp.Proofs.ProcessSteps
import Mathlib.Data.List.Dedup
import Mathlib.Data.String.Basic

/-!
# What one event does to the app

A step lands a write, or one process takes an event, its own or the callback of a snapshot
(`App.step_cases`). So what is kept by every event of a process, of its state and of the writes it
issues, holds in every run (`App.run_rule`): a property of writes, and one of processes, each of
which may speak of what has been encoded so far, as more is encoded later.
-/

namespace MessageApp

theorem mem_collection {path : String → DocPath} {ws : List AppWrite} {d : String × Doc}
    (h : d ∈ collection path ws) : docs ws (path d.1) = some d.2 := by
  unfold collection at h
  obtain ⟨id, -, h⟩ := List.mem_filterMap.1 h
  obtain ⟨doc, hdoc, rfl⟩ := Option.map_eq_some_iff.1 h
  exact hdoc

theorem mem_collection_iff {path : String → DocPath} (hpath : ∀ id, (path id).documentID = id)
    {ws : List AppWrite} {id : String} {doc : Doc} :
    (id, doc) ∈ collection path ws ↔ docs ws (path id) = some doc := by
  refine ⟨mem_collection, fun h => List.mem_filterMap.2 ⟨id, ?_, by rw [h]; rfl⟩⟩
  -- a document that exists has been written
  have hwritten : ∃ x ∈ ws, DocWrite.path x = path id := by
    by_contra hn
    push Not at hn
    rw [docs, DocWrite.replay_of_forall_ne hn] at h
    cases h
  obtain ⟨x, hx, hp⟩ := hwritten
  rw [List.mem_insertionSort, List.mem_dedup]
  refine List.mem_map.2 ⟨x, hx, ?_⟩
  rw [← hpath id, ← hp]
  rfl

/-- The documents of a collection come in the order of their ids, each once. -/
theorem collection_sorted (path : String → DocPath) (ws : List AppWrite) :
    ((collection path ws).map Prod.fst).Pairwise (· < ·) := by
  have hids : ((ws.map fun w => w.path.documentID).dedup.insertionSort (· ≤ ·)).Pairwise
      (· < ·) := by
    have hle := List.pairwise_insertionSort (· ≤ ·) (ws.map fun w => w.path.documentID).dedup
    have hne : ((ws.map fun w => w.path.documentID).dedup.insertionSort (· ≤ ·)).Nodup :=
      (List.perm_insertionSort _ _).nodup_iff.2 (List.nodup_dedup _)
    exact (hle.and hne).imp fun h => lt_of_le_of_ne h.1 h.2
  refine hids.sublist ?_
  simp only [collection]
  generalize (ws.map fun w => w.path.documentID).dedup.insertionSort (· ≤ ·) = ids
  induction ids with
  | nil => exact List.Sublist.refl _
  | cons id ids ih =>
    rw [List.filterMap_cons]
    cases docs ws (path id) with
    | none => exact ih.cons id
    | some doc => exact ih.cons_cons id

/-- What a query's callback shows. -/
inductive Query.Shows (ws : List AppWrite) (p : Process) : Query → Process.Event → Prop
  | friends (uid : String) :
    Shows ws p (.friends uid) (.friendsSnapshot uid (collection (.friends uid) ws))
  | requests (uid : String) : Shows ws p (.requests uid) (.requestSnapshot uid
      ((collection (.friendRequestFrom uid) ws).filter fun d =>
        d.2["Requesting"]? = some (.string "true")))
  | chatBuffer (uid : String) :
    Shows ws p (.chatBuffer uid) (.chatBufferSnapshot uid (collection (.chatBuffer uid) ws))
  | buffer (uid : String) :
    Shows ws p (.buffer uid) (.chat (.bufferSnapshot uid (docs ws (.buffer uid))))
  | conversation {i : ℕ} {self : ChatViewController} {path : DocPath} :
    p.device.instances[i]? = some self → self.docRefc = some path →
    Shows ws p (.conversation i) (.chat (.conversationSnapshot i (docs ws path)))
  | roomMember {i : ℕ} {self : ChatViewController} : p.device.instances[i]? = some self →
    Shows ws p (.roomMember i) (.chat (.roomMemberFetched i (docs ws (.group self.chatWithId))))

theorem Query.shows_of_callback {ws : List AppWrite} {p : Process} {query : Query}
    {pe : Process.Event} (h : query.callback ws p = some pe) : query.Shows ws p pe := by
  cases query with
  | friends uid => exact Option.some.inj h ▸ .friends uid
  | requests uid => exact Option.some.inj h ▸ .requests uid
  | chatBuffer uid => exact Option.some.inj h ▸ .chatBuffer uid
  | buffer uid => exact Option.some.inj h ▸ .buffer uid
  | conversation i =>
    obtain ⟨self, hi, h⟩ := Option.bind_eq_some_iff.1 h
    obtain ⟨path, hpath, h⟩ := Option.bind_eq_some_iff.1 h
    exact Option.some.inj h ▸ .conversation hi hpath
  | roomMember i =>
    obtain ⟨self, hi, h⟩ := Option.bind_eq_some_iff.1 h
    exact Option.some.inj h ▸ .roomMember hi

namespace App

variable {init : List AppWrite}

/-- The process an event is of. -/
def Event.process? : Event → Option String
  | .on p _ | .deliver p _ _ _ => some p
  | .land _ => none

/-- The process takes `pe` in the event `e`. -/
inductive Delivers (init : List AppWrite) (w : App) : Event → String → Process.Event → Prop
  | on {p : String} {pe : Process.Event} : pe.isLocal = true → Delivers init w (.on p pe) p pe
  | deliver {p : String} {query : Query} {n m : ℕ} {pe : Process.Event} :
    query.callback (w.seen init (w.account p) n m) (w.process p) = some pe →
    Delivers init w (.deliver p query n m) p pe

/-- The app after the process has become `q` and written `ws`. -/
def acted (w : App) (p : String) (pe : Process.Event) (q : Process) (ws : List AppWrite) : App where
  net := w.net.issue (p, q.device.currentUser.map User.uid) ws
  process := Function.update w.process p q
  encoded := w.encoded ++ (w.process p).encodes pe

theorem Delivers.process? {w : App} {e : Event} {p : String} {pe : Process.Event}
    (h : Delivers init w e p pe) : e.process? = some p := by
  cases h <;> rfl

theorem act_eq_some {w w' : App} {p : String} {pe : Process.Event} (h : w.act p pe = some w') :
    ∃ q ws, Process.Effect (w.process p) pe q ws ∧ w' = w.acted p pe q ws := by
  obtain ⟨⟨q, ws⟩, hs, h⟩ := Option.bind_eq_some_iff.1 h
  exact ⟨q, ws, Process.effect_of_step hs, (Option.some.inj h).symm⟩

theorem step_cases {w w' : App} {e : Event} (h : w.step init e = some w') :
    (∃ c net, e = .land c ∧ w.net.land c = some net ∧ w' = { w with net := net }) ∨
    ∃ p pe q ws, Delivers init w e p pe ∧ Process.Effect (w.process p) pe q ws ∧
      w' = w.acted p pe q ws := by
  cases e with
  | on p pe =>
    simp only [step] at h
    split_ifs at h with hpe
    obtain ⟨q, ws, heff, rfl⟩ := act_eq_some h
    exact .inr ⟨p, pe, q, ws, .on (Bool.and_eq_true_iff.1 hpe).1, heff, rfl⟩
  | deliver p query n m =>
    obtain ⟨pe, hpe, h⟩ := Option.bind_eq_some_iff.1 h
    obtain ⟨q, ws, heff, rfl⟩ := act_eq_some h
    exact .inr ⟨p, pe, q, ws, .deliver hpe, heff, rfl⟩
  | land c =>
    obtain ⟨net, hnet, h⟩ := Option.bind_eq_some_iff.1 h
    exact .inl ⟨c, net, rfl, hnet, (Option.some.inj h).symm⟩

/-- A snapshot shows nothing but what was there at the start or has been issued. -/
theorem mem_seen {w : App} {c : String × Option String} {n m : ℕ} {x : AppWrite}
    (h : x ∈ w.seen init c n m) : x ∈ init ∨ ∃ c', x ∈ w.net.issued c' := by
  rcases List.mem_append.1 h with h | h
  · exact .inl h
  · exact .inr (WriteQueue.mem_issued_of_mem_seen h)

/-- What has landed is seen by whoever sees that many writes. -/
theorem mem_seen_of_landed {w : App} {x : AppWrite} (hx : x ∈ w.net.landed) {n : ℕ}
    (hn : w.net.log.length ≤ n) (c : String × Option String) (m : ℕ) : x ∈ w.seen init c n m := by
  refine List.mem_append_right _ (List.mem_append_left _ ?_)
  rwa [List.take_of_length_le (by simpa [WriteQueue.landed] using hn)]

section Rule

variable {Q : List Event → App → Event → Prop} {G : List Encoded → AppWrite → Prop}
  {P : List Event → List Encoded → String → Process → Prop}

/-- What every event of a process keeps holds in every run, at the process it is of and, if more
being encoded keeps it, at all. -/
theorem run_rule (hG : ∀ {enc enc' x}, G enc x → G (enc ++ enc') x)
    (hP : ∀ {es e enc enc' p q}, e.process? ≠ some p → P es enc p q →
      P (es ++ [e]) (enc ++ enc') p q)
    (hstart : ∀ p, P [] [] p {})
    (hstep : ∀ {es w e p pe q ws}, (∀ c, ∀ x ∈ w.net.issued c, G w.encoded x) →
      P es w.encoded p (w.process p) → Q es w e → Delivers init w e p pe →
      Process.Effect (w.process p) pe q ws →
      P (es ++ [e]) (w.encoded ++ (w.process p).encodes pe) p q ∧
        ∀ x ∈ ws, G (w.encoded ++ (w.process p).encodes pe) x)
    {es : List Event} {w : App} (hQ : EventRun.Meets (step init) Q start es)
    (h : EventRun.run (step init) start es = some w) :
    (∀ c, ∀ x ∈ w.net.issued c, G w.encoded x) ∧ ∀ p, P es w.encoded p (w.process p) := by
  refine EventRun.run_induction (Q := Q) (I := fun es w =>
    (∀ c, ∀ x ∈ w.net.issued c, G w.encoded x) ∧ ∀ p, P es w.encoded p (w.process p))
    (step init) ⟨fun c x hx => (List.not_mem_nil hx).elim, hstart⟩ ?_ es hQ h
  rintro es w e w' - ⟨hwrites, hprocs⟩ hQe hs
  rcases step_cases hs with ⟨c, net, rfl, hnet, rfl⟩ | ⟨p, pe, q, ws, hpe, heff, rfl⟩
  · refine ⟨fun c' x hx => hwrites c' x ?_, fun p => ?_⟩
    · rwa [WriteQueue.issued_land hnet] at hx
    · have hp : P (es ++ [.land c]) (w.encoded ++ []) p (w.process p) :=
        hP (by simp [Event.process?]) (hprocs p)
      rwa [List.append_nil] at hp
  · obtain ⟨hq, hws⟩ := hstep hwrites (hprocs p) hQe hpe heff
    constructor
    · intro c x hx
      rcases WriteQueue.mem_issued_issue.1 hx with hx | ⟨-, hx⟩
      · exact hG (hwrites c x hx)
      · exact hws x hx
    · intro p'
      by_cases hp' : p' = p
      · subst hp'
        simpa [acted] using hq
      · simp only [acted, Function.update_of_ne hp']
        refine hP ?_ (hprocs p')
        rw [hpe.process?]
        exact fun heq => hp' (Option.some.inj heq).symm

end Rule

end App

end MessageApp
