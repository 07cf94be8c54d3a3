import Mathlib.Data.List.Basic
import Mathlib.Logic.Function.Basic
import Mathlib.Tactic.ByContra

/-!
# Write queues over a shared store

Clients issue single-document writes into queues of their own. The head of any queue may land at
any time: a client's writes land in the order it issued them, writes of different clients are
interleaved arbitrarily. The log is what has landed, in order; the store is its replay.

`issued` is what a client has issued, landed or not. At rest nothing is pending, and the log holds
exactly what was issued (`mem_log_iff_of_rest`). A client may lag behind the log, and is ahead of it
with its own writes (`seen`).

A write that merges reads, at one key, as an assignment or as nothing at all, so a document that
only receives merges holds the last value assigned (`read_replay`).
-/

/-- What has landed, and what each client has yet to land. -/
structure WriteQueue (C W : Type*) where
  log : List (C × W)
  pending : C → List W

namespace WriteQueue

section Queue

variable {C W : Type*} [DecidableEq C]

def empty : WriteQueue C W := ⟨[], fun _ => []⟩

/-- The client appends writes to its queue. -/
def issue (q : WriteQueue C W) (c : C) (ws : List W) : WriteQueue C W :=
  { q with pending := Function.update q.pending c (q.pending c ++ ws) }

/-- The head of the client's queue lands. -/
def land (q : WriteQueue C W) (c : C) : Option (WriteQueue C W) :=
  match q.pending c with
  | [] => none
  | w :: ws => some ⟨q.log ++ [(c, w)], Function.update q.pending c ws⟩

/-- All the client has issued, in order. -/
def issued (q : WriteQueue C W) (c : C) : List W :=
  (q.log.filter (·.1 = c)).map Prod.snd ++ q.pending c

/-- The writes that have landed, in order. -/
def landed (q : WriteQueue C W) : List W := q.log.map Prod.snd

/-- The client's own writes that are not among the first `n` to land, in order. -/
def ownAfter (q : WriteQueue C W) (c : C) (n : ℕ) : List W :=
  ((q.log.drop n).filter (·.1 = c)).map Prod.snd ++ q.pending c

/-- What a client can see: the first `n` writes to land, and then `m` of its own. -/
def seen (q : WriteQueue C W) (c : C) (n m : ℕ) : List W :=
  q.landed.take n ++ (q.ownAfter c n).take m

/-- Nothing is in flight. -/
def Rest (q : WriteQueue C W) : Prop := ∀ c, q.pending c = []

theorem land_eq_some {q q' : WriteQueue C W} {c : C} (h : q.land c = some q') :
    ∃ w ws, q.pending c = w :: ws ∧ q' = ⟨q.log ++ [(c, w)], Function.update q.pending c ws⟩ := by
  unfold land at h
  split at h
  · cases h
  · rename_i w ws hp
    exact ⟨w, ws, hp, (Option.some.inj h).symm⟩

@[simp] theorem issue_log (q : WriteQueue C W) (c : C) (ws : List W) :
    (q.issue c ws).log = q.log := rfl

theorem issue_pending_self (q : WriteQueue C W) (c : C) (ws : List W) :
    (q.issue c ws).pending c = q.pending c ++ ws := by
  simp [issue]

theorem issue_pending_ne (q : WriteQueue C W) {c c' : C} (h : c' ≠ c) (ws : List W) :
    (q.issue c ws).pending c' = q.pending c' := by
  simp [issue, Function.update_of_ne h]

theorem mem_issue_pending {q : WriteQueue C W} {c c' : C} {ws : List W} {w : W} :
    w ∈ (q.issue c ws).pending c' ↔ w ∈ q.pending c' ∨ c' = c ∧ w ∈ ws := by
  by_cases h : c' = c
  · subst h
    simp [issue_pending_self]
  · simp [issue_pending_ne q h, h]

@[simp] theorem issued_empty (c : C) : (empty : WriteQueue C W).issued c = [] := rfl

theorem mem_issued_issue {q : WriteQueue C W} {c c' : C} {ws : List W} {w : W} :
    w ∈ (q.issue c ws).issued c' ↔ w ∈ q.issued c' ∨ c' = c ∧ w ∈ ws := by
  simp only [issued, issue_log, List.mem_append, mem_issue_pending, or_assoc]

/-- Landing issues nothing. -/
theorem issued_land {q q' : WriteQueue C W} {c : C} (h : q.land c = some q') (c' : C) :
    q'.issued c' = q.issued c' := by
  obtain ⟨w, ws, hp, rfl⟩ := land_eq_some h
  by_cases hc : c' = c
  · subst hc
    simp [issued, hp, List.filter_append]
  · simp [issued, List.filter_append, Function.update_of_ne hc, Ne.symm hc]

theorem mem_issued_of_mem_log {q : WriteQueue C W} {c : C} {w : W} (h : (c, w) ∈ q.log) :
    w ∈ q.issued c := by
  simp only [issued, List.mem_append, List.mem_map, List.mem_filter, decide_eq_true_eq]
  exact .inl ⟨(c, w), ⟨h, rfl⟩, rfl⟩

theorem mem_issued_of_mem_pending {q : WriteQueue C W} {c : C} {w : W} (h : w ∈ q.pending c) :
    w ∈ q.issued c :=
  List.mem_append_right _ h

theorem mem_issued_of_mem_landed {q : WriteQueue C W} {w : W} (h : w ∈ q.landed) :
    ∃ c, w ∈ q.issued c := by
  simp only [landed, List.mem_map] at h
  obtain ⟨⟨c, w⟩, h, rfl⟩ := h
  exact ⟨c, mem_issued_of_mem_log h⟩

theorem mem_issued_of_mem_seen {q : WriteQueue C W} {c : C} {n m : ℕ} {w : W}
    (h : w ∈ q.seen c n m) : ∃ c', w ∈ q.issued c' := by
  rcases List.mem_append.1 h with h | h
  · exact mem_issued_of_mem_landed (List.mem_of_mem_take h)
  · refine ⟨c, ?_⟩
    rcases List.mem_append.1 (List.mem_of_mem_take h) with h | h
    · obtain ⟨⟨c', w⟩, hmem, rfl⟩ := List.mem_map.1 h
      obtain ⟨hdrop, hc⟩ := List.mem_filter.1 hmem
      obtain rfl : c' = c := of_decide_eq_true hc
      have hlog : (c', w) ∈ q.log := List.mem_of_mem_drop hdrop
      exact mem_issued_of_mem_log hlog
    · exact mem_issued_of_mem_pending h

/-- At rest the log holds exactly what was issued. -/
theorem mem_log_iff_of_rest {q : WriteQueue C W} (h : q.Rest) {c : C} {w : W} :
    (c, w) ∈ q.log ↔ w ∈ q.issued c := by
  refine ⟨mem_issued_of_mem_log, fun hw => ?_⟩
  simp only [issued, h c, List.append_nil, List.mem_map, List.mem_filter,
    decide_eq_true_eq] at hw
  obtain ⟨⟨c', w'⟩, ⟨hm, rfl⟩, rfl⟩ := hw
  exact hm

theorem mem_landed_of_rest {q : WriteQueue C W} (h : q.Rest) {c : C} {w : W}
    (hw : w ∈ q.issued c) : w ∈ q.landed :=
  List.mem_map.2 ⟨(c, w), (mem_log_iff_of_rest h).2 hw, rfl⟩

theorem mem_landed_land {q q' : WriteQueue C W} {c : C} (h : q.land c = some q') {w : W}
    (hw : w ∈ q.landed) : w ∈ q'.landed := by
  obtain ⟨w', ws, -, rfl⟩ := land_eq_some h
  simp only [landed, List.map_append, List.mem_append]
  exact .inl hw

/-- A landing moves one write from the head of the client's queue to the end of the log. -/
theorem log_land {q q' : WriteQueue C W} {c : C} (h : q.land c = some q') :
    ∃ w, q.pending c = w :: q'.pending c ∧ q'.log = q.log ++ [(c, w)] ∧
      ∀ c', c' ≠ c → q'.pending c' = q.pending c' := by
  obtain ⟨w, ws, hp, rfl⟩ := land_eq_some h
  refine ⟨w, by simp [hp], rfl, fun c' hc => ?_⟩
  simp [Function.update_of_ne hc]

theorem landed_land {q q' : WriteQueue C W} {c : C} (h : q.land c = some q') :
    ∃ w, q.pending c = w :: q'.pending c ∧ q'.landed = q.landed ++ [w] ∧
      ∀ c', c' ≠ c → q'.pending c' = q.pending c' := by
  obtain ⟨w, hp, hlog, hne⟩ := log_land h
  exact ⟨w, hp, by simp [landed, hlog], hne⟩

theorem mem_pending_land {q q' : WriteQueue C W} {c c' : C} (h : q.land c = some q') {w : W}
    (hw : w ∈ q'.pending c') : w ∈ q.pending c' := by
  obtain ⟨w', hp, -, hne⟩ := landed_land h
  by_cases hc : c' = c
  · subst hc
    rw [hp]
    exact List.mem_cons_of_mem _ hw
  · rwa [hne c' hc] at hw

end Queue

end WriteQueue

/-! ## The store -/

/-- A write names one document and says what becomes of it. -/
class DocWrite (W : Type*) (P D : outParam (Type*)) where
  path : W → P
  act : W → D → D

namespace DocWrite

variable {W P D : Type*} [DocWrite W P D] [DecidableEq P]

/-- The store after one write: the named document is replaced, every other stays. -/
def write (store : P → D) (w : W) : P → D :=
  Function.update store (path w) (act w (store (path w)))

/-- The store after the writes, in order. -/
def replay (store : P → D) (ws : List W) : P → D := ws.foldl write store

@[simp] theorem replay_nil (store : P → D) : replay store ([] : List W) = store := rfl

@[simp] theorem replay_cons (store : P → D) (w : W) (ws : List W) :
    replay store (w :: ws) = replay (write store w) ws := rfl

theorem replay_append (store : P → D) (ws ws' : List W) :
    replay store (ws ++ ws') = replay (replay store ws) ws' :=
  List.foldl_append

theorem replay_snoc (store : P → D) (ws : List W) (w : W) :
    replay store (ws ++ [w]) = write (replay store ws) w := by
  simp [replay_append]

theorem write_self {store : P → D} {w : W} {p : P} (h : path w = p) :
    write store w p = act w (store p) := by
  subst h
  simp [write]

theorem write_ne {store : P → D} {w : W} {p : P} (h : path w ≠ p) :
    write store w p = store p := by
  simp [write, Function.update_of_ne (Ne.symm h)]

/-- A document depends only on the writes that name it. -/
theorem replay_apply (store : P → D) (ws : List W) (p : P) :
    replay store ws p = (ws.filter (path · = p)).foldl (fun d w => act w d) (store p) := by
  induction ws generalizing store with
  | nil => rfl
  | cons w ws ih =>
    rw [replay_cons, ih]
    by_cases h : path w = p
    · simp [h, write_self h]
    · simp [h, write_ne h]

theorem replay_of_forall_ne {store : P → D} {ws : List W} {p : P} (h : ∀ w ∈ ws, path w ≠ p) :
    replay store ws p = store p := by
  rw [replay_apply, List.filter_eq_nil_iff.2 (by simpa using h)]
  rfl

/-- What every write to a document keeps, holds of it after all of them. -/
theorem replay_keeps {I : D → Prop} {store : P → D} {p : P} (h0 : I (store p)) {ws : List W}
    (h : ∀ w ∈ ws, path w = p → ∀ d, I d → I (act w d)) : I (replay store ws p) := by
  induction ws generalizing store with
  | nil => exact h0
  | cons w ws ih =>
    refine ih ?_ fun w' hw' => h w' (List.mem_cons_of_mem _ hw')
    by_cases hp : path w = p
    · rw [write_self hp]
      exact h w List.mem_cons_self hp _ h0
    · rwa [write_ne hp]

/-- What every write to a document leaves, holds of it once one has landed. -/
theorem replay_of_forall_act {I : D → Prop} {store : P → D} {ws : List W} {p : P}
    (h : ∀ w ∈ ws, path w = p → ∀ d, I (act w d)) {w : W} (hw : w ∈ ws) (hp : path w = p) :
    I (replay store ws p) := by
  induction ws generalizing store w with
  | nil => cases hw
  | cons w' ws ih =>
    have h' : ∀ w ∈ ws, path w = p → ∀ d, I (act w d) :=
      fun w hw => h w (List.mem_cons_of_mem _ hw)
    rcases List.mem_cons.1 hw with rfl | hw
    · have h0 : I (write store w p) := by
        rw [write_self hp]
        exact h w List.mem_cons_self hp _
      exact replay_keeps h0 fun w' hw' hp' d _ => h' w' hw' hp' d
    · exact ih h' hw hp

/-- After a write that leaves the same whatever it finds, a document does not depend on what was
there before. -/
theorem replay_eq_of_const {ws : List W} {p : P} {w : W} (hw : w ∈ ws) (hp : path w = p)
    (hc : ∀ d d', act w d = act w d') (store store' : P → D) :
    replay store ws p = replay store' ws p := by
  induction ws generalizing store store' with
  | nil => cases hw
  | cons w' ws ih =>
    rcases List.mem_cons.1 hw with rfl | hw
    · rw [replay_cons, replay_cons, replay_apply, replay_apply (write store' w), write_self hp,
        write_self hp, hc (store p) (store' p)]
    · exact ih hw _ _

/-! ## Merges -/

theorem foldl_or {α β : Type*} (f : α → Option β) (l : List α) (b : Option β) :
    l.foldl (fun b a => (f a).or b) b = (l.filterMap f).getLast?.or b := by
  induction l generalizing b with
  | nil => rfl
  | cons a l ih =>
    rw [List.foldl_cons, ih, List.filterMap_cons]
    cases f a with
    | none => simp
    | some v => simp [List.getLast?_cons, Option.or_some]

variable {K V : Type*} {read : D → K → Option V} {entry : W → K → Option V}

/-- Read at one key, a document that only receives merges is the last value assigned there. -/
theorem read_replay {store : P → D} {ws : List W} {p : P} {k : K}
    (h : ∀ w ∈ ws, path w = p → ∀ d, read (act w d) k = (entry w k).or (read d k)) :
    read (replay store ws p) k =
      ((ws.filter (path · = p)).filterMap (entry · k)).getLast?.or (read (store p) k) := by
  rw [replay_apply, ← foldl_or]
  have h' : ∀ w ∈ ws.filter (path · = p), ∀ d,
      read (act w d) k = (entry w k).or (read d k) := by
    intro w hw
    obtain ⟨hw, hp⟩ := List.mem_filter.1 hw
    exact h w hw (by simpa using hp)
  generalize ws.filter (path · = p) = l at h' ⊢
  generalize store p = d
  induction l generalizing d with
  | nil => rfl
  | cons w l ih =>
    rw [List.foldl_cons, List.foldl_cons, ih (fun w' hw' => h' w' (List.mem_cons_of_mem _ hw')),
      h' w List.mem_cons_self]

variable {store : P → D} {ws : List W} {p : P} {k : K}
  (h : ∀ w ∈ ws, path w = p → ∀ d, read (act w d) k = (entry w k).or (read d k))
include h

/-- What a merged document reads was assigned by a write that landed, or was there before. -/
theorem mem_of_read_replay {v : V} (hv : read (replay store ws p) k = some v) :
    (∃ w ∈ ws, path w = p ∧ entry w k = some v) ∨ read (store p) k = some v := by
  rw [read_replay h, Option.or_eq_some_iff] at hv
  rcases hv with hv | ⟨-, hv⟩
  · obtain ⟨w, hw, he⟩ := List.mem_filterMap.1 (List.mem_of_getLast? hv)
    obtain ⟨hw, hp⟩ := List.mem_filter.1 hw
    exact .inl ⟨w, hw, by simpa using hp, he⟩
  · exact .inr hv

theorem read_replay_isSome {w : W} {v : V} (hw : w ∈ ws) (hp : path w = p)
    (he : entry w k = some v) : (read (replay store ws p) k).isSome := by
  rw [read_replay h, Option.isSome_or]
  have hm : v ∈ (ws.filter (path · = p)).filterMap (entry · k) :=
    List.mem_filterMap.2 ⟨w, List.mem_filter.2 ⟨hw, by simpa using hp⟩, he⟩
  rw [List.getLast?_isSome.2 (List.ne_nil_of_mem hm), Bool.true_or]

/-- Where all assignments of a key agree, and one has landed, the document reads that value. -/
theorem read_replay_eq {w : W} {v : V} (hw : w ∈ ws) (hp : path w = p) (he : entry w k = some v)
    (hu : ∀ w' ∈ ws, path w' = p → ∀ v', entry w' k = some v' → v' = v) :
    read (replay store ws p) k = some v := by
  have hsome : (read (replay store ws p) k).isSome := read_replay_isSome h hw hp he
  obtain ⟨v', hv'⟩ := Option.isSome_iff_exists.1 hsome
  rw [hv']
  rw [read_replay h, Option.or_eq_some_iff] at hv'
  rcases hv' with hv' | ⟨hn, -⟩
  · obtain ⟨w', hw', he'⟩ := List.mem_filterMap.1 (List.mem_of_getLast? hv')
    obtain ⟨hw', hp'⟩ := List.mem_filter.1 hw'
    rw [hu w' hw' (by simpa using hp') v' he']
  · rw [List.getLast?_eq_none_iff] at hn
    have hm : v ∈ (ws.filter (path · = p)).filterMap (entry · k) :=
      List.mem_filterMap.2 ⟨w, List.mem_filter.2 ⟨hw, by simpa using hp⟩, he⟩
    rw [hn] at hm
    cases hm

end DocWrite

/-! ## Documents that need not exist -/

namespace DocWrite

variable {W P A : Type*} [DocWrite W P (Option A)] [DecidableEq P]

/-- What every write to a document keeps of it, where it exists, holds of one that the writes have
made. -/
theorem replay_keeps_some {I : A → Prop} {store : P → Option A} {p : P} (h0 : store p = none)
    {ws : List W}
    (h : ∀ w ∈ ws, path w = p → ∀ d : Option A, (∀ a ∈ d, I a) → ∀ a ∈ act w d, I a) {a : A}
    (ha : replay store ws p = some a) : I a :=
  replay_keeps (I := fun d : Option A => ∀ a ∈ d, I a) (fun _ ha => nomatch h0 ▸ ha) h a ha

end DocWrite
