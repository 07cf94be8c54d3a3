import Mathlib.Data.List.Induction
import Mathlib.Logic.Relation

/-!
# Runs of a partial step function

A system is a function `step : S → E → Option S`: the state after an event, or `none` where the
event cannot happen. A run is a list of events, each of which can happen where it comes.

An invariant may speak of the events so far as well as of the state (`run_history`), and may rely on
a condition that every step of the run meets (`run_induction`). Where that condition is exactly what
keeps it, the run passes through nothing else exactly when every step meets the condition
(`passes_iff_meets`). A part that takes steps of its own stays where its own runs lead
(`reaches_part`). Where every step appears to an observer as steps of another system, so does a run
(`run_simulates`). Two runs in lockstep are one run of the product system (`run_both`).
-/

namespace EventRun

variable {S E : Type*} (step : S → E → Option S)

/-- The state after the events, if each can happen where it comes. -/
def run : S → List E → Option S
  | s, [] => some s
  | s, e :: es => (step s e).bind (run · es)

/-- Every step of the run meets `Q` of the events before it, the state it finds and its event. -/
def Meets (Q : List E → S → E → Prop) (s : S) (es : List E) : Prop :=
  ∀ pre e post t, es = pre ++ e :: post → run step s pre = some t → Q pre t e

@[simp] theorem run_nil (s : S) : run step s [] = some s := rfl

theorem run_append (s : S) (es fs : List E) :
    run step s (es ++ fs) = (run step s es).bind (run step · fs) := by
  induction es generalizing s with
  | nil => rfl
  | cons e es ih =>
    simp only [List.cons_append, run]
    cases step s e with
    | none => rfl
    | some t => exact ih t

theorem run_snoc (s : S) (es : List E) (e : E) :
    run step s (es ++ [e]) = (run step s es).bind (step · e) := by
  rw [run_append]
  congr 1
  funext t
  simp only [run]
  cases step t e <;> rfl

theorem run_snoc_eq_some {s t : S} {es : List E} {e : E}
    (h : run step s (es ++ [e]) = some t) :
    ∃ m, run step s es = some m ∧ step m e = some t := by
  rw [run_snoc] at h
  exact Option.bind_eq_some_iff.1 h

theorem meets_nil (Q : List E → S → E → Prop) (s : S) : Meets step Q s [] := by
  intro pre e post t hes
  simp at hes

theorem Meets.left {Q : List E → S → E → Prop} {s : S} {es fs : List E}
    (h : Meets step Q s (es ++ fs)) : Meets step Q s es := by
  intro pre e post t hes ht
  refine h pre e (post ++ fs) t ?_ ht
  rw [hes, List.append_assoc, List.cons_append]

theorem Meets.init {Q : List E → S → E → Prop} {s : S} {es : List E} {e : E}
    (h : Meets step Q s (es ++ [e])) : Meets step Q s es :=
  h.left step

theorem Meets.last {Q : List E → S → E → Prop} {s m : S} {es : List E} {e : E}
    (h : Meets step Q s (es ++ [e])) (hm : run step s es = some m) : Q es m e :=
  h es e [] m rfl hm

theorem Meets.snoc {Q : List E → S → E → Prop} {s : S} {es : List E} {e : E}
    (h : Meets step Q s es) (he : ∀ m, run step s es = some m → Q es m e) :
    Meets step Q s (es ++ [e]) := by
  intro pre e' post t hes ht
  rcases List.eq_nil_or_concat post with rfl | ⟨post, e'', rfl⟩
  · obtain ⟨rfl, rfl⟩ := List.append_singleton_inj.1 hes
    exact he t ht
  · rw [List.concat_eq_append, ← List.cons_append, ← List.append_assoc] at hes
    exact h pre e' post t (List.append_inj_left' hes rfl) ht

theorem meets_snoc {Q : List E → S → E → Prop} {s m : S} {es : List E} {e : E}
    (hm : run step s es = some m) :
    Meets step Q s (es ++ [e]) ↔ Meets step Q s es ∧ Q es m e := by
  refine ⟨fun h => ⟨h.init step, h.last step hm⟩, fun ⟨h, he⟩ => h.snoc step fun t ht => ?_⟩
  rw [hm] at ht
  exact Option.some.inj ht ▸ he

/-- A run meets `Q` when the step at each position does. -/
theorem meets_of_take {Q : List E → S → E → Prop} {s : S} {es : List E}
    (h : ∀ n < es.length, ∀ t, run step s (es.take n) = some t → ∀ e ∈ es[n]?,
      Q (es.take n) t e) : Meets step Q s es := by
  rintro pre e post t rfl ht
  have hpos := h pre.length (by simp) t (by simpa using ht) e (by simp)
  simpa using hpos

/-- What holds at the start, and is kept by every step that meets `Q`, holds at the end of every
run whose steps all meet `Q`. -/
theorem run_induction {Q : List E → S → E → Prop} {I : List E → S → Prop} {s : S}
    (h0 : I [] s)
    (hs : ∀ es m e t, run step s es = some m → I es m → Q es m e → step m e = some t →
      I (es ++ [e]) t) :
    ∀ (es : List E) {t : S}, Meets step Q s es → run step s es = some t → I es t := by
  intro es
  induction es using List.reverseRecOn with
  | nil =>
    intro t _ h
    simp only [run_nil, Option.some.injEq] at h
    exact h ▸ h0
  | append_singleton es e ih =>
    intro t hQ h
    obtain ⟨m, hm, he⟩ := run_snoc_eq_some step h
    exact hs es m e t hm (ih (hQ.init step) hm) (hQ.last step hm) he

/-- Where `P` and `Q` agree at every step of a run, and `Q` keeps the invariant that says so, a run
meets one exactly when it meets the other. -/
theorem meets_congr {P Q : List E → S → E → Prop} {I : List E → S → Prop} {s t : S} {es : List E}
    (h0 : I [] s)
    (hs : ∀ es m e t, run step s es = some m → I es m → step m e = some t →
      (P es m e ↔ Q es m e) ∧ (Q es m e → I (es ++ [e]) t))
    (h : run step s es = some t) : Meets step P s es ↔ Meets step Q s es := by
  have hI : ∀ (es : List E) {t : S}, Meets step Q s es → run step s es = some t → I es t :=
    run_induction step h0 fun es m e t hm hI hQ he => (hs es m e t hm hI he).2 hQ
  induction es using List.reverseRecOn generalizing t with
  | nil => exact iff_of_true (meets_nil step P s) (meets_nil step Q s)
  | append_singleton es e ih =>
    obtain ⟨m, hm, he⟩ := run_snoc_eq_some step h
    have hes : Meets step P s es ↔ Meets step Q s es := ih hm
    rw [meets_snoc step hm, meets_snoc step hm, hes]
    exact and_congr_right fun hQ => (hs es m e t hm (hI es hQ hm) he).1

/-- A run meets one of two conditions that agree wherever a run leads exactly when it meets the
other. -/
theorem meets_iff_of_run {P Q : List E → S → E → Prop} {s : S} {es : List E}
    (h : ∀ es m e, run step s es = some m → (P es m e ↔ Q es m e)) :
    Meets step P s es ↔ Meets step Q s es :=
  forall₄_congr fun pre e _ m => forall₂_congr fun _ hm => h pre m e hm

/-- Every state a run passes through, with the events before it. -/
def Passes (I : List E → S → Prop) (s : S) (es : List E) : Prop :=
  ∀ pre post t, es = pre ++ post → run step s pre = some t → I pre t

theorem passes_nil {I : List E → S → Prop} {s : S} : Passes step I s [] ↔ I [] s := by
  constructor
  · exact fun h => h [] [] s rfl rfl
  · intro h pre post t hes ht
    obtain ⟨rfl, -⟩ := List.append_eq_nil_iff.1 hes.symm
    exact Option.some.inj ht ▸ h

theorem Passes.last {I : List E → S → Prop} {s t : S} {es : List E} (h : Passes step I s es)
    (ht : run step s es = some t) : I es t :=
  h es [] t (List.append_nil es).symm ht

theorem passes_snoc {I : List E → S → Prop} {s t : S} {es : List E} {e : E}
    (h : run step s (es ++ [e]) = some t) :
    Passes step I s (es ++ [e]) ↔ Passes step I s es ∧ I (es ++ [e]) t := by
  constructor
  · refine fun hall => ⟨fun pre post u hes hu => ?_, hall.last step h⟩
    exact hall pre (post ++ [e]) u (by rw [hes, List.append_assoc]) hu
  · rintro ⟨hall, ht⟩ pre post u hes hu
    rcases List.eq_nil_or_concat post with rfl | ⟨post, e', rfl⟩
    · rw [List.append_nil] at hes
      subst hes
      rw [h] at hu
      exact Option.some.inj hu ▸ ht
    · rw [List.concat_eq_append, ← List.append_assoc] at hes
      exact hall pre post u (List.append_inj_left' hes rfl) hu

/-- Where a step from a state with `I` leads to one with `I` exactly when it meets `Q`, a run passes
through states with `I` alone exactly when its steps all meet `Q`. -/
theorem passes_iff_meets {I : List E → S → Prop} {Q : List E → S → E → Prop} {s t : S}
    {es : List E} (h0 : I [] s)
    (hs : ∀ es m e t, run step s es = some m → I es m → step m e = some t →
      (I (es ++ [e]) t ↔ Q es m e))
    (h : run step s es = some t) : Passes step I s es ↔ Meets step Q s es := by
  induction es using List.reverseRecOn generalizing t with
  | nil => exact iff_of_true ((passes_nil step).2 h0) (meets_nil step Q s)
  | append_singleton es e ih =>
    obtain ⟨m, hm, he⟩ := run_snoc_eq_some step h
    have hes : Passes step I s es ↔ Meets step Q s es := ih hm
    rw [passes_snoc step h, meets_snoc step hm, ← hes]
    exact and_congr_right fun hall => hs es m e t hm (hall.last step hm) he

/-- An invariant of every run that speaks of the events so far. -/
theorem run_history {I : List E → S → Prop} {s : S} (h0 : I [] s)
    (hs : ∀ es m e t, run step s es = some m → I es m → step m e = some t → I (es ++ [e]) t)
    {es : List E} {t : S} (h : run step s es = some t) : I es t :=
  run_induction (Q := fun _ _ _ => True) step h0
    (fun es m e t hm hI _ he => hs es m e t hm hI he) es (fun _ _ _ _ _ _ => trivial) h

/-- An invariant of every run. -/
theorem run_invariant {I : S → Prop} (hs : ∀ s e t, I s → step s e = some t → I t) {s t : S}
    (h0 : I s) {es : List E} (h : run step s es = some t) : I t :=
  run_history (I := fun _ => I) step h0 (fun _ m e t _ hm he => hs m e t hm he) h

@[simp] theorem run_singleton (s : S) (e : E) : run step s [e] = step s e := by
  simp only [run]
  cases step s e <;> rfl

/-! ## Runs of a part -/

/-- Some run leads there. -/
def Reaches (s t : S) : Prop := ∃ es, run step s es = some t

theorem Reaches.refl (s : S) : Reaches step s s := ⟨[], rfl⟩

theorem Reaches.of_step {s t : S} {e : E} (h : step s e = some t) : Reaches step s t :=
  ⟨[e], (run_singleton step s e).trans h⟩

theorem Reaches.trans {s t u : S} (h : Reaches step s t) (h' : Reaches step t u) :
    Reaches step s u := by
  obtain ⟨es, hes⟩ := h
  obtain ⟨fs, hfs⟩ := h'
  exact ⟨es ++ fs, by rw [run_append, hes]; exact hfs⟩

/-- Where a part of the system takes steps of its own, a run takes it only where it can get. -/
theorem reaches_part {S' E' : Type*} {step' : S' → E' → Option S'} {part : S → S'} {s t : S}
    {es : List E}
    (hs : ∀ m e t, Reaches step' (part s) (part m) → step m e = some t →
      Reaches step' (part m) (part t))
    (h : run step s es = some t) : Reaches step' (part s) (part t) := by
  induction es using List.reverseRecOn generalizing t with
  | nil => exact Option.some.inj h ▸ .refl step' _
  | append_singleton es e ih =>
    obtain ⟨m, hm, he⟩ := run_snoc_eq_some step h
    exact (ih hm).trans step' (hs m e t (ih hm) he)

/-- What a step never restores was there before the run. -/
theorem run_back {P : S → Prop} {s t : S} {es : List E}
    (hP : ∀ m e t, Reaches step s m → step m e = some t → P t → P m)
    (h : run step s es = some t) (ht : P t) : P s := by
  induction es using List.reverseRecOn generalizing t with
  | nil => exact Option.some.inj h ▸ ht
  | append_singleton es e ih =>
    obtain ⟨m, hm, he⟩ := run_snoc_eq_some step h
    exact ih hm (hP m e t ⟨es, hm⟩ he ht)

/-- An abstraction of the states takes every step to steps of the abstract system, as long as it
ends in a state where the abstraction means something, which no later state does after one where it
does not. -/
theorem run_simulates {A : Type*} {R : A → A → Prop} {abs : S → A} {P : S → Prop} {s t : S}
    {es : List E} (hP : ∀ m e t, Reaches step s m → step m e = some t → P t → P m)
    (hs : ∀ m e t, Reaches step s m → step m e = some t → P t →
      Relation.ReflTransGen R (abs m) (abs t))
    (h : run step s es = some t) (ht : P t) : Relation.ReflTransGen R (abs s) (abs t) := by
  induction es using List.reverseRecOn generalizing t with
  | nil => exact Option.some.inj h ▸ .refl
  | append_singleton es e ih =>
    obtain ⟨m, hm, he⟩ := run_snoc_eq_some step h
    exact (ih hm (hP m e t ⟨es, hm⟩ he ht)).trans (hs m e t ⟨es, hm⟩ he ht)

/-! ## Two runs in lockstep -/

/-- Two copies of the system, each taking its own event. -/
def both (p : S × S) (e : E × E) : Option (S × S) :=
  (step p.1 e.1).bind fun t => (step p.2 e.2).map fun u => (t, u)

theorem both_eq_some {p q : S × S} {e : E × E} :
    both step p e = some q ↔ step p.1 e.1 = some q.1 ∧ step p.2 e.2 = some q.2 := by
  unfold both
  cases step p.1 e.1 <;> cases step p.2 e.2 <;> simp [Prod.ext_iff]

theorem run_both {p q : S × S} {es : List (E × E)} :
    run (both step) p es = some q ↔
      run step p.1 (es.map Prod.fst) = some q.1 ∧ run step p.2 (es.map Prod.snd) = some q.2 := by
  induction es generalizing p with
  | nil => simp [Prod.ext_iff]
  | cons e es ih =>
    simp only [run, List.map_cons, Option.bind_eq_some_iff]
    constructor
    · rintro ⟨m, hm, h⟩
      obtain ⟨h1, h2⟩ := (both_eq_some step).1 hm
      obtain ⟨h3, h4⟩ := ih.1 h
      exact ⟨⟨m.1, h1, h3⟩, ⟨m.2, h2, h4⟩⟩
    · rintro ⟨⟨a, h1, h3⟩, ⟨b, h2, h4⟩⟩
      exact ⟨(a, b), (both_eq_some step).2 ⟨h1, h2⟩, ih.2 ⟨h3, h4⟩⟩

end EventRun
