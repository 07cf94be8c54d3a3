import Mathlib.Algebra.Order.Field.Rat
import Mathlib.Data.List.Lex
import Mathlib.Data.Nat.Digits.Defs
import Mathlib.Tactic.FieldSimp
import Mathlib.Tactic.Linarith
import Mathlib.Tactic.Positivity

/-!
# Numerals in lexicographic order

A numeral in base `b` is a list of digits before the point and one after it. The lexicographic order
of digits after the point never inverts the order of the numbers (`frac_le_of_lt`), and where no
superfluous zero is written it decides it (`Fraction.eq_of_frac_eq`). Between numerals with equally
many digits before the point, all their digits together decide (`nat_add_frac_lt_iff`).
-/

namespace Numeral

variable {b : ℕ}

/-- The number with these digits before the point. -/
def nat (ds : List (Fin b)) : ℕ := Nat.ofDigits b (ds.map Fin.val).reverse

/-- The number with these digits after the point. -/
def frac : List (Fin b) → ℚ
  | [] => 0
  | d :: ds => (d.val + frac ds) / b

/-- The last digit is not zero. -/
def Trimmed (ds : List (Fin b)) : Prop := ∀ d ∈ ds.getLast?, d.val ≠ 0

/-- Digits after the point as they are written: no zero ends them, but a single one stays. -/
def Fraction (ds : List (Fin b)) : Prop := ds ≠ [] ∧ (Trimmed ds ∨ ds.map Fin.val = [0])

@[simp] theorem frac_nil : frac ([] : List (Fin b)) = 0 := rfl

theorem frac_cons (d : Fin b) (ds : List (Fin b)) : frac (d :: ds) = (d.val + frac ds) / b := rfl

@[simp] theorem nat_nil : nat ([] : List (Fin b)) = 0 := rfl

theorem nat_cons (d : Fin b) (ds : List (Fin b)) :
    nat (d :: ds) = b ^ ds.length * d.val + nat ds := by
  simp only [nat, List.map_cons, List.reverse_cons, Nat.ofDigits_append, List.length_reverse,
    List.length_map, Nat.ofDigits_singleton]
  exact Nat.add_comm _ _

theorem base_pos (d : Fin b) : (0 : ℚ) < b := Nat.cast_pos.2 (Nat.lt_of_le_of_lt d.val.zero_le d.2)

theorem frac_nonneg (ds : List (Fin b)) : 0 ≤ frac ds := by
  induction ds with
  | nil => exact le_rfl
  | cons d ds ih =>
    rw [frac_cons]
    positivity

theorem frac_lt_one (ds : List (Fin b)) : frac ds < 1 := by
  induction ds with
  | nil => exact zero_lt_one
  | cons d ds ih =>
    rw [frac_cons, div_lt_one (base_pos d)]
    have hd : (d.val : ℚ) + 1 ≤ b := by exact_mod_cast d.isLt
    linarith

/-- Digits after the point in lexicographic order: their numbers are in order too. -/
theorem frac_le_of_lt {ds es : List (Fin b)} (h : ds < es) : frac ds ≤ frac es := by
  induction ds generalizing es with
  | nil => exact frac_nonneg es
  | cons d ds ih =>
    cases es with
    | nil => exact absurd h (List.not_lt_nil _)
    | cons e es =>
      refine div_le_div_of_nonneg_right ?_ (base_pos d).le
      rcases List.cons_lt_cons_iff.1 h with hlt | ⟨rfl, hlt⟩
      · have hde : (d.val : ℚ) + 1 ≤ e.val := by exact_mod_cast hlt
        linarith [frac_lt_one ds, frac_nonneg es]
      · linarith [ih hlt]

/-- The first digit and the number behind it are those of the number. -/
theorem frac_cons_inj {d e : Fin b} {ds es : List (Fin b)} (h : frac (d :: ds) = frac (e :: es)) :
    d = e ∧ frac ds = frac es := by
  have hb := base_pos d
  rw [frac_cons, frac_cons, div_left_inj' hb.ne'] at h
  have hde : d.val = e.val := by
    rcases Nat.lt_trichotomy d.val e.val with hlt | heq | hlt
    · have hlt : (d.val : ℚ) + 1 ≤ e.val := by exact_mod_cast hlt
      linarith [frac_lt_one ds, frac_nonneg es]
    · exact heq
    · have hlt : (e.val : ℚ) + 1 ≤ d.val := by exact_mod_cast hlt
      linarith [frac_lt_one es, frac_nonneg ds]
  refine ⟨Fin.ext hde, ?_⟩
  rw [hde] at h
  linarith

theorem Trimmed.tail {d : Fin b} {ds : List (Fin b)} (h : Trimmed (d :: ds)) : Trimmed ds := by
  intro e he
  refine h e ?_
  cases ds with
  | nil => cases he
  | cons d' ds => rwa [List.getLast?_cons_cons]

theorem Trimmed.eq_nil {ds : List (Fin b)} (h : Trimmed ds) (h0 : frac ds = 0) : ds = [] := by
  induction ds with
  | nil => rfl
  | cons d ds ih =>
    rw [frac_cons, div_eq_zero_iff, or_iff_left (base_pos d).ne'] at h0
    have hd : (0 : ℚ) ≤ d.val := Nat.cast_nonneg _
    obtain rfl := ih h.tail (by linarith [frac_nonneg ds])
    have hval : d.val = 0 := by simpa using h0
    exact absurd hval (h d rfl)

/-- Numbers are written in one way without a zero at the end. -/
theorem Trimmed.eq_of_frac_eq {ds es : List (Fin b)} (hd : Trimmed ds) (he : Trimmed es)
    (h : frac ds = frac es) : ds = es := by
  induction ds generalizing es with
  | nil => exact (he.eq_nil h.symm).symm
  | cons d ds ih =>
    cases es with
    | nil => exact hd.eq_nil h
    | cons e es =>
      obtain ⟨rfl, htail⟩ := frac_cons_inj h
      rw [ih hd.tail he.tail htail]

theorem frac_of_zero {ds : List (Fin b)} (h : ds.map Fin.val = [0]) : frac ds = 0 := by
  obtain ⟨d, rfl, hd⟩ := List.map_eq_singleton_iff.1 h
  simp [frac_cons, hd]

theorem Fraction.eq_of_frac_eq {ds es : List (Fin b)} (hd : Fraction ds) (he : Fraction es)
    (h : frac ds = frac es) : ds = es := by
  rcases hd.2 with hds | hds <;> rcases he.2 with hes | hes
  · exact hds.eq_of_frac_eq hes h
  · exact absurd (hds.eq_nil (h.trans (frac_of_zero hes))) hd.1
  · exact absurd (hes.eq_nil (h.symm.trans (frac_of_zero hds))) he.1
  · exact List.map_injective_iff.2 Fin.val_injective (hds.trans hes.symm)

/-! ## With digits before the point -/

theorem nat_add_frac (ws ds : List (Fin b)) :
    (nat ws + frac ds : ℚ) = b ^ ws.length * frac (ws ++ ds) := by
  induction ws with
  | nil => simp
  | cons w ws ih =>
    have hb := (base_pos w).ne'
    rw [nat_cons, List.cons_append, frac_cons, List.length_cons, pow_succ]
    push_cast
    rw [add_assoc, ih]
    field_simp

theorem append_inj_of_frac_eq {ws vs ds es : List (Fin b)} (hlen : ws.length = vs.length)
    (h : frac (ws ++ ds) = frac (vs ++ es)) : ws = vs ∧ frac ds = frac es := by
  induction ws generalizing vs with
  | nil =>
    obtain rfl := List.length_eq_zero_iff.1 hlen.symm
    exact ⟨rfl, h⟩
  | cons w ws ih =>
    cases vs with
    | nil => cases hlen
    | cons v vs =>
      obtain ⟨rfl, htail⟩ := frac_cons_inj h
      obtain ⟨rfl, hfrac⟩ := ih (Nat.succ.inj hlen) htail
      exact ⟨rfl, hfrac⟩

/-- Numerals with equally many digits before the point are in the order of all their digits. -/
theorem nat_add_frac_lt_iff {ws vs ds es : List (Fin b)} (hlen : ws.length = vs.length)
    (hd : Fraction ds) (he : Fraction es) :
    (nat ws + frac ds : ℚ) < nat vs + frac es ↔ ws ++ ds < vs ++ es := by
  have hb : (0 : ℚ) < b ^ vs.length := by
    cases hd' : ds with
    | nil => exact absurd hd' hd.1
    | cons d _ => exact pow_pos (base_pos d) _
  rw [nat_add_frac, nat_add_frac, hlen, mul_lt_mul_iff_right₀ hb]
  constructor
  · intro h
    rcases lt_trichotomy (ws ++ ds) (vs ++ es) with hlt | heq | hlt
    · exact hlt
    · exact absurd h (heq ▸ lt_irrefl _)
    · exact absurd (frac_le_of_lt hlt) (not_le.2 h)
  · intro h
    refine lt_of_le_of_ne (frac_le_of_lt h) fun heq => ?_
    obtain ⟨rfl, hfrac⟩ := append_inj_of_frac_eq hlen heq
    obtain rfl := hd.eq_of_frac_eq he hfrac
    exact lt_irrefl _ h

/-! ## As they are written -/

section Written

variable {α β : Type*} [LinearOrder α] [LinearOrder β]

theorem map_lt_map_iff {f : α → β} (hf : StrictMono f) {l m : List α} :
    l.map f < m.map f ↔ l < m :=
  StrictMono.lt_iff_lt fun _ _ h => List.map_lt (fun _ _ hxy => hf hxy) h

/-- A separator at the same place in both changes nothing. -/
theorem separated_lt_iff {l l' m m' : List α} (hlen : l.length = l'.length) (sep : α) :
    l ++ sep :: m < l' ++ sep :: m' ↔ l ++ m < l' ++ m' := by
  induction l generalizing l' with
  | nil =>
    obtain rfl := List.length_eq_zero_iff.1 hlen.symm
    simp
  | cons a l ih =>
    cases l' with
    | nil => cases hlen
    | cons a' l' =>
      simp only [List.cons_append, List.cons_lt_cons_iff, ih (Nat.succ.inj hlen)]

end Written

end Numeral
