import Mathlib.Data.List.Chain
import Mathlib.Data.List.Induction
import Mathlib.Data.List.Nodup
import Mathlib.Order.Basic

/-!
# Lists of keyed entries that only grow

`absorb own D` appends to `own` the entries of `D` whose key it lacks, in the order of `D`. Its
keys are those of `own` and of `D` together, and stay distinct.

`absorbAll Ds` absorbs one list after another. Where each list contains the one before, the result
is in key order exactly when every list adds its keys past those it found
(`sorted_absorbAll_iff`); it is then the last list in that order (`eq_of_sorted`).
-/

namespace Keyed

variable {α κ : Type*} [DecidableEq κ] (key : α → κ)

def absorb (own D : List α) : List α := own ++ D.filter fun a => key a ∉ own.map key

@[simp] theorem absorb_nil (own : List α) : absorb key own [] = own := by
  simp [absorb]

theorem absorb_cons_of_mem {own D : List α} {a : α} (h : key a ∈ own.map key) :
    absorb key own (a :: D) = absorb key own D := by
  rw [absorb, List.filter_cons_of_neg (by simpa using h), absorb]

/-- A missing entry is appended; the rest, its keys being others, meet the same keys as before. -/
theorem absorb_cons_of_notMem {own D : List α} {a : α} (h : key a ∉ own.map key)
    (hD : key a ∉ D.map key) : absorb key own (a :: D) = absorb key (own ++ [a]) D := by
  unfold absorb
  rw [List.filter_cons_of_pos (by simpa using h), List.append_assoc, List.singleton_append]
  congr 2
  refine List.filter_congr fun b hb => ?_
  have hne : key b ≠ key a := fun e => hD (e ▸ List.mem_map_of_mem hb)
  simp [hne]

theorem mem_absorb_keys {own D : List α} {k : κ} :
    k ∈ (absorb key own D).map key ↔ k ∈ own.map key ∨ k ∈ D.map key := by
  simp only [absorb, List.map_append, List.mem_append]
  constructor
  · rintro (h | h)
    · exact .inl h
    · obtain ⟨a, ha, rfl⟩ := List.mem_map.1 h
      exact .inr (List.mem_map_of_mem (List.mem_filter.1 ha).1)
  · rintro (h | h)
    · exact .inl h
    · by_cases hk : k ∈ own.map key
      · exact .inl hk
      · obtain ⟨a, ha, rfl⟩ := List.mem_map.1 h
        exact .inr (List.mem_map_of_mem (List.mem_filter.2 ⟨ha, by simpa using hk⟩))

theorem nodup_absorb {own D : List α} (hD : (D.map key).Nodup) :
    ((absorb key own D).map key).Nodup ↔ (own.map key).Nodup := by
  rw [absorb, List.map_append, List.nodup_append']
  refine ⟨fun h => h.1, fun h => ⟨h, (List.filter_sublist.map key).nodup hD, ?_⟩⟩
  intro k hk hk'
  obtain ⟨a, ha, rfl⟩ := List.mem_map.1 hk'
  obtain ⟨-, hn⟩ := List.mem_filter.1 ha
  exact (by simpa using hn : key a ∉ own.map key) hk

/-! ## One list after another -/

def absorbAll (Ds : List (List α)) : List α := Ds.foldl (absorb key) []

@[simp] theorem absorbAll_nil : absorbAll key [] = ([] : List α) := rfl

theorem absorbAll_snoc (Ds : List (List α)) (D : List α) :
    absorbAll key (Ds ++ [D]) = absorb key (absorbAll key Ds) D := by
  simp [absorbAll, List.foldl_append]

/-- What has been absorbed stays, in its place. -/
theorem absorbAll_prefix (Ds Ds' : List (List α)) :
    absorbAll key Ds <+: absorbAll key (Ds ++ Ds') := by
  induction Ds' using List.reverseRecOn with
  | nil => simp
  | append_singleton Ds' D ih =>
    rw [← List.append_assoc, absorbAll_snoc]
    exact ih.trans (List.prefix_append _ _)

theorem mem_absorbAll_keys {Ds : List (List α)} {k : κ} :
    k ∈ (absorbAll key Ds).map key ↔ ∃ D ∈ Ds, k ∈ D.map key := by
  induction Ds using List.reverseRecOn with
  | nil => simp
  | append_singleton Ds D ih =>
    rw [absorbAll_snoc, mem_absorb_keys, ih]
    constructor
    · rintro (⟨D', hD', hk⟩ | hk)
      · exact ⟨D', List.mem_append_left _ hD', hk⟩
      · exact ⟨D, by simp, hk⟩
    · rintro ⟨D', hD', hk⟩
      rcases List.mem_append.1 hD' with hD' | hD'
      · exact .inl ⟨D', hD', hk⟩
      · exact .inr (List.mem_singleton.1 hD' ▸ hk)

theorem nodup_absorbAll {Ds : List (List α)} (h : ∀ D ∈ Ds, (D.map key).Nodup) :
    ((absorbAll key Ds).map key).Nodup := by
  induction Ds using List.reverseRecOn with
  | nil => exact List.nodup_nil
  | append_singleton Ds D ih =>
    rw [absorbAll_snoc, nodup_absorb key (h D (by simp))]
    exact ih fun D' hD' => h D' (List.mem_append_left _ hD')

/-- Each entry is that of the first list with its key. -/
theorem first_of_mem_absorbAll {Ds : List (List α)} {a : α} (h : a ∈ absorbAll key Ds) :
    ∃ Ds₁ D Ds₂, Ds = Ds₁ ++ D :: Ds₂ ∧ a ∈ D ∧ ∀ D' ∈ Ds₁, key a ∉ D'.map key := by
  induction Ds using List.reverseRecOn with
  | nil => cases h
  | append_singleton Ds D ih =>
    rw [absorbAll_snoc, absorb, List.mem_append] at h
    rcases h with h | h
    · obtain ⟨Ds₁, D', Ds₂, rfl, ha, hne⟩ := ih h
      exact ⟨Ds₁, D', Ds₂ ++ [D], by simp, ha, hne⟩
    · obtain ⟨ha, hn⟩ := List.mem_filter.1 h
      have hn : key a ∉ (absorbAll key Ds).map key := by simpa using hn
      exact ⟨Ds, D, [], rfl, ha, fun D' hD' hk =>
        hn ((mem_absorbAll_keys key).2 ⟨D', hD', hk⟩)⟩

theorem absorbAll_eq_nil_iff {Ds : List (List α)} :
    absorbAll key Ds = [] ↔ ∀ D ∈ Ds, D = [] := by
  constructor
  · intro h D hD
    rcases List.eq_nil_or_concat D with rfl | ⟨D, a, rfl⟩
    · rfl
    · have hk : key a ∈ (absorbAll key Ds).map key :=
        (mem_absorbAll_keys key).2 ⟨_, hD, by simp⟩
      rw [h] at hk
      cases hk
  · intro h
    refine List.eq_nil_iff_forall_not_mem.2 fun a ha => ?_
    obtain ⟨Ds₁, D, Ds₂, rfl, haD, -⟩ := first_of_mem_absorbAll key ha
    rw [h D (by simp)] at haD
    cases haD

/-- Where each list contains the one before, they leave the entries of the last. -/
theorem mem_absorbAll_of_grows {Ds : List (List α)} {D : List α} (hD : (D.map key).Nodup)
    (hgrows : (Ds ++ [D]).IsChain (· ⊆ ·)) {a : α} : a ∈ absorbAll key (Ds ++ [D]) ↔ a ∈ D := by
  have hsub : ∀ D' ∈ Ds ++ [D], D' ⊆ D := by
    intro D' hD'
    rcases List.mem_append.1 hD' with hD' | hD'
    · have hpair := List.isChain_iff_pairwise.1 hgrows
      exact (List.pairwise_append.1 hpair).2.2 D' hD' D (by simp)
    · exact List.mem_singleton.1 hD' ▸ fun _ h => h
  have hto : ∀ b ∈ absorbAll key (Ds ++ [D]), b ∈ D := by
    intro b hb
    obtain ⟨Ds₁, D', Ds₂, hDs, hbD, -⟩ := first_of_mem_absorbAll key hb
    exact hsub D' (hDs ▸ by simp) hbD
  refine ⟨hto a, fun ha => ?_⟩
  have hk : key a ∈ (absorbAll key (Ds ++ [D])).map key :=
    (mem_absorbAll_keys key).2 ⟨D, by simp, List.mem_map_of_mem ha⟩
  obtain ⟨b, hb, hba⟩ := List.mem_map.1 hk
  rwa [List.inj_on_of_nodup_map hD (hto b hb) ha hba] at hb

/-! ## In key order -/

section Order

variable [Preorder κ]

def Sorted (D : List α) : Prop := D.Pairwise fun a b => key a < key b

/-- What the second list adds to the first comes after all of it. -/
def AddsLater (D D' : List α) : Prop :=
  ∀ b ∈ D', key b ∉ D.map key → ∀ a ∈ D, key a < key b

omit [DecidableEq κ] in
theorem Sorted.nodup_keys {D : List α} (h : Sorted key D) : (D.map key).Nodup :=
  List.pairwise_map.2 (h.imp fun h => h.ne)

omit [DecidableEq κ] in
/-- Lists in key order with the same entries are the same. -/
theorem eq_of_sorted {l l' : List α} (h : Sorted key l) (h' : Sorted key l')
    (hm : ∀ a, a ∈ l ↔ a ∈ l') : l = l' := by
  have hp : l.Perm l' :=
    (List.perm_ext_iff_of_nodup (h.nodup_keys key).of_map (h'.nodup_keys key).of_map).2 hm
  exact hp.eq_of_pairwise (fun a b _ _ hab hba => absurd hab hba.asymm) h h'

omit [DecidableEq κ] in
/-- Two lists in key order have what they share in one order. -/
theorem filter_mem_comm_of_sorted [DecidableEq α] {l l' : List α} (h : Sorted key l)
    (h' : Sorted key l') : l.filter (· ∈ l') = l'.filter (· ∈ l) := by
  refine eq_of_sorted key (List.Pairwise.filter _ h) (List.Pairwise.filter _ h') fun a => ?_
  simp [and_comm]

theorem sorted_absorb_iff {own D : List α} (hD : Sorted key D) :
    Sorted key (absorb key own D) ↔ Sorted key own ∧ AddsLater key own D := by
  unfold Sorted absorb
  rw [List.pairwise_append]
  refine and_congr_right fun _ => ?_
  constructor
  · rintro ⟨-, h⟩ b hb hn a ha
    exact h a ha b (List.mem_filter.2 ⟨hb, by simpa using hn⟩)
  · intro h
    refine ⟨hD.filter _, fun a ha b hb => ?_⟩
    obtain ⟨hb, hn⟩ := List.mem_filter.1 hb
    exact h b hb (by simpa using hn) a ha

/-- Growing lists leave key order exactly when each adds its keys past those it found. -/
theorem sorted_absorbAll_iff {Ds : List (List α)} (hDs : ∀ D ∈ Ds, Sorted key D)
    (hgrows : Ds.IsChain (· ⊆ ·)) :
    Sorted key (absorbAll key Ds) ↔ Ds.IsChain (AddsLater key) := by
  induction Ds using List.reverseRecOn with
  | nil => exact iff_of_true List.Pairwise.nil .nil
  | append_singleton Ds D ih =>
    have hinit : ∀ D' ∈ Ds, Sorted key D' := fun D' hD' => hDs D' (List.mem_append_left _ hD')
    rw [absorbAll_snoc, sorted_absorb_iff key (hDs D (by simp)), List.isChain_append,
      ih hinit hgrows.left_of_append]
    refine and_congr_right fun _ => ?_
    rcases List.eq_nil_or_concat Ds with rfl | ⟨Ds, D', rfl⟩
    · simp [AddsLater]
    · rw [List.concat_eq_append] at hinit hgrows ⊢
      have hmem : ∀ a, a ∈ absorbAll key (Ds ++ [D']) ↔ a ∈ D' := fun a =>
        mem_absorbAll_of_grows key ((hinit D' (by simp)).nodup_keys key) hgrows.left_of_append
      simp [AddsLater, hmem]

end Order

end Keyed
