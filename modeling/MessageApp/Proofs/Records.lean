import MessageApp.Firestore
import Mathlib.Data.List.Dedup

/-!
# Documents of records

A document starts absent and gets merges of one entry each. Whatever their order, it has one entry
for each key that occurs (`PostedTo.size_eq`), and it has every record exactly when no key occurs
twice (`PostedTo.all_kept_iff`).
-/

namespace MessageApp

namespace Write

/-- The write merges one record into its document. -/
def Posts (w : Write) (r : String × Value) : Prop :=
  w.IsMerge ∧ ∀ k, w.entry k = if r.1 = k then some r.2 else none

theorem posts_setData (p : DocPath) (k : String) (v : Value) :
    (setData p (.insert ∅ k v) true).Posts (k, v) := by
  refine ⟨trivial, fun k' => ?_⟩
  show (Std.ExtTreeMap.insert ∅ k v)[k']? = _
  rw [Std.ExtTreeMap.getElem?_insert]
  by_cases h : k = k'
  · subst h
    simp
  · simp [h]

theorem posts_ofDict (p : DocPath) (k : String) (l : List String) :
    (setData p (.ofDict (.insert ∅ k l)) true).Posts (k, .ofStrings l) := by
  refine ⟨trivial, fun k' => ?_⟩
  show (Doc.ofDict (.insert ∅ k l))[k']? = _
  rw [Doc.getElem?_ofDict, Std.ExtTreeMap.getElem?_insert]
  by_cases h : k = k'
  · subst h
    simp
  · simp [h]

end Write

/-- Of the writes, those that name the document post exactly these records to it. -/
structure PostedTo (store : Store) (ws : List Write) (p : DocPath)
    (records : List (String × Value)) : Prop where
  absent : store p = none
  posted : ∀ w ∈ ws, DocWrite.path w = p → ∃ r ∈ records, w.Posts r
  all : ∀ r ∈ records, ∃ w ∈ ws, DocWrite.path w = p ∧ w.Posts r

namespace PostedTo

variable {store : Store} {ws : List Write} {p : DocPath} {records : List (String × Value)}
  (h : PostedTo store ws p records)
include h

theorem isMerge : ∀ w ∈ ws, DocWrite.path w = p → w.IsMerge := by
  intro w hw hp
  obtain ⟨r, -, hr⟩ := h.posted w hw hp
  exact hr.1

theorem isSome_iff : (DocWrite.replay store ws p).isSome ↔ records ≠ [] := by
  rw [isSome_replay fun w hw hp d => (h.isMerge w hw hp).isSome_act d, h.absent]
  constructor
  · rintro (hn | ⟨w, hw, hp⟩)
    · cases hn
    · obtain ⟨r, hr, -⟩ := h.posted w hw hp
      exact List.ne_nil_of_mem hr
  · intro hne
    obtain ⟨r, hr⟩ := List.exists_mem_of_ne_nil records hne
    obtain ⟨w, hw, hp, -⟩ := h.all r hr
    exact .inr ⟨w, hw, hp⟩

theorem mem_of_field {k : String} {v : Value}
    (hv : field (DocWrite.replay store ws p) k = some v) : (k, v) ∈ records := by
  rcases DocWrite.mem_of_read_replay (field_act_of_merges h.isMerge k) hv with
    ⟨w, hw, hp, he⟩ | hv
  · obtain ⟨r, hr, -, hentry⟩ := h.posted w hw hp
    rw [hentry] at he
    split_ifs at he with hk
    rw [← hk, ← Option.some.inj he]
    exact hr
  · rw [h.absent] at hv
    cases hv

theorem isSome_field {r : String × Value} (hr : r ∈ records) :
    (field (DocWrite.replay store ws p) r.1).isSome := by
  obtain ⟨w, hw, hp, -, hentry⟩ := h.all r hr
  exact DocWrite.read_replay_isSome (field_act_of_merges h.isMerge r.1) hw hp
    (by rw [hentry, if_pos rfl])

/-- With distinct keys every record is kept. -/
theorem field_iff (hn : (records.map Prod.fst).Nodup) {k : String} {v : Value} :
    field (DocWrite.replay store ws p) k = some v ↔ (k, v) ∈ records := by
  refine ⟨h.mem_of_field, fun hr => ?_⟩
  obtain ⟨w, hw, hp, -, hentry⟩ := h.all _ hr
  refine DocWrite.read_replay_eq (field_act_of_merges h.isMerge k) hw hp
    (by rw [hentry, if_pos rfl]) fun w' hw' hp' v' he' => ?_
  obtain ⟨r, hr', -, hentry'⟩ := h.posted w' hw' hp'
  rw [hentry'] at he'
  split_ifs at he' with hk
  have : r = (k, v) := List.inj_on_of_nodup_map hn hr' hr hk
  rw [← Option.some.inj he', this]

/-- The document has one entry for each key that occurs. -/
theorem size_eq : ((DocWrite.replay store ws p).getD ∅).size =
    (records.map Prod.fst).dedup.length := by
  rw [← Std.ExtTreeMap.length_keys]
  refine List.Perm.length_eq ?_
  refine (List.perm_ext_iff_of_nodup Std.ExtTreeMap.nodup_keys (List.nodup_dedup _)).2 fun k => ?_
  rw [Std.ExtTreeMap.mem_keys, List.mem_dedup, Std.ExtTreeMap.mem_iff_isSome_getElem?,
    getElem?_getD]
  constructor
  · intro hk
    obtain ⟨v, hv⟩ := Option.isSome_iff_exists.1 hk
    exact List.mem_map_of_mem (h.mem_of_field hv)
  · intro hk
    obtain ⟨r, hr, rfl⟩ := List.mem_map.1 hk
    exact h.isSome_field hr

/-- There are as many entries as records, and every record is there, exactly when no key occurs
twice. -/
theorem all_kept_iff :
    (((DocWrite.replay store ws p).getD ∅).size = records.length ∧
      ∀ r ∈ records, field (DocWrite.replay store ws p) r.1 = some r.2) ↔
    (records.map Prod.fst).Nodup := by
  rw [h.size_eq]
  constructor
  · rintro ⟨hsize, -⟩
    have hlen : (records.map Prod.fst).dedup.length = (records.map Prod.fst).length := by
      rw [hsize, List.length_map]
    have hd := (List.dedup_sublist (records.map Prod.fst)).eq_of_length hlen
    exact List.dedup_eq_self.1 hd
  · intro hn
    refine ⟨?_, fun r hr => (h.field_iff hn).2 hr⟩
    rw [List.dedup_eq_self.2 hn, List.length_map]

end PostedTo

end MessageApp
