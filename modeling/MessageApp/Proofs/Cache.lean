import MessageApp.Proofs.DeviceSteps
import Mathlib.Data.String.Basic
import Mathlib.Order.Compare

/-!
# When the message cache keeps its messages

Whether a key is new is decided against the shared cache, but the cache is then overwritten with
the arrays of one instance. So a callback that finds something new keeps what was cached exactly
when its instance has it too, or the rest of the document brings it again
(`cache_kept_iff`). Reopening a chat breaks this: the new instance starts with empty arrays while
everything is cached (`not_cache_always_kept`).
-/

namespace MessageApp

open Keyed ChatViewController

/-- Every key of the document, and every key cached before, is cached exactly once. -/
def CacheKept (before after : Dict (List (List String))) (c : String) (doc : Doc) : Prop :=
  ∀ k, k ∈ doc ∨ k ∈ cachedKeys before c → (cachedKeys after c).count k = 1

namespace Device

/-- The callback that runs now keeps the cache. -/
def CallbackKeeps (_ : List Event) (d : Device) : Event → Prop
  | .conversationSnapshot i (some doc) => ∀ self d', d.instances[i]? = some self →
      d.next (.conversationSnapshot i (some doc)) = some d' →
      CacheKept d.globals.cacheMessage d'.globals.cacheMessage self.chatWithId doc
  | _ => True

/-- The instance whose callback runs now, if its document brings an uncached key, lacks the first
such key and has every cached key, except those the rest of the document brings. -/
def OwnsCached (_ : List Event) (d : Device) : Event → Prop
  | .conversationSnapshot i (some doc) => ∀ self k₁, d.instances[i]? = some self →
      firstUncached d.globals.cacheMessage self.chatWithId doc = some k₁ →
      k₁ ∉ self.keys ∧ ∀ k ∈ cachedKeys d.globals.cacheMessage self.chatWithId,
        k ∈ self.keys ∨ k ∈ doc ∧ k₁ < k
  | _ => True

instance (es : List Event) (d : Device) : DecidablePred (OwnsCached es d)
  | .conversationSnapshot i (some doc) => decidable_of_iff
      (∀ self ∈ d.instances[i]?,
        ∀ k₁ ∈ firstUncached d.globals.cacheMessage self.chatWithId doc, k₁ ∉ self.keys ∧
          ∀ k ∈ cachedKeys d.globals.cacheMessage self.chatWithId,
            k ∈ self.keys ∨ k ∈ doc ∧ k₁ < k)
      (forall_congr' fun _ => forall_comm)
  | .conversationSnapshot _ none | .signIn _ | .signoutClick | .signout | .bufferSnapshot _ _
  | .openChat _ _ | .roomMemberFetched _ _ | .finishEditing _ _ _ | .voiceCompletion _ _ _
  | .runBlock _ => .isTrue trivial

end Device

section Split

variable {cacheMessage : Dict (List (List String))} {c : String} {doc : Doc} {D₁ D₂ : List Row}
  {r : Row}

theorem mem_ofDoc_keys {k : String} : k ∈ (Row.ofDoc doc).map Row.key ↔ k ∈ doc := by
  rw [Row.ofDoc_keys, Std.ExtTreeMap.mem_keys]

/-- The keys past a row of the document are those that come after its key. -/
theorem mem_rest_iff (hD : Row.ofDoc doc = D₁ ++ r :: D₂) {k : String} :
    k ∈ D₂.map Row.key ↔ k ∈ doc ∧ r.key < k := by
  have hsorted : doc.keys.Pairwise fun a b => compare a b = .lt := Std.ExtTreeMap.ordered_keys
  rw [keys_of_split hD, List.pairwise_append, List.pairwise_cons] at hsorted
  obtain ⟨-, ⟨hafter, -⟩, hbefore⟩ := hsorted
  rw [← Std.ExtTreeMap.mem_keys, keys_of_split hD]
  constructor
  · intro hk
    exact ⟨by simp [hk], compare_lt_iff_lt.1 (hafter k hk)⟩
  · rintro ⟨hk, hlt⟩
    rcases List.mem_append.1 hk with hk | hk
    · have := compare_lt_iff_lt.1 (hbefore k hk r.key List.mem_cons_self)
      exact absurd hlt this.asymm
    · rcases List.mem_cons.1 hk with rfl | hk
      · exact absurd hlt (lt_irrefl _)
      · exact hk

end Split

theorem nodup_absorb_snoc {own D : List Row} {r : Row} (hown : (own.map Row.key).Nodup)
    (hD : (D.map Row.key).Nodup) (hr : r.key ∉ own.map Row.key) :
    ((absorb Row.key (own ++ [r]) D).map Row.key).Nodup := by
  rw [nodup_absorb Row.key hD, List.map_append]
  refine List.nodup_append'.2 ⟨hown, by simp, ?_⟩
  simpa using hr

/-- Keys of `own`, then a new one, then what `D` adds: what was cached is there exactly once
just when it is among the first or the last. -/
theorem count_absorb_iff {own D₁ D₂ : List Row} {r : Row} {C : List String}
    (hown : (own.map Row.key).Nodup) (hD₂ : (D₂.map Row.key).Nodup)
    (h₁ : ∀ a ∈ D₁, a.key ∈ C) (hr : r.key ∉ C) :
    (∀ k, k ∈ (D₁ ++ r :: D₂).map Row.key ∨ k ∈ C →
        ((absorb Row.key (own ++ [r]) D₂).map Row.key).count k = 1) ↔
      r.key ∉ own.map Row.key ∧ ∀ k ∈ C, k ∈ own.map Row.key ∨ k ∈ D₂.map Row.key := by
  constructor
  · intro h
    refine ⟨fun hm => ?_, fun k hk => ?_⟩
    · have h1 := h r.key (.inl (by simp))
      have h2 : 1 ≤ (own.map Row.key).count r.key := List.one_le_count_iff.2 hm
      simp only [absorb, List.map_append, List.count_append, List.map_cons, List.map_nil,
        List.count_singleton_self] at h1
      omega
    · have h1 : k ∈ (absorb Row.key (own ++ [r]) D₂).map Row.key :=
        List.one_le_count_iff.1 (h k (.inr hk)).ge
      rw [mem_absorb_keys, List.map_append, List.mem_append] at h1
      rcases h1 with (h1 | h1) | h1
      · exact .inl h1
      · rw [List.map_singleton, List.mem_singleton] at h1
        exact absurd (h1 ▸ hk) hr
      · exact .inr h1
  · rintro ⟨hr', hC⟩ k hk
    refine List.count_eq_one_of_mem (nodup_absorb_snoc hown hD₂ hr')
      ((mem_absorb_keys Row.key).2 ?_)
    have hCk : k ∈ C → k ∈ (own ++ [r]).map Row.key ∨ k ∈ D₂.map Row.key := fun hk =>
      (hC k hk).imp_left fun h => by simp [List.mem_map.1 h]
    rcases hk with hk | hk
    · rw [List.map_append, List.map_cons, List.mem_append, List.mem_cons] at hk
      rcases hk with hk | rfl | hk
      · obtain ⟨a, ha, rfl⟩ := List.mem_map.1 hk
        exact hCk (h₁ a ha)
      · exact .inl (by simp)
      · exact .inr hk
    · exact hCk hk

namespace Device

/-- No key is twice in the arrays of an instance, or twice in the cache. -/
structure KeysDistinct (d : Device) : Prop where
  own : ∀ self ∈ d.instances, ∃ rows, self.Holds rows ∧ (rows.map Row.key).Nodup
  cached : ∀ c, (cachedKeys d.globals.cacheMessage c).Nodup

theorem keysDistinct_start : KeysDistinct {} where
  own := by simp
  cached c := by simp [cachedKeys]

theorem KeysDistinct.of_sameRows {d d' : Device} (h : KeysDistinct d)
    (hc : d'.globals.cacheMessage = d.globals.cacheMessage)
    (hi : List.Forall₂ SameRows d.instances d'.instances) : KeysDistinct d' where
  own self hself := by
    obtain ⟨j, hj, rfl⟩ := List.getElem_of_mem hself
    have hj' : j < d.instances.length := hi.length_eq ▸ hj
    obtain ⟨rows, hh, hn⟩ := h.own _ (List.getElem_mem hj')
    exact ⟨rows, ((List.forall₂_iff_get.1 hi).2 j hj' hj).holds.2 hh, hn⟩
  cached c := hc ▸ h.cached c

theorem KeysDistinct.set {d : Device} (hI : KeysDistinct d) {self' : ChatViewController}
    {cacheMessage : Dict (List (List String))}
    (hself : ∃ rows, self'.Holds rows ∧ (rows.map Row.key).Nodup)
    (hcached : ∀ c, (cachedKeys cacheMessage c).Nodup) (i : ℕ) :
    KeysDistinct { d with
      globals := { d.globals with cacheMessage := cacheMessage }
      instances := d.instances.set i self' } where
  own self hs := by
    rcases List.mem_or_eq_of_mem_set hs with hs | rfl
    · exact hI.own self hs
    · exact hself
  cached := hcached

theorem callbackKeeps_iff {d d' : Device} {i : ℕ} {doc : Doc} {self : ChatViewController}
    (es : List Event) (hself : d.instances[i]? = some self)
    (h : d.next (.conversationSnapshot i (some doc)) = some d') :
    CallbackKeeps es d (.conversationSnapshot i (some doc)) ↔
      CacheKept d.globals.cacheMessage d'.globals.cacheMessage self.chatWithId doc := by
  simp only [CallbackKeeps, h, hself, Option.some.injEq]
  constructor
  · exact fun hk => hk self _ rfl rfl
  · rintro hk _ _ rfl rfl
    exact hk

theorem ownsCached_iff {d : Device} {i : ℕ} {doc : Doc} {self : ChatViewController}
    (es : List Event) (hself : d.instances[i]? = some self) :
    OwnsCached es d (.conversationSnapshot i (some doc)) ↔
      ∀ k₁, firstUncached d.globals.cacheMessage self.chatWithId doc = some k₁ →
        k₁ ∉ self.keys ∧ ∀ k ∈ cachedKeys d.globals.cacheMessage self.chatWithId,
          k ∈ self.keys ∨ k ∈ doc ∧ k₁ < k := by
  simp only [OwnsCached, hself, Option.some.injEq]
  constructor
  · exact fun hk k₁ => hk self k₁ rfl
  · rintro hk _ k₁ rfl
    exact hk k₁

/-- A callback keeps the cache exactly when its instance owns what is cached, and then all keys
stay distinct. -/
theorem callback_iff {d d' : Device} (hI : KeysDistinct d) {i : ℕ} {doc : Doc} (es : List Event)
    (h : d.next (.conversationSnapshot i (some doc)) = some d') :
    (CallbackKeeps es d (.conversationSnapshot i (some doc)) ↔
      OwnsCached es d (.conversationSnapshot i (some doc))) ∧
    (OwnsCached es d (.conversationSnapshot i (some doc)) → KeysDistinct d') := by
  obtain ⟨ws, hs⟩ := exists_step_of_next h
  obtain ⟨self, p, s, hself, -, hl, rfl, -⟩ := step_conversationSnapshot hs
  obtain ⟨own, hown, hnodup⟩ := hI.own self (List.mem_of_getElem? hself)
  rw [callbackKeeps_iff es hself h, ownsCached_iff es hself]
  show (CacheKept d.globals.cacheMessage s.1 self.chatWithId doc ↔ _) ∧ _
  rcases conversationListener_cases hown hl with ⟨hall, rfl⟩ | ⟨D₁, r, D₂, hD, hD₁, hr, rfl, -⟩
  · rw [firstUncached_of_forall_mem hall]
    refine ⟨iff_of_true (fun k hk => ?_) (by simp),
      fun _ => hI.set ⟨own, hown, hnodup⟩ hI.cached i⟩
    refine List.count_eq_one_of_mem (hI.cached self.chatWithId) ?_
    rcases hk with hk | hk
    · obtain ⟨a, ha, rfl⟩ := List.mem_map.1 (mem_ofDoc_keys.2 hk)
      exact hall a ha
    · exact hk
  · rw [firstUncached_of_split hD hD₁ hr]
    have hD₂ : (D₂.map Row.key).Nodup := by
      have hkeys := Row.ofDoc_keys_nodup doc
      rw [hD, List.map_append, List.map_cons, List.nodup_append', List.nodup_cons] at hkeys
      exact hkeys.2.1.2
    have hafter : cachedKeys (d.globals.cacheMessage.insert self.chatWithId
        (Row.columns (absorb Row.key (own ++ [r]) D₂))) self.chatWithId
        = (absorb Row.key (own ++ [r]) D₂).map Row.key :=
      cachedKeys_of_columns (by simp)
    have hiff := count_absorb_iff hnodup hD₂ hD₁ hr
    simp only [Option.some.injEq, forall_eq', CacheKept, hafter, hown.keys_eq]
    simp only [← hD, mem_ofDoc_keys, mem_rest_iff hD] at hiff
    refine ⟨hiff, fun howned => ?_⟩
    have hn := nodup_absorb_snoc hnodup hD₂ howned.1
    refine hI.set ⟨_, holds_withRows self _, hn⟩ (fun c => ?_) i
    by_cases hc : self.chatWithId = c
    · rw [← hc, hafter]
      exact hn
    · have hother : cachedKeys (d.globals.cacheMessage.insert self.chatWithId
          (Row.columns (absorb Row.key (own ++ [r]) D₂))) c
          = cachedKeys d.globals.cacheMessage c := by
        simp [cachedKeys, Std.ExtTreeMap.getElem?_insert, hc]
      rw [hother]
      exact hI.cached c

theorem step_iff {d d' : Device} (hI : KeysDistinct d) {e : Event} (es : List Event)
    (h : d.next e = some d') :
    (CallbackKeeps es d e ↔ OwnsCached es d e) ∧ (OwnsCached es d e → KeysDistinct d') := by
  obtain ⟨ws, hs⟩ := exists_step_of_next h
  by_cases he : e.TouchesRows
  · cases e with
    | signout =>
      obtain ⟨rfl, -⟩ := Prod.mk.inj (Option.some.inj hs)
      exact ⟨Iff.rfl, fun _ => ⟨hI.own, fun c => by simp [cachedKeys]⟩⟩
    | openChat id g =>
      obtain ⟨myUser, kept, -, -, rfl, -⟩ := step_openChat hs
      refine ⟨Iff.rfl, fun _ => ⟨fun self hself => ?_, hI.cached⟩⟩
      rcases List.mem_append.1 hself with hself | hself
      · exact hI.own self hself
      · rw [List.mem_singleton.1 hself]
        exact ⟨[], rfl, by simp⟩
    | conversationSnapshot i doc =>
      cases doc with
      | none =>
        obtain ⟨self, p, s, hself, -, hl, rfl, -⟩ := step_conversationSnapshot hs
        obtain rfl := Option.some.inj hl
        exact ⟨Iff.rfl, fun _ => hI.set (hI.own _ (List.mem_of_getElem? hself)) hI.cached i⟩
      | some doc => exact callback_iff hI es h
    | _ => exact he.elim
  · obtain ⟨hc, hi⟩ := step_sameRows he hs
    have hk : CallbackKeeps es d e := by cases e <;> first | trivial | exact (he trivial).elim
    have ho : OwnsCached es d e := by cases e <;> first | trivial | exact (he trivial).elim
    exact ⟨iff_of_true hk ho, fun _ => hI.of_sameRows hc hi⟩

/-- Every callback of a run keeps the cache if and only if every callback that brings an uncached
key runs on an instance that owns what is cached. -/
theorem cache_kept_iff {es : List Event} {d : Device}
    (h : EventRun.run next {} es = some d) :
    EventRun.Meets next CallbackKeeps {} es ↔ EventRun.Meets next OwnsCached {} es :=
  EventRun.meets_congr (I := fun _ => KeysDistinct) next keysDistinct_start
    (fun es _ _ _ _ hI hs => step_iff hI es hs) h

/-- One chat only is ever opened, and each document delivered has the entries of the one before. -/
def OneChat (c : String) (es : List Event) : Prop :=
  (∀ e ∈ es, match e with
    | .openChat id _ => id = c
    | _ => True) ∧
  (es.filterMap fun
    | .conversationSnapshot _ doc => some (doc.getD ∅)
    | _ => none).Pairwise fun D D' => ∀ e ∈ D.toList, e ∈ D'.toList

/-- The chat with `b` is opened and its first message arrives; it is opened again, the same
snapshot arrives, then one with a second message. -/
def reopening : List Event :=
  let one : Doc := .ofDict (.ofList [("1", ["hi", "b", "false"])])
  let two : Doc := .ofDict (.ofList [("1", ["hi", "b", "false"]), ("2", ["you", "b", "false"])])
  [.signIn { uid := "a" }, .openChat "b" false, .conversationSnapshot 0 (some one),
    .openChat "b" false, .conversationSnapshot 1 (some one), .conversationSnapshot 1 (some two)]

theorem reopening_oneChat : OneChat "b" reopening := by
  refine ⟨?_, by decide⟩
  simp [reopening]

/-- The chat is opened again, and two more messages arrive, first at the instance that has cached
the one before. -/
def reopenedInTurn : List Event :=
  let three : Doc := .ofDict (.ofList [("1", ["hi", "b", "false"]), ("2", ["you", "b", "false"]),
    ("3", ["there", "a", "false"])])
  reopening.take 4 ++ [.conversationSnapshot 0 (some three), .conversationSnapshot 1 (some three)]

theorem cache_kept_reopenedInTurn :
    (EventRun.run next {} reopenedInTurn).isSome ∧
      EventRun.Meets next CallbackKeeps {} reopenedInTurn := by
  obtain ⟨d, hd⟩ := Option.isSome_iff_exists.1
    (by decide +kernel : (EventRun.run next {} reopenedInTurn).isSome)
  exact ⟨hd ▸ rfl, (cache_kept_iff hd).2 (EventRun.meets_of_take _ (by decide +kernel))⟩

/-- After the second message the reopened chat has cached it alone. -/
theorem not_cache_always_kept :
    ¬ ∀ c es d, OneChat c es → EventRun.run next {} es = some d →
      EventRun.Meets next CallbackKeeps {} es := by
  intro h
  obtain ⟨d, hd⟩ : ∃ d, EventRun.run next {} reopening = some d := ⟨_, rfl⟩
  have hk := h "b" reopening d reopening_oneChat hd (reopening.take 5) _ [] _ rfl rfl _ _ rfl rfl
    "1" (.inr (by decide))
  revert hk
  decide

end Device

end MessageApp
