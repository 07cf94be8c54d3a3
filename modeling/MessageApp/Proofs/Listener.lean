import MessageApp.Rows

/-!
# The conversation listener's callback

A callback that finds every key of its document cached changes nothing. Otherwise, from the first
uncached key on, the instance absorbs the document's entries into its own rows, and the cache
holds those rows alone (`conversationListener_cases`): what was cached and is neither the
instance's own nor in the rest of the document is gone.
-/

namespace MessageApp

open Keyed

theorem Dict.insert_insert {α : Type} (d : Dict α) (k : String) (a b : α) :
    (d.insert k a).insert k b = d.insert k b := by
  refine Std.ExtTreeMap.ext_getElem? fun c => ?_
  simp only [Std.ExtTreeMap.getElem?_insert]
  split_ifs <;> rfl

theorem Dict.insert_eq_self {α : Type} {d : Dict α} {k : String} {a : α} (h : d[k]? = some a) :
    d.insert k a = d := by
  refine Std.ExtTreeMap.ext_getElem? fun c => ?_
  rw [Std.ExtTreeMap.getElem?_insert]
  split_ifs with hc
  · rw [← Std.LawfulEqCmp.eq_of_compare hc, h]
  · rfl

namespace Row

/-- The row is one of these, or of one of the entries. -/
def From (own : List Row) (es : List (String × Value)) (r : Row) : Prop :=
  r ∈ own ∨ ∃ e ∈ es, r.IsOf e

theorem From.cons {own : List Row} {es : List (String × Value)} {r : Row} (h : r.From own es)
    (e : String × Value) : r.From own (e :: es) :=
  h.imp_right fun ⟨e', he', hof⟩ => ⟨e', List.mem_cons_of_mem _ he', hof⟩

theorem From.of_snoc {own : List Row} {es : List (String × Value)} {r r' : Row}
    {e : String × Value} (hof : r'.IsOf e) (h : r.From (own ++ [r']) es) :
    r.From own (e :: es) := by
  rcases h with h | ⟨e', he', hof'⟩
  · rcases List.mem_append.1 h with h | h
    · exact .inl h
    · rw [List.mem_singleton.1 h]
      exact .inr ⟨e, List.mem_cons_self, hof⟩
  · exact .inr ⟨e', List.mem_cons_of_mem _ he', hof'⟩

end Row

namespace ChatViewController

variable {cacheMessage : Dict (List (List String))} {self : ChatViewController}

theorem Holds.withRows_self {own : List Row} (h : self.Holds own) : self.withRows own = self :=
  h.symm

theorem isCached_eq_some {c k : String} {b : Bool} (h : isCached cacheMessage c k = some b) :
    b = true ↔ k ∈ cachedKeys cacheMessage c := by
  unfold isCached at h
  unfold cachedKeys
  split at h
  · rename_i hn
    rw [← Option.some.inj h, hn]
    simp
  · rename_i columns hs
    obtain ⟨ks, hks, rfl⟩ := Option.map_eq_some_iff.1 h
    simp [hs, hks]

/-- One turn of the loop skips a cached key, and appends an uncached one to the instance's
rows. -/
theorem appendEntry_cases {own : List Row} (hself : self.Holds own) {k : String} {v : Value}
    {s : Dict (List (List String)) × ChatViewController}
    (h : self.appendEntry cacheMessage k v = some s) :
    (k ∈ cachedKeys cacheMessage self.chatWithId ∧ s = (cacheMessage, self)) ∨
    (k ∉ cachedKeys cacheMessage self.chatWithId ∧ (Row.ofEntry (k, v)).IsOf (k, v) ∧
      s = (cacheMessage.insert self.chatWithId (Row.columns (own ++ [Row.ofEntry (k, v)])),
        self.withRows (own ++ [Row.ofEntry (k, v)]))) := by
  unfold appendEntry at h
  obtain ⟨cached, hc, h⟩ := Option.bind_eq_some_iff.1 h
  have hcached := isCached_eq_some hc
  by_cases hk : cached = true
  · rw [if_pos hk] at h
    exact .inl ⟨hcached.1 hk, (Option.some.inj h).symm⟩
  · rw [if_neg hk] at h
    obtain ⟨l, hl, h⟩ := Option.bind_eq_some_iff.1 h
    obtain ⟨text, htext, h⟩ := Option.bind_eq_some_iff.1 h
    obtain ⟨who, hwho, h⟩ := Option.bind_eq_some_iff.1 h
    obtain ⟨audio, haudio, h⟩ := Option.bind_eq_some_iff.1 h
    obtain ⟨rest, rfl⟩ : ∃ rest, l = text :: who :: audio :: rest := by
      match l, htext, hwho, haudio with
      | a :: b :: c :: rest, h0, h1, h2 =>
        simp only [List.getElem?_cons_zero, List.getElem?_cons_succ, Option.some.injEq] at h0 h1 h2
        exact ⟨rest, by rw [h0, h1, h2]⟩
    have hrow : Row.ofEntry (k, v) = ⟨k, who, text, audio⟩ := by
      simp [Row.ofEntry, hl]
    refine .inr ⟨fun hm => hk (hcached.2 hm), ?_, ?_⟩
    · rw [hrow]
      exact ⟨rfl, rest, Value.ofStrings_of_strings? hl⟩
    · rw [hrow, ← Option.some.inj h]
      conv_lhs => rw [hself]
      simp [withRows, Row.columns]

/-- Once the cache holds the instance's own rows, the loop absorbs what is left of the
document. -/
theorem foldlM_appendEntry {es : List (String × Value)} (hes : (es.map Prod.fst).Nodup) :
    ∀ {cacheMessage : Dict (List (List String))} {self : ChatViewController} {own : List Row}
      {s : Dict (List (List String)) × ChatViewController},
      self.Holds own → cacheMessage[self.chatWithId]? = some (Row.columns own) →
      es.foldlM (fun s e => appendEntry s.1 s.2 e.1 e.2) (cacheMessage, self) = some s →
      s = (cacheMessage.insert self.chatWithId
            (Row.columns (absorb Row.key own (es.map Row.ofEntry))),
          self.withRows (absorb Row.key own (es.map Row.ofEntry))) ∧
        ∀ r ∈ absorb Row.key own (es.map Row.ofEntry), r.From own es := by
  induction es with
  | nil =>
    intro cacheMessage self own s hself hcache h
    simp only [List.foldlM_nil, Option.pure_def, Option.some.injEq] at h
    simp only [List.map_nil, absorb_nil]
    exact ⟨by rw [Dict.insert_eq_self hcache, hself.withRows_self, ← h], fun r hr => .inl hr⟩
  | cons e es ih =>
    intro cacheMessage self own s hself hcache h
    rw [List.map_cons, List.nodup_cons] at hes
    have hkeys := cachedKeys_of_columns hcache
    rw [List.foldlM_cons] at h
    obtain ⟨m, hm, h⟩ := Option.bind_eq_some_iff.1 h
    rw [List.map_cons]
    rcases appendEntry_cases hself hm with ⟨hk, rfl⟩ | ⟨hk, hof, rfl⟩
    · rw [hkeys] at hk
      rw [absorb_cons_of_mem Row.key (a := Row.ofEntry e) hk]
      obtain ⟨hs, hr⟩ := ih hes.2 hself hcache h
      exact ⟨hs, fun r hr' => (hr r hr').cons e⟩
    · rw [hkeys] at hk
      have hD : (Row.ofEntry e).key ∉ (es.map Row.ofEntry).map Row.key := by
        rw [List.map_map]
        exact hes.1
      rw [absorb_cons_of_notMem Row.key (a := Row.ofEntry e) hk hD]
      obtain ⟨hs, hr⟩ := ih hes.2 (holds_withRows self _) (by simp) h
      refine ⟨?_, fun r hr' => (hr r hr').of_snoc hof⟩
      rw [hs, withRows_chatWithId, Dict.insert_insert]
      rfl

/-- What a callback does: nothing where every key is cached; otherwise it absorbs the document,
from the first uncached key on, into the instance's own rows, and caches those. -/
theorem conversationListener_cases {own : List Row} (hself : self.Holds own) {doc : Doc}
    {s : Dict (List (List String)) × ChatViewController}
    (h : self.conversationListener cacheMessage (some doc) = some s) :
    ((∀ r ∈ Row.ofDoc doc, r.key ∈ cachedKeys cacheMessage self.chatWithId) ∧
      s = (cacheMessage, self)) ∨
    ∃ D₁ r D₂, Row.ofDoc doc = D₁ ++ r :: D₂ ∧
      (∀ a ∈ D₁, a.key ∈ cachedKeys cacheMessage self.chatWithId) ∧
      r.key ∉ cachedKeys cacheMessage self.chatWithId ∧
      s = (cacheMessage.insert self.chatWithId (Row.columns (absorb Row.key (own ++ [r]) D₂)),
        self.withRows (absorb Row.key (own ++ [r]) D₂)) ∧
      ∀ a ∈ absorb Row.key (own ++ [r]) D₂, a.From own doc.toList := by
  have hnodup : (doc.toList.map Prod.fst).Nodup := by
    rw [Std.ExtTreeMap.map_fst_toList_eq_keys]
    exact Std.ExtTreeMap.nodup_keys
  simp only [conversationListener] at h
  unfold Row.ofDoc
  generalize doc.toList = es at h hnodup
  induction es with
  | nil =>
    simp only [List.foldlM_nil, Option.pure_def, Option.some.injEq] at h
    exact .inl ⟨by simp, h.symm⟩
  | cons e es ih =>
    rw [List.map_cons, List.nodup_cons] at hnodup
    rw [List.foldlM_cons] at h
    obtain ⟨m, hm, h⟩ := Option.bind_eq_some_iff.1 h
    rcases appendEntry_cases hself hm with ⟨hk, rfl⟩ | ⟨hk, hof, rfl⟩
    · rcases ih h hnodup.2 with ⟨hall, hs⟩ | ⟨D₁, r, D₂, hD, hD₁, hr, hs, hrows⟩
      · refine .inl ⟨?_, hs⟩
        rintro r hr
        rcases List.mem_cons.1 hr with rfl | hr
        · exact hk
        · exact hall r hr
      · refine .inr ⟨Row.ofEntry e :: D₁, r, D₂, by rw [List.map_cons, hD]; rfl, ?_, hr, hs, ?_⟩
        · rintro a ha
          rcases List.mem_cons.1 ha with rfl | ha
          · exact hk
          · exact hD₁ a ha
        · exact fun a ha => (hrows a ha).cons e
    · obtain ⟨hs, hrows⟩ := foldlM_appendEntry hnodup.2 (holds_withRows self _) (by simp) h
      refine .inr ⟨[], Row.ofEntry e, es.map Row.ofEntry, rfl, by simp, hk, ?_,
        fun a ha => (hrows a ha).of_snoc hof⟩
      rw [hs, withRows_chatWithId, Dict.insert_insert]
      rfl

/-- A callback leaves the instance's chat and listener, and the cache of every other chat. -/
theorem conversationListener_frame {own : List Row} (hself : self.Holds own)
    {doc : Option Doc}
    {s : Dict (List (List String)) × ChatViewController}
    (h : self.conversationListener cacheMessage doc = some s) :
    s.2.chatWithId = self.chatWithId ∧ s.2.docRefc = self.docRefc ∧
      ∀ c, c ≠ self.chatWithId → s.1[c]? = cacheMessage[c]? := by
  cases doc with
  | none =>
    obtain rfl := Option.some.inj h
    exact ⟨rfl, rfl, fun c _ => rfl⟩
  | some doc =>
    rcases conversationListener_cases hself h with ⟨-, rfl⟩ | ⟨D₁, r, D₂, -, -, -, rfl, -⟩
    · exact ⟨rfl, rfl, fun c _ => rfl⟩
    · refine ⟨rfl, rfl, fun c hc => ?_⟩
      have : ¬ compare self.chatWithId c = .eq :=
        fun he => hc (Std.LawfulEqCmp.eq_of_compare he).symm
      simp [Std.ExtTreeMap.getElem?_insert, this]

end ChatViewController

/-- The first key of the document, in order, that is not cached. -/
def firstUncached (cacheMessage : Dict (List (List String))) (c : String) (doc : Doc) :
    Option String :=
  doc.keys.find? (· ∉ cachedKeys cacheMessage c)

section Split

variable {cacheMessage : Dict (List (List String))} {c : String} {doc : Doc} {D₁ D₂ : List Row}
  {r : Row}

theorem keys_of_split (hD : Row.ofDoc doc = D₁ ++ r :: D₂) :
    doc.keys = D₁.map Row.key ++ r.key :: D₂.map Row.key := by
  rw [← Row.ofDoc_keys, hD, List.map_append, List.map_cons]

theorem firstUncached_of_split (hD : Row.ofDoc doc = D₁ ++ r :: D₂)
    (h₁ : ∀ a ∈ D₁, a.key ∈ cachedKeys cacheMessage c) (hr : r.key ∉ cachedKeys cacheMessage c) :
    firstUncached cacheMessage c doc = some r.key := by
  unfold firstUncached
  rw [keys_of_split hD, List.find?_append, List.find?_eq_none.2, Option.none_or,
    List.find?_cons_of_pos (by simpa using hr)]
  intro k hk
  obtain ⟨a, ha, rfl⟩ := List.mem_map.1 hk
  simpa using h₁ a ha

theorem firstUncached_of_forall_mem
    (h : ∀ a ∈ Row.ofDoc doc, a.key ∈ cachedKeys cacheMessage c) :
    firstUncached cacheMessage c doc = none := by
  refine List.find?_eq_none.2 fun k hk => ?_
  rw [← Row.ofDoc_keys] at hk
  obtain ⟨a, ha, rfl⟩ := List.mem_map.1 hk
  simpa using h a ha

/-- A callback whose document is all cached changes nothing. -/
theorem conversationListener_of_firstUncached {self : ChatViewController} {own : List Row}
    (hself : self.Holds own) {s : Dict (List (List String)) × ChatViewController}
    (hn : firstUncached cacheMessage self.chatWithId doc = none)
    (h : self.conversationListener cacheMessage (some doc) = some s) :
    s = (cacheMessage, self) := by
  rcases ChatViewController.conversationListener_cases hself h with
    ⟨-, hs⟩ | ⟨D₁, r, D₂, hD, hD₁, hr, -⟩
  · exact hs
  · rw [firstUncached_of_split hD hD₁ hr] at hn
    cases hn

end Split

end MessageApp
