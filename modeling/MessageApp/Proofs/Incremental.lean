import MessageApp.Proofs.Cache

/-!
# The cache of one open chat

While one instance alone serves a chat that was not cached, the cache holds its rows
(`Follows.step`): the entries of each snapshot, in key order, whose keys came in none before
(`incremental_cache`). A callback sorts the document it gets, not the rows. So the rows of growing
snapshots are in key order, and depend on the last snapshot alone, exactly when every snapshot
adds its keys past those of the one before (`order_independent_iff`).
-/

namespace MessageApp

open Keyed

/-- Every field is an array of strings, three of them at least. -/
def Doc.Records (doc : Doc) : Prop :=
  ∀ (k : String) (v : Value), doc[k]? = some v → ∃ l, v.strings? = some l ∧ 3 ≤ l.length

/-- The rows of the documents: each adds the entries, in key order, whose keys are not there. -/
def rowsAfter (docs : List Doc) : List Row := absorbAll Row.key (docs.map Row.ofDoc)

theorem Row.ofDoc_sorted (doc : Doc) : Sorted Row.key (Row.ofDoc doc) := by
  have h : doc.keys.Pairwise fun a b => compare a b = .lt := Std.ExtTreeMap.ordered_keys
  rw [← Row.ofDoc_keys, List.pairwise_map] at h
  exact h.imp fun h => compare_lt_iff_lt.1 h

theorem Row.ofDoc_eq_nil_iff {doc : Doc} : Row.ofDoc doc = [] ↔ doc = ∅ := by
  rw [Row.ofDoc, List.map_eq_nil_iff, Std.ExtTreeMap.toList_eq_nil_iff]

theorem rowsAfter_eq_nil_iff {docs : List Doc} : rowsAfter docs = [] ↔ ∀ D ∈ docs, D = ∅ := by
  unfold rowsAfter
  rw [absorbAll_eq_nil_iff]
  constructor
  · intro h D hD
    exact Row.ofDoc_eq_nil_iff.1 (h _ (List.mem_map_of_mem hD))
  · intro h rows hrows
    obtain ⟨D, hD, rfl⟩ := List.mem_map.1 hrows
    exact Row.ofDoc_eq_nil_iff.2 (h D hD)

theorem Doc.records_ofDict {d : Dict (List String)} (h : ∀ e ∈ d.toList, 3 ≤ e.2.length) :
    (Doc.ofDict d).Records := by
  intro k v hv
  rw [Doc.getElem?_ofDict, Option.map_eq_some_iff] at hv
  obtain ⟨l, hl, rfl⟩ := hv
  exact ⟨l, Value.strings?_ofStrings l,
    h (k, l) (Std.ExtTreeMap.mem_toList_iff_getElem?_eq_some.2 hl)⟩

/-- The row of an entry is a record of the document it is in. -/
theorem Doc.Records.isOf {doc : Doc} (h : doc.Records) {r : Row} (hr : r ∈ Row.ofDoc doc) :
    ∃ v, doc[r.key]? = some v ∧ r.IsOf (r.key, v) := by
  obtain ⟨⟨k, v⟩, he, rfl⟩ := List.mem_map.1 hr
  have hv : doc[k]? = some v := Std.ExtTreeMap.mem_toList_iff_getElem?_eq_some.1 he
  obtain ⟨l, hl, hlen⟩ := h k v hv
  refine ⟨v, hv, rfl, ?_⟩
  match l, hl, hlen with
  | text :: who :: audio :: rest, hl, _ =>
    exact ⟨rest, by simpa [Row.ofEntry, hl] using Value.ofStrings_of_strings? hl⟩

namespace ChatViewController

variable {cacheMessage : Dict (List (List String))} {self : ChatViewController} {c : String}
  {own : List Row}

/-- The callbacks of one instance, with the documents they deliver. -/
def callbacks (cacheMessage : Dict (List (List String))) (self : ChatViewController)
    (docs : List Doc) : Option (Dict (List (List String)) × ChatViewController) :=
  docs.foldlM (fun s D => conversationListener s.1 s.2 (some D)) (cacheMessage, self)

/-! ## No callback traps -/

theorem appendEntry_isSome {k : String} {v : Value}
    (hcache : ∀ columns, cacheMessage[self.chatWithId]? = some columns → columns ≠ [])
    (hv : ∃ l, v.strings? = some l ∧ 3 ≤ l.length) :
    (self.appendEntry cacheMessage k v).isSome := by
  obtain ⟨l, hl, hlen⟩ := hv
  have hcached : ∃ b, isCached cacheMessage self.chatWithId k = some b := by
    unfold isCached
    split
    · exact ⟨false, rfl⟩
    · rename_i columns hs
      obtain ⟨ks, rest, rfl⟩ := List.exists_cons_of_ne_nil (hcache columns hs)
      exact ⟨_, rfl⟩
  obtain ⟨b, hb⟩ := hcached
  match l, hl, hlen with
  | text :: who :: audio :: rest, hl, _ =>
    cases b <;> simp [appendEntry, hb, hl]

theorem foldlM_appendEntry_isSome {es : List (String × Value)}
    (hes : ∀ e ∈ es, ∃ l, e.2.strings? = some l ∧ 3 ≤ l.length) (hself : self.Holds own)
    (hcache : ∀ columns, cacheMessage[self.chatWithId]? = some columns → columns ≠ []) :
    (es.foldlM (fun s e => appendEntry s.1 s.2 e.1 e.2) (cacheMessage, self)).isSome := by
  induction es generalizing cacheMessage self own with
  | nil => rfl
  | cons e es ih =>
    obtain ⟨s, hs⟩ := Option.isSome_iff_exists.1
      (appendEntry_isSome (k := e.1) hcache (hes e List.mem_cons_self))
    rw [List.foldlM_cons, hs]
    have hes : ∀ e ∈ es, ∃ l, e.2.strings? = some l ∧ 3 ≤ l.length := fun e' he' =>
      hes e' (List.mem_cons_of_mem _ he')
    rcases appendEntry_cases hself hs with ⟨-, rfl⟩ | ⟨-, -, rfl⟩
    · exact ih hes hself hcache
    · refine ih hes (holds_withRows self _) fun columns hc => ?_
      simp only [withRows_chatWithId, Std.ExtTreeMap.getElem?_insert_self, Option.some.injEq] at hc
      simp [← hc, Row.columns]

theorem conversationListener_isSome {doc : Doc} (hdoc : doc.Records) (hself : self.Holds own)
    (hcache : ∀ columns, cacheMessage[self.chatWithId]? = some columns → columns ≠ []) :
    (self.conversationListener cacheMessage (some doc)).isSome :=
  foldlM_appendEntry_isSome
    (fun e he => hdoc e.1 e.2 (Std.ExtTreeMap.mem_toList_iff_getElem?_eq_some.1 he)) hself hcache

/-! ## The cache follows the instance -/

/-- The instance holds these rows, and they are what is cached for its chat. -/
structure Follows (cacheMessage : Dict (List (List String))) (a : ChatViewController)
    (c : String) (own : List Row) : Prop where
  chat : a.chatWithId = c
  holds : a.Holds own
  cached : cacheMessage[c]? = if own = [] then none else some (Row.columns own)

theorem Follows.cachedKeys_eq (h : Follows cacheMessage self c own) :
    cachedKeys cacheMessage c = own.map Row.key := by
  have hc := h.cached
  split_ifs at hc with hn
  · simp [cachedKeys, hc, hn]
  · exact cachedKeys_of_columns hc

theorem Follows.step (h : Follows cacheMessage self c own) {doc : Doc}
    {s : Dict (List (List String)) × ChatViewController}
    (hs : self.conversationListener cacheMessage (some doc) = some s) :
    Follows s.1 s.2 c (absorb Row.key own (Row.ofDoc doc)) := by
  have hkeys := h.cachedKeys_eq
  obtain rfl := h.chat
  rcases conversationListener_cases h.holds hs with ⟨hall, rfl⟩ | ⟨D₁, r, D₂, hD, hD₁, hr, rfl, -⟩
  · have hnone : (Row.ofDoc doc).filter (fun a => a.key ∉ own.map Row.key) = [] := by
      refine List.filter_eq_nil_iff.2 fun a ha => ?_
      simpa [hkeys] using hall a ha
    rw [absorb, hnone, List.append_nil]
    exact h
  · have habsorb : absorb Row.key own (Row.ofDoc doc) = absorb Row.key (own ++ [r]) D₂ := by
      have hnodup := Row.ofDoc_keys_nodup doc
      rw [hD, List.map_append, List.map_cons, List.nodup_append', List.nodup_cons] at hnodup
      rw [hkeys] at hr
      rw [hD]
      clear * - hD₁ hkeys hr hnodup
      induction D₁ with
      | nil => exact absorb_cons_of_notMem Row.key hr hnodup.2.1.1
      | cons a D₁ ih =>
        rw [List.cons_append, absorb_cons_of_mem Row.key (hkeys ▸ hD₁ a List.mem_cons_self)]
        exact ih (fun a ha => hD₁ a (List.mem_cons_of_mem _ ha)) ⟨hnodup.1.of_cons, hnodup.2.1,
          fun k hk => hnodup.2.2 (List.mem_cons_of_mem _ hk)⟩
    rw [habsorb]
    exact ⟨rfl, holds_withRows self _, by simp [absorb]⟩

theorem Follows.callbacks {docs : List Doc} (hdocs : ∀ D ∈ docs, D.Records)
    (h : Follows cacheMessage self c []) :
    ∃ s, self.callbacks cacheMessage docs = some s ∧ Follows s.1 s.2 c (rowsAfter docs) := by
  induction docs using List.reverseRecOn with
  | nil => exact ⟨_, rfl, h⟩
  | append_singleton docs D ih =>
    obtain ⟨m, hm, hf⟩ := ih fun D' hD' => hdocs D' (List.mem_append_left _ hD')
    have hcache : ∀ columns, m.1[m.2.chatWithId]? = some columns → columns ≠ [] := by
      intro columns hc
      rw [hf.chat, hf.cached] at hc
      split_ifs at hc
      simp [← Option.some.inj hc, Row.columns]
    obtain ⟨s, hs⟩ := Option.isSome_iff_exists.1
      (conversationListener_isSome (hdocs D (by simp)) hf.holds hcache)
    refine ⟨s, ?_, ?_⟩
    · unfold ChatViewController.callbacks at hm ⊢
      rw [List.foldlM_append, hm]
      simpa using hs
    · rw [rowsAfter, List.map_append, List.map_singleton, absorbAll_snoc]
      exact hf.step hs

/-- An instance that has just appeared, for a chat that is not cached. -/
theorem follows_of_opened {g g' : Globals} {uid : String} {ws : List Write}
    (hopen : viewWillAppear g uid = some (self, g', ws))
    (hnew : g.cacheMessage[g.information.idofChat]? = none) :
    self.chatWithId = g.information.idofChat ∧
      Follows g'.cacheMessage self g.information.idofChat [] := by
  obtain ⟨kept, -, hr⟩ := Device.viewWillAppear_eq_some hopen
  obtain ⟨rfl, hg⟩ := Prod.mk.inj hr
  obtain ⟨rfl, -⟩ := Prod.mk.inj hg
  exact ⟨rfl, rfl, rfl, hnew⟩

/-- What the callbacks of one instance leave in the cache, for a chat that was not cached. -/
theorem incremental_cache {g g' : Globals} {uid : String} {ws : List Write}
    (hopen : viewWillAppear g uid = some (self, g', ws))
    (hnew : g.cacheMessage[g.information.idofChat]? = none) (docs : List Doc)
    (hdocs : ∀ D ∈ docs, D.Records) :
    ∃ s, self.callbacks g'.cacheMessage docs = some s ∧
      ((∀ D ∈ docs, D = ∅) → s.1[g.information.idofChat]? = none) ∧
      ((∃ D ∈ docs, D ≠ ∅) →
        s.1[g.information.idofChat]? = some (Row.columns (rowsAfter docs))) ∧
      (∀ i, rowsAfter (docs.take i) <+: rowsAfter (docs.take (i + 1))) ∧
      ((rowsAfter docs).map Row.key).Nodup ∧
      (∀ k, k ∈ (rowsAfter docs).map Row.key ↔ ∃ D ∈ docs, k ∈ D) ∧
      ∀ r ∈ rowsAfter docs, ∃ docs₁ D docs₂, docs = docs₁ ++ D :: docs₂ ∧
        (∀ D' ∈ docs₁, r.key ∉ D') ∧ ∃ v, D[r.key]? = some v ∧ r.IsOf (r.key, v) := by
  obtain ⟨-, hf⟩ := follows_of_opened hopen hnew
  obtain ⟨s, hs, hf⟩ := hf.callbacks hdocs
  refine ⟨s, hs, fun hall => ?_, fun hex => ?_, fun i => ?_, ?_, fun k => ?_, fun r hr => ?_⟩
  · rw [hf.cached, if_pos (rowsAfter_eq_nil_iff.2 hall)]
  · obtain ⟨D, hD, hne⟩ := hex
    rw [hf.cached, if_neg fun hn => hne (rowsAfter_eq_nil_iff.1 hn D hD)]
  · rw [rowsAfter, rowsAfter, List.take_add_one, List.map_append]
    exact absorbAll_prefix Row.key _ _
  · refine nodup_absorbAll Row.key fun rows hrows => ?_
    obtain ⟨D, -, rfl⟩ := List.mem_map.1 hrows
    exact Row.ofDoc_keys_nodup D
  · rw [rowsAfter, mem_absorbAll_keys]
    constructor
    · rintro ⟨rows, hrows, hk⟩
      obtain ⟨D, hD, rfl⟩ := List.mem_map.1 hrows
      exact ⟨D, hD, mem_ofDoc_keys.1 hk⟩
    · rintro ⟨D, hD, hk⟩
      exact ⟨_, List.mem_map_of_mem hD, mem_ofDoc_keys.2 hk⟩
  · obtain ⟨Ds₁, D', Ds₂, hsplit, hrD, hne⟩ := first_of_mem_absorbAll Row.key hr
    obtain ⟨docs₁, rest, rfl, rfl, hrest⟩ := List.map_eq_append_iff.1 hsplit
    obtain ⟨D, docs₂, rfl, rfl, rfl⟩ := List.map_eq_cons_iff.1 hrest
    refine ⟨docs₁, D, docs₂, rfl, fun D' hD' hk => ?_, (hdocs D (by simp)).isOf hrD⟩
    exact hne _ (List.mem_map_of_mem hD') (mem_ofDoc_keys.2 hk)

/-- Messages of `b` under these keys. -/
def messagesAt (keys : List String) : Doc :=
  .ofDict (.ofList (keys.map fun k => (k, ["hi", "b", "false"])))

/-- A message, and then one with an earlier key. -/
def lateDocs : List Doc := [messagesAt ["2"], messagesAt ["1", "2"]]

theorem lateDocs_records : ∀ D ∈ lateDocs, D.Records := by
  intro D hD
  rcases List.mem_cons.1 hD with rfl | hD
  · exact Doc.records_ofDict (by decide)
  · rw [List.mem_singleton.1 hD]
    exact Doc.records_ofDict (by decide)

theorem incremental_cache_late : ∃ self g' ws s,
    viewWillAppear { information := ⟨"b", false⟩ } "a" = some (self, g', ws) ∧
      self.callbacks g'.cacheMessage lateDocs = some s ∧
      s.1["b"]? = some (Row.columns (rowsAfter lateDocs)) ∧
      (rowsAfter lateDocs).map Row.key = ["2", "1"] := by
  obtain ⟨⟨self, g', ws⟩, hopen⟩ := Option.isSome_iff_exists.1
    (by decide : (viewWillAppear { information := ⟨"b", false⟩ } "a").isSome)
  obtain ⟨s, hs, -, hcached, -⟩ := incremental_cache hopen (by decide) lateDocs lateDocs_records
  exact ⟨self, g', ws, s, hopen, hs, hcached (by decide), by decide⟩

/-! ## The order of the rows -/

/-- Each document has the entries of the one before. -/
def Grows (docs : List Doc) : Prop :=
  docs.IsChain fun D D' => ∀ (k : String) (v : Value), D[k]? = some v → D'[k]? = some v

/-- Each document adds its keys past those of the one before. -/
def AddsInOrder (docs : List Doc) : Prop :=
  docs.IsChain fun D D' => ∀ k ∈ D', k ∉ D → ∀ k' ∈ D, k' < k

/-- The callbacks with either documents leave the same rows cached, in the order of their keys. -/
def LeaveSameRows (cacheMessage : Dict (List (List String))) (self : ChatViewController)
    (docs docs' : List Doc) : Prop :=
  ∃ s s', self.callbacks cacheMessage docs = some s ∧
    self.callbacks cacheMessage docs' = some s' ∧
    s.1[self.chatWithId]? = s'.1[self.chatWithId]? ∧
    (cachedKeys s.1 self.chatWithId).Pairwise (· < ·)

section Order

variable {docs docs' : List Doc} {D : Doc}

theorem Grows.subset (h : Grows (docs ++ [D])) : ∀ D' ∈ docs ++ [D], ∀ (k : String) (v : Value),
    D'[k]? = some v → D[k]? = some v := by
  intro D' hD'
  rcases List.mem_append.1 hD' with hD' | hD'
  · have htrans : IsTrans Doc fun D D' =>
        ∀ (k : String) (v : Value), D[k]? = some v → D'[k]? = some v :=
      ⟨fun _ _ _ h h' k v hv => h' k v (h k v hv)⟩
    exact (List.pairwise_append.1 (List.isChain_iff_pairwise.1 h)).2.2 D' hD' D (by simp)
  · exact List.mem_singleton.1 hD' ▸ fun _ _ hv => hv

theorem Grows.records (h : Grows (docs ++ [D])) (hD : D.Records) :
    ∀ D' ∈ docs ++ [D], D'.Records :=
  fun D' hD' k v hv => hD k v (h.subset D' hD' k v hv)

theorem Grows.rows (h : Grows docs) : (docs.map Row.ofDoc).IsChain (· ⊆ ·) := by
  refine (List.isChain_map Row.ofDoc).2 (h.imp fun D D' hsub r hr => ?_)
  obtain ⟨⟨k, v⟩, he, rfl⟩ := List.mem_map.1 hr
  rw [Std.ExtTreeMap.mem_toList_iff_getElem?_eq_some] at he
  exact List.mem_map_of_mem (Std.ExtTreeMap.mem_toList_iff_getElem?_eq_some.2 (hsub k v he))

theorem forall_ofDoc {P : String → Prop} : (∀ r ∈ Row.ofDoc D, P r.key) ↔ ∀ k ∈ D, P k := by
  rw [← List.forall_mem_map (f := Row.key)]
  exact forall_congr' fun k => imp_congr_left mem_ofDoc_keys

theorem addsInOrder_iff :
    AddsInOrder docs ↔ (docs.map Row.ofDoc).IsChain (AddsLater Row.key) := by
  rw [List.isChain_map]
  refine List.IsChain.iff fun D D' => ?_
  unfold AddsLater
  rw [forall_ofDoc (P := fun k => k ∉ (Row.ofDoc D).map Row.key →
    ∀ a ∈ Row.ofDoc D, a.key < k)]
  refine forall₂_congr fun k _ => ?_
  rw [mem_ofDoc_keys, forall_ofDoc (P := (· < k))]

theorem sorted_rowsAfter_iff (h : Grows docs) :
    Sorted Row.key (rowsAfter docs) ↔ AddsInOrder docs := by
  rw [addsInOrder_iff]
  refine sorted_absorbAll_iff Row.key (fun rows hrows => ?_) h.rows
  obtain ⟨D, -, rfl⟩ := List.mem_map.1 hrows
  exact Row.ofDoc_sorted D

theorem mem_rowsAfter (h : Grows (docs ++ [D])) {r : Row} :
    r ∈ rowsAfter (docs ++ [D]) ↔ r ∈ Row.ofDoc D := by
  have hrows := h.rows
  rw [List.map_append, List.map_singleton] at hrows
  rw [rowsAfter, List.map_append, List.map_singleton]
  exact mem_absorbAll_of_grows Row.key (Row.ofDoc_keys_nodup D) hrows

/-- Growing snapshots that end in the same document leave the same rows, in the order of their
keys, if and only if each of them adds its keys past those of the one before. -/
theorem order_independent_iff {g g' : Globals} {uid : String} {ws : List Write}
    (hopen : viewWillAppear g uid = some (self, g', ws))
    (hnew : g.cacheMessage[g.information.idofChat]? = none) (hD : D.Records)
    (hgrows : Grows (docs ++ [D])) (hgrows' : Grows (docs' ++ [D])) :
    LeaveSameRows g'.cacheMessage self (docs ++ [D]) (docs' ++ [D]) ↔
      AddsInOrder (docs ++ [D]) ∧ AddsInOrder (docs' ++ [D]) := by
  obtain ⟨hc, hf⟩ := follows_of_opened hopen hnew
  obtain ⟨s, hs, hf₁⟩ := hf.callbacks (hgrows.records hD)
  obtain ⟨s', hs', hf₂⟩ := hf.callbacks (hgrows'.records hD)
  rw [← sorted_rowsAfter_iff hgrows, ← sorted_rowsAfter_iff hgrows']
  have hkeys : (cachedKeys s.1 self.chatWithId).Pairwise (· < ·) ↔
      Sorted Row.key (rowsAfter (docs ++ [D])) := by
    rw [hc, hf₁.cachedKeys_eq, List.pairwise_map]
    rfl
  have heq : s.1[self.chatWithId]? = s'.1[self.chatWithId]? ↔
      rowsAfter (docs ++ [D]) = rowsAfter (docs' ++ [D]) := by
    rw [hc, hf₁.cached, hf₂.cached]
    refine ⟨fun h => ?_, fun h => by rw [h]⟩
    split_ifs at h with h₁ h₂ h₂
    · rw [h₁, h₂]
    · exact Row.columns_inj (Option.some.inj h)
  constructor
  · rintro ⟨t, t', ht, ht', hsame, hsorted⟩
    obtain rfl := Option.some.inj (hs.symm.trans ht)
    obtain rfl := Option.some.inj (hs'.symm.trans ht')
    exact ⟨hkeys.1 hsorted, heq.1 hsame ▸ hkeys.1 hsorted⟩
  · rintro ⟨hsorted, hsorted'⟩
    refine ⟨s, s', hs, hs', heq.2 (eq_of_sorted Row.key hsorted hsorted' fun r => ?_),
      hkeys.2 hsorted⟩
    rw [mem_rowsAfter hgrows, mem_rowsAfter hgrows']

end Order

theorem grows_pair {D D' : Doc} (h : ∀ e ∈ D.toList, e ∈ D'.toList) : Grows [D, D'] := by
  refine List.isChain_pair.2 fun k v hv => ?_
  exact Std.ExtTreeMap.mem_toList_iff_getElem?_eq_some.1
    (h (k, v) (Std.ExtTreeMap.mem_toList_iff_getElem?_eq_some.2 hv))

theorem addsInOrder_pair {D D' : Doc}
    (h : ∀ k ∈ D'.keys, k ∉ D.keys → ∀ k' ∈ D.keys, k' < k) : AddsInOrder [D, D'] := by
  simp only [Std.ExtTreeMap.mem_keys] at h
  exact List.isChain_pair.2 h

theorem order_independent_in_time : ∃ self g' ws,
    viewWillAppear { information := ⟨"b", false⟩ } "a" = some (self, g', ws) ∧
      LeaveSameRows g'.cacheMessage self ([messagesAt ["1"]] ++ [messagesAt ["1", "2"]])
        ([] ++ [messagesAt ["1", "2"]]) := by
  obtain ⟨⟨self, g', ws⟩, hopen⟩ := Option.isSome_iff_exists.1
    (by decide : (viewWillAppear { information := ⟨"b", false⟩ } "a").isSome)
  have hD : (messagesAt ["1", "2"]).Records := lateDocs_records _ (by simp [lateDocs])
  have hone : Grows ([] ++ [messagesAt ["1", "2"]]) := .singleton _
  exact ⟨self, g', ws, hopen, (order_independent_iff hopen (by decide) hD
    (grows_pair (by decide)) hone).2 ⟨addsInOrder_pair (by decide), .singleton _⟩⟩

/-- The earlier key arrives last, or the two at once. -/
theorem not_order_independent :
    ¬ ∀ (g g' : Globals) (uid : String) (self : ChatViewController) (ws : List Write)
        (docs docs' : List Doc) (D : Doc), viewWillAppear g uid = some (self, g', ws) →
      g.cacheMessage = ∅ → D.Records → Grows (docs ++ [D]) → Grows (docs' ++ [D]) →
      LeaveSameRows g'.cacheMessage self (docs ++ [D]) (docs' ++ [D]) := by
  intro h
  obtain ⟨⟨self, g', ws⟩, hopen⟩ := Option.isSome_iff_exists.1
    (by decide : (viewWillAppear { information := ⟨"b", false⟩ } "a").isSome)
  have hD : (messagesAt ["1", "2"]).Records := lateDocs_records _ (by simp [lateDocs])
  obtain ⟨s, s', hs, -, -, hsorted⟩ := h _ _ _ _ _ [messagesAt ["2"]] [] _ hopen rfl hD
    (grows_pair (by decide)) (.singleton _)
  obtain ⟨hc, hf⟩ := follows_of_opened hopen rfl
  obtain ⟨t, ht, hf⟩ := hf.callbacks lateDocs_records
  obtain rfl := Option.some.inj (hs.symm.trans ht)
  rw [hc, hf.cachedKeys_eq] at hsorted
  revert hsorted
  decide

end ChatViewController

end MessageApp
