import Mathlib.Data.List.TakeWhile
import MessageApp.Proofs.Alignment
import MessageApp.Scrolling

/-!
# Scheduled scrolls

A scheduled block reads the cache when it runs. It is safe while its chat is cached, with no more
rows than its table had when it was last reloaded (`safe_iff_room`). Signing out empties the cache,
a callback on an empty document schedules a block with nothing cached, and a callback of one
instance lets the cache outgrow the tables of the others; nothing else endangers a block
(`scrolls_safe_iff`).
-/

namespace MessageApp

open Keyed

namespace ChatViewController

/-- What a callback appends: the first key of its document that is not cached, and those after it
that the instance lacks. -/
def appendedKeys (cacheMessage : Dict (List (List String))) (self : ChatViewController)
    (doc : Doc) : List String :=
  match doc.keys.dropWhile (· ∈ cachedKeys cacheMessage self.chatWithId) with
  | [] => []
  | key :: rest => key :: rest.filter (· ∉ self.keys)

theorem appendedKeys_of_cached {cacheMessage : Dict (List (List String))}
    {self : ChatViewController} {doc : Doc}
    (h : ∀ r ∈ Row.ofDoc doc, r.key ∈ cachedKeys cacheMessage self.chatWithId) :
    appendedKeys cacheMessage self doc = [] := by
  have hdrop : doc.keys.dropWhile (· ∈ cachedKeys cacheMessage self.chatWithId) = [] := by
    rw [← Row.ofDoc_keys, List.dropWhile_eq_nil_iff]
    intro k hk
    obtain ⟨r, hr, rfl⟩ := List.mem_map.1 hk
    simpa using h r hr
  rw [appendedKeys, hdrop]

theorem mem_cachedKeys_of_appendedKeys {cacheMessage : Dict (List (List String))}
    {self : ChatViewController} {doc : Doc} (h : appendedKeys cacheMessage self doc = []) :
    ∀ k ∈ doc.keys, k ∈ cachedKeys cacheMessage self.chatWithId := by
  unfold appendedKeys at h
  split at h
  · rename_i hdrop
    intro k hk
    simpa using List.dropWhile_eq_nil_iff.1 hdrop k hk
  · cases h

theorem appendedKeys_of_split {cacheMessage : Dict (List (List String))}
    {self : ChatViewController} {doc : Doc} {D₁ D₂ : List Row} {r : Row}
    (hD : Row.ofDoc doc = D₁ ++ r :: D₂)
    (h₁ : ∀ a ∈ D₁, a.key ∈ cachedKeys cacheMessage self.chatWithId)
    (hr : r.key ∉ cachedKeys cacheMessage self.chatWithId) :
    appendedKeys cacheMessage self doc =
      r.key :: (D₂.map Row.key).filter (· ∉ self.keys) := by
  have hdrop : doc.keys.dropWhile (· ∈ cachedKeys cacheMessage self.chatWithId) =
      r.key :: D₂.map Row.key := by
    rw [keys_of_split hD, List.dropWhile_append_of_pos,
      List.dropWhile_cons_of_neg (by simpa using hr)]
    intro k hk
    obtain ⟨a, ha, rfl⟩ := List.mem_map.1 hk
    simpa using h₁ a ha
  rw [appendedKeys, hdrop]

/-- The callback appends its keys to the instance's, and caches the instance's rows; without a key
to append it changes nothing. -/
theorem conversationListener_appends {cacheMessage : Dict (List (List String))}
    {self : ChatViewController} {own : List Row} (hself : self.Holds own) {doc : Doc}
    {s : Dict (List (List String)) × ChatViewController}
    (h : self.conversationListener cacheMessage (some doc) = some s) :
    (appendedKeys cacheMessage self doc = [] ∧ s = (cacheMessage, self)) ∨
    ∃ rows : List Row, appendedKeys cacheMessage self doc ≠ [] ∧
      rows.map Row.key = self.keys ++ appendedKeys cacheMessage self doc ∧
      s = (cacheMessage.insert self.chatWithId (Row.columns rows), self.withRows rows) := by
  rcases conversationListener_cases hself h with ⟨hall, hs⟩ | ⟨D₁, r, D₂, hD, h₁, hr, hs, -⟩
  · exact .inl ⟨appendedKeys_of_cached hall, hs⟩
  · refine .inr ⟨_, ?_, ?_, hs⟩
    · rw [appendedKeys_of_split hD h₁ hr]
      exact List.cons_ne_nil _ _
    · have hnodup : (doc.keys).Nodup := Std.ExtTreeMap.nodup_keys
      rw [keys_of_split hD, List.nodup_append, List.nodup_cons] at hnodup
      rw [appendedKeys_of_split hD h₁ hr, hself.keys_eq, absorb, List.map_append, List.map_append,
        List.append_assoc, List.map_singleton, List.singleton_append, List.filter_map]
      congr 3
      refine List.filter_congr fun a ha => ?_
      have hne : a.key ≠ r.key := fun he => hnodup.2.1.1 (he ▸ List.mem_map_of_mem ha)
      simp [hne]

end ChatViewController

/-- What is cached of a chat is rows, one at least. -/
def Tabled (cacheMessage : Dict (List (List String))) : Prop :=
  ∀ (c : String) (columns : List (List String)), cacheMessage[c]? = some columns →
    ∃ rows, rows ≠ [] ∧ columns = Row.columns rows

theorem Device.Backed.tabled {d : Device} (h : Device.Backed d) :
    Tabled d.globals.cacheMessage := by
  intro c columns hc
  obtain ⟨hne, p, self, rows, -, -, -, -, rfl⟩ := h c columns hc
  exact ⟨rows, fun hn => hne (hn ▸ rfl), rfl⟩

namespace Scrolling

open ChatViewController

/-! ## Safety -/

/-- The chat of an instance. -/
def chat (s : Scrolling) (i : ℕ) : Option String :=
  (s.device.instances[i]?).map ChatViewController.chatWithId

/-- If a block of the instance ran now, its chat would be cached, and its row one of the table. -/
def Safe (s : Scrolling) (i : ℕ) : Prop :=
  ∃ self row n, s.device.instances[i]? = some self ∧
    self.scrollRow s.device.globals.cacheMessage = some row ∧ s.rows[i]? = some n ∧
    0 ≤ row ∧ row < n

/-- The instance's chat is cached, and its table has room for its rows. -/
def Room (s : Scrolling) (i : ℕ) : Prop :=
  ∃ c rows n, s.chat i = some c ∧ s.device.globals.cacheMessage[c]? = some (Row.columns rows) ∧
    s.rows[i]? = some n ∧ rows.length ≤ n

theorem safe_iff_room {s : Scrolling} (hT : Tabled s.device.globals.cacheMessage) {i : ℕ} :
    s.Safe i ↔ s.Room i := by
  constructor
  · rintro ⟨self, row, n, hself, hrow, hn, -, hlt⟩
    obtain ⟨columns, hc, hrow⟩ := Option.bind_eq_some_iff.1 hrow
    obtain ⟨rows, -, rfl⟩ := hT _ columns hc
    obtain ⟨texts, htexts, hrow⟩ := Option.bind_eq_some_iff.1 hrow
    obtain rfl := Option.some.inj htexts
    obtain rfl := Option.some.inj hrow
    rw [List.length_map] at hlt
    exact ⟨_, rows, n, congrArg (Option.map _) hself, hc, hn, by omega⟩
  · rintro ⟨c, rows, n, hchat, hc, hn, hle⟩
    obtain ⟨self, hself, rfl⟩ := Option.map_eq_some_iff.1 hchat
    obtain ⟨rows', hne, hrows'⟩ := hT _ _ hc
    obtain rfl := Row.columns_inj hrows'
    have hpos := List.length_pos_iff.2 hne
    refine ⟨self, rows.length - 1, n, hself, ?_, hn, by omega, by omega⟩
    simp [scrollRow, hc, Row.columns]

/-- An instance keeps its room while its chat, its table and what is cached of its chat stay. -/
theorem Room.congr {s s' : Scrolling} {i : ℕ} (h : s.Room i) (hchat : s'.chat i = s.chat i)
    (hrows : s'.rows[i]? = s.rows[i]?)
    (hcache : ∀ c, s.chat i = some c →
      s'.device.globals.cacheMessage[c]? = s.device.globals.cacheMessage[c]?) : s'.Room i := by
  obtain ⟨c, rows, n, hc, hcols, hn, hle⟩ := h
  exact ⟨c, rows, n, hchat.trans hc, (hcache c hc).trans hcols, hrows.trans hn, hle⟩

theorem Room.lt {s : Scrolling} {i : ℕ} (h : s.Room i) : i < s.device.instances.length := by
  obtain ⟨c, rows, n, hchat, -⟩ := h
  obtain ⟨self, hself, -⟩ := Option.map_eq_some_iff.1 hchat
  exact (List.getElem?_eq_some_iff.1 hself).1

/-! ## Steps -/

theorem reload_eq_some {s s' : Scrolling} {i k : ℕ} (h : s.reload i k = some s') :
    ∃ self n, s.device.instances[i]? = some self ∧
      self.numberOfRowsInSection s.device.globals.cacheMessage = some n ∧
      s' = { s with rows := s.rows.set i n, scrolls := s.scrolls ++ List.replicate k i } := by
  obtain ⟨self, hself, h⟩ := Option.bind_eq_some_iff.1 h
  obtain ⟨n, hn, h⟩ := Option.bind_eq_some_iff.1 h
  exact ⟨self, n, hself, hn, (Option.some.inj h).symm⟩

/-- The table has the rows that are cached. -/
theorem numberOfRows_eq_some {cacheMessage : Dict (List (List String))} (hT : Tabled cacheMessage)
    {self : ChatViewController} {n : ℕ} (h : self.numberOfRowsInSection cacheMessage = some n) :
    (cacheMessage[self.chatWithId]? = none ∧ n = 0) ∨
      ∃ rows, cacheMessage[self.chatWithId]? = some (Row.columns rows) ∧ n = rows.length := by
  unfold numberOfRowsInSection at h
  cases hc : cacheMessage[self.chatWithId]? with
  | none =>
    rw [hc] at h
    exact .inl ⟨rfl, (Option.some.inj h).symm⟩
  | some columns =>
    obtain ⟨rows, -, rfl⟩ := hT _ columns hc
    rw [hc] at h
    refine .inr ⟨rows, rfl, ?_⟩
    simpa [Row.columns] using h.symm

theorem step_openChat {s s' : Scrolling} {id : String} {g : Bool}
    (h : s.step (.device (.openChat id g)) = some s') :
    ∃ d ws, s.device.step (.openChat id g) = some (d, ws) ∧
      if (s.device.globals.cacheMessage[id]?).isSome then
        reload { s with device := d, rows := s.rows ++ [0] } s.device.instances.length 1 = some s'
      else s' = { s with device := d, rows := s.rows ++ [0] } := by
  obtain ⟨⟨d, ws⟩, hd, h⟩ := Option.bind_eq_some_iff.1 h
  refine ⟨d, ws, hd, ?_⟩
  simp only at h
  split_ifs at h ⊢ with hc
  · exact h
  · exact (Option.some.inj h).symm

theorem step_callback {s s' : Scrolling} {i : ℕ} {doc : Doc}
    (h : s.step (.device (.conversationSnapshot i (some doc))) = some s') :
    ∃ d ws k, s.device.step (.conversationSnapshot i (some doc)) = some (d, ws) ∧
      reload { s with device := d } i (k + 1) = some s' := by
  obtain ⟨⟨d, ws⟩, hd, h⟩ := Option.bind_eq_some_iff.1 h
  obtain ⟨self', -, h⟩ := Option.bind_eq_some_iff.1 h
  obtain ⟨self, -, h⟩ := Option.bind_eq_some_iff.1 h
  exact ⟨d, ws, _, hd, h⟩

theorem step_scroll {s s' : Scrolling} {k : ℕ} (h : s.step (.scroll k) = some s') :
    s' = { s with scrolls := s.scrolls.eraseIdx k } := by
  obtain ⟨i, -, h⟩ := Option.bind_eq_some_iff.1 h
  obtain ⟨self, -, h⟩ := Option.bind_eq_some_iff.1 h
  obtain ⟨row, -, h⟩ := Option.bind_eq_some_iff.1 h
  obtain ⟨n, -, h⟩ := Option.bind_eq_some_iff.1 h
  split_ifs at h
  exact (Option.some.inj h).symm

/-- The events that touch tables. -/
def Event.touchesTables : Event → Bool
  | .device (.openChat _ _) | .device (.conversationSnapshot _ (some _)) | .scroll _ => true
  | _ => false

/-- `LoginViewController.Signout` -/
def Event.signsOut : Event → Bool
  | .device .signout => true
  | _ => false

theorem step_other {s s' : Scrolling} {e : Device.Event}
    (he : Event.touchesTables (.device e) = false) (h : s.step (.device e) = some s') :
    ∃ d ws, s.device.step e = some (d, ws) ∧ s' = { s with device := d } := by
  obtain ⟨⟨d, ws⟩, hd, h⟩ := Option.bind_eq_some_iff.1 h
  refine ⟨d, ws, hd, ?_⟩
  cases e with
  | openChat id g => cases he
  | conversationSnapshot i doc =>
    cases doc with
    | none => exact (Option.some.inj h).symm
    | some doc => cases he
  | _ => exact (Option.some.inj h).symm

/-! ## The process under the tables -/

theorem device_of_step {e : Event} {s s' : Scrolling} (h : s.step e = some s') :
    EventRun.Reaches Device.next s.device s'.device := by
  cases e with
  | device e =>
    cases he : Event.touchesTables (.device e) with
    | false =>
      obtain ⟨d, ws, hd, rfl⟩ := step_other he h
      exact .of_step _ (congrArg (Option.map Prod.fst) hd)
    | true =>
      cases e with
      | openChat id g =>
        obtain ⟨d, ws, hd, h⟩ := step_openChat h
        have hd' : s'.device = d := by
          split_ifs at h
          · obtain ⟨self, n, -, -, rfl⟩ := reload_eq_some h
            rfl
          · rw [h]
        exact hd' ▸ .of_step _ (congrArg (Option.map Prod.fst) hd)
      | conversationSnapshot i doc =>
        cases doc with
        | none => cases he
        | some doc =>
          obtain ⟨d, ws, k, hd, h⟩ := step_callback h
          obtain ⟨self, n, -, -, rfl⟩ := reload_eq_some h
          exact .of_step _ (congrArg (Option.map Prod.fst) hd)
      | _ => cases he
  | scroll k =>
    rw [step_scroll h]
    exact .refl _ _

theorem device_of_run {es : List Event} {s : Scrolling} (h : EventRun.run step {} es = some s) :
    EventRun.Reaches Device.next {} s.device :=
  EventRun.reaches_part step (fun _ _ _ _ hs => device_of_step hs) h

/-- An event that touches no table leaves the instances in their chats, and the cache as it is
unless it empties it. -/
theorem device_other {d d' : Device} {ws : List Write} {e : Device.Event}
    (he : Event.touchesTables (.device e) = false) (h : d.step e = some (d', ws)) :
    List.Forall₂ SameRows d.instances d'.instances ∧
      d'.globals.cacheMessage =
        if Event.signsOut (.device e) then ∅ else d.globals.cacheMessage := by
  by_cases hrows : e.TouchesRows
  · cases e with
    | signout =>
      obtain ⟨rfl, -⟩ := Prod.mk.inj (Option.some.inj h)
      exact ⟨Device.forall₂_sameRows_refl _, rfl⟩
    | openChat id g => cases he
    | conversationSnapshot i doc =>
      cases doc with
      | none =>
        obtain ⟨self, p, s, hself, -, hl, rfl, -⟩ := Device.step_conversationSnapshot h
        obtain rfl := Option.some.inj hl
        exact ⟨Device.forall₂_sameRows_set hself (.refl self), rfl⟩
      | some doc => cases he
    | _ => exact hrows.elim
  · obtain ⟨hcache, hsame⟩ := Device.step_sameRows hrows h
    have hne : Event.signsOut (.device e) = false := by
      cases e with
      | signout => exact absurd trivial hrows
      | _ => rfl
    exact ⟨hsame, by simp [hcache, hne]⟩

theorem chat_of_sameRows {s s' : Scrolling}
    (h : List.Forall₂ SameRows s.device.instances s'.device.instances) (i : ℕ) :
    s'.chat i = s.chat i := by
  obtain ⟨hlen, hsame⟩ := List.forall₂_iff_get.1 h
  unfold chat
  by_cases hi : i < s.device.instances.length
  · have hi' : i < s'.device.instances.length := hlen ▸ hi
    rw [List.getElem?_eq_getElem hi, List.getElem?_eq_getElem hi']
    exact congrArg some (hsame i hi hi').chatWithId
  · rw [List.getElem?_eq_none (by omega), List.getElem?_eq_none (by omega)]

/-- What holds of the process and the tables in every run. -/
structure Ready (s : Scrolling) : Prop where
  holds : ∀ (i : ℕ) (self : ChatViewController), s.device.instances[i]? = some self →
    ∃ rows, self.Holds rows
  tabled : Tabled s.device.globals.cacheMessage
  length_rows : s.rows.length = s.device.instances.length

theorem length_rows_step {s s' : Scrolling} {e : Event}
    (hlen : s.rows.length = s.device.instances.length) (h : s.step e = some s') :
    s'.rows.length = s'.device.instances.length := by
  cases e with
  | device e =>
    cases he : Event.touchesTables (.device e) with
    | false =>
      obtain ⟨d, ws, hd, rfl⟩ := step_other he h
      exact hlen.trans (device_other he hd).1.length_eq
    | true =>
      cases e with
      | openChat id g =>
        obtain ⟨d, ws, hd, h⟩ := step_openChat h
        obtain ⟨user, kept, -, -, rfl, -⟩ := Device.step_openChat hd
        split_ifs at h
        · obtain ⟨self, n, -, -, rfl⟩ := reload_eq_some h
          simp [hlen]
        · rw [h]
          simp [hlen]
      | conversationSnapshot i doc =>
        cases doc with
        | none => cases he
        | some doc =>
          obtain ⟨d, ws, k, hd, h⟩ := step_callback h
          obtain ⟨self, p, t, -, -, -, rfl, -⟩ := Device.step_conversationSnapshot hd
          obtain ⟨self, n, -, -, rfl⟩ := reload_eq_some h
          simp [hlen]
      | _ => cases he
  | scroll k =>
    rw [step_scroll h]
    exact hlen

theorem ready_of_run {es : List Event} {s : Scrolling} (h : EventRun.run step {} es = some s) :
    Ready s where
  holds i self hi := by
    obtain ⟨es, hes⟩ := device_of_run h
    obtain ⟨rows, hrows, -⟩ := (Device.rowsFrom_of_run hes i self hi).rows
    exact ⟨rows, hrows⟩
  tabled := by
    obtain ⟨es, hes⟩ := device_of_run h
    exact (Device.backed_of_run hes).tabled
  length_rows := EventRun.run_invariant
    (I := fun s => s.rows.length = s.device.instances.length) step
    (fun _ _ _ hlen hs => length_rows_step hlen hs) rfl h

/-! ## What endangers a block -/

/-- The callback with an existing document, with its instance. -/
def Event.callback? : Event → Option (ℕ × Doc)
  | .device (.conversationSnapshot i (some doc)) => some (i, doc)
  | _ => none

/-- Nobody signs out while a block is scheduled; a callback on an empty document finds its chat
cached; and a callback that appends leaves no more rows than any other table of its chat has for
which a block is scheduled. -/
def Steady (_ : List Event) (s : Scrolling) (e : Event) : Prop :=
  (e.signsOut → s.scrolls = []) ∧
  ∀ c ∈ e.callback?, ∀ self ∈ s.device.instances[c.1]?,
    (c.2.keys = [] → (s.device.globals.cacheMessage[self.chatWithId]?).isSome) ∧
    (appendedKeys s.device.globals.cacheMessage self c.2 ≠ [] →
      ∀ j ∈ s.scrolls, j ≠ c.1 → s.chat j = some self.chatWithId → ∀ n ∈ s.rows[j]?,
        self.keys.length + (appendedKeys s.device.globals.cacheMessage self c.2).length ≤ n)

instance (es : List Event) (s : Scrolling) : DecidablePred (Steady es s) :=
  fun e => inferInstanceAs (Decidable ((e.signsOut → s.scrolls = []) ∧
    ∀ c ∈ e.callback?, ∀ self ∈ s.device.instances[c.1]?,
      (c.2.keys = [] → (s.device.globals.cacheMessage[self.chatWithId]?).isSome) ∧
      (appendedKeys s.device.globals.cacheMessage self c.2 ≠ [] →
        ∀ j ∈ s.scrolls, j ≠ c.1 → s.chat j = some self.chatWithId → ∀ n ∈ s.rows[j]?,
          self.keys.length + (appendedKeys s.device.globals.cacheMessage self c.2).length ≤ n)))

/-- Every scheduled block is safe. -/
def Safely (s : Scrolling) : Prop := ∀ i ∈ s.scrolls, s.Safe i

variable {s s' : Scrolling} {es : List Event}

theorem rooms_other_iff {e : Device.Event} (hI : ∀ i ∈ s.scrolls, s.Room i)
    (he : Event.touchesTables (.device e) = false) (h : s.step (.device e) = some s') :
    (∀ i ∈ s'.scrolls, s'.Room i) ↔ Steady es s (.device e) := by
  obtain ⟨d, ws, hd, rfl⟩ := step_other he h
  obtain ⟨hsame, hcache⟩ := device_other he hd
  have hcallback : (Event.device e).callback? = none := by
    cases e with
    | conversationSnapshot i doc =>
      cases doc with
      | none => rfl
      | some doc => cases he
    | _ => rfl
  simp only [Steady, hcallback, Option.not_mem_none, false_implies, implies_true, and_true]
  cases hout : Event.signsOut (.device e) with
  | true =>
    rw [hout, if_pos rfl] at hcache
    constructor
    · intro hrooms _
      refine List.eq_nil_iff_forall_not_mem.2 fun i hi => ?_
      obtain ⟨c, rows, n, -, hcols, -⟩ := hrooms i hi
      simp only [hcache] at hcols
      simp at hcols
    · intro hnil i hi
      have hnil : s.scrolls = [] := hnil rfl
      simp [hnil] at hi
  | false =>
    rw [hout, if_neg Bool.false_ne_true] at hcache
    refine iff_of_true (fun i hi => ?_) fun hs => by cases hs
    exact (hI i hi).congr (chat_of_sameRows hsame i) rfl fun c _ => by rw [hcache]

theorem Room.opened {i : ℕ} {self : ChatViewController} (h : s.Room i) (hR : Ready s)
    (hinstances : s'.device.instances = s.device.instances ++ [self])
    (hcache : s'.device.globals.cacheMessage = s.device.globals.cacheMessage)
    (hrows : ∀ i < s.rows.length, s'.rows[i]? = s.rows[i]?) : s'.Room i := by
  refine h.congr ?_ (hrows i (hR.length_rows ▸ h.lt)) fun c _ => by rw [hcache]
  rw [chat, hinstances, chat, List.getElem?_append_left h.lt]

/-- A chat that opens with rows has room for them. -/
theorem rooms_openChat {id : String} {g : Bool} (hR : Ready s) (hI : ∀ i ∈ s.scrolls, s.Room i)
    (h : s.step (.device (.openChat id g)) = some s') : ∀ i ∈ s'.scrolls, s'.Room i := by
  obtain ⟨d, ws, hd, h⟩ := step_openChat h
  obtain ⟨user, kept, -, -, hd, -⟩ := Device.step_openChat hd
  obtain ⟨opened, hid, hinstances, hcache⟩ : ∃ opened : ChatViewController,
      opened.chatWithId = id ∧ d.instances = s.device.instances ++ [opened] ∧
        d.globals.cacheMessage = s.device.globals.cacheMessage := by
    rw [hd]
    exact ⟨_, rfl, rfl, rfl⟩
  split_ifs at h with hc
  · obtain ⟨self, n, hself, hn, rfl⟩ := reload_eq_some h
    simp only [hinstances, List.getElem?_concat_length, Option.some.injEq] at hself
    subst hself
    intro i hi
    rcases List.mem_append.1 hi with hi | hi
    · refine (hI i hi).opened hR hinstances hcache fun i hi => ?_
      have hne : s.device.instances.length ≠ i := hR.length_rows ▸ hi.ne'
      simp only [List.getElem?_set_ne hne, List.getElem?_append_left hi]
    · obtain rfl := List.eq_of_mem_replicate hi
      simp only [hcache] at hn
      rcases numberOfRows_eq_some hR.tabled hn with ⟨hnone, -⟩ | ⟨rows, hcols, rfl⟩
      · rw [hid] at hnone
        simp [hnone] at hc
      · refine ⟨id, rows, rows.length, ?_, ?_, ?_, le_rfl⟩
        · simp [chat, hinstances, hid]
        · rw [← hid, hcache]
          exact hcols
        · exact List.getElem?_set_self (by simp [hR.length_rows])
  · rw [h]
    exact fun i hi => (hI i hi).opened hR hinstances hcache fun i hi =>
      List.getElem?_append_left hi

theorem chat_set {i j : ℕ} {self : ChatViewController} (hij : j ≠ i)
    (hinstances : s'.device.instances = s.device.instances.set i self) : s'.chat j = s.chat j := by
  rw [chat, hinstances, List.getElem?_set_ne hij.symm]
  rfl

/-- A callback that appends nothing: the block it schedules needs a cached chat, which a document
with a key proves. -/
theorem rooms_unchanged_iff {i n : ℕ} {self : ChatViewController} {doc : Doc} (hR : Ready s)
    (hI : ∀ i ∈ s.scrolls, s.Room i) (hself : s.device.instances[i]? = some self)
    (hnil : appendedKeys s.device.globals.cacheMessage self doc = [])
    (hdevice : s'.device.instances = s.device.instances.set i self ∧
      s'.device.globals.cacheMessage = s.device.globals.cacheMessage)
    (hrows : s'.rows = s.rows.set i n) (hscrolls : ∀ j, j ∈ s'.scrolls ↔ j ∈ s.scrolls ∨ j = i)
    (hn : self.numberOfRowsInSection s.device.globals.cacheMessage = some n) :
    (∀ i ∈ s'.scrolls, s'.Room i) ↔
      (doc.keys = [] → (s.device.globals.cacheMessage[self.chatWithId]?).isSome) := by
  obtain ⟨hinstances, hcache⟩ := hdevice
  have hlt : i < s.device.instances.length := (List.getElem?_eq_some_iff.1 hself).1
  have hchat : s'.chat i = some self.chatWithId := by
    rw [chat, hinstances, List.getElem?_set_self hlt]
    rfl
  constructor
  · intro hrooms _
    obtain ⟨c, rows, m, hc, hcols, -⟩ := hrooms i ((hscrolls i).2 (.inr rfl))
    obtain rfl := Option.some.inj (hchat.symm.trans hc)
    rw [← hcache, hcols]
    rfl
  · intro hcached
    have hsome : (s.device.globals.cacheMessage[self.chatWithId]?).isSome := by
      cases hkeys : doc.keys with
      | nil => exact hcached hkeys
      | cons k ks =>
        have hk := mem_cachedKeys_of_appendedKeys hnil k (hkeys ▸ List.mem_cons_self)
        refine Option.isSome_iff_ne_none.2 fun hnone => ?_
        simp [cachedKeys, hnone] at hk
    have hroom : s'.Room i := by
      rcases numberOfRows_eq_some hR.tabled hn with ⟨hnone, -⟩ | ⟨rows, hcols, rfl⟩
      · rw [hnone] at hsome
        cases hsome
      · refine ⟨_, rows, rows.length, hchat, hcache ▸ hcols, ?_, le_rfl⟩
        rw [hrows, List.getElem?_set_self (hR.length_rows ▸ hlt)]
    intro j hj
    by_cases hij : j = i
    · exact hij ▸ hroom
    · have hj : j ∈ s.scrolls := ((hscrolls j).1 hj).resolve_right hij
      refine (hI j hj).congr (chat_set hij hinstances) ?_ fun c _ => by rw [hcache]
      rw [hrows, List.getElem?_set_ne (Ne.symm hij)]

/-- A callback that appends reloads its own table; every other of its chat needs room for the
rows. -/
theorem rooms_appended_iff {i n : ℕ} {self : ChatViewController} {rows : List Row} (hR : Ready s)
    (hI : ∀ i ∈ s.scrolls, s.Room i) (hself : s.device.instances[i]? = some self)
    (hdevice : s'.device.instances = s.device.instances.set i (self.withRows rows) ∧
      s'.device.globals.cacheMessage =
        s.device.globals.cacheMessage.insert self.chatWithId (Row.columns rows))
    (hrows : s'.rows = s.rows.set i n) (hscrolls : ∀ j, j ∈ s'.scrolls ↔ j ∈ s.scrolls ∨ j = i)
    (hn : n = rows.length) :
    (∀ i ∈ s'.scrolls, s'.Room i) ↔ ∀ j ∈ s.scrolls, j ≠ i → s.chat j = some self.chatWithId →
      ∀ n ∈ s.rows[j]?, rows.length ≤ n := by
  obtain ⟨hinstances, hcache⟩ := hdevice
  have hlt : i < s.device.instances.length := (List.getElem?_eq_some_iff.1 hself).1
  have hcols : s'.device.globals.cacheMessage[self.chatWithId]? = some (Row.columns rows) := by
    simp [hcache]
  constructor
  · intro hrooms j hj hij hchat m hm
    obtain ⟨c, rows', m', hc, hcols', hm', hle⟩ := hrooms j ((hscrolls j).2 (.inl hj))
    rw [chat_set hij hinstances, hchat] at hc
    obtain rfl := Option.some.inj hc
    obtain rfl := Row.columns_inj (Option.some.inj (hcols'.symm.trans hcols))
    rw [hrows, List.getElem?_set_ne hij.symm, hm] at hm'
    rwa [← Option.some.inj hm'] at hle
  · intro hroom j hj
    by_cases hij : j = i
    · refine ⟨self.chatWithId, rows, n, ?_, hcols, ?_, hn.ge⟩
      · rw [hij, chat, hinstances, List.getElem?_set_self hlt]
        rfl
      · rw [hij, hrows, List.getElem?_set_self (hR.length_rows ▸ hlt)]
    · have hj : j ∈ s.scrolls := ((hscrolls j).1 hj).resolve_right hij
      have hkept : s'.rows[j]? = s.rows[j]? := by rw [hrows, List.getElem?_set_ne (Ne.symm hij)]
      by_cases hchat : s.chat j = some self.chatWithId
      · obtain ⟨c, rows', m, -, -, hm, -⟩ := hI j hj
        exact ⟨self.chatWithId, rows, m, (chat_set hij hinstances).trans hchat, hcols,
          hkept.trans hm, hroom j hj hij hchat m hm⟩
      · refine (hI j hj).congr (chat_set hij hinstances) hkept fun c hc => ?_
        have hne : ¬ compare self.chatWithId c = .eq := fun he =>
          hchat (hc.trans (congrArg some (Std.LawfulEqCmp.eq_of_compare he).symm))
        rw [hcache, Std.ExtTreeMap.getElem?_insert, if_neg hne]

theorem rooms_callback_iff {i : ℕ} {doc : Doc} (hR : Ready s) (hI : ∀ i ∈ s.scrolls, s.Room i)
    (h : s.step (.device (.conversationSnapshot i (some doc))) = some s') :
    (∀ i ∈ s'.scrolls, s'.Room i) ↔
      Steady es s (.device (.conversationSnapshot i (some doc))) := by
  obtain ⟨d, ws, k, hd, h⟩ := step_callback h
  obtain ⟨self, p, t, hself, -, hl, hd, -⟩ := Device.step_conversationSnapshot hd
  obtain ⟨own, hown⟩ := hR.holds i self hself
  obtain ⟨self', n, hself', hn, hs'⟩ := reload_eq_some h
  have hlt : i < s.device.instances.length := (List.getElem?_eq_some_iff.1 hself).1
  have hinstances : d.instances = s.device.instances.set i t.2 := by rw [hd]
  have hcache : d.globals.cacheMessage = t.1 := by rw [hd]
  simp only [hinstances, List.getElem?_set_self hlt, Option.some.injEq] at hself'
  simp only [hcache, ← hself'] at hn
  have hscrolls : ∀ j, j ∈ s'.scrolls ↔ j ∈ s.scrolls ∨ j = i := by
    intro j
    simp [hs', List.mem_replicate]
  have hrows : s'.rows = s.rows.set i n := by rw [hs']
  have hdevice : s'.device.instances = s.device.instances.set i t.2 ∧
      s'.device.globals.cacheMessage = t.1 := by
    rw [hs']
    exact ⟨hinstances, hcache⟩
  have hSteady : Steady es s (.device (.conversationSnapshot i (some doc))) ↔
      (doc.keys = [] → (s.device.globals.cacheMessage[self.chatWithId]?).isSome) ∧
      (appendedKeys s.device.globals.cacheMessage self doc ≠ [] →
        ∀ j ∈ s.scrolls, j ≠ i → s.chat j = some self.chatWithId → ∀ n ∈ s.rows[j]?,
          self.keys.length + (appendedKeys s.device.globals.cacheMessage self doc).length ≤ n) := by
    simp [Steady, Event.signsOut, Event.callback?, hself]
  rw [hSteady]
  rcases conversationListener_appends hown hl with ⟨hnil, rfl⟩ | ⟨rows, hne, hkeys, rfl⟩
  · rw [rooms_unchanged_iff hR hI hself hnil hdevice hrows hscrolls hn, hnil]
    simp
  · have hlen : rows.length = self.keys.length +
        (appendedKeys s.device.globals.cacheMessage self doc).length := by
      rw [← List.length_append, ← hkeys, List.length_map]
    have hdoc : doc.keys ≠ [] := by
      intro hdoc
      exact hne (by simp [appendedKeys, hdoc])
    rw [← hlen, rooms_appended_iff hR hI hself hdevice hrows hscrolls ?_]
    · simp [hdoc, hne]
    · simpa [numberOfRowsInSection, Row.columns] using hn.symm

theorem rooms_step_iff {e : Event} (hR : Ready s) (hI : ∀ i ∈ s.scrolls, s.Room i)
    (h : s.step e = some s') : (∀ i ∈ s'.scrolls, s'.Room i) ↔ Steady es s e := by
  cases e with
  | device e =>
    cases he : Event.touchesTables (.device e) with
    | false => exact rooms_other_iff hI he h
    | true =>
      cases e with
      | openChat id g =>
        refine iff_of_true (rooms_openChat hR hI h) ⟨fun hs => ?_, fun c hc => ?_⟩
        · cases hs
        · cases hc
      | conversationSnapshot i doc =>
        cases doc with
        | none => cases he
        | some doc => exact rooms_callback_iff hR hI h
      | _ => cases he
  | scroll k =>
    rw [step_scroll h]
    refine iff_of_true (fun i hi => ?_) ⟨fun hs => ?_, fun c hc => ?_⟩
    · exact (hI i (List.mem_of_mem_eraseIdx hi)).congr rfl rfl fun _ _ => rfl
    · cases hs
    · cases hc

theorem safely_iff (hR : Ready s) : Safely s ↔ ∀ i ∈ s.scrolls, s.Room i :=
  forall₂_congr fun _ _ => safe_iff_room hR.tabled

/-- In every state of a run every scheduled block would be safe if it ran there, if and only if
every step of the run is steady. So the blocks that do run are safe; a step that is not steady may
endanger a block that runs only after a later callback has made it safe again. -/
theorem scrolls_safe_iff (h : EventRun.run step {} es = some s) :
    EventRun.Passes step (fun _ => Safely) {} es ↔ EventRun.Meets step Steady {} es := by
  refine EventRun.passes_iff_meets _ (fun i hi => by cases hi) (fun es m e t hm hI hs => ?_) h
  have hm' : EventRun.run step {} (es ++ [e]) = some t := by
    rw [EventRun.run_snoc, hm]
    exact hs
  have hR := ready_of_run hm
  rw [safely_iff (ready_of_run hm')]
  exact rooms_step_iff hR ((safely_iff hR).1 hI) hs

/-- The chat with `b` is opened, its first message arrives, and its table is scrolled. -/
def greeting : List Event :=
  [.device (.signIn { uid := "a" }), .device (.openChat "b" false),
    .device (.conversationSnapshot 0 (some (.ofDict (.ofList [("1", ["hi", "b", "false"])])))),
    .scroll 0, .scroll 0, .device .signout]

theorem scrolls_safe_greeting : ∃ s, EventRun.run step {} greeting = some s ∧
    EventRun.Passes step (fun _ => Safely) {} greeting := by
  obtain ⟨s, hs⟩ := Option.isSome_iff_exists.1
    (by decide : (EventRun.run step {} greeting).isSome)
  exact ⟨s, hs, (scrolls_safe_iff hs).2 (EventRun.meets_of_take _ (by decide))⟩

/-- Signing out before the blocks run leaves them without a cached chat. -/
theorem not_scrolls_safe_always : ¬ ∀ (es : List Event) (s : Scrolling),
    EventRun.run step {} es = some s → EventRun.Passes step (fun _ => Safely) {} es := by
  intro hall
  have hrun : (EventRun.run step {} (greeting.take 3 ++ greeting.drop 5)).isSome := by decide
  obtain ⟨s, hs⟩ := Option.isSome_iff_exists.1 hrun
  have hsafe := (hall _ s hs).last _ hs
  obtain ⟨hi, hnone⟩ : 0 ∈ s.scrolls ∧ ∀ self ∈ s.device.instances[0]?,
      self.scrollRow s.device.globals.cacheMessage = none :=
    (by decide : ∀ s, EventRun.run step {} (greeting.take 3 ++ greeting.drop 5) = some s →
      0 ∈ s.scrolls ∧ ∀ self ∈ s.device.instances[0]?,
        self.scrollRow s.device.globals.cacheMessage = none) s hs
  obtain ⟨self, row, n, hself, hrow, -⟩ := hsafe 0 hi
  rw [hnone self hself] at hrow
  cases hrow

end Scrolling

end MessageApp
