import MessageApp.Proofs.Accounts

/-!
# The four columns stay aligned

What is cached for a chat is always what some instance of that chat holds, and is never without
rows (`Backed.step`); an instance holds records of the snapshots its own listener got
(`rowsFrom_of_run`). So the four lists of an entry are the columns of such records, and the table
finds every row it counts (`columns_aligned`).
-/

namespace MessageApp

namespace Device

open Keyed ChatViewController

/-- Every cached chat has rows, those of an instance that listens to the chat. -/
def Backed (d : Device) : Prop :=
  ∀ c columns, d.globals.cacheMessage[c]? = some columns →
    columns ≠ Row.columns [] ∧ ∃ p, HeldBy d c columns p

theorem Backed.of_sameRows {d d' : Device} (h : Backed d)
    (hc : d'.globals.cacheMessage = d.globals.cacheMessage)
    (hi : List.Forall₂ SameRows d.instances d'.instances) : Backed d' := by
  intro c columns hcols
  rw [hc] at hcols
  obtain ⟨hne, p, hheld⟩ := h c columns hcols
  exact ⟨hne, p, hheld.of_sameRows hi⟩

theorem Backed.step_snapshot {es : List Event} {d d' : Device} {ws : List Write} {i : ℕ}
    {doc : Option Doc} (hR : RowsFrom es d) (hI : Backed d)
    (h : d.step (.conversationSnapshot i doc) = some (d', ws)) : Backed d' := by
  obtain ⟨self, p, s, hself, hp, hl, rfl, -⟩ := step_conversationSnapshot h
  obtain ⟨own, hown, -⟩ := (hR i self hself).rows
  have hkept : Backed { d with instances := d.instances.set i self } :=
    hI.of_sameRows rfl (forall₂_sameRows_set hself (.refl self))
  cases doc with
  | none =>
    obtain rfl := Option.some.inj hl
    exact hkept
  | some doc =>
    rcases conversationListener_cases hown hl with ⟨-, rfl⟩ | ⟨D₁, r, D₂, -, -, -, rfl, -⟩
    · exact hkept
    · have hi : i < d.instances.length := (List.getElem?_eq_some_iff.1 hself).1
      intro c columns hc
      simp only [Std.ExtTreeMap.getElem?_insert] at hc
      split_ifs at hc with hcc
      · obtain rfl : self.chatWithId = c := Std.LawfulEqCmp.eq_of_compare hcc
        obtain rfl := Option.some.inj hc
        refine ⟨fun he => ?_, p, _, _, List.mem_set hi _, rfl, hp, holds_withRows self _, rfl⟩
        have hnil := Row.columns_inj he
        simp [absorb] at hnil
      · obtain ⟨hne, p', hheld⟩ := hI c columns hc
        exact ⟨hne, p', hheld.of_set hself fun he => hcc (he ▸ Std.ReflCmp.compare_self)⟩

theorem Backed.step {es : List Event} {d d' : Device} {ws : List Write} {e : Event}
    (hR : RowsFrom es d) (hI : Backed d) (h : d.step e = some (d', ws)) : Backed d' := by
  by_cases he : e.TouchesRows
  · cases e with
    | signout =>
      obtain ⟨rfl, -⟩ := Prod.mk.inj (Option.some.inj h)
      intro c columns hc
      simp at hc
    | openChat id g =>
      obtain ⟨v, kept, -, -, rfl, -⟩ := step_openChat h
      intro c columns hc
      obtain ⟨hne, p, self, rows, hself, hrest⟩ := hI c columns hc
      exact ⟨hne, p, self, rows, List.mem_append_left _ hself, hrest⟩
    | conversationSnapshot i doc => exact hI.step_snapshot hR h
    | _ => exact he.elim
  · obtain ⟨hc, hi⟩ := step_sameRows he h
    exact hI.of_sameRows hc hi

theorem backed_of_run {es : List Event} {d : Device} (h : EventRun.run next {} es = some d) :
    Backed d := by
  refine EventRun.run_history (I := fun _ => Backed) next ?_ ?_ h
  · intro c columns hc
    simp at hc
  · intro es m e t hm hI hs
    obtain ⟨ws, hs⟩ := exists_step_of_next hs
    exact hI.step (rowsFrom_of_run hm) hs

/-- The document is the conversation of the chat, of some user or of a group. -/
def OfChat (c : String) (p : DocPath) : Prop :=
  p = .groupConversation c ∨ ∃ u, p = .conversation u c

/-- In every state, a cached chat has as its four columns the keys, senders, texts and flags of
records of snapshots delivered for that chat, at least one; and every row below
`numberOfRowsInSection` has a cell. -/
theorem columns_aligned {es : List Event} {d : Device} (h : EventRun.run next {} es = some d)
    (c : String) :
    (∀ columns, d.globals.cacheMessage[c]? = some columns →
      ∃ rows, rows ≠ [] ∧ columns = Row.columns rows ∧
        ∀ r ∈ rows, ∃ p doc, OfChat c p ∧ Delivered es d p doc ∧ ∃ e ∈ doc.toList, r.IsOf e) ∧
    ∀ self : ChatViewController, self.chatWithId = c →
      ∃ n, self.numberOfRowsInSection d.globals.cacheMessage = some n ∧
        ∀ row < n, (self.cellForRowAt d.globals.cacheMessage d.currentUser row).isSome := by
  have hrows : ∀ columns, d.globals.cacheMessage[c]? = some columns →
      ∃ rows, rows ≠ [] ∧ columns = Row.columns rows ∧
        ∀ r ∈ rows, ∃ p doc, OfChat c p ∧ Delivered es d p doc ∧ ∃ e ∈ doc.toList, r.IsOf e := by
    intro columns hc
    obtain ⟨hne, p, self, rows, hself, rfl, hp, hrows, rfl⟩ := backed_of_run h c columns hc
    obtain ⟨i, hi, rfl⟩ := List.getElem_of_mem hself
    have hi := List.getElem?_eq_getElem hi
    have hfrom := rowsFrom_of_run h i _ hi
    obtain ⟨rows', hrows', hdocs⟩ := hfrom.rows
    obtain rfl : rows' = rows := hrows'.unique hrows
    refine ⟨rows', fun hn => hne (hn ▸ rfl), rfl, fun r hr => ?_⟩
    obtain ⟨doc, hdoc, hof⟩ := hdocs r hr
    exact ⟨p, doc, hfrom.named p hp, ⟨i, _, hdoc, hi, hp⟩, hof⟩
  refine ⟨hrows, fun self hself => ?_⟩
  unfold numberOfRowsInSection cellForRowAt
  rw [hself]
  cases hc : d.globals.cacheMessage[c]? with
  | none => exact ⟨0, rfl, fun row hrow => absurd hrow row.not_lt_zero⟩
  | some columns =>
    obtain ⟨rows, -, rfl, -⟩ := hrows columns hc
    refine ⟨rows.length, by simp [Row.columns], fun row hrow => ?_⟩
    simp [Row.columns, List.getElem?_eq_getElem hrow]

/-- The chat with `b` is opened and two messages arrive; it is opened again, and two more arrive at
the new instance, which overwrites what the other has cached. -/
def greeted : List Event :=
  let two := [("1", ["hi", "b", "false"]), ("2", ["you", "b", "false"])]
  let four := two ++ [("3", ["yes", "a", "false"]), ("4", ["u", "b", "true"])]
  [.signIn { uid := "a" }, .openChat "b" false,
    .conversationSnapshot 0 (some (.ofDict (.ofList two))), .openChat "b" false,
    .conversationSnapshot 1 (some (.ofDict (.ofList four)))]

theorem columns_aligned_greeted : ∃ d columns rows, EventRun.run next {} greeted = some d ∧
    d.instances.length = 2 ∧ d.globals.cacheMessage["b"]? = some columns ∧
    columns.map List.length = [2, 2, 2, 2] ∧ columns = Row.columns rows ∧
    ∀ r ∈ rows, ∃ p doc, OfChat "b" p ∧ Delivered greeted d p doc ∧ ∃ e ∈ doc.toList, r.IsOf e := by
  obtain ⟨d, hd⟩ := Option.isSome_iff_exists.1
    (by decide +kernel : (EventRun.run next {} greeted).isSome)
  have hstate : ∀ d ∈ EventRun.run next {} greeted, d.instances.length = 2 ∧
      d.globals.cacheMessage["b"]?.map (List.map List.length) = some [2, 2, 2, 2] := by
    decide +kernel
  obtain ⟨hinstances, hlength⟩ := hstate d hd
  obtain ⟨columns, hc, hlength⟩ := Option.map_eq_some_iff.1 hlength
  obtain ⟨rows, -, hcols, hrows⟩ := (columns_aligned hd "b").1 columns hc
  exact ⟨d, columns, rows, hd, hinstances, hc, hlength, hcols, hrows⟩

end Device

end MessageApp
