import MessageApp.Lib.Rounds
import MessageApp.Proofs.RequestSteps

/-!
# The two sides of a request

The writes of a request and the deletes of an answer land one at a time, so a request and an answer
between the same two users can overlap. `Sides` is what a sequence of such landings makes of the two
documents; `Shows` ties it to the store and to what is in flight, and every run follows it
(`shows_of_run`).

So whatever overlaps, at rest the asker's document never exists without the other's, and the other
exists without the asker's exactly when the last two writes to land on them are of two clients
(`sides_match`).
-/

namespace MessageApp

/-- The two documents of a request, and whether a request or an answer has half landed on them. -/
structure Sides where
  requestTo : Bool := false
  requestFrom : Bool := false
  asking : Bool := false
  answering : Bool := false

namespace Sides

/-- The next write of a request lands: the asker's document first. -/
def ask (s : Sides) : Sides :=
  if s.asking then { s with requestFrom := true, asking := false }
  else { s with requestTo := true, asking := true }

/-- The next delete of an answer lands: the asker's document last. -/
def answer (s : Sides) : Sides :=
  if s.answering then { s with requestTo := false, answering := false }
  else { s with requestFrom := false, answering := true }

inductive Move
  | ask
  | answer

/-- The sides after these moves, the last of them first. -/
def after : List Move → Sides
  | [] => {}
  | .ask :: moves => (after moves).ask
  | .answer :: moves => (after moves).answer

/-- The last two moves are of one kind. -/
def Together : List Move → Prop
  | m :: m' :: _ => m = m'
  | _ => True

/-- Nothing has half landed. -/
def Whole (s : Sides) : Prop := s.asking = false ∧ s.answering = false

variable {s : Sides}

/-- Only the second half of a request leaves the sides whole, so there was a move before it. -/
theorem whole_ask (h : s.ask.Whole) : s.asking = true ∧ s.answering = false ∧
    s.ask.requestFrom = true ∧ s.ask.requestTo = s.requestTo := by
  unfold Whole ask at *
  split_ifs at h ⊢ with ha
  · exact ⟨ha, h.2, rfl, rfl⟩
  · cases h.1

theorem whole_answer (h : s.answer.Whole) : s.answering = true ∧ s.asking = false ∧
    s.answer.requestTo = false ∧ s.answer.requestFrom = s.requestFrom := by
  unfold Whole answer at *
  split_ifs at h ⊢ with ha
  · exact ⟨ha, h.1, rfl, rfl⟩
  · cases h.2

theorem requestTo_ask (h : s.ask.asking = true) : s.ask.requestTo = true := by
  unfold ask at *
  split_ifs at h ⊢
  rfl

theorem requestTo_answer (h : s.answer.answering = false) : s.answer.requestTo = false := by
  unfold answer at *
  split_ifs at h ⊢
  rfl

theorem requestFrom_ask (h : s.ask.asking = false) : s.ask.requestFrom = true := by
  unfold ask at *
  split_ifs at h ⊢
  rfl

theorem requestFrom_answer (h : s.answer.answering = true) : s.answer.requestFrom = false := by
  unfold answer at *
  split_ifs at h ⊢
  rfl

/-- Where nothing has half landed, the asker's document does not exist alone. -/
theorem requestFrom_of_requestTo {moves : List Move} (h : (after moves).Whole)
    (hto : (after moves).requestTo = true) : (after moves).requestFrom = true := by
  cases moves with
  | nil => cases hto
  | cons m moves =>
    cases m with
    | ask => exact (whole_ask h).2.2.1
    | answer =>
      rw [after, (whole_answer h).2.2.1] at hto
      cases hto

/-- Where nothing has half landed, the documents match exactly when the last two moves are of one
kind. -/
theorem match_iff {moves : List Move} (h : (after moves).Whole) :
    (after moves).requestTo = (after moves).requestFrom ↔ Together moves := by
  match moves with
  | [] => exact iff_of_true rfl trivial
  | [.ask] => cases h.1
  | [.answer] => cases h.2
  | .ask :: m :: moves =>
    obtain ⟨hasking, hanswering, hfrom, hto⟩ := whole_ask h
    rw [after, hfrom, hto]
    cases m with
    | ask => exact iff_of_true (requestTo_ask hasking) rfl
    | answer =>
      rw [after, requestTo_answer hanswering]
      exact iff_of_false nofun nofun
  | .answer :: m :: moves =>
    obtain ⟨hanswering, hasking, hto, hfrom⟩ := whole_answer h
    rw [after, hto, hfrom]
    cases m with
    | ask =>
      rw [after, requestFrom_ask hasking]
      exact iff_of_false nofun nofun
    | answer => exact iff_of_true (requestFrom_answer hanswering).symm rfl

end Sides

namespace Requests

open Sides

variable {isUser : String → Bool} {init : Store} {r : Requests} {es : List Event} {a b c : String}
  {q q' : WriteQueue String Write} {moves : List Move} {ws : List Write}

/-- The write is to one of the two documents of a request from `a` to `b`. -/
def ToSides (a b : String) (w : Write) : Prop :=
  DocWrite.path w = .friendRequestTo a b ∨ DocWrite.path w = .friendRequestFrom b a

instance (a b : String) : DecidablePred (ToSides a b) :=
  fun _ => inferInstanceAs (Decidable (_ ∨ _))

/-- The clients whose writes to the two documents have landed, the last of them first. -/
def landers (a b : String) (q : WriteQueue String Write) : List String :=
  ((q.log.filter fun e => ToSides a b e.2).map Prod.fst).reverse

/-- Of the writes to the two documents, the last two to land are one client's. -/
def EndsTogether (a b : String) (r : Requests) : Prop :=
  match landers a b r.net with
  | c :: c' :: _ => c = c'
  | _ => True

instance (a b : String) (r : Requests) : Decidable (EndsTogether a b r) :=
  match h : landers a b r.net with
  | c :: c' :: _ => decidable_of_iff (c = c') (by simp [EndsTogether, h])
  | [] | [_] => .isTrue (by simp [EndsTogether, h])

/-- The write puts a document there. -/
def Puts (p : DocPath) (w : Write) : Prop := ∃ data, w = .setData p data false

/-- Who makes a move: `a` asks, `b` answers. -/
def mover (a b : String) : Move → String
  | .ask => a
  | .answer => b

/-- The store has the two sides after these moves, and what they left half landed is in flight. -/
structure Shows (init : Store) (a b : String) (q : WriteQueue String Write) (moves : List Move) :
    Prop where
  requestTo : (DocWrite.replay init q.landed (.friendRequestTo a b)).isSome =
    (after moves).requestTo
  requestFrom : (DocWrite.replay init q.landed (.friendRequestFrom b a)).isSome =
    (after moves).requestFrom
  requests : Rounds (Puts (.friendRequestTo a b)) (Puts (.friendRequestFrom b a))
    (after moves).asking ((q.pending a).filter (ToSides a b))
  answers : Rounds (· = .delete (.friendRequestFrom b a)) (· = .delete (.friendRequestTo a b))
    (after moves).answering ((q.pending b).filter (ToSides a b))
  others : ∀ c, c ≠ a → c ≠ b → (q.pending c).filter (ToSides a b) = []
  landers : landers a b q = moves.map (mover a b)

theorem shows_empty (hto : init (.friendRequestTo a b) = none)
    (hfrom : init (.friendRequestFrom b a) = none) : Shows init a b .empty [] where
  requestTo := by simp [WriteQueue.landed, WriteQueue.empty, hto, after]
  requestFrom := by simp [WriteQueue.landed, WriteQueue.empty, hfrom, after]
  requests := .nil
  answers := .nil
  others _ _ _ := rfl
  landers := rfl

/-- What a client issues at once leaves the two documents alone, or is a request of `a`'s, or an
answer of `b`'s. -/
theorem toSides_of_issues (hab : a ≠ b) (h : Issues isUser c ws) :
    ws.filter (ToSides a b) = [] ∨
      (c = a ∧ ∃ x y, ws.filter (ToSides a b) = [x, y] ∧ Puts (.friendRequestTo a b) x ∧
        Puts (.friendRequestFrom b a) y) ∨
      (c = b ∧ ws.filter (ToSides a b) =
        [.delete (.friendRequestFrom b a), .delete (.friendRequestTo a b)]) := by
  cases h with
  | nothing => exact .inl rfl
  | @request id data hne =>
    by_cases hp : c = a ∧ id = b
    · obtain ⟨rfl, rfl⟩ := hp
      exact .inr (.inl ⟨rfl, _, _, by simp [ToSides], ⟨data, rfl⟩, ⟨data, rfl⟩⟩)
    · exact .inl (by simp [ToSides, hp, and_comm (a := id = b)])
  | @agree id _ _ _ _ | @disagree id =>
    by_cases hp : c = b ∧ id = a
    · obtain ⟨rfl, rfl⟩ := hp
      exact .inr (.inr ⟨rfl, by simp [ToSides]⟩)
    · exact .inl (by simp [ToSides, hp, and_comm (a := id = a)])
  | group => exact .inl (by simp [ToSides])
  | added _ hall =>
    refine .inl (List.filter_eq_nil_iff.2 fun w hw => ?_)
    obtain ⟨uid, data, rfl⟩ := hall w hw
    simp [ToSides]

theorem filter_issue (p : Write → Bool) (c' : String) : ((q.issue c ws).pending c').filter p =
    (q.pending c').filter p ++ if c' = c then ws.filter p else [] := by
  by_cases hc : c' = c
  · subst hc
    rw [WriteQueue.issue_pending_self, if_pos rfl, List.filter_append]
  · rw [WriteQueue.issue_pending_ne q hc, if_neg hc, List.append_nil]

theorem Shows.issue (hab : a ≠ b) (h : Shows init a b q moves) (hws : Issues isUser c ws) :
    Shows init a b (q.issue c ws) moves := by
  refine ⟨h.requestTo, h.requestFrom, ?_, ?_, fun c' ha hb => ?_, h.landers⟩
  · rw [filter_issue]
    refine h.requests.append ?_
    rcases toSides_of_issues hab hws with hn | ⟨rfl, x, y, hxy, hx, hy⟩ | ⟨rfl, hn⟩
    · rw [hn, ite_self]
      exact .nil
    · rw [hxy, if_pos rfl]
      exact .round hx hy
    · rw [if_neg hab]
      exact .nil
  · rw [filter_issue]
    refine h.answers.append ?_
    rcases toSides_of_issues hab hws with hn | ⟨rfl, x, y, hxy, hx, hy⟩ | ⟨rfl, hn⟩
    · rw [hn, ite_self]
      exact .nil
    · rw [if_neg hab.symm]
      exact .nil
    · rw [hn, if_pos rfl]
      exact .round rfl rfl
  · rw [filter_issue, h.others c' ha hb, List.nil_append]
    rcases toSides_of_issues hab hws with hn | ⟨rfl, -⟩ | ⟨rfl, -⟩
    · rw [hn, ite_self]
    · rw [if_neg ha]
    · rw [if_neg hb]

theorem isSome_landed {w : Write} (hl : q'.landed = q.landed ++ [w]) (p : DocPath) :
    (DocWrite.replay init q'.landed p).isSome = if DocWrite.path w = p
      then (DocWrite.act w (DocWrite.replay init q.landed p)).isSome
      else (DocWrite.replay init q.landed p).isSome := by
  rw [hl, DocWrite.replay_snoc]
  split_ifs with hp
  · rw [DocWrite.write_self hp]
  · rw [DocWrite.write_ne hp]

theorem landers_land {w : Write} (hl : q'.log = q.log ++ [(c, w)]) :
    landers a b q' = if ToSides a b w then c :: landers a b q else landers a b q := by
  rw [landers, hl, List.filter_append, List.filter_singleton]
  split_ifs with hw <;> simp [landers, hw]

/-- A write of `a`'s to one of the two documents lands. -/
theorem Shows.ask (hab : a ≠ b) (h : Shows init a b q moves) {w : Write} (hw : ToSides a b w)
    (hp : q.pending a = w :: q'.pending a) (hlog : q'.log = q.log ++ [(a, w)])
    (hother : ∀ c, c ≠ a → q'.pending c = q.pending c) : Shows init a b q' (.ask :: moves) := by
  have hdocs : ∀ p, (DocWrite.replay init q'.landed p).isSome = if DocWrite.path w = p
      then (DocWrite.act w (DocWrite.replay init q.landed p)).isSome
      else (DocWrite.replay init q.landed p).isSome :=
    isSome_landed (by simp [WriteQueue.landed, hlog])
  have hlanders : Requests.landers a b q' = (Move.ask :: moves).map (mover a b) := by
    rw [landers_land hlog, if_pos hw, h.landers]
    rfl
  have hans := h.answers
  rw [← hother b hab.symm] at hans
  have hreq := h.requests
  rw [hp, List.filter_cons_of_pos (by simpa using hw), Rounds.cons_iff] at hreq
  have hoth : ∀ c, c ≠ a → c ≠ b → (q'.pending c).filter (ToSides a b) = [] :=
    fun c ha hb => hother c ha ▸ h.others c ha hb
  have hto := h.requestTo
  have hfrom := h.requestFrom
  cases ha : (after moves).asking with
  | false =>
    rw [ha] at hreq
    obtain ⟨⟨data, rfl⟩, hreq⟩ := hreq
    exact ⟨by simp [hdocs, after, Sides.ask, ha],
      by simpa [hdocs, after, Sides.ask, ha] using hfrom,
      by simpa [after, Sides.ask, ha] using hreq, by simpa [after, Sides.ask, ha] using hans, hoth,
      hlanders⟩
  | true =>
    rw [ha] at hreq
    obtain ⟨⟨data, rfl⟩, hreq⟩ := hreq
    exact ⟨by simpa [hdocs, after, Sides.ask, ha] using hto, by simp [hdocs, after, Sides.ask, ha],
      by simpa [after, Sides.ask, ha] using hreq, by simpa [after, Sides.ask, ha] using hans, hoth,
      hlanders⟩

/-- A delete of `b`'s of one of the two documents lands. -/
theorem Shows.answer (hab : a ≠ b) (h : Shows init a b q moves) {w : Write} (hw : ToSides a b w)
    (hp : q.pending b = w :: q'.pending b) (hlog : q'.log = q.log ++ [(b, w)])
    (hother : ∀ c, c ≠ b → q'.pending c = q.pending c) :
    Shows init a b q' (.answer :: moves) := by
  have hdocs : ∀ p, (DocWrite.replay init q'.landed p).isSome = if DocWrite.path w = p
      then (DocWrite.act w (DocWrite.replay init q.landed p)).isSome
      else (DocWrite.replay init q.landed p).isSome :=
    isSome_landed (by simp [WriteQueue.landed, hlog])
  have hlanders : Requests.landers a b q' = (Move.answer :: moves).map (mover a b) := by
    rw [landers_land hlog, if_pos hw, h.landers]
    rfl
  have hreq := h.requests
  rw [← hother a hab] at hreq
  have hans := h.answers
  rw [hp, List.filter_cons_of_pos (by simpa using hw), Rounds.cons_iff] at hans
  have hoth : ∀ c, c ≠ a → c ≠ b → (q'.pending c).filter (ToSides a b) = [] :=
    fun c ha hb => hother c hb ▸ h.others c ha hb
  have hto := h.requestTo
  have hfrom := h.requestFrom
  cases hb : (after moves).answering with
  | false =>
    rw [hb] at hans
    obtain ⟨rfl, hans⟩ := hans
    exact ⟨by simpa [hdocs, after, Sides.answer, hb] using hto,
      by simp [hdocs, after, Sides.answer, hb], by simpa [after, Sides.answer, hb] using hreq,
      by simpa [after, Sides.answer, hb] using hans, hoth, hlanders⟩
  | true =>
    rw [hb] at hans
    obtain ⟨rfl, hans⟩ := hans
    exact ⟨by simp [hdocs, after, Sides.answer, hb],
      by simpa [hdocs, after, Sides.answer, hb] using hfrom,
      by simpa [after, Sides.answer, hb] using hreq, by simpa [after, Sides.answer, hb] using hans,
      hoth, hlanders⟩

/-- A landing is one move of the two sides, or none. -/
theorem Shows.land (hab : a ≠ b) (h : Shows init a b q moves) (hland : q.land c = some q') :
    ∃ moves', Shows init a b q' moves' := by
  obtain ⟨w, hp, hlog, hother⟩ := WriteQueue.log_land hland
  by_cases hw : ToSides a b w
  · have hc : c = a ∨ c = b := by
      by_contra hc
      obtain ⟨ha, hb⟩ := not_or.1 hc
      have hnone := h.others c ha hb
      rw [hp, List.filter_cons_of_pos (by simpa using hw)] at hnone
      cases hnone
    rcases hc with rfl | rfl
    · exact ⟨_, h.ask hab hw hp hlog hother⟩
    · exact ⟨_, h.answer hab hw hp hlog hother⟩
  · have hl : q'.landed = q.landed ++ [w] := by simp [WriteQueue.landed, hlog]
    have hpending : ∀ c', (q'.pending c').filter (ToSides a b) =
        (q.pending c').filter (ToSides a b) := by
      intro c'
      by_cases hc : c' = c
      · rw [hc, hp, List.filter_cons_of_neg (by simpa using hw)]
      · rw [hother c' hc]
    obtain ⟨hto, hfrom⟩ := not_or.1 hw
    refine ⟨moves, ?_, ?_, ?_, ?_, fun c' ha hb => ?_, ?_⟩
    · rw [isSome_landed hl, if_neg hto, h.requestTo]
    · rw [isSome_landed hl, if_neg hfrom, h.requestFrom]
    · rw [hpending]
      exact h.requests
    · rw [hpending]
      exact h.answers
    · rw [hpending, h.others c' ha hb]
    · rw [landers_land hlog, if_neg hw, h.landers]

theorem shows_of_run (hab : a ≠ b) (hto : init (.friendRequestTo a b) = none)
    (hfrom : init (.friendRequestFrom b a) = none)
    (h : EventRun.run (step isUser) start es = some r) : ∃ moves, Shows init a b r.net moves :=
  net_induction (I := fun q => ∃ moves, Shows init a b q moves) ⟨_, shows_empty hto hfrom⟩
    (fun _ _ _ ⟨moves, hs⟩ hws => ⟨moves, hs.issue hab hws⟩)
    (fun _ _ _ ⟨_, hs⟩ hq => hs.land hab hq) h

theorem Shows.whole (h : Shows init a b r.net moves) (hrest : r.net.Rest) :
    (after moves).Whole := by
  have hreq := h.requests
  have hans := h.answers
  rw [hrest] at hreq hans
  exact ⟨hreq.not_midway_of_nil, hans.not_midway_of_nil⟩

theorem Shows.together_iff (hab : a ≠ b) (h : Shows init a b r.net moves) :
    EndsTogether a b r ↔ Together moves := by
  unfold EndsTogether
  rw [h.landers]
  have hmover : ∀ m m', mover a b m = mover a b m' ↔ m = m' := by
    intro m m'
    cases m <;> cases m' <;> simp [mover, hab, hab.symm]
  match moves with
  | [] | [_] => exact Iff.rfl
  | m :: m' :: _ => exact hmover m m'

/-- Nobody asks themselves: what is issued to these two documents deletes them. -/
theorem own_sides_of_run (hto : init (.friendRequestTo a a) = none)
    (hfrom : init (.friendRequestFrom a a) = none)
    (h : EventRun.run (step isUser) start es = some r) :
    r.store init (.friendRequestTo a a) = none ∧ r.store init (.friendRequestFrom a a) = none := by
  have hdeletes : ∀ c, ∀ w ∈ r.net.issued c, ToSides a a w → w = .delete (DocWrite.path w) := by
    refine net_induction (I := fun q => ∀ c, ∀ w ∈ q.issued c, ToSides a a w →
      w = .delete (DocWrite.path w)) (fun c w hw => by cases hw)
      (fun q c ws hI hws c' w hw hp => ?_)
      (fun q c q' hI hq c' => by rw [WriteQueue.issued_land hq]; exact hI c') h
    rcases WriteQueue.mem_issued_issue.1 hw with hold | ⟨rfl, hnew⟩
    · exact hI c' w hold hp
    · cases hws with
      | nothing => cases hnew
      | @request id data hne =>
        simp only [List.mem_cons, List.not_mem_nil, or_false] at hnew
        rcases hnew with rfl | rfl
        · have hid : c' = a ∧ id = a := by simpa [ToSides] using hp
          exact absurd (hid.1.trans hid.2.symm) hne
        · have hid : id = a ∧ c' = a := by simpa [ToSides] using hp
          exact absurd (hid.2.trans hid.1.symm) hne
      | agree | disagree =>
        simp only [List.mem_cons, List.not_mem_nil, or_false] at hnew
        rcases hnew with rfl | rfl | rfl | rfl <;> simp [ToSides] at hp ⊢
      | group =>
        rw [List.mem_singleton.1 hnew] at hp
        simp [ToSides] at hp
      | added _ hall =>
        obtain ⟨uid, data, rfl⟩ := hall w hnew
        simp [ToSides] at hp
  have hnone : ∀ p, p = .friendRequestTo a a ∨ p = .friendRequestFrom a a → init p = none →
      r.store init p = none := by
    intro p hp hinit
    refine DocWrite.replay_keeps (I := (· = none)) hinit fun w hw hwp d _ => ?_
    obtain ⟨c, hc⟩ := WriteQueue.mem_issued_of_mem_landed hw
    rw [hdeletes c w hc (by rwa [ToSides, hwp])]
    rfl
  exact ⟨hnone _ (.inl rfl) hto, hnone _ (.inr rfl) hfrom⟩

/-- From a store without requests: at rest the asker's document never exists without the other's,
and each exists exactly when the other does, if and only if the last two writes to land on them are
one client's. -/
theorem sides_match (h : EventRun.run (step isUser) start es = some r)
    (hinit : ∀ a b, init (.friendRequestTo a b) = none ∧ init (.friendRequestFrom a b) = none)
    (hrest : r.net.Rest) (a b : String) :
    ((r.store init (.friendRequestTo a b)).isSome →
      (r.store init (.friendRequestFrom b a)).isSome) ∧
    (((r.store init (.friendRequestTo a b)).isSome ↔
      (r.store init (.friendRequestFrom b a)).isSome) ↔ (a ≠ b → EndsTogether a b r)) := by
  obtain rfl | hab := eq_or_ne a b
  · obtain ⟨hto, hfrom⟩ := own_sides_of_run (hinit a a).1 (hinit a a).2 h
    simp [hto, hfrom]
  obtain ⟨moves, hs⟩ := shows_of_run hab (hinit a b).1 (hinit b a).2 h
  have hwhole := hs.whole hrest
  have hto : (r.store init (.friendRequestTo a b)).isSome = (after moves).requestTo := hs.requestTo
  have hfrom : (r.store init (.friendRequestFrom b a)).isSome = (after moves).requestFrom :=
    hs.requestFrom
  rw [hto, hfrom]
  refine ⟨requestFrom_of_requestTo hwhole, ?_⟩
  rw [← Bool.eq_iff_iff, match_iff hwhole, ← hs.together_iff hab]
  exact ⟨fun ht _ => ht, fun ht => ht hab⟩

/-- `a` asks `b`, who refuses, and asks again. -/
def askingAgain : List Event :=
  [.operate (.sendFriendRequest { uid := "a", displayName := some "A" } "b"), .land "a", .land "a",
    .operate (.disagreeClicked { uid := "b" } "a"), .land "b", .land "b",
    .operate (.sendFriendRequest { uid := "a", displayName := some "A" } "b"), .land "a", .land "a"]

theorem sides_match_askingAgain :
    ∃ r, EventRun.run (step fun _ => true) start askingAgain = some r ∧
      (r.store (fun _ => none) (.friendRequestTo "a" "b")).isSome ∧
      (r.store (fun _ => none) (.friendRequestFrom "b" "a")).isSome := by
  obtain ⟨r, hr⟩ := Option.isSome_iff_exists.1
    (by decide : (EventRun.run (step fun _ => true) start askingAgain).isSome)
  have hend : ∀ r, EventRun.run (step fun _ => true) start askingAgain = some r →
      (∀ c ∈ ["a", "b"], r.net.pending c = []) ∧ EndsTogether "a" "b" r ∧
        (r.store (fun _ => none) (.friendRequestTo "a" "b")).isSome := by decide
  obtain ⟨hpending, htogether, hto⟩ := hend r hr
  have hsides := @sides_match _ (fun _ => none) _ _ hr (fun _ _ => ⟨rfl, rfl⟩)
    (rest_of_actors (by decide) hr hpending) "a" "b"
  exact ⟨r, hr, hto, (hsides.2.2 fun _ => htogether).1 hto⟩

/-- `a` asks again while `b` refuses: of the second request only `b`'s document is left. -/
def overlapping : List Event :=
  [.operate (.sendFriendRequest { uid := "a", displayName := some "A" } "b"), .land "a", .land "a",
    .operate (.disagreeClicked { uid := "b" } "a"),
    .operate (.sendFriendRequest { uid := "a", displayName := some "A" } "b"),
    .land "a", .land "b", .land "b", .land "a"]

theorem not_sides_always_match :
    ¬ ∀ (isUser : String → Bool) (init : Store) es r,
      (∀ a b, init (.friendRequestTo a b) = none ∧ init (.friendRequestFrom a b) = none ∧
        init (.friends a b) = none) →
      EventRun.run (step isUser) start es = some r → r.net.Rest →
      ∀ a b, isUser a = true → isUser b = true →
        ((r.store init (.friendRequestTo a b)).isSome ↔
          (r.store init (.friendRequestFrom b a)).isSome) := by
  intro h
  obtain ⟨r, hr⟩ := Option.isSome_iff_exists.1
    (by decide : (EventRun.run (step fun _ => true) start overlapping).isSome)
  have hend : ∀ r, EventRun.run (step fun _ => true) start overlapping = some r →
      (∀ c ∈ ["a", "b"], r.net.pending c = []) ∧
        r.store (fun _ => none) (.friendRequestTo "a" "b") = none ∧
        (r.store (fun _ => none) (.friendRequestFrom "b" "a")).isSome := by decide
  obtain ⟨hpending, hto, hfrom⟩ := hend r hr
  have hmatch := (h _ (fun _ => none) _ r (fun _ _ => ⟨rfl, rfl, rfl⟩) hr
    (rest_of_actors (by decide) hr hpending) "a" "b" rfl rfl).2 hfrom
  rw [hto] at hmatch
  cases hmatch

end Requests

end MessageApp
