import MessageApp.ChatViewController
import MessageApp.DiscoverViewController
import MessageApp.TimeInterval
import Mathlib.Data.Set.List
import Mathlib.Data.String.Basic

/-!
# The order of timestamps

Every loop over a document or over `bufferChat` runs in the order of the keys as strings. Strings of
clock readings are in the order of the readings (`string_lt_iff`), for both have ten digits before
the point; so the loops run in the order of the clock (`times_in_order`).
-/

namespace MessageApp

namespace TimeInterval

theorem character_strictMono : StrictMono character := by
  intro d e h
  revert d e
  decide

theorem string_lt_iff (x y : TimeInterval) : x.string < y.string ↔ x.value < y.value := by
  have hlen : x.whole.length = y.whole.length := x.length_whole.trans y.length_whole.symm
  have hlen' : (x.whole.map character).length = (y.whole.map character).length := by
    simp [hlen]
  unfold value
  rw [Numeral.nat_add_frac_lt_iff hlen x.written y.written,
    ← Numeral.map_lt_map_iff character_strictMono, List.map_append, List.map_append,
    ← Numeral.separated_lt_iff hlen' '.', String.lt_iff_toList_lt, string, string,
    String.toList_ofList, String.toList_ofList]

end TimeInterval

open TimeInterval

variable {α : Type}

/-- Every key is the string of a clock reading. -/
def Timed (d : Dict α) : Prop := ∀ k ∈ d, ∃ t : TimeInterval, t.string = k

/-- The entries come in the order of the clock. -/
def InTime (es : List (TimeInterval × α)) : Prop := es.Pairwise fun a b => a.1.value < b.1.value

theorem Timed.toList {d : Dict α} (h : Timed d) :
    ∃ es : List (TimeInterval × α), InTime es ∧
      d.toList = es.map fun e => (e.1.string, e.2) := by
  have hk : ∀ e ∈ d.toList, ∃ e' : TimeInterval × α, (e'.1.string, e'.2) = e := by
    rintro ⟨k, a⟩ he
    have hka : d[k]? = some a := Std.ExtTreeMap.mem_toList_iff_getElem?_eq_some.1 he
    obtain ⟨t, rfl⟩ := h k (Std.ExtTreeMap.mem_iff_isSome_getElem?.2 (hka ▸ rfl))
    exact ⟨(t, a), rfl⟩
  obtain ⟨es, hes⟩ : d.toList ∈ Set.range (List.map fun e : TimeInterval × α =>
      (e.1.string, e.2)) := by
    rw [Set.range_list_map]
    exact hk
  refine ⟨es, ?_, hes.symm⟩
  have hord : d.keys.Pairwise fun a b => compare a b = .lt := Std.ExtTreeMap.ordered_keys
  rw [← Std.ExtTreeMap.map_fst_toList_eq_keys, ← hes, List.map_map, List.pairwise_map] at hord
  exact hord.imp fun hab => (string_lt_iff _ _).1 (compare_lt_iff_lt.1 hab)

/-- Readings are in the order of their strings; so the loops over a conversation, over a friend blog
and over `bufferChat` run in the order of the clock. -/
theorem times_in_order :
    (∀ x y : TimeInterval, x.value < y.value ↔ x.string < y.string) ∧
    (∀ doc : Doc, Timed doc → ∃ es : List (TimeInterval × Value), InTime es ∧
      (∀ cacheMessage (self : ChatViewController),
        self.conversationListener cacheMessage (some doc) =
          es.foldlM (fun s e => ChatViewController.appendEntry s.1 s.2 e.1.string e.2)
            (cacheMessage, self)) ∧
      ∀ self : DiscoverViewController, self.blogListener (some doc) =
        es.foldlM (fun self e => do
          let value ← e.2.strings?
          some {
            userIdArray := self.userIdArray ++ [← value[0]?]
            blogArray := self.blogArray ++ [← value[1]?]
            userNameArray := self.userNameArray ++ [← value[2]?] }) {}) ∧
    ∀ bufferChat : Dict (List String), Timed bufferChat →
      ∃ es : List (TimeInterval × List String), InTime es ∧
        ∀ chatWithId, ChatViewController.cleanBufferChat chatWithId bufferChat =
          es.foldlM (fun kept e => do
            let sender ← e.2[1]?
            if sender = chatWithId then some (kept.erase e.1.string) else some kept)
            bufferChat := by
  refine ⟨fun x y => (string_lt_iff x y).symm, fun doc hdoc => ?_, fun b hb => ?_⟩
  · obtain ⟨es, hes, hl⟩ := hdoc.toList
    refine ⟨es, hes, fun cacheMessage self => ?_, fun self => ?_⟩
    · rw [ChatViewController.conversationListener, hl, List.foldlM_map]
    · rw [DiscoverViewController.blogListener, hl, List.foldlM_map]
  · obtain ⟨es, hes, hl⟩ := hb.toList
    refine ⟨es, hes, fun c => ?_⟩
    rw [ChatViewController.cleanBufferChat, hl, List.foldlM_map]

/-- `1500000000.0` -/
def onTheSecond : TimeInterval :=
  ⟨[1, 5, 0, 0, 0, 0, 0, 0, 0, 0], [0], rfl, by decide, by simp, .inr rfl⟩

/-- `1500000000.05` -/
def shortlyAfter : TimeInterval :=
  ⟨[1, 5, 0, 0, 0, 0, 0, 0, 0, 0], [0, 5], rfl, by decide, by simp,
    .inl (by simp [Numeral.Trimmed])⟩

def twoMessages : Doc := Std.ExtTreeMap.ofList
  [(shortlyAfter.string, Value.ofStrings ["b", "u", "false"]),
   (onTheSecond.string, Value.ofStrings ["a", "u", "false"])]

theorem times_in_order_twoMessages : onTheSecond.value < shortlyAfter.value ∧
    ∃ es : List (TimeInterval × Value), InTime es ∧ ∀ cacheMessage (self : ChatViewController),
      self.conversationListener cacheMessage (some twoMessages) =
        es.foldlM (fun s e => ChatViewController.appendEntry s.1 s.2 e.1.string e.2)
          (cacheMessage, self) := by
  refine ⟨(times_in_order.1 _ _).2 (by decide +kernel), ?_⟩
  obtain ⟨es, hes, hchat, -⟩ := times_in_order.2.1 twoMessages fun k hk => by
    rw [twoMessages, Std.ExtTreeMap.mem_ofList] at hk
    simp only [List.map_cons, List.map_nil, List.contains_cons, List.contains_nil, Bool.or_false,
      Bool.or_eq_true, beq_iff_eq] at hk
    rcases hk with rfl | rfl
    · exact ⟨shortlyAfter, rfl⟩
    · exact ⟨onTheSecond, rfl⟩
  exact ⟨es, hes, hchat⟩

end MessageApp
