import MessageApp.Lib.WriteQueue
import Mathlib.Data.List.Induction

/-!
# The store

Documents are untyped maps from field names to values. The app writes a document with `setData`
(with `merge: true` only the named fields are replaced, otherwise the whole document is) and with
`delete`, each of them atomic. A document is named by its path:

* `user u`: `User/u`
* `friends u f`: `User/u/Friends/f`
* `conversation u c`: `User/u/Friends/c/Chat/Conversation`
* `friendRequestTo u v`: `User/u/FriendRequestTo/v`
* `friendRequestFrom u v`: `User/u/FriendRequestFrom/v`
* `chatBuffer u d`: `User/u/ChatBuffer/d`, where `d` is `Buffer` or a group's id
* `myBlog u`: `User/u/MyBlog/Blog`
* `friendBlog u`: `User/u/FriendBlog/Blog`
* `group g`: `Group/g`
* `groupConversation g`: `Group/g/Chat/Conversation`
-/

namespace MessageApp

/-- A Swift dictionary with string keys. Its `toList` is `sorted(by: { $0.0 < $1.0 })`. -/
abbrev Dict (α : Type) := Std.ExtTreeMap String α

/-- What a field can hold; a nil Optional is stored as null. -/
inductive Value
  | null
  | bool (b : Bool)
  | string (s : String)
  | array (elems : List (Option String))
deriving DecidableEq

namespace Value

/-- A `[String]`, as a field holds it. -/
def ofStrings (l : List String) : Value := .array (l.map some)

/-- All elements, unless one of them is null. -/
def allStrings : List (Option String) → Option (List String)
  | [] => some []
  | none :: _ => none
  | some s :: l => (allStrings l).map (s :: ·)

/-- `value as! [String]`, which traps on anything else. -/
def strings? : Value → Option (List String)
  | .array l => allStrings l
  | _ => none

/-- `value as! String` -/
def string? : Value → Option String
  | .string s => some s
  | _ => none

/-- `value as! Bool` -/
def bool? : Value → Option Bool
  | .bool b => some b
  | _ => none

@[simp] theorem strings?_ofStrings (l : List String) : (ofStrings l).strings? = some l := by
  show allStrings (l.map some) = some l
  induction l with
  | nil => rfl
  | cons s l ih => simp [allStrings, ih]

theorem ofStrings_of_strings? {v : Value} {l : List String} (h : v.strings? = some l) :
    v = ofStrings l := by
  cases v with
  | array es =>
    have h : allStrings es = some l := h
    suffices es = l.map some by simp [ofStrings, this]
    clear * - h
    induction es generalizing l with
    | nil =>
      simp only [allStrings, Option.some.injEq] at h
      simp [← h]
    | cons e es ih =>
      cases e with
      | none => simp [allStrings] at h
      | some s =>
        simp only [allStrings, Option.map_eq_some_iff] at h
        obtain ⟨l', h, rfl⟩ := h
        simp [ih h]
  | _ => simp [strings?] at h

@[simp] theorem ofStrings_inj {l l' : List String} : ofStrings l = ofStrings l' ↔ l = l' := by
  refine ⟨fun h => ?_, fun h => h ▸ rfl⟩
  have := congrArg strings? h
  simpa using this

end Value

abbrev Doc := Dict Value

namespace Doc

/-- A `[String: [String]]`, as a document. -/
def ofDict (d : Dict (List String)) : Doc := d.map fun _ l => .ofStrings l

/-- `data() as! [String: [String]]`, which traps unless every field is an array of strings. -/
def dict? (doc : Doc) : Option (Dict (List String)) :=
  if doc.toList.all (·.2.strings?.isSome) then some (doc.map fun _ v => v.strings?.getD [])
  else none

@[simp] theorem getElem?_ofDict (d : Dict (List String)) (k : String) :
    (ofDict d)[k]? = d[k]?.map Value.ofStrings := by
  simp [ofDict]

/-- A successful cast drops no field. -/
theorem dict?_eq_some {doc : Doc} {d : Dict (List String)} (h : doc.dict? = some d)
    (k : String) : doc[k]? = d[k]?.map Value.ofStrings := by
  unfold dict? at h
  split_ifs at h with hall
  rw [← Option.some.inj h, Std.ExtTreeMap.getElem?_map]
  cases hk : doc[k]? with
  | none => rfl
  | some v =>
    have hs : v.strings?.isSome :=
      List.all_eq_true.1 hall (k, v) (Std.ExtTreeMap.mem_toList_iff_getElem?_eq_some.2 hk)
    obtain ⟨l, hl⟩ := Option.isSome_iff_exists.1 hs
    simp [Value.ofStrings_of_strings? hl]

/-- The fields of a document with two. -/
theorem getElem?_ofList_pair {a b k : String} (hab : a ≠ b) {v v' x : Value}
    (h : (k, x) ∈ [(a, v), (b, v')]) :
    (Std.ExtTreeMap.ofList [(a, v), (b, v')] : Doc)[k]? = some x :=
  Std.ExtTreeMap.getElem?_ofList_of_mem (k := k) Std.ReflCmp.compare_self
    (List.pairwise_pair.2 fun he => hab (Std.LawfulEqCmp.eq_of_compare he)) h

end Doc

inductive DocPath
  | user (uid : String)
  | friends (uid id : String)
  | conversation (uid id : String)
  | friendRequestTo (uid id : String)
  | friendRequestFrom (uid id : String)
  | chatBuffer (uid doc : String)
  | myBlog (uid : String)
  | friendBlog (uid : String)
  | group (id : String)
  | groupConversation (id : String)
deriving DecidableEq

abbrev DocPath.buffer (uid : String) : DocPath := .chatBuffer uid "Buffer"

inductive Write
  | setData (path : DocPath) (data : Doc) (merge : Bool)
  | delete (path : DocPath)
deriving DecidableEq

namespace Write

def path : Write → DocPath
  | setData p _ _ => p
  | delete p => p

/-- What becomes of the document; `none` is a document that does not exist. -/
def act : Write → Option Doc → Option Doc
  | setData _ data true, doc => some (doc.getD ∅ ∪ data)
  | setData _ data false, _ => some data
  | delete _, _ => none

/-- What a merge assigns to a field. -/
def entry : Write → String → Option Value
  | setData _ data true, k => data[k]?
  | _, _ => none

def IsMerge : Write → Prop
  | setData _ _ true => True
  | _ => False

instance : DocWrite Write DocPath (Option Doc) := ⟨path, act⟩

@[simp] theorem path_setData (p : DocPath) (data : Doc) (m : Bool) :
    DocWrite.path (setData p data m) = p := rfl

@[simp] theorem path_delete (p : DocPath) : DocWrite.path (delete p) = p := rfl

@[simp] theorem act_merge (p : DocPath) (data : Doc) (doc : Option Doc) :
    DocWrite.act (setData p data true) doc = some (doc.getD ∅ ∪ data) := rfl

@[simp] theorem act_replace (p : DocPath) (data : Doc) (doc : Option Doc) :
    DocWrite.act (setData p data false) doc = some data := rfl

@[simp] theorem act_delete (p : DocPath) (doc : Option Doc) :
    DocWrite.act (delete p) doc = none := rfl

end Write

abbrev Store := DocPath → Option Doc

/-- A field of a document that may not exist. -/
def field (doc : Option Doc) (k : String) : Option Value := doc.bind (·[k]?)

@[simp] theorem field_none (k : String) : field none k = none := rfl

@[simp] theorem field_some (doc : Doc) (k : String) : field (some doc) k = doc[k]? := rfl

theorem getElem?_getD (doc : Option Doc) (k : String) : (doc.getD ∅)[k]? = field doc k := by
  cases doc <;> simp

theorem Write.IsMerge.field_act {w : Write} (h : w.IsMerge) (doc : Option Doc) (k : String) :
    field (DocWrite.act w doc) k = (w.entry k).or (field doc k) := by
  cases w with
  | setData p data m =>
    cases m with
    | false => exact h.elim
    | true => simp [entry, Std.ExtTreeMap.getElem?_union, getElem?_getD]
  | delete p => exact h.elim

theorem Write.IsMerge.isSome_act {w : Write} (h : w.IsMerge) (doc : Option Doc) :
    (DocWrite.act w doc).isSome := by
  cases w with
  | setData p data m =>
    cases m with
    | false => exact h.elim
    | true => rfl
  | delete p => exact h.elim

theorem doc_ext {a b : Option Doc} (h : a.isSome = b.isSome)
    (hk : ∀ k, field a k = field b k) : a = b := by
  cases a with
  | none =>
    cases b with
    | none => rfl
    | some b => cases h
  | some a =>
    cases b with
    | none => cases h
    | some b => exact congrArg some (Std.ExtTreeMap.ext_getElem? fun k => hk k)

/-- A document that no write deletes exists once a write to it has landed. -/
theorem isSome_replay {store : Store} {ws : List Write} {p : DocPath}
    (h : ∀ w ∈ ws, DocWrite.path w = p → ∀ d : Option Doc, (DocWrite.act w d).isSome) :
    (DocWrite.replay store ws p).isSome ↔ (store p).isSome ∨ ∃ w ∈ ws, DocWrite.path w = p := by
  induction ws using List.reverseRecOn with
  | nil => simp
  | append_singleton ws w ih =>
    have ih := ih fun w' hw' => h w' (List.mem_append_left _ hw')
    rw [DocWrite.replay_snoc]
    by_cases hp : DocWrite.path w = p
    · rw [DocWrite.write_self hp]
      exact iff_of_true (h w (by simp) hp _) (.inr ⟨w, by simp, hp⟩)
    · rw [DocWrite.write_ne hp, ih]
      simp [or_and_right, exists_or, hp]

theorem field_act_of_merges {ws : List Write} {p : DocPath}
    (h : ∀ w ∈ ws, DocWrite.path w = p → w.IsMerge) (k : String) : ∀ w ∈ ws, DocWrite.path w = p →
    ∀ d, field (DocWrite.act w d) k = (w.entry k).or (field d k) :=
  fun w hw hp d => (h w hw hp).field_act d k

end MessageApp
