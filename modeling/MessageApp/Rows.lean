import MessageApp.ChatViewController
import MessageApp.Lib.Keyed

/-!
# Rows

What a chat shows is a list of rows; the code keeps it as four columns, in each instance's arrays
and in the shared cache.
-/

namespace MessageApp

structure Row where
  key : String
  who : String
  text : String
  audio : String
deriving DecidableEq

namespace Row

/-- The four lists of a `cacheMessage` entry. -/
def columns (rows : List Row) : List (List String) :=
  [rows.map key, rows.map who, rows.map text, rows.map audio]

/-- The row of a document's entry: a record is the text, the sender and the flag, in this
order. -/
def ofEntry (e : String × Value) : Row :=
  let record := e.2.strings?.getD []
  ⟨e.1, record.getD 1 "", record.getD 0 "", record.getD 2 ""⟩

/-- The entry is a record with the row's key, text, sender and flag. -/
def IsOf (r : Row) (e : String × Value) : Prop :=
  e.1 = r.key ∧ ∃ rest, e.2 = .ofStrings (r.text :: r.who :: r.audio :: rest)

/-- The rows of a document, in the order of its keys. -/
def ofDoc (doc : Doc) : List Row := doc.toList.map ofEntry

theorem columns_inj {rows rows' : List Row} (h : columns rows = columns rows') :
    rows = rows' := by
  simp only [columns, List.cons.injEq, and_true] at h
  obtain ⟨hk, hw, ht, ha⟩ := h
  induction rows generalizing rows' with
  | nil =>
    simp only [List.map_nil, List.nil_eq, List.map_eq_nil_iff] at hk
    exact hk.symm
  | cons r rows ih =>
    cases rows' with
    | nil => simp at hk
    | cons r' rows' =>
      simp only [List.map_cons, List.cons.injEq] at hk hw ht ha
      obtain ⟨rk, rw', rt, ra⟩ := r
      obtain ⟨rk', rw'', rt', ra'⟩ := r'
      rw [ih hk.2 hw.2 ht.2 ha.2]
      simp only [List.cons.injEq, Row.mk.injEq, and_true]
      exact ⟨hk.1, hw.1, ht.1, ha.1⟩

/-- The rows of four columns, as many as the shortest has. -/
def ofColumns : List (List String) → List Row
  | [keys, who, text, audio] =>
    (keys.zip (who.zip (text.zip audio))).map fun r => ⟨r.1, r.2.1, r.2.2.1, r.2.2.2⟩
  | _ => []

@[simp] theorem ofColumns_columns (rows : List Row) : ofColumns (columns rows) = rows := by
  induction rows with
  | nil => rfl
  | cons r rows ih =>
    simp only [columns, ofColumns] at ih
    simp only [columns, ofColumns, List.map_cons, List.zip_cons_cons, ih]

theorem ofDoc_keys (doc : Doc) : (ofDoc doc).map key = doc.keys := by
  rw [← Std.ExtTreeMap.map_fst_toList_eq_keys, ofDoc, List.map_map]
  rfl

theorem ofDoc_keys_nodup (doc : Doc) : ((ofDoc doc).map key).Nodup := by
  rw [ofDoc_keys]
  exact Std.ExtTreeMap.nodup_keys

end Row

namespace ChatViewController

/-- The instance with these rows in its arrays. -/
def withRows (self : ChatViewController) (rows : List Row) : ChatViewController :=
  { self with
    keys := rows.map Row.key, who := rows.map Row.who
    array := rows.map Row.text, audio := rows.map Row.audio }

@[simp] theorem withRows_chatWithId (self : ChatViewController) (rows : List Row) :
    (self.withRows rows).chatWithId = self.chatWithId := rfl

/-- The instance's four arrays are the columns of these rows. -/
def Holds (self : ChatViewController) (rows : List Row) : Prop := self = self.withRows rows

theorem holds_withRows (self : ChatViewController) (rows : List Row) :
    (self.withRows rows).Holds rows := rfl

end ChatViewController

/-- `cacheMessage[chatWithId]?[0]`, with nothing cached where there is no entry. -/
def cachedKeys (cacheMessage : Dict (List (List String))) (chatWithId : String) : List String :=
  (cacheMessage[chatWithId]?.bind (·[0]?)).getD []

/-- The rows cached for a chat: what its table shows. -/
def cachedRows (cacheMessage : Dict (List (List String))) (chatWithId : String) : List Row :=
  (cacheMessage[chatWithId]?.map Row.ofColumns).getD []

theorem cachedRows_of_columns {cacheMessage : Dict (List (List String))} {c : String}
    {rows : List Row} (h : cacheMessage[c]? = some (Row.columns rows)) :
    cachedRows cacheMessage c = rows := by
  simp [cachedRows, h]

theorem cachedKeys_of_columns {cacheMessage : Dict (List (List String))} {c : String}
    {rows : List Row} (h : cacheMessage[c]? = some (Row.columns rows)) :
    cachedKeys cacheMessage c = rows.map Row.key := by
  simp [cachedKeys, h, Row.columns]

end MessageApp
