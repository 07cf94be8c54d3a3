import MessageApp.App

/-!
# What the documents of the app say

`Describes encoded p doc` is the format of the document at `p`, and that what it says has been
encoded: a record names its author at position 1, a story at position 0. A write is `Sound` when
what it leaves has the format (`Sound.describes_act`), so documents that sound writes lead to have
it (`describes_docs`).
-/

namespace MessageApp

/-- A message of one of the chats, as the array it is stored as. -/
def IsMessage (encoded : List Encoded) (k : String) (v : Value) : Prop :=
  ∃ author text audio, v = .ofStrings [text, author, audio] ∧
    .message author text audio k ∈ encoded

def IsStory (encoded : List Encoded) (k : String) (v : Value) : Prop :=
  ∃ author text name, v = .ofStrings [author, text, name] ∧
    .story author text (some name) k ∈ encoded

/-- What a field is, in a document whose fields are records. -/
def Coded (encoded : List Encoded) : DocPath → String → Value → Prop
  | .conversation _ _, k, v | .groupConversation _, k, v => IsMessage encoded k v
  | .chatBuffer _ _, k, v => IsMessage encoded k v ∨ k = "userID" ∧ ∃ s, v = .string s
  | .friendBlog _, k, v => IsStory encoded k v
  | _, _, _ => True

def Describes (encoded : List Encoded) : DocPath → Doc → Prop
  | .friends uid id, doc => ∃ name flag, doc["username"]? = some (.string name) ∧
      doc["groupFlag"]? = some (.bool flag) ∧ .friend uid id (some name) flag ∈ encoded
  | .friendRequestFrom uid id, doc => ∃ name, doc["username"]? = some (.string name) ∧
      .request id name uid ∈ encoded
  | .group _, doc => ∃ members, doc["RoomMember"]? = some (.ofStrings members)
  | p, doc => ∀ k v, doc[k]? = some v → Coded encoded p k v

/-- The fields of the document are told apart from each other. -/
def Fieldwise : DocPath → Prop
  | .friends _ _ | .friendRequestFrom _ _ | .group _ => False
  | _ => True

def Sound (encoded : List Encoded) : AppWrite → Prop
  | .write (.setData p data merge) => Describes encoded p data ∧ (merge = true → Fieldwise p)
  | .write (.delete _) => True
  | .deleteField p _ => Fieldwise p

variable {encoded encoded' : List Encoded}

theorem IsMessage.mono (he : encoded ⊆ encoded') {k : String} {v : Value}
    (h : IsMessage encoded k v) : IsMessage encoded' k v := by
  obtain ⟨author, text, audio, rfl, h⟩ := h
  exact ⟨author, text, audio, rfl, he h⟩

theorem Coded.mono (he : encoded ⊆ encoded') {p : DocPath} {k : String} {v : Value}
    (h : Coded encoded p k v) : Coded encoded' p k v := by
  cases p with
  | conversation | groupConversation => exact IsMessage.mono he h
  | chatBuffer => exact h.imp_left (IsMessage.mono he)
  | friendBlog =>
    obtain ⟨author, text, name, rfl, h⟩ := h
    exact ⟨author, text, name, rfl, he h⟩
  | _ => trivial

theorem describes_iff {p : DocPath} (hp : Fieldwise p) {doc : Doc} :
    Describes encoded p doc ↔ ∀ k v, doc[k]? = some v → Coded encoded p k v := by
  cases p with
  | friends | friendRequestFrom | group => exact hp.elim
  | _ => exact Iff.rfl

theorem Describes.mono (he : encoded ⊆ encoded') {p : DocPath} {doc : Doc}
    (h : Describes encoded p doc) : Describes encoded' p doc := by
  cases p with
  | friends =>
    obtain ⟨name, flag, hname, hflag, h⟩ := h
    exact ⟨name, flag, hname, hflag, he h⟩
  | friendRequestFrom =>
    obtain ⟨name, hname, h⟩ := h
    exact ⟨name, hname, he h⟩
  | group => exact h
  | _ => exact fun k v hk => (h k v hk).mono he

theorem Sound.mono (he : encoded ⊆ encoded') {x : AppWrite} (h : Sound encoded x) :
    Sound encoded' x := by
  cases x with
  | deleteField => exact h
  | write w =>
    cases w with
    | setData => exact ⟨h.1.mono he, h.2⟩
    | delete => trivial

/-- What a sound write leaves is as it should be, if what it found was. -/
theorem Sound.describes_act {x : AppWrite} (h : Sound encoded x) {doc : Option Doc}
    (hdoc : ∀ d ∈ doc, Describes encoded (DocWrite.path x) d) :
    ∀ d ∈ DocWrite.act x doc, Describes encoded (DocWrite.path x) d := by
  intro d hd
  cases x with
  | deleteField p k =>
    simp only [AppWrite.act_deleteField, Option.mem_def, Option.map_eq_some_iff] at hd
    obtain ⟨d, rfl, rfl⟩ := hd
    refine (describes_iff h).2 fun k' v hv => (describes_iff h).1 (hdoc d rfl) k' v ?_
    rw [Std.ExtTreeMap.getElem?_erase] at hv
    split_ifs at hv
    exact hv
  | write w =>
    cases w with
    | delete p => cases hd
    | setData p data merge =>
      cases merge with
      | false =>
        simp only [AppWrite.act_write, Write.act_replace, Option.mem_def,
          Option.some.injEq] at hd
        exact hd ▸ h.1
      | true =>
        have hp : Fieldwise p := h.2 rfl
        simp only [AppWrite.act_write, Write.act_merge, Option.mem_def, Option.some.injEq] at hd
        subst hd
        refine (describes_iff hp).2 fun k v hv => ?_
        rw [Std.ExtTreeMap.getElem?_union, Option.or_eq_some_iff, getElem?_getD] at hv
        rcases hv with hv | ⟨-, hv⟩
        · exact (describes_iff hp).1 h.1 k v hv
        · obtain ⟨d, rfl, hv⟩ := Option.bind_eq_some_iff.1 hv
          exact (describes_iff hp).1 (hdoc d rfl) k v hv

theorem describes_docs {ws : List AppWrite} {p : DocPath}
    (h : ∀ x ∈ ws, DocWrite.path x = p → Sound encoded x) {doc : Doc}
    (hdoc : docs ws p = some doc) : Describes encoded p doc := by
  refine DocWrite.replay_keeps_some rfl (fun x hx hp d hd => ?_) hdoc
  subst hp
  exact (h x hx rfl).describes_act hd

/-! ## What the buttons write -/

theorem sendFriendRequest_sound {p : Process} {other : String} {ws : List Write}
    (h : sendFriendRequest p.device.currentUser other = some ws) :
    ∀ w ∈ ws, Sound (p.encodes (.sendFriendRequest other)) (.write w) := by
  obtain ⟨user, hu, h⟩ := Option.bind_eq_some_iff.1 h
  split_ifs at h with hne
  · obtain ⟨name, hname, h⟩ := Option.bind_eq_some_iff.1 h
    obtain rfl := Option.some.inj h
    have henc : p.encodes (.sendFriendRequest other) = [.request user.uid name other] := by
      simp [Process.encodes, hu, hname, hne]
    intro w hw
    rcases List.mem_pair.1 hw with rfl | rfl
    · exact ⟨fun _ _ _ => trivial, fun hm => by cases hm⟩
    · refine ⟨⟨name, Doc.getElem?_ofList_pair (by decide) (by simp), ?_⟩, fun hm => by cases hm⟩
      rw [henc]
      exact List.mem_singleton_self _
  · obtain rfl := Option.some.inj h
    exact fun w hw => (List.not_mem_nil hw).elim

end MessageApp
