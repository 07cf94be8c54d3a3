import MessageApp.Proofs.Consent

/-!
# What a process writes

Whatever an event encodes is one of a few kinds (`Process.mem_encodes_iff`), and so is every write
of an event (`Process.Effect.wrote`), each to a path of its own: what a document is told by, its
path alone decides.
-/

namespace MessageApp

theorem mem_of_mem_getD {α : Type*} {o : Option (List α)} {a : α} (h : a ∈ o.getD []) :
    ∃ l, o = some l ∧ a ∈ l := by
  cases o with
  | none => cases h
  | some l => exact ⟨l, rfl, h⟩

/-- A document of `Friends`; a missing name is stored as null. -/
def friendData (name : Option String) (isGroupChat : Bool) : Doc :=
  .ofList [("username", match name with
    | none => Value.null
    | some name => .string name), ("groupFlag", .bool isGroupChat)]

/-- The document of a group. -/
def groupData (owner : String) (members : List String) : Doc :=
  .ofList [("RoomOwner", Value.string owner), ("RoomMember", .ofStrings members)]

namespace Process

/-- What an event encodes, when `p` is the process it finds. -/
inductive Encodes (p : Process) : Event → Encoded → Prop
  | text {i : ℕ} {text t : String} {user : User} : text ≠ "" → p.device.currentUser = some user →
    Encodes p (.chat (.finishEditing i text t)) (.message user.uid text "false" t)
  | voice {i : ℕ} {url : Option String} {t : String} {user : User} :
    p.device.currentUser = some user →
    Encodes p (.chat (.voiceCompletion i url t)) (.message user.uid (url.getD "") "true" t)
  | asked {i : ℕ} {self : Requester} {user : User} : p.device.currentUser = some user →
    p.requestScreens[i]? = some self →
    Encodes p (.agreeClicked i) (.friend user.uid self.id (some self.name) false)
  | agreed {i : ℕ} {self : Requester} {user : User} : p.device.currentUser = some user →
    p.requestScreens[i]? = some self →
    Encodes p (.agreeClicked i) (.friend self.id user.uid user.displayName false)
  | request {user : User} {name id : String} : p.device.currentUser = some user →
    user.displayName = some name → user.uid ≠ id →
    Encodes p (.sendFriendRequest id) (.request user.uid name id)
  | member {j : ℕ} {friends : List String} {user : User} {documentID email id : String} :
    p.adding[j]? = some (user, documentID) → user.email = some email → id ∈ user.uid :: friends →
    Encodes p (.groupAdded j friends)
      (.friend id documentID (some (email ++ "Start a Group Chat")) true)
  | story {user : User} {text t : String} : p.device.currentUser = some user →
    Encodes p (.sendStoryClicked (some text) t) (.story user.uid text user.displayName t)

theorem mem_encodes_iff {p : Process} {e : Event} {x : Encoded} :
    x ∈ p.encodes e ↔ Encodes p e x := by
  constructor
  · intro h
    unfold encodes at h
    split at h
    · split_ifs at h with ht
      · obtain ⟨user, hu, rfl⟩ := Option.map_eq_some_iff.1 (Option.mem_toList.1 h)
        exact .text ht hu
      · cases h
    · obtain ⟨user, hu, rfl⟩ := Option.map_eq_some_iff.1 (Option.mem_toList.1 h)
      exact .voice hu
    · obtain ⟨l, hl, h⟩ := mem_of_mem_getD h
      obtain ⟨user, hu, hl⟩ := Option.bind_eq_some_iff.1 hl
      obtain ⟨self, hself, hl⟩ := Option.bind_eq_some_iff.1 hl
      obtain rfl := Option.some.inj hl
      rcases List.mem_pair.1 h with rfl | rfl
      · exact .asked hu hself
      · exact .agreed hu hself
    · obtain ⟨user, hu, h⟩ := Option.bind_eq_some_iff.1 (Option.mem_toList.1 h)
      obtain ⟨name, hname, h⟩ := Option.bind_eq_some_iff.1 h
      split_ifs at h with hne
      obtain rfl := Option.some.inj h
      exact .request hu hname hne
    · obtain ⟨l, hl, h⟩ := mem_of_mem_getD h
      obtain ⟨⟨user, documentID⟩, hj, hl⟩ := Option.bind_eq_some_iff.1 hl
      obtain ⟨email, hemail, hl⟩ := Option.bind_eq_some_iff.1 hl
      obtain rfl := Option.some.inj hl
      obtain ⟨id, hid, rfl⟩ := List.mem_map.1 h
      exact .member hj hemail hid
    · obtain ⟨user, hu, rfl⟩ := Option.map_eq_some_iff.1 (Option.mem_toList.1 h)
      exact .story hu
    · cases h
  · intro h
    cases h with
    | text ht hu => simp [encodes, ht, hu]
    | voice hu => simp [encodes, hu]
    | asked hu hself | agreed hu hself => simp [encodes, hu, hself]
    | request hu hname hne => simp [encodes, hu, hname, hne]
    | member hj hemail hid =>
      simp only [encodes, hj, hemail, Option.bind_eq_bind, Option.bind_some, Option.getD_some]
      exact List.mem_map_of_mem hid
    | story hu => simp [encodes, hu]

/-- A write of the event to the document at a path, when `p` is the process it finds. -/
inductive Wrote (p : Process) : Event → DocPath → AppWrite → Prop
  | chat {e : Device.Event} {path : DocPath} (w : Write) : App.IsOfChats path →
    Wrote p (.chat e) path (.write w)
  | signedUp {uid email : String} (x : AppWrite) : Wrote p (.signupClick uid email) (.buffer uid) x
  | account (uid email : String) : Wrote p (.signupClick uid email) (.user uid)
    (.write (.setData (.user uid)
      (.ofList [("email", Value.string email), ("username", Value.string email)]) false))
  | answered {e : Event} {i : ℕ} {self : Requester} {user : User} :
    p.device.currentUser = some user → p.requestScreens[i]? = some self →
    e = .agreeClicked i ∨ e = .disagreeClicked i →
    Wrote p e (.friendRequestFrom user.uid self.id)
      (.write (.delete (.friendRequestFrom user.uid self.id)))
  | answer {e : Event} {i : ℕ} {self : Requester} {user : User} :
    p.device.currentUser = some user → p.requestScreens[i]? = some self →
    e = .agreeClicked i ∨ e = .disagreeClicked i →
    Wrote p e (.friendRequestTo self.id user.uid)
      (.write (.delete (.friendRequestTo self.id user.uid)))
  | friends {e : Event} {uid id : String} {name : Option String} {isGroupChat : Bool} :
    .friend uid id name isGroupChat ∈ p.encodes e →
    Wrote p e (.friends uid id)
      (.write (.setData (.friends uid id) (friendData name isGroupChat) false))
  | request {user : User} {id : String} (data : Doc) : p.device.currentUser = some user →
    user.displayName.isSome → user.uid ≠ id →
    Wrote p (.sendFriendRequest id) (.friendRequestTo user.uid id)
      (.write (.setData (.friendRequestTo user.uid id) data false))
  | requested {user : User} {id : String} (data : Doc) : p.device.currentUser = some user →
    user.displayName.isSome → user.uid ≠ id →
    Wrote p (.sendFriendRequest id) (.friendRequestFrom id user.uid)
      (.write (.setData (.friendRequestFrom id user.uid) data false))
  | group {friends : List String} {user : User} (id : String) : p.device.currentUser = some user →
    Wrote p (.startGroupChatNow friends id) (.group id)
      (.write (.setData (.group id) (groupData user.uid (friends ++ [user.uid])) false))
  | myBlog {user : User} {text t : String} : p.device.currentUser = some user →
    Wrote p (.sendStoryClicked (some text) t) (.myBlog user.uid)
      (.write (.setData (.myBlog user.uid)
        (.insert ∅ t (.array [some user.uid, some text, user.displayName])) true))
  | friendBlog {user : User} {text t id : String} : p.device.currentUser = some user →
    id = user.uid ∨ id ∈ p.device.globals.listOfId →
    Wrote p (.sendStoryClicked (some text) t) (.friendBlog id)
      (.write (.setData (.friendBlog id)
        (.insert ∅ t (.array [some user.uid, some text, user.displayName])) true))

theorem Effect.wrote {p q : Process} {e : Event} {ws : List AppWrite} (h : Effect p e q ws)
    {x : AppWrite} (hx : x ∈ ws) : Wrote p e (DocWrite.path x) x := by
  cases h with
  | chat _ hd =>
    obtain ⟨w, hw, rfl⟩ := List.mem_map.1 hx
    exact .chat w (App.chat_isOfChats hd w hw)
  | signupClick uid email =>
    simp only [MessageApp.signupClick, List.mem_cons, List.not_mem_nil, or_false] at hx
    rcases hx with rfl | rfl | rfl
    · exact .signedUp _
    · exact .signedUp _
    · exact .account uid email
  | agreeClicked hi hws =>
    obtain ⟨user, hu, hws⟩ := Option.bind_eq_some_iff.1 hws
    obtain rfl := Option.some.inj hws
    simp only [List.map_cons, List.map_nil, List.mem_cons, List.not_mem_nil, or_false] at hx
    rcases hx with rfl | rfl | rfl | rfl
    · exact .answered hu hi (.inl rfl)
    · exact .answer hu hi (.inl rfl)
    · exact .friends (mem_encodes_iff.2 (.asked hu hi))
    · exact .friends (mem_encodes_iff.2 (.agreed hu hi))
  | disagreeClicked hi hws =>
    obtain ⟨user, hu, hws⟩ := Option.bind_eq_some_iff.1 hws
    obtain rfl := Option.some.inj hws
    simp only [List.map_cons, List.map_nil, List.mem_cons, List.not_mem_nil, or_false] at hx
    rcases hx with rfl | rfl
    · exact .answered hu hi (.inr rfl)
    · exact .answer hu hi (.inr rfl)
  | sendFriendRequest hws =>
    obtain ⟨w, hw, rfl⟩ := List.mem_map.1 hx
    obtain ⟨user, hu, hws⟩ := Option.bind_eq_some_iff.1 hws
    simp only [] at hws
    split_ifs at hws with hne
    · obtain ⟨name, hname, hws⟩ := Option.bind_eq_some_iff.1 hws
      have hsome : user.displayName.isSome := by rw [hname]; rfl
      obtain rfl := Option.some.inj hws
      rcases List.mem_pair.1 hw with rfl | rfl
      · exact .request _ hu hsome hne
      · exact .requested _ hu hsome hne
    · obtain rfl := Option.some.inj hws
      cases hw
  | startGroupChatNow hu hws =>
    obtain rfl := Option.some.inj hws
    obtain rfl := List.mem_singleton.1 hx
    exact .group _ hu
  | @groupAdded j user friends documentID _ hj hws =>
    obtain ⟨email, hemail, hws⟩ := Option.bind_eq_some_iff.1 hws
    obtain rfl := Option.some.inj hws
    obtain ⟨w, hw, rfl⟩ := List.mem_map.1 hx
    obtain ⟨id, hid, rfl⟩ : ∃ id ∈ user.uid :: friends, Write.setData (.friends id documentID)
        (friendData (some (email ++ "Start a Group Chat")) true) false = w :=
      List.mem_map.1 hw
    exact .friends (mem_encodes_iff.2 (.member hj hemail hid))
  | @sendStoryClicked text t ws hws =>
    obtain ⟨w, hw, rfl⟩ := List.mem_map.1 hx
    cases text with
    | none =>
      obtain rfl := Option.some.inj hws
      cases hw
    | some text =>
      obtain ⟨user, hu, rfl⟩ := Option.map_eq_some_iff.1 hws
      rcases List.mem_cons.1 hw with rfl | hw
      · exact .myBlog hu
      rcases List.mem_cons.1 hw with rfl | hw
      · exact .friendBlog hu (.inl rfl)
      · obtain ⟨id, hid, rfl⟩ := List.mem_map.1 hw
        exact .friendBlog hu (.inr hid)
  | _ => cases hx

end Process

namespace App

/-- What is issued has been issued before, or is written by the event. -/
theorem issued_of_step {init : List AppWrite} {w w' : App} {e : Event}
    (h : w.step init e = some w') {c : String × Option String} {x : AppWrite}
    (hx : x ∈ w'.net.issued c) :
    x ∈ w.net.issued c ∨ ∃ p pe, Delivers init w e p pe ∧
      (w.process p).Wrote pe (DocWrite.path x) x ∧
      w'.encoded = w.encoded ++ (w.process p).encodes pe := by
  rcases step_cases h with ⟨c', net, -, hnet, rfl⟩ | ⟨p, pe, q, ws, hpe, heff, rfl⟩
  · rw [WriteQueue.issued_land hnet] at hx
    exact .inl hx
  · rcases WriteQueue.mem_issued_issue.1 hx with hx | ⟨-, hx⟩
    · exact .inl hx
    · exact .inr ⟨p, pe, hpe, heff.wrote hx, rfl⟩

end App

end MessageApp
