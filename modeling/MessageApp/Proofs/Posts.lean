import MessageApp.ChatViewController
import MessageApp.DiscoverSendViewController
import MessageApp.Proofs.Records

/-!
# Records under the clocks of their writers

Messages and stories are merged into documents under the string of the sender's clock alone. However
the writes of a set of posts are ordered, a document keeps all of its posts exactly when their clock
strings differ (`posted_records`).
-/

namespace MessageApp

/-- What a user posts, at a reading of the clock: a text or a voice message from an instance with
nothing half sent, or a story. -/
inductive Post
  | text (user : User) (chatWithId : String) (isGroupChat : Bool) (roomMember : List String)
    (text t : String)
  | voice (user : User) (chatWithId : String) (isGroupChat : Bool) (roomMember : List String)
    (url : Option String) (t : String)
  | story (user : User) (text : String) (listOfId : List String) (t : String)

namespace Post

/-- What is written when the message is sent and, in a group, when its block runs. -/
def sentWrites : Option (ChatViewController × List Write × Option Block) → List Write
  | none => []
  | some (_, ws, none) => ws
  | some (self, ws, some b) => ws ++ b.run self

def writes : Post → List Write
  | .text user chatWithId isGroupChat roomMember content t =>
    sentWrites (ChatViewController.finishEditing
      { chatWithId := chatWithId, chatisGroupChat := isGroupChat, roomMember := roomMember }
      (some user) content t)
  | .voice user chatWithId isGroupChat roomMember url t =>
    sentWrites (ChatViewController.voiceCompletion
      { chatWithId := chatWithId, chatisGroupChat := isGroupChat, roomMember := roomMember }
      (some user) url t)
  | .story user content listOfId t =>
    (sendStoryClicked (some user) (some content) listOfId t).getD []

/-- The clock's reading, as a string. -/
def t : Post → String
  | .text _ _ _ _ _ t | .voice _ _ _ _ _ t | .story _ _ _ t => t

def record : Post → Value
  | .text user _ _ _ content _ => .ofStrings [content, user.uid, "false"]
  | .voice user _ _ _ url _ => .ofStrings [url.getD "", user.uid, "true"]
  | .story user content _ _ => .array [some user.uid, some content, user.displayName]

/-- The post is written to the document. -/
def To (d : DocPath) (p : Post) : Prop := ∃ w ∈ p.writes, DocWrite.path w = d

instance (d : DocPath) : DecidablePred (To d) := fun p =>
  inferInstanceAs (Decidable (∃ w ∈ p.writes, DocWrite.path w = d))

theorem posts_of_mem_sentWrites {self : ChatViewController} (hs : self.sarray = [])
    (ht : self.timestamp = []) {content uid flag t : String} {w : Write}
    (h : w ∈ sentWrites (some (self.send content uid flag t))) :
    w.Posts (t, .ofStrings [content, uid, flag]) := by
  unfold ChatViewController.send at h
  simp only [hs, ht, List.nil_append, List.foldl_cons, List.foldl_nil] at h
  split_ifs at h
  · rcases List.mem_append.1 h with h | h
    · simp only [List.mem_cons, List.not_mem_nil, or_false] at h
      rcases h with rfl | rfl <;> exact Write.posts_ofDict _ _ _
    · obtain ⟨id, -, rfl⟩ := List.mem_map.1 h
      exact Write.posts_ofDict _ _ _
  · simp only [sentWrites, List.mem_cons, List.not_mem_nil, or_false] at h
    rcases h with rfl | rfl | rfl <;> exact Write.posts_ofDict _ _ _

theorem posts_of_mem_writes {p : Post} {w : Write} (h : w ∈ p.writes) :
    w.Posts (p.t, p.record) := by
  cases p with
  | text user chatWithId isGroupChat roomMember content t =>
    simp only [writes, ChatViewController.finishEditing] at h
    split_ifs at h
    · exact posts_of_mem_sentWrites rfl rfl h
    · cases h
  | voice user chatWithId isGroupChat roomMember url t =>
    simp only [writes, ChatViewController.voiceCompletion, Option.map_some] at h
    exact posts_of_mem_sentWrites rfl rfl h
  | story user content listOfId t =>
    simp only [writes, sendStoryClicked, Option.map_some, Option.getD_some, List.mem_cons,
      List.mem_map] at h
    rcases h with rfl | rfl | ⟨id, -, rfl⟩
    · exact Write.posts_setData _ _ _
    · exact Write.posts_setData _ _ _
    · exact Write.posts_setData _ _ _

theorem postedTo {posts : List Post} {log : List Write}
    (h : log.Perm (posts.flatMap writes)) (d : DocPath) :
    PostedTo (fun _ => none) log d ((posts.filter (To d)).map fun p => (p.t, p.record)) := by
  refine ⟨rfl, fun w hw hd => ?_, fun r hr => ?_⟩
  · obtain ⟨p, hp, hw⟩ := List.mem_flatMap.1 (h.mem_iff.1 hw)
    refine ⟨_, List.mem_map.2 ⟨p, List.mem_filter.2 ⟨hp, ?_⟩, rfl⟩, posts_of_mem_writes hw⟩
    exact decide_eq_true ⟨w, hw, hd⟩
  · obtain ⟨p, hp, rfl⟩ := List.mem_map.1 hr
    obtain ⟨hp, hto⟩ := List.mem_filter.1 hp
    obtain ⟨w, hw, hd⟩ := of_decide_eq_true hto
    exact ⟨w, h.mem_iff.2 (List.mem_flatMap.2 ⟨p, hp, hw⟩), hd, posts_of_mem_writes hw⟩

/-- Once all writes of the posts are applied, in any order, a document's entries are posted records
under their clocks, with an entry for every clock; and there are as many entries as posts, every
post among them, exactly when no two posts to the document share a clock string. -/
theorem posted_records {posts : List Post} {log : List Write}
    (h : log.Perm (posts.flatMap writes)) (d : DocPath) :
    (((DocWrite.replay (fun _ => none) log d).getD ∅).size = (posts.filter (To d)).length ∧
        (∀ p ∈ posts.filter (To d),
          field (DocWrite.replay (fun _ => none) log d) p.t = some p.record) ↔
      ((posts.filter (To d)).map t).Nodup) ∧
    (∀ k v, field (DocWrite.replay (fun _ => none) log d) k = some v →
      ∃ p ∈ posts.filter (To d), p.t = k ∧ p.record = v) ∧
    ∀ p ∈ posts.filter (To d), (field (DocWrite.replay (fun _ => none) log d) p.t).isSome := by
  have hto := postedTo h d
  refine ⟨?_, fun k v hv => ?_, fun p hp => ?_⟩
  · have hiff := hto.all_kept_iff
    rw [List.length_map, List.map_map, List.forall_mem_map] at hiff
    exact hiff
  · obtain ⟨p, hp, he⟩ := List.mem_map.1 (hto.mem_of_field hv)
    obtain ⟨rfl, rfl⟩ := Prod.mk.inj he
    exact ⟨p, hp, rfl, rfl⟩
  · exact hto.isSome_field (List.mem_map_of_mem (f := fun p : Post => (p.t, p.record)) hp)

/-- Two members of a group write to it, at one reading of their clocks or at two. -/
def twoPosts (t : String) : List Post :=
  [.text { uid := "a" } "g" true ["a", "b"] "hi" "1",
    .text { uid := "b" } "g" true ["a", "b"] "ho" t]

theorem posted_records_two :
    ((DocWrite.replay (fun _ => none) ((twoPosts "2").flatMap writes).reverse
        (.groupConversation "g")).getD ∅).size = 2 ∧
      ∀ p ∈ twoPosts "2", field (DocWrite.replay (fun _ => none)
        ((twoPosts "2").flatMap writes).reverse (.groupConversation "g")) p.t = some p.record :=
  (posted_records (List.reverse_perm _) (.groupConversation "g")).1.2 (by decide)

/-- Under one clock string, the group keeps one of the two messages. -/
theorem not_records_always_kept :
    ¬ ∀ (posts : List Post) (log : List Write) d, log.Perm (posts.flatMap writes) →
      ((DocWrite.replay (fun _ => none) log d).getD ∅).size = (posts.filter (To d)).length ∧
        ∀ p ∈ posts.filter (To d),
          field (DocWrite.replay (fun _ => none) log d) p.t = some p.record := by
  intro h
  have hsize := (h (twoPosts "1") _ (.groupConversation "g") (List.Perm.refl _)).1
  revert hsize
  decide

end Post

end MessageApp
