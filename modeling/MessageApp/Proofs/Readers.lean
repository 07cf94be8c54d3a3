import MessageApp.DiscoverViewController
import MessageApp.Proofs.Clients
import MessageApp.Proofs.Documents
import MessageApp.Proofs.Incremental
import MessageApp.RecentViewController

/-!
# What the listeners read

On documents of the app's format no listener traps, and what each of them fills its lists with is
what was encoded. A list reader is described by one list of entries, one for each document or
field, and its lists are the columns of it.
-/

namespace MessageApp

open Keyed

theorem exists_forall₂ {α β : Type*} {R : α → β → Prop} {l : List α}
    (h : ∀ a ∈ l, ∃ b, R a b) : ∃ m, List.Forall₂ R l m := by
  induction l with
  | nil => exact ⟨[], .nil⟩
  | cons a l ih =>
    obtain ⟨b, hb⟩ := h a List.mem_cons_self
    obtain ⟨m, hm⟩ := ih fun a ha => h a (List.mem_cons_of_mem _ ha)
    exact ⟨b :: m, .cons hb hm⟩

variable {encoded : List Encoded}

namespace RecentViewController

/-- The names and flags of the documents go into the lists, in order. -/
theorem friendsListener_of_forall₂ {documents : List (String × Doc)}
    {entries : List (String × Bool)}
    (h : List.Forall₂ (fun d e => d.2["username"]? = some (Value.string e.1) ∧
      d.2["groupFlag"]? = some (Value.bool e.2)) documents entries) (g : Globals) :
    ∃ g' lists, friendsListener g documents = some (g', lists) ∧
      lists.listOfFriends = entries.map Prod.fst ∧ lists.isGroupChat = entries.map Prod.snd := by
  unfold friendsListener
  suffices ∀ (g₀ : Globals) (l₀ : FriendLists), ∃ g' lists,
      documents.foldlM _ (g₀, l₀) = some (g', lists) ∧
        lists.listOfFriends = l₀.listOfFriends ++ entries.map Prod.fst ∧
        lists.isGroupChat = l₀.isGroupChat ++ entries.map Prod.snd from by
    simpa using this { g with listOfId := [] } {}
  induction h with
  | nil => exact fun g₀ l₀ => ⟨g₀, l₀, rfl, by simp⟩
  | cons hde _ ih =>
    intro g₀ l₀
    rw [List.foldlM_cons]
    simp only [hde.1, hde.2, Option.bind_eq_bind, Option.bind_some, Value.string?, Value.bool?]
    obtain ⟨g', lists, hl, hnames, hflags⟩ := ih _ _
    refine ⟨g', lists, hl, ?_, ?_⟩
    · rw [hnames]
      split_ifs <;> simp
    · rw [hflags]
      split_ifs <;> simp

theorem friendsListener_of_describes {uid : String} {documents : List (String × Doc)}
    (h : ∀ d ∈ documents, Describes encoded (.friends uid d.1) d.2) (g : Globals) :
    ∃ g' lists, friendsListener g documents = some (g', lists) ∧
      List.Forall₂ (fun d e => Encoded.friend uid d.1 (some e.1) e.2 ∈ encoded) documents
        (lists.listOfFriends.zip lists.isGroupChat) := by
  obtain ⟨entries, hentries⟩ := exists_forall₂ (R := fun (d : String × Doc) (e : String × Bool) =>
    (d.2["username"]? = some (Value.string e.1) ∧ d.2["groupFlag"]? = some (Value.bool e.2)) ∧
      Encoded.friend uid d.1 (some e.1) e.2 ∈ encoded) fun d hd => by
    obtain ⟨name, flag, hname, hflag, henc⟩ := h d hd
    exact ⟨(name, flag), ⟨hname, hflag⟩, henc⟩
  obtain ⟨g', lists, hl, hnames, hflags⟩ :=
    friendsListener_of_forall₂ (hentries.imp fun _ _ h => h.1) g
  have hzip : (entries.map Prod.fst).zip (entries.map Prod.snd) = entries :=
    (List.zip_of_prod rfl rfl).symm
  refine ⟨g', lists, hl, ?_⟩
  rw [hnames, hflags, hzip]
  exact hentries.imp fun _ _ h => h.2

theorem requestListener_of_describes {uid : String} {documents : List (String × Doc)}
    (h : ∀ d ∈ documents, Describes encoded (.friendRequestFrom uid d.1) d.2) :
    ∃ information, requestListener documents = some information ∧
      List.Forall₂ (fun d name => Encoded.request d.1 name uid ∈ encoded) documents
        information.name := by
  obtain ⟨names, hnames⟩ := exists_forall₂ h
  have hmap : documents.mapM (fun d => do (← d.2["username"]?).string?) = some names := by
    clear h
    induction hnames with
    | nil => rfl
    | cons hd _ ih =>
      rw [List.mapM_cons, ih, hd.1]
      rfl
  refine ⟨⟨names, documents.map Prod.fst⟩, ?_, hnames.imp fun _ _ h => h.2⟩
  unfold requestListener
  rw [hmap]
  rfl

end RecentViewController

/-! ## Records -/

/-- A document of messages is read as they were sent. -/
theorem dict?_of_messages {doc : Doc}
    (h : ∀ (k : String) (v : Value), doc[k]? = some v → IsMessage encoded k v) :
    ∃ b, doc.dict? = some b ∧ ∀ (k : String) (record : List String), b[k]? = some record →
      IsMessage encoded k (.ofStrings record) := by
  have hall : doc.toList.all (·.2.strings?.isSome) = true := by
    refine List.all_eq_true.2 fun e he => ?_
    obtain ⟨author, text, audio, hv, -⟩ :=
      h e.1 e.2 (Std.ExtTreeMap.mem_toList_iff_getElem?_eq_some.1 he)
    simp [hv]
  obtain ⟨b, hb⟩ : ∃ b, doc.dict? = some b := ⟨_, if_pos hall⟩
  refine ⟨b, hb, fun k record hk => h k _ ?_⟩
  rw [Doc.dict?_eq_some hb k, hk]
  rfl

/-- The message of a row. -/
def Row.Told (encoded : List Encoded) (r : Row) : Prop :=
  .message r.who r.text r.audio r.key ∈ encoded

theorem Row.IsOf.told {r : Row} {k : String} {v : Value} (h : r.IsOf (k, v))
    (hv : IsMessage encoded k v) : r.Told encoded := by
  obtain ⟨rfl, rest, hr⟩ := h
  obtain ⟨author, text, audio, rfl, henc⟩ := hv
  obtain ⟨rfl, rfl, rfl, -⟩ : text = r.text ∧ author = r.who ∧ audio = r.audio ∧ [] = rest := by
    simpa using Value.ofStrings_inj.1 hr
  exact henc

namespace ChatViewController

/-- The rows a callback leaves an instance with are messages that were sent. -/
theorem conversationListener_told {cacheMessage : Dict (List (List String))}
    {self : ChatViewController} {own : List Row} {doc : Doc}
    {s : Dict (List (List String)) × ChatViewController} (hself : self.Holds own)
    (hown : ∀ r ∈ own, r.Told encoded)
    (hdoc : ∀ (k : String) (v : Value), doc[k]? = some v → IsMessage encoded k v)
    (h : self.conversationListener cacheMessage (some doc) = some s) :
    ∃ rows, s.2.Holds rows ∧ ∀ r ∈ rows, r.Told encoded := by
  rcases conversationListener_cases hself h with ⟨-, rfl⟩ | ⟨D₁, r, D₂, -, -, -, rfl, hfrom⟩
  · exact ⟨own, hself, hown⟩
  · refine ⟨_, holds_withRows self _, fun a ha => ?_⟩
    rcases hfrom a ha with ha | ⟨⟨k, v⟩, he, hof⟩
    · exact hown a ha
    · exact hof.told (hdoc k v (Std.ExtTreeMap.mem_toList_iff_getElem?_eq_some.1 he))

end ChatViewController

theorem records_of_messages {doc : Doc}
    (h : ∀ (k : String) (v : Value), doc[k]? = some v → IsMessage encoded k v) : doc.Records := by
  intro k v hv
  obtain ⟨author, text, audio, rfl, -⟩ := h k v hv
  exact ⟨_, Value.strings?_ofStrings _, by simp⟩

namespace DiscoverViewController

theorem blogListener_of_forall₂ {doc : Doc} {entries : List (String × String × String)}
    (h : List.Forall₂ (fun f e => f.2 = Value.ofStrings [e.1, e.2.1, e.2.2]) doc.toList entries)
    (self : DiscoverViewController) : ∃ s, self.blogListener (some doc) = some s ∧
      s.userIdArray = entries.map Prod.fst ∧ s.blogArray = entries.map (·.2.1) ∧
      s.userNameArray = entries.map (·.2.2) := by
  simp only [blogListener]
  generalize doc.toList = fields at h ⊢
  suffices ∀ s₀ : DiscoverViewController, ∃ s, fields.foldlM _ s₀ = some s ∧
      s.userIdArray = s₀.userIdArray ++ entries.map Prod.fst ∧
      s.blogArray = s₀.blogArray ++ entries.map (·.2.1) ∧
      s.userNameArray = s₀.userNameArray ++ entries.map (·.2.2) from by
    simpa using this {}
  induction h with
  | nil => exact fun s₀ => ⟨s₀, rfl, by simp⟩
  | cons hfe _ ih =>
    intro s₀
    rw [List.foldlM_cons]
    simp only [hfe, Value.strings?_ofStrings, Option.bind_eq_bind, Option.bind_some,
      List.getElem?_cons_zero, List.getElem?_cons_succ]
    obtain ⟨s, hs, hid, hblog, hname⟩ := ih _
    exact ⟨s, hs, by simp [hid], by simp [hblog], by simp [hname]⟩

/-- The authors, texts and names are those of the stories. -/
theorem blogListener_of_describes {uid : String} {doc : Doc}
    (h : Describes encoded (.friendBlog uid) doc) (self : DiscoverViewController) :
    ∃ s, self.blogListener (some doc) = some s ∧
      List.Forall₂ (fun f e => Encoded.story e.1 e.2.1 (some e.2.2) f.1 ∈ encoded) doc.toList
        (s.userIdArray.zip (s.blogArray.zip s.userNameArray)) := by
  obtain ⟨entries, hentries⟩ := exists_forall₂
    (R := fun (f : String × Value) (e : String × String × String) =>
      f.2 = Value.ofStrings [e.1, e.2.1, e.2.2] ∧
        Encoded.story e.1 e.2.1 (some e.2.2) f.1 ∈ encoded)
    fun f hf => by
      obtain ⟨author, text, name, hv, henc⟩ :=
        h f.1 f.2 (Std.ExtTreeMap.mem_toList_iff_getElem?_eq_some.1 hf)
      exact ⟨(author, text, name), hv, henc⟩
  obtain ⟨s, hs, hid, hblog, hname⟩ :=
    blogListener_of_forall₂ (hentries.imp fun _ _ h => h.1) self
  have hzip : (entries.map Prod.fst).zip ((entries.map (·.2.1)).zip (entries.map (·.2.2))) =
      entries := by
    rw [List.zip_map', List.zip_map']
    exact List.map_id' entries
  refine ⟨s, hs, ?_⟩
  rw [hid, hblog, hname, hzip]
  exact hentries.imp fun _ _ h => h.2

end DiscoverViewController

end MessageApp
