import MessageApp.Discovers
import MessageApp.Proofs.Pictures
import MessageApp.Proofs.Readers
import MessageApp.Proofs.Wrote

/-!
# What the Discover screens show

A friend blog receives nothing but stories, merged under the clocks of their authors. So whatever
version a screen has read, its rows are stories that were posted to its account, in the order of
their clocks (`rows_posted`), and once all of them have landed, under distinct clocks, it shows all
of them (`rows_exact`).
-/

namespace MessageApp

open Keyed

theorem exists_map_eq {α β : Type*} {f : β → α} {P : β → Prop} {l : List α}
    (h : ∀ a ∈ l, ∃ b, P b ∧ f b = a) : ∃ m : List β, m.map f = l ∧ ∀ b ∈ m, P b := by
  induction l with
  | nil => exact ⟨[], rfl, fun b hb => (List.not_mem_nil hb).elim⟩
  | cons a l ih =>
    obtain ⟨b, hb, hba⟩ := h a List.mem_cons_self
    obtain ⟨m, hm, hP⟩ := ih fun a ha => h a (List.mem_cons_of_mem _ ha)
    exact ⟨b :: m, by rw [List.map_cons, hba, hm], List.forall_mem_cons.2 ⟨hb, hP⟩⟩

/-! ## Stories in a blog -/

namespace Story

def record (story : Story) : Value := .array [some story.author, some story.text, story.name]

/-- The write that posts the story to a friend blog. -/
def write (story : Story) (uid : String) : AppWrite :=
  .write (.setData (.friendBlog uid) (.insert ∅ story.t story.record) true)

theorem strings?_record (story : Story) :
    story.record.strings? = story.name.map fun name => [story.author, story.text, name] := by
  unfold record Value.strings?
  cases story.name <;> rfl

theorem entry_write (story : Story) (uid k : String) :
    (story.write uid).entry k = if story.t = k then some story.record else none := by
  show (Std.ExtTreeMap.insert ∅ story.t story.record)[k]? = _
  rw [Std.ExtTreeMap.getElem?_insert]
  by_cases h : story.t = k
  · subst h
    simp
  · simp [h]

end Story

variable {stories : List Story} {ws : List AppWrite} {uid : String}

/-- The writes to the friend blog post stories to the account. -/
def PostsTo (stories : List Story) (ws : List AppWrite) (uid : String) : Prop :=
  ∀ x ∈ ws, DocWrite.path x = .friendBlog uid →
    ∃ story ∈ stories, uid ∈ story.audience ∧ x = story.write uid

theorem PostsTo.field_act (h : PostsTo stories ws uid) (k : String) :
    ∀ x ∈ ws, DocWrite.path x = .friendBlog uid → ∀ d : Option Doc,
      field (DocWrite.act x d) k = (x.entry k).or (field d k) := by
  intro x hx hp d
  obtain ⟨story, -, -, rfl⟩ := h x hx hp
  have hmerge : (Write.setData (.friendBlog uid) (.insert ∅ story.t story.record) true).IsMerge :=
    trivial
  exact hmerge.field_act d k

/-- Each field of the blog is a story, under its clock. -/
theorem PostsTo.story_of_field (h : PostsTo stories ws uid) {k : String} {v : Value}
    (hv : field (docs ws (.friendBlog uid)) k = some v) :
    ∃ story ∈ stories, uid ∈ story.audience ∧ k = story.t ∧ v = story.record := by
  rcases DocWrite.mem_of_read_replay (h.field_act k) hv with ⟨x, hx, hp, he⟩ | hv
  · obtain ⟨story, hs, huid, rfl⟩ := h x hx hp
    rw [story.entry_write] at he
    split_ifs at he with hk
    exact ⟨story, hs, huid, hk.symm, (Option.some.inj he).symm⟩
  · cases hv

/-- Under distinct clocks, a story that is among the writes is a field of the blog. -/
theorem PostsTo.field_of_story (h : PostsTo stories ws uid)
    (htimes : ((stories.filter (uid ∈ ·.audience)).map Story.t).Nodup) {story : Story}
    (hs : story ∈ stories) (huid : uid ∈ story.audience) (hw : story.write uid ∈ ws) :
    field (docs ws (.friendBlog uid)) story.t = some story.record := by
  refine DocWrite.read_replay_eq (h.field_act story.t) hw rfl
    (by rw [story.entry_write, if_pos rfl]) fun x hx hp v he => ?_
  obtain ⟨story', hs', huid', rfl⟩ := h x hx hp
  rw [story'.entry_write] at he
  split_ifs at he with ht
  have : story' = story := List.inj_on_of_nodup_map htimes
    (List.mem_filter.2 ⟨hs', decide_eq_true huid'⟩)
    (List.mem_filter.2 ⟨hs, decide_eq_true huid⟩) ht
  rw [← Option.some.inj he, this]

/-- The fields of the document are the stories, in order. -/
def Tells (doc : Doc) (L : List Story) : Prop := L.map (fun s => (s.t, s.record)) = doc.toList

theorem Tells.sorted {doc : Doc} {L : List Story} (h : Tells doc L) : Sorted Story.t L := by
  have hkeys : doc.keys = L.map Story.t := by
    rw [← Std.ExtTreeMap.map_fst_toList_eq_keys, ← h, List.map_map]
    rfl
  have hord : doc.keys.Pairwise fun a b => compare a b = .lt := Std.ExtTreeMap.ordered_keys
  rw [hkeys, List.pairwise_map] at hord
  exact hord.imp fun h => compare_lt_iff_lt.1 h

theorem PostsTo.tells (h : PostsTo stories ws uid) {doc : Doc}
    (hdoc : docs ws (.friendBlog uid) = some doc) :
    ∃ L, Tells doc L ∧ ∀ story ∈ L, story ∈ stories ∧ uid ∈ story.audience := by
  refine exists_map_eq fun f hf => ?_
  have hfield : field (docs ws (.friendBlog uid)) f.1 = some f.2 := by
    rw [hdoc]
    exact Std.ExtTreeMap.mem_toList_iff_getElem?_eq_some.1 hf
  obtain ⟨story, hs, huid, hk, hv⟩ := h.story_of_field hfield
  exact ⟨story, ⟨hs, huid⟩, Prod.ext hk.symm hv.symm⟩

/-- Once every story to the account is among the writes, under distinct clocks, the blog tells all
of them. -/
theorem PostsTo.perm_of_tells (h : PostsTo stories ws uid)
    (htimes : ((stories.filter (uid ∈ ·.audience)).map Story.t).Nodup)
    (hall : ∀ story ∈ stories, uid ∈ story.audience → story.write uid ∈ ws) {doc : Doc}
    (hdoc : docs ws (.friendBlog uid) = some doc) {L : List Story} (hL : Tells doc L)
    (hfrom : ∀ story ∈ L, story ∈ stories ∧ uid ∈ story.audience) :
    L.Perm (stories.filter (uid ∈ ·.audience)) := by
  refine (List.perm_ext_iff_of_nodup (hL.sorted.nodup_keys Story.t).of_map htimes.of_map).2
    fun story => ⟨fun hs => ?_, fun hs => ?_⟩
  · obtain ⟨hs, huid⟩ := hfrom story hs
    exact List.mem_filter.2 ⟨hs, decide_eq_true huid⟩
  · obtain ⟨hmem, huid⟩ := List.mem_filter.1 hs
    have huid : uid ∈ story.audience := of_decide_eq_true huid
    have hfield := h.field_of_story htimes hmem huid (hall story hmem huid)
    rw [hdoc] at hfield
    have hf : (story.t, story.record) ∈ doc.toList :=
      Std.ExtTreeMap.mem_toList_iff_getElem?_eq_some.2 hfield
    rw [← hL] at hf
    obtain ⟨story', hs', he⟩ := List.mem_map.1 hf
    obtain ⟨hmem', huid'⟩ := hfrom story' hs'
    obtain rfl : story' = story := List.inj_on_of_nodup_map htimes
      (List.mem_filter.2 ⟨hmem', decide_eq_true huid'⟩) hs (Prod.mk.inj he).1
    exact hs'

/-! ## Stories on a screen -/

namespace DiscoverViewController

/-- The arrays are the columns of the stories. -/
structure Lists (a : DiscoverViewController) (L : List Story) : Prop where
  userIdArray : a.userIdArray = L.map Story.author
  blogArray : a.blogArray = L.map Story.text
  userNameArray : a.userNameArray.map some = L.map Story.name

theorem lists_nil : Lists {} [] := ⟨rfl, rfl, rfl⟩

/-- A blog that is read is read into the columns of its stories. -/
theorem lists_of_blogListener {self self' : DiscoverViewController} {doc : Doc} {L : List Story}
    (hL : Tells doc L) (h : self.blogListener (some doc) = some self') : self'.Lists L := by
  simp only [blogListener] at h
  rw [← hL, List.foldlM_map] at h
  simp only [Story.strings?_record] at h
  suffices ∀ (s₀ : DiscoverViewController) (L₀ : List Story), s₀.Lists L₀ →
      L.foldlM _ s₀ = some self' → self'.Lists (L₀ ++ L) from this _ [] lists_nil h
  clear h hL
  induction L with
  | nil =>
    intro s₀ L₀ h₀ h
    obtain rfl := Option.some.inj h
    rwa [List.append_nil]
  | cons story L ih =>
    intro s₀ L₀ h₀ h
    rw [List.foldlM_cons] at h
    obtain ⟨s₁, h₁, h⟩ := Option.bind_eq_some_iff.1 h
    obtain ⟨value, hvalue, h₁⟩ := Option.bind_eq_some_iff.1 h₁
    obtain ⟨name, hname, rfl⟩ := Option.map_eq_some_iff.1 hvalue
    obtain rfl := Option.some.inj h₁
    rw [List.append_cons]
    exact ih _ _ ⟨by simp [h₀.userIdArray], by simp [h₀.blogArray],
      by simp [h₀.userNameArray, hname]⟩ h

/-- A blog whose stories have names is read. -/
theorem isSome_blogListener {doc : Doc} {L : List Story} (hL : Tells doc L)
    (hnamed : ∀ story ∈ L, story.name.isSome) (self : DiscoverViewController) :
    (self.blogListener (some doc)).isSome := by
  have hall : List.Forall₂ (fun f e => f.2 = Value.ofStrings [e.1, e.2.1, e.2.2]) doc.toList
      (L.map fun story => (story.author, story.text, story.name.getD "")) := by
    rw [← hL, List.forall₂_map_left_iff, List.forall₂_map_right_iff, List.forall₂_same]
    intro story hs
    obtain ⟨name, hname⟩ := Option.isSome_iff_exists.1 (hnamed story hs)
    simp [Story.record, Value.ofStrings, hname]
  obtain ⟨s, hs, -⟩ := blogListener_of_forall₂ hall self
  rw [hs]
  rfl

/-- The cell of a row is that of its story. -/
theorem Lists.cellForRowAt {a : DiscoverViewController} {L : List Story} (h : a.Lists L)
    {Image : Type} (cacheItem : Dict Image) {row : ℕ} {story : Story} (hs : L[row]? = some story) :
    ∃ name, story.name = some name ∧
      a.cellForRowAt cacheItem row = some ⟨cacheItem[story.author]?, story.text, name⟩ := by
  have hid : a.userIdArray[row]? = some story.author := by
    rw [h.userIdArray, List.getElem?_map, hs]
    rfl
  have hblog : a.blogArray[row]? = some story.text := by
    rw [h.blogArray, List.getElem?_map, hs]
    rfl
  have hname : a.userNameArray[row]?.map some = some story.name := by
    rw [← List.getElem?_map, h.userNameArray, List.getElem?_map, hs]
    rfl
  obtain ⟨name, hrow, hname⟩ := Option.map_eq_some_iff.1 hname
  exact ⟨name, hname.symm, by simp [DiscoverViewController.cellForRowAt, hid, hblog, hrow]⟩

/-- A cell is of one of the stories. -/
theorem Lists.story_of_cell {a : DiscoverViewController} {L : List Story} (h : a.Lists L)
    {Image : Type} {cacheItem : Dict Image} {row : ℕ} {cell : Cell Image}
    (hc : a.cellForRowAt cacheItem row = some cell) : ∃ story ∈ L, cell.post = story.text ∧
      story.name = some cell.username ∧ cell.imageProfile = cacheItem[story.author]? := by
  obtain ⟨id, hid, -⟩ := Option.bind_eq_some_iff.1 hc
  have hrow : row < L.length := by
    rw [← L.length_map Story.author, ← h.userIdArray]
    exact (List.getElem?_eq_some_iff.1 hid).1
  obtain ⟨name, hname, hcell⟩ := h.cellForRowAt cacheItem (List.getElem?_eq_getElem hrow)
  obtain rfl := Option.some.inj (hc.symm.trans hcell)
  exact ⟨_, List.getElem_mem hrow, rfl, hname, rfl⟩

theorem Lists.numberOfRowsInSection {a : DiscoverViewController} {L : List Story}
    (h : a.Lists L) : a.numberOfRowsInSection = L.length := by
  rw [DiscoverViewController.numberOfRowsInSection, h.blogArray, List.length_map]

end DiscoverViewController

/-! ## Stories of a run -/

/-- What an event writes to friend blogs are the stories it posts, to their audiences. -/
theorem Process.Wrote.story_of_friendBlog {p : Process} {pe : Process.Event} {x : AppWrite}
    {uid : String} (h : p.Wrote pe (.friendBlog uid) x) :
    ∃ story ∈ p.posts pe, uid ∈ story.audience ∧ x = story.write uid := by
  cases h with
  | @friendBlog user text t id hu haud =>
    refine ⟨⟨user.uid, text, user.displayName, t, user.uid :: p.device.globals.listOfId⟩,
      by simp [Process.posts, hu], ?_, rfl⟩
    rcases haud with rfl | haud
    · exact List.mem_cons_self
    · exact List.mem_cons_of_mem _ haud
  | chat _ hchat => exact hchat.elim

/-- The stories an event posts are written to the friend blogs of their audiences. -/
theorem Process.Effect.write_story {p q : Process} {pe : Process.Event} {ws : List AppWrite}
    (h : Process.Effect p pe q ws) {story : Story} (hs : story ∈ p.posts pe) {uid : String}
    (huid : uid ∈ story.audience) : story.write uid ∈ ws := by
  unfold Process.posts at hs
  split at hs
  · obtain ⟨user, hu, rfl⟩ := Option.map_eq_some_iff.1 (Option.mem_toList.1 hs)
    cases h with
    | sendStoryClicked hws =>
      rw [hu] at hws
      obtain rfl := Option.some.inj hws
      refine List.mem_map.2 ⟨_, ?_, rfl⟩
      rcases List.mem_cons.1 huid with rfl | huid
      · simp [Story.record]
      · exact List.mem_cons_of_mem _ (List.mem_cons_of_mem _ (List.mem_map.2 ⟨uid, huid, rfl⟩))
  · cases hs

namespace App

variable {init : List AppWrite} {w w' : App} {e : Event}

theorem Delivers.taken {p : String} {pe : Process.Event} (h : Delivers init w e p pe) :
    w.taken init e = some (p, pe) := by
  cases h with
  | on => rfl
  | deliver hq => simp [App.taken, hq]

/-- What is issued to a friend blog has been issued before, or is a story that is posted. -/
theorem story_of_step (h : w.step init e = some w') {c : String × Option String} {x : AppWrite}
    (hx : x ∈ w'.net.issued c) {uid : String} (hp : DocWrite.path x = .friendBlog uid) :
    x ∈ w.net.issued c ∨ ∃ p pe, w.taken init e = some (p, pe) ∧
      ∃ story ∈ (w.process p).posts pe, uid ∈ story.audience ∧ x = story.write uid := by
  rcases issued_of_step h hx with hx | ⟨p, pe, hpe, hwrote, -⟩
  · exact .inl hx
  · exact .inr ⟨p, pe, hpe.taken, (hp ▸ hwrote).story_of_friendBlog⟩

/-- A story that is posted is issued to its audience. -/
theorem issued_story_of_step (h : w.step init e = some w') {p : String} {pe : Process.Event}
    (htaken : w.taken init e = some (p, pe)) {story : Story} (hs : story ∈ (w.process p).posts pe)
    {uid : String} (huid : uid ∈ story.audience) : ∃ c, story.write uid ∈ w'.net.issued c := by
  rcases step_cases h with ⟨c, net, rfl, -, -⟩ | ⟨p', pe', q, ws, hpe, heff, rfl⟩
  · cases htaken
  · obtain ⟨rfl, rfl⟩ := Prod.mk.inj (Option.some.inj (htaken.symm.trans hpe.taken))
    exact ⟨_, WriteQueue.mem_issued_issue.2 (.inr ⟨rfl, heff.write_story hs huid⟩)⟩

theorem issued_subset_of_step (h : w.step init e = some w') {c : String × Option String}
    {x : AppWrite} (hx : x ∈ w.net.issued c) : x ∈ w'.net.issued c := by
  rcases step_cases h with ⟨c', net, -, hnet, rfl⟩ | ⟨p, pe, q, ws, -, -, rfl⟩
  · rwa [WriteQueue.issued_land hnet]
  · exact WriteQueue.mem_issued_issue.2 (.inl hx)

end App

namespace Discovers

variable {Image Data : Type} {init : List AppWrite} {jpeg : Jpeg Image Data}
  {s t : Discovers Image Data}

/-- The rows of the screen are stories to its account, in the order of their clocks. -/
structure Shows (stories : List Story) (v : DiscoverScreen) (L : List Story) : Prop where
  lists : v.screen.Lists L
  rows : v.rows = L.length
  sorted : Sorted Story.t L
  posted : ∀ story ∈ L, story ∈ stories ∧ v.uid ∈ story.audience

/-- Friend blogs receive the stories that have been posted, and the screens show some of them. -/
structure Kept (s : Discovers Image Data) : Prop where
  posted : ∀ c, ∀ x ∈ s.pictures.app.net.issued c, ∀ uid, DocWrite.path x = .friendBlog uid →
    ∃ story ∈ s.stories, uid ∈ story.audience ∧ x = story.write uid
  issued : ∀ story ∈ s.stories, ∀ uid ∈ story.audience,
    ∃ c, story.write uid ∈ s.pictures.app.net.issued c
  screens : ∀ p, ∀ v ∈ s.screens p, ∃ L, Shows s.stories v L

theorem kept_start : (start : Discovers Image Data).Kept where
  posted _ _ hx := (List.not_mem_nil hx).elim
  issued _ hs := (List.not_mem_nil hs).elim
  screens _ _ hv := (List.not_mem_nil hv).elim

theorem Shows.mono {stories stories' : List Story} (hs : stories ⊆ stories') {v : DiscoverScreen}
    {L : List Story} (h : Shows stories v L) : Shows stories' v L :=
  ⟨h.lists, h.rows, h.sorted, fun story hL => (h.posted story hL).imp_left fun h => hs h⟩

/-- Whatever a snapshot shows of a friend blog are stories that have been posted. -/
theorem Kept.postsTo (hK : s.Kept) (hinit : ∀ x ∈ init, ∀ uid, DocWrite.path x ≠ .friendBlog uid)
    (c : String × Option String) (n m : ℕ) (uid : String) :
    PostsTo s.stories (s.pictures.app.seen init c n m) uid := by
  intro x hx hp
  rcases App.mem_seen hx with hx | ⟨c, hx⟩
  · exact absurd hp (hinit x hx uid)
  · exact hK.posted c x hx uid hp

theorem Kept.pictures (hK : s.Kept) {e : Pictures.Event Image}
    (h : s.step init jpeg (.pictures e) = some t) : t.Kept := by
  obtain ⟨pictures, hpictures, h⟩ := Option.bind_eq_some_iff.1 h
  obtain rfl := Option.some.inj h
  have hmono : s.stories ⊆ s.stories ++ s.posts init (.pictures e) := List.subset_append_left _ _
  have hscreens : ∀ p, ∀ v ∈ s.screens p, ∃ L,
      Shows (s.stories ++ s.posts init (.pictures e)) v L :=
    fun p v hv => (hK.screens p v hv).imp fun _ h => h.mono hmono
  rcases Pictures.app_of_step hpictures with ⟨ae, rfl, happ⟩ | ⟨hne, happ⟩
  · refine ⟨fun c x hx uid hp => ?_, fun story hs uid huid => ?_, hscreens⟩
    · rcases App.story_of_step happ hx hp with hx | ⟨p, pe, htaken, story, hs, huid, rfl⟩
      · obtain ⟨story, hs, huid, rfl⟩ := hK.posted c x hx uid hp
        exact ⟨story, hmono hs, huid, rfl⟩
      · exact ⟨story, List.mem_append_right _ (by simpa only [posts, htaken] using hs), huid, rfl⟩
    · rcases List.mem_append.1 hs with hs | hs
      · obtain ⟨c, hc⟩ := hK.issued story hs uid huid
        exact ⟨c, App.issued_subset_of_step happ hc⟩
      · simp only [posts] at hs
        split at hs
        · cases hs
        · rename_i p pe htaken
          exact App.issued_story_of_step happ htaken hs huid
  · have hposts : s.posts init (.pictures e) = [] := by
      cases e with
      | app ae => exact absurd rfl (hne ae)
      | _ => rfl
    rw [hposts, List.append_nil] at hscreens ⊢
    exact ⟨happ ▸ hK.posted, happ ▸ hK.issued, hscreens⟩

/-- What a callback leaves a screen with. -/
theorem Shows.blogSnapshot {stories : List Story} {ws : List AppWrite} {v : DiscoverScreen}
    (hv : ∃ L, Shows stories v L) (hposts : PostsTo stories ws v.uid)
    {screen : DiscoverViewController}
    (h : v.screen.blogListener (docs ws (.friendBlog v.uid)) = some screen) :
    ∃ L, Shows stories (v.read (docs ws (.friendBlog v.uid)) screen) L := by
  cases hdoc : docs ws (.friendBlog v.uid) with
  | none =>
    rw [hdoc] at h
    obtain rfl := Option.some.inj h
    exact hv
  | some doc =>
    rw [hdoc] at h
    obtain ⟨L, hL, hfrom⟩ := hposts.tells hdoc
    have hlists : screen.Lists L := DiscoverViewController.lists_of_blogListener hL h
    exact ⟨L, hlists, hlists.numberOfRowsInSection, hL.sorted, hfrom⟩

theorem Kept.set (hK : s.Kept) {p : String} {i : ℕ} {v : DiscoverScreen}
    (hv : ∃ L, Shows s.stories v L) : (s.display p ((s.screens p).set i v)).Kept := by
  refine ⟨hK.posted, hK.issued, fun p' v' hv' => ?_⟩
  by_cases hp : p' = p
  · subst hp
    simp only [display, Function.update_self] at hv'
    rcases List.mem_or_eq_of_mem_set hv' with hv' | rfl
    · exact hK.screens p' v' hv'
    · exact hv
  · simp only [display, Function.update_of_ne hp] at hv'
    exact hK.screens p' v' hv'

theorem Kept.step (hinit : ∀ x ∈ init, ∀ uid, DocWrite.path x ≠ .friendBlog uid) (hK : s.Kept)
    {e : Event Image} (h : s.step init jpeg e = some t) : t.Kept := by
  cases e with
  | pictures e => exact hK.pictures h
  | discoverDidLoad p =>
    obtain ⟨myUser, -, h⟩ := Option.bind_eq_some_iff.1 h
    obtain rfl := Option.some.inj h
    refine ⟨hK.posted, hK.issued, fun p' v hv => ?_⟩
    by_cases hp : p' = p
    · subst hp
      simp only [display, Function.update_self] at hv
      rcases List.mem_append.1 hv with hv | hv
      · exact hK.screens p' v hv
      · obtain rfl := List.mem_singleton.1 hv
        exact ⟨[], DiscoverViewController.lists_nil, rfl, List.Pairwise.nil,
          fun story hs => (List.not_mem_nil hs).elim⟩
    · simp only [display, Function.update_of_ne hp] at hv
      exact hK.screens p' v hv
  | blogSnapshot p i n m =>
    obtain ⟨v, hv, h⟩ := Option.bind_eq_some_iff.1 h
    obtain ⟨screen, hscreen, h⟩ := Option.bind_eq_some_iff.1 h
    obtain rfl := Option.some.inj h
    exact hK.set (Shows.blogSnapshot (hK.screens p v (List.mem_of_getElem? hv))
      (hK.postsTo hinit _ n m v.uid) hscreen)
  | viewWillAppear p i =>
    obtain ⟨v, hv, h⟩ := Option.bind_eq_some_iff.1 h
    obtain rfl := Option.some.inj h
    obtain ⟨L, hL⟩ := hK.screens p v (List.mem_of_getElem? hv)
    exact hK.set ⟨L, hL.lists, hL.lists.numberOfRowsInSection, hL.sorted, hL.posted⟩

theorem kept_of_run (hinit : ∀ x ∈ init, ∀ uid, DocWrite.path x ≠ .friendBlog uid)
    {es : List (Event Image)} (h : EventRun.run (step init jpeg) start es = some s) : s.Kept :=
  EventRun.run_invariant (step init jpeg) (fun _ _ _ hK hs => hK.step hinit hs) kept_start h

/-- From a store without friend blogs, each row that a Discover table has counted shows a story that
was posted to the screen's account, beside what the process has as its author's picture; the rows
are in the order of the stories' clocks, and no two screens show two stories in different orders. -/
theorem rows_posted (hinit : ∀ x ∈ init, ∀ uid, DocWrite.path x ≠ .friendBlog uid)
    {es : List (Event Image)} (h : EventRun.run (step init jpeg) start es = some s) :
    (∀ p, ∀ v ∈ s.screens p, ∃ L, Shows s.stories v L ∧
      ∀ row story, L[row]? = some story → ∃ name, story.name = some name ∧
        v.screen.cellForRowAt (s.pictures.caches p).cacheItem row =
          some ⟨(s.pictures.caches p).cacheItem[story.author]?, story.text, name⟩) ∧
    ∀ p p', ∀ v ∈ s.screens p, ∀ v' ∈ s.screens p', ∃ L L', Shows s.stories v L ∧
      Shows s.stories v' L' ∧ L.filter (· ∈ L') = L'.filter (· ∈ L) := by
  have hK := kept_of_run hinit h
  refine ⟨fun p v hv => ?_, fun p p' v hv v' hv' => ?_⟩
  · obtain ⟨L, hL⟩ := hK.screens p v hv
    exact ⟨L, hL, fun row story hs => hL.lists.cellForRowAt _ hs⟩
  · obtain ⟨L, hL⟩ := hK.screens p v hv
    obtain ⟨L', hL'⟩ := hK.screens p' v' hv'
    exact ⟨L, L', hL, hL', filter_mem_comm_of_sorted Story.t hL.sorted hL'.sorted⟩

/-- `a` opens Discover and posts a story, which the screen shows before it lands. -/
def posting : List (Event String) :=
  [.pictures (.app (.on "p" (.chat (.signIn ⟨"a", some "a@x", some "a"⟩)))), .discoverDidLoad "p",
    .pictures (.app (.on "p" (.sendStoryClicked (some "hi") "1"))), .blogSnapshot "p" 0 0 2]

theorem rows_posted_posting : ∃ s v, EventRun.run (step [] Pictures.plain) start posting = some s ∧
    (s.screens "p")[0]? = some v ∧ ∃ L, Shows s.stories v L ∧ L.length = 1 := by
  obtain ⟨s, hs⟩ := Option.isSome_iff_exists.1
    (by decide +kernel : (EventRun.run (step [] Pictures.plain) start posting).isSome)
  have hrows : ∀ s ∈ EventRun.run (step [] Pictures.plain) start posting,
      (s.screens "p")[0]?.map DiscoverScreen.rows = some 1 := by decide +kernel
  obtain ⟨v, hv, hone⟩ := Option.map_eq_some_iff.1 (hrows s hs)
  obtain ⟨L, hL, -⟩ := (rows_posted (by simp) hs).1 "p" v (List.mem_of_getElem? hv)
  exact ⟨s, v, hs, hv, L, hL, hL.rows.symm.trans hone⟩

/-- A version with every story to the account, under distinct clocks and with names, is read, and
leaves the screen with these stories. -/
theorem Shows.of_all {stories : List Story} {ws : List AppWrite} {v : DiscoverScreen}
    (hv : ∃ L, Shows stories v L) (hposts : PostsTo stories ws v.uid)
    (hnamed : ∀ story ∈ stories, v.uid ∈ story.audience → story.name.isSome)
    (htimes : ((stories.filter (v.uid ∈ ·.audience)).map Story.t).Nodup)
    (hall : ∀ story ∈ stories, v.uid ∈ story.audience → story.write v.uid ∈ ws) :
    ∃ screen L, v.screen.blogListener (docs ws (.friendBlog v.uid)) = some screen ∧
      L.Perm (stories.filter (v.uid ∈ ·.audience)) ∧
      Shows stories (v.read (docs ws (.friendBlog v.uid)) screen) L := by
  cases hdoc : docs ws (.friendBlog v.uid) with
  | none =>
    -- nothing has been posted to the account, and the screen has no rows
    obtain ⟨L, hL⟩ := hv
    have hnone : ∀ story ∈ stories, v.uid ∉ story.audience := by
      intro story hs huid
      have hfield := hposts.field_of_story htimes hs huid (hall story hs huid)
      rw [hdoc] at hfield
      cases hfield
    have hnil : stories.filter (v.uid ∈ ·.audience) = [] :=
      List.filter_eq_nil_iff.2 fun story hs huid => hnone story hs (of_decide_eq_true huid)
    have hLnil : L = [] := List.eq_nil_iff_forall_not_mem.2 fun story hs =>
      hnone story (hL.posted story hs).1 (hL.posted story hs).2
    exact ⟨v.screen, L, rfl, by rw [hnil, hLnil], hL⟩
  | some doc =>
    obtain ⟨L, hL, hfrom⟩ := hposts.tells hdoc
    obtain ⟨screen, hscreen⟩ := Option.isSome_iff_exists.1
      (DiscoverViewController.isSome_blogListener hL
        (fun story hs => hnamed story (hfrom story hs).1 (hfrom story hs).2) v.screen)
    have hlists := DiscoverViewController.lists_of_blogListener hL hscreen
    exact ⟨screen, L, hscreen, hposts.perm_of_tells htimes hall hdoc hL hfrom,
      hlists, hlists.numberOfRowsInSection, hL.sorted, hfrom⟩

/-- Once nothing is in flight, every story has landed in the friend blogs of its audience; and once
all stories to an account have, under distinct clocks and with names, a callback that sees all that
has landed leaves a screen of the account with exactly these stories, each once. -/
theorem rows_exact (hinit : ∀ x ∈ init, ∀ uid, DocWrite.path x ≠ .friendBlog uid)
    {es : List (Event Image)} (h : EventRun.run (step init jpeg) start es = some s) :
    (s.pictures.app.net.Rest → ∀ story ∈ s.stories, ∀ uid ∈ story.audience,
      story.write uid ∈ s.pictures.app.net.landed) ∧
    ∀ p i v n m, (s.screens p)[i]? = some v →
      (∀ story ∈ s.stories, v.uid ∈ story.audience →
        story.name.isSome ∧ story.write v.uid ∈ s.pictures.app.net.landed) →
      ((s.stories.filter (v.uid ∈ ·.audience)).map Story.t).Nodup →
      s.pictures.app.net.log.length ≤ n →
      ∃ t v' L, s.step init jpeg (.blogSnapshot p i n m) = some t ∧
        (t.screens p)[i]? = some v' ∧ Shows s.stories v' L ∧
        L.Perm (s.stories.filter (v.uid ∈ ·.audience)) := by
  have hK := kept_of_run hinit h
  refine ⟨fun hrest story hs uid huid => ?_, fun p i v n m hv hlanded htimes hn => ?_⟩
  · obtain ⟨c, hc⟩ := hK.issued story hs uid huid
    exact WriteQueue.mem_landed_of_rest hrest hc
  · obtain ⟨screen, L, hscreen, hperm, hL⟩ := Shows.of_all
      (hK.screens p v (List.mem_of_getElem? hv)) (hK.postsTo hinit _ n m v.uid)
      (fun story hs huid => (hlanded story hs huid).1) htimes
      fun story hs huid => App.mem_seen_of_landed (hlanded story hs huid).2 hn
        (s.pictures.app.account p) m
    have hi : i < (s.screens p).length := (List.getElem?_eq_some_iff.1 hv).1
    refine ⟨s.display p ((s.screens p).set i (v.read (s.blog init p v.uid n m) screen)), _, L,
      ?_, ?_, hL, hperm⟩
    · simp only [step, blog, hv, hscreen, Option.bind_eq_bind, Option.bind_some]
    · simp only [display, Function.update_self, List.getElem?_set_self hi]
      rfl

/-- Both writes of the story land. -/
def landing : List (Event String) :=
  posting ++ List.replicate 2 (.pictures (.app (.land ("p", some "a"))))

theorem rows_exact_landing : ∃ s t v' L,
    EventRun.run (step [] Pictures.plain) start landing = some s ∧
    s.step [] Pictures.plain (.blogSnapshot "p" 0 2 0) = some t ∧
    (t.screens "p")[0]? = some v' ∧ Shows s.stories v' L ∧ L.Perm s.stories := by
  have hstate : ∀ s ∈ EventRun.run (step [] Pictures.plain) start landing,
      (s.screens "p")[0]?.map DiscoverScreen.uid = some "a" ∧
      s.stories = [⟨"a", "hi", some "a", "1", ["a"]⟩] ∧
      s.pictures.app.net.log.length ≤ 2 ∧
      ∀ story ∈ s.stories, story.write "a" ∈ s.pictures.app.net.landed := by decide +kernel
  obtain ⟨s, hs⟩ := Option.isSome_iff_exists.1
    (by decide +kernel : (EventRun.run (step [] Pictures.plain) start landing).isSome)
  obtain ⟨hscreen, hstories, hlog, hlanded⟩ := hstate s hs
  obtain ⟨v, hv, ha⟩ := Option.map_eq_some_iff.1 hscreen
  have hall : s.stories.filter (v.uid ∈ ·.audience) = s.stories := by simp [hstories, ha]
  have hnamed : ∀ story ∈ s.stories, story.name.isSome := by simp [hstories]
  obtain ⟨t, v', L, ht, hv', hL, hperm⟩ := (rows_exact (by simp) hs).2 "p" 0 v 2 0 hv
    (fun story h _ => ⟨hnamed story h, ha ▸ hlanded story h⟩) (by rw [hall, hstories]; simp) hlog
  exact ⟨s, t, v', L, hs, ht, hv', hL, hall ▸ hperm⟩

variable (jpeg) in
/-- The completion of an upload finds an account signed in whose own picture it is. -/
def FindsOwner (s : Discovers Image Data) : Event Image → Prop
  | .pictures e => s.pictures.FindsOwner jpeg e
  | _ => True

/-- The pictures stay their accounts' own. -/
theorem owned_of_run {es : List (Event Image)}
    (hfinds : EventRun.Meets (step init jpeg) (fun _ s e => s.FindsOwner jpeg e) start es)
    (h : EventRun.run (step init jpeg) start es = some s) : s.pictures.Owned jpeg := by
  have hboth : s.pictures.Kept jpeg ∧ s.pictures.Owned jpeg := by
    refine EventRun.run_induction (step init jpeg)
      (I := fun _ s => s.pictures.Kept jpeg ∧ s.pictures.Owned jpeg)
      ⟨Pictures.kept_start, Pictures.owned_start⟩ (fun es m e t hm hI hQ hs => ?_) es hfinds h
    cases e with
    | pictures pe =>
      obtain ⟨pictures, hpictures, hs⟩ := Option.bind_eq_some_iff.1 hs
      obtain rfl := Option.some.inj hs
      exact ⟨hI.1.step hpictures,
        (Pictures.owned_step_iff hI.1 hI.2 hpictures).2 hQ⟩
    | discoverDidLoad p =>
      obtain ⟨myUser, -, hs⟩ := Option.bind_eq_some_iff.1 hs
      obtain rfl := Option.some.inj hs
      exact hI
    | blogSnapshot p i n m =>
      obtain ⟨v, -, hs⟩ := Option.bind_eq_some_iff.1 hs
      obtain ⟨screen, -, hs⟩ := Option.bind_eq_some_iff.1 hs
      obtain rfl := Option.some.inj hs
      exact hI
    | viewWillAppear p i =>
      obtain ⟨v, -, hs⟩ := Option.bind_eq_some_iff.1 hs
      obtain rfl := Option.some.inj hs
      exact hI
  exact hboth.2

/-- In every run from a store without friend blogs, whose completed uploads find the accounts that
own them, a cell of a Discover table shows a story under its author's name, and beside it a picture
of the author's own, if any: one the author has picked, or what has become of it in Storage. -/
theorem cells_of_author (hinit : ∀ x ∈ init, ∀ uid, DocWrite.path x ≠ .friendBlog uid)
    {es : List (Event Image)} (h : EventRun.run (step init jpeg) start es = some s)
    (hfinds : EventRun.Meets (step init jpeg) (fun _ s e => s.FindsOwner jpeg e) start es) :
    ∀ p, ∀ v ∈ s.screens p, ∀ row cell,
      v.screen.cellForRowAt (s.pictures.caches p).cacheItem row = some cell →
      ∃ story ∈ s.stories, v.uid ∈ story.audience ∧ cell.post = story.text ∧
        story.name = some cell.username ∧
        ∀ image ∈ cell.imageProfile, Own jpeg s.pictures.chosen story.author image := by
  intro p v hv row cell hcell
  obtain ⟨L, hL⟩ := (kept_of_run hinit h).screens p v hv
  obtain ⟨story, hs, hpost, hname, himage⟩ := hL.lists.story_of_cell hcell
  obtain ⟨hposted, huid⟩ := hL.posted story hs
  refine ⟨story, hposted, huid, hpost, hname, fun image hi => ?_⟩
  exact owned_of_run hfinds h p story.author image (himage.symm.trans hi)

/-- The completion of an upload finds an account signed in that has picked the picture. -/
def FindsPicker [DecidableEq Image] (s : Discovers Image Data) : Event Image → Bool
  | .pictures e => s.pictures.FindsPicker e
  | _ => true

theorem FindsPicker.findsOwner [DecidableEq Image] {e : Event Image} (h : s.FindsPicker e = true) :
    s.FindsOwner jpeg e := by
  cases e with
  | pictures e => exact Pictures.FindsPicker.findsOwner h
  | _ => trivial

/-- `a` picks a picture and posts a story, which the screen shows beside it. -/
def pictured : List (Event String) :=
  posting.take 1 ++ [.pictures (.imagePicked "p" "cat"), .pictures (.put "p" 0),
    .pictures (.uploadCompleted "p" 0 true)] ++ posting.drop 1

theorem cells_of_author_pictured : ∃ s v cell,
    EventRun.run (step [] Pictures.plain) start pictured = some s ∧ v ∈ s.screens "p" ∧
    v.screen.cellForRowAt (s.pictures.caches "p").cacheItem 0 = some cell ∧
    cell.imageProfile = some "cat" ∧ ∃ story ∈ s.stories, cell.post = story.text ∧
      Own Pictures.plain s.pictures.chosen story.author "cat" := by
  obtain ⟨s, hs⟩ := Option.isSome_iff_exists.1
    (by decide +kernel : (EventRun.run (step [] Pictures.plain) start pictured).isSome)
  have hfinds : ∀ n < pictured.length, ∀ t, EventRun.run (step [] Pictures.plain) start
      (pictured.take n) = some t → ∀ e ∈ pictured[n]?, t.FindsPicker e = true := by decide +kernel
  have hmeets := EventRun.meets_of_take (step [] Pictures.plain)
    (Q := fun _ s e => s.FindsOwner Pictures.plain e)
    fun n hn t ht e he => FindsPicker.findsOwner (hfinds n hn t ht e he)
  have hcell : ∀ s ∈ EventRun.run (step [] Pictures.plain) start pictured,
      (s.screens "p")[0]?.bind (fun v => (v.screen.cellForRowAt
        (s.pictures.caches "p").cacheItem 0).bind (·.imageProfile)) = some "cat" := by
    decide +kernel
  obtain ⟨v, hv, hcell⟩ := Option.bind_eq_some_iff.1 (hcell s hs)
  obtain ⟨cell, hcell, himage⟩ := Option.bind_eq_some_iff.1 hcell
  have hv := List.mem_of_getElem? hv
  obtain ⟨story, hstory, -, hpost, -, hown⟩ :=
    cells_of_author (by simp) hs hmeets "p" v hv 0 cell hcell
  exact ⟨s, v, cell, hs, hv, hcell, himage, story, hstory, hpost, hown "cat" himage⟩

end Discovers

end MessageApp
