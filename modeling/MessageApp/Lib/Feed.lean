import Mathlib.Data.List.Induction
import Mathlib.Data.List.Nodup
import Mathlib.Logic.Relation
import Mathlib.Tactic.Common

/-!
# Feeds

A feed is what has been posted, and what of it one reader has been shown. Posting adds at the end;
a fetch shows more posts, whose keys are not shown yet. So what is shown was posted, each key once
(`Sound`), and stays where it is (`view_grows`). Once every key posted is shown, and no two posts
have one key, the reader sees the posts, in some order (`Sound.perm_of_caughtUp`), as does every
reader of the same posts who is as far.
-/

structure Feed (α : Type*) where
  posts : List α
  view : List α

namespace Feed

variable {α κ : Type*} (key : α → κ)

inductive Step : Feed α → Feed α → Prop
  | post (f : Feed α) (a : α) : Step f { f with posts := f.posts ++ [a] }
  | fetch (f : Feed α) (as : List α) : (∀ a ∈ as, a ∈ f.posts) →
    ((f.view ++ as).map key).Nodup → Step f { f with view := f.view ++ as }

def Reaches : Feed α → Feed α → Prop := Relation.ReflTransGen (Step key)

/-- What is shown was posted, and no key is shown twice. -/
structure Sound (f : Feed α) : Prop where
  posted : ∀ a ∈ f.view, a ∈ f.posts
  nodup : (f.view.map key).Nodup

/-- Every key posted is shown. -/
def CaughtUp (f : Feed α) : Prop := ∀ a ∈ f.posts, key a ∈ f.view.map key

variable {key} {f g : Feed α}

theorem Step.sound (h : Step key f g) (hf : Sound key f) : Sound key g := by
  cases h with
  | post a => exact ⟨fun b hb => List.mem_append_left _ (hf.posted b hb), hf.nodup⟩
  | fetch as has hn =>
    refine ⟨fun b hb => ?_, hn⟩
    rcases List.mem_append.1 hb with hb | hb
    · exact hf.posted b hb
    · exact has b hb

theorem Step.view_grows (h : Step key f g) : f.view <+: g.view := by
  cases h with
  | post a => exact List.prefix_rfl
  | fetch as has hn => exact List.prefix_append _ _

theorem sound_empty : Sound key (⟨[], []⟩ : Feed α) := ⟨by simp, by simp⟩

theorem Reaches.sound (h : Reaches key f g) (hf : Sound key f) : Sound key g := by
  induction h with
  | refl => exact hf
  | tail _ hs ih => exact hs.sound ih

/-- What is shown stays, in its place. -/
theorem Reaches.view_grows (h : Reaches key f g) : f.view <+: g.view := by
  induction h with
  | refl => exact List.prefix_rfl
  | tail _ hs ih => exact ih.trans hs.view_grows

theorem reaches_posts (f : Feed α) (as : List α) :
    Reaches key f { f with posts := f.posts ++ as } := by
  induction as using List.reverseRecOn with
  | nil =>
    rw [List.append_nil]
    exact .refl
  | append_singleton as a ih =>
    rw [← List.append_assoc]
    exact ih.tail (.post _ a)

/-- A sound feed with more posts and more of them shown can be reached. -/
theorem reaches_of_prefix (hp : f.posts <+: g.posts) (hv : f.view <+: g.view)
    (hg : Sound key g) : Reaches key f g := by
  obtain ⟨posts, view⟩ := f
  obtain ⟨posts', view'⟩ := g
  obtain ⟨as, rfl⟩ := hp
  obtain ⟨bs, rfl⟩ := hv
  refine (reaches_posts ⟨posts, view⟩ as).tail (.fetch _ bs (fun b hb => ?_) hg.nodup)
  exact hg.posted b (List.mem_append_right _ hb)

/-- Where no two posts have one key, the posts whose keys are shown are shown. -/
theorem Sound.perm_of_caughtUp (h : Sound key f) (hn : (f.posts.map key).Nodup)
    (hc : CaughtUp key f) : f.view.Perm f.posts := by
  refine (List.perm_ext_iff_of_nodup h.nodup.of_map hn.of_map).2 fun a => ⟨h.posted a, fun ha => ?_⟩
  obtain ⟨b, hb, hba⟩ := List.mem_map.1 (hc a ha)
  rwa [List.inj_on_of_nodup_map hn (h.posted b hb) ha hba] at hb

end Feed
