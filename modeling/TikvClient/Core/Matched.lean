import Mathlib.Data.List.Perm.Subperm

/-!
# Lists that match entry by entry

`List.Forall₂ P l u` matches the entries of two lists.  What is said of matched entries carries over
to the lists: to what the entries contribute, put together (`PartOf.flatMap`), and to pairs of
entries.
-/

namespace Matched

variable {α β γ : Type} {P : α → β → Prop} {l : List α} {u : List β}

lemma exists_left (h : List.Forall₂ P l u) {b : β} (hb : b ∈ u) : ∃ a ∈ l, P a b := by
  induction h with
  | nil => cases hb
  | @cons a _ _ _ hab _ ih =>
    rcases List.mem_cons.mp hb with rfl | hb
    · exact ⟨a, List.mem_cons_self, hab⟩
    · obtain ⟨a', ha', hab'⟩ := ih hb
      exact ⟨a', List.mem_cons_of_mem _ ha', hab'⟩

lemma exists_right (h : List.Forall₂ P l u) {a : α} (ha : a ∈ l) : ∃ b ∈ u, P a b :=
  exists_left h.flip ha

lemma imp_of_mem {P' : α → β → Prop} (h : List.Forall₂ P l u)
    (hP : ∀ a b, a ∈ l → b ∈ u → P a b → P' a b) : List.Forall₂ P' l u := by
  induction h with
  | nil => exact .nil
  | @cons a b l u hab _ ih =>
    refine .cons (hP a b List.mem_cons_self List.mem_cons_self hab) (ih fun a' b' ha hb => ?_)
    exact hP a' b' (List.mem_cons_of_mem _ ha) (List.mem_cons_of_mem _ hb)

/-- If the images are in some order, the list can be put into that order. -/
lemma exists_perm_map_eq {f : α → β} (h : (l.map f).Perm u) :
    ∃ m : List α, m.Perm l ∧ m.map f = u := by
  obtain ⟨m, horder, hperm⟩ := List.perm_comp_forall₂ (r := fun b a => f a = b) h.symm
    (List.forall₂_map_left_iff.mpr (List.forall₂_same.mpr fun _ _ => rfl))
  refine ⟨m, hperm, ?_⟩
  rw [← List.forall₂_eq_eq_eq]
  exact List.forall₂_map_left_iff.mpr horder.flip

lemma pairwise {Q : α → α → Prop} {Q' : β → β → Prop} (h : List.Forall₂ P l u)
    (hQ : l.Pairwise Q) (hP : ∀ a b a' b', P a b → P a' b' → Q a a' → Q' b b') :
    u.Pairwise Q' := by
  induction h with
  | nil => exact List.Pairwise.nil
  | @cons a b l u hab htail ih =>
    obtain ⟨hhead, hQ⟩ := List.pairwise_cons.mp hQ
    refine List.pairwise_cons.mpr ⟨fun b' hb' => ?_, ih hQ⟩
    obtain ⟨a', ha', hab'⟩ := exists_left htail hb'
    exact hP a b a' b' hab hab' (hhead a' ha')

end Matched

/-! ## Parts of a list -/

/-- **The entries of `l` are some of `u`**, none more often than there; all of them if `whole`. -/
structure PartOf {γ : Type} (whole : Prop) (l u : List γ) : Prop where
  subperm : l.Subperm u
  perm : whole → l.Perm u

namespace PartOf

variable {α β γ : Type} {whole whole' : Prop} {l u v : List γ}

lemma of_perm (h : l.Perm u) : PartOf whole l u := ⟨h.subperm, fun _ => h⟩

lemma trans (h : PartOf whole l u) (h' : PartOf whole u v) : PartOf whole l v :=
  ⟨h.subperm.trans h'.subperm, fun hw => (h.perm hw).trans (h'.perm hw)⟩

lemma imp (h : PartOf whole l u) (hw : whole' → whole) : PartOf whole' l u :=
  ⟨h.subperm, fun hw' => h.perm (hw hw')⟩

lemma subset (h : PartOf whole l u) : l ⊆ u := h.subperm.subset

lemma map (f : γ → β) (h : PartOf whole l u) : PartOf whole (l.map f) (u.map f) := by
  obtain ⟨w, hperm, hsub⟩ := h.subperm
  exact ⟨⟨w.map f, hperm.map f, hsub.map f⟩, fun hw => (h.perm hw).map f⟩

lemma flatMap {f : β → List γ} {g : α → List γ} {as : List α} {Ls : List (List β)}
    (h : List.Forall₂ (fun a L => PartOf whole (L.flatMap f) (g a)) as Ls) :
    PartOf whole (Ls.flatten.flatMap f) (as.flatMap g) := by
  induction h with
  | nil => exact of_perm (.refl _)
  | cons hpart _ ih =>
    rw [List.flatten_cons, List.flatMap_append, List.flatMap_cons]
    exact ⟨hpart.subperm.append ih.subperm, fun hw => (hpart.perm hw).append (ih.perm hw)⟩

end PartOf
