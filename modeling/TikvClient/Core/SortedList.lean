import Mathlib.Algebra.GroupWithZero.Nat
import Mathlib.Data.List.Nodup
import Mathlib.Data.List.Pairwise
import Mathlib.Order.Lattice

/-!
# Lists in the order of their keys

A list whose entries have strictly increasing keys is determined by its entries, and selecting from
it can be cut in two at any key.
-/

namespace SortedList

variable {α κ : Type} [LinearOrder κ] {key : α → κ} {l u : List α}

lemma nodup (h : l.Pairwise fun x y => key x < key y) : l.Nodup :=
  h.imp fun hxy heq => absurd (congrArg key heq) hxy.ne

/-- **Lists with the same entries are equal.** -/
lemma eq_of_mem_iff (hl : l.Pairwise fun x y => key x < key y)
    (hu : u.Pairwise fun x y => key x < key y) (h : ∀ x, x ∈ l ↔ x ∈ u) : l = u := by
  have hperm := (List.perm_ext_iff_of_nodup (nodup hl) (nodup hu)).mpr h
  exact List.Perm.eq_of_pairwise (fun x y _ _ hxy hyx => absurd (hxy.trans hyx) (lt_irrefl _)) hl hu
    hperm

/-- **Selecting, cut at a key**: first what is before the key, then the rest. -/
lemma filter_cut (h : l.Pairwise fun x y => key x < key y) (p : α → Bool) (b : κ) :
    l.filter p = (l.filter fun x => p x && key x < b) ++ l.filter fun x => p x && b ≤ key x := by
  induction l with
  | nil => rfl
  | cons x l ih =>
    obtain ⟨hhead, htail⟩ := List.pairwise_cons.mp h
    rcases lt_or_ge (key x) b with hx | hx
    · by_cases hp : p x = true
      · simp [hp, hx, hx.not_ge, ih htail]
      · simp [hp, ih htail]
    · -- nothing that follows is before the key
      have hnone : (l.filter fun y => p y && key y < b) = [] := by
        rw [List.filter_eq_nil_iff]
        intro y hy
        simp [(hx.trans (hhead y hy).le).not_gt]
      have hrest := ih htail
      rw [hnone, List.nil_append] at hrest
      by_cases hp : p x = true
      · simp [hp, hx, hx.not_gt, hnone, hrest]
      · simp [hp, hnone, hrest]

end SortedList
