import Mathlib.Data.List.Lex
import Mathlib.Order.Lattice

/-!
# Lexicographic order of lists of numbers, cut into groups

**Groups.**  `lt_iff_take_drop` compares two lists by their first `n` entries, and then by the rest.

**Successors.**  `carry` adds one to a list of digits; `lt_reverse_carry_iff` says that this is the
next one of its length.

**Padding.**  A short list is padded with zeros to a fixed length, and a mark after it says how long
it was.  `padMark_lt_iff` says that this keeps the order: the padding decides like the missing
entries, unless these were zeros, and then the mark decides.

**Images.**  Lists compare as their images under a map that keeps the order
(`map_lt_map_iff_of_mono`), and the other way under one that reverses it, if neither list is the
beginning of the other (`map_lt_map_iff_of_anti`).
-/

namespace Lex

/-- **Compare by groups**: two lists compare as their first `n` entries do, or as the rest does. -/
theorem lt_iff_take_drop (n : ℕ) (a b : List ℕ) :
    a < b ↔ a.take n < b.take n ∨ (a.take n = b.take n ∧ a.drop n < b.drop n) := by
  induction n generalizing a b with
  | zero => simp
  | succ n ih =>
    cases a with
    | nil => cases b <;> simp
    | cons x as =>
      cases b with
      | nil => simp
      | cons y bs =>
        rw [List.take_succ_cons, List.take_succ_cons, List.drop_succ_cons,
          List.drop_succ_cons, List.cons_lt_cons_iff, List.cons_lt_cons_iff, ih as bs,
          List.cons_eq_cons]
        tauto

variable {a b : List ℕ} {c n : ℕ}

/-- Lists that begin with equally many entries compare as these do, or as the rest does. -/
lemma append_lt_append_iff {c d : List ℕ} (h : a.length = b.length) :
    a ++ c < b ++ d ↔ a < b ∨ (a = b ∧ c < d) := by
  rw [lt_iff_take_drop a.length, List.take_left, List.drop_left, h, List.take_left, List.drop_left]

lemma append_le_append_iff {c d : List ℕ} (h : a.length = b.length) :
    a ++ c ≤ b ++ d ↔ a < b ∨ (a = b ∧ c ≤ d) := by
  rw [← not_lt, append_lt_append_iff h.symm, ← not_lt (a := d)]
  rcases lt_trichotomy a b with hlt | rfl | hgt
  · simp [hlt, hlt.not_gt, hlt.ne']
  · simp
  · simp [hgt, hgt.not_gt, hgt.ne']

/-! ## The next list of the same length -/

/-- Add one to a number that is written with its last digit first: a digit that is `top` becomes
zero, and the next one is increased. -/
def carry (top : ℕ) : List ℕ → List ℕ
  | [] => []
  | d :: ds => if d = top then 0 :: carry top ds else (d + 1) :: ds

@[simp] lemma length_carry (top : ℕ) (ds : List ℕ) : (carry top ds).length = ds.length := by
  induction ds with
  | nil => rfl
  | cons d ds ih =>
    unfold carry
    split_ifs <;> simp [ih]

/-- **Nothing of the same length lies between a list and the next one.** -/
theorem lt_reverse_carry_iff {top : ℕ} {ds : List ℕ} (hds : ∃ d ∈ ds, d ≠ top) :
    ∀ a : List ℕ, a.length = ds.length → (∀ d ∈ a, d ≤ top) →
      (a < (carry top ds).reverse ↔ a ≤ ds.reverse) := by
  induction ds with
  | nil => simp at hds
  | cons d ds ih =>
    intro a hlen ha
    -- Split off the last digit on both sides.
    obtain ⟨front, c, rfl⟩ : ∃ front c, a = front ++ [c] := by
      rcases List.eq_nil_or_concat a with rfl | ⟨front, c, rfl⟩
      · simp at hlen
      · exact ⟨front, c, by simp⟩
    have hfront : front.length = ds.length := by simpa using hlen
    have hc : c ≤ top := ha c (by simp)
    unfold carry
    split_ifs with hd
    · subst hd
      have hrest : ∃ d' ∈ ds, d' ≠ d := by simpa using hds
      have ih' := ih hrest front hfront fun d' hd' => ha d' (List.mem_append_left _ hd')
      rw [List.reverse_cons, List.reverse_cons, append_lt_append_iff (by simpa using hfront),
        append_le_append_iff (by simpa using hfront), ih']
      have hlt : ¬ [c] < [0] := by simp [List.cons_lt_cons_iff]
      have hle : [c] ≤ [d] := by
        rw [← not_lt, List.cons_lt_cons_iff]
        simpa using hc
      simp [hlt, hle, le_iff_lt_or_eq]
    · rw [List.reverse_cons, List.reverse_cons, append_lt_append_iff (by simpa using hfront),
        append_le_append_iff (by simpa using hfront)]
      have hstep : [c] < [d + 1] ↔ [c] ≤ [d] := by
        simp only [← not_lt (a := [d]), List.cons_lt_cons_iff, List.not_lt_nil, and_false, or_false]
        omega
      rw [hstep]

/-! ## Padding -/

/-- The list, padded with zeros to length `n`, and a mark that counts its entries from `c`. -/
def padMark (n c : ℕ) (a : List ℕ) : List ℕ :=
  a ++ List.replicate (n - a.length) 0 ++ [c + a.length]

lemma length_padMark (h : a.length ≤ n) :
    (padMark n c a).length = n + 1 := by
  simp only [padMark, List.length_append, List.length_replicate, List.length_singleton]
  omega

lemma padMark_cons (n c x : ℕ) (a : List ℕ) :
    padMark (n + 1) c (x :: a) = x :: padMark n (c + 1) a := by
  simp [padMark, Nat.add_right_comm, Nat.add_assoc]

lemma padMark_nil_succ (n c : ℕ) : padMark (n + 1) c [] = 0 :: padMark n c [] := by
  simp [padMark, List.replicate_succ]

lemma padMark_nil_lt {d : ℕ} (hb : b.length ≤ n) (hcd : c < d) :
    padMark n c [] < padMark n d b := by
  induction n generalizing d b with
  | zero =>
    obtain rfl := List.length_eq_zero_iff.mp (Nat.le_zero.mp hb)
    exact List.cons_lt_cons_iff.mpr (.inl hcd)
  | succ n ih =>
    cases b with
    | nil =>
      rw [padMark_nil_succ, padMark_nil_succ]
      exact List.cons_lt_cons_iff.mpr (.inr ⟨rfl, ih (Nat.zero_le n) hcd⟩)
    | cons y b =>
      rw [padMark_nil_succ, padMark_cons]
      refine List.cons_lt_cons_iff.mpr ?_
      rcases Nat.eq_zero_or_pos y with rfl | hy
      · exact .inr ⟨rfl, ih (Nat.le_of_succ_le_succ hb) (Nat.lt_succ_of_lt hcd)⟩
      · exact .inl hy

/-- **Padding with a mark keeps the order.** -/
theorem padMark_lt_iff (ha : a.length ≤ n) (hb : b.length ≤ n) :
    padMark n c a < padMark n c b ↔ a < b := by
  induction n generalizing c a b with
  | zero =>
    obtain rfl := List.length_eq_zero_iff.mp (Nat.le_zero.mp ha)
    obtain rfl := List.length_eq_zero_iff.mp (Nat.le_zero.mp hb)
    simp
  | succ n ih =>
    -- A list is after the empty one, whatever it is padded with.
    have hnil : ∀ (y : ℕ) (b : List ℕ), (y :: b).length ≤ n + 1 →
        padMark (n + 1) c [] < padMark (n + 1) c (y :: b) := by
      intro y b hb
      rw [padMark_nil_succ, padMark_cons]
      refine List.cons_lt_cons_iff.mpr ?_
      rcases Nat.eq_zero_or_pos y with rfl | hy
      · exact .inr ⟨rfl, padMark_nil_lt (Nat.le_of_succ_le_succ hb) (Nat.lt_succ_self c)⟩
      · exact .inl hy
    cases a with
    | nil =>
      cases b with
      | nil => simp
      | cons y b => exact iff_of_true (hnil y b hb) (List.nil_lt_cons y b)
    | cons x a =>
      cases b with
      | nil => exact iff_of_false (lt_asymm (hnil x a ha)) (List.not_lt_nil _)
      | cons y b =>
        rw [padMark_cons, padMark_cons, List.cons_lt_cons_iff, List.cons_lt_cons_iff,
          ih (Nat.le_of_succ_le_succ ha) (Nat.le_of_succ_le_succ hb)]

lemma padMark_inj (ha : a.length ≤ n) (hb : b.length ≤ n) :
    padMark n c a = padMark n c b ↔ a = b := by
  refine ⟨fun h => ?_, fun h => by rw [h]⟩
  rcases lt_trichotomy a b with hlt | heq | hlt
  · exact absurd h ((padMark_lt_iff ha hb).mpr hlt).ne
  · exact heq
  · exact absurd h.symm ((padMark_lt_iff hb ha).mpr hlt).ne

/-! ## Images -/

section Images

variable {α β : Type*} [LT α] [LT β] {f : α → β}

/-- **A map that keeps the order of the entries keeps that of the lists.** -/
theorem map_lt_map_iff_of_mono (hinj : Function.Injective f) (hf : ∀ x y, f x < f y ↔ x < y)
    (a b : List α) : a.map f < b.map f ↔ a < b := by
  induction a generalizing b with
  | nil => cases b <;> simp
  | cons x a ih =>
    cases b with
    | nil => simp
    | cons y b =>
      rw [List.map_cons, List.map_cons, List.cons_lt_cons_iff, List.cons_lt_cons_iff, hf,
        hinj.eq_iff, ih b]

/-- **A map that reverses the order of the entries reverses that of the lists**, if they differ
within both of them. -/
theorem map_lt_map_iff_of_anti (hinj : Function.Injective f) (hf : ∀ x y, f x < f y ↔ y < x)
    {a b : List α} (hab : ¬ a <+: b) (hba : ¬ b <+: a) : a.map f < b.map f ↔ b < a := by
  induction a generalizing b with
  | nil => exact absurd List.nil_prefix hab
  | cons x a ih =>
    cases b with
    | nil => exact absurd List.nil_prefix hba
    | cons y b =>
      rw [List.map_cons, List.map_cons, List.cons_lt_cons_iff, List.cons_lt_cons_iff, hf,
        hinj.eq_iff, eq_comm (a := y)]
      refine or_congr_right (and_congr_right fun hxy => ?_)
      subst hxy
      exact ih (fun h => hab (List.cons_prefix_cons.mpr ⟨rfl, h⟩))
        (fun h => hba (List.cons_prefix_cons.mpr ⟨rfl, h⟩))

end Images

end Lex
