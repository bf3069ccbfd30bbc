import Mathlib.Order.MinMax
import Mathlib.Order.WithBot
import Mathlib.Tactic.Common

/-!
# Half-open intervals, possibly without an upper bound

Intervals `[lower, upper)` of a linear order, where `⊤` as the upper end means "no bound".

**Disjoint families.**  A table of pairwise disjoint intervals is kept in the order of the lower
ends.  Two searches are used on such a table, and both look at few of its intervals:
`filter_lt_upper` is for the backward search that stops at the first interval which is out of reach,
and `eq_of_getLast?_of_contains` for the search that looks at one candidate only.

**Walks.**  A walk goes from a point to an end over intervals, each of which contains the point
where the one before it ended.  Whatever the intervals are, a walk covers what lies in between
(`Walk.exists_contains`); if they are pairwise disjoint, it meets them in order (`Walk.pairwise`).
-/

/-- A half-open interval; the upper end `⊤` is no bound. -/
structure HalfOpenInterval (α : Type) where
  lower : α
  upper : WithTop α

namespace HalfOpenInterval

variable {α : Type} [LinearOrder α] {I J : HalfOpenInterval α} {x : α}

/-- The interval contains the point. -/
def Contains (I : HalfOpenInterval α) (x : α) : Prop := I.lower ≤ x ∧ (x : WithTop α) < I.upper

/-- The interval is not empty. -/
def Proper (I : HalfOpenInterval α) : Prop := (I.lower : WithTop α) < I.upper

instance decidableProper (I : HalfOpenInterval α) : Decidable I.Proper :=
  inferInstanceAs (Decidable ((I.lower : WithTop α) < I.upper))

def Overlaps (I J : HalfOpenInterval α) : Prop := ∃ x, I.Contains x ∧ J.Contains x

lemma Proper.contains_lower (hI : I.Proper) : I.Contains I.lower := ⟨le_rfl, hI⟩

lemma Overlaps.symm (h : I.Overlaps J) : J.Overlaps I :=
  let ⟨x, hI, hJ⟩ := h
  ⟨x, hJ, hI⟩

/-- **Overlap, by the ends**: each begins before the other ends. -/
lemma overlaps_iff (hI : I.Proper) (hJ : J.Proper) :
    I.Overlaps J ↔ (I.lower : WithTop α) < J.upper ∧ (J.lower : WithTop α) < I.upper := by
  constructor
  · rintro ⟨x, ⟨hIx, hxI⟩, hJx, hxJ⟩
    exact ⟨(WithTop.coe_le_coe.mpr hIx).trans_lt hxJ, (WithTop.coe_le_coe.mpr hJx).trans_lt hxI⟩
  · rintro ⟨hIJ, hJI⟩
    rcases le_total I.lower J.lower with hle | hle
    · exact ⟨J.lower, ⟨hle, hJI⟩, hJ.contains_lower⟩
    · exact ⟨I.lower, hI.contains_lower, hle, hIJ⟩

/-- Of two disjoint intervals, the one that begins first ends before the other begins. -/
lemma upper_le_lower (hI : I.Proper) (hJ : J.Proper) (hdisjoint : ¬ I.Overlaps J)
    (hlt : I.lower < J.lower) : I.upper ≤ J.lower := by
  by_contra hlate
  refine hdisjoint ((overlaps_iff hI hJ).mpr ⟨?_, not_le.mp hlate⟩)
  exact (WithTop.coe_lt_coe.mpr hlt).trans hJ

/-- The points of both intervals. -/
def inter (I J : HalfOpenInterval α) : HalfOpenInterval α :=
  ⟨max I.lower J.lower, min I.upper J.upper⟩

@[simp] lemma inter_contains_iff : (I.inter J).Contains x ↔ I.Contains x ∧ J.Contains x := by
  simp only [Contains, inter, max_le_iff, lt_min_iff]
  tauto

section Table

variable {ι : Type} (interval : ι → HalfOpenInterval α)

/-- **The backward search**: over disjoint intervals, later ones first, those that end after a
point are the ones before the first that does not. -/
theorem filter_lt_upper {l : List ι} (hproper : ∀ i ∈ l, (interval i).Proper)
    (hsorted : l.Pairwise fun i j => (interval j).lower < (interval i).lower)
    (hdisjoint : l.Pairwise fun i j => ¬ (interval i).Overlaps (interval j)) :
    (l.filter fun i => (x : WithTop α) < (interval i).upper) =
      l.takeWhile fun i => (x : WithTop α) < (interval i).upper := by
  induction l with
  | nil => rfl
  | cons i rest ih =>
    obtain ⟨hhead, hrest⟩ := List.pairwise_cons.mp hsorted
    obtain ⟨hhead', hrest'⟩ := List.pairwise_cons.mp hdisjoint
    by_cases hi : (x : WithTop α) < (interval i).upper
    · rw [List.filter_cons_of_pos (by simpa using hi),
        List.takeWhile_cons_of_pos (by simpa using hi),
        ih (fun j hj => hproper j (List.mem_cons_of_mem _ hj)) hrest hrest']
    · rw [List.filter_cons_of_neg (by simpa using hi),
        List.takeWhile_cons_of_neg (by simpa using hi), List.filter_eq_nil_iff]
      intro j hj hlt
      have hpi := hproper i List.mem_cons_self
      have hpj := hproper j (List.mem_cons_of_mem _ hj)
      have hle : (interval j).upper ≤ (interval i).lower :=
        upper_le_lower hpj hpi (fun h => hhead' j hj h.symm) (hhead j hj)
      exact hi ((of_decide_eq_true hlt).trans (hle.trans_lt hpi))

/-- **The candidate search**: over disjoint intervals in order, only the last one that begins at or
before a point can contain it. -/
theorem eq_of_getLast?_of_contains {l : List ι} {i j : ι} (hproper : ∀ i ∈ l, (interval i).Proper)
    (hsorted : l.Pairwise fun i j => (interval i).lower < (interval j).lower)
    (hdisjoint : l.Pairwise fun i j => ¬ (interval i).Overlaps (interval j))
    (hlast : (l.filter fun i => (interval i).lower ≤ x).getLast? = some i)
    (hj : j ∈ l) (hx : (interval j).Contains x) : j = i := by
  obtain ⟨front, hfront⟩ := List.getLast?_eq_some_iff.mp hlast
  have hmem : ∀ k ∈ front ++ [i], k ∈ l ∧ (interval k).lower ≤ x := fun k hk => by
    rw [← hfront] at hk
    simpa using hk
  have hjmem : j ∈ front ++ [i] := by
    rw [← hfront]
    simpa using ⟨hj, hx.1⟩
  rcases List.mem_append.mp hjmem with hjfront | hji
  · -- An earlier interval has ended when the last one begins.
    exfalso
    have hlt : (interval j).lower < (interval i).lower := by
      have := hsorted.filter fun i => (interval i).lower ≤ x
      rw [hfront] at this
      exact (List.pairwise_append.mp this).2.2 j hjfront i List.mem_cons_self
    have hdisj : ¬ (interval j).Overlaps (interval i) := by
      have := hdisjoint.filter fun i => (interval i).lower ≤ x
      rw [hfront] at this
      exact (List.pairwise_append.mp this).2.2 j hjfront i List.mem_cons_self
    obtain ⟨hi, hix⟩ := hmem i (List.mem_append_right _ List.mem_cons_self)
    have hle := upper_le_lower (hproper j hj) (hproper i hi) hdisj hlt
    exact absurd hx.2 (not_lt.mpr (hle.trans (WithTop.coe_le_coe.mpr hix)))
  · exact List.mem_singleton.mp hji

end Table

section Walk

variable {ι : Type} {interval : ι → HalfOpenInterval α} {stop : WithTop α} {y z : α} {i j : ι}
  {l : List ι}

/-- **A walk** from a point to an end: each interval contains the point where the one before it
ended, and only the last one reaches the end. -/
inductive Walk (interval : ι → HalfOpenInterval α) (stop : WithTop α) : α → List ι → Prop where
  | last {x : α} {i : ι} (hx : (interval i).Contains x) (hstop : stop ≤ (interval i).upper) :
      Walk interval stop x [i]
  | step {x y : α} {i : ι} {rest : List ι} (hx : (interval i).Contains x)
      (hy : (interval i).upper = y) (hstop : (y : WithTop α) < stop)
      (hrest : Walk interval stop y rest) : Walk interval stop x (i :: rest)

/-- **A walk covers what lies between its ends.** -/
theorem Walk.exists_contains (h : Walk interval stop x l) (hxz : x ≤ z)
    (hz : (z : WithTop α) < stop) : ∃ i ∈ l, (interval i).Contains z := by
  induction h with
  | @last x i hx hstop =>
    exact ⟨i, List.mem_cons_self, hx.1.trans hxz, hz.trans_le hstop⟩
  | @step x y i rest hx hy _ _ ih =>
    rcases lt_or_ge z y with hzy | hyz
    · exact ⟨i, List.mem_cons_self, hx.1.trans hxz, by rwa [hy, WithTop.coe_lt_coe]⟩
    · obtain ⟨j, hj, hzj⟩ := ih hyz
      exact ⟨j, List.mem_cons_of_mem _ hj, hzj⟩

lemma Walk.exists_between (h : Walk interval stop x l) (hx : (x : WithTop α) < stop) (hi : i ∈ l) :
    ∃ z, x ≤ z ∧ (z : WithTop α) < stop ∧ (interval i).Contains z := by
  induction h with
  | last hx' _ =>
    obtain rfl := List.mem_singleton.mp hi
    exact ⟨_, le_rfl, hx, hx'⟩
  | @step x y j rest hx' hy hstop _ ih =>
    rcases List.mem_cons.mp hi with rfl | hi
    · exact ⟨_, le_rfl, hx, hx'⟩
    · obtain ⟨z, hyz, hz, hiz⟩ := ih hstop hi
      have hxy : x < y := by simpa [hy] using hx'.2
      exact ⟨z, hxy.le.trans hyz, hz, hiz⟩

/-- An interval that goes beyond the end of another one, and does not overlap it, begins there. -/
lemma le_lower_of_contains (hI : I.Contains x) (hy : I.upper = y) (hdisjoint : ¬ I.Overlaps J)
    (hyz : y ≤ z) (hz : J.Contains z) : y ≤ J.lower := by
  by_contra hlt
  rw [not_le] at hlt
  refine hdisjoint ⟨max I.lower J.lower, ⟨le_max_left _ _, ?_⟩, le_max_right _ _, ?_⟩
  · rw [hy, WithTop.coe_lt_coe, max_lt_iff]
    exact ⟨by simpa [hy] using (WithTop.coe_le_coe.mpr hI.1).trans_lt hI.2, hlt⟩
  · refine (WithTop.coe_le_coe.mpr ?_).trans_lt hz.2
    have hIz : I.lower ≤ z := by
      have hxy : x < y := by simpa [hy] using hI.2
      exact hI.1.trans (hxy.le.trans hyz)
    exact max_le hIz hz.1

/-- **A walk meets disjoint intervals in order.** -/
theorem Walk.pairwise (h : Walk interval stop x l)
    (hdisjoint : ∀ i ∈ l, ∀ j ∈ l, i = j ∨ ¬ (interval i).Overlaps (interval j)) :
    l.Pairwise fun i j => (interval i).upper ≤ (interval j).lower := by
  induction h with
  | last _ _ => exact List.pairwise_singleton _ _
  | @step x y i rest hx hy hstop hrest ih =>
    refine List.pairwise_cons.mpr ⟨fun j hj => ?_, ih fun i hi j hj =>
      hdisjoint i (List.mem_cons_of_mem _ hi) j (List.mem_cons_of_mem _ hj)⟩
    obtain ⟨z, hyz, -, hz⟩ := hrest.exists_between hstop hj
    rw [hy, WithTop.coe_le_coe]
    rcases hdisjoint i List.mem_cons_self j (List.mem_cons_of_mem _ hj) with rfl | hij
    · -- An interval does not go beyond its own end.
      exact absurd (hy ▸ hz.2) (not_lt.mpr (WithTop.coe_le_coe.mpr hyz))
    · exact le_lower_of_contains hx hy hij hyz hz

end Walk

end HalfOpenInterval
