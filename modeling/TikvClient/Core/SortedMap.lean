import Mathlib.Algebra.GroupWithZero.Nat
import Mathlib.Data.List.Perm.Subperm
import Mathlib.Order.Lattice
import Std.Data.ExtTreeMap

/-!
# Sorted maps: changes on top of a map, indexes, and first entries

Facts about maps with ordered keys.

**Changes.**  `applyChanges` overrides a map by a list of changes, at most one for each key;
`getElem?_applyChanges` says what is found at a key afterwards.

**Indexes.**  `IsIndex` says that a second map finds the rows of a table by one of their fields;
rows are removed, entered and replaced in both together.

**Values and ends.**  A value of a map is found at some key (`exists_getElem?_of_mem_values`), and
the keys lie between the first and the last one (`le_of_minKey?`, `le_of_maxKey?`).

**First entries.**  A range query that is answered from several sources returns the first entries in
some order.  `take_eq_take_iff` says when two sorted lists have the same first `n` entries: every
entry on which they disagree comes after `n` entries.
-/

namespace SortedMap

/-! ## Changes -/

section Changes

variable {α β : Type} [Ord α] [Std.TransOrd α] [Std.LawfulEqOrd α]

/-- Apply the changes in turn: set a value, or remove the key. -/
def applyChanges (changes : List (α × Option β)) (m : Std.ExtTreeMap α β) : Std.ExtTreeMap α β :=
  changes.foldl
    (fun m change =>
      match change.2 with
      | some v => m.insert change.1 v
      | none => m.erase change.1)
    m

lemma getElem?_applyChanges_of_forall_ne {changes : List (α × Option β)} {k : α}
    (h : ∀ change ∈ changes, change.1 ≠ k) :
    ∀ m : Std.ExtTreeMap α β, (applyChanges changes m)[k]? = m[k]? := by
  induction changes with
  | nil => exact fun m => rfl
  | cons change rest ih =>
    intro m
    have hne : change.1 ≠ k := h change List.mem_cons_self
    rw [applyChanges, List.foldl_cons, ← applyChanges,
      ih fun other hother => h other (List.mem_cons_of_mem _ hother)]
    cases change.2 with
    | some v => simp [Std.ExtTreeMap.getElem?_insert, hne]
    | none => simp [Std.ExtTreeMap.getElem?_erase, hne]

lemma getElem?_applyChanges_of_mem {changes : List (α × Option β)} {k : α} {v : Option β}
    (hdistinct : changes.Pairwise fun c d => c.1 ≠ d.1) (h : (k, v) ∈ changes) :
    ∀ m : Std.ExtTreeMap α β, (applyChanges changes m)[k]? = v := by
  induction changes with
  | nil => cases h
  | cons change rest ih =>
    intro m
    obtain ⟨hhead, hrest⟩ := List.pairwise_cons.mp hdistinct
    rw [applyChanges, List.foldl_cons, ← applyChanges]
    rcases List.mem_cons.mp h with heq | hmem
    · rw [← heq] at hhead
      rw [← heq, getElem?_applyChanges_of_forall_ne fun other hother => (hhead other hother).symm]
      cases v <;> simp
    · exact ih hrest hmem _

/-- What is found after values were set is one of them, or was there before. -/
lemma getElem?_foldl_insert {γ : Type} (key : γ → α) (value : γ → β) (xs : List γ) {k : α} {v : β} :
    ∀ m : Std.ExtTreeMap α β,
      (xs.foldl (fun m x => m.insert (key x) (value x)) m)[k]? = some v →
        (∃ x ∈ xs, key x = k ∧ value x = v) ∨ m[k]? = some v := by
  induction xs with
  | nil => exact fun m h => .inr h
  | cons x rest ih =>
    intro m h
    rcases ih _ h with ⟨y, hy, hk, hv⟩ | hm
    · exact .inl ⟨y, List.mem_cons_of_mem _ hy, hk, hv⟩
    · rw [Std.ExtTreeMap.getElem?_insert] at hm
      split_ifs at hm with heq
      · exact .inl ⟨x, List.mem_cons_self, Std.LawfulEqOrd.eq_of_compare heq, Option.some.inj hm⟩
      · exact .inr hm

omit [Std.LawfulEqOrd α] in
lemma isSome_foldl_insert {γ : Type} (key : γ → α) (value : γ → β) {xs : List γ} {k : α}
    (h : ∃ x ∈ xs, key x = k) : ∀ m : Std.ExtTreeMap α β,
      (xs.foldl (fun m x => m.insert (key x) (value x)) m)[k]?.isSome = true := by
  have hkeep : ∀ (ys : List γ) (m : Std.ExtTreeMap α β), m[k]?.isSome = true →
      (ys.foldl (fun m x => m.insert (key x) (value x)) m)[k]?.isSome = true := by
    intro ys
    induction ys with
    | nil => exact fun m hm => hm
    | cons y rest ih =>
      intro m hm
      refine ih _ ?_
      rw [Std.ExtTreeMap.getElem?_insert]
      split_ifs
      · rfl
      · exact hm
  obtain ⟨x, hx, hk⟩ := h
  induction xs with
  | nil => cases hx
  | cons y rest ih =>
    intro m
    rcases List.mem_cons.mp hx with rfl | hx
    · exact hkeep rest _ (by rw [← hk, Std.ExtTreeMap.getElem?_insert_self]; rfl)
    · exact ih hx _

end Changes

/-! ## Values and ends -/

section Values

variable {α β : Type}

lemma values_eq_map_snd {cmp : α → α → Ordering} [Std.TransCmp cmp] (m : Std.ExtTreeMap α β cmp) :
    m.values = m.toList.map Prod.snd := by
  obtain ⟨⟨q⟩⟩ := m
  induction q using Quotient.inductionOn with
  | h t =>
    show t.inner.values = (Std.DTreeMap.Internal.Impl.Const.toList t.inner).map Prod.snd
    rw [Std.DTreeMap.Internal.Impl.values_eq_map_snd,
      Std.DTreeMap.Internal.Impl.Const.toList_eq_toListModel_map, List.map_map]
    rfl

variable [LinearOrder α] {m : Std.ExtTreeMap α β} {k l : α} {v : β}

lemma exists_getElem?_of_mem_values (h : v ∈ m.values) : ∃ k : α, m[k]? = some v := by
  rw [values_eq_map_snd] at h
  obtain ⟨⟨k, w⟩, hmem, rfl⟩ := List.mem_map.mp h
  exact ⟨k, Std.ExtTreeMap.mem_toList_iff_getElem?_eq_some.mp hmem⟩

lemma le_of_isLE_compare (h : (compare k l).isLE = true) : k ≤ l :=
  compare_le_iff_le.mp (Ordering.isLE_iff_ne_gt.mp h)

lemma le_of_minKey? (hmin : m.minKey? = some l) (h : m[k]? = some v) : l ≤ k :=
  le_of_isLE_compare ((Std.ExtTreeMap.minKey?_eq_some_iff_mem_and_forall.mp hmin).2 k
    (Std.ExtTreeMap.mem_iff_isSome_getElem?.mpr (by rw [h]; rfl)))

lemma le_of_maxKey? (hmax : m.maxKey? = some l) (h : m[k]? = some v) : k ≤ l :=
  le_of_isLE_compare ((Std.ExtTreeMap.maxKey?_eq_some_iff_mem_and_forall.mp hmax).2 k
    (Std.ExtTreeMap.mem_iff_isSome_getElem?.mpr (by rw [h]; rfl)))

end Values

/-! ## Secondary indexes -/

section Index

variable {α β κ : Type} [Ord α] [Std.TransOrd α] [Std.LawfulEqOrd α]
  [Ord κ] [Std.TransOrd κ] [Std.LawfulEqOrd κ]

/-- The map `index` finds the rows of `table` by the key `key` of a row: every row is found under
its key, and nothing else is. -/
def IsIndex (index : Std.ExtTreeMap κ α) (table : Std.ExtTreeMap α β) (key : β → κ) : Prop :=
  ∀ k a, index[k]? = some a ↔ ∃ x, table[a]? = some x ∧ key x = k

variable {index : Std.ExtTreeMap κ α} {table : Std.ExtTreeMap α β} {key : β → κ} {a b : α} {x y : β}

omit [Std.LawfulEqOrd α] [Std.LawfulEqOrd κ] in
lemma IsIndex.eq_of_key_eq (h : IsIndex index table key) (hx : table[a]? = some x)
    (hy : table[b]? = some y) (heq : key x = key y) : a = b := by
  have ha := (h (key y) a).mpr ⟨x, hx, heq⟩
  rw [(h (key y) b).mpr ⟨y, hy, rfl⟩] at ha
  exact (Option.some.inj ha).symm

omit [Ord κ] [Std.TransOrd κ] [Std.LawfulEqOrd κ] in
lemma getElem?_erase_eq_some_iff :
    (table.erase a)[b]? = some y ↔ a ≠ b ∧ table[b]? = some y := by
  simp [Std.ExtTreeMap.getElem?_erase]

omit [Ord κ] [Std.TransOrd κ] [Std.LawfulEqOrd κ] in
lemma getElem?_insert_eq_some_iff :
    (table.insert a x)[b]? = some y ↔ (a = b ∧ x = y) ∨ (a ≠ b ∧ table[b]? = some y) := by
  rw [Std.ExtTreeMap.getElem?_insert]
  by_cases hab : a = b <;> simp [hab]

lemma IsIndex.erase (h : IsIndex index table key) (hx : table[a]? = some x) :
    IsIndex (index.erase (key x)) (table.erase a) key := by
  intro k b
  rw [getElem?_erase_eq_some_iff, h k b]
  constructor
  · rintro ⟨hk, y, hy, hyk⟩
    refine ⟨y, getElem?_erase_eq_some_iff.mpr ⟨?_, hy⟩, hyk⟩
    rintro rfl
    rw [hx] at hy
    cases hy
    exact hk hyk
  · rintro ⟨y, hy, hyk⟩
    obtain ⟨hab, hy⟩ := getElem?_erase_eq_some_iff.mp hy
    exact ⟨fun hk => hab (h.eq_of_key_eq hx hy (hk.trans hyk.symm)), y, hy, hyk⟩

lemma IsIndex.insert (h : IsIndex index table key) (hrow : table[a]? = none)
    (hkey : ∀ (b : α) (y : β), table[b]? = some y → key y ≠ key x) :
    IsIndex (index.insert (key x) a) (table.insert a x) key := by
  intro k b
  rw [getElem?_insert_eq_some_iff, h k b]
  constructor
  · rintro (⟨hk, rfl⟩ | ⟨hk, y, hy, hyk⟩)
    · exact ⟨x, getElem?_insert_eq_some_iff.mpr (.inl ⟨rfl, rfl⟩), hk⟩
    · refine ⟨y, getElem?_insert_eq_some_iff.mpr (.inr ⟨?_, hy⟩), hyk⟩
      rintro rfl
      rw [hrow] at hy
      cases hy
  · rintro ⟨y, hy, hyk⟩
    rcases getElem?_insert_eq_some_iff.mp hy with ⟨rfl, rfl⟩ | ⟨hab, hy⟩
    · exact .inl ⟨hyk, rfl⟩
    · exact .inr ⟨fun hk => hkey b y hy (hyk.trans hk.symm), y, hy, hyk⟩

omit [Std.LawfulEqOrd κ] in
lemma IsIndex.replace (h : IsIndex index table key) (hx : table[a]? = some x)
    (heq : key y = key x) : IsIndex index (table.insert a y) key := by
  intro k b
  rw [h k b]
  constructor
  · rintro ⟨z, hz, hzk⟩
    by_cases hab : a = b
    · subst hab
      rw [hx] at hz
      cases hz
      exact ⟨y, getElem?_insert_eq_some_iff.mpr (.inl ⟨rfl, rfl⟩), heq.trans hzk⟩
    · exact ⟨z, getElem?_insert_eq_some_iff.mpr (.inr ⟨hab, hz⟩), hzk⟩
  · rintro ⟨z, hz, hzk⟩
    rcases getElem?_insert_eq_some_iff.mp hz with ⟨rfl, rfl⟩ | ⟨-, hz⟩
    · exact ⟨x, hx, heq.symm.trans hzk⟩
    · exact ⟨z, hz, hzk⟩

end Index

/-! ## First entries -/

section Take

variable {α β : Type} {r : α → α → Prop} [DecidableRel r]

omit [DecidableRel r] in
/-- A list with distinct keys is no longer than one that has all its keys. -/
lemma length_le_of_keys_subset {γ : Type} {l : List (α × β)} {l' : List (α × γ)}
    (hl : l.Pairwise fun p q => p.1 ≠ q.1) (h : ∀ p ∈ l, ∃ q ∈ l', q.1 = p.1) :
    l.length ≤ l'.length := by
  have hsubset : l.map Prod.fst ⊆ l'.map Prod.fst := by
    intro k hk
    obtain ⟨p, hp, rfl⟩ := List.mem_map.mp hk
    obtain ⟨q, hq, heq⟩ := h p hp
    exact List.mem_map.mpr ⟨q, hq, heq⟩
  simpa using (List.subperm_of_subset (List.pairwise_map.mpr hl) hsubset).length_le

/-- The number of entries that come before the key `k`. -/
def countBefore (r : α → α → Prop) [DecidableRel r] (l : List (α × β)) (k : α) : ℕ :=
  l.countP fun p => r p.1 k

lemma countBefore_eq_zero {l : List (α × β)} {k : α} (h : ∀ p ∈ l, ¬ r p.1 k) :
    countBefore r l k = 0 := by
  rw [countBefore, List.countP_eq_zero]
  simpa using h

/-- Nothing comes before the head of a sorted list, or before what is before its head. -/
lemma countBefore_cons_eq_zero [IsStrictOrder α r] {p : α × β} {l : List (α × β)} {k : α}
    (hl : (p :: l).Pairwise fun x y => r x.1 y.1) (hk : ¬ r p.1 k) :
    countBefore r (p :: l) k = 0 := by
  refine countBefore_eq_zero fun q hq => ?_
  rcases List.mem_cons.mp hq with rfl | hq
  · exact hk
  · exact fun hqk => hk (trans_of r ((List.pairwise_cons.mp hl).1 q hq) hqk)

/-- When the heads of two sorted lists differ, the lists disagree before anything else. -/
lemma exists_disagreement_of_head_ne [IsStrictTotalOrder α r] {a b : α × β}
    {l₁ l₂ : List (α × β)} (h₁ : (a :: l₁).Pairwise fun x y => r x.1 y.1)
    (h₂ : (b :: l₂).Pairwise fun x y => r x.1 y.1) (hab : a ≠ b) :
    ∃ p, ¬ (p ∈ a :: l₁ ↔ p ∈ b :: l₂) ∧ countBefore r (b :: l₂) p.1 = 0 := by
  have hnot : ∀ {x y : α × β} {l : List (α × β)}, (y :: l).Pairwise (fun x y => r x.1 y.1) →
      x ≠ y → ¬ r y.1 x.1 → x ∉ y :: l := by
    intro x y l hl hne hxy hmem
    rcases List.mem_cons.mp hmem with rfl | hmem
    · exact hne rfl
    · exact hxy ((List.pairwise_cons.mp hl).1 x hmem)
  rcases trichotomous_of r a.1 b.1 with hr | heq | hr
  · have hba : ¬ r b.1 a.1 := asymm_of r hr
    exact ⟨a, fun h => hnot h₂ hab hba (h.mp List.mem_cons_self),
      countBefore_cons_eq_zero h₂ hba⟩
  · have hba : ¬ r b.1 a.1 := by
      rw [heq]
      exact irrefl_of r _
    exact ⟨a, fun h => hnot h₂ hab hba (h.mp List.mem_cons_self),
      countBefore_cons_eq_zero h₂ hba⟩
  · exact ⟨b, fun h => hnot h₁ hab.symm (asymm_of r hr) (h.mpr List.mem_cons_self),
      countBefore_cons_eq_zero h₂ (irrefl_of r _)⟩

/-- **Two sorted lists have the same first `n` entries** exactly if every entry on which they
disagree comes after `n` entries. -/
theorem take_eq_take_iff [IsStrictTotalOrder α r] (n : ℕ) :
    ∀ {l₁ l₂ : List (α × β)}, l₁.Pairwise (fun x y => r x.1 y.1) →
      l₂.Pairwise (fun x y => r x.1 y.1) →
      (l₁.take n = l₂.take n ↔ ∀ p, ¬ (p ∈ l₁ ↔ p ∈ l₂) → n ≤ countBefore r l₂ p.1) := by
  induction n with
  | zero => simp
  | succ n ih =>
    intro l₁ l₂ h₁ h₂
    cases l₁ with
    | nil =>
      cases l₂ with
      | nil => simp
      | cons b l₂ =>
        refine ⟨fun h => by simp at h, fun h => ?_⟩
        have hb := h b (by simp)
        rw [countBefore_cons_eq_zero h₂ (irrefl_of r _)] at hb
        omega
    | cons a l₁ =>
      cases l₂ with
      | nil =>
        refine ⟨fun h => by simp at h, fun h => ?_⟩
        have ha := h a (by simp)
        simp [countBefore] at ha
      | cons b l₂ =>
        by_cases hab : a = b
        · subst hab
          obtain ⟨ha₁, ht₁⟩ := List.pairwise_cons.mp h₁
          obtain ⟨ha₂, ht₂⟩ := List.pairwise_cons.mp h₂
          rw [List.take_succ_cons, List.take_succ_cons, List.cons_inj_right, ih ht₁ ht₂]
          refine forall_congr' fun p => ?_
          -- The lists disagree on an entry exactly if their tails do, and the head is
          -- then before it.
          have hself : ∀ {l : List (α × β)}, (∀ q ∈ l, r a.1 q.1) → a ∉ l :=
            fun hl hmem => irrefl_of r _ (hl a hmem)
          have hiff : (p ∈ a :: l₁ ↔ p ∈ a :: l₂) ↔ (p ∈ l₁ ↔ p ∈ l₂) := by
            by_cases hpa : p = a
            · subst hpa
              simp [hself ha₁, hself ha₂]
            · simp [hpa]
          rw [hiff]
          refine imp_congr_right fun hp => ?_
          have hap : r a.1 p.1 := by
            by_cases hmem : p ∈ l₁
            · exact ha₁ p hmem
            · exact ha₂ p (by tauto)
          rw [countBefore, countBefore, List.countP_cons_of_pos (by simpa using hap)]
          omega
        · refine ⟨fun h => absurd (List.cons.inj h).1 hab, fun h => ?_⟩
          obtain ⟨p, hp, hzero⟩ := exists_disagreement_of_head_ne h₁ h₂ hab
          have hle := h p hp
          omega

end Take

end SortedMap
