import TikvClient.Request.Shard
import Mathlib.Data.List.Chain

/-!
# Batches, with the sizes in a machine word

`Batchable::batches` sums up the sizes of the items in a `u64`.  `batches` of `Request.Shard` counts
without bound; here the additions are those of the source, and an overflow ends them.

**No overflow.**  The running size is the size of the open batch, so it never exceeds the size of
all the items: if that fits, every addition does, and the loop computes `batches`.

**Greedy.**  A batch is closed by the item that would have made it reach the limit, and this item
opens the next one.
-/

namespace TikvClient

variable {ι : Type}

namespace Batchable

/-- The loop of `batches`: the batches that are closed, the open one and its size. -/
def batchesLoop (itemSize : ι → ℕ) (batchSize : ℕ) :
    List (List ι) → List ι → ℕ → List ι → Except Error (List (List ι) × List ι)
  | batches, batch, _, [] => .ok (batches, batch)
  | batches, batch, size, item :: items => do
    let total ← addU64 size (itemSize item)
    if total ≥ batchSize && !batch.isEmpty then
      let size ← addU64 0 (itemSize item)
      batchesLoop itemSize batchSize (batches ++ [batch]) [item] size items
    else
      let size ← addU64 size (itemSize item)
      batchesLoop itemSize batchSize batches (batch ++ [item]) size items

def batches (itemSize : ι → ℕ) (items : List ι) (batchSize : ℕ) :
    Except Error (List (List ι)) := do
  let (batches, batch) ← batchesLoop itemSize batchSize [] [] 0 items
  return if batch.isEmpty then batches else batches ++ [batch]

/-! ## No overflow -/

/-- The loop cuts as `batchesAux` does, if the open batch and what is left fit into a word. -/
lemma batchesLoop_eq (itemSize : ι → ℕ) (batchSize : ℕ) (items : List ι) :
    ∀ (batches : List (List ι)) (batch : List ι) (size : ℕ),
      size + (items.map itemSize).sum ≤ u64Max →
      ∃ closed last, batchesLoop itemSize batchSize batches batch size items = .ok (closed, last) ∧
        (if last.isEmpty then closed else closed ++ [last]) =
          batches ++ batchesAux itemSize batchSize batch size items := by
  induction items with
  | nil =>
    intro batches batch size _
    refine ⟨batches, batch, rfl, ?_⟩
    rw [batchesAux]
    split_ifs <;> simp
  | cons item items ih =>
    intro batches batch size hfits
    rw [List.map_cons, List.sum_cons] at hfits
    have hsum : addU64 size (itemSize item) = .ok (size + itemSize item) :=
      addU64_of_le (by omega)
    have hitem : addU64 0 (itemSize item) = .ok (itemSize item) := by
      rw [addU64_of_le (by omega), Nat.zero_add]
    rw [batchesLoop, batchesAux, hsum]
    by_cases hclose : (size + itemSize item ≥ batchSize && !batch.isEmpty) = true
    · obtain ⟨closed, last, hloop, hcut⟩ :=
        ih (batches ++ [batch]) [item] (itemSize item) (by omega)
      refine ⟨closed, last, ?_, by rw [hcut, if_pos hclose]; simp⟩
      change (if _ then _ else _) = _
      rw [if_pos hclose, hitem]
      exact hloop
    · obtain ⟨closed, last, hloop, hcut⟩ :=
        ih batches (batch ++ [item]) (size + itemSize item) (by omega)
      refine ⟨closed, last, ?_, by rw [hcut, if_neg hclose]⟩
      change (if _ then _ else _) = _
      rw [if_neg hclose]
      exact hloop

/-- **If all the sizes together fit into a word, the batches are those of `batches`.** -/
lemma batches_eq {itemSize : ι → ℕ} {items : List ι} (batchSize : ℕ)
    (hfits : (items.map itemSize).sum ≤ u64Max) :
    batches itemSize items batchSize = .ok (TikvClient.batches itemSize items batchSize) := by
  obtain ⟨closed, last, hloop, hcut⟩ :=
    batchesLoop_eq itemSize batchSize items [] [] 0 (by omega)
  rw [batches, hloop]
  exact congrArg Except.ok hcut

/-! ## Greedy -/

/-- The first item of every later batch would have made the batch before it reach the limit. -/
def IsGreedy (itemSize : ι → ℕ) (batchSize : ℕ) (batches : List (List ι)) : Prop :=
  batches.IsChain fun batch next =>
    ∀ item ∈ next.head?, batchSize ≤ (batch.map itemSize).sum + itemSize item

/-- An open batch only grows: the first batch that comes out begins with it. -/
lemma exists_batchesAux_eq_cons (itemSize : ι → ℕ) (batchSize : ℕ) (items : List ι) :
    ∀ (batch : List ι) (size : ℕ), batch ≠ [] →
      ∃ more rest, batchesAux itemSize batchSize batch size items = (batch ++ more) :: rest := by
  induction items with
  | nil =>
    intro batch size hne
    exact ⟨[], [], by rw [batchesAux, if_neg (by simpa using hne), List.append_nil]⟩
  | cons item items ih =>
    intro batch size hne
    rw [batchesAux]
    split_ifs
    · exact ⟨[], _, by rw [List.append_nil]⟩
    · obtain ⟨more, rest, h⟩ := ih (batch ++ [item]) (size + itemSize item) (by simp)
      exact ⟨item :: more, rest, by rw [h]; simp⟩

lemma isGreedy_batchesAux (itemSize : ι → ℕ) (batchSize : ℕ) (items : List ι) :
    ∀ batch : List ι, IsGreedy itemSize batchSize
      (batchesAux itemSize batchSize batch (batch.map itemSize).sum items) := by
  induction items with
  | nil =>
    intro batch
    rw [batchesAux]
    split_ifs
    · exact .nil
    · exact .singleton batch
  | cons item items ih =>
    intro batch
    rw [batchesAux]
    split_ifs with hclose
    · rw [Bool.and_eq_true, decide_eq_true_eq] at hclose
      have htail := ih [item]
      rw [List.map_singleton, List.sum_singleton] at htail
      refine List.isChain_cons.mpr ⟨fun next hnext x hx => ?_, htail⟩
      -- The next batch begins with the item that closed this one.
      obtain ⟨more, rest, h⟩ :=
        exists_batchesAux_eq_cons itemSize batchSize items [item] (itemSize item) (by simp)
      rw [h, List.head?_cons, Option.mem_some_iff] at hnext
      subst hnext
      rw [List.singleton_append, List.head?_cons, Option.mem_some_iff] at hx
      subst hx
      exact hclose.1
    · have h := ih (batch ++ [item])
      rwa [List.map_append, List.sum_append, List.map_singleton, List.sum_singleton] at h

lemma isGreedy_batches (itemSize : ι → ℕ) (items : List ι) (batchSize : ℕ) :
    IsGreedy itemSize batchSize (TikvClient.batches itemSize items batchSize) :=
  isGreedy_batchesAux itemSize batchSize items []

/-- **Batching keeps the items.**  If the sizes of the items together fit into a `u64`, `batches`
returns batches that are not empty, that concatenate to the items, of which those with more than one
item are smaller than the limit, and the cut is greedy. -/
theorem batches_cut_greedily (itemSize : ι → ℕ) (items : List ι) (batchSize : ℕ)
    (hfits : (items.map itemSize).sum ≤ u64Max) :
    ∃ pieces, batches itemSize items batchSize = .ok pieces ∧
      (∀ piece ∈ pieces, piece ≠ []) ∧
      pieces.flatten = items ∧
      (∀ piece ∈ pieces, 1 < piece.length → (piece.map itemSize).sum < batchSize) ∧
      IsGreedy itemSize batchSize pieces := by
  have hcut := isCut_batches itemSize items batchSize
  refine ⟨_, batches_eq batchSize hfits, hcut.nonempty, hcut.flatten_eq, ?_,
    isGreedy_batches itemSize items batchSize⟩
  intro piece hpiece hlength
  exact (fitsBatch_batches hpiece).resolve_left (not_le.mpr hlength)

/-- Items larger than the limit are batches of their own, and so is every item when the limit is 0.
-/
theorem batches_of_large_items :
    batches id [3, 9, 1, 2] 4 = .ok [[3], [9], [1, 2]] ∧
      batches id [3, 9, 1, 2] 0 = .ok [[3], [9], [1], [2]] ∧
      ∃ pieces, batches id [3, 9, 1, 2] 4 = .ok pieces ∧
        (∀ piece ∈ pieces, piece ≠ []) ∧
        pieces.flatten = [3, 9, 1, 2] ∧
        (∀ piece ∈ pieces, 1 < piece.length → (piece.map id).sum < 4) ∧
        IsGreedy id 4 pieces :=
  ⟨by rfl, by rfl, batches_cut_greedily id [3, 9, 1, 2] 4 (by decide)⟩

end Batchable

end TikvClient
