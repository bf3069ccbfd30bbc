import Mathlib.Data.List.Pairwise
import TikvClient.Core.Eval
import TikvClient.Pd.RegionCache
import TikvClient.Request.Client

/-!
# Partitions of the key space

At any time the regions of a cluster partition the key space.  A client that asks for the region of
a key, while the partition does not change, is told the region that contains it (`Routes`).

**Walking.**  The client walks over the regions by their end keys; there are fewer regions left
after each step (`later_lt`).
-/

namespace TikvClient

/-- **A partition of the key space into regions.** -/
structure IsPartition (regions : List Region) : Prop where
  wellFormed : ∀ r ∈ regions, r.WellFormed
  disjoint : regions.Pairwise fun r s => ¬ r.Overlaps s
  covers : ∀ k, ∃ r ∈ regions, r.contains k = true

/-- The region of a key is looked up in the partition. -/
def Routes (ans : (c : Call) → c.Ans) (regions : List Region) : Prop :=
  ∀ k, ∃ r ∈ regions, ans (.regionForKey k) = (.ok r : Except Error Region) ∧ r.contains k = true

/-- A cluster that does not change: lookups are answered from the regions, and requests by a
function. -/
def fixedCluster (regions : List Region)
    (serve : Region → (r : Proto.Request) → Except Error r.Response) : (c : Call) → c.Ans
  | .regionForKey k =>
    match regions.find? (·.contains k) with
    | some r => (.ok r : Except Error Region)
    | none => .error (.internalError "region is not found for key")
  | .mapRegionToStore _ => (.ok () : Except Error Unit)
  | .updateLeader _ _ => (.ok () : Except Error Unit)
  | .getTimestamp => (.ok 0 : Except Error ℕ)
  | .rpc region request => serve region request
  | .elapsed => (0 : ℕ)
  | .commitWaitTimedOut => false
  | .latch _ _ => false
  | .loadStatus => (default : TransactionStatus)
  | .spawn _ => (0 : ℕ)
  | .await _ => (.ok () : Except Error Unit)
  | .cancel => ()
  | .isCancelled => false
  | .isNotified => false
  | .regionForId id =>
    match regions.find? (·.verId.id = id) with
    | some r => (.ok r : Except Error Region)
    | none => .error (.internalError "region is not found for id")
  | .rawRpc _ _ => .error (.internalError "no raw requests")
  | .gcRpc _ _ => .error (.internalError "no requests of a garbage collection")
  | .getResolved _ => (none : Option Requests.TransactionStatus)
  | .saveResolved _ _ => ()
  | .isRegionCleaned _ _ => false
  | .saveCleanedRegion _ _ => ()
  | .updateSafepoint _ => (.ok true : Except Error Bool)

variable {regions : List Region} {r : Region} {k : Key}

lemma routes_fixedCluster (h : IsPartition regions)
    (serve : Region → (r : Proto.Request) → Except Error r.Response) :
    Routes (fixedCluster regions serve) regions := by
  intro k
  obtain ⟨r, hr, hk⟩ := h.covers k
  cases hfind : regions.find? (·.contains k) with
  | none => exact absurd hk (by simpa using List.find?_eq_none.mp hfind r hr)
  | some r' =>
    refine ⟨r', List.mem_of_find?_eq_some hfind, ?_,
      List.find?_some (p := fun r : Region => r.contains k) hfind⟩
    rw [fixedCluster, hfind]

/-- The number of regions that go beyond a key. -/
def later (regions : List Region) (k : Key) : ℕ :=
  (regions.filter fun r => r.endKey.isEmpty || k < r.endKey).length

namespace IsPartition

variable {regions : List Region} {r s : Region} {k : Key}

lemma eq_or_not_overlaps (h : IsPartition regions) (hr : r ∈ regions) (hs : s ∈ regions) :
    r = s ∨ ¬ r.Overlaps s := by
  have : Std.Symm fun r s : Region => ¬ r.Overlaps s := ⟨fun _ _ hno hover => hno hover.symm⟩
  exact or_iff_not_imp_left.mpr fun hne => h.disjoint.forall hr hs hne

/-- A key is in one region only. -/
lemma eq_of_contains (h : IsPartition regions) (hr : r ∈ regions) (hs : s ∈ regions)
    (hrk : r.contains k = true) (hsk : s.contains k = true) : r = s :=
  (h.eq_or_not_overlaps hr hs).resolve_right fun hno => hno ⟨k, hrk, hsk⟩

end IsPartition

/-- **Fewer regions are left** behind the end of a region. -/
lemma later_lt (hr : r ∈ regions) (hk : r.contains k = true) (hend : r.endKey.isEmpty = false) :
    later regions r.endKey < later regions k := by
  have hkr : k < r.endKey := by
    simp only [Region.contains, hend, Bool.or_false, Bool.and_eq_true, decide_eq_true_eq] at hk
    exact hk.2
  -- What goes beyond the end key goes beyond the key, and the region itself no longer counts.
  have hfilter : (regions.filter fun s => s.endKey.isEmpty || r.endKey < s.endKey) =
      (regions.filter fun s => s.endKey.isEmpty || k < s.endKey).filter
        fun s => s.endKey.isEmpty || r.endKey < s.endKey := by
    rw [List.filter_filter]
    refine List.filter_congr fun s _ => ?_
    by_cases hs : r.endKey < s.endKey
    · simp [hs, hkr.trans hs]
    · by_cases hempty : s.endKey.isEmpty = true <;> simp [hs, hempty]
  rw [later, hfilter]
  refine List.length_filter_lt_length_iff_exists.mpr ⟨r, ?_, ?_⟩
  · simp [hr, hkr]
  · simp [hend]

lemma later_pos (hr : r ∈ regions) (hk : r.contains k = true) : 0 < later regions k := by
  refine List.length_pos_of_mem (List.mem_filter.mpr ⟨hr, ?_⟩)
  rw [Region.contains, Bool.and_eq_true, Bool.or_comm] at hk
  exact hk.2

lemma later_le (regions : List Region) (k : Key) : later regions k ≤ regions.length :=
  List.length_filter_le _ _

end TikvClient
