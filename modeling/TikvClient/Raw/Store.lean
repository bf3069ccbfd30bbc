import TikvClient.Core.SortedList
import TikvClient.Raw.RangeOps

/-!
# A raw cluster and the scans of its regions

A cluster that does not change: regions that partition the key space, and the pairs that are stored.
Against it, the loop of `scan_inner` is a walk from region to region (`scanOutcome`), which starts
at the region of a key, goes on at its end key, and stops when the limit is reached or the end key
of the region is at or behind the end of the range.

**The end of the key space.**  The last region has the empty end key.  The walk takes it for the
smallest key, so it does not stop there, and goes on with the first region.
-/

namespace TikvClient

open Proto Prog

instance (range : Key × Key) : DecidablePred (InRange range) :=
  fun _ => inferInstanceAs (Decidable (_ ∧ _))

/-! ## Stored pairs -/

/-- **What is stored**: pairs in the order of their keys; with keyspaces in use, every key has one.
-/
structure RawContents (keyspace : Keyspace) where
  pairs : List KvPair
  sorted : pairs.Pairwise fun p q => p.key < q.key
  stored : ∀ p ∈ pairs, keyspace.Stored p.key

namespace RawContents

variable {keyspace : Keyspace} (contents : RawContents keyspace)

def inRange (range : Key × Key) : List KvPair :=
  contents.pairs.filter fun p => decide (InRange range p.key)

/-- The pairs of a range that are in a region. -/
def inRegion (region : Region) (range : Key × Key) : List KvPair :=
  contents.pairs.filter fun p => region.contains p.key && decide (InRange range p.key)

/-- The number of pairs from a key on and before another. -/
def between (k b : Key) : ℕ :=
  (contents.pairs.filter fun p => decide (k ≤ p.key) && decide (p.key < b)).length

/-- **The pairs a user of the keyspace has in a range**, in order and with the user's keys. -/
structure IsUserPairs (range : BoundRange) (l : List KvPair) : Prop where
  sorted : l.Pairwise fun p q => p.key < q.key
  mem : ∀ p : KvPair, p ∈ l ↔ range.contains p.key = true ∧
    ⟨p.key.encodeKeyspace keyspace .raw, p.value⟩ ∈ contents.pairs

end RawContents

/-- **A cluster that does not change**: regions with ids of their own that partition the key space,
and what is stored. -/
structure RawCluster (keyspace : Keyspace) where
  regions : List Region
  partition : IsPartition regions
  ids : (regions.map fun region => region.verId.id).Nodup
  contents : RawContents keyspace

/-- The request of one step of a scan up to `e`. -/
def RawClient.scanRequest (client : RawClient) (e : Key) (reverse : Bool) (k : Key) (limit : ℕ) :
    RawScanRequest :=
  newRawScanRequest (.ofKeysOption (k, some e)) limit false reverse client.cf

lemma RawClient.scanRequest_eq (client : RawClient) (e : Key) (reverse : Bool) (k : Key)
    (limit : ℕ) :
    client.scanRequest e reverse k limit =
      if reverse then ⟨e, k, limit, false, reverse, maybeSetCf client.cf⟩
      else ⟨k, e, limit, false, reverse, maybeSetCf client.cf⟩ := by
  rw [scanRequest, newRawScanRequest, BoundRange.intoKeys_ofKeysOption]
  rfl

lemma RawClient.limit_scanRequest (client : RawClient) (e : Key) (reverse : Bool) (k : Key)
    (limit : ℕ) : (client.scanRequest e reverse k limit).limit = limit := by
  rw [scanRequest_eq]
  cases reverse <;> rfl

namespace RawCluster

variable {keyspace : Keyspace} (cluster : RawCluster keyspace)

def regionOf (k : Key) : Region := (cluster.regions.find? (·.contains k)).getD default

/-- The answers of the cluster, with a function that answers the scans. -/
def answers (scan : Region → RawScanRequest → List KvPair) : (c : Call) → c.Ans
  | .rawRpc region (.scan request) =>
    (.ok ⟨none, scan region request⟩ : Except Error RawScanResponse)
  | c => fixedCluster cluster.regions (fun _ _ => .error .grpc) c

/-- **The walk of a scan** up to the end key `e`: at a key, with a limit and what was found so far.
-/
def scanOutcome (answer : Region → Key → ℕ → List KvPair) (e : Key) :
    ℕ → Key → ℕ → List KvPair → Option (Except Error (List KvPair))
  | 0, _, _, _ => none
  | fuel + 1, k, limit, result =>
    if limit = 0 then some (.ok result)
    else
      let region := cluster.regionOf k
      let kvs := answer region k limit
      if limit < kvs.length then
        some (.error (.panicked "attempt to subtract with overflow"))
      else if e ≤ region.endKey then some (.ok (result ++ kvs))
      else scanOutcome answer e fuel region.endKey (limit - kvs.length) (result ++ kvs)

/-- The walk over a range with an end key is in time: the limit is reached, or the range ends before
the last region begins — and does not begin there, unless nothing is stored before its end. -/
def WalkEnds (s e : Key) (limit : ℕ) : Prop :=
  limit ≤ (cluster.contents.inRange (s, e)).length ∨
    ∃ last ∈ cluster.regions, last.endKey.isEmpty = true ∧ e ≤ last.startKey ∧
      (s < last.startKey ∨ ∀ p ∈ cluster.contents.pairs, e ≤ p.key)

/-! ## The regions -/

variable {k e : Key}

lemma find?_eq_some (k : Key) :
    cluster.regions.find? (·.contains k) = some (cluster.regionOf k) := by
  obtain ⟨region, hregion, hk⟩ := cluster.partition.covers k
  unfold regionOf
  cases hfind : cluster.regions.find? (·.contains k) with
  | none => exact absurd hk (by simpa using List.find?_eq_none.mp hfind region hregion)
  | some region => rfl

lemma regionOf_mem (k : Key) : cluster.regionOf k ∈ cluster.regions :=
  List.mem_of_find?_eq_some (cluster.find?_eq_some k)

lemma regionOf_contains (k : Key) : (cluster.regionOf k).contains k = true :=
  List.find?_some (p := fun region : Region => region.contains k) (cluster.find?_eq_some k)

variable {cluster}
  {region : Region}

lemma regionOf_eq (h : region ∈ cluster.regions)
    (hk : region.contains k = true) : cluster.regionOf k = region :=
  cluster.partition.eq_of_contains (cluster.regionOf_mem k) h (cluster.regionOf_contains k) hk

lemma find?_id (h : region ∈ cluster.regions) :
    cluster.regions.find? (·.verId.id = region.verId.id) = some region := by
  cases hfind : cluster.regions.find? (·.verId.id = region.verId.id) with
  | none => exact absurd (List.find?_eq_none.mp hfind region h) (by simp)
  | some found =>
    have hid := List.find?_some (p := fun r : Region => decide (r.verId.id = region.verId.id)) hfind
    exact congrArg some (List.inj_on_of_nodup_map cluster.ids (List.mem_of_find?_eq_some hfind) h
      (of_decide_eq_true hid))

lemma lt_endKey (hk : region.contains k = true)
    (hend : region.endKey.isEmpty = false) : k < region.endKey := by
  simp only [Region.contains, hend, Bool.or_false, Bool.and_eq_true, decide_eq_true_eq] at hk
  exact hk.2

lemma startKey_le (hk : region.contains k = true) : region.startKey ≤ k := by
  simp only [Region.contains, Bool.and_eq_true, decide_eq_true_eq] at hk
  exact hk.1

lemma contains_of_le (hk : region.contains k = true) {b : Key} (hkb : k ≤ b)
    (hb : b < region.endKey ∨ region.endKey.isEmpty = true) : region.contains b = true := by
  simp only [Region.contains, Bool.and_eq_true, Bool.or_eq_true, decide_eq_true_eq]
  exact ⟨(startKey_le hk).trans hkb, hb⟩

lemma contains_startKey (h : region ∈ cluster.regions) :
    region.contains region.startKey = true := by
  simp only [Region.contains, Bool.and_eq_true, Bool.or_eq_true, decide_eq_true_eq]
  exact ⟨le_rfl, cluster.partition.wellFormed region h⟩

lemma exists_last : ∃ last ∈ cluster.regions, last.endKey.isEmpty = true := by
  suffices h : ∀ n k, later cluster.regions k = n →
      ∃ last ∈ cluster.regions, last.endKey.isEmpty = true from h _ .empty rfl
  intro n
  induction n using Nat.strong_induction_on with
  | _ n ih =>
    rintro k rfl
    cases hend : (cluster.regionOf k).endKey.isEmpty with
    | true => exact ⟨_, cluster.regionOf_mem k, hend⟩
    | false =>
      exact ih _ (later_lt (cluster.regionOf_mem k) (cluster.regionOf_contains k) hend) _ rfl

/-- A region that begins behind a key begins at or behind the end of the key's region. -/
lemma endKey_le_startKey (h : region ∈ cluster.regions)
    (hk : k < region.startKey) : (cluster.regionOf k).endKey ≤ region.startKey ∧
      (cluster.regionOf k).endKey.isEmpty = false := by
  have hne : (cluster.regionOf k).contains region.startKey = true → False := by
    intro hcontains
    have heq := cluster.partition.eq_of_contains (cluster.regionOf_mem k) h hcontains
      (contains_startKey h)
    have hle := startKey_le (cluster.regionOf_contains k)
    rw [heq] at hle
    exact absurd hk hle.not_gt
  constructor
  · by_contra hlt
    exact hne (contains_of_le (cluster.regionOf_contains k) hk.le (.inl (not_le.mp hlt)))
  · cases hend : (cluster.regionOf k).endKey.isEmpty with
    | true => exact absurd (contains_of_le (cluster.regionOf_contains k) hk.le (.inr hend)) hne
    | false => rfl

lemma startKey_regionOf_endKey (h : region ∈ cluster.regions)
    (hend : region.endKey.isEmpty = false) :
    (cluster.regionOf region.endKey).startKey = region.endKey := by
  refine (startKey_le (cluster.regionOf_contains region.endKey)).antisymm ?_
  by_contra hlt
  -- Otherwise the later of the two beginnings would be a key of both regions.
  have hstart : region.startKey < region.endKey := lt_endKey (contains_startKey h) hend
  have hmax : max region.startKey (cluster.regionOf region.endKey).startKey < region.endKey :=
    max_lt hstart (not_le.mp hlt)
  have hnext := cluster.regionOf_mem region.endKey
  have heq := cluster.partition.eq_of_contains (k := max region.startKey
      (cluster.regionOf region.endKey).startKey) h hnext
    (contains_of_le (contains_startKey h) (le_max_left _ _) (.inl hmax))
    (contains_of_le (contains_startKey hnext) (le_max_right _ _) ?_)
  · have hself := cluster.regionOf_contains region.endKey
    rw [← heq] at hself
    exact absurd (lt_endKey hself hend) (lt_irrefl _)
  · cases hempty : (cluster.regionOf region.endKey).endKey.isEmpty with
    | true => exact .inr rfl
    | false => exact .inl (hmax.trans (lt_endKey (cluster.regionOf_contains region.endKey) hempty))

section Last

variable {last : Region} (hlast : last ∈ cluster.regions) (hempty : last.endKey.isEmpty = true)
include hlast hempty

lemma regionOf_eq_last (hk : last.startKey ≤ k) : cluster.regionOf k = last :=
  regionOf_eq hlast (contains_of_le (contains_startKey hlast) hk (.inr hempty))

lemma endKey_le_last (h : region ∈ cluster.regions)
    (hend : region.endKey.isEmpty = false) : region.endKey ≤ last.startKey := by
  by_contra hlt
  have hnext := regionOf_eq_last hlast hempty (not_le.mp hlt).le
  have hstart := startKey_regionOf_endKey h hend
  rw [hnext] at hstart
  exact hlt hstart.ge

/-- The walk only stops before the end of the key space if the range ends there. -/
lemma not_le_endKey (he : last.startKey < e) (h : region ∈ cluster.regions) :
    ¬ e ≤ region.endKey := by
  intro hle
  have hend := Key.isEmpty_eq_false_of_lt (he.trans_le hle)
  exact absurd (hle.trans (endKey_le_last hlast hempty h hend)) he.not_ge

end Last

/-! ## The pairs of a range, region by region -/

section Pairs

variable (k e)

lemma inRange_eq_append (hend : (cluster.regionOf k).endKey.isEmpty = false) :
    cluster.contents.inRange (k, e) = cluster.contents.inRegion (cluster.regionOf k) (k, e) ++
      cluster.contents.inRange ((cluster.regionOf k).endKey, e) := by
  have hk := cluster.regionOf_contains k
  have hlt := lt_endKey hk hend
  unfold RawContents.inRange RawContents.inRegion
  rw [SortedList.filter_cut cluster.contents.sorted _ (cluster.regionOf k).endKey]
  congr 1
  · refine List.filter_congr fun p _ => ?_
    rw [Bool.eq_iff_iff]
    simp only [Bool.and_eq_true, decide_eq_true_eq]
    constructor
    · rintro ⟨hin, hbefore⟩
      exact ⟨contains_of_le hk hin.1 (.inl hbefore), hin⟩
    · rintro ⟨hcontains, hin⟩
      exact ⟨hin, lt_endKey hcontains hend⟩
  · refine List.filter_congr fun p _ => ?_
    rw [Bool.eq_iff_iff]
    simp only [Bool.and_eq_true, decide_eq_true_eq]
    exact ⟨fun ⟨hin, hle⟩ => ⟨hle, hin.2⟩, fun hin => ⟨⟨hlt.le.trans hin.1, hin.2⟩, hin.1⟩⟩

lemma inRange_eq_inRegion (h : (cluster.regionOf k).endKey.isEmpty = true ∨
    e.isEmpty = false ∧ e ≤ (cluster.regionOf k).endKey) :
    cluster.contents.inRange (k, e) =
      cluster.contents.inRegion (cluster.regionOf k) (k, e) := by
  refine List.filter_congr fun p _ => ?_
  rw [Bool.eq_iff_iff]
  simp only [Bool.and_eq_true, decide_eq_true_eq]
  refine ⟨fun hin => ⟨contains_of_le (cluster.regionOf_contains k) hin.1 ?_, hin⟩, And.right⟩
  rcases h with hempty | ⟨he, hle⟩
  · exact .inr hempty
  · refine .inl (lt_of_lt_of_le (hin.2.resolve_right ?_) hle)
    simp [he]

variable {k e}
  {p : KvPair}

lemma mem_inRegion_iff {range : Key × Key} :
    p ∈ cluster.contents.inRegion region range ↔
      p ∈ cluster.contents.inRange range ∧ region.contains p.key = true := by
  simp only [RawContents.inRegion, RawContents.inRange, List.mem_filter, Bool.and_eq_true]
  tauto

lemma inRegion_isPrefix (cluster : RawCluster keyspace) (k e : Key) :
    cluster.contents.inRegion (cluster.regionOf k) (k, e) <+: cluster.contents.inRange (k, e) := by
  cases hend : (cluster.regionOf k).endKey.isEmpty with
  | true =>
    exact ⟨[], by rw [List.append_nil, inRange_eq_inRegion k e (.inl hend)]⟩
  | false =>
    rw [inRange_eq_append k e hend]
    exact List.prefix_append _ _

lemma inRange_eq_inRegion_of_contains {range : Key × Key}
    (h : ∀ p ∈ cluster.contents.inRange range, region.contains p.key = true) :
    cluster.contents.inRange range = cluster.contents.inRegion region range := by
  refine List.filter_congr fun p hp => ?_
  rw [Bool.eq_iff_iff, Bool.and_eq_true]
  exact ⟨fun hin => ⟨h p (List.mem_filter.mpr ⟨hp, hin⟩), hin⟩, And.right⟩

lemma contains_head_of_inRange {ps : List KvPair}
    (hregion : cluster.contents.inRegion (cluster.regionOf k) (k, e) ≠ [])
    (hpairs : cluster.contents.inRange (k, e) = p :: ps) :
    (cluster.regionOf k).contains p.key = true := by
  obtain ⟨q, qs, hq⟩ := List.exists_cons_of_ne_nil hregion
  have hprefix := cluster.inRegion_isPrefix k e
  rw [hq, hpairs, List.cons_prefix_cons] at hprefix
  obtain ⟨rfl, -⟩ := hprefix
  have hmem : q ∈ cluster.contents.inRegion (cluster.regionOf k) (k, e) := by simp [hq]
  exact (mem_inRegion_iff.mp hmem).2

end Pairs

/-! ## The loop against the cluster -/

section Eval

variable (cluster) (client : RawClient) (scan : Region → RawScanRequest → List KvPair)

lemma eval_regionForKey (k : Key) :
    (Async.regionForKey k).eval (cluster.answers scan) = some (.ok (cluster.regionOf k)) := by
  have hans : fixedCluster cluster.regions (fun _ _ => .error .grpc) (.regionForKey k) =
      (.ok (cluster.regionOf k) : Except Error Region) := by
    rw [fixedCluster, cluster.find?_eq_some]
  exact congrArg some hans

lemma eval_regionForId (k : Key) :
    (Async.regionForId (cluster.regionOf k).verId.id).eval (cluster.answers scan) =
      some (.ok (cluster.regionOf k)) := by
  have hans : fixedCluster cluster.regions (fun _ _ => .error .grpc)
      (.regionForId (cluster.regionOf k).verId.id) =
        (.ok (cluster.regionOf k) : Except Error Region) := by
    rw [fixedCluster, find?_id (cluster.regionOf_mem k)]
  exact congrArg some hans

/-- One step asks the region of the key. -/
lemma eval_retryableScan (e : Key) (reverse : Bool) (k : Key) (limit fuel : ℕ)
    (backoff : Backoff) :
    (client.retryableScan ⟨k, some e, limit, false, reverse⟩ (fuel + 1) backoff).eval
        (cluster.answers scan) =
      some (.ok (some ⟨none, scan (cluster.regionOf k) (client.scanRequest e reverse k limit)⟩,
        (cluster.regionOf k).endKey)) := by
  unfold RawClient.retryableScan
  rw [eval_andThen_ok (cluster.eval_regionForKey scan k),
    eval_andThen_ok (cluster.eval_regionForId scan k)]
  rfl

/-- **The loop of `scan_inner` is the walk**, if every answer holds fewer pairs than a `u32` counts.
-/
theorem eval_scanLoop (hfits : ∀ region request, request.limit ≤ maxRawKvScanLimit →
    (scan region request).length < 2 ^ 32) (e : Key) (reverse : Bool) (retryFuel fuel : ℕ) :
    ∀ k limit result, limit ≤ maxRawKvScanLimit →
      (client.scanLoop (some e) false reverse (retryFuel + 1) fuel k limit result).eval
          (cluster.answers scan) =
        cluster.scanOutcome
          (fun region k limit => scan region (client.scanRequest e reverse k limit)) e fuel k limit
          result := by
  induction fuel with
  | zero => exact fun _ _ _ _ => rfl
  | succ fuel ih =>
    intro k limit result hmax
    unfold RawClient.scanLoop scanOutcome
    by_cases hlimit : limit = 0
    · rw [if_pos hlimit, if_pos hlimit]
      rfl
    · have hsmall := hfits (cluster.regionOf k) (client.scanRequest e reverse k limit)
        (by rwa [client.limit_scanRequest])
      rw [if_neg hlimit, if_neg hlimit,
        eval_andThen_ok (cluster.eval_retryableScan client scan e reverse k limit retryFuel _)]
      dsimp only [Option.map_some, Option.getD_some, Option.any_some]
      simp only [Nat.mod_eq_of_lt hsmall]
      by_cases hover : limit < (scan (cluster.regionOf k)
          (client.scanRequest e reverse k limit)).length
      · rw [if_pos hover, if_pos hover]
        rfl
      · rw [if_neg hover, if_neg hover]
        by_cases hstop : e ≤ (cluster.regionOf k).endKey
        · rw [if_pos (decide_eq_true hstop), if_pos hstop]
          rfl
        · rw [if_neg (by simpa using hstop), if_neg hstop]
          exact ih _ _ _ ((Nat.sub_le _ _).trans hmax)

end Eval

/-! ## What every walk does -/

section Outcome

variable {answer : Region → Key → ℕ → List KvPair} {fuel limit : ℕ} {result x : List KvPair}

/-- The ways in which a step can succeed. -/
lemma scanOutcome_cases
    (h : cluster.scanOutcome answer e (fuel + 1) k limit result = some (.ok x)) :
    (limit = 0 ∧ x = result) ∨
      (0 < limit ∧ (answer (cluster.regionOf k) k limit).length ≤ limit ∧
        (e ≤ (cluster.regionOf k).endKey ∧ x = result ++ answer (cluster.regionOf k) k limit ∨
          ¬ e ≤ (cluster.regionOf k).endKey ∧
            cluster.scanOutcome answer e fuel (cluster.regionOf k).endKey
              (limit - (answer (cluster.regionOf k) k limit).length)
              (result ++ answer (cluster.regionOf k) k limit) = some (.ok x))) := by
  unfold scanOutcome at h
  dsimp only at h
  split_ifs at h with hlimit hover hstop
  · cases h
    exact .inl ⟨hlimit, rfl⟩
  · cases h
  · cases h
    exact .inr ⟨Nat.pos_of_ne_zero hlimit, not_lt.mp hover, .inl ⟨hstop, rfl⟩⟩
  · exact .inr ⟨Nat.pos_of_ne_zero hlimit, not_lt.mp hover, .inr ⟨hstop, h⟩⟩

/-- A step that is not too much for the limit. -/
lemma scanOutcome_step (hlimit : 0 < limit)
    (hle : (answer (cluster.regionOf k) k limit).length ≤ limit) :
    cluster.scanOutcome answer e (fuel + 1) k limit result =
      if e ≤ (cluster.regionOf k).endKey then
        some (.ok (result ++ answer (cluster.regionOf k) k limit))
      else
        cluster.scanOutcome answer e fuel (cluster.regionOf k).endKey
          (limit - (answer (cluster.regionOf k) k limit).length)
          (result ++ answer (cluster.regionOf k) k limit) := by
  rw [scanOutcome, if_neg hlimit.ne', if_neg hle.not_gt]

@[simp] lemma scanOutcome_zero_limit (fuel : ℕ) :
    cluster.scanOutcome answer e (fuel + 1) k 0 result = some (.ok result) := by
  rw [scanOutcome, if_pos rfl]

lemma prefix_of_scanOutcome
    (h : cluster.scanOutcome answer e fuel k limit result = some (.ok x)) : result <+: x := by
  induction fuel generalizing k limit result with
  | zero => cases h
  | succ fuel ih =>
    rcases scanOutcome_cases h with ⟨-, rfl⟩ | ⟨-, -, ⟨-, rfl⟩ | ⟨-, hrest⟩⟩
    · exact List.prefix_rfl
    · exact List.prefix_append _ _
    · exact (List.prefix_append _ _).trans (ih hrest)

/-- **A walk that is never stopped by an end key ends when the limit is reached.** -/
lemma length_of_scanOutcome (hstop : ∀ region ∈ cluster.regions, ¬ e ≤ region.endKey)
    (h : cluster.scanOutcome answer e fuel k limit result = some (.ok x)) :
    x.length = result.length + limit := by
  induction fuel generalizing k limit result with
  | zero => cases h
  | succ fuel ih =>
    rcases scanOutcome_cases h with ⟨rfl, rfl⟩ | ⟨-, hle, ⟨hend, -⟩ | ⟨-, hrest⟩⟩
    · rfl
    · exact absurd hend (hstop _ (cluster.regionOf_mem k))
    · rw [ih hrest, List.length_append]
      omega

/-- A region answers with pairs of the range that it has, and with some if it has any. -/
structure AnswersFrom (cluster : RawCluster keyspace) (answer : Region → Key → ℕ → List KvPair)
    (e : Key) : Prop where
  mem : ∀ {region k limit q}, q ∈ answer region k limit →
    q ∈ cluster.contents.inRegion region (k, e)
  ne_nil : ∀ {region k limit}, 0 < limit → cluster.contents.inRegion region (k, e) ≠ [] →
    answer region k limit ≠ []

/-- **What a walk over a range with pairs finds first** is in the region of the first of them. -/
lemma head_of_scanOutcome {p : KvPair} {ps : List KvPair} (hanswers : cluster.AnswersFrom answer e)
    (he : e.isEmpty = false) (hlimit : 0 < limit)
    (hpairs : cluster.contents.inRange (k, e) = p :: ps)
    (h : cluster.scanOutcome answer e fuel k limit [] = some (.ok x)) :
    ∃ q y, x = q :: y ∧ q ∈ cluster.contents.inRange (k, e) ∧
      (cluster.regionOf p.key).contains q.key = true := by
  induction fuel generalizing k with
  | zero => cases h
  | succ fuel ih =>
    by_cases hregion : cluster.contents.inRegion (cluster.regionOf k) (k, e) = []
    · -- nothing here: the pairs are behind the region
      have hkvs : answer (cluster.regionOf k) k limit = [] := by
        rw [List.eq_nil_iff_forall_not_mem]
        intro q hq
        have hq := hanswers.mem hq
        rw [hregion] at hq
        cases hq
      have hbehind : ¬ ((cluster.regionOf k).endKey.isEmpty = true ∨
          e.isEmpty = false ∧ e ≤ (cluster.regionOf k).endKey) := by
        intro hstop
        rw [inRange_eq_inRegion k e hstop, hregion] at hpairs
        cases hpairs
      simp only [not_or, not_and, Bool.not_eq_true] at hbehind
      have hsplit := inRange_eq_append k e hbehind.1
      rw [hregion, List.nil_append] at hsplit
      rcases scanOutcome_cases h with ⟨hzero, -⟩ | ⟨-, -, ⟨hend, -⟩ | ⟨-, hrest⟩⟩
      · omega
      · exact absurd hend (hbehind.2 he)
      · rw [hkvs] at hrest
        rw [hsplit] at hpairs ⊢
        exact ih hpairs hrest
    · -- the first pair is here, and with it all the region answers
      have hp := contains_head_of_inRange hregion hpairs
      rw [regionOf_eq (cluster.regionOf_mem k) hp]
      obtain ⟨q, kvs, hkvs⟩ := List.exists_cons_of_ne_nil (hanswers.ne_nil hlimit hregion)
      have hprefix : q :: kvs <+: x := by
        rcases scanOutcome_cases h with ⟨hzero, -⟩ | ⟨-, -, ⟨-, rfl⟩ | ⟨-, hrest⟩⟩
        · omega
        · rw [hkvs]
          exact List.prefix_rfl
        · rw [hkvs] at hrest
          exact prefix_of_scanOutcome hrest
      obtain ⟨rest, rfl⟩ := hprefix
      have hq : q ∈ answer (cluster.regionOf k) k limit := by simp [hkvs]
      have hq := mem_inRegion_iff.mp (hanswers.mem hq)
      exact ⟨q, kvs ++ rest, rfl, hq.1, hq.2⟩

section Ends

variable {s : Key} {last : Region}

lemma inRange_eq_nil (he : e.isEmpty = false) (hle : e ≤ s) :
    cluster.contents.inRange (s, e) = [] := by
  rw [RawContents.inRange, List.filter_eq_nil_iff]
  intro p _ hin
  obtain ⟨hsp, hpe | hnone⟩ := of_decide_eq_true hin
  · exact absurd (hsp.trans_lt hpe) hle.not_gt
  · rw [he] at hnone
    cases hnone

/-- No range up to `e` has pairs if nothing is stored before `e`. -/
lemma inRange_eq_nil_of_le (he : e.isEmpty = false)
    (h : ∀ p ∈ cluster.contents.pairs, e ≤ p.key) (s : Key) :
    cluster.contents.inRange (s, e) = [] := by
  rw [RawContents.inRange, List.filter_eq_nil_iff]
  intro p hp hin
  rcases (of_decide_eq_true hin).2 with hpe | hnone
  · exact absurd hpe (h p hp).not_gt
  · rw [he] at hnone
    cases hnone

/-- **From the last region the walk goes on at the first one.** -/
lemma scanOutcome_wrap (hanswers : cluster.AnswersFrom answer e)
    (hlast : last ∈ cluster.regions) (hempty : last.endKey.isEmpty = true)
    (he : e.isEmpty = false) (hs : last.startKey ≤ s)
    (hnil : cluster.contents.inRange (s, e) = []) (hlimit : 0 < limit) :
    cluster.scanOutcome answer e (fuel + 1) s limit [] =
      cluster.scanOutcome answer e fuel last.endKey limit [] := by
  have hregion := regionOf_eq_last hlast hempty hs
  have hkvs : answer (cluster.regionOf s) s limit = [] := by
    rw [List.eq_nil_iff_forall_not_mem]
    intro q hq
    have hin := (mem_inRegion_iff.mp (hanswers.mem hq)).1
    rw [hnil] at hin
    cases hin
  rw [scanOutcome_step hlimit (by simp [hkvs]), hkvs, hregion, if_neg]
  · rfl
  · exact (Key.lt_of_isEmpty hempty he).not_ge

/-- The walk is over in the region of the key, or in time behind it. -/
lemma inTime_behind (hlast : last ∈ cluster.regions)
    (hends : limit ≤ (cluster.contents.inRange (k, e)).length ∨
      e ≤ last.startKey ∧ k < last.startKey) (hstop : ¬ e ≤ (cluster.regionOf k).endKey) :
    limit ≤ (cluster.contents.inRegion (cluster.regionOf k) (k, e)).length ∨
      (cluster.regionOf k).endKey.isEmpty = false ∧
        (limit - (cluster.contents.inRegion (cluster.regionOf k) (k, e)).length ≤
            (cluster.contents.inRange ((cluster.regionOf k).endKey, e)).length ∨
          e ≤ last.startKey ∧ (cluster.regionOf k).endKey < last.startKey) := by
  rcases hends with hreached | ⟨hbefore, hk⟩
  · cases hend : (cluster.regionOf k).endKey.isEmpty with
    | true =>
      rw [inRange_eq_inRegion k e (.inl hend)] at hreached
      exact .inl hreached
    | false =>
      rw [inRange_eq_append k e hend, List.length_append] at hreached
      exact .inr ⟨rfl, .inl (by omega)⟩
  · exact .inr ⟨(endKey_le_startKey hlast hk).2, .inr ⟨hbefore, (not_le.mp hstop).trans_le hbefore⟩⟩

/-- **What is wanted of the walks up to `e`**, from a key on and up to a limit, and where (`P`):
what the region of the key answers, and if that is not enough, what is wanted from the next region
on. -/
structure Wanted (cluster : RawCluster keyspace) (answer : Region → Key → ℕ → List KvPair) (e : Key)
    (wanted : Key → ℕ → List KvPair) (P : Key → ℕ → Prop) : Prop where
  length : ∀ k limit, 0 < limit → P k limit → (answer (cluster.regionOf k) k limit).length =
    min limit (cluster.contents.inRegion (cluster.regionOf k) (k, e)).length
  here : ∀ k limit, 0 < limit → P k limit →
    e ≤ (cluster.regionOf k).endKey ∨
      limit ≤ (cluster.contents.inRegion (cluster.regionOf k) (k, e)).length →
    wanted k limit = answer (cluster.regionOf k) k limit
  next : ∀ k limit, P k limit → (cluster.regionOf k).endKey.isEmpty = false →
    ¬ e ≤ (cluster.regionOf k).endKey →
    (cluster.contents.inRegion (cluster.regionOf k) (k, e)).length < limit →
    wanted k limit = answer (cluster.regionOf k) k limit ++ wanted (cluster.regionOf k).endKey
        (limit - (cluster.contents.inRegion (cluster.regionOf k) (k, e)).length) ∧
      P (cluster.regionOf k).endKey
        (limit - (cluster.contents.inRegion (cluster.regionOf k) (k, e)).length)
  none : (∀ k, cluster.contents.inRange (k, e) = []) → ∀ k limit, P k limit ∧ wanted k limit = []

variable {wanted : Key → ℕ → List KvPair} {P : Key → ℕ → Prop}

/-- **A walk in time finds what is wanted.** -/
theorem Wanted.scanOutcome
    (hwanted : cluster.Wanted answer e wanted P) (hlast : last ∈ cluster.regions) (fuel : ℕ) :
    ∀ k limit result, later cluster.regions k < fuel → 0 < limit → P k limit →
      (limit ≤ (cluster.contents.inRange (k, e)).length ∨ e ≤ last.startKey ∧ k < last.startKey) →
      cluster.scanOutcome answer e fuel k limit result =
        some (.ok (result ++ wanted k limit)) := by
  induction fuel with
  | zero => exact fun _ _ _ hfuel => absurd hfuel (Nat.not_lt_zero _)
  | succ fuel ih =>
    intro k limit result hfuel hlimit hP hends
    have hlen := hwanted.length k limit hlimit hP
    have hlater := later_pos (cluster.regionOf_mem k) (cluster.regionOf_contains k)
    rw [scanOutcome_step hlimit (by omega), hlen]
    by_cases hstop : e ≤ (cluster.regionOf k).endKey
    · rw [if_pos hstop, hwanted.here k limit hlimit hP (.inl hstop)]
    rw [if_neg hstop]
    rcases le_or_gt limit
        (cluster.contents.inRegion (cluster.regionOf k) (k, e)).length with hreached | hmore
    · obtain ⟨fuel, rfl⟩ : ∃ f, fuel = f + 1 := ⟨fuel - 1, by omega⟩
      rw [min_eq_left hreached, Nat.sub_self, scanOutcome_zero_limit,
        hwanted.here k limit hlimit hP (.inr hreached)]
    · obtain ⟨hend, hends⟩ := (inTime_behind hlast hends hstop).resolve_left hmore.not_ge
      obtain ⟨heq, hP⟩ := hwanted.next k limit hP hend hstop hmore
      have hbehind := later_lt (cluster.regionOf_mem k) (cluster.regionOf_contains k) hend
      rw [min_eq_right hmore.le, ih _ _ _ (by omega) (by omega) hP hends, heq, List.append_assoc]

theorem Wanted.exists_scanOutcome (hwanted : cluster.Wanted answer e wanted P)
    (hanswers : cluster.AnswersFrom answer e)
    (he : e.isEmpty = false) (hlimit : 0 < limit) (hP : P k limit)
    (hends : cluster.WalkEnds k e limit) :
    ∃ fuel, cluster.scanOutcome answer e fuel k limit [] = some (.ok (wanted k limit)) := by
  obtain ⟨last, hlast, hempty⟩ := cluster.exists_last
  rcases hends with hreached | ⟨last, hlast, hempty, hbefore, hstart⟩
  · exact ⟨_, hwanted.scanOutcome hlast _ k limit [] (Nat.lt_succ_self _) hlimit hP (.inl hreached)⟩
  by_cases hk : k < last.startKey
  · exact ⟨_, hwanted.scanOutcome hlast _ k limit [] (Nat.lt_succ_self _) hlimit hP
      (.inr ⟨hbefore, hk⟩)⟩
  · -- The walk starts again at the first region, and there is nothing to be found.
    have hnil := inRange_eq_nil_of_le he (hstart.resolve_left hk)
    have hfirst : last.endKey < last.startKey := (Key.lt_of_isEmpty hempty he).trans_le hbefore
    refine ⟨later cluster.regions last.endKey + 1 + 1, ?_⟩
    rw [scanOutcome_wrap hanswers hlast hempty he (not_lt.mp hk) (hnil k) hlimit,
      hwanted.scanOutcome hlast _ last.endKey limit [] (Nat.lt_succ_self _) hlimit
        (hwanted.none hnil _ _).1 (.inr ⟨hbefore, hfirst⟩), (hwanted.none hnil _ _).2,
      (hwanted.none hnil _ _).2]
    rfl

/-- **A walk that returns as many pairs as it should has ended in time.** -/
lemma walkEnds_of_scanOutcome (hanswers : cluster.AnswersFrom answer e)
    (he : e.isEmpty = false) (hlimit : 0 < limit)
    (h : cluster.scanOutcome answer e fuel s limit [] = some (.ok x))
    (hlen : min limit x.length = min limit (cluster.contents.inRange (s, e)).length) :
    cluster.WalkEnds s e limit := by
  obtain ⟨last, hlast, hempty⟩ := cluster.exists_last
  by_cases hbefore : e ≤ last.startKey
  · refine .inr ⟨last, hlast, hempty, hbefore, or_iff_not_imp_left.mpr fun hs => ?_⟩
    -- The range begins in the last region and has no pairs; then the walk must not find any.
    have hs := not_lt.mp hs
    have hnil : cluster.contents.inRange (s, e) = [] := inRange_eq_nil he (hbefore.trans hs)
    rw [hnil, List.length_nil, Nat.min_zero] at hlen
    obtain rfl : x = [] := List.length_eq_zero_iff.mp (by omega)
    cases fuel with
    | zero => cases h
    | succ fuel =>
      rw [scanOutcome_wrap hanswers hlast hempty he hs hnil hlimit] at h
      intro p hp
      by_contra hpe
      have hin : p ∈ cluster.contents.inRange (last.endKey, e) := by
        refine List.mem_filter.mpr ⟨hp, decide_eq_true ⟨?_, .inl (not_le.mp hpe)⟩⟩
        by_contra hlt
        rw [Key.isEmpty_eq_false_of_lt (not_le.mp hlt)] at hempty
        cases hempty
      obtain ⟨q, qs, hpairs⟩ := List.exists_cons_of_ne_nil (List.ne_nil_of_mem hin)
      obtain ⟨_, _, hx, -⟩ := head_of_scanOutcome hanswers he hlimit hpairs h
      cases hx
  · -- The range goes beyond all end keys, so only the limit ends the walk.
    have hx := length_of_scanOutcome
      (fun _ hregion => not_le_endKey hlast hempty (not_le.mp hbefore) hregion) h
    rw [List.length_nil, Nat.zero_add] at hx
    exact .inl (by omega)

end Ends

end Outcome

/-! ## What a scan returns -/

section Returned

variable (client : RawClient) (cluster : RawCluster client.keyspace)
  (scan : Region → RawScanRequest → List KvPair) (range : BoundRange)

/-- **A scan returns what the walk has found**, cut at the limit and with the user's keys. -/
theorem exists_eval_scanInner_iff (hfits : ∀ region request, request.limit ≤ maxRawKvScanLimit →
    (scan region request).length < 2 ^ 32) {limit : ℕ} (hlimit : limit ≤ maxRawKvScanLimit)
    (reverse : Bool) (y : List KvPair) :
    (∃ fuel, (client.scanInner fuel range limit false reverse).eval (cluster.answers scan) =
        some (.ok y)) ↔
      ∃ fuel x, cluster.scanOutcome
          (fun region k limit =>
            scan region (client.scanRequest (client.encoded range).requestRange.2 reverse k limit))
          (client.encoded range).requestRange.2 fuel (client.encoded range).requestRange.1 limit
          [] = some (.ok x) ∧
        y = (x.take limit).map (RawClient.truncatePair client.keyspace) := by
  have heval : ∀ fuel,
      (client.scanInner (fuel + 1) range limit false reverse).eval (cluster.answers scan) =
        (cluster.scanOutcome
          (fun region k limit =>
            scan region (client.scanRequest (client.encoded range).requestRange.2 reverse k limit))
          (client.encoded range).requestRange.2 (fuel + 1) (client.encoded range).requestRange.1
          limit []).map fun res =>
            res.map fun x => (x.take limit).map (RawClient.truncatePair client.keyspace) := by
    intro fuel
    rw [← cluster.eval_scanLoop client scan hfits _ reverse fuel _ _ _ _ hlimit]
    unfold RawClient.scanInner
    rw [if_neg hlimit.not_gt]
    dsimp only
    rw [BoundRange.intoKeys_encodeKeyspace]
    exact eval_andThen_ret _ _
  constructor
  · rintro ⟨fuel, h⟩
    cases fuel with
    | zero =>
      rw [RawClient.scanInner, if_neg hlimit.not_gt] at h
      cases h
    | succ fuel =>
      rw [heval, Option.map_eq_some_iff] at h
      obtain ⟨res, hres, hy⟩ := h
      cases res with
      | error err => cases hy
      | ok x =>
        cases hy
        exact ⟨fuel + 1, x, hres, rfl⟩
  · rintro ⟨fuel, x, h, rfl⟩
    cases fuel with
    | zero => cases h
    | succ fuel => exact ⟨fuel + 1, by rw [heval, h]; rfl⟩

end Returned

end RawCluster

/-! ## The pairs of a user -/

namespace RawContents

variable {keyspace : Keyspace} (contents : RawContents keyspace)

/-- The stored pairs of the encoded range are the user's pairs of the range. -/
lemma isUserPairs (range : BoundRange) :
    contents.IsUserPairs range
      ((contents.inRange (range.encodeKeyspace keyspace .raw).requestRange).map
        (RawClient.truncatePair keyspace)) := by
  -- A stored pair of the range has the encoding of a key of the range.
  have hstored : ∀ p ∈ contents.inRange (range.encodeKeyspace keyspace .raw).requestRange,
      p ∈ contents.pairs ∧ ∃ k : Key, p.key = k.encodeKeyspace keyspace .raw ∧
        range.contains k = true := by
    intro p hp
    obtain ⟨hmem, hin⟩ := List.mem_filter.mp hp
    refine ⟨hmem, (contains_encodeKeyspace_stored_iff keyspace .raw range
      (contents.stored p hmem)).mp ?_⟩
    rw [BoundRange.contains_encodeKeyspace_iff_inRange]
    exact of_decide_eq_true hin
  constructor
  · refine List.pairwise_map.mpr ((contents.sorted.filter _).imp_of_mem ?_)
    intro p q hp hq hlt
    obtain ⟨-, k, hk, -⟩ := hstored p hp
    obtain ⟨-, l, hl, -⟩ := hstored q hq
    rw [hk, hl, Key.encodeKeyspace_lt_iff] at hlt
    simpa [RawClient.truncatePair, hk, hl] using hlt
  · intro p
    rw [List.mem_map]
    constructor
    · rintro ⟨q, hq, rfl⟩
      obtain ⟨hmem, k, hk, hcontains⟩ := hstored q hq
      simp only [RawClient.truncatePair, hk, Key.truncateKeyspace_encodeKeyspace]
      exact ⟨hcontains, hk ▸ hmem⟩
    · rintro ⟨hcontains, hmem⟩
      refine ⟨_, List.mem_filter.mpr ⟨hmem, ?_⟩, by simp [RawClient.truncatePair]⟩
      rw [decide_eq_true_eq, ← BoundRange.contains_encodeKeyspace_iff_inRange]
      exact (contains_encodeKeyspace_stored_iff keyspace .raw range (contents.stored _ hmem)).mpr
        ⟨p.key, rfl, hcontains⟩

lemma IsUserPairs.eq {range : BoundRange} {l u : List KvPair} (hl : contents.IsUserPairs range l)
    (hu : contents.IsUserPairs range u) : l = u :=
  SortedList.eq_of_mem_iff hl.sorted hu.sorted fun p => (hl.mem p).trans (hu.mem p).symm

end RawContents

/-- **A scan returns some of the user's pairs** — those that `select` takes of a list — if its walk
finds the same of the stored pairs. -/
theorem RawCluster.exists_eval_userPairs_iff (client : RawClient)
    (cluster : RawCluster client.keyspace) (scan : Region → RawScanRequest → List KvPair)
    (range : BoundRange) (hfits : ∀ region request, request.limit ≤ maxRawKvScanLimit →
      (scan region request).length < 2 ^ 32) {limit : ℕ} (hlimit : limit ≤ maxRawKvScanLimit)
    (reverse : Bool) (select : List KvPair → List KvPair)
    (hselect : ∀ l : List KvPair, select (l.map (RawClient.truncatePair client.keyspace)) =
      (select l).map (RawClient.truncatePair client.keyspace)) :
    (∃ l, cluster.contents.IsUserPairs range l ∧
        ∃ fuel, (client.scanInner fuel range limit false reverse).eval (cluster.answers scan) =
          some (.ok (select l))) ↔
      ∃ fuel x, cluster.scanOutcome
          (fun region k limit =>
            scan region (client.scanRequest (client.encoded range).requestRange.2 reverse k limit))
          (client.encoded range).requestRange.2 fuel (client.encoded range).requestRange.1 limit
          [] = some (.ok x) ∧
        (select (cluster.contents.inRange (client.encoded range).requestRange)).map
          (RawClient.truncatePair client.keyspace) =
            (x.take limit).map (RawClient.truncatePair client.keyspace) := by
  have hpairs := cluster.contents.isUserPairs range
  have heval := exists_eval_scanInner_iff client cluster scan range hfits hlimit reverse
  constructor
  · rintro ⟨l, hl, hscan⟩
    obtain ⟨fuel, x, hx, heq⟩ := (heval _).mp hscan
    rw [hl.eq _ hpairs, hselect] at heq
    exact ⟨fuel, x, hx, heq⟩
  · rintro ⟨fuel, x, hx, heq⟩
    refine ⟨_, hpairs, (heval _).mpr ⟨fuel, x, hx, ?_⟩⟩
    rw [hselect]
    exact heq

end TikvClient
