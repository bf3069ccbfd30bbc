import TikvClient.Pd.Partition
import TikvClient.Request.Shard

/-!
# Sharding a range by region

A request over a range of keys is cut along the regions (`shardable_range!`).  The regions are found
by walking over them, starting with the one of the lower end; each shard is the part of the range
that lies in its region.  In a reverse request the two ends are swapped, in the request and in the
shards that are put into it.

**Any layout.**  `sat_regionsFrom_walk`: whatever regions the lookups answer — the layout may change
from one to the next — they are a walk over the range, and their parts of it cover it.

**A partition.**  `shards_partition`: over a partition of the key space the shards partition the
range, and each of them is partitioned in turn when it is sharded again.
-/

namespace TikvClient

/-- A request over a range of keys; in a reverse request it is `[end_key, start_key)`. -/
structure RangeRequest where
  startKey : Key
  endKey : Key
  isReverse : Bool
deriving DecidableEq

namespace RangeRequest

/-- The range of the request, in key order. -/
def range (r : RangeRequest) : Key × Key :=
  if r.isReverse then (r.endKey, r.startKey) else (r.startKey, r.endKey)

/-- `shards` of `shardable_range!`. -/
def shards (r : RangeRequest) (fuel : ℕ) : AsyncResult (List ((Key × Key) × Region)) :=
  regionStreamForRange fuel r.range

/-- `apply_shard` of `shardable_range!`. -/
def applyShard (r : RangeRequest) (shard : Key × Key) : RangeRequest :=
  if r.isReverse then { r with startKey := shard.2, endKey := shard.1 }
  else { r with startKey := shard.1, endKey := shard.2 }

@[simp] lemma range_applyShard (r : RangeRequest) (shard : Key × Key) :
    (r.applyShard shard).range = shard := by
  unfold applyShard range
  split_ifs <;> simp_all

end RangeRequest

/-! ## Ranges as intervals -/

/-- The key is in the range; an empty end is no bound. -/
def InRange (range : Key × Key) (k : Key) : Prop :=
  range.1 ≤ k ∧ (k < range.2 ∨ range.2.isEmpty = true)

lemma InRange.between {range : Key × Key} {a b c : Key} (ha : InRange range a)
    (hc : InRange range c) (hab : a ≤ b) (hbc : b ≤ c) : InRange range b :=
  ⟨ha.1.trans hab, hc.2.imp_left hbc.trans_lt⟩

variable {region : Region} {k : Key}

lemma Region.contains_iff_inRange :
    region.contains k = true ↔ InRange (region.startKey, region.endKey) k := by
  simp [Region.contains, InRange]

/-- The end of a range; an empty one is no bound. -/
def rangeEnd (k : Key) : WithTop Key := if k.isEmpty then ⊤ else (k : WithTop Key)

def rangeInterval (range : Key × Key) : HalfOpenInterval Key := ⟨range.1, rangeEnd range.2⟩

lemma coe_lt_rangeEnd_iff {e : Key} :
    (k : WithTop Key) < rangeEnd e ↔ k < e ∨ e.isEmpty = true := by
  unfold rangeEnd
  by_cases h : e.isEmpty = true <;> simp [h]

lemma rangeInterval_contains_iff {range : Key × Key} :
    (rangeInterval range).Contains k ↔ InRange range k := by
  rw [HalfOpenInterval.Contains, rangeInterval, coe_lt_rangeEnd_iff, InRange]

lemma Region.interval_eq (r : Region) : r.interval = rangeInterval (r.startKey, r.endKey) := rfl

/-- **The shard of a region is the part of the range in it.** -/
lemma rangeInterval_rangeIntersection (region : Region) (range : Key × Key) :
    rangeInterval (rangeIntersection region range) =
      region.interval.inter (rangeInterval range) := by
  rw [Region.interval_eq]
  unfold rangeInterval HalfOpenInterval.inter rangeIntersection rangeEnd
  by_cases hregion : region.endKey.isEmpty = true
  · simp [hregion]
  · by_cases hrange : range.2.isEmpty = true
    · simp [hregion, hrange]
    · have hmin : (min region.endKey range.2).isEmpty = false := by
        rcases min_choice region.endKey range.2 with h | h <;> simp_all
      simp [hregion, hrange, hmin]

lemma inRange_rangeIntersection_iff {range : Key × Key} :
    InRange (rangeIntersection region range) k ↔ region.contains k = true ∧ InRange range k := by
  rw [← rangeInterval_contains_iff, rangeInterval_rangeIntersection,
    HalfOpenInterval.inter_contains_iff, Region.interval_contains_iff, rangeInterval_contains_iff]

/-! ## Walking over the regions -/

section Walk

variable {endKey : Option Key} {regions : List Region} {k : Key}

/-- The end that `regions_for_range` walks to. -/
def walkEnd (endKey : Option Key) : WithTop Key := rangeEnd (endKey.getD .empty)

lemma walkEnd_le_iff (region : Region) :
    ((endKey.map fun x => decide (x ≤ region.endKey) && !x.isEmpty).getD false ||
        region.endKey.isEmpty) = true ↔ walkEnd endKey ≤ region.interval.upper := by
  rw [Region.interval_eq]
  unfold walkEnd rangeInterval rangeEnd
  cases endKey with
  | none => simp [Key.isEmpty, Key.empty]
  | some x =>
    by_cases h : region.endKey.isEmpty = true
    · simp [h]
    · by_cases hx : x.isEmpty = true <;> simp [h, hx]

variable {C : Call → Prop} {A : Answers}

lemma sat_regionsFrom_regions {G : Region → Prop} (hC : ∀ k, C (.regionForKey k))
    (hG : ∀ k (r : Region), A (.regionForKey k) (.ok r) → G r) (fuel : ℕ) :
    ∀ k, (regionsFrom endKey fuel k).Sat C A fun res => ∀ l, res = .ok l → ∀ r ∈ l, G r := by
  induction fuel with
  | zero => exact fun _ => Prog.sat_stuck
  | succ fuel ih =>
    intro k
    refine Prog.Sat.andThen (Async.sat_regionForKey (hC k)) (fun region hregion => ?_)
      fun _ _ l h => by cases h
    have hhead : G region := hG k region hregion
    split_ifs
    · rintro l h
      cases h
      exact List.forall_mem_singleton.mpr hhead
    · refine Prog.Sat.andThen (ih region.endKey) (fun l hl => ?_) fun _ _ l h => by cases h
      rintro l' h
      cases h
      exact List.forall_mem_cons.mpr ⟨hhead, hl l rfl⟩

/-- **The regions found are a walk** from the key to the end, over any regions that contain the keys
they were looked up for. -/
theorem sat_regionsFrom_walk (hC : ∀ k, C (.regionForKey k))
    (hA : ∀ k (r : Region), A (.regionForKey k) (.ok r) → r.contains k = true) (fuel : ℕ) :
    ∀ k, (regionsFrom endKey fuel k).Sat C A fun res => ∀ l, res = .ok l →
      HalfOpenInterval.Walk Region.interval (walkEnd endKey) k l := by
  induction fuel with
  | zero => exact fun _ => Prog.sat_stuck
  | succ fuel ih =>
    intro k
    refine Prog.Sat.andThen (Async.sat_regionForKey (hC k)) (fun region hregion => ?_)
      fun _ _ l h => by cases h
    have hk := Region.interval_contains_iff.mpr (hA k region hregion)
    split_ifs with hstop
    · rintro l h
      cases h
      exact .last hk ((walkEnd_le_iff region).mp hstop)
    · rw [walkEnd_le_iff, not_le] at hstop
      refine Prog.Sat.andThen (ih region.endKey) (fun l hl => ?_) fun _ _ l h => by cases h
      rintro l' h
      cases h
      have hend : region.interval.upper = region.endKey := by
        rw [Region.interval_eq, rangeInterval, rangeEnd, if_neg]
        intro hempty
        simp [Region.interval_eq, rangeInterval, rangeEnd, hempty] at hstop
      exact .step hk hend (hend ▸ hstop) (hl l rfl)

variable {ans : (c : Call) → c.Ans}

/-- Over a partition the walk comes to an end: every step leaves fewer regions. -/
lemma eval_regionsFrom (endKey : Option Key) (hroutes : Routes ans regions) (fuel : ℕ) :
    ∀ k, later regions k ≤ fuel → ∃ l, (regionsFrom endKey fuel k).eval ans = some (.ok l) ∧
      (∀ r ∈ l, r ∈ regions) ∧ l.length ≤ later regions k := by
  induction fuel with
  | zero =>
    intro k hfuel
    obtain ⟨r, hr, -, hk⟩ := hroutes k
    have hmem : r ∈ regions.filter fun s => s.endKey.isEmpty || k < s.endKey := by
      simp only [Region.contains, Bool.and_eq_true, Bool.or_eq_true] at hk
      simpa [hr, or_comm] using hk.2
    rw [later, Nat.le_zero, List.length_eq_zero_iff] at hfuel
    rw [hfuel] at hmem
    cases hmem
  | succ fuel ih =>
    intro k hfuel
    obtain ⟨r, hr, hans, hk⟩ := hroutes k
    have hlookup : (Async.regionForKey k).eval ans = some (.ok r) := congrArg some hans
    rw [regionsFrom, Prog.eval_andThen_ok hlookup]
    split_ifs with hstop
    · exact ⟨[r], rfl, by simpa using hr, later_pos hr hk⟩
    · have hend : r.endKey.isEmpty = false := by
        simp only [Bool.or_eq_true, not_or, Bool.not_eq_true] at hstop
        exact hstop.2
      have hlt := later_lt hr hk hend
      obtain ⟨l, hl, hmem, hlength⟩ := ih r.endKey (by omega)
      exact ⟨r :: l, by rw [Prog.eval_andThen_ok hl]; rfl, by simpa using ⟨hr, hmem⟩,
        Nat.lt_of_le_of_lt hlength hlt⟩

/-- **Over a partition, the walk** visits regions of the partition, to the end. -/
lemma exists_walk (endKey : Option Key) (hroutes : Routes ans regions) {fuel : ℕ}
    (hfuel : regions.length ≤ fuel) (k : Key) :
    ∃ l, (regionsFrom endKey fuel k).eval ans = some (.ok l) ∧ (∀ r ∈ l, r ∈ regions) ∧
      HalfOpenInterval.Walk Region.interval (walkEnd endKey) k l := by
  obtain ⟨l, hl, hmem, -⟩ := eval_regionsFrom endKey hroutes fuel k
    ((later_le regions k).trans hfuel)
  obtain ⟨tr, hret, hans⟩ := Prog.exists_returns_of_eval hl
  refine ⟨l, hl, hmem, ?_⟩
  refine (sat_regionsFrom_walk (C := fun _ => True) (A := fun c x => x = ans c) (fun _ => trivial)
    (fun k r hr => ?_) fuel k).of_returns hret hans l rfl
  obtain ⟨r', -, hans', hk⟩ := hroutes k
  rw [hans'] at hr
  cases hr
  exact hk

end Walk

/-! ## The shards of a range -/

/-- **The shards partition the range**: in key order they are non-empty and disjoint, each lies in
its region, and together they are the range. -/
structure PartitionsRange (range : Key × Key) (shards : List ((Key × Key) × Region)) : Prop where
  nonempty : ∀ s ∈ shards, ∃ k, InRange s.1 k
  ordered : shards.Pairwise fun s s' => ∀ k k', InRange s.1 k → InRange s'.1 k' → k < k'
  inRegion : ∀ s ∈ shards, ∀ k, InRange s.1 k → s.2.contains k = true
  union : ∀ k, InRange range k ↔ ∃ s ∈ shards, InRange s.1 k

section Shards

variable {range : Key × Key} {l : List Region}

lemma union_of_walk (hwalk : HalfOpenInterval.Walk Region.interval (rangeEnd range.2) range.1 l)
    (k : Key) : InRange range k ↔ ∃ region ∈ l, InRange (rangeIntersection region range) k := by
  constructor
  · intro hk
    have hk' := rangeInterval_contains_iff.mpr hk
    obtain ⟨region, hregion, hin⟩ := hwalk.exists_contains hk'.1 hk'.2
    exact ⟨region, hregion,
      inRange_rangeIntersection_iff.mpr ⟨Region.interval_contains_iff.mp hin, hk⟩⟩
  · rintro ⟨region, -, hk⟩
    exact (inRange_rangeIntersection_iff.mp hk).2

/-- The shards of a walk over disjoint regions partition the range. -/
lemma partitionsRange_of_walk (hrange : range.1 < range.2 ∨ range.2.isEmpty = true)
    (hwalk : HalfOpenInterval.Walk Region.interval (rangeEnd range.2) range.1 l)
    (hdisjoint : ∀ r ∈ l, ∀ s ∈ l, r = s ∨ ¬ r.Overlaps s) :
    PartitionsRange range (l.map fun region => (rangeIntersection region range, region)) where
  nonempty := by
    simp only [List.forall_mem_map]
    intro region hregion
    obtain ⟨k, hlower, hupper, hin⟩ :=
      hwalk.exists_between (coe_lt_rangeEnd_iff.mpr hrange) hregion
    exact ⟨k, inRange_rangeIntersection_iff.mpr ⟨Region.interval_contains_iff.mp hin,
      rangeInterval_contains_iff.mp ⟨hlower, hupper⟩⟩⟩
  ordered := by
    rw [List.pairwise_map]
    have hpairwise := hwalk.pairwise fun r hr s hs => by
      simpa only [Region.interval_overlaps_iff] using hdisjoint r hr s hs
    refine hpairwise.imp fun {r s} hrs k k' hk hk' => ?_
    have hkr := Region.interval_contains_iff.mpr (inRange_rangeIntersection_iff.mp hk).1
    have hks := Region.interval_contains_iff.mpr (inRange_rangeIntersection_iff.mp hk').1
    exact WithTop.coe_lt_coe.mp
      (hkr.2.trans_le (hrs.trans (WithTop.coe_le_coe.mpr hks.1)))
  inRegion := by
    simp only [List.forall_mem_map]
    exact fun region _ k hk => (inRange_rangeIntersection_iff.mp hk).1
  union k := by
    rw [union_of_walk hwalk]
    simp

/-- The keys that `region_stream_for_range` walks between. -/
lemma intoKeys_bndRange (range : Key × Key) :
    (if range.2.isEmpty then BoundRange.rangeFrom range.1 else .ofKeys range).intoKeys =
      (range.1, if range.2.isEmpty then none else some range.2) := by
  split_ifs
  · rfl
  · exact BoundRange.intoKeys_ofKeys range

lemma walkEnd_bndRange (range : Key × Key) :
    walkEnd (if range.2.isEmpty then none else some range.2) = rangeEnd range.2 := by
  unfold walkEnd
  split_ifs with h
  · rw [rangeEnd, rangeEnd, if_pos h]
    rfl
  · rfl

variable {C : Call → Prop} {A : Answers} {fuel : ℕ}

/-- The shards are at regions that lookups have answered. -/
lemma sat_regionStreamForRange_regions {G : Region → Prop} (hC : ∀ k, C (.regionForKey k))
    (hG : ∀ k (r : Region), A (.regionForKey k) (.ok r) → G r) (fuel : ℕ) (range : Key × Key) :
    (regionStreamForRange fuel range).Sat C A fun res => ∀ shards, res = .ok shards →
      ∀ s ∈ shards, G s.2 := by
  refine Prog.Sat.andThen (sat_regionsFrom_regions hC hG fuel _) (fun l hl => ?_)
    fun _ _ l h => by cases h
  rintro shards h
  cases h
  rw [List.forall_mem_map]
  exact hl l rfl

/-- **The shards cover the range**, over any regions that contain the keys they were looked up for;
each of them is the part of the range in its region. -/
theorem sat_regionStreamForRange (hC : ∀ k, C (.regionForKey k))
    (hA : ∀ k (r : Region), A (.regionForKey k) (.ok r) → r.contains k = true) (fuel : ℕ)
    (range : Key × Key) :
    (regionStreamForRange fuel range).Sat C A fun res => ∀ shards, res = .ok shards →
      (∀ s ∈ shards, ∀ k, InRange s.1 k ↔ s.2.contains k = true ∧ InRange range k) ∧
        ∀ k, InRange range k → ∃ s ∈ shards, InRange s.1 k := by
  rw [regionStreamForRange, regionsForRange, intoKeys_bndRange]
  refine Prog.Sat.andThen (sat_regionsFrom_walk hC hA fuel range.1) (fun l hl => ?_)
    fun _ _ l h => by cases h
  have hwalk := hl l rfl
  rw [walkEnd_bndRange] at hwalk
  rintro shards h
  cases h
  refine ⟨?_, fun k hk => ?_⟩
  · simp only [List.forall_mem_map]
    exact fun region _ k => inRange_rangeIntersection_iff
  · obtain ⟨region, hregion, hin⟩ := (union_of_walk hwalk k).mp hk
    exact ⟨_, List.mem_map_of_mem hregion, hin⟩

variable {regions : List Region} {ans : (c : Call) → c.Ans}

lemma eval_regionStreamForRange (hroutes : Routes ans regions) (range : Key × Key)
    (hfuel : regions.length ≤ fuel) :
    ∃ shards, (regionStreamForRange fuel range).eval ans = some (.ok shards) ∧
      (∀ s ∈ shards, s.2 ∈ regions) ∧ shards.length ≤ regions.length := by
  obtain ⟨l, hl, hmem, hlength⟩ :=
    eval_regionsFrom (if range.2.isEmpty then none else some range.2) hroutes fuel range.1
      ((later_le regions range.1).trans hfuel)
  refine ⟨l.map fun region => (rangeIntersection region range, region), ?_, by simpa using hmem,
    by simpa using hlength.trans (later_le regions range.1)⟩
  rw [regionStreamForRange, regionsForRange, intoKeys_bndRange, Prog.eval_andThen_ok hl]
  rfl

/-- Sharding over a partition. -/
lemma exists_shards (hregions : IsPartition regions) (hroutes : Routes ans regions)
    (r : RangeRequest) (hrange : r.range.1 < r.range.2 ∨ r.range.2.isEmpty = true)
    (hfuel : regions.length ≤ fuel) :
    ∃ shards, (r.shards fuel).eval ans = some (.ok shards) ∧ PartitionsRange r.range shards ∧
      ∀ s ∈ shards, s.2 ∈ regions := by
  obtain ⟨l, hl, hmem, hwalk⟩ :=
    exists_walk (if r.range.2.isEmpty then none else some r.range.2) hroutes hfuel r.range.1
  rw [walkEnd_bndRange] at hwalk
  refine ⟨_, ?_, partitionsRange_of_walk hrange hwalk fun r hr s hs =>
    hregions.eq_or_not_overlaps (hmem r hr) (hmem s hs), by simpa using hmem⟩
  rw [RangeRequest.shards, regionStreamForRange, regionsForRange, intoKeys_bndRange,
    Prog.eval_andThen_ok hl]
  rfl

/-- **Range requests are partitioned by region**, forward and in reverse: over a partition of the
key space the shards of a request partition its range, along regions of the partition; and a shard
that is put into the request is partitioned when the request is sharded again, over a finer
partition or any other. -/
theorem shards_partition (hregions : IsPartition regions) (hroutes : Routes ans regions)
    (r : RangeRequest) (hrange : r.range.1 < r.range.2 ∨ r.range.2.isEmpty = true) {fuel : ℕ}
    (hfuel : regions.length ≤ fuel) :
    ∃ shards, (r.shards fuel).eval ans = some (.ok shards) ∧ PartitionsRange r.range shards ∧
      (∀ s ∈ shards, s.2 ∈ regions) ∧
      ∀ s ∈ shards, ∀ (regions' : List Region) (ans' : (c : Call) → c.Ans) (fuel' : ℕ),
        IsPartition regions' → Routes ans' regions' → regions'.length ≤ fuel' →
        (r.applyShard s.1).isReverse = r.isReverse ∧
        ∃ shards', ((r.applyShard s.1).shards fuel').eval ans' = some (.ok shards') ∧
          PartitionsRange s.1 shards' ∧ ∀ s' ∈ shards', s'.2 ∈ regions' := by
  obtain ⟨shards, heval, hshards, hmem⟩ := exists_shards hregions hroutes r hrange hfuel
  refine ⟨shards, heval, hshards, hmem,
    fun s hs regions' ans' fuel' hregions' hroutes' hfuel' => ?_⟩
  have hproper : s.1.1 < s.1.2 ∨ s.1.2.isEmpty = true := by
    obtain ⟨k, hlower, hupper⟩ := hshards.nonempty s hs
    exact hupper.imp_left hlower.trans_lt
  have hagain := exists_shards hregions' hroutes' (r.applyShard s.1) (by simpa using hproper) hfuel'
  rw [RangeRequest.range_applyShard] at hagain
  exact ⟨by unfold RangeRequest.applyShard; split_ifs <;> rfl, hagain⟩

/-- Two regions, split at a key that ends with a zero byte. -/
def twoRegions : List Region :=
  [⟨⟨1, 1, 1⟩, .empty, ⟨[5, 0]⟩, some 1⟩, ⟨⟨2, 1, 1⟩, ⟨[5, 0]⟩, .empty, some 1⟩]

lemma isPartition_twoRegions : IsPartition twoRegions where
  wellFormed := by simp [twoRegions, Region.WellFormed]; decide
  disjoint := by
    refine List.pairwise_pair.mpr ?_
    rintro ⟨k, hk, hk'⟩
    simp only [Region.contains, Bool.and_eq_true, Bool.or_eq_true, decide_eq_true_eq] at hk hk'
    exact absurd (hk.2.resolve_right (by decide)) (not_lt.mpr hk'.1)
  covers k := by
    rcases lt_or_ge k ⟨[5, 0]⟩ with hk | hk
    · exact ⟨_, List.mem_cons_self, by simp [Region.contains, hk, Key.empty_le]⟩
    · exact ⟨_, List.mem_cons_of_mem _ List.mem_cons_self,
        by simp [Region.contains, hk, Key.isEmpty, Key.empty]⟩

/-- A reverse request that crosses from one region to the other. -/
theorem reverse_shards_partition :
    ∃ shards, (RangeRequest.shards ⟨⟨[9]⟩, ⟨[1, 0]⟩, true⟩ 2).eval
        (fixedCluster twoRegions fun _ _ => .error (.internalError "")) = some (.ok shards) ∧
      PartitionsRange (⟨[1, 0]⟩, ⟨[9]⟩) shards := by
  obtain ⟨shards, heval, hshards, -⟩ := shards_partition isPartition_twoRegions
    (routes_fixedCluster isPartition_twoRegions fun _ _ => .error (.internalError ""))
    ⟨⟨[9]⟩, ⟨[1, 0]⟩, true⟩ (.inl (by decide)) (show twoRegions.length ≤ 2 from le_rfl)
  exact ⟨shards, heval, hshards⟩

end Shards

end TikvClient
