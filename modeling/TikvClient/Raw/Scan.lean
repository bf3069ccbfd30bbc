import TikvClient.Raw.Store

/-!
# Raw scans

`RawClient::scan` against a cluster whose regions answer with the first pairs of what they are asked
for, at least up to the limit.

**First pairs.**  `scansFirst_iff`: when exactly a scan returns the first pairs of its range.  No
region may answer with more pairs than it is asked for, or the subtraction from the limit overflows;
and the walk must end in time.  It ends with the limit, or when a region ends at or behind the range
— which the last region never does: if the limit is not reached there, the walk starts again at the
first region.  It then returns pairs twice (`scan_returns_pair_twice`), and never ends if there are
none.  A range without an end, in a client without a keyspace, is left after its first region.
-/

namespace TikvClient

open Proto

/-! ## The first pairs of a range -/

/-- **Regions that answer scans with the first pairs**, at least as many as asked for, if there are.
A message holds fewer pairs than a `u32` counts. -/
structure FirstPairs {keyspace : Keyspace} (cluster : RawCluster keyspace) where
  answer : Region → RawScanRequest → List KvPair
  first : ∀ region request, ∃ n, request.limit ≤ n ∧ answer region request =
    (cluster.contents.inRegion region (request.startKey, request.endKey)).take n
  fits : ∀ region request, (answer region request).length < 2 ^ 32

/-- **The scan returns the first pairs of the range**, up to the limit. -/
def ScansFirst (client : RawClient) (cluster : RawCluster client.keyspace)
    (service : FirstPairs cluster) (range : BoundRange) (limit : ℕ) : Prop :=
  ∃ l, cluster.contents.IsUserPairs range l ∧
    ∃ fuel, (client.scan fuel range limit).eval (cluster.answers service.answer) =
      some (.ok (l.take limit))

namespace RawCluster

variable {keyspace : Keyspace} (cluster : RawCluster keyspace)

/-- No region that the walk from `k` comes to answers with more pairs than it is asked for: those
are the region of `k` and the ones that begin behind `k` and before `e`, up to the limit. -/
def NoOvershoot (answer : Region → Key → ℕ → List KvPair) (e k : Key) (limit : ℕ) : Prop :=
  ∀ region ∈ cluster.regions,
    (region.contains k = true ∨ k < region.startKey ∧ region.startKey < e) →
    cluster.contents.between k region.startKey < limit →
      (answer region (max k region.startKey)
        (limit - cluster.contents.between k region.startKey)).length ≤
        limit - cluster.contents.between k region.startKey

/-- The pairs wanted are all in the region where the range begins. -/
def FirstRegionSuffices (s e : Key) (limit : ℕ) : Prop :=
  limit ≤ (cluster.contents.inRegion (cluster.regionOf s) (s, e)).length ∨
    ∀ p ∈ cluster.contents.inRange (s, e), (cluster.regionOf s).contains p.key = true

/-! ## Counting -/

variable {cluster} {e k : Key} {limit fuel : ℕ} {result x : List KvPair}

lemma between_eq_zero {b : Key} (h : b ≤ k) : cluster.contents.between k b = 0 := by
  rw [RawContents.between, List.length_eq_zero_iff, List.filter_eq_nil_iff]
  intro p _
  simp only [Bool.and_eq_true, decide_eq_true_eq, not_and, not_lt]
  exact fun hk => h.trans hk

/-- The pairs before a region behind the one of the key. -/
lemma between_eq_add (hend : (cluster.regionOf k).endKey.isEmpty = false)
    (hstop : (cluster.regionOf k).endKey < e) {b : Key} (hb : (cluster.regionOf k).endKey ≤ b) :
    cluster.contents.between k b =
      (cluster.contents.inRegion (cluster.regionOf k) (k, e)).length +
        cluster.contents.between (cluster.regionOf k).endKey b := by
  have hlt := lt_endKey (cluster.regionOf_contains k) hend
  have hbetween : ∀ j, cluster.contents.between j b = (cluster.contents.inRange (j, b)).length :=
    fun j => by simp [RawContents.between, RawContents.inRange, InRange,
      Key.isEmpty_eq_false_of_lt (hlt.trans_le hb)]
  have hregion : cluster.contents.inRegion (cluster.regionOf k) (k, e) =
      cluster.contents.inRegion (cluster.regionOf k) (k, b) := by
    refine List.filter_congr fun p _ => Bool.eq_iff_iff.mpr ?_
    simp only [Bool.and_eq_true, decide_eq_true_eq]
    refine and_congr_right fun hcontains => and_congr_right fun _ => ?_
    have hbefore := lt_endKey hcontains hend
    exact iff_of_true (.inl (hbefore.trans hstop)) (.inl (hbefore.trans_le hb))
  rw [hbetween, hbetween, hregion, inRange_eq_append k b hend, List.length_append]

/-- The regions that follow the one of the key. -/
lemma visited_iff (hend : (cluster.regionOf k).endKey.isEmpty = false)
    (hstop : (cluster.regionOf k).endKey < e) {region : Region} (h : region ∈ cluster.regions) :
    k < region.startKey ∧ region.startKey < e ↔
      region.contains (cluster.regionOf k).endKey = true ∨
        (cluster.regionOf k).endKey < region.startKey ∧ region.startKey < e := by
  have hlt := lt_endKey (cluster.regionOf_contains k) hend
  constructor
  · rintro ⟨hk, he⟩
    rcases (endKey_le_startKey h hk).1.eq_or_lt with heq | hbehind
    · rw [heq]
      exact .inl (contains_startKey h)
    · exact .inr ⟨hbehind, he⟩
  · rintro (hcontains | ⟨hbehind, he⟩)
    · have hstart := startKey_regionOf_endKey (cluster.regionOf_mem k) hend
      rw [regionOf_eq h hcontains] at hstart
      rw [hstart]
      exact ⟨hlt, hstop⟩
    · exact ⟨hlt.trans hbehind, he⟩

variable {answer : Region → Key → ℕ → List KvPair}

lemma NoOvershoot.head (h : cluster.NoOvershoot answer e k limit) (hlimit : 0 < limit) :
    (answer (cluster.regionOf k) k limit).length ≤ limit := by
  have hk := cluster.regionOf_contains k
  have hzero : cluster.contents.between k (cluster.regionOf k).startKey = 0 :=
    between_eq_zero (startKey_le hk)
  have hle := h _ (cluster.regionOf_mem k) (.inl hk) (by omega)
  rwa [hzero, max_eq_left (startKey_le hk), Nat.sub_zero] at hle

/-- **Overshooting, region by region.** -/
lemma noOvershoot_iff (hend : (cluster.regionOf k).endKey.isEmpty = false)
    (hstop : (cluster.regionOf k).endKey < e)
    (hlt : (cluster.contents.inRegion (cluster.regionOf k) (k, e)).length < limit) :
    cluster.NoOvershoot answer e k limit ↔
      (answer (cluster.regionOf k) k limit).length ≤ limit ∧
        cluster.NoOvershoot answer e (cluster.regionOf k).endKey
          (limit - (cluster.contents.inRegion (cluster.regionOf k) (k, e)).length) := by
  have hk := cluster.regionOf_contains k
  have hkend := lt_endKey hk hend
  -- The same regions follow, they are asked for the same, and from their start.
  have hsame : ∀ region ∈ cluster.regions, k < region.startKey ∧ region.startKey < e →
      max k region.startKey = max (cluster.regionOf k).endKey region.startKey ∧
        cluster.contents.between k region.startKey =
          (cluster.contents.inRegion (cluster.regionOf k) (k, e)).length +
            cluster.contents.between (cluster.regionOf k).endKey region.startKey := by
    intro region hregion hvisited
    have hle := (endKey_le_startKey hregion hvisited.1).1
    rw [max_eq_right hvisited.1.le, max_eq_right hle]
    exact ⟨rfl, between_eq_add hend hstop hle⟩
  constructor
  · intro h
    refine ⟨h.head (by omega), fun region hregion hvisited hbetween => ?_⟩
    have hvisited' := (visited_iff hend hstop hregion).mpr hvisited
    obtain ⟨hmax, hcount⟩ := hsame region hregion hvisited'
    have hle := h region hregion (.inr hvisited') (by omega)
    rwa [hmax, hcount, ← Nat.sub_sub] at hle
  · rintro ⟨hhead, hrest⟩ region hregion hvisited hbetween
    rcases hvisited with hcontains | hvisited
    · rw [← regionOf_eq hregion hcontains, between_eq_zero (startKey_le hk),
        max_eq_left (startKey_le hk)]
      exact hhead
    · obtain ⟨hmax, hcount⟩ := hsame region hregion hvisited
      have hle := hrest region hregion ((visited_iff hend hstop hregion).mp hvisited) (by omega)
      rwa [hmax, hcount, ← Nat.sub_sub]

/-! ## The walk -/

section Walk

variable (hfirst : ∀ region k limit, ∃ n, limit ≤ n ∧
  answer region k limit = (cluster.contents.inRegion region (k, e)).take n)
include hfirst

lemma answer_eq_take {region : Region} (hle : (answer region k limit).length ≤ limit) :
    answer region k limit = (cluster.contents.inRegion region (k, e)).take limit := by
  obtain ⟨n, hn, heq⟩ := hfirst region k limit
  rw [heq] at hle ⊢
  rw [List.length_take] at hle
  rcases le_or_gt (cluster.contents.inRegion region (k, e)).length limit with hall | hmore
  · rw [List.take_of_length_le (hall.trans hn), List.take_of_length_le hall]
  · rw [show n = limit by omega]

/-- **A walk on which a region answers with too much does not succeed.** -/
theorem scanOutcome_overshoot (hover : ¬ cluster.NoOvershoot answer e k limit) :
    cluster.scanOutcome answer e fuel k limit result ≠ some (.ok x) := by
  induction fuel generalizing k limit result with
  | zero => exact fun h => by cases h
  | succ fuel ih =>
    intro h
    -- The region that answers with too much is not the one of the key.
    simp only [NoOvershoot, not_forall, not_le] at hover
    obtain ⟨region, hregion, hvisited, hbetween, htoo⟩ := hover
    rcases scanOutcome_cases h with ⟨rfl, -⟩ | ⟨hlimit, hle, hrest⟩
    · exact absurd hbetween (Nat.not_lt_zero _)
    rcases hvisited with hcontains | hvisited
    · rw [← regionOf_eq hregion hcontains,
        between_eq_zero (startKey_le (cluster.regionOf_contains k)), Nat.sub_zero,
        max_eq_left (startKey_le (cluster.regionOf_contains k))] at htoo
      omega
    obtain ⟨hbehind, hend⟩ := endKey_le_startKey hregion hvisited.1
    have hstop := hbehind.trans_lt hvisited.2
    rcases hrest with ⟨hstopped, -⟩ | ⟨-, hrest⟩
    · exact absurd hstop hstopped.not_gt
    have hmore : (cluster.contents.inRegion (cluster.regionOf k) (k, e)).length < limit := by
      rw [between_eq_add hend hstop hbehind] at hbetween
      omega
    rw [answer_eq_take hfirst hle, List.take_of_length_le hmore.le] at hrest
    refine ih (fun hnext => ?_) hrest
    have hall := (noOvershoot_iff hend hstop hmore).mpr ⟨hle, hnext⟩
    exact absurd (hall region hregion (.inr hvisited) hbetween) (not_le.mpr htoo)

lemma answersFrom_first : cluster.AnswersFrom answer e where
  mem {region k limit q} hq := by
    obtain ⟨n, -, heq⟩ := hfirst region k limit
    rw [heq] at hq
    exact List.mem_of_mem_take hq
  ne_nil {region k limit} hlimit hne := by
    obtain ⟨n, hn, heq⟩ := hfirst region k limit
    rw [heq, ne_eq, List.take_eq_nil_iff]
    rintro (rfl | hnil)
    · omega
    · exact hne hnil

lemma noOvershoot_of_nil (h : ∀ j, cluster.contents.inRange (j, e) = []) :
    cluster.NoOvershoot answer e k limit := by
  have hnil : ∀ region j n, answer region j n = [] := by
    intro region j n
    rw [List.eq_nil_iff_forall_not_mem]
    intro q hq
    have hin := (mem_inRegion_iff.mp ((answersFrom_first hfirst).mem hq)).1
    rw [h j] at hin
    cases hin
  intro region _ _ _
  rw [hnil, List.length_nil]
  exact Nat.zero_le _

lemma wanted_first (he : e.isEmpty = false) :
    cluster.Wanted answer e (fun k limit => (cluster.contents.inRange (k, e)).take limit)
      (cluster.NoOvershoot answer e) where
  length k limit hlimit hover := by
    rw [answer_eq_take hfirst (hover.head hlimit), List.length_take]
  here k limit hlimit hover hhere := by
    rw [answer_eq_take hfirst (hover.head hlimit)]
    rcases hhere with hstop | hreached
    · rw [inRange_eq_inRegion k e (.inr ⟨he, hstop⟩)]
    · obtain ⟨rest, hpairs⟩ := cluster.inRegion_isPrefix k e
      rw [← hpairs, List.take_append_of_le_length hreached]
  next k limit hover hend hstop hmore := by
    refine ⟨?_, ((noOvershoot_iff hend (not_le.mp hstop) hmore).mp hover).2⟩
    rw [answer_eq_take hfirst (hover.head (by omega)), inRange_eq_append k e hend, List.take_append]
  none hnil k limit := ⟨noOvershoot_of_nil hfirst hnil, by rw [hnil, List.take_nil]⟩

/-- **The walk over a range with an end key**: when exactly it finds the first pairs. -/
theorem scanOutcome_first_iff (he : e.isEmpty = false) (hlimit : 0 < limit) (f : KvPair → KvPair) :
    (∃ fuel x, cluster.scanOutcome answer e fuel k limit [] = some (.ok x) ∧
        ((cluster.contents.inRange (k, e)).take limit).map f = (x.take limit).map f) ↔
      cluster.NoOvershoot answer e k limit ∧ cluster.WalkEnds k e limit := by
  constructor
  · rintro ⟨fuel, x, h, heq⟩
    constructor
    · by_contra hover
      exact scanOutcome_overshoot hfirst hover h
    · have hlen := congrArg List.length heq
      rw [List.length_map, List.length_map, List.length_take, List.length_take] at hlen
      exact walkEnds_of_scanOutcome (answersFrom_first hfirst) he hlimit h hlen.symm
  · rintro ⟨hover, hends⟩
    obtain ⟨fuel, h⟩ := (wanted_first hfirst he).exists_scanOutcome
      (answersFrom_first hfirst) he hlimit hover hends
    exact ⟨fuel, _, h, by rw [List.take_take, min_self]⟩

/-- **The walk over a range without an end key** is over after its first region. -/
theorem scanOutcome_unbounded_iff (he : e.isEmpty = true) (hlimit : 0 < limit)
    (f : KvPair → KvPair) :
    (∃ fuel x, cluster.scanOutcome answer e fuel k limit [] = some (.ok x) ∧
        ((cluster.contents.inRange (k, e)).take limit).map f = (x.take limit).map f) ↔
      cluster.NoOvershoot answer e k limit ∧ cluster.FirstRegionSuffices k e limit := by
  have hstop : e ≤ (cluster.regionOf k).endKey := by
    by_contra hlt
    rw [Key.isEmpty_eq_false_of_lt (not_le.mp hlt)] at he
    cases he
  obtain ⟨rest, hpairs⟩ := cluster.inRegion_isPrefix k e
  constructor
  · rintro ⟨fuel, x, h, heq⟩
    have hover : cluster.NoOvershoot answer e k limit := by
      by_contra hover
      exact scanOutcome_overshoot hfirst hover h
    refine ⟨hover, or_iff_not_imp_left.mpr fun hmore p hp => ?_⟩
    have hle := hover.head hlimit
    cases fuel with
    | zero => cases h
    | succ fuel =>
      rw [scanOutcome_step hlimit hle, if_pos hstop, List.nil_append,
        answer_eq_take hfirst hle] at h
      cases h
      -- The walk has found no more than the pairs of the region, so there are no others.
      have hlen := congrArg List.length heq
      rw [List.length_map, List.length_map, List.take_take, List.length_take, List.length_take,
        ← hpairs, List.length_append] at hlen
      obtain rfl : rest = [] := List.length_eq_zero_iff.mp (by omega)
      rw [← hpairs, List.append_nil] at hp
      exact (mem_inRegion_iff.mp hp).2
  · rintro ⟨hover, hsuffices⟩
    have hle := hover.head hlimit
    refine ⟨1, _, by rw [scanOutcome_step hlimit hle, if_pos hstop], ?_⟩
    rw [List.nil_append, answer_eq_take hfirst hle, List.take_take, min_self]
    rcases hsuffices with hreached | hall
    · rw [← hpairs, List.take_append_of_le_length hreached]
    · rw [inRange_eq_inRegion_of_contains hall]

end Walk

end RawCluster

/-! ## Scans -/

/-- Regions that answer with exactly as many pairs as asked for. -/
def FirstPairs.exact {keyspace : Keyspace} (cluster : RawCluster keyspace)
    (h : cluster.contents.pairs.length < 2 ^ 32) : FirstPairs cluster where
  answer region request :=
    (cluster.contents.inRegion region (request.startKey, request.endKey)).take request.limit
  first _ request := ⟨request.limit, le_rfl, rfl⟩
  fits _ _ := (List.length_take_le' _ _).trans_lt ((List.length_filter_le _ _).trans_lt h)

/-- What the regions answer in a scan up to `e`. -/
def FirstPairs.scanned {client : RawClient} {cluster : RawCluster client.keyspace}
    (service : FirstPairs cluster) (e : Key) (region : Region) (k : Key) (limit : ℕ) :
    List KvPair :=
  service.answer region (client.scanRequest e false k limit)

section Scans

variable (client : RawClient) (cluster : RawCluster client.keyspace) (service : FirstPairs cluster)
  (range : BoundRange) (limit : ℕ)

/-- **When a scan works**: nothing is asked for, or no region answers with too much and the walk
over the encoded range is in time. -/
def ScanInTime : Prop :=
  limit = 0 ∨
    cluster.NoOvershoot (service.scanned (client.encoded range).requestRange.2)
        (client.encoded range).requestRange.2 (client.encoded range).requestRange.1 limit ∧
      if (client.encoded range).requestRange.2.isEmpty then
        cluster.FirstRegionSuffices (client.encoded range).requestRange.1
          (client.encoded range).requestRange.2 limit
      else
        cluster.WalkEnds (client.encoded range).requestRange.1
          (client.encoded range).requestRange.2 limit

lemma scanned_first (e : Key) (region : Region) (k : Key) (limit : ℕ) :
    ∃ n, limit ≤ n ∧
      service.scanned e region k limit = (cluster.contents.inRegion region (k, e)).take n := by
  have heq : client.scanRequest e false k limit =
      ⟨k, e, limit, false, false, maybeSetCf client.cf⟩ := client.scanRequest_eq e false k limit
  rw [FirstPairs.scanned, heq]
  exact service.first region ⟨k, e, limit, false, false, maybeSetCf client.cf⟩

/-- A scan returns the first pairs if its walk finds them. -/
lemma scansFirst_iff_scanOutcome (h : limit ≤ maxRawKvScanLimit) :
    ScansFirst client cluster service range limit ↔
      ∃ fuel x, cluster.scanOutcome (service.scanned (client.encoded range).requestRange.2)
          (client.encoded range).requestRange.2 fuel (client.encoded range).requestRange.1 limit
          [] = some (.ok x) ∧
        ((cluster.contents.inRange (client.encoded range).requestRange).take limit).map
          (RawClient.truncatePair client.keyspace) =
            (x.take limit).map (RawClient.truncatePair client.keyspace) :=
  RawCluster.exists_eval_userPairs_iff client cluster service.answer range
    (fun region request _ => service.fits region request) h false (fun l => l.take limit)
    fun _ => List.map_take.symm

/-- **A scan returns the first pairs of its range exactly if it is in time.** -/
theorem scansFirst_iff (h : limit ≤ maxRawKvScanLimit) :
    ScansFirst client cluster service range limit ↔
      ScanInTime client cluster service range limit := by
  rw [scansFirst_iff_scanOutcome client cluster service range limit h, ScanInTime]
  rcases Nat.eq_zero_or_pos limit with rfl | hlimit
  · exact iff_of_true ⟨1, [], RawCluster.scanOutcome_zero_limit 0, rfl⟩ (.inl rfl)
  rw [or_iff_right hlimit.ne']
  have hfirst := scanned_first client cluster service (client.encoded range).requestRange.2
  cases he : (client.encoded range).requestRange.2.isEmpty with
  | true => exact RawCluster.scanOutcome_unbounded_iff hfirst he hlimit _
  | false => exact RawCluster.scanOutcome_first_iff hfirst he hlimit _

end Scans

/-! ## A scan in two regions -/

/-- A client without a keyspace. -/
def plainClient : RawClient := ⟨none, .defaultRegionBackoff, false, .disable⟩

/-- A pair in each of two regions. -/
def twoPairs : RawCluster plainClient.keyspace where
  regions := twoRegions
  partition := isPartition_twoRegions
  ids := by decide
  contents := ⟨[⟨⟨[1]⟩, [10]⟩, ⟨⟨[9]⟩, [90]⟩], by decide, fun _ _ => trivial⟩

/-- The two pairs, if no more are asked for. -/
theorem scan_of_two_pairs :
    ScansFirst plainClient twoPairs (.exact twoPairs (by decide))
      ⟨.included ⟨[1]⟩, .excluded ⟨[9, 1]⟩⟩ 2 := by
  refine (scansFirst_iff _ _ _ _ _ (by decide)).mpr (.inr ⟨?_, .inl (by decide)⟩)
  intro region _ _ _
  exact List.length_take_le _ _

/-- **A pair is returned twice.**  The last region does not end the walk, and the first is asked
again. -/
theorem scan_returns_pair_twice :
    (plainClient.scan 4 ⟨.included ⟨[1]⟩, .excluded ⟨[9, 1]⟩⟩ 3).eval
        (twoPairs.answers (FirstPairs.exact twoPairs (by decide)).answer) =
      some (.ok [⟨⟨[1]⟩, [10]⟩, ⟨⟨[9]⟩, [90]⟩, ⟨⟨[1]⟩, [10]⟩]) ∧
      ¬ ScansFirst plainClient twoPairs (.exact twoPairs (by decide))
        ⟨.included ⟨[1]⟩, .excluded ⟨[9, 1]⟩⟩ 3 := by
  constructor
  · rfl
  · intro h
    obtain ⟨fuel, x, hx, heq⟩ := (scansFirst_iff_scanOutcome _ _ _ _ _ (by decide)).mp h
    have hlen := RawCluster.length_of_scanOutcome (by decide) hx
    have hpairs := congrArg List.length heq
    rw [List.length_map, List.length_map, List.length_take, List.length_take, hlen] at hpairs
    exact absurd hpairs (by decide)

end TikvClient
