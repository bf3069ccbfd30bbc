import TikvClient.Raw.Scan

/-!
# Reverse raw scans

`RawClient::scan_reverse` against a cluster whose regions answer with the last pairs of what they
are asked for, the greatest first.

**Last pairs.**  The request has its keys exchanged, but the walk is that of a scan: it starts in
the region of the lower bound and goes up.  So the pairs of a lower region come before those of a
higher one, and if the limit is reached they are the only ones.  `scansLast_iff`: the last pairs are
returned exactly if all pairs of the range are in one region, and the walk ends in time.
-/

namespace TikvClient

open Proto

namespace RawCluster

variable {keyspace : Keyspace} (cluster : RawCluster keyspace)

/-- **Regions that answer reverse scans with the last pairs**, down from the start key of the
request, up to its limit. -/
def lastPairs (region : Region) (request : RawScanRequest) : List KvPair :=
  (cluster.contents.inRegion region (request.endKey, request.startKey)).reverse.take request.limit

/-- All pairs of the range are in one region. -/
def InOneRegion (s e : Key) : Prop :=
  ∃ region ∈ cluster.regions, ∀ p ∈ cluster.contents.inRange (s, e), region.contains p.key = true

end RawCluster

/-- **The reverse scan returns the last pairs of the range**, up to the limit, the greatest first.
-/
def ScansLast (client : RawClient) (cluster : RawCluster client.keyspace) (range : BoundRange)
    (limit : ℕ) : Prop :=
  ∃ l, cluster.contents.IsUserPairs range l ∧
    ∃ fuel, (client.scanReverse fuel range limit).eval (cluster.answers cluster.lastPairs) =
      some (.ok (l.reverse.take limit))

/-! ## The walk -/

namespace RawCluster

variable {keyspace : Keyspace} {cluster : RawCluster keyspace} {e k : Key} {limit : ℕ}

/-- If the region of the key has a pair of the range, it is the one that has all. -/
lemma InOneRegion.inRange_eq (h : cluster.InOneRegion k e)
    (hne : cluster.contents.inRegion (cluster.regionOf k) (k, e) ≠ []) :
    cluster.contents.inRange (k, e) = cluster.contents.inRegion (cluster.regionOf k) (k, e) := by
  obtain ⟨region, hregion, hall⟩ := h
  obtain ⟨p, hp⟩ := List.exists_mem_of_ne_nil _ hne
  obtain ⟨hin, hcontains⟩ := mem_inRegion_iff.mp hp
  have heq : region = cluster.regionOf k :=
    cluster.partition.eq_of_contains hregion (cluster.regionOf_mem k) (hall p hin) hcontains
  rw [← heq]
  exact inRange_eq_inRegion_of_contains hall

lemma InOneRegion.behind (h : cluster.InOneRegion k e)
    (hend : (cluster.regionOf k).endKey.isEmpty = false) :
    cluster.InOneRegion (cluster.regionOf k).endKey e := by
  obtain ⟨region, hregion, hall⟩ := h
  refine ⟨region, hregion, fun p hp => hall p ?_⟩
  rw [inRange_eq_append k e hend]
  exact List.mem_append_right _ hp

/-- If the keys of the first and the last pair are in a region, all are. -/
lemma contains_of_head_of_last {region : Region} {p q : KvPair} {ps qs : List KvPair}
    (hfirst : cluster.contents.inRange (k, e) = p :: ps)
    (hlast : (cluster.contents.inRange (k, e)).reverse = q :: qs)
    (hp : region.contains p.key = true) (hq : region.contains q.key = true) :
    ∀ r ∈ cluster.contents.inRange (k, e), region.contains r.key = true := by
  intro r hr
  have hsorted : (cluster.contents.inRange (k, e)).Pairwise fun p q => p.key < q.key :=
    cluster.contents.sorted.filter _
  have hpr : p.key ≤ r.key := by
    rw [hfirst] at hsorted hr
    rcases List.mem_cons.mp hr with rfl | hr
    · exact le_rfl
    · exact ((List.pairwise_cons.mp hsorted).1 r hr).le
  have hrq : r.key ≤ q.key := by
    rw [← List.pairwise_reverse, hlast] at hsorted
    rw [← List.mem_reverse, hlast] at hr
    rcases List.mem_cons.mp hr with rfl | hr
    · exact le_rfl
    · exact ((List.pairwise_cons.mp hsorted).1 r hr).le
  refine contains_of_le hp hpr ?_
  cases hend : region.endKey.isEmpty with
  | true => exact .inr rfl
  | false => exact .inl (hrq.trans_lt (lt_endKey hq hend))

section Walk

variable {answer : Region → Key → ℕ → List KvPair}
  (hanswer : ∀ region k limit,
    answer region k limit = (cluster.contents.inRegion region (k, e)).reverse.take limit)
include hanswer

lemma wanted_last (he : e.isEmpty = false) :
    cluster.Wanted answer e (fun k limit => (cluster.contents.inRange (k, e)).reverse.take limit)
      (fun k _ => cluster.InOneRegion k e) where
  length k limit _ _ := by
    rw [hanswer, List.length_take, List.length_reverse]
  here k limit hlimit hone hhere := by
    rw [hanswer]
    rcases hhere with hstop | hreached
    · rw [inRange_eq_inRegion k e (.inr ⟨he, hstop⟩)]
    · rw [hone.inRange_eq (List.ne_nil_of_length_pos (by omega))]
  next k limit hone hend hstop hmore := by
    refine ⟨?_, hone.behind hend⟩
    rw [hanswer]
    have hsplit : cluster.contents.inRange (k, e) = _ := inRange_eq_append k e hend
    by_cases hnil : cluster.contents.inRegion (cluster.regionOf k) (k, e) = []
    · rw [hnil, List.nil_append] at hsplit
      rw [hsplit, hnil, List.reverse_nil, List.take_nil, List.nil_append, List.length_nil,
        Nat.sub_zero]
    · -- the region has all pairs, and none are left behind it
      have hall := hone.inRange_eq hnil
      have hrest : cluster.contents.inRange ((cluster.regionOf k).endKey, e) = [] := by
        rw [hall] at hsplit
        exact List.self_eq_append_right.mp hsplit
      rw [hall, hrest, List.reverse_nil, List.take_nil, List.append_nil]
  none hnil k limit := by
    refine ⟨⟨cluster.regionOf k, cluster.regionOf_mem k, fun p hp => ?_⟩, ?_⟩
    · rw [hnil] at hp
      cases hp
    · rw [hnil]
      exact List.take_nil

lemma answersFrom_last : cluster.AnswersFrom answer e where
  mem hq := by
    rw [hanswer] at hq
    exact List.mem_reverse.mp (List.mem_of_mem_take hq)
  ne_nil hlimit hne := by
    rw [hanswer, ne_eq, List.take_eq_nil_iff, List.reverse_eq_nil_iff]
    rintro (hzero | hnil)
    · omega
    · exact hne hnil

/-- **The reverse walk**: when exactly it finds the last pairs. -/
theorem scanOutcome_last_iff (he : e.isEmpty = false) (hlimit : 0 < limit) {f : KvPair → KvPair}
    (hf : ∀ p ∈ cluster.contents.inRange (k, e), ∀ q ∈ cluster.contents.inRange (k, e),
      f p = f q → p = q) :
    (∃ fuel x, cluster.scanOutcome answer e fuel k limit [] = some (.ok x) ∧
        ((cluster.contents.inRange (k, e)).reverse.take limit).map f = (x.take limit).map f) ↔
      cluster.InOneRegion k e ∧ cluster.WalkEnds k e limit := by
  constructor
  · rintro ⟨fuel, x, h, heq⟩
    constructor
    · by_cases hnil : cluster.contents.inRange (k, e) = []
      · refine ⟨cluster.regionOf k, cluster.regionOf_mem k, fun p hp => ?_⟩
        rw [hnil] at hp
        cases hp
      · -- The first pair found is in the region of the least pair; it should be the greatest.
        obtain ⟨p, ps, hpairs⟩ := List.exists_cons_of_ne_nil hnil
        obtain ⟨g, gs, hrev⟩ := List.exists_cons_of_ne_nil (mt List.reverse_eq_nil_iff.mp hnil)
        obtain ⟨q, y, rfl, hq, hcontains⟩ := head_of_scanOutcome
          (answersFrom_last hanswer) he hlimit hpairs h
        have hg : g ∈ cluster.contents.inRange (k, e) := by
          rw [← List.mem_reverse, hrev]
          exact List.mem_cons_self
        obtain ⟨n, rfl⟩ : ∃ n, limit = n + 1 := ⟨limit - 1, by omega⟩
        rw [hrev, List.take_succ_cons, List.take_succ_cons, List.map_cons, List.map_cons] at heq
        obtain rfl : g = q := hf g hg q hq (List.cons.inj heq).1
        exact ⟨_, cluster.regionOf_mem p.key,
          contains_of_head_of_last hpairs hrev (cluster.regionOf_contains p.key) hcontains⟩
    · have hlen := congrArg List.length heq
      rw [List.length_map, List.length_map, List.length_take, List.length_take,
        List.length_reverse] at hlen
      exact walkEnds_of_scanOutcome (answersFrom_last hanswer) he hlimit h hlen.symm
  · rintro ⟨hone, hends⟩
    obtain ⟨fuel, h⟩ := (wanted_last hanswer he).exists_scanOutcome
      (answersFrom_last hanswer) he hlimit hone hends
    exact ⟨fuel, _, h, by rw [List.take_take, min_self]⟩

end Walk

end RawCluster

/-! ## Reverse scans -/

section Scans

variable (client : RawClient) (cluster : RawCluster client.keyspace) (range : BoundRange)
  (limit : ℕ)

lemma lastPairs_scanRequest (e : Key) (region : Region) (k : Key) (limit : ℕ) :
    cluster.lastPairs region (client.scanRequest e true k limit) =
      (cluster.contents.inRegion region (k, e)).reverse.take limit := by
  have heq : client.scanRequest e true k limit =
      ⟨e, k, limit, false, true, maybeSetCf client.cf⟩ := client.scanRequest_eq e true k limit
  rw [heq]
  rfl

/-- A reverse scan returns the last pairs if its walk finds them. -/
lemma scansLast_iff_scanOutcome (h : limit ≤ maxRawKvScanLimit) :
    ScansLast client cluster range limit ↔
      ∃ fuel x, cluster.scanOutcome
          (fun region k limit => cluster.lastPairs region
            (client.scanRequest (client.encoded range).requestRange.2 true k limit))
          (client.encoded range).requestRange.2 fuel (client.encoded range).requestRange.1 limit
          [] = some (.ok x) ∧
        ((cluster.contents.inRange (client.encoded range).requestRange).reverse.take limit).map
          (RawClient.truncatePair client.keyspace) =
            (x.take limit).map (RawClient.truncatePair client.keyspace) := by
  have hfits : ∀ region request, request.limit ≤ maxRawKvScanLimit →
      (cluster.lastPairs region request).length < 2 ^ 32 := by
    intro region request hmax
    have hle : (cluster.lastPairs region request).length ≤ request.limit := List.length_take_le _ _
    exact (hle.trans hmax).trans_lt (by decide)
  exact RawCluster.exists_eval_userPairs_iff client cluster cluster.lastPairs range hfits h true
    (fun l => l.reverse.take limit) fun _ => by rw [← List.map_reverse, List.map_take]

/-- **A reverse scan returns the last pairs of its range exactly if they are in one region** and the
walk ends in time. -/
theorem scansLast_iff (hrange : range.BoundedAbove) (h : limit ≤ maxRawKvScanLimit) :
    ScansLast client cluster range limit ↔
      limit = 0 ∨
        cluster.InOneRegion (client.encoded range).requestRange.1
            (client.encoded range).requestRange.2 ∧
          cluster.WalkEnds (client.encoded range).requestRange.1
            (client.encoded range).requestRange.2 limit := by
  rw [scansLast_iff_scanOutcome client cluster range limit h]
  rcases Nat.eq_zero_or_pos limit with rfl | hlimit
  · exact iff_of_true ⟨1, [], RawCluster.scanOutcome_zero_limit 0, rfl⟩ (.inl rfl)
  rw [or_iff_right hlimit.ne']
  refine RawCluster.scanOutcome_last_iff (lastPairs_scanRequest client cluster _)
    (client.boundedAbove_encoded (.inr hrange)).requestRange_snd hlimit ?_
  -- Different pairs of the range have different keys for the user.
  intro p hp q hq heq
  exact List.inj_on_of_nodup_map (SortedList.nodup (cluster.contents.isUserPairs range).sorted) hp
    hq
    heq

end Scans

/-! ## A reverse scan in two regions -/

/-- A pair of the first region. -/
theorem scanReverse_of_one_region :
    ScansLast plainClient twoPairs ⟨.included ⟨[1]⟩, .excluded ⟨[5]⟩⟩ 2 := by
  refine (scansLast_iff plainClient twoPairs ⟨.included ⟨[1]⟩, .excluded ⟨[5]⟩⟩ 2 rfl
    (by decide)).mpr (.inr ⟨?_, ?_⟩)
  · exact ⟨_, List.mem_cons_self, by decide⟩
  · exact .inr ⟨_, List.mem_cons_of_mem _ List.mem_cons_self, by decide, by decide,
      .inl (by decide)⟩

/-- **The least pair instead of the greatest.** -/
theorem scanReverse_returns_first :
    (plainClient.scanReverse 4 ⟨.included ⟨[1]⟩, .excluded ⟨[9, 1]⟩⟩ 1).eval
        (twoPairs.answers twoPairs.lastPairs) = some (.ok [⟨⟨[1]⟩, [10]⟩]) ∧
      ¬ ScansLast plainClient twoPairs ⟨.included ⟨[1]⟩, .excluded ⟨[9, 1]⟩⟩ 1 := by
  constructor
  · rfl
  · intro h
    obtain ⟨fuel, x, hx, heq⟩ := (scansLast_iff_scanOutcome _ _ _ _ (by decide)).mp h
    rcases fuel with _ | _ | fuel
    · cases hx
    · cases hx
    · cases hx
      cases heq

end TikvClient
