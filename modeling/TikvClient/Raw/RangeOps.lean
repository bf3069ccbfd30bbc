import TikvClient.Raw.Client
import TikvClient.Request.RangeTally
import TikvClient.Request.RequestRange

/-!
# Deleting and checksumming ranges

What `delete_range` and `checksum` send to TiKV, against the range the user gave.  The range is
encoded into the keyspace, turned into two keys, and cut along the regions; a retried shard is cut
again.

**Covered.**  `coversRange_iff`: the ranges sent are together the encoding of the user's range
exactly if the client has a keyspace or the range has an upper bound.  Without either, the encoded
range ends with the empty key, which the test for an empty range takes for the smallest key: nothing
is sent, and the call succeeds (`unbounded_range_not_sent`).
-/

namespace TikvClient

open Proto Prog

/-! ## What was sent -/

/-- The ranges of keys a request is about. -/
def Proto.RawRequest.ranges : RawRequest → List (Key × Key)
  | .scan r => [if r.reverse then (r.endKey, r.startKey) else (r.startKey, r.endKey)]
  | .deleteRange r => [(r.startKey, r.endKey)]
  | .checksum r => r.ranges.map fun range => (range.startKey, range.endKey)
  | _ => []

/-- In the run, the range was sent to the region. -/
def SentTo (tr : Trace) (region : Region) (range : Key × Key) : Prop :=
  ∃ request ans, Event.answered (S := sig) (.rawRpc region request) ans ∈ tr ∧
    range ∈ request.ranges

/-- **What was sent is the range**: every part to the region it lies in, and together the stored
keys that are encodings of keys of the range. -/
structure SendsExactly (keyspace : Keyspace) (range : BoundRange) (tr : Trace) :
    Prop where
  inRegion : ∀ region part, SentTo tr region part → ∀ e, InRange part e →
    region.contains e = true
  union : ∀ e, keyspace.Stored e →
    ((∃ region part, SentTo tr region part ∧ InRange part e) ↔
      ∃ k : Key, e = k.encodeKeyspace keyspace .raw ∧ range.contains k = true)

/-- **`delete_range` and `checksum` cover the range** whenever they succeed. -/
def CoversRange (client : RawClient) (range : BoundRange) : Prop :=
  (∀ fuel tr, Returns (client.deleteRange fuel range) tr (.ok ()) → LooksUpRegions tr →
    SendsExactly client.keyspace range tr) ∧
  ∀ fuel tr sum, Returns (client.checksum fuel range) tr (.ok sum) → LooksUpRegions tr →
    SendsExactly client.keyspace range tr

lemma BoundRange.BoundedAbove.isInverted_iff {r : BoundRange} (h : r.BoundedAbove) :
    RawClient.isInverted r.intoKeys = true ↔ r.requestRange.2 ≤ r.requestRange.1 := by
  obtain ⟨lower, upper⟩ := r
  cases upper with
  | included | excluded => exact decide_eq_true_iff
  | unbounded => exact absurd h id

/-! ## The plans -/

/-- Every part of a request lies in its region and in `top`. -/
def RequestsWithin (top : Key × Key) : Call → Prop
  | .rawRpc region request => ∀ part ∈ request.ranges, ∀ e, InRange part e →
      region.contains e = true ∧ InRange top e
  | _ => True

lemma routing_requestsWithin (top : Key × Key) : Routing (RequestsWithin top) :=
  ⟨fun _ => trivial, fun _ => trivial, fun _ _ => trivial⟩

/-- Every key of the range was sent with some part. -/
def SentAll (tr : Trace) (top : Key × Key) : Prop :=
  ∀ e, InRange top e → ∃ region part, SentTo tr region part ∧ InRange part e

section Plans

variable {top : Key × Key} {tr : Trace}

lemma rangePlan_rawDeleteRange (top : Key × Key) (fuel : ℕ) :
    RangePlan (rawDeleteRangePlan fuel) (fun r => (r.startKey, r.endKey))
      (fun r => ∀ e, InRange (r.startKey, r.endKey) e → InRange top e) fuel where
  shards _ _ := rfl
  range_applyShard _ _ := rfl
  inv_applyShard _ _ hr hshard e he := hr e (hshard e he)
  applyStore _ _ := rfl

/-- The range of a request that has one. -/
def Proto.RawChecksumRequest.range (r : RawChecksumRequest) : Key × Key :=
  (r.ranges.head?.map fun range => (range.startKey, range.endKey)).getD default

lemma rangePlan_rawChecksum (top : Key × Key) (fuel : ℕ) :
    RangePlan (rawChecksumPlan fuel) RawChecksumRequest.range
      (fun r => ∃ range : KeyRange, r.ranges = [range] ∧
        ∀ e, InRange (range.startKey, range.endKey) e → InRange top e) fuel where
  shards r hr := by
    obtain ⟨range, hranges, -⟩ := hr
    simp [rawChecksumPlan, RawChecksumRequest.range, hranges]
  range_applyShard _ _ := rfl
  inv_applyShard r shard hr hshard := by
    obtain ⟨range, hranges, hin⟩ := hr
    refine ⟨⟨shard.1, shard.2⟩, rfl, fun e he => hin e ?_⟩
    simpa [RawChecksumRequest.range, hranges] using hshard e he
  applyStore _ _ := rfl

/-- A range that was executed was sent. -/
lemma sat_rawRpc_sentTo {region : Region} (request : RawRequest) {part : Key × Key}
    (hranges : request.ranges = [part])
    (hpart : ∀ e, InRange part e → region.contains e = true ∧ InRange top e) :
    (Async.rawRpc region request).Sat (RequestsWithin top) (InTrace tr) fun res =>
      ∀ resp, res = .ok resp → SentAll tr part := by
  refine (Async.sat_rawRpc ?_).post fun res hres resp _ e he => ?_
  · simpa [RequestsWithin, hranges] using hpart
  · exact ⟨region, part, ⟨request, res, hres, by simp [hranges]⟩, he⟩

/-- **What a successful `delete_range` plan sent covers its range.** -/
lemma sat_rawDeleteRange (hlook : LooksUpRegions tr) (fuel : ℕ) (r : RawDeleteRangeRequest)
    (backoff : Backoff) :
    ((rawDeleteRangePlan fuel).retryMultiRegion false fuel r backoff).Sat
      (RequestsWithin (r.startKey, r.endKey)) (InTrace tr) fun res => ∀ results,
        res = .ok results → AllOk results → SentAll tr (r.startKey, r.endKey) := by
  refine (rangePlan_rawDeleteRange _ fuel).sat_retryMultiRegion (routing_requestsWithin _)
    (fun k region h => hlook k region h) (fun region r hat hr => ?_) false fuel (fun _ he => he)
    backoff
  exact (sat_rawRpc_sentTo _ rfl fun e he => ⟨hat e he, hr e he⟩).post
    fun res hres resp heq _ _ => hres resp heq

/-- **What a successful `checksum` plan sent covers its range.** -/
lemma sat_rawChecksum (hlook : LooksUpRegions tr) (fuel : ℕ) (range : KeyRange)
    (backoff : Backoff) :
    ((rawChecksumPlan fuel).retryMultiRegion false fuel ⟨.crc64Xor, [range]⟩ backoff).Sat
      (RequestsWithin (range.startKey, range.endKey)) (InTrace tr) fun res => ∀ results,
        res = .ok results → AllOk results → SentAll tr (range.startKey, range.endKey) := by
  refine (rangePlan_rawChecksum _ fuel).sat_retryMultiRegion (r := ⟨.crc64Xor, [range]⟩)
    (routing_requestsWithin _) (fun k region h => hlook k region h)
    (fun region r hat hr => ?_) false fuel ⟨range, rfl, fun _ he => he⟩ backoff
  obtain ⟨range', hranges, hin⟩ := hr
  have hpart : r.range = (range'.startKey, range'.endKey) := by
    simp [RawChecksumRequest.range, hranges]
  rw [hpart]
  refine (sat_rawRpc_sentTo (.checksum r) ?_ fun e he => ⟨hat e ?_, hin e he⟩).post
    fun res hres resp heq _ _ => hres resp heq
  · simp [RawRequest.ranges, hranges]
  · rwa [hpart]

end Plans

/-! ## The operations -/

section Operations

variable {client : RawClient} {range : BoundRange} {fuel : ℕ} {tr : Trace}

/-- The encoded range of the user's. -/
abbrev RawClient.encoded (client : RawClient) (range : BoundRange) : BoundRange :=
  range.encodeKeyspace client.keyspace .raw

lemma sendsExactly_nil (hbounded : (client.encoded range).BoundedAbove)
    (hinv : RawClient.isInverted (client.encoded range).intoKeys = true) :
    SendsExactly client.keyspace range [] where
  inRegion := by
    rintro _ _ ⟨_, _, hmem, -⟩
    cases hmem
  union e he := by
    rw [← contains_encodeKeyspace_stored_iff client.keyspace .raw range he,
      hbounded.contains_iff]
    constructor
    · rintro ⟨_, _, ⟨_, _, hmem, -⟩, -⟩
      cases hmem
    · rintro ⟨hlower, hupper | hempty⟩
      · have hle := hbounded.isInverted_iff.mp hinv
        exact absurd (hlower.trans_lt hupper) hle.not_gt
      · rw [hbounded.requestRange_snd] at hempty
        cases hempty

lemma sendsExactly_of_made (hbounded : (client.encoded range).BoundedAbove)
    (hmade : ∀ e ∈ tr, Event.Made (RequestsWithin (client.encoded range).requestRange) e)
    (hcover : SentAll tr (client.encoded range).requestRange) :
    SendsExactly client.keyspace range tr := by
  have hsent : ∀ region part, SentTo tr region part → ∀ e, InRange part e →
      region.contains e = true ∧ InRange (client.encoded range).requestRange e := by
    rintro region part ⟨request, ans, hmem, hpart⟩ e he
    exact hmade _ hmem part hpart e he
  refine ⟨fun region part h e he => (hsent region part h e he).1, fun e he => ?_⟩
  rw [← contains_encodeKeyspace_stored_iff client.keyspace .raw range he, hbounded.contains_iff]
  exact ⟨fun ⟨region, part, h, he⟩ => (hsent region part h e he).2, hcover e⟩

/-- A plan that covers the range with its responses. -/
lemma sendsExactly_of_plan {R Resp α : Type} {plan : AsyncResult (ShardResults R Resp)}
    {merge : ShardResults R Resp → Except Error α} {a : α}
    (hbounded : (client.encoded range).BoundedAbove)
    (hplan : plan.Sat (RequestsWithin (client.encoded range).requestRange) (InTrace tr) fun res =>
      ∀ results, res = .ok results → AllOk results →
        SentAll tr (client.encoded range).requestRange)
    (hmerge : ∀ results a, merge results = .ok a → AllOk results)
    (hrun : Returns (plan.andThen fun results => .ret (merge results)) tr (.ok a)) :
    SendsExactly client.keyspace range tr := by
  have hsat := Prog.Sat.andThen (R := fun res => res = .ok a →
      SentAll tr (client.encoded range).requestRange) hplan
    (f := fun results => .ret (merge results))
    (fun results hresults hok => hresults results rfl (hmerge results a hok))
    fun _ _ h => by cases h
  obtain ⟨hmade, hcover⟩ := hsat.of_steps hrun (allowed_inTrace tr)
  exact sendsExactly_of_made hbounded hmade (hcover rfl)

lemma deleteRange_covers (hbounded : (client.encoded range).BoundedAbove)
    (hrun : Returns (client.deleteRange fuel range) tr (.ok ())) (hlook : LooksUpRegions tr) :
    SendsExactly client.keyspace range tr := by
  unfold RawClient.deleteRange at hrun
  dsimp only at hrun
  split_ifs at hrun with hatomic hinv
  · obtain ⟨-, h⟩ := returns_ret_iff.mp hrun
    cases h
  · obtain ⟨rfl, -⟩ := returns_ret_iff.mp hrun
    exact sendsExactly_nil hbounded hinv
  · refine sendsExactly_of_plan hbounded (sat_rawDeleteRange hlook fuel
      (newRawDeleteRangeRequest (client.encoded range) client.cf) _) (fun results a hok => ?_) hrun
    obtain ⟨leaves, hextract, -⟩ := exists_of_map_eq_ok hok
    exact (extractError_eq_ok_iff.mp hextract).1

lemma checksum_covers (hbounded : (client.encoded range).BoundedAbove) {sum : RawChecksum}
    (hrun : Returns (client.checksum fuel range) tr (.ok sum)) (hlook : LooksUpRegions tr) :
    SendsExactly client.keyspace range tr := by
  unfold RawClient.checksum at hrun
  dsimp only at hrun
  split_ifs at hrun with hinv
  · obtain ⟨rfl, -⟩ := returns_ret_iff.mp hrun
    exact sendsExactly_nil hbounded hinv
  · refine sendsExactly_of_plan hbounded (sat_rawChecksum hlook fuel
      (.ofBoundRange (client.encoded range)) _) (fun results a hok => ?_) hrun
    obtain ⟨leaves, hcollect, -⟩ := exists_of_map_eq_ok hok
    exact (collectError_eq_ok_iff.mp hcollect).1

/-- Without a keyspace and an upper bound, the range is taken for an empty one. -/
lemma isInverted_of_not_boundedAbove (hkeyspace : client.keyspace = .disable)
    (h : ¬ range.BoundedAbove) :
    RawClient.isInverted (client.encoded range).intoKeys = true := by
  have hupper := BoundRange.upper_encodeKeyspace_disable h .raw
  simp [RawClient.isInverted, RawClient.encoded, hkeyspace, BoundRange.intoKeys, hupper,
    Key.empty_le]

lemma contains_intoKeys_fst (h : ¬ range.BoundedAbove) :
    range.contains range.intoKeys.1 = true := by
  rw [BoundRange.contains, Bool.and_eq_true, BoundRange.startsBefore_iff]
  refine ⟨le_rfl, ?_⟩
  obtain ⟨lower, upper⟩ := range
  cases upper with
  | included u | excluded u =>
    have hu : u.isEmpty = true := by simpa [BoundRange.BoundedAbove] using h
    simp [BoundRange.endBound, hu, Bound.endsAfter]
  | unbounded => rfl

lemma checksum_unbounded (hkeyspace : client.keyspace = .disable) (h : ¬ range.BoundedAbove)
    (fuel : ℕ) : client.checksum fuel range = .ret (.ok .zero) := by
  have hinv := isInverted_of_not_boundedAbove hkeyspace h
  unfold RawClient.checksum
  exact if_pos hinv

lemma deleteRange_unbounded (hkeyspace : client.keyspace = .disable) (h : ¬ range.BoundedAbove)
    (hatomic : client.atomic = false) (fuel : ℕ) :
    client.deleteRange fuel range = .ret (.ok ()) := by
  have hinv := isInverted_of_not_boundedAbove hkeyspace h
  unfold RawClient.deleteRange
  rw [hatomic, if_neg Bool.false_ne_true]
  exact if_pos hinv

/-- The client's ranges end: by its keyspace, or by an upper bound of their own. -/
lemma RawClient.boundedAbove_encoded (client : RawClient)
    (h : client.keyspace ≠ .disable ∨ range.BoundedAbove) :
    (client.encoded range).BoundedAbove := by
  cases hkeyspace : client.keyspace with
  | enable id =>
    rw [RawClient.encoded, hkeyspace]
    exact BoundRange.boundedAbove_encodeKeyspace_enable range id .raw
  | disable =>
    rw [RawClient.encoded, hkeyspace]
    exact (h.resolve_left fun hne => hne hkeyspace).encodeKeyspace_disable .raw

/-- **Ranges are deleted and checksummed as a whole exactly if they end**: by the client's keyspace,
or by an upper bound of their own. -/
theorem coversRange_iff (client : RawClient) (range : BoundRange) :
    CoversRange client range ↔ client.keyspace ≠ .disable ∨ range.BoundedAbove := by
  constructor
  · rintro ⟨-, hchecksum⟩
    by_contra hnot
    simp only [not_or, ne_eq, not_not] at hnot
    obtain ⟨hkeyspace, hunbounded⟩ := hnot
    -- The call returns at once, though the range contains a key.
    have hrun : Returns (client.checksum 0 range) [] (.ok .zero) := by
      rw [checksum_unbounded hkeyspace hunbounded]
      exact .refl _
    have hsent := (hchecksum 0 [] _ hrun fun _ _ h => by cases h).union range.intoKeys.1
      (by rw [hkeyspace]; trivial)
    obtain ⟨_, _, ⟨_, _, hmem, -⟩, -⟩ := hsent.mpr
      ⟨range.intoKeys.1, by rw [hkeyspace]; rfl, contains_intoKeys_fst hunbounded⟩
    cases hmem
  · intro h
    have hbounded := client.boundedAbove_encoded h
    exact ⟨fun _ _ => deleteRange_covers hbounded, fun _ _ _ => checksum_covers hbounded⟩

/-- `delete_range(..)` without a keyspace deletes nothing, and succeeds. -/
theorem unbounded_range_not_sent :
    Returns (RawClient.deleteRange ⟨none, .defaultRegionBackoff, false, .disable⟩ 5
        ⟨.unbounded, .unbounded⟩) [] (.ok ()) ∧
      LooksUpRegions [] ∧ ¬ SendsExactly .disable ⟨.unbounded, .unbounded⟩ [] := by
  refine ⟨?_, fun _ _ hmem => (by cases hmem), fun h => ?_⟩
  · rw [deleteRange_unbounded rfl id rfl]
    exact .refl _
  obtain ⟨_, _, ⟨_, _, hmem, -⟩, -⟩ := (h.union ⟨[1]⟩ trivial).mpr ⟨⟨[1]⟩, rfl, rfl⟩
  cases hmem

end Operations

end TikvClient
