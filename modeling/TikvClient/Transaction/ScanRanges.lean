import TikvClient.Request.RequestRange
import TikvClient.Transaction.BufferEntries
import TikvClient.Transaction.Failures
import TikvClient.Transaction.Operations

/-!
# The ranges a scan accepts

The scans of the API encode the range of the caller into the keyspace of the client, and look it up
in the ordered map of the buffer before anything is fetched.  A map that has had an entry does not
take every range: it panics on one that begins after its end.

**Encoding changes nothing** about that (`isInverted_encodeKeyspace`): it keeps the order of keys,
and the ends it adds are those of the keyspace.

**Other ranges.**  A scan over a range that the map takes does not panic, whatever it is told, and
returns pairs of the range only (`sat_scanInner`); and it returns where the stores answer
(`isSome_eval_scanInner`).  So the scans of the API are safe for these ranges, and for no others
(`scansSafely_iff`).
-/

namespace TikvClient

open Proto Prog StateProg

/-! ## Inverted ranges -/

namespace BoundRange

/-- The end of an encoded range: that of the range, encoded; or, if it has none, none or one behind
all keys of the keyspace. -/
inductive EncodedEnd (keyspace : Keyspace) (mode : KeyMode) : Bound → Bound → Prop
  | included (e : Key) :
      EncodedEnd keyspace mode (.included e) (.included (e.encodeKeyspace keyspace mode))
  | excluded (e : Key) :
      EncodedEnd keyspace mode (.excluded e) (.excluded (e.encodeKeyspace keyspace mode))
  | unbounded : EncodedEnd keyspace mode .unbounded .unbounded
  | behind (last : Key) : (∀ u : Key, u.encodeKeyspace keyspace mode < last) →
      EncodedEnd keyspace mode .unbounded (.excluded last)

lemma encodedEnd (r : BoundRange) (keyspace : Keyspace) (mode : KeyMode) :
    EncodedEnd keyspace mode r.endBound (r.encodeKeyspace keyspace mode).endBound := by
  have hkey : ∀ u : Key, u.isEmpty = false → (u.encodeKeyspace keyspace mode).isEmpty = false := by
    intro u hu
    cases keyspace with
    | disable => exact hu
    | enable id => rfl
  have hnone : ∀ lower : Bound, EncodedEnd keyspace mode .unbounded
      (BoundRange.endBound ⟨lower, .excluded (keyspace.endKey mode)⟩) := by
    intro lower
    cases keyspace with
    | disable => exact .unbounded
    | enable id =>
      rw [endBound]
      simp only [isEmpty_endKey]
      refine .behind _ fun u => ?_
      exact (append_lt_endKey_iff id mode u (length_keyspacePrefix id mode)).mpr le_rfl
  obtain ⟨lower, upper⟩ := r
  cases upper with
  | included u =>
    cases hu : u.isEmpty with
    | true => simpa [endBound, encodeKeyspace, hu] using hnone .unbounded
    | false => simpa [endBound, encodeKeyspace, hu, hkey u hu] using .included u
  | excluded u =>
    cases hu : u.isEmpty with
    | true => simpa [endBound, encodeKeyspace, hu] using hnone .unbounded
    | false => simpa [endBound, encodeKeyspace, hu, hkey u hu] using .excluded u
  | unbounded => exact hnone _

/-- **The encoded range is inverted exactly if the range is.** -/
lemma isInverted_encodeKeyspace (r : BoundRange) (keyspace : Keyspace) (mode : KeyMode) :
    (r.encodeKeyspace keyspace mode).isInverted = r.isInverted := by
  have hlt := fun k l : Key => Key.encodeKeyspace_lt_iff k l keyspace mode
  have hle : ∀ k l : Key, k.encodeKeyspace keyspace mode ≤ l.encodeKeyspace keyspace mode ↔ k ≤ l :=
    fun k l => by rw [← not_lt, hlt, not_lt]
  have hempty : ∀ u : Key, ¬ u < .empty := fun u => not_lt.mpr (Key.empty_le u)
  have hend := r.encodedEnd keyspace mode
  unfold isInverted
  generalize r.endBound = stop at hend
  generalize (r.encodeKeyspace keyspace mode).endBound = encoded at hend
  rw [encodeKeyspace]
  cases hend with
  | included e => cases r.lower <;> simp [hlt, hempty]
  | excluded e => cases r.lower <;> simp [hlt, hle, hempty]
  | unbounded => cases r.lower <;> rfl
  | behind last hlast => cases r.lower <;> simp [hlast, (hlast _).le]

end BoundRange

/-! ## The scans of the API -/

namespace Transaction

/-- `scan_inner` with the range of the caller. -/
def scanIn (keyspace : Keyspace) (fuel : ℕ) (range : BoundRange) (limit : ℕ)
    (keyOnly reverse : Bool) : TxnM (List KvPair) := do
  let pairs ← scanInner fuel (range.encodeKeyspace keyspace .txn) limit keyOnly reverse
  return pairs.map fun p => { p with key := p.key.truncateKeyspace keyspace }

def scan (keyspace : Keyspace) (fuel : ℕ) (range : BoundRange) (limit : ℕ) : TxnM (List KvPair) :=
  scanIn keyspace fuel range limit false false

def scanKeys (keyspace : Keyspace) (fuel : ℕ) (range : BoundRange) (limit : ℕ) :
    TxnM (List Key) := do
  let pairs ← scanIn keyspace fuel range limit true false
  return pairs.map (·.key)

def scanReverse (keyspace : Keyspace) (fuel : ℕ) (range : BoundRange) (limit : ℕ) :
    TxnM (List KvPair) :=
  scanIn keyspace fuel range limit false true

def scanKeysReverse (keyspace : Keyspace) (fuel : ℕ) (range : BoundRange) (limit : ℕ) :
    TxnM (List Key) := do
  let pairs ← scanIn keyspace fuel range limit true true
  return pairs.map (·.key)

end Transaction

/-- Not a panic. -/
def NoPanic (e : Error) : Prop := ∀ msg, e ≠ .panicked msg

/-- The range of a scan request, in key order. -/
def scanRange (r : ScanRequest) : Key × Key :=
  if r.reverse then (r.endKey, r.startKey) else (r.startKey, r.endKey)

/-- **What a scan is told**: the calls do not panic, and the pairs TiKV returns are of the range
that was asked for. -/
structure ScanAnswers (A : Answers) : Prop where
  regionForKey : ∀ key ans, A (.regionForKey key) ans → FailsIn NoPanic ans
  mapRegionToStore : ∀ region ans, A (.mapRegionToStore region) ans → FailsIn NoPanic ans
  updateLeader : ∀ verId leader ans, A (.updateLeader verId leader) ans → FailsIn NoPanic ans
  getTimestamp : ∀ ans, A .getTimestamp ans → FailsIn NoPanic ans
  rpc : ∀ region (r : Request) (ans : Except Error r.Response), A (.rpc region r) ans →
    FailsIn NoPanic ans
  inRange : ∀ region r (resp : ScanResponse), A (.rpc region (.scan r)) (.ok resp) →
    ∀ p ∈ resp.pairs, p.error = none → InRange (scanRange r) p.key

/-! ## Fetching -/

section Fetching

variable {A : Answers}

lemma ScanAnswers.failureSet (h : ScanAnswers A) : FailureSet A NoPanic where
  regionForKey := h.regionForKey
  mapRegionToStore := h.mapRegionToStore
  updateLeader := h.updateLeader
  getTimestamp := h.getTimestamp
  rpc := h.rpc
  keyError _ _ _ h := by cases h
  keyErrors _ _ _ h := by cases h
  resolveLockError _ _ _ h := by cases h
  leaderNotFound _ _ h := by cases h
  regionError _ _ h := by cases h
  internalError _ _ h := by cases h

lemma scanRange_applyShard (fuel : ℕ) (r : ScanRequest) (shard : Key × Key) :
    scanRange ((Dispatch.scan fuel).plan.applyShard r shard) = shard := by
  unfold scanRange Dispatch.plan Dispatch.scan
  cases h : r.reverse <;> simp [h]

lemma scanRange_newScanRequest (range : Key × Key) (timestamp limit : ℕ) (keyOnly reverse : Bool) :
    scanRange (newScanRequest range timestamp limit keyOnly reverse) = range := by
  cases reverse <;> rfl

lemma rangeKeys_eq (range : BoundRange) : Transaction.rangeKeys range = range.requestRange := by
  obtain ⟨lower, upper⟩ := range
  cases lower <;> cases upper <;> rfl

open FailureSet (AnyCall routing_anyCall)

/-- The shards of a scan are parts of its range, wherever the regions are. -/
lemma sends_scan_inRange (h : ScanAnswers A) (fuel : ℕ) (range : Key × Key) :
    (Dispatch.scan fuel).Sends AnyCall A (fun _ => ([] : List Unit))
      (fun r => ∀ k, InRange (scanRange r) k → InRange range k)
      (fun r resp => ∀ p ∈ resp.pairs, p.error = none → InRange (scanRange r) p.key) True where
  shards r hr := by
    refine Sat.andThen (sat_regionsFrom routing_anyCall _ fuel _) (fun regions _ ss hss => ?_)
      fun _ _ ss h => by cases h
    cases hss
    refine ⟨?_, .of_perm (by simp)⟩
    rw [List.forall_mem_map]
    intro region _ k hk
    rw [scanRange_applyShard] at hk
    exact hr k (inRange_rangeIntersection_iff.mp hk).2
  applyStore _ _ hr := ⟨hr, rfl⟩
  send region r _ := (Async.sat_rpc trivial).post fun ans hans resp hresp =>
    h.inRange region r resp (hresp ▸ hans)

lemma honest_scan (h : ScanAnswers A) (fuel : ℕ) (region : Region) (r : ScanRequest) :
    ((Dispatch.scan fuel).send region r).Sat AnyCall A ((Dispatch.scan fuel).Honest A NoPanic) := by
  refine (Async.sat_rpc trivial).post fun ans hans => ⟨h.rpc _ _ ans hans, fun resp hresp => ?_⟩
  subst hresp
  have hreported : ∀ e ∈ resp.error.toList ++ resp.pairs.filterMap (·.error), Reported A e :=
    fun e he => ⟨_, _, _, hans, he⟩
  rw [List.forall_mem_append] at hreported
  refine ⟨hreported.2, ?_⟩
  unfold Dispatch.scan pairLocks
  dsimp only
  split_ifs
  · exact lockReported_of_mem_locksOf hreported.1
  · exact lockReported_of_mem_locksOf hreported.2

/-- What a scan may end with. -/
def ScanPost (P : Key → Prop) (res : Except Error (List KvPair)) : Prop :=
  FailsIn NoPanic res ∧ ∀ pairs, res = .ok pairs → ∀ p ∈ pairs, P p.key

lemma ScanPost.error {P : Key → Prop} {e : Error} (he : NoPanic e) : ScanPost P (.error e) :=
  ⟨failsIn_error he, fun _ h => by cases h⟩

/-- **The plan of a scan does not panic, and fetches pairs of the range.** -/
lemma sat_scanPlan (h : ScanAnswers A) (fuel : ℕ) (retryOptions : RetryOptions) (r : ScanRequest) :
    (Transaction.scanPlan fuel retryOptions r).Sat AnyCall A
      (ScanPost fun k => InRange (scanRange r) k) := by
  have herrors := h.failureSet.sat_executeShards (d := Dispatch.scan fuel)
    (fun r => sat_regionStreamForRange_errors (fun _ => trivial) h.regionForKey fuel _)
    (honest_scan h fuel) fuel retryOptions r
  have hsends := sends_scan_inRange h fuel (scanRange r)
  have hleaves := (hsends.covering_resolveLock routing_anyCall
    (fun _ resp _ _ => Prog.sat_true (resolveLocks fuel ((Dispatch.scan fuel).locks resp))) fuel
    retryOptions.lockBackoff).sat_singlePlanHandler false fuel r retryOptions.regionBackoff 0
    fun _ hk => hk
  refine Sat.andThen (Sat.and herrors hleaves) (fun results hresults => ?_)
    fun e he => .error (he.1.1 e rfl)
  obtain ⟨herrors, hleaves⟩ := hresults
  have hfails := failsIn_collectError (herrors.2 results rfl)
  split
  next leaves hmerged =>
    obtain ⟨-, rfl⟩ := collectError_eq_ok_iff.mp hmerged
    refine ⟨failsIn_ok _, ?_⟩
    rintro pairs heq p hp
    cases heq
    obtain ⟨leaf, hleaf, hp⟩ := List.mem_flatMap.mp hp
    obtain ⟨q, hq, rfl⟩ := List.mem_map.mp hp
    obtain ⟨hinv, hanswered, hnone, -⟩ := (hleaves results rfl).done leaf hleaf
    refine hinv _ (hanswered q hq ?_)
    exact List.filterMap_eq_nil_iff.mp hnone q hq
  next e he => exact .error (hfails e he)

end Fetching

/-! ## Reading through the buffer -/

section Buffer

variable {A : Answers} {range : BoundRange} {t : Transaction}

open FailureSet (AnyCall)

lemma Buffer.contains_of_getElem?_overlay {b : Buffer} {fetched : List KvPair} {k : Key} {v : Value}
    (hfetched : ∀ p ∈ fetched, range.contains p.key = true)
    (h : (b.overlay range fetched)[k]? = some v) : range.contains k = true := by
  rw [overlay_eq, getElem?_applyChanges_changesIn] at h
  split_ifs at h with hk
  · exact hk
  · exact hfetched _ (mem_of_getElem?_fetchedMap h)

lemma Buffer.noPanic_updateCaches (pairs : List (Key × Option Value)) :
    ∀ b : Buffer, FailsIn NoPanic (b.updateCaches pairs).2 := by
  have hone : ∀ (b : Buffer) key value, FailsIn NoPanic (b.updateCache key value) := by
    intro b key value e he msg hmsg
    subst hmsg
    unfold updateCache at he
    split at he
    all_goals first
      | cases he
      | split_ifs at he
        cases he
  induction pairs with
  | nil => exact fun b => failsIn_ok _
  | cons p rest ih =>
    intro b
    obtain ⟨key, value⟩ := p
    rw [updateCaches]
    cases hc : b.updateCache key value with
    | ok c => exact ih c
    | error e => exact failsIn_error (hone b key value e hc)

lemma Buffer.sat_scanAndFetch_inRange (b : Buffer)
    (hrange : b.hasRoot = true → range.isInverted = false) (limit : ℕ)
    (updateCache reverse : Bool) {f : BoundRange → ℕ → AsyncResult (List KvPair)}
    (hf : ∀ limit, (f range limit).Sat AnyCall A (ScanPost fun k => range.contains k = true)) :
    (b.scanAndFetch range limit updateCache reverse f).Sat AnyCall A fun r =>
      ScanPost (fun k => range.contains k = true) r.2 := by
  unfold scanAndFetch
  rw [if_neg (by simpa using hrange)]
  refine Sat.bind (hf _) fun res hres => ?_
  cases res with
  | error e =>
    have herror : ScanPost (fun k => range.contains k = true) (.error e) :=
      .error (hres.1 e rfl)
    exact herror
  | ok fetched =>
    have hpairs : ScanPost (fun k => range.contains k = true)
        (.ok ((if reverse then ((b.overlay range fetched).toList.map
          fun e => (⟨e.1, e.2⟩ : KvPair)).reverse else (b.overlay range fetched).toList.map
            fun e => (⟨e.1, e.2⟩ : KvPair)).take limit)) := by
      refine ⟨failsIn_ok _, ?_⟩
      rintro pairs heq p hp
      cases heq
      have hp := List.mem_of_mem_take hp
      obtain ⟨e, he, rfl⟩ :
          ∃ e ∈ (b.overlay range fetched).toList, (⟨e.1, e.2⟩ : KvPair) = p := by
        split_ifs at hp <;> simpa using hp
      exact contains_of_getElem?_overlay (hres.2 fetched rfl)
        (Std.ExtTreeMap.mem_toList_iff_getElem?_eq_some.mp he)
    cases updateCache with
    | false => exact hpairs
    | true =>
      have hcaches := noPanic_updateCaches
        ((b.overlay range fetched).toList.map fun e => (e.1, some e.2)) b
      simp only [if_true]
      split
      next e he =>
        have herror : ScanPost (fun k => range.contains k = true) (.error e) :=
          .error (hcaches e he)
        exact herror
      · exact hpairs

end Buffer

/-! ## Empty ranges -/

namespace BoundRange

variable {r : BoundRange} {keyspace : Keyspace} {mode : KeyMode}

lemma requestRange_encodeKeyspace (h : r.BoundedAbove) :
    (r.encodeKeyspace keyspace mode).requestRange =
      (r.requestRange.1.encodeKeyspace keyspace mode,
        r.requestRange.2.encodeKeyspace keyspace mode) := by
  have hnext : ∀ k : Key, (k.encodeKeyspace keyspace mode).nextKey =
      k.nextKey.encodeKeyspace keyspace mode := by
    cases keyspace <;> simp [Key.encodeKeyspace, Key.nextKey]
  obtain ⟨lower, upper⟩ := r
  cases upper with
  | included e | excluded e =>
    have he : e.isEmpty = false := h
    cases lower <;> simp [requestRange, encodeKeyspace, intoKeys, he, hnext]
  | unbounded => exact absurd h id

lemma contains_first_of_not_boundedAbove (h : ¬ r.BoundedAbove) :
    r.contains r.requestRange.1 = true := by
  rw [contains, Bool.and_eq_true, startsBefore_iff]
  refine ⟨le_rfl, ?_⟩
  obtain ⟨lower, upper⟩ := r
  cases upper with
  | included e | excluded e =>
    have he : e.isEmpty = true := by simpa [BoundedAbove] using h
    simp [endBound, he, Bound.endsAfter]
  | unbounded => rfl

/-- **Encoding fills no range**: an empty range has two keys that are not in order, and encoding
keeps the order. -/
lemma exists_contains_of_encodeKeyspace {k : Key}
    (h : (r.encodeKeyspace keyspace mode).contains k = true) : ∃ u, r.contains u = true := by
  by_cases hbounded : r.BoundedAbove
  · refine ⟨r.requestRange.1, (hbounded.contains_iff _).mpr ⟨le_rfl, ?_⟩⟩
    rw [contains_encodeKeyspace_iff_inRange, requestRange_encodeKeyspace hbounded] at h
    have hend : (r.requestRange.2.encodeKeyspace keyspace mode).isEmpty ≠ true := by
      cases keyspace with
      | disable => simpa [Key.encodeKeyspace] using hbounded.requestRange_snd
      | enable id => exact fun h => by cases h
    exact .inl ((Key.encodeKeyspace_lt_iff _ _ keyspace mode).mp
      (h.1.trans_lt (h.2.resolve_right hend)))
  · exact ⟨_, contains_first_of_not_boundedAbove hbounded⟩

end BoundRange

/-! ## Returning -/

section Returning

variable {ans : (c : Call) → c.Ans} {regions : List Region}

/-- **Stores that answer**: every key has a region, every region a leader, and scans are answered
without errors. -/
structure ServesScans (ans : (c : Call) → c.Ans) (regions : List Region) : Prop where
  routes : Routes ans regions
  leader : ∀ region ∈ regions, region.leader ≠ none
  store : ∀ region, ans (.mapRegionToStore region) = (.ok () : Except Error Unit)
  scan : ∀ region (r : ScanRequest), ∃ resp : ScanResponse,
    ans (.rpc region (.scan r)) = (.ok resp : Except Error ScanResponse) ∧
      resp.regionError = none ∧ resp.error = none ∧ ∀ p ∈ resp.pairs, p.error = none

lemma ServesScans.isSome_eval_scanPlan (h : ServesScans ans regions) {fuel : ℕ}
    (hfuel : regions.length * 3 < fuel) (retryOptions : RetryOptions) (r : ScanRequest) :
    ((Transaction.scanPlan fuel retryOptions r).eval (S := sig) ans).isSome = true := by
  have hwalk : regions.length ≤ fuel := by omega
  obtain ⟨ss, hshards, hss, hlength⟩ := eval_regionStreamForRange h.routes (scanRange r) hwalk
  have hshort : ss.length * (1 + 2) < fuel := by omega
  choose resp hresp hregion herror hpairs using h.scan
  have hnone : ∀ region r, (resp region r).pairs.filterMap (·.error) = [] := fun region r =>
    List.filterMap_eq_nil_iff.mpr (hpairs region r)
  have hlocks : ∀ region r, pairLocks (resp region r).error (resp region r).pairs = [] := by
    intro region r
    simp [pairLocks, locksOf, herror, hnone]
  have hresults := (Dispatch.scan fuel).eval_executeShards (r := r) (e := 1)
    (fun s => resp s.2 ((Dispatch.scan fuel).plan.sent r s.1)) hshards
    (fun s hs => h.leader _ (hss s hs)) (fun s _ => h.store s.2)
    (fun s _ => congrArg some (hresp s.2 _)) (fun _ _ => le_rfl) (fun _ _ => hlocks _ _)
    (fun _ _ => hnone _ _) (fun _ _ => hregion _ _) hshort retryOptions
  rw [Transaction.scanPlan, eval_andThen_ok hresults]
  split <;> rfl

lemma ServesScans.isSome_eval_scanAndFetch (h : ServesScans ans regions) {fuel : ℕ}
    (hfuel : regions.length * 3 < fuel) (b : Buffer) (range : BoundRange) (limit : ℕ)
    (updateCache reverse : Bool) (retryOptions : RetryOptions)
    (request : BoundRange → ℕ → ScanRequest) :
    ((b.scanAndFetch range limit updateCache reverse fun range limit =>
      Transaction.scanPlan fuel retryOptions (request range limit)).eval (S := sig) ans).isSome =
        true := by
  unfold Buffer.scanAndFetch
  by_cases hrange : (b.hasRoot && range.isInverted) = true
  · rw [if_pos hrange]
    rfl
  · rw [if_neg hrange]
    refine isSome_eval_bind (h.isSome_eval_scanPlan hfuel retryOptions _) fun res => ?_
    cases res with
    | error e => rfl
    | ok fetched =>
      dsimp only
      split <;> rfl

/-- **A scan returns** where the stores answer. -/
lemma ServesScans.isSome_eval_scanInner (h : ServesScans ans regions) {fuel : ℕ}
    (hfuel : regions.length * 3 < fuel) (t : Transaction) (range : BoundRange) (limit : ℕ)
    (keyOnly reverse : Bool) :
    (((Transaction.scanInner fuel range limit keyOnly reverse).exec t).eval (S := sig) ans).isSome =
      true := by
  unfold Transaction.scanInner
  by_cases hopen : t.IsOpen
  · rw [Transaction.exec_guarded_of_isOpen hopen]
    have hfetch := h.isSome_eval_scanAndFetch hfuel t.buffer range limit (!keyOnly) reverse
      t.options.retryOptions fun range limit =>
        newScanRequest (Transaction.rangeKeys range) t.timestamp limit keyOnly reverse
    have hread := isSome_eval_bind (f := fun r => .ret (r.2, { t with buffer := r.1 })) hfetch
      fun _ => rfl
    exact hread
  · rw [Transaction.exec_guarded_of_not_isOpen hopen]
    rfl

end Returning

/-! ## Safe scans -/

namespace Transaction

variable {α : Type} {t : Transaction} {range : BoundRange}

open FailureSet (AnyCall)

/-- What the caller gets: no panic, and nothing from an empty range. -/
def SafeResult (range : BoundRange) (res : Except Error (List α)) : Prop :=
  FailsIn NoPanic res ∧ ((∀ k, range.contains k = false) → ∀ xs, res = .ok xs → xs = [])

/-- **A scan is safe**: whatever it is told, it does not panic and finds nothing in an empty range;
and it returns where the stores answer. -/
structure ScansSafely (t : Transaction) (range : BoundRange) (op : ℕ → TxnM (List α)) : Prop where
  result : ∀ A, ScanAnswers A → ∀ fuel,
    ((op fuel).exec t).Sat AnyCall A fun r => SafeResult range r.1
  returns : ∀ ans regions, ServesScans ans regions → ∃ n, ∀ fuel, n ≤ fuel →
    (((op fuel).exec t).eval (S := sig) ans).isSome = true

lemma ScansSafely.map {op : ℕ → TxnM (List α)} (h : ScansSafely t range op) {β : Type} (f : α → β) :
    ScansSafely t range fun fuel => do
      let xs ← op fuel
      return xs.map f where
  result A hA fuel := by
    rw [exec_bind]
    refine (h.result A hA fuel).bind fun r hr => ?_
    obtain ⟨res, s⟩ := r
    cases res with
    | error e => exact ⟨failsIn_error (hr.1 e rfl), fun _ _ h => by cases h⟩
    | ok xs =>
      refine ⟨failsIn_ok _, fun hempty ys hys => ?_⟩
      cases hys
      rw [hr.2 hempty xs rfl, List.map_nil]
  returns ans regions hserves := by
    obtain ⟨n, hn⟩ := h.returns ans regions hserves
    refine ⟨n, fun fuel hfuel => ?_⟩
    rw [exec_bind]
    refine isSome_eval_bind (hn fuel hfuel) fun r => ?_
    obtain ⟨res, s⟩ := r
    cases res <;> rfl

/-- The map of the buffer takes the range. -/
def TakesRange (t : Transaction) (range : BoundRange) : Prop :=
  t.IsOpen → t.buffer.hasRoot = true → range.isInverted = false

lemma sat_scanInner {A : Answers} (hA : ScanAnswers A) {keyspace : Keyspace}
    (hrange : t.TakesRange range) (fuel limit : ℕ) (keyOnly reverse : Bool) :
    ((scanInner fuel (range.encodeKeyspace keyspace .txn) limit keyOnly reverse).exec t).Sat AnyCall
      A fun r => ScanPost (fun k => (range.encodeKeyspace keyspace .txn).contains k = true) r.1 := by
  unfold scanInner
  by_cases hopen : t.IsOpen
  · rw [exec_guarded_of_isOpen hopen]
    have hinverted : t.buffer.hasRoot = true →
        (range.encodeKeyspace keyspace .txn).isInverted = false := by
      rw [BoundRange.isInverted_encodeKeyspace]
      exact hrange hopen
    have hfetch := t.buffer.sat_scanAndFetch_inRange (A := A) hinverted limit (!keyOnly) reverse
      (f := fun range limit => scanPlan fuel t.options.retryOptions
        (newScanRequest (rangeKeys range) t.timestamp limit keyOnly reverse)) fun limit => by
      refine (sat_scanPlan hA fuel _ _).post fun res hres => ⟨hres.1, fun pairs hpairs p hp => ?_⟩
      have hin := hres.2 pairs hpairs p hp
      rw [scanRange_newScanRequest, rangeKeys_eq] at hin
      exact (BoundRange.contains_encodeKeyspace_iff_inRange range keyspace .txn p.key).mpr hin
    exact hfetch.bind fun r hr => hr
  · rw [exec_guarded_of_not_isOpen hopen]
    have herror : ScanPost (fun k => (range.encodeKeyspace keyspace .txn).contains k = true)
        (.error .operationAfterCommitError) := .error fun msg h => by cases h
    exact herror

lemma scansSafely_scanIn (hrange : t.TakesRange range) (keyspace : Keyspace)
    (limit : ℕ) (keyOnly reverse : Bool) :
    ScansSafely t range fun fuel => scanIn keyspace fuel range limit keyOnly reverse := by
  refine ScansSafely.map ⟨fun A hA fuel => ?_, fun ans regions hserves => ?_⟩ _
  · refine (sat_scanInner hA hrange fuel limit keyOnly reverse).post fun r hr => ⟨hr.1, ?_⟩
    intro hempty pairs hpairs
    refine List.eq_nil_iff_forall_not_mem.mpr fun p hp => ?_
    obtain ⟨u, hu⟩ := BoundRange.exists_contains_of_encodeKeyspace (hr.2 pairs hpairs p hp)
    rw [hempty u] at hu
    cases hu
  · exact ⟨regions.length * 3 + 1, fun fuel hfuel => hserves.isSome_eval_scanInner hfuel t _ _ _ _⟩

/-- With a range that the map refuses, an open transaction panics. -/
lemma exec_scan_of_isInverted (hopen : t.IsOpen) (hroot : t.buffer.hasRoot = true)
    (hrange : range.isInverted = true) (keyspace : Keyspace) (fuel limit : ℕ) :
    (scan keyspace fuel range limit).exec t =
      .ret (.error (.panicked "range start is greater than range end in BTreeMap"), t) := by
  have hinverted : (range.encodeKeyspace keyspace .txn).isInverted = true := by
    rw [BoundRange.isInverted_encodeKeyspace, hrange]
  have hinner : ∀ keyOnly reverse, (scanInner fuel (range.encodeKeyspace keyspace .txn) limit
      keyOnly reverse).exec t =
        .ret (.error (.panicked "range start is greater than range end in BTreeMap"), t) := by
    intro keyOnly reverse
    unfold scanInner
    rw [exec_guarded_of_isOpen hopen]
    have hfetch : t.buffer.scanAndFetch (m := Async) (range.encodeKeyspace keyspace .txn) limit
        (!keyOnly) reverse (fun range limit => scanPlan fuel t.options.retryOptions
          (newScanRequest (rangeKeys range) t.timestamp limit keyOnly reverse)) =
        .ret (t.buffer,
          .error (.panicked "range start is greater than range end in BTreeMap")) := by
      unfold Buffer.scanAndFetch
      rw [if_pos (by rw [hroot, hinverted]; rfl)]
      rfl
    exact congrArg (Prog.bind · fun r => .ret (r.2, { t with buffer := r.1 })) hfetch
  unfold scan scanIn
  rw [exec_bind, hinner]
  rfl

lemma scanAnswers_false : ScanAnswers fun _ _ => False where
  regionForKey _ _ h := h.elim
  mapRegionToStore _ _ h := h.elim
  updateLeader _ _ _ h := h.elim
  getTimestamp _ h := h.elim
  rpc _ _ _ h := h.elim
  inRange _ _ _ h := h.elim

/-- **A scan does not panic, unless its range begins after its end and the buffer has had an
entry.**  In a transaction that can still be read, the scans are safe for the ranges that the
`BTreeMap` of its buffer takes, in every keyspace. -/
theorem scansSafely_iff (t : Transaction) (keyspace : Keyspace) (range : BoundRange) (limit : ℕ) :
    (ScansSafely t range (fun fuel => scan keyspace fuel range limit) ∧
      ScansSafely t range (fun fuel => scanKeys keyspace fuel range limit) ∧
      ScansSafely t range (fun fuel => scanReverse keyspace fuel range limit) ∧
      ScansSafely t range fun fuel => scanKeysReverse keyspace fuel range limit) ↔
        (t.IsOpen → t.buffer.hasRoot = true → range.isInverted = false) := by
  constructor
  · rintro ⟨hscan, -⟩ hopen hroot
    by_contra hrange
    have hpanic := hscan.result _ scanAnswers_false 0
    rw [exec_scan_of_isInverted hopen hroot (by simpa using hrange)] at hpanic
    exact hpanic.1 _ rfl _ rfl
  · intro hrange
    exact ⟨scansSafely_scanIn hrange keyspace limit false false,
      (scansSafely_scanIn hrange keyspace limit true false).map _,
      scansSafely_scanIn hrange keyspace limit false true,
      (scansSafely_scanIn hrange keyspace limit true true).map _⟩

/-- From "a" to "z" they are safe, in a keyspace. -/
theorem scans_from_a_to_z_safe :
    (Transaction.new 7 .newOptimistic false).IsOpen ∧
      ScansSafely (Transaction.new 7 .newOptimistic false) ⟨.included ⟨[97]⟩, .excluded ⟨[122]⟩⟩
        fun fuel => scan (.enable 1) fuel ⟨.included ⟨[97]⟩, .excluded ⟨[122]⟩⟩ 10 :=
  ⟨.inr rfl, ((scansSafely_iff _ (.enable 1) _ 10).mpr fun _ _ => by decide).1⟩

/-- A transaction that has put "x". -/
def putX : Transaction :=
  { Transaction.new 7 .newOptimistic false with buffer := (Buffer.new false).put ⟨[120]⟩ [121] }

/-- From "b" to "a", a scan of a transaction that has put a key panics. -/
theorem scan_from_b_to_a_panics :
    ¬ ScansSafely putX ⟨.included ⟨[98]⟩, .excluded ⟨[97]⟩⟩
      fun fuel => scan .disable fuel ⟨.included ⟨[98]⟩, .excluded ⟨[97]⟩⟩ 10 := by
  intro h
  have hpanic := h.result _ scanAnswers_false 0
  rw [exec_scan_of_isInverted (.inr rfl) (by decide) (by decide)] at hpanic
  exact hpanic.1 _ rfl _ rfl

end Transaction

end TikvClient
