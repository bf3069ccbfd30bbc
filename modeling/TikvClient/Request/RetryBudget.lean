import TikvClient.Core.Budget
import TikvClient.Request.Routed
import Mathlib.Algebra.Order.BigOperators.Group.List
import Mathlib.Tactic.Ring

/-!
# How often a request is retried

`RetryableMultiRegion` goes back to `single_plan_handler` along seven edges.  Some take an attempt
of the backoff, some are bounded by the number of attempts made, and one is bounded by nothing: a
region error that `handle_region_error` resolves is retried at once.

**The measure.**  `retriesLeft` adds up the attempts of the backoff that are left, the attempts up
to the bound of the other edges, and the errors resolved at once that are still to come.  Every edge
decreases it.

**The rule.**  `BudgetPlan.within_retryMultiRegionRouted`: shards do not share keys, so every level
of the recursion sends at most one request per key.

**In flight.**  A request in flight when another shard fails could have been answered first, in
another run; so a bound on the requests answered, over all runs, is one on the requests sent.
-/

namespace TikvClient

open Proto Prog

variable {R Shard Resp : Type}

/-! ## What is counted -/

/-- Whether `handle_region_error` takes the error as resolved, unless the leader cannot be updated.
-/
def resolvedAtOnce (region : Region) : RegionError → Bool
  | .notLeader leader => leader.isSome
  | .storeNotMatch => true
  | .epochNotMatch currentRegions =>
    !currentRegions.isEmpty && onRegionEpochNotMatch region currentRegions
  | .regionNotFound => true
  | .keyNotInRegion => true
  | _ => false

/-- The region error of a response. -/
def Proto.Request.regionError : (request : Request) → request.Response → Option RegionError
  | .get _, resp => GetResponse.regionError resp
  | .batchGet _, resp => BatchGetResponse.regionError resp
  | .scan _, resp => ScanResponse.regionError resp
  | .prewrite _, resp => PrewriteResponse.regionError resp
  | .flush _, resp => FlushResponse.regionError resp
  | .commit _, resp => CommitResponse.regionError resp
  | .batchRollback _, resp => BatchRollbackResponse.regionError resp
  | .pessimisticRollback _, resp => PessimisticRollbackResponse.regionError resp
  | .pessimisticLock _, resp => PessimisticLockResponse.regionError resp
  | .txnHeartBeat _, resp => TxnHeartBeatResponse.regionError resp
  | .cleanup _, resp => CleanupResponse.regionError resp
  | .resolveLock _, resp => ResolveLockResponse.regionError resp

def Proto.RawRequest.regionError : (request : RawRequest) → request.Response → Option RegionError
  | .get _, resp => RawGetResponse.regionError resp
  | .getKeyTtl _, resp => RawGetKeyTtlResponse.regionError resp
  | .batchGet _, resp => RawBatchGetResponse.regionError resp
  | .put _, resp | .batchPut _, resp | .delete _, resp | .batchDelete _, resp =>
    RawWriteResponse.regionError resp
  | .cas _, resp => RawCasResponse.regionError resp
  | .scan _, resp => RawScanResponse.regionError resp
  | .deleteRange _, resp => RawDeleteRangeResponse.regionError resp
  | .checksum _, resp => RawChecksumResponse.regionError resp

def Proto.GcRequest.regionError : (request : GcRequest) → request.Response → Option RegionError
  | .scanLock _, resp => ScanLockResponse.regionError resp
  | .checkTxnStatus _, resp => CheckTxnStatusResponse.regionError resp
  | .checkSecondaryLocks _, resp => CheckSecondaryLocksResponse.regionError resp
  | .batchResolveLock _, resp => ResolveLockResponse.regionError resp

/-- Requests to stores are counted. -/
def dispatchCost : Call → ℕ
  | .rpc _ _ | .rawRpc _ _ | .gcRpc _ _ => 1
  | _ => 0

/-- Whether the response has a region error that is resolved at once. -/
def markOf {Resp : Type} (region : Region) (regionError : Resp → Option RegionError) :
    Except Error Resp → ℕ
  | .ok resp => if (regionError resp).any (resolvedAtOnce region) then 1 else 0
  | .error _ => 0

/-- Answers with a region error that is resolved at once are marked. -/
def resolvedMark : (c : Call) → c.Ans → ℕ
  | .rpc region request, ans => markOf region request.regionError ans
  | .rawRpc region request, ans => markOf region request.regionError ans
  | .gcRpc region request, ans => markOf region request.regionError ans
  | _, _ => 0

lemma markOf_le {Resp : Type} (region : Region) (regionError : Resp → Option RegionError)
    (ans : Except Error Resp) : markOf region regionError ans ≤ 1 := by
  unfold markOf
  split
  · split_ifs <;> omega
  · exact Nat.zero_le _

lemma resolvedMark_le (c : Call) (ans : c.Ans) : resolvedMark c ans ≤ dispatchCost c := by
  cases c with
  | rpc region request | rawRpc region request | gcRpc region request => exact markOf_le ..
  | _ => exact Nat.zero_le _

/-- The requests that a run was answered. -/
abbrev dispatches (tr : Trace) : ℕ := traceCost (S := sig) dispatchCost tr

/-- The answers of a run whose region error is resolved at once. -/
abbrev resolvedAnswers (tr : Trace) : ℕ := traceMarks (S := sig) resolvedMark tr

/-- Within a budget of requests. -/
abbrev Dispatches {α : Type} (Q : ℕ → α → Prop) (r d n : ℕ) (p : Async α) : Prop :=
  p.Within (S := sig) dispatchCost resolvedMark Q r d n

/-! ## The measure -/

def Backoff.left (b : Backoff) : ℕ := b.maxAttempts - b.currentAttempts

lemma Backoff.left_of_nextDelay {b b' : Backoff} (h : b.nextDelay = some b') :
    b'.left < b.left := by
  unfold Backoff.nextDelay at h
  split_ifs at h with hmax hnone
  cases h
  simp only [Backoff.left]
  omega

/-- The retries that may follow: those that take an attempt of the backoff, those that are made
before attempt `bound`, and those of `r` errors resolved at once. -/
def retriesLeft (bound : ℕ) (backoff : Backoff) (attempt r : ℕ) : ℕ :=
  backoff.left + (bound - attempt) + r

/-- Retries of requests of size `n` with fewer than `m` retries left keep to `d` steps and cost
`c`. -/
def RetriesWithin (size : R → ℕ) (bound : ℕ) (retry : ShardedPlan.Retry R Resp)
    (n m d c : ℕ) : Prop :=
  ∀ request backoff attempt r, size request = n → retriesLeft bound backoff attempt r < m →
    Dispatches (fun _ _ => True) r d c (retry request backoff attempt)

/-- An answer whose error is resolved at once takes a mark. -/
abbrev TakesMark (region : Region) (regionError : Resp → Option RegionError) (r s : ℕ)
    (res : Except Error Resp) : Prop :=
  ∀ resp e, res = .ok resp → regionError resp = some e → resolvedAtOnce region e = true → s < r

/-- The plan sends one request, with a mark if its error is resolved at once. -/
def SendsOne (plan : ShardedPlan R Shard Resp) : Prop :=
  ∀ r region request, Dispatches (TakesMark region plan.regionError r) r 1 1
    (plan.execute region request)

/-- **A plan whose shards have parts of the request**, and that sends a shard as one request. -/
structure BudgetPlan (plan : ShardedPlan R Shard Resp) (size : R → ℕ) : Prop where
  shards : ∀ r request, Dispatches (fun _ res => ∀ ss, res = .ok ss →
    (∀ s ∈ ss, 0 < size (plan.applyShard request s.1)) ∧
      (ss.map fun s => size (plan.applyShard request s.1)).sum ≤ size request)
    r (size request) 0 (plan.shards request)
  applyStore : ∀ attempt request, size (plan.applyStore attempt request) = size request
  execute : SendsOne plan

/-! ## The handlers -/

section Calls

variable {r : ℕ}

lemma dispatches_mapRegionToStore (region : Region) :
    Dispatches (fun _ _ => True) r 1 0 (Async.mapRegionToStore region) :=
  (within_ask (S := sig) (.mapRegionToStore region)).mono (Nat.le_refl _) (Nat.le_refl _)
    fun _ _ _ _ => trivial

lemma dispatches_choose {α : Type} (a : α) (as : List α) :
    Dispatches (fun _ _ => True) r 1 0 (Prog.choose a as) := by
  cases as with
  | nil => trivial
  | cons b bs => exact ⟨Nat.one_pos, Nat.succ_pos _, fun _ => trivial⟩

lemma dispatches_takePendingBackoff (policy : RoutingPolicy) :
    Dispatches (fun _ _ => True) r 1 0 policy.takePendingBackoff := by
  unfold RoutingPolicy.takePendingBackoff
  split_ifs
  · exact dispatches_choose false [true]
  · trivial

lemma dispatches_handleRegionError (e : RegionError) (region : Region) :
    Dispatches (fun _ res => res = .ok true → resolvedAtOnce region e = true) r 1 0
      (handleRegionError e region) := by
  cases e with
  | notLeader leader =>
    cases leader with
    | none => exact fun h => by cases h
    | some leader =>
      refine ⟨Nat.one_pos, Nat.le_refl _, fun ans s _ => ?_⟩
      rcases ans with e | ⟨⟩
      · exact fun h => by cases h
      · exact fun _ => rfl
  | epochNotMatch currentRegions =>
    cases currentRegions with
    | nil => exact fun h => by cases h
    | cons region' rest => exact fun h => by simpa [resolvedAtOnce] using h
  | storeNotMatch | regionNotFound | keyNotInRegion => exact fun _ => rfl
  | _ => exact fun h => by cases h

end Calls

namespace BudgetPlan

variable {plan : ShardedPlan R Shard Resp} {size : R → ℕ} {policy : RoutingPolicy}
  {bound r m d c : ℕ} {retry : ShardedPlan.Retry R Resp} {request : R} {backoff : Backoff}
  {attempt : ℕ}

open ShardedPlan

lemma retriesLeft_mono {backoff' : Backoff} {r' : ℕ} (hleft : backoff'.left ≤ backoff.left)
    (hr : r' ≤ r) :
    retriesLeft bound backoff' attempt r' ≤ retriesLeft bound backoff attempt r := by
  simp only [retriesLeft]
  omega

lemma left_applyPending {pending : Bool} {backoff' : Backoff}
    (h : applyPending pending backoff = some backoff') : backoff'.left ≤ backoff.left := by
  unfold applyPending at h
  split_ifs at h
  · exact (Backoff.left_of_nextDelay h).le
  · cases h
    exact le_rfl

variable (h : BudgetPlan plan size) (hstale : maxStaleReadRetries ≤ bound)
  (hpeers : ∀ region, policy.nonWitnessPeers region ≤ bound)

section Retries

variable (hretry : RetriesWithin size bound retry (size request) m d c)
  (hm : retriesLeft bound backoff attempt r ≤ m)

include hretry hm

/-- A retry that takes an attempt of the backoff, at this attempt or a later one. -/
lemma within_backoff {next : ℕ} (hnext : attempt ≤ next) (e : Error) :
    Dispatches (fun _ _ => True) r d c
      (match backoff.nextDelay with
      | some backoff => retry request backoff next
      | none => .ret (.error e)) := by
  cases hdelay : backoff.nextDelay with
  | none => trivial
  | some backoff' =>
    refine hretry request backoff' next r rfl ?_
    have := Backoff.left_of_nextDelay hdelay
    simp only [retriesLeft] at hm ⊢
    omega

lemma within_early (hbound : attempt < bound) :
    Dispatches (fun _ _ => True) r d c (retry request backoff (attempt + 1)) := by
  refine hretry request backoff (attempt + 1) r rfl ?_
  simp only [retriesLeft] at hm ⊢
  omega

lemma within_handleOtherError (e : Error) :
    Dispatches (fun _ _ => True) r d c
      (handleOtherError retry request backoff (attempt + 1) e) :=
  within_backoff hretry hm (Nat.le_add_right attempt 2) e

include hstale hpeers

/-- **What follows a response.**  Every edge back to the plan handler leaves fewer retries. -/
lemma within_handleRoutedResponse {s : ℕ} (hs : s ≤ r) (region : Region) (staleRead : Bool)
    (resp : Resp)
    (hmark : ∀ e, plan.regionError resp = some e → resolvedAtOnce region e = true → s < r) :
    Dispatches (fun _ _ => True) s (1 + d) (0 + c)
      (plan.handleRoutedResponse policy retry request region staleRead backoff attempt resp) := by
  have hm' : ∀ s' ≤ s, retriesLeft bound backoff attempt s' ≤ m := by
    intro s' hs'
    simp only [retriesLeft] at hm ⊢
    omega
  have hwide : ∀ {p : AsyncResult (ShardResults R Resp)},
      Dispatches (fun _ _ => True) s d c p → Dispatches (fun _ _ => True) s (1 + d) (0 + c) p :=
    fun h => h.mono (by omega) (by omega) fun _ _ _ h => h
  have hpeers' := hpeers region
  unfold handleRoutedResponse
  split
  next => trivial
  next => trivial
  next e _ he =>
    split
    next =>
      split
      next => trivial
      next hattempt => exact hwide (within_early hretry (hm' s le_rfl) (by omega))
    next =>
      split
      next =>
        split
        next => trivial
        next hattempt => exact hwide (within_early hretry (hm' s le_rfl) (by omega))
      next =>
        refine (dispatches_handleRegionError e region).andThen (fun s' resolved hs' hres => ?_)
          fun _ _ _ => trivial
        cases resolved with
        | true =>
          -- resolved at once: one of the marked answers
          have hlt := hmark e he (hres rfl)
          refine hretry request backoff (attempt + 1) s' rfl ?_
          simp only [retriesLeft] at hm ⊢
          omega
        | false =>
          rw [if_neg Bool.false_ne_true]
          split
          next hbusy =>
            simp only [Bool.and_eq_true, decide_eq_true_eq] at hbusy
            exact within_early hretry (hm' s' hs') (by omega)
          next => exact within_backoff hretry (hm' s' hs') (Nat.le_succ attempt) _

include h

/-- **One shard**: one request, and then at most a retry. -/
lemma within_routedShardHandler (region : Region) :
    Dispatches (fun _ _ => True) r (5 + d) (1 + c)
      (plan.routedShardHandler policy retry request region backoff attempt) := by
  have hm' : ∀ s ≤ r, retriesLeft bound backoff attempt s ≤ m :=
    fun s hs => (retriesLeft_mono le_rfl hs).trans hm
  have hother : ∀ s ≤ r, ∀ e, Dispatches (fun _ _ => True) s d c
      (handleOtherError retry request backoff (attempt + 1) e) :=
    fun s hs e => within_handleOtherError hretry (hm' s hs) e
  unfold routedShardHandler
  split
  next => exact (hother r le_rfl _).mono (by omega) (by omega) fun _ _ _ h => h
  next candidate candidates _ =>
    refine ((dispatches_choose candidate candidates).bind (e := 4 + d) (m := 1 + c)
      fun s peer hs _ => ?_).mono (by omega) (by omega) fun _ _ _ h => h
    refine ((dispatches_mapRegionToStore _).bind (e := 3 + d) (m := 1 + c)
      fun s' mapped hs' _ => ?_).mono (by omega) (by omega) fun _ _ _ h => h
    have hs'' := hs'.trans hs
    split
    next => exact (hother s' hs'' _).mono (by omega) (by omega) fun _ _ _ h => h
    next => trivial
    next =>
      refine ((dispatches_takePendingBackoff policy).bind (e := 2 + d) (m := 1 + c)
        fun s₁ pending hs₁ _ => ?_).mono (by omega) (by omega) fun _ _ _ h => h
      have hs₁' := hs₁.trans hs''
      split
      next => trivial
      next backoff' hbackoff =>
        have hleft := left_applyPending hbackoff
        have hretry' : RetriesWithin size bound retry
            (size (plan.applyStore attempt request)) m d c := by
          rwa [h.applyStore]
        have hm₁ : ∀ s ≤ r, retriesLeft bound backoff' attempt s ≤ m :=
          fun s hs => (retriesLeft_mono hleft hs).trans hm
        refine ((h.execute s₁ _ _).bind (e := 1 + d) (m := 0 + c)
          fun s₂ res hs₂ hmark => ?_).mono (by omega) (by omega) fun _ _ _ h => h
        split
        next e =>
          split_ifs
          · exact (within_handleOtherError hretry' (hm₁ s₂ (hs₂.trans hs₁')) e).mono (by omega)
              (by omega) fun _ _ _ h => h
          · trivial
        next resp =>
          exact within_handleRoutedResponse hstale hpeers hretry' (hm₁ s₁ hs₁') hs₂ _ _ resp
            fun e he => hmark resp e rfl he

end Retries

/-! ## The recursion -/

/-- The steps per key, with `m` levels of retries. -/
def stepsPerKey : ℕ → ℕ
  | 0 => 0
  | m + 1 => 13 + 2 * stepsPerKey m

/-- The jobs of a level: for every shard, its handler. -/
def shardJobs (plan : ShardedPlan R Shard Resp) (size : R → ℕ) (policy : RoutingPolicy)
    (retry : Retry R Resp) (request : R) (backoff : Backoff) (attempt m : ℕ)
    (shards : List (Shard × Region)) : List (Job sig Error (Except Error (R × Resp))) :=
  shards.map fun s =>
    let part := plan.applyShard request s.1
    ⟨plan.routedShardHandler policy retry part s.2 backoff attempt,
      5 + size part * stepsPerKey m, 1 + size part * m⟩

lemma sum_parts_le {α : Type} (part : α → ℕ) (k m : ℕ) (l : List α) (h : ∀ x ∈ l, 0 < part x) :
    (l.map fun x => k + part x * m).sum ≤ (l.map part).sum * (k + m) := by
  induction l with
  | nil => simp
  | cons x l ih =>
    rw [List.forall_mem_cons] at h
    have hx : k ≤ part x * k := Nat.le_mul_of_pos_left k h.1
    have := ih h.2
    simp only [List.map_cons, List.sum_cons, Nat.add_mul, Nat.mul_add] at this ⊢
    omega

section Totals

variable (plan : ShardedPlan R Shard Resp) (policy : RoutingPolicy) (retry : Retry R Resp)
  (backoff : Backoff) (attempt m : ℕ) {shards : List (Shard × Region)}

lemma total_shardJobs_le (hpos : ∀ s ∈ shards, 0 < size (plan.applyShard request s.1)) :
    Job.total (shardJobs plan size policy retry request backoff attempt m shards) ≤
      (shards.map fun s => size (plan.applyShard request s.1)).sum * (6 + stepsPerKey m) := by
  have hle := sum_parts_le (fun s : Shard × Region => size (plan.applyShard request s.1)) 6
    (stepsPerKey m) shards hpos
  refine le_of_eq_of_le ?_ hle
  simp only [Job.total, shardJobs, List.map_map]
  refine congrArg List.sum (List.map_congr_left fun s _ => ?_)
  simp only [Function.comp_apply]
  omega

lemma totalCost_shardJobs_le (hpos : ∀ s ∈ shards, 0 < size (plan.applyShard request s.1)) :
    Job.totalCost (shardJobs plan size policy retry request backoff attempt m shards) ≤
      (shards.map fun s => size (plan.applyShard request s.1)).sum * (1 + m) := by
  have hle := sum_parts_le (fun s : Shard × Region => size (plan.applyShard request s.1)) 1 m
    shards hpos
  simpa [Job.totalCost, shardJobs, Function.comp_def] using hle

end Totals

include h hstale hpeers

/-- **A level and the levels below it**: with fewer than `m` retries left, every key is sent at most
`m` times. -/
theorem within_routedPlanHandler (preserve : Bool) (m : ℕ) :
    ∀ (fuel r : ℕ) (request : R) (backoff : Backoff) (attempt : ℕ),
      retriesLeft bound backoff attempt r < m → size request * stepsPerKey m < fuel →
      Dispatches (fun _ _ => True) r (size request * stepsPerKey m) (size request * m)
        (plan.routedPlanHandler policy preserve fuel request backoff attempt) := by
  induction m with
  | zero => exact fun _ _ _ _ _ hm => absurd hm (Nat.not_lt_zero _)
  | succ m ih =>
    intro fuel r request backoff attempt hm hfuel
    obtain ⟨fuel, rfl⟩ : ∃ f, fuel = f + 1 := ⟨fuel - 1, by omega⟩
    refine ((h.shards r request).andThen
      (e := 2 * (size request * (6 + stepsPerKey m))) (m := size request * (1 + m))
      (fun s shards hs hshards => ?_) fun _ _ _ => trivial).mono ?_ ?_ fun _ _ _ h => h
    · obtain ⟨hpos, hsum⟩ := hshards shards rfl
      have hjobs : shards.map (fun x => plan.routedShardHandler policy
          (plan.routedPlanHandler policy preserve fuel) (plan.applyShard request x.1) x.2 backoff
            attempt) =
          (shardJobs plan size policy (plan.routedPlanHandler policy preserve fuel) request backoff
            attempt m shards).map Job.prog := by
        simp [shardJobs, Function.comp_def]
      rw [hjobs]
      have hfuel' : size request * (6 + stepsPerKey m) ≤ fuel := by
        simp only [stepsPerKey, Nat.mul_add] at hfuel ⊢
        have : size request * (2 * stepsPerKey m) = 2 * (size request * stepsPerKey m) := by ring
        omega
      have htotal := total_shardJobs_le plan policy (plan.routedPlanHandler policy preserve fuel)
        backoff attempt m hpos
      have hcost := totalCost_shardJobs_le plan policy (plan.routedPlanHandler policy preserve fuel)
        backoff attempt m hpos
      replace htotal := htotal.trans (Nat.mul_le_mul_right (6 + stepsPerKey m) hsum)
      replace hcost := hcost.trans (Nat.mul_le_mul_right (1 + m) hsum)
      refine (Within.join fuel s _ [] (fun j hj => ?_) (htotal.trans hfuel')).mono
        (Nat.mul_le_mul_left 2 htotal) hcost fun _ _ _ h => h
      obtain ⟨x, hx, rfl⟩ := List.mem_map.mp hj
      have hle : size (plan.applyShard request x.1) ≤ size request :=
        (List.single_le_sum (fun _ _ => Nat.zero_le _) _ (List.mem_map_of_mem hx)).trans hsum
      refine h.within_routedShardHandler hstale hpeers ?_
        (show retriesLeft bound backoff attempt s ≤ m from ?_) x.2
      · intro request' backoff' attempt' r' hsize hleft
        rw [← hsize]
        refine ih fuel r' request' backoff' attempt' hleft ?_
        rw [hsize]
        have hmul := Nat.mul_le_mul_right (stepsPerKey m) hle
        have hposx := hpos x hx
        simp only [Nat.mul_add] at hfuel'
        omega
      · exact (retriesLeft_mono le_rfl hs).trans (Nat.lt_succ_iff.mp hm)
    · simp only [stepsPerKey]
      apply le_of_eq
      ring
    · apply le_of_eq
      ring

/-- **Retries are bounded by the measure**: every key is sent at most once for every retry left, and
once more. -/
theorem within_retryMultiRegionRouted (preserve : Bool) (request : R) (backoff : Backoff) (r : ℕ)
    {fuel : ℕ}
    (hfuel : size request * stepsPerKey (backoff.left + bound + r + 1) < fuel) :
    Dispatches (fun _ _ => True) r (size request * stepsPerKey (backoff.left + bound + r + 1))
      (size request * (backoff.left + bound + r + 1))
      (plan.retryMultiRegionRouted policy preserve fuel request backoff) :=
  h.within_routedPlanHandler hstale hpeers preserve _ fuel r request backoff 0
    (by simp only [retriesLeft]; omega) hfuel

end BudgetPlan

end TikvClient
