import TikvClient.Raw.Client
import TikvClient.Request.RetryBudget
import TikvClient.Transaction.Cleanup
import TikvClient.Transaction.RequestLemmas

/-!
# Retries of requests for keys

How many requests `RetryableMultiRegion` sends for a request with finitely many keys, against
stores, regions and lookups that answer anything.

**Bounded.**  `retries_bounded`: a bound in the number of keys, the attempts of the backoff, the
peers of a region, and the answers whose region error is resolved at once; without such answers, one
in the first three.

**Unbounded.**  `endless_not_leader`: a store that keeps naming another leader is asked forever,
with no backoff in between, whatever the backoff allows.
-/

namespace TikvClient

open Proto Prog

variable {R Shard Resp : Type}

/-- **Retries are bounded**, if no region has more than so many peers: with enough fuel, no run in
which at most `resolved` answers carry a region error that is resolved at once sends more than so
many requests, and every such run can go on until it returns.  Each of these answers is one to a
request, so that without a bound on them there is none on the requests. -/
def RetriesBounded (policy : RoutingPolicy) (peers : ℕ) (plan : ShardedPlan R Shard Resp)
    (size : R → ℕ) : Prop :=
  ∀ (preserve : Bool) (request : R) (backoff : Backoff) (resolved : ℕ),
    ∃ enough, ∀ fuel ≥ enough, ∀ tr rest,
      Steps (plan.retryMultiRegionRouted policy preserve fuel request backoff) tr rest →
      resolvedAnswers tr ≤ resolved →
      resolvedAnswers tr ≤ dispatches tr ∧
        dispatches tr ≤
          size request * (backoff.left + max maxStaleReadRetries peers + resolved + 1) ∧
        tr.length ≤ enough ∧ ¬ rest.IsStuck

lemma retriesBounded_of_budgetPlan {policy : RoutingPolicy} {peers : ℕ}
    (hpeers : ∀ region, policy.nonWitnessPeers region ≤ peers) {plan : ShardedPlan R Shard Resp}
    {size : R → ℕ} (h : BudgetPlan plan size) : RetriesBounded policy peers plan size := by
  intro preserve request backoff resolved
  have hbound : ∀ region, policy.nonWitnessPeers region ≤ max maxStaleReadRetries peers :=
    fun region => (hpeers region).trans (le_max_right _ _)
  refine ⟨size request * BudgetPlan.stepsPerKey
    (backoff.left + max maxStaleReadRetries peers + resolved + 1) + 1, fun fuel hfuel tr rest hrun
      hresolved => ?_⟩
  have hwithin := h.within_retryMultiRegionRouted (le_max_left _ _) hbound preserve request backoff
    resolved (Nat.lt_of_succ_le hfuel)
  obtain ⟨hcost, hlen, hstuck⟩ := hwithin.of_steps hrun hresolved
  exact ⟨traceMarks_le_traceCost resolvedMark_le tr, hcost, by omega, hstuck⟩

/-! ## Shards -/

section Shards

variable {ι S : Type} {r : ℕ}

lemma dispatches_groupKeysAux (keyOf : ι → Key) (items : List ι) :
    ∀ r run, Dispatches (fun _ _ => True) r items.length 0 (groupKeysAux keyOf run items) := by
  induction items with
  | nil =>
    intro r run
    cases run <;> trivial
  | cons x xs ih =>
    intro r run
    have hlookup : ∀ s, Dispatches (fun _ _ => True) s 1 0 (Async.regionForKey (keyOf x)) :=
      fun s => (within_ask (S := sig) (.regionForKey (keyOf x))).mono (Nat.le_refl _) (Nat.le_refl _)
        fun _ _ _ _ => trivial
    have hstart : ∀ s region, Dispatches (fun _ _ => True) s xs.length 0
        (groupKeysAux keyOf (some ([x], region)) xs) := fun s region => ih s _
    rw [List.length_cons, Nat.add_comm]
    cases run with
    | none =>
      refine (hlookup r).bind (m := 0) fun s found _ _ => ?_
      cases found with
      | ok region => exact hstart s region
      | error e => trivial
    | some run =>
      obtain ⟨run, region⟩ := run
      unfold groupKeysAux
      split_ifs
      · exact (ih r _).mono (by omega) (Nat.le_refl _) fun _ _ _ h => h
      · refine (hlookup r).bind (m := 0) fun s found _ _ => ?_
        cases found with
        | ok next => exact (hstart s next).bind (e := 0) (m := 0) fun _ _ _ _ => trivial
        | error e => trivial

/-- **Shards that are looked up**, at most once for each key: none is empty, and together they are
no larger than the request. -/
def ShardsWithin (sizeOf : S → ℕ) (r n : ℕ) (p : AsyncResult (List (S × Region))) : Prop :=
  Dispatches (fun _ res => ∀ ss, res = .ok ss → (∀ s ∈ ss, 0 < sizeOf s.1) ∧
    (ss.map fun s => sizeOf s.1).sum ≤ n) r n 0 p

/-- Shards that are made of the runs of the items, and have parts of them that are not empty. -/
lemma shardsWithin_runs (keyOf : ι → Key) (items : List ι) (itemsOf : S → List ι)
    {f : List (List ι × Region) × Option Error → Except Error (List (S × Region))}
    (hsat : ((groupKeysAux keyOf none (sortByKey keyOf items)).bind fun stream =>
        Prog.ret (f stream)).Sat (fun _ => True) (fun _ _ => True) fun res => ∀ ss, res = .ok ss →
      (∀ s ∈ ss, itemsOf s.1 ≠ []) ∧ (ss.flatMap fun s => itemsOf s.1).Subperm items) :
    ShardsWithin (fun s => (itemsOf s).length) r items.length
      ((groupKeysAux keyOf none (sortByKey keyOf items)).bind fun stream => .ret (f stream)) := by
  have hlookups := dispatches_groupKeysAux keyOf (sortByKey keyOf items) r none
  rw [(perm_sortByKey keyOf items).length_eq] at hlookups
  have hp := hlookups.bind (R := fun _ _ => True) (f := fun stream => Prog.ret (f stream)) (e := 0)
    (m := 0) fun _ _ _ _ => trivial
  refine (hp.and_sat hsat).mono (Nat.le_refl _) (Nat.le_refl _) fun _ res _ hres ss hss => ?_
  obtain ⟨hne, hsub⟩ := hres.2 ss hss
  refine ⟨fun s hs => List.length_pos_iff.mpr (hne s hs), ?_⟩
  rw [← List.length_flatMap]
  exact hsub.length_le

lemma shardsWithin_byRegion (keyOf : ι → Key) (items : List ι) :
    ShardsWithin List.length r items.length (shardsByRegion keyOf items) :=
  shardsWithin_runs keyOf items id ((sat_shardsByRegion routing_true keyOf items).post
    fun _ h ss hss => ⟨(h ss hss).nonempty, (h ss hss).part.subperm⟩)

lemma shardsWithin_batched (keyOf : ι → Key) (itemSize : ι → ℕ) (toShard : List ι → List ι → S)
    (itemsOf : S → List ι) (hitems : ∀ run batch, itemsOf (toShard run batch) = batch)
    (batchSize : ℕ) (items : List ι) :
    ShardsWithin (fun s => (itemsOf s).length) r items.length
      (batchedShards keyOf itemSize toShard batchSize items) :=
  shardsWithin_runs keyOf items itemsOf ((sat_batchedShards routing_true itemsOf hitems keyOf
    items).post fun _ h ss hss =>
      ⟨fun s hs => ((h ss hss).1 s hs).1.nonempty, (h ss hss).2.subperm⟩)

lemma shardsWithin_key (key : Key) :
    ShardsWithin (fun _ => 1) r 1 (regionStreamForKeys id [key]) :=
  (shardsWithin_byRegion id [key]).mono (Nat.le_refl _) (Nat.le_refl _) fun _ _ _ hres ss hss => by
    obtain ⟨hpos, hsum⟩ := hres ss hss
    refine ⟨fun _ _ => Nat.one_pos, (List.sum_le_sum fun s hs => ?_).trans hsum⟩
    exact hpos s hs

end Shards

/-! ## The plans -/

section Plans

variable {ι : Type} {plan : ShardedPlan R (List Key) Resp}

lemma lt_of_markOf {region : Region} {regionError : Resp → Option RegionError}
    {ans : Except Error Resp} {s r : ℕ} (hs : markOf region regionError ans + s = r) :
    TakesMark region regionError r s ans := by
  intro resp e hans he hresolved
  subst hans
  simp only [markOf, he, Option.any_some, hresolved, if_true] at hs
  omega

lemma dispatches_rpc (r : ℕ) (region : Region) (request : Request) :
    Dispatches (TakesMark region request.regionError r) r 1 1 (Async.rpc region request) :=
  (within_ask (S := sig) (.rpc region request)).mono (Nat.le_refl _) (Nat.le_refl _)
    fun _ _ _ => lt_of_markOf

lemma dispatches_rawRpc (r : ℕ) (region : Region) (request : RawRequest) :
    Dispatches (TakesMark region request.regionError r) r 1 1 (Async.rawRpc region request) :=
  (within_ask (S := sig) (.rawRpc region request)).mono (Nat.le_refl _) (Nat.le_refl _)
    fun _ _ _ => lt_of_markOf

lemma dispatches_gcRpc (r : ℕ) (region : Region) (request : GcRequest) :
    Dispatches (TakesMark region request.regionError r) r 1 1 (Async.gcRpc region request) :=
  (within_ask (S := sig) (.gcRpc region request)).mono (Nat.le_refl _) (Nat.le_refl _)
    fun _ _ _ => lt_of_markOf

lemma budgetPlan_key (keyOf : R → Key)
    (hshards : ∀ request, plan.shards request = regionStreamForKeys id [keyOf request])
    (hsend : SendsOne plan) : BudgetPlan plan fun _ => 1 where
  shards r request := by
    rw [hshards]
    exact shardsWithin_key _
  applyStore _ _ := rfl
  execute := hsend

/-- Requests for a list of items, of which a shard is a part. -/
lemma budgetPlan_items {plan : ShardedPlan R (List ι) Resp} (itemsOf : R → List ι)
    (hshards : ∀ r request, ShardsWithin List.length r (itemsOf request).length
      (plan.shards request))
    (happly : ∀ request shard, itemsOf (plan.applyShard request shard) = shard)
    (hstore : ∀ attempt request, plan.applyStore attempt request = request)
    (hsend : SendsOne plan) : BudgetPlan plan fun request => (itemsOf request).length where
  shards r request := by
    simp only [happly]
    exact hshards r request
  applyStore attempt request := by rw [hstore]
  execute := hsend

lemma budgetPlan_prewrite : BudgetPlan Dispatch.prewrite.plan fun r => r.mutations.length where
  shards r request := shardsWithin_batched (r := r) Proto.Mutation.key mutationSize
    (fun run batch => PrewriteShard.mk batch run.length) PrewriteShard.mutations (fun _ _ => rfl)
    txnCommitBatchSize request.mutations
  applyStore attempt request := by
    simp only [Dispatch.plan, Dispatch.prewrite, PrewriteRequest.applyStore]
    split_ifs <;> rfl
  execute r region request := dispatches_rpc r region (.prewrite request)

/-- Pairs without a time to live are not sent. -/
lemma budgetPlan_rawBatchPut : BudgetPlan rawBatchPutPlan fun r => r.pairs.length where
  shards r request := by
    have hle : (request.pairs.zip request.ttls).length ≤ request.pairs.length := by simp
    refine (shardsWithin_batched _ _ (fun _ batch => batch) id (fun _ _ => rfl) _
      (request.pairs.zip request.ttls)).mono hle (Nat.le_refl _) fun _ res _ hres ss hss => ?_
    obtain ⟨hpos, hsum⟩ := hres ss hss
    simp only [rawBatchPutPlan, List.unzip_fst, List.length_map]
    exact ⟨hpos, hsum.trans hle⟩
  applyStore _ _ := rfl
  execute r region request := dispatches_rawRpc r region (.batchPut request)

/-- Plans of requests for keys, with the number of keys of a request. -/
structure KeyRequests where
  {R Shard Resp : Type}
  plan : ShardedPlan R Shard Resp
  size : R → ℕ

/-- **The requests with finitely many keys.** -/
def keyRequests : List KeyRequests :=
  [⟨Dispatch.commit.plan, fun r => r.keys.length⟩,
    ⟨Dispatch.prewrite.plan, fun r => r.mutations.length⟩,
    ⟨Dispatch.flush.plan, fun r => r.mutations.length⟩,
    ⟨Dispatch.pessimisticLock.plan, fun r => r.mutations.length⟩,
    ⟨Dispatch.batchGet.plan, fun r => r.keys.length⟩,
    ⟨Dispatch.batchRollback.plan, fun r => r.keys.length⟩,
    ⟨Dispatch.pessimisticRollback.plan, fun r => r.keys.length⟩,
    ⟨checkSecondaryLocksPlan, fun r => r.keys.length⟩,
    ⟨rawBatchGetPlan, fun r => r.keys.length⟩,
    ⟨rawBatchPutPlan, fun r => r.pairs.length⟩,
    ⟨rawBatchDeletePlan, fun r => r.keys.length⟩,
    ⟨Dispatch.get.plan, fun _ => 1⟩, ⟨Dispatch.txnHeartBeat.plan, fun _ => 1⟩,
    ⟨Dispatch.cleanup.plan, fun _ => 1⟩, ⟨checkTxnStatusPlan, fun _ => 1⟩,
    ⟨rawGetPlan, fun _ => 1⟩, ⟨rawGetKeyTtlPlan, fun _ => 1⟩, ⟨rawPutPlan, fun _ => 1⟩,
    ⟨rawDeletePlan, fun _ => 1⟩, ⟨rawCasPlan, fun _ => 1⟩]

/-- Each of them is sharded by its keys, and sends a shard as one request. -/
lemma budgetPlan_keyRequests : ∀ k ∈ keyRequests, BudgetPlan k.plan k.size := by
  simp only [keyRequests, List.forall_mem_cons]
  refine ⟨?commit, budgetPlan_prewrite, ?flush, ?pessimisticLock, ?batchGet, ?batchRollback,
    ?pessimisticRollback, ?checkSecondaryLocks, ?rawBatchGet, budgetPlan_rawBatchPut,
    ?rawBatchDelete, ?get, ?txnHeartBeat, ?cleanup, ?checkTxnStatus, ?rawGet, ?rawGetKeyTtl,
    ?rawPut, ?rawDelete, ?rawCas, by simp⟩
  case commit =>
    exact budgetPlan_items _ (fun _ r => shardsWithin_batched _ _ _ id (fun _ _ => rfl) _ r.keys)
      (fun _ _ => rfl) (fun _ _ => rfl) fun r region _ => dispatches_rpc r region _
  case flush =>
    exact budgetPlan_items _
      (fun _ r => shardsWithin_batched _ _ _ id (fun _ _ => rfl) _ r.mutations)
      (fun _ _ => rfl) (fun _ _ => rfl) fun r region _ => dispatches_rpc r region _
  case rawBatchDelete =>
    exact budgetPlan_items _ (fun _ r => shardsWithin_batched _ _ _ id (fun _ _ => rfl) _ r.keys)
      (fun _ _ => rfl) (fun _ _ => rfl) fun r region _ => dispatches_rawRpc r region _
  case pessimisticLock =>
    exact budgetPlan_items _ (fun _ r => shardsWithin_byRegion _ r.mutations) (fun _ _ => rfl)
      (fun _ _ => rfl) fun r region _ => dispatches_rpc r region _
  case batchGet | batchRollback | pessimisticRollback =>
    exact budgetPlan_items _ (fun _ r => shardsWithin_byRegion _ r.keys) (fun _ _ => rfl)
      (fun _ _ => rfl) fun r region _ => dispatches_rpc r region _
  case checkSecondaryLocks =>
    exact budgetPlan_items _ (fun _ r => shardsWithin_byRegion _ r.keys) (fun _ _ => rfl)
      (fun _ _ => rfl) fun r region _ => dispatches_gcRpc r region _
  case rawBatchGet =>
    exact budgetPlan_items _ (fun _ r => shardsWithin_byRegion _ r.keys) (fun _ _ => rfl)
      (fun _ _ => rfl) fun r region _ => dispatches_rawRpc r region _
  case get | txnHeartBeat | cleanup =>
    exact budgetPlan_key _ (fun _ => rfl) fun r region _ => dispatches_rpc r region _
  case checkTxnStatus =>
    exact budgetPlan_key _ (fun _ => rfl) fun r region _ => dispatches_gcRpc r region _
  case rawGet | rawGetKeyTtl | rawPut | rawDelete | rawCas =>
    exact budgetPlan_key _ (fun _ => rfl) fun r region _ => dispatches_rawRpc r region _

end Plans

def oneKeyCommit : CommitRequest := newCommitRequest [⟨[1]⟩] 5 7

/-- The answer of a store that is not the leader and knows who is. -/
def namesLeader : CommitResponse := ⟨some (.notLeader (some 1)), none, 0⟩

/-- One round: the store is asked, names another leader, and the request is tried again, as before.
-/
lemma stepsIn_round (retry : ShardedPlan.Retry CommitRequest CommitResponse) (attempt : ℕ) :
    StepsIn (S := sig) 3
      (Dispatch.commit.plan.routedShardHandler .leaderOnly retry oneKeyCommit wholeRegion .noBackoff
        attempt)
      [.answered (.mapRegionToStore wholeRegion) (.ok ()),
        .answered (.rpc wholeRegion (.commit oneKeyCommit)) (.ok namesLeader),
        .answered (.updateLeader wholeRegion.verId 1) (.ok ())]
      (retry oneKeyCommit .noBackoff (attempt + 1)) :=
  StepsIn.call (S := sig) (c := .mapRegionToStore wholeRegion) (.ok ())
    (StepsIn.call (S := sig) (c := .rpc wholeRegion (.commit oneKeyCommit)) (.ok namesLeader)
      (StepsIn.call (S := sig) (c := .updateLeader wholeRegion.verId 1) (.ok ()) (.refl _)))

/-- **As many rounds as one likes**, with fuel for them. -/
lemma exists_rounds (n : ℕ) :
    ∃ s, ∀ fuel ≥ s, ∀ attempt, ∃ tr rest,
      StepsIn (S := sig) s (Dispatch.commit.plan.routedPlanHandler .leaderOnly false fuel oneKeyCommit
        .noBackoff attempt) tr rest ∧ dispatches tr = n := by
  induction n with
  | zero => exact ⟨0, fun _ _ _ => ⟨[], _, .refl _, rfl⟩⟩
  | succ n ih =>
    obtain ⟨s, hs⟩ := ih
    refine ⟨2 * (3 + s) + 1, fun fuel hfuel attempt => ?_⟩
    obtain ⟨fuel, rfl⟩ : ∃ f, fuel = f + (3 + s) + 1 := ⟨fuel - (3 + s) - 1, by omega⟩
    obtain ⟨tr, rest, hrest, hn⟩ := hs (fuel + (3 + s)) (by omega) (attempt + 1)
    have hround := (stepsIn_round _ attempt).append hrest
    refine ⟨_, _, StepsIn.call (S := sig) (c := .regionForKey ⟨[1]⟩) (.ok wholeRegion)
      (hround.join (ShardedPlan.onShardError false) [] fuel), ?_⟩
    -- of the four calls of the round, one is a request
    show 0 + (0 + (1 + (0 + dispatches tr))) = n + 1
    omega

end TikvClient
