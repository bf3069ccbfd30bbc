import TikvClient.Request.PlanErrors
import TikvClient.Transaction.Lock

/-!
# What the plans of a transaction fail with

A plan of a transaction fails with an error of a call, with what TiKV reports in a response — a key
error, or the locks that could not be resolved — or with an error the client makes up.  If all of
these are in a set `N` (`FailureSet`), the errors of the plan are (`FailureSet.sat_executeShards`):
lock resolution sends requests of its own, and fails in the same ways.
-/

namespace TikvClient

open Proto

/-- The key errors in a response. -/
def Proto.Request.keyErrors : (r : Request) → r.Response → List KeyError
  | .get _, (resp : GetResponse) => resp.error.toList
  | .batchGet _, (resp : BatchGetResponse) => resp.error.toList ++ resp.pairs.filterMap (·.error)
  | .scan _, (resp : ScanResponse) => resp.error.toList ++ resp.pairs.filterMap (·.error)
  | .prewrite _, (resp : PrewriteResponse) => resp.errors
  | .flush _, (resp : FlushResponse) => resp.errors
  | .commit _, (resp : CommitResponse) => resp.error.toList
  | .batchRollback _, (resp : BatchRollbackResponse) => resp.error.toList
  | .pessimisticRollback _, (resp : PessimisticRollbackResponse) => resp.errors
  | .pessimisticLock _, (resp : PessimisticLockResponse) => resp.errors
  | .txnHeartBeat _, (resp : TxnHeartBeatResponse) => resp.error.toList
  | .cleanup _, (resp : CleanupResponse) => resp.error.toList
  | .resolveLock _, (resp : ResolveLockResponse) => resp.error.toList

/-- TiKV reports the key error. -/
def Reported (A : Answers) (e : KeyError) : Prop :=
  ∃ region r resp, A (.rpc region r) (.ok resp) ∧ e ∈ r.keyErrors resp

/-- TiKV reports the lock. -/
def LockReported (A : Answers) (lock : LockInfo) : Prop :=
  ∃ e, Reported A e ∧ e.locked = some lock

/-- The errors and locks of what a request returns are in `N`, or reported. -/
def Dispatch.Honest {R Shard Resp : Type} (d : Dispatch R Shard Resp)
    (A : Answers) (N : Error → Prop) (res : Except Error Resp) : Prop :=
  FailsIn N res ∧ ∀ resp, res = .ok resp →
    (∀ e ∈ d.errors resp, Reported A e) ∧ ∀ lock ∈ d.locks resp, LockReported A lock

lemma Dispatch.Honest.error {R Shard Resp : Type} {d : Dispatch R Shard Resp} {e : Error}
    (he : N e) :
    d.Honest A N (.error e) :=
  ⟨failsIn_error he, fun _ h => by cases h⟩

/-- **What plans may fail with.** -/
structure FailureSet (A : Answers) (N : Error → Prop) : Prop where
  regionForKey : ∀ key ans, A (.regionForKey key) ans → FailsIn N ans
  mapRegionToStore : ∀ region ans, A (.mapRegionToStore region) ans → FailsIn N ans
  updateLeader : ∀ verId leader ans, A (.updateLeader verId leader) ans → FailsIn N ans
  getTimestamp : ∀ ans, A .getTimestamp ans → FailsIn N ans
  rpc : ∀ region (r : Request) (ans : Except Error r.Response), A (.rpc region r) ans →
    FailsIn N ans
  keyError : ∀ e, Reported A e → N (.keyError e)
  keyErrors : ∀ es : List KeyError, (∀ e ∈ es, Reported A e) →
    N (.multipleKeyErrors (es.map .keyError))
  resolveLockError : ∀ locks, (∀ lock ∈ locks, LockReported A lock) → N (.resolveLockError locks)
  leaderNotFound : ∀ verId, N (.leaderNotFound verId)
  regionError : ∀ e, N (.regionError e)
  internalError : ∀ msg, N (.internalError msg)

variable {A : Answers} {N : Error → Prop}

lemma lockReported_of_mem_locksOf {errors : List KeyError} (h : ∀ e ∈ errors, Reported A e) :
    ∀ lock ∈ locksOf errors, LockReported A lock := by
  intro lock hlock
  obtain ⟨e, he, hlocked⟩ := List.mem_filterMap.mp hlock
  exact ⟨e, h e he, hlocked⟩

lemma eq_map_of_extractErrors {errors : List KeyError} {es : List Error}
    (h : Error.extractErrors errors = some es) : es = errors.map .keyError := by
  unfold Error.extractErrors at h
  split_ifs at h
  exact (Option.some.inj h).symm

namespace FailureSet

/-- Every call is allowed here: only errors matter. -/
abbrev AnyCall : Call → Prop := fun _ => True

lemma routing_anyCall : Routing AnyCall := ⟨fun _ => trivial, fun _ => trivial, fun _ _ => trivial⟩

variable (h : FailureSet A N)

include h

lemma sat_shardsByRegion {ι : Type} (keyOf : ι → Key) (items : List ι) :
    (regionStreamForKeys keyOf items).Sat AnyCall A (FailsIn N) :=
  sat_regionStreamForKeys_errors (fun _ => trivial) h.regionForKey keyOf items

lemma sat_handleRegionError (e : RegionError) (region : Region) :
    (handleRegionError e region).Sat AnyCall A (FailsIn N) := by
  unfold handleRegionError
  split
  case h_1 leader =>
    exact Prog.Sat.andThen (Async.sat_updateLeader trivial) (fun _ _ => failsIn_ok _)
      fun e he => failsIn_error (h.updateLeader _ _ _ he e rfl)
  case h_13 => exact failsIn_error (h.regionError _)
  all_goals exact failsIn_ok _

/-! ## Resolving locks -/

lemma sat_resolveLockAttempts (key : Key) (startVersion commitVersion attempts : ℕ) :
    ∀ last, (resolveLockAttempts key startVersion commitVersion attempts last).Sat AnyCall A
      (FailsIn N) := by
  induction attempts with
  | zero =>
    intro last
    cases last with
    | none => exact failsIn_error (h.internalError _)
    | some e => exact failsIn_error (h.regionError e)
  | succ attempts ih =>
    intro last
    refine Prog.Sat.andThen (Async.sat_regionForKey trivial) (fun region _ => ?_)
      fun e he => failsIn_error (h.regionForKey _ _ he e rfl)
    refine Prog.Sat.andThen (Async.sat_mapRegionToStore trivial) (fun _ _ => ?_)
      fun e he => failsIn_error (h.mapRegionToStore _ _ he e rfl)
    refine Prog.Sat.andThen (Async.sat_rpc trivial) (fun resp hresp => ?_)
      fun e he => failsIn_error (h.rpc _ _ _ he e rfl)
    have hreported : ∀ e ∈ resp.error.toList, Reported A e := fun e he => ⟨_, _, _, hresp, he⟩
    split
    next lock locks _ _ hlocks =>
      refine failsIn_error (h.resolveLockError _ fun l hl => ?_)
      exact lockReported_of_mem_locksOf hreported l (hlocks ▸ hl)
    next e _ he => exact failsIn_error (h.keyError e (hreported e (by simp [he])))
    next e _ _ _ =>
      exact Prog.Sat.andThen (h.sat_handleRegionError e region) (fun _ _ => ih _)
        fun e he => failsIn_error (he e rfl)
    · exact failsIn_ok _

lemma sat_cleanup (fuel : ℕ) (primaryLock : Key) (lockVersion : ℕ) :
    (cleanup fuel primaryLock lockVersion).Sat AnyCall A (FailsIn N) := by
  have hplan : Dispatch.cleanup.plan.FailsWith AnyCall A N :=
    { shards := fun r => h.sat_shardsByRegion id [r.key]
      execute := fun region r => (Async.sat_rpc trivial).post fun ans hans =>
        ⟨h.rpc _ _ ans hans, fun resp es hresp hes => by
          subst hresp
          obtain rfl := eq_map_of_extractErrors hes
          exact h.keyErrors _ fun e he => ⟨_, _, _, hans, he⟩⟩
      routing := routing_anyCall
      mapRegionToStore := h.mapRegionToStore
      updateLeader := h.updateLeader
      leaderNotFound := h.leaderNotFound
      regionError := h.regionError }
  refine Prog.Sat.andThen (hplan.sat_singlePlanHandler false fuel _ _ 0)
    (fun results hresults => ?_)
    fun e he => failsIn_error (he.1 e rfl)
  have hsingle := failsIn_collectSingle (hresults.2 results rfl) h.internalError
  split
  · exact failsIn_ok _
  next e he => exact failsIn_error (hsingle e he)

lemma sat_resolveExpired (fuel : ℕ) (locks : List LockInfo) :
    ∀ commitVersions cleanRegions,
      (resolveExpired fuel locks commitVersions cleanRegions).Sat AnyCall A (FailsIn N) := by
  induction locks with
  | nil => exact fun _ _ => failsIn_ok _
  | cons lock rest ih =>
    intro commitVersions cleanRegions
    refine Prog.Sat.andThen (Async.sat_regionForKey trivial) (fun region _ => ?_)
      fun e he => failsIn_error (h.regionForKey _ _ he e rfl)
    split_ifs
    · exact ih _ _
    · have hversion : (commitVersionOf fuel commitVersions lock).Sat AnyCall A (FailsIn N) := by
        unfold commitVersionOf
        split
        · exact failsIn_ok _
        · exact h.sat_cleanup _ _ _
      refine Prog.Sat.andThen hversion (fun version _ => ?_) fun e he => failsIn_error (he e rfl)
      exact Prog.Sat.andThen (h.sat_resolveLockAttempts _ _ _ _ _) (fun _ _ => ih _ _)
        fun e he => failsIn_error (he e rfl)

lemma sat_resolveLocks (fuel : ℕ) (locks : List LockInfo) :
    (resolveLocks fuel locks).Sat AnyCall A fun res =>
      FailsIn N res ∧ ∀ live, res = .ok live → live ⊆ locks := by
  refine Prog.Sat.andThen (Async.sat_getTimestamp trivial) (fun ts _ => ?_)
    fun e he => ⟨failsIn_error (h.getTimestamp _ he e rfl), fun _ h => by cases h⟩
  refine Prog.Sat.andThen (h.sat_resolveExpired fuel _ _ _) (fun _ _ => ⟨failsIn_ok _, ?_⟩)
    fun e he => ⟨failsIn_error (he e rfl), fun _ h => by cases h⟩
  rintro live heq
  cases heq
  exact List.filter_subset_self _

/-! ## Plans -/

variable {R Shard Resp : Type} {d : Dispatch R Shard Resp}

lemma sat_resolveLock (hsend : ∀ region r, (d.send region r).Sat AnyCall A (d.Honest A N))
    (region : Region) (r : R) (fuel : ℕ) (backoff : Backoff) :
    (resolveLock (d.send region r) d.locks (resolveLocks fuel) fuel backoff).Sat AnyCall A
      (d.Honest A N) := by
  have hloop : ∀ noBackoff fuel' backoff resp, d.Honest A N (.ok resp) →
      (resolveLockLoop (d.send region r) d.locks (resolveLocks fuel) noBackoff fuel' backoff
        resp).Sat AnyCall A (d.Honest A N) := by
    intro noBackoff fuel'
    induction fuel' with
    | zero => exact fun _ _ _ => Prog.sat_stuck
    | succ fuel' ih =>
      intro backoff resp hresp
      have hagain : ∀ backoff, ((d.send region r).andThen fun resp =>
          resolveLockLoop (d.send region r) d.locks (resolveLocks fuel) noBackoff fuel' backoff
            resp).Sat AnyCall A (d.Honest A N) := fun backoff =>
        Prog.Sat.andThen (hsend region r) (fun resp hresp => ih backoff resp hresp)
          fun e he => .error (he.1 e rfl)
      unfold resolveLockLoop
      split
      · exact hresp
      next lock locks hlocks =>
        have hreported : ∀ ls ⊆ lock :: locks, N (.resolveLockError ls) := fun ls hls =>
          h.resolveLockError ls fun l hl => (hresp.2 resp rfl).2 l (hlocks ▸ hls hl)
        split_ifs
        · exact .error (hreported _ (List.Subset.refl _))
        · refine Prog.Sat.andThen (h.sat_resolveLocks fuel _) (fun live hlive => ?_)
            fun e he => .error (he.1 e rfl)
          split
          · exact hagain _
          · split
            · exact .error (hreported _ (hlive.2 _ rfl))
            · exact hagain _
  exact Prog.Sat.andThen (hsend region r) (fun resp hresp => hloop _ _ _ _ hresp)
    fun e he => .error (he.1 e rfl)

/-- **The errors of a plan that resolves locks.** -/
theorem sat_executeShards (hshards : ∀ r, (d.shards r).Sat AnyCall A (FailsIn N))
    (hsend : ∀ region r, (d.send region r).Sat AnyCall A (d.Honest A N)) (fuel : ℕ)
    (retryOptions : RetryOptions) (request : R) :
    (executeShards d fuel retryOptions request).Sat AnyCall A (ShardedPlan.ErrorsIn N) := by
  have hplan : (d.resolveLock (resolveLocks fuel) fuel retryOptions.lockBackoff).FailsWith
      AnyCall A N :=
    { shards := hshards
      execute := fun region r =>
        (h.sat_resolveLock hsend region r fuel retryOptions.lockBackoff).post fun res hres =>
          ⟨hres.1, fun resp es hresp hes => by
            obtain rfl := eq_map_of_extractErrors hes
            exact h.keyErrors _ (hres.2 resp hresp).1⟩
      routing := routing_anyCall
      mapRegionToStore := h.mapRegionToStore
      updateLeader := h.updateLeader
      leaderNotFound := h.leaderNotFound
      regionError := h.regionError }
  exact hplan.sat_singlePlanHandler false fuel request _ 0

end FailureSet

end TikvClient
