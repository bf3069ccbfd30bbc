import TikvClient.Transaction.Requests

/-!
# Resolving the locks a reader meets

`resolve_locks` is what every request with lock resolution does with the locks it runs into:
the locks that are expired at a fresh PD timestamp are cleaned up, the others are returned as
live.  For each transaction met, `Cleanup` on the primary lock the *met* lock names decides
the outcome, and `ResolveLock` is sent to the region of the met key.

**Expiry** is judged on the met lock alone: its start version and its own TTL.  `Cleanup` is
sent with `current_ts = 0`.
-/

namespace TikvClient

open Proto

/-- Whether the lock is expired at the timestamp `ts`.  The TTL is compared as an `i64`. -/
def isExpired (ts : ℕ) (lock : LockInfo) : Bool :=
  decide ((physical ts : ℤ) - physical lock.lockVersion ≥ asI64 lock.lockTtl)

def resolveLockRetryLimit : ℕ := 10

/-- The loop of `resolve_lock_with_retry`, with the attempts left and the last region error. -/
def resolveLockAttempts (key : Key) (startVersion commitVersion : ℕ) :
    ℕ → Option RegionError → AsyncResult RegionVerId
  | 0, some e => .ret (.error (.regionError e))
  | 0, none => .ret (.error (.internalError
      "resolve lock retry loop exhausted without producing an error"))
  | attempts + 1, _ =>
    -- `store_for_key`
    (Async.regionForKey key).andThen fun region =>
    (Async.mapRegionToStore region).andThen fun _ =>
    (Async.rpc region (.resolveLock (newResolveLockRequest startVersion commitVersion))).andThen
      fun (resp : ResolveLockResponse) =>
    match locksOf resp.error.toList, resp.error, resp.regionError with
    -- the inner `ResolveLock` has no backoff
    | lock :: locks, _, _ => .ret (.error (.resolveLockError (lock :: locks)))
    | [], some e, _ => .ret (.error (.keyError e))
    | [], none, some e =>
      (handleRegionError e region).andThen fun _ =>
      resolveLockAttempts key startVersion commitVersion attempts (some e)
    | [], none, none => .ret (.ok region.verId)

/-- `resolve_lock_with_retry`: the region of the key, once it is cleaned. -/
def resolveLockWithRetry (key : Key) (startVersion commitVersion : ℕ) :
    AsyncResult RegionVerId :=
  resolveLockAttempts key startVersion commitVersion resolveLockRetryLimit none

/-- The plan that lets the status of a primary lock converge, and returns its commit version
(0 when it is rolled back).  `CleanupResponse` never reports locks, so the `ResolveLock` the
source wraps around it has nothing to resolve. -/
def cleanup (fuel : ℕ) (primaryLock : Key) (lockVersion : ℕ) : AsyncResult ℕ :=
  (Dispatch.cleanup.plan.retryMultiRegion false fuel (newCleanupRequest primaryLock lockVersion)
    .defaultRegionBackoff).andThen fun results =>
  match collectSingle results with
  | .ok (_, resp) => .ret (.ok resp.commitVersion)
  | .error e => .ret (.error e)

/-- The commit version of the transaction of a lock: known already, or found by `cleanup`. -/
def commitVersionOf (fuel : ℕ) (commitVersions : Std.ExtTreeMap ℕ ℕ) (lock : LockInfo) :
    AsyncResult ℕ :=
  match commitVersions[lock.lockVersion]? with
  | some commitVersion => .ret (.ok commitVersion)
  | none => cleanup fuel lock.primaryLock lock.lockVersion

/-- The loop of `resolve_locks` over the expired locks, with what is known of the transactions
met so far and the regions cleaned for each. -/
def resolveExpired (fuel : ℕ) :
    List LockInfo → Std.ExtTreeMap ℕ ℕ → Std.ExtTreeMap ℕ (List RegionVerId) → AsyncResult Unit
  | [], _, _ => .ret (.ok ())
  | lock :: rest, commitVersions, cleanRegions =>
    (Async.regionForKey lock.primaryLock).andThen fun region =>
    if region.verId ∈ cleanRegions.getD lock.lockVersion [] then
      resolveExpired fuel rest commitVersions cleanRegions
    else
      (commitVersionOf fuel commitVersions lock).andThen fun commitVersion =>
      (resolveLockWithRetry lock.key lock.lockVersion commitVersion).andThen fun cleaned =>
      resolveExpired fuel rest (commitVersions.insert lock.lockVersion commitVersion)
        (cleanRegions.insert lock.lockVersion
          (cleaned :: cleanRegions.getD lock.lockVersion []))

/-- **`resolve_locks`**: resolve the expired locks, return the live ones. -/
def resolveLocks (fuel : ℕ) : Resolver := fun locks =>
  Async.getTimestamp.andThen fun ts =>
  (resolveExpired fuel (locks.filter fun l => isExpired ts l) ∅ ∅).andThen fun _ =>
  .ret (.ok (locks.filter fun l => !isExpired ts l))

/-! ## The plans of a transaction -/

section Plans

variable {R Shard Resp : Type}

/-- `.resolve_lock(..).retry_multi_region(..)`. -/
def executeShards (d : Dispatch R Shard Resp) (fuel : ℕ) (retryOptions : RetryOptions)
    (request : R) : AsyncResult (ShardResults R Resp) :=
  (d.resolveLock (resolveLocks fuel) fuel retryOptions.lockBackoff).retryMultiRegion false fuel
    request retryOptions.regionBackoff

/-- `.resolve_lock(..).retry_multi_region(..).extract_error()`. -/
def executePlan (d : Dispatch R Shard Resp) (fuel : ℕ) (retryOptions : RetryOptions)
    (request : R) : AsyncResult (List (R × Resp)) :=
  (executeShards d fuel retryOptions request).andThen fun results =>
  .ret (extractError results)

end Plans

end TikvClient
