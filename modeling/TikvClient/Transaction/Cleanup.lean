import Mathlib.Data.List.Permutation
import TikvClient.Request.RequestRange
import TikvClient.Transaction.Requests

/-!
# Cleaning up locks

Before a safepoint is published, the locks of the transactions below it are resolved
(`TransactionClient::gc`).  The range is cut along the regions, and in each of them the locks are
scanned in batches (`CleanupLocks::execute`); the transactions of a batch are checked one by one,
and their outcomes sent to the region in one request (`LockResolver::cleanup_locks`).

**Shared between the shards**: the statuses of transactions and the regions where the locks of a
transaction are resolved (`ResolveLocksContext`).  Both are reached by calls, as the shards run
concurrently.

**Ordering.**  The outcomes of a batch are kept in a hash map, and sent in the order in which it
lists them, which can be any.
-/

namespace TikvClient

open Proto

/-! ## Requests -/

def newScanLockRequest (range : BoundRange) (safepoint limit : ℕ) : ScanLockRequest :=
  ⟨range.intoKeys.1, range.intoKeys.2.getD .empty, safepoint, limit⟩

def newCheckTxnStatusRequest (primaryKey : Key) (lockTs callerStartTs currentTs : ℕ)
    (rollbackIfNotExist forceSyncCommit resolvingPessimisticLock : Bool) : CheckTxnStatusRequest :=
  ⟨primaryKey, lockTs, callerStartTs, currentTs, rollbackIfNotExist, forceSyncCommit,
    resolvingPessimisticLock⟩

def newCheckSecondaryLocksRequest (keys : List Key) (startVersion : ℕ) :
    CheckSecondaryLocksRequest :=
  ⟨keys, startVersion⟩

def newBatchResolveLockRequest (txnInfos : List TxnInfo) : BatchResolveLockRequest := ⟨txnInfos⟩

def checkTxnStatusPlan : ShardedPlan CheckTxnStatusRequest (List Key) CheckTxnStatusResponse where
  shards r := regionStreamForKeys id [r.primaryKey]
  applyShard r shard := { r with primaryKey := shard.getLast?.getD .empty }
  applyStore _ r := r
  execute region r := Async.gcRpc region (.checkTxnStatus r)
  keyErrors resp := Error.extractErrors resp.error.toList
  regionError := CheckTxnStatusResponse.regionError

def checkSecondaryLocksPlan :
    ShardedPlan CheckSecondaryLocksRequest (List Key) CheckSecondaryLocksResponse where
  shards r := shardsByRegion id r.keys
  applyShard r shard := { r with keys := shard }
  applyStore _ r := r
  execute region r := Async.gcRpc region (.checkSecondaryLocks r)
  keyErrors resp := Error.extractErrors resp.error.toList
  regionError := CheckSecondaryLocksResponse.regionError

/-! ## Resolving the locks of a batch -/

/-- What the secondary locks say about an async-commit transaction. -/
structure SecondaryLocksStatus where
  commitTs : Option ℕ
  minCommitTs : ℕ
  fallback2pc : Bool
deriving DecidableEq

/-- The loop of `check_all_secondaries` over the responses, with the largest `min_commit_ts` so far,
whether a lock was missing, and the commit timestamp that follows from that. -/
def secondariesStatus (primaryMinCommitTs : ℕ) :
    List (CheckSecondaryLocksRequest × CheckSecondaryLocksResponse) → ℕ → Bool → Option ℕ →
      Except Error SecondaryLocksStatus
  | [], _, _, some commitTs =>
    .ok ⟨if commitTs = 0 then none else some commitTs, commitTs, false⟩
  | [], minCommitTs, _, none => .ok ⟨none, minCommitTs, false⟩
  | (shard, resp) :: rest, minCommitTs, missing, determined =>
    if resp.locks.length < shard.keys.length then
      let commitTs := resp.commitTs
      match determined with
      | none =>
        if commitTs ≠ 0 ∧ commitTs < minCommitTs then
          .error (.internalError
            (s!"commit ts must be >= min commit ts: commit_ts={commitTs}" ++
              s!", min_commit_ts={minCommitTs}"))
        else secondariesStatus primaryMinCommitTs rest minCommitTs true (some commitTs)
      | some prev =>
        if prev = commitTs then
          secondariesStatus primaryMinCommitTs rest minCommitTs true determined
        else
          .error (.internalError
            s!"commit ts mismatch in async commit recovery: {prev} and {commitTs}")
    else if resp.locks.any (!·.useAsyncCommit) then .ok ⟨none, primaryMinCommitTs, true⟩
    else
      let minCommitTs :=
        if missing then minCommitTs
        else resp.locks.foldl (fun ts lock => max ts lock.minCommitTs) minCommitTs
      secondariesStatus primaryMinCommitTs rest minCommitTs missing determined

namespace LockResolver

/-- `check_txn_status`: the status known of the transaction, or else that of its primary lock, which
is kept if it is certain. -/
def checkTxnStatus (fuel txnId : ℕ) (primary : Key) (callerStartTs currentTs : ℕ)
    (rollbackIfNotExist forceSyncCommit resolvingPessimisticLock : Bool) :
    AsyncResult Requests.TransactionStatus :=
  (Async.getResolved txnId).bind fun
    | some status => .ret (.ok status)
    | none =>
      (checkTxnStatusPlan.retryMultiRegion false fuel
        (newCheckTxnStatusRequest primary txnId callerStartTs currentTs rollbackIfNotExist
          forceSyncCommit resolvingPessimisticLock) .defaultRegionBackoff).andThen fun results =>
      match collectSingle results with
      | .error e => .ret (.error e)
      | .ok (_, resp) =>
        Async.getTimestamp.andThen fun current =>
        let status := (Requests.TransactionStatus.ofResponse resp).checkTtl current
        if status.isCacheable then
          (Async.saveResolved txnId status).bind fun _ => .ret (.ok status)
        else .ret (.ok status)

def checkAllSecondaries (fuel : ℕ) (keys : List Key) (txnId primaryMinCommitTs : ℕ) :
    AsyncResult SecondaryLocksStatus :=
  (checkSecondaryLocksPlan.retryMultiRegion false fuel
    (newCheckSecondaryLocksRequest keys txnId) .defaultRegionBackoff).andThen fun results =>
  match extractError results with
  | .error e => .ret (.error e)
  | .ok responses =>
    .ret (secondariesStatus primaryMinCommitTs responses primaryMinCommitTs false none)

/-- The outcome to send for a transaction: its commit version, or 0 if it is rolled back. -/
def outcome (status : Requests.TransactionStatus) : Except Error ℕ :=
  match status.kind with
  | .locked _ lockInfo => .error (.resolveLockError [lockInfo])
  | .committed ts => .ok ts
  | .rolledBack => .ok 0

/-- The outcome of the transaction of a lock.  The current timestamp is `u64::MAX`, which rolls the
transaction back whether its lock is expired or not; an async-commit transaction is not rolled back
like that, and its secondary locks are checked. -/
def checkOutcome (fuel : ℕ) (l : LockInfo) : AsyncResult ℕ :=
  let resolvingPessimisticLock := l.lockType == .pessimisticLock
  (checkTxnStatus fuel l.lockVersion l.primaryLock 0 u64Max true false
    resolvingPessimisticLock).andThen fun status =>
  match status.kind with
  | .locked _ lockInfo =>
    (checkAllSecondaries fuel lockInfo.secondaries l.lockVersion lockInfo.minCommitTs).andThen
      fun secondaryStatus =>
    if secondaryStatus.fallback2pc then
      (checkTxnStatus fuel l.lockVersion l.primaryLock 0 u64Max true true
        resolvingPessimisticLock).andThen fun status =>
      .ret (outcome status)
    else .ret (.ok (secondaryStatus.commitTs.getD secondaryStatus.minCommitTs))
  | _ => .ret (outcome status)

/-- The loop of `cleanup_locks` over the locks, with the outcomes found. -/
def checkOutcomes (fuel : ℕ) (region : RegionVerId) :
    List LockInfo → List TxnInfo → AsyncResult (List TxnInfo)
  | [], txnInfos => .ret (.ok txnInfos)
  | l :: locks, txnInfos =>
    if txnInfos.any (·.txn == l.lockVersion) then checkOutcomes fuel region locks txnInfos
    else
      (Async.isRegionCleaned l.lockVersion region).bind fun cleaned =>
      if cleaned then checkOutcomes fuel region locks txnInfos
      else
        (checkOutcome fuel l).andThen fun status =>
        checkOutcomes fuel region locks (txnInfos ++ [⟨l.lockVersion, status⟩])

/-- The entries of a hash map, in the order in which it lists them. -/
def hashMapEntries {α : Type} (entries : List α) : Async (List α) :=
  .pick entries.permutations'.length fun i => .ret (entries.permutations'.get i)

/-- `batch_resolve_locks`: the region, once the transactions are resolved in it. -/
def batchResolveLocks (region : Region) (txnInfos : List TxnInfo) : AsyncResult RegionVerId :=
  (Async.gcRpc region (.batchResolveLock (newBatchResolveLockRequest txnInfos))).andThen
    fun (resp : ResolveLockResponse) =>
  match resp.error, resp.regionError with
  | some e, _ => .ret (.error (.extractedErrors [.keyError e]))
  | none, some e => .ret (.error (.extractedErrors [.regionError e]))
  | none, none => .ret (.ok region.verId)

def saveCleanedRegions (region : RegionVerId) : List ℕ → Async Unit
  | [] => .ret ()
  | txnId :: rest =>
    (Async.saveCleanedRegion txnId region).bind fun _ => saveCleanedRegions region rest

/-- **`LockResolver::cleanup_locks`**: resolve the transactions of the locks in the region. -/
def cleanupLocks (fuel : ℕ) (region : Region) (locks : List LockInfo) : AsyncResult Unit :=
  if locks.isEmpty then .ret (.ok ())
  else
    (checkOutcomes fuel region.verId locks []).andThen fun txnInfos =>
    (hashMapEntries txnInfos).bind fun txnInfos =>
    (batchResolveLocks region txnInfos).andThen fun cleanedRegion =>
    (saveCleanedRegions cleanedRegion (txnInfos.map (·.txn))).bind fun _ =>
    .ret (.ok ())

end LockResolver

/-! ## The locks of a shard, batch by batch -/

structure ResolveLocksOptions where
  asyncCommitOnly : Bool
  batchSize : ℕ
deriving DecidableEq

def defaultScanLockBatchSize : ℕ := 1024

def ResolveLocksOptions.default : ResolveLocksOptions := ⟨false, defaultScanLockBatchSize⟩

structure CleanupLocksResult where
  regionError : Option RegionError
  keyError : Option (List Error)
  resolvedLocks : ℕ

/-- `has_next_batch`: the batch behind the last lock. -/
def Proto.ScanLockResponse.hasNextBatch (resp : ScanLockResponse) : Option Key :=
  resp.locks.getLast?.map fun lock => lock.key.nextKey

/-- `next_batch`, of which the end key is ignored. -/
def Proto.ScanLockRequest.nextBatch (r : ScanLockRequest) (startKey : Key) : ScanLockRequest :=
  { r with startKey := startKey }

namespace CleanupLocks

/-- Where the next batch starts, if it is in the region and in the range of the request. -/
def nextStart (region : Region) (inner : ScanLockRequest) (resp : ScanLockResponse) : Option Key :=
  (resp.hasNextBatch.filter fun startKey => region.contains startKey).filter fun startKey =>
    inner.endKey.isEmpty || decide (startKey < inner.endKey)

/-- The errors of a batch that could not be resolved, as those of the shard: the last of them
decides whether the shard is tried again. -/
def extracted (resolvedLocks : ℕ) (errors : List Error) : Except Error CleanupLocksResult :=
  match errors.getLast? with
  | none => .error (.internalError "ExtractedErrors was empty")
  | some (.regionError e) =>
    .ok ⟨some e, if errors.dropLast.isEmpty then none else some errors.dropLast, resolvedLocks⟩
  | some _ => .ok ⟨none, some errors, resolvedLocks⟩

/-- The locks of a batch that are resolved. -/
def toResolve (options : ResolveLocksOptions) (locks : List LockInfo) : List LockInfo :=
  if options.asyncCommitOnly then locks.filter (·.useAsyncCommit) else locks

/-- After a batch is resolved: the next one, or the result. -/
def advance (next : Option Key) (inner : ScanLockRequest) (resolvedLocks : ℕ)
    (scan : ScanLockRequest → AsyncResult CleanupLocksResult) : AsyncResult CleanupLocksResult :=
  match next with
  | some startKey => scan (inner.nextBatch startKey)
  | none => .ret (.ok ⟨none, none, resolvedLocks⟩)

/-- **The loop of `CleanupLocks::execute`**, with the request for the batch, the backoff and the
number of locks resolved. -/
def scanLoop (options : ResolveLocksOptions) (resolverFuel : ℕ) (region : Region) :
    ℕ → ScanLockRequest → Backoff → ℕ → AsyncResult CleanupLocksResult
  | 0, _, _, _ => .stuck
  | fuel + 1, inner, backoff, resolvedLocks =>
    (Async.gcRpc region (.scanLock inner)).andThen fun (resp : ScanLockResponse) =>
    match Error.extractErrors resp.error.toList, resp.regionError with
    | some es, _ => .ret (.ok ⟨none, some es, resolvedLocks⟩)
    | none, some e => .ret (.ok ⟨some e, none, resolvedLocks⟩)
    | none, none =>
      if resp.locks.isEmpty then .ret (.ok ⟨none, none, resolvedLocks⟩)
      else
        -- a batch that is not full is the last one
        let next :=
          if resp.locks.length < options.batchSize then none else nextStart region inner resp
        let locks := toResolve options resp.locks
        if locks.isEmpty then
          advance next inner resolvedLocks fun inner =>
            scanLoop options resolverFuel region fuel inner backoff resolvedLocks
        else
          (LockResolver.cleanupLocks resolverFuel region locks).bind fun
            | .ok () =>
              advance next inner (resolvedLocks + locks.length) fun inner =>
                scanLoop options resolverFuel region fuel inner backoff
                  (resolvedLocks + locks.length)
            | .error (.resolveLockError liveLocks) =>
              -- the same batch again
              match backoff.nextDelay with
              | some backoff =>
                scanLoop options resolverFuel region fuel inner backoff resolvedLocks
              | none => .ret (.error (.resolveLockError liveLocks))
            | .error (.extractedErrors errors) => .ret (extracted resolvedLocks errors)
            | .error e => .ret (.error e)

/-- `Backoff::equal_jitter_backoff(100, 10000, 50)`. -/
def lockBackoff : Backoff := .attempts 50

/-- `CleanupLocks` around a `ScanLockRequest`. -/
def plan (options : ResolveLocksOptions) (fuel : ℕ) :
    ShardedPlan ScanLockRequest (Key × Key) CleanupLocksResult where
  shards r := regionStreamForRange fuel (r.startKey, r.endKey)
  applyShard r shard := { r with startKey := shard.1, endKey := shard.2 }
  applyStore _ r := r
  execute region r := scanLoop options fuel region fuel r lockBackoff 0
  keyErrors := CleanupLocksResult.keyError
  regionError := CleanupLocksResult.regionError

/-- `Collect`, of results without errors. -/
def merge (leaves : List (ScanLockRequest × CleanupLocksResult)) : CleanupLocksResult :=
  ⟨none, none, (leaves.map (·.2.resolvedLocks)).sum⟩

end CleanupLocks

/-! ## The client -/

structure TransactionClient where
  keyspace : Keyspace
deriving DecidableEq

namespace TransactionClient

def cleanupLocks (client : TransactionClient) (fuel : ℕ) (range : BoundRange) (safepoint : ℕ)
    (options : ResolveLocksOptions) : AsyncResult CleanupLocksResult :=
  ((CleanupLocks.plan options fuel).retryMultiRegion false fuel
    (newScanLockRequest (range.encodeKeyspace client.keyspace .txn) safepoint options.batchSize)
    .defaultRegionBackoff).andThen fun results =>
  .ret ((extractError results).map CleanupLocks.merge)

def gc (client : TransactionClient) (fuel safepoint : ℕ) : AsyncResult Bool :=
  (client.cleanupLocks fuel ⟨.unbounded, .unbounded⟩ safepoint .default).andThen fun _ =>
  Async.updateSafepoint safepoint

end TransactionClient

end TikvClient
