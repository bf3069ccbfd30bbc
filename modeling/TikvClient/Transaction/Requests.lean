import TikvClient.Request.PlanLemmas

/-!
# The requests of a transaction, and their plans

Constructors of the requests (`requests.rs`, `lowering.rs`), how each is cut into shards and
sent (`Dispatch`), and the plans made of that.  A plan with lock resolution takes the resolver
as an argument, since the resolver itself sends plans.
-/

namespace TikvClient

open Proto

/-! ## Building requests -/

def newGetRequest (key : Key) (timestamp : ℕ) : GetRequest :=
  ⟨key, timestamp, false⟩

def newGetRequestWithNeedCommitTs (key : Key) (timestamp : ℕ) (needCommitTs : Bool) : GetRequest :=
  { newGetRequest key timestamp with needCommitTs := needCommitTs }

def newBatchGetRequest (keys : List Key) (timestamp : ℕ) : BatchGetRequest :=
  ⟨keys, timestamp, false⟩

def newBatchGetRequestWithNeedCommitTs (keys : List Key) (timestamp : ℕ) (needCommitTs : Bool) :
    BatchGetRequest :=
  { newBatchGetRequest keys timestamp with needCommitTs := needCommitTs }

def newScanRequest (range : Key × Key) (timestamp limit : ℕ) (keyOnly reverse : Bool) :
    ScanRequest :=
  if reverse then ⟨range.2, range.1, limit, keyOnly, timestamp, reverse⟩
  else ⟨range.1, range.2, limit, keyOnly, timestamp, reverse⟩

def newPrewriteRequest (mutations : List Proto.Mutation) (primaryLock : Key)
    (startVersion lockTtl : ℕ) : PrewriteRequest where
  mutations := mutations
  primaryLock := primaryLock
  startVersion := startVersion
  lockTtl := lockTtl
  forUpdateTs := 0
  pessimisticChecks := 0
  txnSize := 0
  useAsyncCommit := false
  secondaries := []
  tryOnePc := false
  minCommitTs := 0
  maxCommitTs := 0
  assertionLevel := .off

def newPessimisticPrewriteRequest (mutations : List Proto.Mutation) (primaryLock : Key)
    (startVersion lockTtl forUpdateTs : ℕ) : PrewriteRequest :=
  { newPrewriteRequest mutations primaryLock startVersion lockTtl with
    forUpdateTs := forUpdateTs
    pessimisticChecks := mutations.length }

def newFlushRequest (mutations : List Proto.Mutation) (primaryKey : Key)
    (startTs generation lockTtl : ℕ) : FlushRequest where
  mutations := mutations
  primaryKey := primaryKey
  startTs := startTs
  minCommitTs := saturatingAdd startTs 1
  generation := generation
  lockTtl := lockTtl
  assertionLevel := .off

def newCommitRequest (keys : List Key) (startVersion commitVersion : ℕ) : CommitRequest :=
  ⟨keys, startVersion, commitVersion, none⟩

def newCommitRequestWithPrimaryKey (keys : List Key) (primaryKey : Option Key)
    (startVersion commitVersion : ℕ) : CommitRequest :=
  { newCommitRequest keys startVersion commitVersion with primaryKey := primaryKey }

def newBatchRollbackRequest (keys : List Key) (startVersion : ℕ) : BatchRollbackRequest :=
  ⟨keys, startVersion⟩

def newPessimisticRollbackRequest (keys : List Key) (startVersion forUpdateTs : ℕ) :
    PessimisticRollbackRequest :=
  ⟨keys, startVersion, forUpdateTs⟩

structure LockOptions where
  waitTimeoutMs : ℤ
  returnValues : Bool
  checkExistence : Bool
  lockOnlyIfExists : Bool
  wakeUpMode : WakeUpMode
deriving DecidableEq

def LockOptions.default : LockOptions := ⟨0, false, false, false, .normal⟩

def newPessimisticLockRequest (locks : List (Key × Assertion)) (primaryLock : Key)
    (startVersion lockTtl forUpdateTs : ℕ) (isFirstLock : Bool) (options : LockOptions) :
    PessimisticLockRequest where
  mutations := locks.map fun l => ⟨.pessimisticLock, l.1, [], l.2⟩
  primaryLock := primaryLock
  startVersion := startVersion
  lockTtl := lockTtl
  forUpdateTs := forUpdateTs
  isFirstLock := isFirstLock
  waitTimeout := options.waitTimeoutMs
  returnValues := options.returnValues
  checkExistence := options.checkExistence
  lockOnlyIfExists := options.lockOnlyIfExists
  wakeUpMode := options.wakeUpMode
  minCommitTs := saturatingAdd forUpdateTs 1

def newHeartBeatRequest (startTs : ℕ) (primaryLock : Key) (ttl : ℕ) : TxnHeartBeatRequest :=
  ⟨primaryLock, startTs, ttl⟩

def newCleanupRequest (key : Key) (startVersion : ℕ) : CleanupRequest := ⟨key, startVersion⟩

def newResolveLockRequest (startVersion commitVersion : ℕ) : ResolveLockRequest :=
  ⟨startVersion, commitVersion⟩

/-! ## Errors and locks in responses -/

/-- The locks a list of key errors carries. -/
def locksOf (errors : List KeyError) : List LockInfo := errors.filterMap (·.locked)

/-- The locks of a response with pairs (`pair_locks!`): those of its error only if there are no
pairs. -/
def pairLocks (error : Option KeyError) (pairs : List PairResult) : List LockInfo :=
  if pairs.isEmpty then locksOf error.toList else locksOf (pairs.filterMap (·.error))

/-! ## Shards -/

def shardsByBatch {ι : Type} (keyOf : ι → Key) (itemSize : ι → ℕ) (items : List ι) :
    AsyncResult (List (List ι × Region)) :=
  batchedShards keyOf itemSize (fun _ batch => batch) txnCommitBatchSize items

def mutationSize (m : Proto.Mutation) : ℕ := m.key.len + m.value.length

/-- The mutations of a prewrite shard and the number of keys in its whole region. -/
structure PrewriteShard where
  mutations : List Proto.Mutation
  txnSize : ℕ
deriving DecidableEq

def PrewriteRequest.shards (r : PrewriteRequest) : AsyncResult (List (PrewriteShard × Region)) :=
  batchedShards (·.key) mutationSize (fun run batch => ⟨batch, run.length⟩) txnCommitBatchSize
    r.mutations

/-- `PrewriteRequest::apply_shard`: only the shard of the primary keeps the secondaries of an
async commit, and only a shard that looks complete keeps `try_one_pc`. -/
def PrewriteRequest.applyShard (r : PrewriteRequest) (shard : PrewriteShard) : PrewriteRequest :=
  let isPrimaryShard := shard.mutations.any fun m => m.key = r.primaryLock
  let secondaries := if r.useAsyncCommit && !isPrimaryShard then [] else r.secondaries
  let tryOnePc :=
    if r.tryOnePc && (!isPrimaryShard || shard.mutations.length ≠ secondaries.length + 1) then false
    else r.tryOnePc
  { r with
    secondaries := secondaries
    tryOnePc := tryOnePc
    txnSize := shard.txnSize
    mutations := shard.mutations }

/-- `PrewriteRequest::apply_store`: a retried request disables resolve-lock-lite. -/
def PrewriteRequest.applyStore (attempt : ℕ) (r : PrewriteRequest) : PrewriteRequest :=
  if attempt > 0 then { r with txnSize := u64Max } else r

/-! ## Dispatching -/

/-- **`Dispatch`**: a request on its own — how it is cut into shards, how a shard is sent to
the store of its region, and where its response carries errors and locks. -/
structure Dispatch (R Shard Resp : Type) where
  shards : R → AsyncResult (List (Shard × Region))
  applyShard : R → Shard → R
  applyStore : ℕ → R → R
  send : Region → R → AsyncResult Resp
  errors : Resp → List KeyError
  locks : Resp → List LockInfo
  regionError : Resp → Option RegionError

abbrev Resolver := List LockInfo → AsyncResult (List LockInfo)

namespace Dispatch

variable {R Shard Resp : Type}

/-- The plan that sends the request as it is. -/
def plan (d : Dispatch R Shard Resp) : ShardedPlan R Shard Resp where
  shards := d.shards
  applyShard := d.applyShard
  applyStore := d.applyStore
  execute := d.send
  keyErrors resp := Error.extractErrors (d.errors resp)
  regionError := d.regionError

/-- `.resolve_lock(backoff)`: the plan that resolves the locks its responses report. -/
def resolveLock (d : Dispatch R Shard Resp) (resolve : Resolver) (fuel : ℕ) (backoff : Backoff) :
    ShardedPlan R Shard Resp :=
  { d.plan with
    execute := fun region r =>
      TikvClient.resolveLock (d.send region r) d.locks resolve fuel backoff }

def prewrite : Dispatch PrewriteRequest PrewriteShard PrewriteResponse where
  shards := PrewriteRequest.shards
  applyShard := PrewriteRequest.applyShard
  applyStore := PrewriteRequest.applyStore
  send region r := Async.rpc region (.prewrite r)
  errors := PrewriteResponse.errors
  locks resp := locksOf resp.errors
  regionError := PrewriteResponse.regionError

def flush : Dispatch FlushRequest (List Proto.Mutation) FlushResponse where
  shards r := shardsByBatch (·.key) mutationSize r.mutations
  applyShard r shard := { r with mutations := shard }
  applyStore _ r := r
  send region r := Async.rpc region (.flush r)
  errors := FlushResponse.errors
  locks resp := locksOf resp.errors
  regionError := FlushResponse.regionError

def commit : Dispatch CommitRequest (List Key) CommitResponse where
  shards r := shardsByBatch id Key.len r.keys
  applyShard r shard := { r with keys := shard }
  applyStore _ r := r
  send region r := Async.rpc region (.commit r)
  errors resp := resp.error.toList
  locks resp := locksOf resp.error.toList
  regionError := CommitResponse.regionError

def batchRollback : Dispatch BatchRollbackRequest (List Key) BatchRollbackResponse where
  shards r := shardsByRegion id r.keys
  applyShard r shard := { r with keys := shard }
  applyStore _ r := r
  send region r := Async.rpc region (.batchRollback r)
  errors resp := resp.error.toList
  locks resp := locksOf resp.error.toList
  regionError := BatchRollbackResponse.regionError

def pessimisticRollback :
    Dispatch PessimisticRollbackRequest (List Key) PessimisticRollbackResponse where
  shards r := shardsByRegion id r.keys
  applyShard r shard := { r with keys := shard }
  applyStore _ r := r
  send region r := Async.rpc region (.pessimisticRollback r)
  errors := PessimisticRollbackResponse.errors
  locks resp := locksOf resp.errors
  regionError := PessimisticRollbackResponse.regionError

def pessimisticLock :
    Dispatch PessimisticLockRequest (List Proto.Mutation) PessimisticLockResponse where
  shards r := shardsByRegion (·.key) r.mutations
  applyShard r shard := { r with mutations := shard }
  applyStore _ r := r
  send region r := Async.rpc region (.pessimisticLock r)
  errors := PessimisticLockResponse.errors
  locks resp := locksOf resp.errors
  regionError := PessimisticLockResponse.regionError

def get : Dispatch GetRequest (List Key) GetResponse where
  shards r := regionStreamForKeys id [r.key]
  applyShard r shard := { r with key := shard.getLast?.getD .empty }
  applyStore _ r := r
  send region r := Async.rpc region (.get r)
  errors resp := resp.error.toList
  locks resp := locksOf resp.error.toList
  regionError := GetResponse.regionError

def batchGet : Dispatch BatchGetRequest (List Key) BatchGetResponse where
  shards r := shardsByRegion id r.keys
  applyShard r shard := { r with keys := shard }
  applyStore _ r := r
  send region r := Async.rpc region (.batchGet r)
  errors resp := resp.pairs.filterMap (·.error)
  locks resp := pairLocks resp.error resp.pairs
  regionError := BatchGetResponse.regionError

def scan (fuel : ℕ) : Dispatch ScanRequest (Key × Key) ScanResponse where
  shards r :=
    regionStreamForRange fuel (if r.reverse then (r.endKey, r.startKey) else (r.startKey, r.endKey))
  applyShard r shard :=
    if r.reverse then { r with startKey := shard.2, endKey := shard.1 }
    else { r with startKey := shard.1, endKey := shard.2 }
  applyStore _ r := r
  send region r := Async.rpc region (.scan r)
  errors resp := resp.pairs.filterMap (·.error)
  locks resp := pairLocks resp.error resp.pairs
  regionError := ScanResponse.regionError

def txnHeartBeat : Dispatch TxnHeartBeatRequest (List Key) TxnHeartBeatResponse where
  shards r := regionStreamForKeys id [r.primaryLock]
  applyShard r shard := { r with primaryLock := shard.getLast?.getD .empty }
  applyStore _ r := r
  send region r := Async.rpc region (.txnHeartBeat r)
  errors resp := resp.error.toList
  locks resp := locksOf resp.error.toList
  regionError := TxnHeartBeatResponse.regionError

def cleanup : Dispatch CleanupRequest (List Key) CleanupResponse where
  shards r := regionStreamForKeys id [r.key]
  applyShard r shard := { r with key := shard.getLast?.getD .empty }
  applyStore _ r := r
  send region r := Async.rpc region (.cleanup r)
  errors resp := resp.error.toList
  -- a cleanup is never wrapped in lock resolution that could find locks
  locks _ := []
  regionError := CleanupResponse.regionError

end Dispatch

end TikvClient
