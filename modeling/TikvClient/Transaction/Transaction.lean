import TikvClient.Transaction.Buffer
import TikvClient.Transaction.Pipelined

/-!
# Transactions

`Transaction` is what the user holds: a buffer, a status and the options, and in pipelined mode
the state of the flushes.  Its operations are programs over that state (`TxnM`).

**Status.**  Only the transaction itself changes its status, so it is a field here; the
heartbeat, which shares it, reads it by a call.

**Reads** are the plain ones (`get`, `batch_get`, `scan` and the locking variants).
-/

namespace TikvClient

open Proto

/-- **A transaction.** -/
structure Transaction where
  status : TransactionStatus
  timestamp : ℕ
  buffer : Buffer
  options : TransactionOptions
  /-- Whether the client has local latches. -/
  txnLatches : Bool
  pipelined : Option PipelinedTxnState
  isHeartbeatStarted : Bool
  hasPessimisticLock : Bool

/-- A method of a transaction. -/
abbrev TxnM := StateProg sig Transaction Error

namespace Transaction

def new (timestamp : ℕ) (options : TransactionOptions) (txnLatches : Bool) : Transaction where
  status := if options.readOnly then .readOnly else .active
  timestamp := timestamp
  buffer := Buffer.new options.isPessimistic
  options := options
  txnLatches := txnLatches
  pipelined := options.pipelined.map PipelinedTxnState.new
  isHeartbeatStarted := false
  hasPessimisticLock := false

/-! ## Status -/

def checkAllowOperation : TxnM Unit := do
  let t ← get
  match t.status with
  | .readOnly => pure ()
  | .active => pure ()
  | _ => throw .operationAfterCommitError

def setStatus (status : TransactionStatus) : TxnM Unit :=
  modify fun t => { t with status := status }

/-- `transit_status`, whose failure both callers turn into the same error. -/
def transitStatus (allowed : List TransactionStatus) (next : TransactionStatus) : TxnM Unit := do
  let t ← get
  if t.status ∈ allowed then setStatus next else throw .operationAfterCommitError

/-! ## The buffer -/

def modifyBuffer (f : Buffer → Buffer) : TxnM Unit :=
  modify fun t => { t with buffer := f t.buffer }

/-- Tell the pipelined state what a key is written as now. -/
def recordKeyChange (t : Transaction) (key : Key) : Transaction :=
  match t.pipelined with
  | none => t
  | some p =>
    { t with
      pipelined := some (p.recordMutation key
        (t.buffer.mutationForKey key t.options.assertionLevel)) }

lemma buffer_recordKeyChange (t : Transaction) (key : Key) :
    (t.recordKeyChange key).buffer = t.buffer := by
  unfold recordKeyChange
  split <;> rfl

def pipelinedRecordKeyChange (key : Key) : TxnM Unit :=
  modify fun t => t.recordKeyChange key

/-- Change the buffer at a key and record the change. -/
def changeKey (key : Key) (f : Buffer → Buffer) : TxnM Unit := do
  modifyBuffer f
  pipelinedRecordKeyChange key

/-- A read through the buffer. -/
def readThrough {α : Type} (f : Buffer → Async (Buffer × Except Error α)) : TxnM α :=
  ExceptT.mk fun t => (f t.buffer).bind fun r => .ret (r.2, { t with buffer := r.1 })

/-! ## Flushing -/

def flushContext (t : Transaction) (primaryKey : Key) : FlushContext :=
  ⟨t.timestamp, primaryKey, t.options.assertionLevel, t.options.retryOptions⟩

/-- Run a method of the pipelined state. -/
def onPipelined {α : Type} (m : PipelinedTxnState.M α) : TxnM α :=
  ExceptT.mk fun t =>
    match t.pipelined with
    | none =>
      .ret (.error (.invalidPipelinedTransaction "pipelined transaction state is missing"), t)
    | some p => (m.exec p).bind fun r => .ret (r.1, { t with pipelined := some r.2 })

def pipelinedMaybeFlush : TxnM Unit := do
  let t ← get
  match t.pipelined, t.buffer.primaryKey with
  | some _, some primaryKey => onPipelined (PipelinedTxnState.maybeFlush (t.flushContext primaryKey))
  | _, _ => pure ()

/-! ## Heartbeats -/

/-- Start the heartbeat task, once. -/
def startAutoHeartbeat (primaryKey : Key) : TxnM Unit := do
  let t ← get
  if !t.options.autoHeartbeat || t.isHeartbeatStarted then pure ()
  else do
    modify fun t => { t with isHeartbeatStarted := true }
    let _ ← StateProg.ofCall
      (Async.spawn (.heartbeat t.timestamp primaryKey t.options.retryOptions.regionBackoff))
    pure ()

mutual

def isTxnNotFoundHeartbeatError : Error → Bool
  | .keyError e => e.kind = .txnNotFound
  | .multipleKeyErrors errors => !errors.isEmpty && allTxnNotFound errors
  | .extractedErrors errors => !errors.isEmpty && allTxnNotFound errors
  | .undeterminedError inner => isTxnNotFoundHeartbeatError inner
  | _ => false

def allTxnNotFound : List Error → Bool
  | [] => true
  | e :: es => isTxnNotFoundHeartbeatError e && allTxnNotFound es

end

/-- The future of the heartbeat: until the transaction has ended, extend the TTL of the primary
lock it was given. -/
def heartbeatTask (startTs : ℕ) (primaryKey : Key) (regionBackoff : Backoff) : ℕ → AsyncResult Unit
  | 0 => .stuck
  | fuel + 1 =>
    Async.loadStatus.bind fun status =>
    match status with
    | .rolledback => .ret (.ok ())
    | .committed => .ret (.ok ())
    | .dropped => .ret (.ok ())
    | _ =>
      Async.elapsed.bind fun elapsedMs =>
      (Dispatch.txnHeartBeat.plan.retryMultiRegion false fuel
        (newHeartBeatRequest startTs primaryKey (elapsedMs + maxTtl)) regionBackoff).bind fun
        | .error e =>
          if isTxnNotFoundHeartbeatError e then .ret (.ok ()) else .ret (.error e)
        | .ok results =>
          match collectSingle results with
          | .ok _ => heartbeatTask startTs primaryKey regionBackoff fuel
          | .error e =>
            if isTxnNotFoundHeartbeatError e then .ret (.ok ()) else .ret (.error e)

def sendHeartBeat (fuel : ℕ) : TxnM ℕ := do
  checkAllowOperation
  let t ← get
  match t.buffer.primaryKey with
  | none => throw .noPrimaryKey
  | some primaryKey => do
    let elapsedMs ← StateProg.ofCall Async.elapsed
    let leaves ← StateProg.ofProg (executePlan Dispatch.txnHeartBeat fuel t.options.retryOptions
      (newHeartBeatRequest t.timestamp primaryKey (elapsedMs + maxTtl)))
    match collectSingle (leaves.map .ok) with
    | .ok leaf => pure leaf.2.lockTtl
    | .error e => throw e

/-! ## Pessimistic locks -/

def lengthMismatch (field : String) (mutations items : ℕ) : Error :=
  .internalError
    s!"PessimisticLockResponse.{field} length mismatch: mutations={mutations}, {field}={items}"

/-- The pairs one shard of a pessimistic lock request returns. -/
def pairsOfShard (mutations : List Proto.Mutation) (resp : PessimisticLockResponse) :
    Except Error (List KvPair) :=
  if !resp.results.isEmpty then
    if resp.results.length ≠ mutations.length then
      .error (lengthMismatch "results" mutations.length resp.results.length)
    else
      .ok ((mutations.zip resp.results).filterMap fun (m, r) =>
        if r.resultType ≠ .lockResultFailed && r.existence then some ⟨m.key, r.value⟩ else none)
  else
    let values :=
      if resp.values.isEmpty then List.replicate mutations.length [] else resp.values
    if values.length ≠ mutations.length then
      .error (lengthMismatch "values" mutations.length values.length)
    else if !resp.notFounds.isEmpty && resp.notFounds.length ≠ mutations.length then
      .error (lengthMismatch "not_founds" mutations.length resp.notFounds.length)
    else if resp.notFounds.isEmpty then
      -- an empty value stands for a key that does not exist
      .ok ((mutations.zip values).filterMap fun (m, v) =>
        if !v.isEmpty then some ⟨m.key, v⟩ else none)
    else
      .ok (((mutations.zip values).zip resp.notFounds).filterMap fun ((m, v), notFound) =>
        if !notFound then some ⟨m.key, v⟩ else none)

/-- The pairs of all shards, or the first mismatch. -/
def pairsOfShards :
    List (PessimisticLockRequest × PessimisticLockResponse) → Except Error (List KvPair)
  | [] => .ok []
  | (r, resp) :: rest =>
    match pairsOfShard r.mutations resp, pairsOfShards rest with
    | .error e, _ => .error e
    | .ok _, .error e => .error e
    | .ok pairs, .ok others => .ok (pairs ++ others)

/-- `CollectWithShard`: the pairs of all shards, or the first error with the keys of the shards
that succeeded. -/
def collectWithShard (results : ShardResults PessimisticLockRequest PessimisticLockResponse) :
    Except Error (List KvPair) :=
  match collectError results with
  | .ok leaves => pairsOfShards leaves
  | .error e =>
    .error (.pessimisticLockError e
      ((okLeaves results).flatMap fun leaf => leaf.1.mutations.map (·.key)))

/-- The plan of a pessimistic lock request, which waits for all its shards. -/
def pessimisticLockPlan (fuel : ℕ) (retryOptions : RetryOptions)
    (request : PessimisticLockRequest) : AsyncResult (List KvPair) :=
  ((Dispatch.pessimisticLock.resolveLock (resolveLocks fuel) fuel
    retryOptions.lockBackoff).retryMultiRegion true fuel request
    retryOptions.regionBackoff).andThen fun results =>
  .ret (collectWithShard results)

/-- A lock on a key that is presumed absent asserts so. -/
def inferAssertion (b : Buffer) (lock : Key × Assertion) : Key × Assertion :=
  if lock.2 = .none && (b.keyFlags lock.1).hasPresumeKeyNotExists then (lock.1, .notExist)
  else lock

/-- Undo the pessimistic locks on `keys`. -/
def pessimisticLockRollback (fuel : ℕ) (keys : List Key) (startVersion forUpdateTs : ℕ) :
    TxnM Unit := do
  if keys.isEmpty then pure ()
  else do
    let t ← get
    let _ ← StateProg.ofProg (executePlan Dispatch.pessimisticRollback fuel t.options.retryOptions
      (newPessimisticRollbackRequest keys startVersion forUpdateTs))
    modifyBuffer fun b => keys.foldl Buffer.unlock b

/-- What follows a pessimistic lock request that succeeded: the primary is fixed, the heartbeat
started, and the keys are locked in the buffer. -/
def finishPessimisticLock (firstKey : Key) (locks : List (Key × Assertion)) : TxnM Unit := do
  modify fun t => { t with buffer := t.buffer.primaryKeyOr firstKey, hasPessimisticLock := true }
  let t ← get
  startAutoHeartbeat (t.buffer.primaryKey.getD firstKey)
  modifyBuffer fun b => locks.foldl (fun b lock => b.lock lock.1) b

/-- `pessimistic_lock`: lock the keys on the server; on a partial failure, undo the locks that
were taken.  The primary is not set before the request succeeds. -/
def pessimisticLock (fuel : ℕ) (locks : List (Key × Assertion)) (options : LockOptions) :
    TxnM (List KvPair) := do
  let t ← get
  if !t.options.isPessimistic then throw .invalidTransactionType
  else
    match locks with
    | [] => pure []
    | (firstKey, _) :: _ =>
      if options.wakeUpMode = .forceLock && locks.length ≠ 1 then
        throw (.invalidPessimisticLockOptions
          "WakeUpModeForceLock only supports a single key per request")
      else do
        let locks := locks.map (inferAssertion t.buffer)
        let primaryLock := t.buffer.primaryKey.getD firstKey
        let forUpdateTs ← StateProg.ofProg Async.getTimestamp
        modify fun t => { t with options := t.options.pushForUpdateTs forUpdateTs }
        let request := newPessimisticLockRequest locks primaryLock t.timestamp maxTtl forUpdateTs
          (!t.hasPessimisticLock && locks.length = 1) options
        let result ← StateProg.ofCall
          (pessimisticLockPlan fuel t.options.retryOptions request)
        match result with
        | .ok pairs => do
          finishPessimisticLock firstKey locks
          pure pairs
        | .error (.pessimisticLockError inner successKeys) => do
          pessimisticLockRollback fuel successKeys t.timestamp forUpdateTs
          throw (.pessimisticLockError inner successKeys)
        | .error e => throw e

/-- Lock the keys first if the transaction is pessimistic. -/
def lockIfPessimistic (fuel : ℕ) (locks : List (Key × Assertion)) : TxnM Unit := do
  let t ← get
  if t.options.isPessimistic then do
    let _ ← pessimisticLock fuel locks .default
    pure ()
  else pure ()

/-! ## Reads -/

/-- The plan of a read of one key. -/
def getPlan (fuel : ℕ) (retryOptions : RetryOptions) (request : GetRequest) :
    AsyncResult (Option Value) :=
  (executeShards Dispatch.get fuel retryOptions request).andThen fun results =>
  match collectSingle results with
  | .ok leaf => .ret (.ok (if leaf.2.notFound then none else some leaf.2.value))
  | .error e => .ret (.error e)

/-- The same with the commit timestamp. -/
def getEntryPlan (fuel : ℕ) (retryOptions : RetryOptions) (request : GetRequest) :
    AsyncResult (Option ValueEntry) :=
  (executeShards Dispatch.get fuel retryOptions request).andThen fun results =>
  .ret ((collectSingle results).map fun leaf => if leaf.2.notFound then none else
    some ⟨leaf.2.value, if request.needCommitTs then leaf.2.commitTs else 0⟩)

/-- The pairs of read responses, with the values of the keys that were found. -/
def pairsOf (pairs : List PairResult) : List KvPair := pairs.map fun p => ⟨p.key, p.value⟩

def batchGetPlan (fuel : ℕ) (retryOptions : RetryOptions) (request : BatchGetRequest) :
    AsyncResult (List KvPair) :=
  (executeShards Dispatch.batchGet fuel retryOptions request).andThen fun results =>
  match collectError results with
  | .ok leaves => .ret (.ok (leaves.flatMap fun leaf => pairsOf leaf.2.pairs))
  | .error e => .ret (.error e)

def batchGetEntriesPlan (fuel : ℕ) (retryOptions : RetryOptions) (request : BatchGetRequest) :
    AsyncResult (List (Key × ValueEntry)) :=
  (executeShards Dispatch.batchGet fuel retryOptions request).andThen fun results =>
  .ret ((collectError results).map fun leaves => leaves.flatMap fun leaf =>
    leaf.2.pairs.map fun p => (p.key, ⟨p.value, if request.needCommitTs then p.commitTs else 0⟩))

def scanPlan (fuel : ℕ) (retryOptions : RetryOptions) (request : ScanRequest) :
    AsyncResult (List KvPair) :=
  (executeShards (Dispatch.scan fuel) fuel retryOptions request).andThen fun results =>
  match collectError results with
  | .ok leaves => .ret (.ok (leaves.flatMap fun leaf => pairsOf leaf.2.pairs))
  | .error e => .ret (.error e)

def get (fuel : ℕ) (key : Key) : TxnM (Option Value) := do
  checkAllowOperation
  let t ← MonadState.get
  readThrough fun b => b.getOrElse key fun key =>
    getPlan fuel t.options.retryOptions (newGetRequest key t.timestamp)

/-- `get_with_options`, of which `ReturnCommitTs` is the only one. -/
def getWithOptions (fuel : ℕ) (key : Key) (needCommitTs : Bool) : TxnM (Option ValueEntry) := do
  checkAllowOperation
  let t ← MonadState.get
  readThrough fun b => b.getEntryOrElse key needCommitTs fun key =>
    getEntryPlan fuel t.options.retryOptions
      (newGetRequestWithNeedCommitTs key t.timestamp needCommitTs)

def keyExists (fuel : ℕ) (key : Key) : TxnM Bool := do
  return (← get fuel key).isSome

def batchGet (fuel : ℕ) (keys : List Key) : TxnM (List KvPair) := do
  checkAllowOperation
  let t ← MonadState.get
  readThrough fun b => b.batchGetOrElse keys fun keys =>
    batchGetPlan fuel t.options.retryOptions (newBatchGetRequest keys t.timestamp)

def batchGetWithOptions (fuel : ℕ) (keys : List Key) (needCommitTs : Bool) :
    TxnM (Std.ExtTreeMap Key ValueEntry) := do
  checkAllowOperation
  let t ← MonadState.get
  readThrough fun b => b.batchGetEntriesOrElse keys needCommitTs fun keys =>
    batchGetEntriesPlan fuel t.options.retryOptions
      (newBatchGetRequestWithNeedCommitTs keys t.timestamp needCommitTs)

/-- The keys of a range as a request carries them; an empty end is no bound. -/
def rangeKeys (range : BoundRange) : Key × Key :=
  (match range.lower with
    | .included k => k
    | .excluded k => k.nextKey
    | .unbounded => .empty,
   match range.upper with
    | .included k => k.nextKey
    | .excluded k => k
    | .unbounded => .empty)

/-- `scan_inner`, of which the scans of the API are instances. -/
def scanInner (fuel : ℕ) (range : BoundRange) (limit : ℕ) (keyOnly reverse : Bool) :
    TxnM (List KvPair) := do
  checkAllowOperation
  let t ← MonadState.get
  readThrough fun b => b.scanAndFetch range limit (!keyOnly) reverse fun range limit =>
    scanPlan fuel t.options.retryOptions
      (newScanRequest (rangeKeys range) t.timestamp limit keyOnly reverse)

/-! ## Writes -/

def put (fuel : ℕ) (key : Key) (value : Value) : TxnM Unit := do
  checkAllowOperation
  lockIfPessimistic fuel [(key, .none)]
  changeKey key fun b => b.put key value
  pipelinedMaybeFlush

def insert (fuel : ℕ) (key : Key) (value : Value) : TxnM Unit := do
  checkAllowOperation
  let t ← MonadState.get
  if (t.buffer.get key).isSome then throw .duplicateKeyInsertion
  else do
    lockIfPessimistic fuel [(key, .notExist)]
    changeKey key fun b => b.insert key value
    pipelinedMaybeFlush

def delete (fuel : ℕ) (key : Key) : TxnM Unit := do
  checkAllowOperation
  lockIfPessimistic fuel [(key, .none)]
  changeKey key fun b => b.delete key
  pipelinedMaybeFlush

/-- Apply the mutations to the buffer one by one. -/
def mutateAll : List Mutation → TxnM Unit
  | [] => pure ()
  | m :: ms => do
    changeKey m.key fun b => b.mutate m
    mutateAll ms

def batchMutate (fuel : ℕ) (mutations : List Mutation) : TxnM Unit := do
  checkAllowOperation
  lockIfPessimistic fuel (mutations.map fun m => (m.key, .none))
  mutateAll mutations
  pipelinedMaybeFlush

/-- Lock the keys in the buffer one by one. -/
def lockAll : List Key → TxnM Unit
  | [] => pure ()
  | key :: keys => do
    changeKey key fun b => b.lock key
    lockAll keys

/-- Lock the keys in the buffer or, for a pessimistic transaction, on the server. -/
def lockByKind (fuel : ℕ) (keys : List Key) (options : LockOptions) : TxnM Unit := do
  let t ← MonadState.get
  match t.options.kind with
  | .optimistic => lockAll keys
  | .pessimistic _ => do
    let _ ← pessimisticLock fuel (keys.map fun k => (k, .none)) options
    pure ()

def lockKeys (fuel : ℕ) (keys : List Key) (options : LockOptions) : TxnM Unit := do
  checkAllowOperation
  lockByKind fuel keys options
  pipelinedMaybeFlush

def getForUpdate (fuel : ℕ) (key : Key) (options : LockOptions) : TxnM (Option Value) := do
  checkAllowOperation
  let t ← MonadState.get
  if !t.options.isPessimistic then do
    lockKeys fuel [key] .default
    get fuel key
  else do
    let pairs ← pessimisticLock fuel [(key, .none)] { options with returnValues := true }
    pure (pairs.getLast?.map (·.value))

def batchGetForUpdate (fuel : ℕ) (keys : List Key) (options : LockOptions) :
    TxnM (List KvPair) := do
  checkAllowOperation
  let t ← MonadState.get
  if !t.options.isPessimistic then do
    lockKeys fuel keys .default
    batchGet fuel keys
  else pessimisticLock fuel (keys.map fun k => (k, .none)) { options with returnValues := true }

/-- `set_key_assertion`, which does not look at the status. -/
def setKeyAssertion (key : Key) (assertion : Assertion) : TxnM Unit :=
  changeKey key fun b => b.setAssertion key assertion

/-- `update_key_flags`, which does not look at the status. -/
def updateKeyFlags (key : Key) (ops : List FlagsOp) : TxnM Unit :=
  changeKey key fun b => b.updateKeyFlags key ops

/-! ## What is committed -/

/-- The mutations `commit` and `rollback` see. -/
def prewriteMutations (t : Transaction) : List Proto.Mutation :=
  t.buffer.toProtoMutations t.options.assertionLevel

def commitKeys (t : Transaction) : List Key := t.buffer.commitKeys t.prewriteMutations

/-- The primary `commit` chooses: the buffer's, unless it is not among the commit keys. -/
def commitPrimaryKey (t : Transaction) : Option Key :=
  if t.commitKeys.isEmpty then t.buffer.primaryKey
  else (t.buffer.primaryKey.filter fun pk => pk ∈ t.commitKeys).or t.commitKeys.head?

/-- The committer of the transaction, with the given primary. -/
def committer (t : Transaction) (primaryKey : Option Key) : Committer where
  primaryKey := primaryKey
  prewriteMutations := t.prewriteMutations
  commitKeys := t.commitKeys
  startVersion := t.timestamp
  options := t.options
  writeSize := t.buffer.getWriteSize

/-! ## Commit -/

/-- The commit of the primary of a pipelined transaction; only `Error::Grpc` makes the outcome
undetermined. -/
def commitPipelinedPrimary (fuel : ℕ) (t : Transaction) (primaryKey : Key) (commitVersion : ℕ) :
    AsyncResult Unit :=
  (executePlan Dispatch.commit fuel t.options.retryOptions
    (newCommitRequestWithPrimaryKey [primaryKey] (some primaryKey) t.timestamp commitVersion)).bind
    fun
    | .ok _ => .ret (.ok ())
    | .error e => if e.isGrpc then .ret (.error (.undeterminedError e)) else .ret (.error e)

/-- Resolve the flushed locks in the background, if anything was flushed. -/
def spawnResolveFlushed (startTs commitTs : ℕ) : Option (Key × Key) → TxnM Unit
  | none => pure ()
  | some range => do
    let _ ← StateProg.ofCall (Async.spawn (.resolveFlushedLocks startTs commitTs range))
    pure ()

def commitPipelined (fuel : ℕ) (primaryKey : Key) : TxnM (Option ℕ) := do
  let t ← MonadState.get
  onPipelined (PipelinedTxnState.flushAll (t.flushContext primaryKey) fuel)
  let t ← MonadState.get
  let commitVersion ← StateProg.ofProg (fetchCommitTimestamp t.options fuel)
  StateProg.ofProg (commitPipelinedPrimary fuel t primaryKey commitVersion)
  spawnResolveFlushed t.timestamp commitVersion (t.pipelined.bind (·.flushedRange))
  pure (some commitVersion)

/-- The pipelined branch of `commit`. -/
def commitFlushed (fuel : ℕ) (primaryKey : Key) : TxnM (Option ℕ) := do
  let t ← MonadState.get
  if t.commitKeys.isEmpty then do
    onPipelined (PipelinedTxnState.flushAll (t.flushContext primaryKey) fuel)
    setStatus .committed
    pure none
  else do
    let commitTs ← commitPipelined fuel primaryKey
    setStatus .committed
    pure commitTs

/-- Take the local latches of the commit keys; only optimistic transactions use them. -/
def acquireLatches : TxnM Unit := do
  let t ← MonadState.get
  if t.options.isPessimistic || !t.txnLatches then pure ()
  else do
    let stale ← StateProg.ofCall (Async.latch t.timestamp t.commitKeys)
    if stale then throw (.writeConflictInLatch t.timestamp) else pure ()

/-- The two-phase branch of `commit`; without commit keys it only prewrites. -/
def commitTwoPhase (fuel : ℕ) (primaryKey : Key) : TxnM (Option ℕ) := do
  let t ← MonadState.get
  if t.commitKeys.isEmpty then do
    let _ ← StateProg.ofProg ((t.committer (some primaryKey)).prewrite fuel)
    setStatus .committed
    pure none
  else do
    acquireLatches
    startAutoHeartbeat primaryKey
    let commitTs ← StateProg.ofProg ((t.committer (some primaryKey)).commit fuel)
    setStatus .committed
    pure commitTs

/-- **`Transaction::commit`.**  A commit that failed may be tried again. -/
def commit (fuel : ℕ) : TxnM (Option ℕ) := do
  transitStatus [.startedCommit, .active] .startedCommit
  let t ← MonadState.get
  match t.prewriteMutations with
  | [] =>
    if t.buffer.primaryKey.isNone then pure none
    else throw (.panicked "assertion failed: primary_key.is_none()")
  | first :: _ =>
    let primaryKey := t.commitPrimaryKey.getD first.key
    if t.options.isPipelined then commitFlushed fuel primaryKey
    else commitTwoPhase fuel primaryKey

/-! ## Rollback -/

/-- `rollback_pipelined`: the result of the flush that was cancelled is ignored. -/
def rollbackPipelined : TxnM Unit := do
  let t ← MonadState.get
  match t.pipelined with
  | none => throw (.invalidPipelinedTransaction "pipelined transaction state is missing")
  | some p => do
    StateProg.ofCall Async.cancel
    StateProg.ofCall (p.flushing.elim (.ret ()) fun handle =>
      (Async.await handle).bind fun _ => .ret ())
    modify fun t => { t with pipelined := some { p with flushing := none } }
    spawnResolveFlushed t.timestamp 0 p.flushedRange

/-- **`Transaction::rollback`.** -/
def rollback (fuel : ℕ) : TxnM Unit := do
  transitStatus [.startedRollback, .active, .startedCommit] .startedRollback
  let t ← MonadState.get
  if t.options.isPipelined then do
    rollbackPipelined
    setStatus .rolledback
  else if t.commitKeys.isEmpty then setStatus .rolledback
  else do
    StateProg.ofProg ((t.committer t.buffer.primaryKey).rollback fuel)
    setStatus .rolledback

/-! ## The tasks -/

/-- The program of a background task. -/
def taskProgram (fuel : ℕ) : Task → AsyncResult Unit
  | .flush request retryOptions => PipelinedTxnState.flushTask fuel request retryOptions
  | .heartbeat startTs primaryKey regionBackoff =>
    heartbeatTask startTs primaryKey regionBackoff fuel
  | .commitSecondary committer commitVersion => committer.commitSecondary fuel commitVersion
  | .resolveFlushedLocks startTs commitTs range =>
    PipelinedTxnState.resolveFlushedLocks fuel startTs commitTs range

end Transaction

end TikvClient
