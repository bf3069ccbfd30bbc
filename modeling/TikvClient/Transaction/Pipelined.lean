import TikvClient.Core.Stateful
import TikvClient.Transaction.Committer

/-!
# Pipelined transactions

A pipelined transaction flushes its mutations in the background, generation by generation,
while it still runs.  `mutable` collects the mutations of the next generation; a flush moves
them into a task, and its join handle into `flushing`.  The handle is *taken* by whoever waits
for the flush, with its result.

**Cancellation.**  The flag and the wake-up that a rollback shares with the flush tasks are
calls: a task asks whether it is cancelled before it starts, and is interrupted while it runs.
-/

namespace TikvClient

open Proto

def pipelinedLockTtlMs : ℕ := 20000

/-- **The state of a pipelined transaction.** -/
structure PipelinedTxnState where
  minFlushKeys : ℕ
  generation : ℕ
  mutable : Std.ExtTreeMap Key Proto.Mutation
  /-- The join handle of the flush that has not been waited for. -/
  flushing : Option ℕ
  flushedStart : Option Key
  flushedEndExclusive : Option Key

/-- What every flush of a transaction carries besides its mutations. -/
structure FlushContext where
  startTs : ℕ
  primaryKey : Key
  assertionLevel : AssertionLevel
  retryOptions : RetryOptions
deriving DecidableEq, Inhabited

namespace PipelinedTxnState

def new (minFlushKeys : ℕ) : PipelinedTxnState where
  minFlushKeys := minFlushKeys
  generation := 0
  mutable := ∅
  flushing := none
  flushedStart := none
  flushedEndExclusive := none

/-- The mutation of a key as it is now; `none` means that the key is not written. -/
def recordMutation (p : PipelinedTxnState) (key : Key) : Option Proto.Mutation → PipelinedTxnState
  | some m => { p with mutable := p.mutable.insert key m }
  | none => { p with mutable := p.mutable.erase key }

def flushedRange (p : PipelinedTxnState) : Option (Key × Key) :=
  match p.flushedStart, p.flushedEndExclusive with
  | some start, some endExclusive => some (start, endExclusive)
  | _, _ => none

/-- Widen the flushed range `[start, end)` to include the keys from `minKey` to `maxKey`. -/
def updateFlushedRange (p : PipelinedTxnState) (minKey maxKey : Key) : PipelinedTxnState :=
  { p with
    flushedStart :=
      match p.flushedStart with
      | some existing => if existing ≤ minKey then some existing else some minKey
      | none => some minKey
    flushedEndExclusive :=
      match p.flushedEndExclusive with
      | some existing =>
        if existing ≥ maxKey.nextKey then some existing else some maxKey.nextKey
      | none => some maxKey.nextKey }

/-- The state after the mutable mutations moved into a flush. -/
def takeMutable (p : PipelinedTxnState) (minKey maxKey : Key) : PipelinedTxnState :=
  { p.updateFlushedRange minKey maxKey with
    generation := saturatingAdd p.generation 1
    mutable := ∅ }

/-- The request of the next flush. -/
def flushRequest (p : PipelinedTxnState) (ctx : FlushContext) : FlushRequest :=
  { newFlushRequest p.mutable.values ctx.primaryKey ctx.startTs (saturatingAdd p.generation 1)
      pipelinedLockTtlMs with
    assertionLevel := ctx.assertionLevel }

/-! ## Flushing -/

/-- A method of the pipelined state. -/
abbrev M := StateProg sig PipelinedTxnState Error

/-- Wait for the flush in the background, if there is one; its handle is gone afterwards. -/
def flushWait : M Unit := do
  let p ← get
  match p.flushing with
  | none => pure ()
  | some handle =>
    modify fun p => { p with flushing := none }
    StateProg.ofProg (Async.await handle)

/-- Start a flush of the mutable mutations, once the flush before it is done. -/
def startFlush (ctx : FlushContext) : M Unit := do
  flushWait
  let p ← get
  match p.mutable.minKey?, p.mutable.maxKey? with
  | some minKey, some maxKey =>
    modify fun p => p.takeMutable minKey maxKey
    let handle ← StateProg.ofCall (Async.spawn (.flush (p.flushRequest ctx) ctx.retryOptions))
    modify fun p => { p with flushing := some handle }
  -- the mutable buffer is empty
  | _, _ => pure ()

/-- Start a flush if none is in the background and there are enough mutations. -/
def maybeFlush (ctx : FlushContext) : M Unit := do
  let p ← get
  if p.flushing.isSome || p.mutable.size < p.minFlushKeys then pure ()
  else startFlush ctx

/-- Flush until nothing is left to flush. -/
def flushAll (ctx : FlushContext) : ℕ → M Unit
  | 0 => StateProg.ofProg .stuck
  | fuel + 1 => do
    flushWait
    let p ← get
    if p.mutable.isEmpty then pure ()
    else do
      startFlush ctx
      flushAll ctx fuel

/-! ## The tasks -/

/-- The future of a flush: nothing when it is cancelled, else the plan of its request, raced
against a cancellation. -/
def flushTask (fuel : ℕ) (request : FlushRequest) (retryOptions : RetryOptions) :
    AsyncResult Unit :=
  Async.isCancelled.bind fun cancelled =>
  if cancelled then .ret (.ok ())
  else
    Prog.interruptible Async.isNotified (.ok ())
      ((executePlan Dispatch.flush fuel retryOptions request).andThen fun _ => .ret (.ok ()))

/-- The stores of the regions of `[key, end)`, in order. -/
def storesOfRange (endKey : Key) : ℕ → Key → AsyncResult (List Region)
  | 0, _ => .stuck
  | fuel + 1, key =>
    if !endKey.isEmpty && key ≥ endKey then .ret (.ok [])
    else
      (Async.regionForKey key).andThen fun region =>
      (Async.mapRegionToStore region).andThen fun _ =>
      if region.endKey.isEmpty || (!endKey.isEmpty && region.endKey ≥ endKey) then
        .ret (.ok [region])
      else
        (storesOfRange endKey fuel region.endKey).andThen fun regions =>
        .ret (.ok (region :: regions))

/-- One `ResolveLock` request to one region, which is not retried. -/
def resolveFlushedRegion (startTs commitTs : ℕ) (region : Region) :
    AsyncResult (List (Except Error Unit)) :=
  (Async.rpc region (.resolveLock (newResolveLockRequest startTs commitTs))).andThen
    fun (resp : ResolveLockResponse) =>
  match resp.error, resp.regionError with
  | some e, _ => .ret (.error (.extractedErrors [.keyError e]))
  | none, some e => .ret (.error (.extractedErrors [.regionError e]))
  | none, none => .ret (.ok [.ok ()])

/-- `resolve_flushed_locks`: resolve the locks of the flushed range, region by region.  A region
that fails does not stop the others; its error is the result. -/
def resolveFlushedLocks (fuel startTs commitTs : ℕ) (range : Key × Key) : AsyncResult Unit :=
  (storesOfRange range.2 fuel range.1).andThen fun regions =>
  (Prog.join (fun e => some [.error e]) fuel
    (regions.map (resolveFlushedRegion startTs commitTs)) []).andThen fun results =>
  match results.find? fun r => !r.isOk with
  | some failed => .ret failed
  | none => .ret (.ok ())

end PipelinedTxnState

end TikvClient
