import TikvClient.Transaction.Lock
import Mathlib.Data.Nat.Sqrt

/-!
# The committer: prewrite, commit and rollback

`Committer` drives the two phases of a commit and its two short cuts.  With async commit the
transaction is committed once all its locks are written, and no commit request is awaited;
with 1PC the only prewrite request commits at once.  Both are requests to TiKV, which may fall
back; the committer reads off the responses which of them happened.

Each phase is cut into the request it builds, the plan that sends it, and a pure function of
the responses (`prewriteFinish`, `commitAfterPrewrite`), so that what is decided can be
studied apart from how the requests travel.
-/

namespace TikvClient

open Proto

def maxTtl : ℕ := 20000
def defaultLockTtl : ℕ := 3000

/-- `fetch_commit_timestamp`: a fresh timestamp, polled until it reaches the commit-wait
timestamp if one is set. -/
def fetchCommitTimestamp (options : TransactionOptions) : ℕ → AsyncResult ℕ
  | 0 => .stuck
  | fuel + 1 =>
    Async.getTimestamp.andThen fun ts =>
    match options.commitWaitUntilTso with
    | none => .ret (.ok ts)
    | some waitUntilTso =>
      if ts ≥ waitUntilTso then .ret (.ok ts)
      else
        Async.commitWaitTimedOut.bind fun timedOut =>
        if timedOut then .ret (.error (.commitTsLag ts waitUntilTso))
        else fetchCommitTimestamp options fuel

namespace Committer

/-! ## Timestamps and TTLs -/

def addPhysicalMs (version deltaMs : ℕ) : ℕ :=
  saturatingAdd version (saturatingMul deltaMs (2 ^ 18))

def minCommitTs (c : Committer) : ℕ :=
  match c.options.kind with
  | .optimistic => saturatingAdd c.startVersion 1
  | .pessimistic forUpdateTs =>
    max (saturatingAdd c.startVersion 1) (saturatingAdd forUpdateTs 1)

def maxCommitTs (c : Committer) (elapsedMs : ℕ) : ℕ :=
  addPhysicalMs (addPhysicalMs c.startVersion elapsedMs) c.options.maxCommitTsSafeWindow

/-- The TTL of the locks, which grows with the square root of the size written.  The source
computes `6000 * sqrt(size_in_mb)` in floating point and truncates. -/
def calcTxnLockTtl (c : Committer) : ℕ :=
  if c.writeSize > txnCommitBatchSize then
    max defaultLockTtl (min (Nat.sqrt (6000 ^ 2 * c.writeSize / 2 ^ 20)) maxTtl)
  else defaultLockTtl

/-! ## Prewrite -/

/-- The keys an async-commit primary lock lists. -/
def secondaries (c : Committer) (primaryKey : Key) : List Key :=
  c.commitKeys.filter fun k => primaryKey ≠ k

/-- The prewrite request for all the mutations. -/
def prewriteRequest (c : Committer) (primaryKey : Key) (elapsedMs : ℕ) : PrewriteRequest :=
  let lockTtl := saturatingAdd c.calcTxnLockTtl elapsedMs
  let request :=
    match c.options.kind with
    | .optimistic =>
      newPrewriteRequest c.prewriteMutations primaryKey c.startVersion lockTtl
    | .pessimistic forUpdateTs =>
      newPessimisticPrewriteRequest c.prewriteMutations primaryKey c.startVersion lockTtl
        forUpdateTs
  let maxCommitTs :=
    if c.options.asyncCommit || c.options.tryOnePc then c.maxCommitTs elapsedMs
    else request.maxCommitTs
  -- Make sure that `max_commit_ts.physical < start_ts.physical + ttl`.
  let lockTtl :=
    if c.options.asyncCommit && c.options.isPessimistic then
      max lockTtl (saturatingAdd (physical maxCommitTs - physical c.startVersion) 1)
    else lockTtl
  { request with
    lockTtl := lockTtl
    useAsyncCommit := c.options.asyncCommit
    tryOnePc := c.options.tryOnePc
    minCommitTs := c.minCommitTs
    secondaries := c.secondaries primaryKey
    maxCommitTs := maxCommitTs
    assertionLevel := c.options.assertionLevel }

/-- How `prewrite` reports the errors of its plan: a single one is unwrapped. -/
def unwrapPrewriteError : Error → Error
  | .multipleKeyErrors [e] => e
  | .extractedErrors [e] => e
  | .extractedErrors es => .multipleKeyErrors es
  | e => e

/-- The largest `min_commit_ts` of the responses. -/
def maxMinCommitTs (responses : List PrewriteResponse) : ℕ :=
  (responses.map (·.minCommitTs)).foldl max 0

/-- The end of `prewrite` when nothing was committed by 1PC: 1PC is switched off, and the
largest `min_commit_ts` is returned. -/
def aggregateResponses (c : Committer) (responses : List PrewriteResponse) :
    Except Error (Option ℕ × Committer) :=
  if responses.all fun r => r.onePcCommitTs = 0 then
    .ok (tryFromVersion (maxMinCommitTs responses),
      { c with options := { c.options with tryOnePc := false } })
  else .error (.panicked "assertion failed: r.one_pc_commit_ts == 0")

/-- **What `prewrite` makes of the responses**: the timestamp it returns and the options it
leaves.  The only response to a 1PC request may have committed, or have fallen back to 2PC. -/
def prewriteFinish (c : Committer) (responses : List PrewriteResponse) :
    Except Error (Option ℕ × Committer) :=
  match c.options.tryOnePc, responses with
  | true, [response] =>
    if response.onePcCommitTs ≠ 0 then .ok (tryFromVersion response.onePcCommitTs, c)
    else if response.minCommitTs ≠ 0 then
      .error (.stringError
        "invalid PrewriteResponse: min_commit_ts must be 0 when 1PC falls back to 2PC")
    else
      aggregateResponses { c with options := { c.options with asyncCommit := false } } [response]
  | _, responses => aggregateResponses c responses

/-- The plan that prewrites all the mutations: it fails with the first error of a shard. -/
def prewriteAll (fuel : ℕ) (c : Committer) (request : PrewriteRequest) :
    AsyncResult (List (PrewriteRequest × PrewriteResponse)) :=
  (executeShards Dispatch.prewrite fuel c.options.retryOptions request).andThen fun results =>
  .ret (collectError results)

def prewrite (fuel : ℕ) (c : Committer) : AsyncResult (Option ℕ × Committer) :=
  match c.primaryKey with
  | none => .ret (.error (.panicked "called Option::unwrap() on a None value"))
  | some primaryKey =>
    Async.elapsed.bind fun elapsedMs =>
    (c.prewriteAll fuel (c.prewriteRequest primaryKey elapsedMs)).bind fun
      | .error e => .ret (.error (unwrapPrewriteError e))
      | .ok leaves => .ret (c.prewriteFinish (leaves.map Prod.snd))

/-! ## Commit -/

/-- `commit_primary`: the commit timestamp, or the error and whether the outcome is marked as
undetermined — which only `Error::Grpc` does. -/
def commitPrimary (fuel : ℕ) (c : Committer) : Async (Except (Error × Bool) ℕ) :=
  (fetchCommitTimestamp c.options fuel).bind fun
    | .error e => .ret (.error (e, false))
    | .ok commitVersion =>
      (executePlan Dispatch.commit fuel c.options.retryOptions
        (newCommitRequestWithPrimaryKey c.primaryKey.toList c.primaryKey c.startVersion
          commitVersion)).bind fun
        | .ok _ => .ret (.ok commitVersion)
        | .error e => .ret (.error (e, e.isGrpc))

def commitPrimaryChecked (fuel : ℕ) (c : Committer) : AsyncResult ℕ :=
  (c.commitPrimary fuel).bind fun
    | .ok commitTs => .ret (.ok commitTs)
    | .error (e, undetermined) =>
      if undetermined then .ret (.error (.undeterminedError e)) else .ret (.error e)

/-- `commit_secondary`: the request it sends, if any. -/
def commitSecondaryRequest (c : Committer) (commitVersion : ℕ) : Option CommitRequest :=
  if c.options.asyncCommit then
    some (newCommitRequest c.commitKeys c.startVersion commitVersion)
  else if c.commitKeys.length = 1 then none
  else
    some (newCommitRequest (c.commitKeys.filter fun k => c.primaryKey ≠ some k) c.startVersion
      commitVersion)

def commitSecondary (fuel : ℕ) (c : Committer) (commitVersion : ℕ) : AsyncResult Unit :=
  match c.commitSecondaryRequest commitVersion with
  | none => .ret (.ok ())
  | some request =>
    (executePlan Dispatch.commit fuel c.options.retryOptions request).andThen fun _ =>
    .ret (.ok ())

/-- The end of a successful commit: the secondaries are committed in the background. -/
def finishCommit (c : Committer) (commitTs : ℕ) : AsyncResult (Option ℕ) :=
  (Async.spawn (.commitSecondary c commitTs)).bind fun _ => .ret (.ok (some commitTs))

/-- **What `commit` does after the prewrite**, from the timestamp and options it left. -/
def commitAfterPrewrite (fuel : ℕ) (minCommitTs : Option ℕ) (c : Committer) :
    AsyncResult (Option ℕ) :=
  if c.options.tryOnePc then .ret (.ok minCommitTs)
  else if c.options.asyncCommit then
    match minCommitTs with
    | some minCommitTs => c.finishCommit minCommitTs
    | none =>
      let c := { c with options := { c.options with asyncCommit := false } }
      (c.commitPrimaryChecked fuel).andThen fun commitTs => c.finishCommit commitTs
  else (c.commitPrimaryChecked fuel).andThen fun commitTs => c.finishCommit commitTs

/-- **`Committer::commit`.** -/
def commit (fuel : ℕ) (c : Committer) : AsyncResult (Option ℕ) :=
  (c.prewrite fuel).andThen fun r => r.2.commitAfterPrewrite fuel r.1

/-! ## Rollback -/

/-- `Committer::rollback`: the request is chosen by the kind of the transaction. -/
def rollback (fuel : ℕ) (c : Committer) : AsyncResult Unit :=
  if c.commitKeys.isEmpty then .ret (.ok ())
  else
    match c.options.kind with
    | .optimistic =>
      (executePlan Dispatch.batchRollback fuel c.options.retryOptions
        (newBatchRollbackRequest c.commitKeys c.startVersion)).andThen fun _ => .ret (.ok ())
    | .pessimistic forUpdateTs =>
      (executePlan Dispatch.pessimisticRollback fuel c.options.retryOptions
        (newPessimisticRollbackRequest c.commitKeys c.startVersion forUpdateTs)).andThen
        fun _ => .ret (.ok ())

end Committer

end TikvClient
