import TikvClient.Request.Shard

/-!
# Execution plans

How a request is executed: sharded over regions and retried (`RetryableMultiRegion`), with the
locks it meets resolved (`ResolveLock`), its responses merged and its errors extracted.

**Recursion.**  A shard that fails with a region error, a missing leader or a gRPC error is
sharded *again*, as the request it was when it failed, by `single_plan_handler`; so that the
handlers terminate here, `singlePlanHandler` carries fuel, and a run that would need more of it
does not return.

**Reads.**  Replica selection is at its default here, the leader — the only peer write requests use;
`Request.Routed` has the handlers for any selection.
-/

namespace TikvClient

open Proto

variable {R Shard Resp : Type}

/-! ## Region errors -/

/-- Whether the epochs TiKV reports make an immediate retry worthwhile: not if some region is
behind the one the client knows. -/
def onRegionEpochNotMatch (region : Region) : List (ℕ × Option (ℕ × ℕ)) → Bool
  | [] => true
  | (id, epoch) :: rest =>
    if id = region.verId.id then
      match epoch with
      | none => true
      | some (confVer, ver) =>
        if confVer < region.verId.confVer || ver < region.verId.ver then false
        else onRegionEpochNotMatch region rest
    else onRegionEpochNotMatch region rest

/-- `handle_region_error`: `true` means retry at once, `false` back off first. -/
def handleRegionError (e : RegionError) (region : Region) : AsyncResult Bool :=
  match e with
  | .notLeader (some leader) =>
    (Async.updateLeader region.verId leader).andThen fun _ => .ret (.ok true)
  | .notLeader none => .ret (.ok false)
  | .storeNotMatch => .ret (.ok true)
  | .epochNotMatch [] => .ret (.ok false)
  | .epochNotMatch currentRegions => .ret (.ok (onRegionEpochNotMatch region currentRegions))
  | .regionNotFound => .ret (.ok true)
  | .keyNotInRegion => .ret (.ok true)
  | .staleCommand => .ret (.ok false)
  | .serverIsBusy => .ret (.ok false)
  | .maxTimestampNotSynced => .ret (.ok false)
  | .readIndexNotReady => .ret (.ok false)
  | .proposalInMergingMode => .ret (.ok false)
  | .raftEntryTooLarge => .ret (.error (.regionError .raftEntryTooLarge))
  | .dataIsNotReady => .ret (.ok false)
  | .unknown => .ret (.ok false)
  | .withMessage _ => .ret (.ok false)

/-! ## Requests over many regions -/

/-- **A plan that can be sharded**: how its request is cut and addressed, how one shard is
executed, and how errors are read off its response. -/
structure ShardedPlan (R Shard Resp : Type) where
  shards : R → AsyncResult (List (Shard × Region))
  applyShard : R → Shard → R
  /-- `apply_store`, of which only the attempt number reaches the request. -/
  applyStore : ℕ → R → R
  execute : Region → R → AsyncResult Resp
  keyErrors : Resp → Option (List Error)
  regionError : Resp → Option RegionError

/-- The results of the shards.  Each response is kept with the request it answers. -/
abbrev ShardResults (R Resp : Type) := List (Except Error (R × Resp))

namespace ShardedPlan

/-- How a shard that cannot be served is tried again. -/
abbrev Retry (R Resp : Type) := R → Backoff → ℕ → AsyncResult (ShardResults R Resp)

def handleOtherError (retry : Retry R Resp) (request : R) (backoff : Backoff) (attempt : ℕ)
    (e : Error) : AsyncResult (ShardResults R Resp) :=
  match backoff.nextDelay with
  | some backoff => retry request backoff (attempt + 1)
  | none => .ret (.error e)

/-- What the handler of a shard does with the response: key errors and successes end it, a
region error is handled and leads to a retry. -/
def handleResponse (plan : ShardedPlan R Shard Resp) (retry : Retry R Resp) (request : R)
    (region : Region) (backoff : Backoff) (attempt : ℕ) (resp : Resp) :
    AsyncResult (ShardResults R Resp) :=
  match plan.keyErrors resp, plan.regionError resp with
  | some es, _ => .ret (.ok [.error (.multipleKeyErrors es)])
  | none, none => .ret (.ok [.ok (request, resp)])
  | none, some e =>
    (handleRegionError e region).andThen fun resolved =>
    if resolved then retry request backoff (attempt + 1)
    else
      match backoff.nextDelay with
      | some backoff => retry request backoff (attempt + 1)
      | none => .ret (.error (.regionError e))

def singleShardHandler (plan : ShardedPlan R Shard Resp) (retry : Retry R Resp) (request : R)
    (region : Region) (backoff : Backoff) (attempt : ℕ) : AsyncResult (ShardResults R Resp) :=
  match region.leader with
  | none =>
    handleOtherError retry request backoff (attempt + 1) (.leaderNotFound region.verId)
  | some _ =>
    (Async.mapRegionToStore region).bind fun
      | .error (.leaderNotFound verId) =>
        handleOtherError retry request backoff (attempt + 1) (.leaderNotFound verId)
      | .error e => .ret (.error e)
      | .ok _ =>
        let request := plan.applyStore attempt request
        (plan.execute region request).bind fun
          | .error e =>
            if e.isGrpcError then
              handleOtherError retry request backoff (attempt + 1) e
            else .ret (.error e)
          | .ok resp => plan.handleResponse retry request region backoff attempt resp

/-- What a failed shard contributes when results are preserved; otherwise it ends the plan. -/
def onShardError (preserve : Bool) (e : Error) : Option (ShardResults R Resp) :=
  if preserve then some [.error e] else none

/-- **Shard the request, execute the shards concurrently, and shard again where needed.** -/
def singlePlanHandler (plan : ShardedPlan R Shard Resp) (preserve : Bool) :
    ℕ → Retry R Resp
  | 0, _, _, _ => .stuck
  | fuel + 1, request, backoff, attempt =>
    (plan.shards request).andThen fun shards =>
    Prog.join (onShardError preserve) fuel
      (shards.map fun s =>
        plan.singleShardHandler (plan.singlePlanHandler preserve fuel)
          (plan.applyShard request s.1) s.2 backoff attempt)
      []

/-- `RetryableMultiRegion::execute`. -/
def retryMultiRegion (plan : ShardedPlan R Shard Resp) (preserve : Bool) (fuel : ℕ)
    (request : R) (backoff : Backoff) : AsyncResult (ShardResults R Resp) :=
  plan.singlePlanHandler preserve fuel request backoff 0

end ShardedPlan

/-! ## Merging and error extraction -/

/-- `CollectError`: all the responses, or the first error. -/
def collectError : ShardResults R Resp → Except Error (List (R × Resp))
  | [] => .ok []
  | .error e :: _ => .error e
  | .ok x :: rest =>
    match collectError rest with
    | .ok xs => .ok (x :: xs)
    | .error e => .error e

/-- `CollectSingle`: the only response. -/
def collectSingle (results : ShardResults R Resp) : Except Error (R × Resp) :=
  match results with
  | [result] => result
  | _ => .error (.internalError s!"CollectSingle expected 1 response, got {results.length}")

/-- `ExtractError` over unmerged results: the first error entry becomes the error of the plan,
as the text it displays. -/
def extractError (results : ShardResults R Resp) : Except Error (List (R × Resp)) :=
  match collectError results with
  | .ok xs => .ok xs
  | .error e => .error (.extractedErrors [.displayed e])

/-! ## Resolving the locks a request meets -/

/-- `ResolveLock::execute` after a first result: while the result reports locks, resolve them
and execute again, backing off while some of them are alive. -/
def resolveLockLoop (execute : AsyncResult Resp) (takeLocks : Resp → List LockInfo)
    (resolveLocks : List LockInfo → AsyncResult (List LockInfo)) (noBackoff : Bool) :
    ℕ → Backoff → Resp → AsyncResult Resp
  | 0, _, _ => .stuck
  | fuel + 1, backoff, result =>
    match takeLocks result with
    | [] => .ret (.ok result)
    | lock :: locks =>
      if noBackoff then .ret (.error (.resolveLockError (lock :: locks)))
      else
        (resolveLocks (lock :: locks)).andThen fun live =>
        match live with
        | [] =>
          execute.andThen fun result =>
          resolveLockLoop execute takeLocks resolveLocks noBackoff fuel backoff result
        | l :: ls =>
          match backoff.nextDelay with
          | none => .ret (.error (.resolveLockError (l :: ls)))
          | some backoff =>
            execute.andThen fun result =>
            resolveLockLoop execute takeLocks resolveLocks noBackoff fuel backoff result

/-- `ResolveLock::execute`. -/
def resolveLock (execute : AsyncResult Resp) (takeLocks : Resp → List LockInfo)
    (resolveLocks : List LockInfo → AsyncResult (List LockInfo)) (fuel : ℕ) (backoff : Backoff) :
    AsyncResult Resp :=
  execute.andThen fun result =>
  resolveLockLoop execute takeLocks resolveLocks backoff.isNone fuel backoff result

end TikvClient
