import TikvClient.Request.Plan

/-!
# Plans that choose the peer they read from

A read may be served by a replica.  A `RoutingPolicy` says which peers a request may be sent to;
retries then have more ways to go on: a replica that is not ready for a stale read is waited for,
one that answers with a stale command or is busy is exchanged for another one, and a peer that was
left in a hurry is waited for when it is chosen again.

**What is left to the outside.**  Which of the candidates is chosen — by seed, health of the stores,
pinned stores and forced leaders — and whether a backoff is pending for it, are choices of the
scheduler.

**Leader only.**  `routedShardHandler_leaderOnly`: with the leader as the only candidate, these are
the handlers of `Request.Plan`.
-/

namespace Prog

variable {S : Signature} {α : Type}

/-- One of the values, chosen outside. -/
def choose (a : α) : List α → Prog S α
  | [] => ret a
  | b :: bs => pick ((b :: bs).length + 1) fun i => ret ((a :: b :: bs).get i)

end Prog

namespace TikvClient

/-! ## Candidates -/

inductive ReplicaReadType where
  | leader
  | follower
  | mixed
  | learner
  | preferLeader
deriving DecidableEq

/-- Whether this mode may read from a replica other than the leader. -/
def ReplicaReadType.isFollowerRead : ReplicaReadType → Bool
  | .leader => false
  | _ => true

/-- The peer a request is sent to, and how it is read from. -/
structure ReadPeer where
  storeId : ℕ
  replicaRead : Bool
  staleRead : Bool
deriving DecidableEq

/-- What the handlers know of the routing of reads. -/
structure RoutingPolicy where
  isReplicaReadMode : Bool
  /-- The number of peers that are not witnesses. -/
  nonWitnessPeers : Region → ℕ
  /-- The peers that may be selected for an attempt; without one, the leader is not known. -/
  candidates : Region → ℕ → List ReadPeer
  /-- Whether a backoff can be pending for a store. -/
  mayPend : Bool

namespace RoutingPolicy

/-- The leader is the only candidate. -/
def leaderOnly : RoutingPolicy where
  isReplicaReadMode := false
  nonWitnessPeers _ := 1
  candidates region _ := (region.leader.map fun storeId => ⟨storeId, false, false⟩).toList
  mayPend := false

/-- `take_pending_backoff_for_retry`. -/
def takePendingBackoff (policy : RoutingPolicy) : Async Bool :=
  if policy.mayPend then Prog.choose false [true] else .ret false

end RoutingPolicy

/-! ## The handlers -/

variable {R Shard Resp : Type}

/-- How often a stale read waits for a replica (`MAX_RETRIES`). -/
def maxStaleReadRetries : ℕ := 120

/-- The region with the selected peer in the place of the leader. -/
def Region.withLeader (region : Region) (storeId : ℕ) : Region :=
  { region with leader := some storeId }

namespace ShardedPlan

/-- What the handler of a shard does with a response of the peer. -/
def handleRoutedResponse (plan : ShardedPlan R Shard Resp) (policy : RoutingPolicy)
    (retry : Retry R Resp) (request : R) (region : Region) (staleRead : Bool) (backoff : Backoff)
    (attempt : ℕ) (resp : Resp) : AsyncResult (ShardResults R Resp) :=
  match plan.keyErrors resp, plan.regionError resp with
  | some es, _ => .ret (.ok [.error (.multipleKeyErrors es)])
  | none, none => .ret (.ok [.ok (request, resp)])
  | none, some e =>
    if e = .dataIsNotReady && staleRead then
      if attempt ≥ maxStaleReadRetries then .ret (.error (.regionError e))
      else retry request backoff (attempt + 1)
    else if policy.isReplicaReadMode && e = .staleCommand then
      if attempt + 1 ≥ policy.nonWitnessPeers region then .ret (.error (.regionError e))
      else retry request backoff (attempt + 1)
    else
      (handleRegionError e region).andThen fun resolved =>
      if resolved then retry request backoff (attempt + 1)
      else if policy.isReplicaReadMode && e = .serverIsBusy &&
          (policy.nonWitnessPeers region > 1 && attempt + 1 < policy.nonWitnessPeers region) then
        retry request backoff (attempt + 1)
      else
        match backoff.nextDelay with
        | some backoff => retry request backoff (attempt + 1)
        | none => .ret (.error (.regionError e))

/-- The backoff after a pending one was applied, if there was one. -/
def applyPending (pending : Bool) (backoff : Backoff) : Option Backoff :=
  if pending then backoff.nextDelay else some backoff

/-- The error when no attempt is left for a pending backoff. -/
def pendingExhausted : Error :=
  .regionError (.withMessage "backoff attempts exhausted while applying pending backoff")

/-- `single_shard_handler`. -/
def routedShardHandler (plan : ShardedPlan R Shard Resp) (policy : RoutingPolicy)
    (retry : Retry R Resp) (request : R) (region : Region) (backoff : Backoff) (attempt : ℕ) :
    AsyncResult (ShardResults R Resp) :=
  match policy.candidates region attempt with
  | [] => handleOtherError retry request backoff (attempt + 1) (.leaderNotFound region.verId)
  | candidate :: candidates =>
    (Prog.choose candidate candidates).bind fun peer =>
    (Async.mapRegionToStore (region.withLeader peer.storeId)).bind fun
      | .error (.leaderNotFound verId) =>
        handleOtherError retry request backoff (attempt + 1) (.leaderNotFound verId)
      | .error e => .ret (.error e)
      | .ok _ =>
        let request := plan.applyStore attempt request
        policy.takePendingBackoff.bind fun pending =>
        match applyPending pending backoff with
        | none => .ret (.error pendingExhausted)
        | some backoff =>
          (plan.execute (region.withLeader peer.storeId) request).bind fun
            | .error e =>
              if e.isGrpcError then
                handleOtherError retry request backoff (attempt + 1) e
              else .ret (.error e)
            | .ok resp =>
              plan.handleRoutedResponse policy retry request
                (region.withLeader peer.storeId) peer.staleRead backoff attempt resp

/-- `single_plan_handler`. -/
def routedPlanHandler (plan : ShardedPlan R Shard Resp) (policy : RoutingPolicy)
    (preserve : Bool) : ℕ → Retry R Resp
  | 0, _, _, _ => .stuck
  | fuel + 1, request, backoff, attempt =>
    (plan.shards request).andThen fun shards =>
    Prog.join (onShardError preserve) fuel
      (shards.map fun s =>
        plan.routedShardHandler policy (plan.routedPlanHandler policy preserve fuel)
          (plan.applyShard request s.1) s.2 backoff attempt)
      []

/-- `RetryableMultiRegion::execute`, with the routing of its reads. -/
def retryMultiRegionRouted (plan : ShardedPlan R Shard Resp) (policy : RoutingPolicy)
    (preserve : Bool) (fuel : ℕ) (request : R) (backoff : Backoff) :
    AsyncResult (ShardResults R Resp) :=
  plan.routedPlanHandler policy preserve fuel request backoff 0

/-! ## Leader only -/

section LeaderOnly

variable (plan : ShardedPlan R Shard Resp) (retry : Retry R Resp)

lemma handleRoutedResponse_leaderOnly (request : R) (region : Region) (backoff : Backoff)
    (attempt : ℕ) (resp : Resp) :
    plan.handleRoutedResponse .leaderOnly retry request region false backoff attempt resp =
      plan.handleResponse retry request region backoff attempt resp := by
  unfold handleRoutedResponse handleResponse
  rcases plan.keyErrors resp with - | es
  · rcases plan.regionError resp with - | e
    · rfl
    · cases e <;> rfl
  · rfl

/-- **With the leader as the only candidate, the handler is the one of `Request.Plan`.** -/
lemma routedShardHandler_leaderOnly (request : R) (region : Region) (backoff : Backoff)
    (attempt : ℕ) :
    plan.routedShardHandler .leaderOnly retry request region backoff attempt =
      plan.singleShardHandler retry request region backoff attempt := by
  obtain ⟨verId, startKey, endKey, leader⟩ := region
  cases leader with
  | none => rfl
  | some storeId =>
    unfold singleShardHandler routedShardHandler
    refine congrArg (Async.mapRegionToStore ⟨verId, startKey, endKey, some storeId⟩).bind
      (funext fun mapped => ?_)
    cases mapped with
    | error e => cases e <;> rfl
    | ok _ =>
      refine congrArg (plan.execute _ _).bind (funext fun res => ?_)
      cases res with
      | error e => rfl
      | ok resp => exact plan.handleRoutedResponse_leaderOnly retry _ _ _ _ _

lemma routedPlanHandler_leaderOnly (preserve : Bool) (fuel : ℕ) :
    plan.routedPlanHandler .leaderOnly preserve fuel = plan.singlePlanHandler preserve fuel := by
  induction fuel with
  | zero => rfl
  | succ fuel ih =>
    funext request backoff attempt
    unfold routedPlanHandler singlePlanHandler
    simp only [ih, routedShardHandler_leaderOnly]

end LeaderOnly

end ShardedPlan

end TikvClient
