import TikvClient.Pd.Partition
import TikvClient.Request.ReadRouting
import TikvClient.Transaction.Requests

/-!
# Stale reads that meet locks

A stale read that meets locks resolves them and is then to be repeated at the leader, as a read
that is not stale.  `ResolveLock::execute` forces the leader and answers with a region error of its
own, an `epoch_not_match` without regions, so that the handler of the shard selects a peer again.

**The way back is not free.**  For the handler this is a region error like any other: it takes an
attempt of the backoff and sleeps, and without one left the error is returned to the caller
(`serve_rerouted`).  So the fallback is free only where there is none: for reads that meet no locks
(`fallsBackFreely_iff`).
-/

namespace TikvClient

open Proto

namespace PeerSelection

variable {R Shard Resp : Type}

/-- What is seen of a request from outside. -/
inductive Act where
  | dispatch (peer : ReadPeer)
  | resolveLocks (locks : List LockInfo)
  | sleep
deriving DecidableEq

/-- The response that makes the handler select a peer again (`reroute_to_leader`). -/
structure Reroute (d : Dispatch R Shard Resp) where
  response : Resp
  errors : d.errors response = []
  regionError : d.regionError response = some (.epochNotMatch [])

/-- What is answered on each attempt, and there to each execution of the plan. -/
structure Outside (Resp : Type) where
  region : ℕ → RegionWithLeader
  isSlowNow : ℕ → ℕ → Bool
  client : ℕ → (c : Call) → c.Ans
  respond : ℕ → ℕ → ReadPeer → Except Error Resp
  resolveLocks : ℕ → ℕ → List LockInfo → Except Error (List LockInfo)

/-- A request that has ended: what it did, its results, and what is left of the backoff. -/
structure Served (Resp : Type) where
  acts : List Act
  results : Except Error (List (Except Error Resp))
  backoff : Backoff

def Served.after (acts : List Act) (s : Served Resp) : Served Resp :=
  { s with acts := acts ++ s.acts }

/-- The region as the handlers of region errors know it, with the selected peer as its leader. -/
def RegionWithLeader.toRegion (region : RegionWithLeader) (peer : ReadPeer) : Region :=
  ⟨region.verId, .empty, .empty, some peer.targetPeer.storeId⟩

def RegionWithLeader.nonWitnessPeers (region : RegionWithLeader) : ℕ :=
  (region.peers.filter fun peer => !peer.isWitness).length

/-! ## The handlers -/

variable (d : Dispatch R Shard Resp) (w : Reroute d) (o : Outside Resp) (lockBackoff : Backoff)

/-- The loop of `ResolveLock::execute`, after the response to execution `n`. -/
def resolveLockLoop (attempt : ℕ) (peer : ReadPeer) :
    ℕ → ℕ → Backoff → ReadRouting → Resp → Option (List Act × Except Error Resp × ReadRouting)
  | 0, _, _, _, _ => none
  | fuel + 1, n, backoff, rt, result =>
    let locks := d.locks result
    if locks = [] then some ([], .ok result, rt)
    else if lockBackoff.isNone then some ([], .error (.resolveLockError locks), rt)
    else
      let staleReadMeetLock := rt.isStaleRead
      let rt := if staleReadMeetLock then rt.force else rt
      let again (backoff : Backoff) (acts : List Act) :=
        match o.respond attempt (n + 1) peer with
        | .error e => some (acts ++ [.dispatch peer], .error e, rt)
        | .ok result =>
          (resolveLockLoop attempt peer fuel (n + 1) backoff rt result).map fun s =>
            (acts ++ .dispatch peer :: s.1, s.2)
      match o.resolveLocks attempt n locks with
      | .error e => some ([.resolveLocks locks], .error e, rt)
      | .ok [] =>
        if staleReadMeetLock then some ([.resolveLocks locks], .ok w.response, rt)
        else again backoff [.resolveLocks locks]
      | .ok (live :: lives) =>
        match backoff.nextDelay with
        | none => some ([.resolveLocks locks], .error (.resolveLockError (live :: lives)), rt)
        | some backoff =>
          if staleReadMeetLock then some ([.resolveLocks locks, .sleep], .ok w.response, rt)
          else again backoff [.resolveLocks locks, .sleep]

/-- `ResolveLock::execute`, for the peer that was selected. -/
def resolveLock (fuel attempt : ℕ) (peer : ReadPeer) (rt : ReadRouting) :
    Option (List Act × Except Error Resp × ReadRouting) :=
  match o.respond attempt 0 peer with
  | .error e => some ([.dispatch peer], .error e, rt)
  | .ok result =>
    (resolveLockLoop d w o lockBackoff attempt peer fuel 0 lockBackoff rt result).map fun s =>
      (.dispatch peer :: s.1, s.2)

/-- What follows the region error of a shard; `retry` goes on with the next attempt. -/
def onRegionError (retry : ReadRouting → Backoff → Option (Served Resp)) (rt : ReadRouting)
    (region : RegionWithLeader) (peer : ReadPeer) (backoff : Backoff) (attempt : ℕ)
    (e : RegionError) : Option (Served Resp) :=
  let rt' := rt.run ((Answer.regionError e).ops rt.isReplicaReadMode region.id peer)
  if e = .dataIsNotReady && peer.staleRead then
    if attempt ≥ maxStaleReadRetries then some ⟨[], .error (.regionError e), backoff⟩
    else (retry rt' backoff).map (.after [.sleep])
  else if rt.isReplicaReadMode && e = .staleCommand then
    if attempt + 1 ≥ region.nonWitnessPeers then some ⟨[], .error (.regionError e), backoff⟩
    else retry rt' backoff
  else
    match (handleRegionError e (region.toRegion peer)).eval (S := sig) (o.client attempt) with
    | none => none
    | some (.error e) => some ⟨[], .error e, backoff⟩
    | some (.ok true) => retry rt' backoff
    | some (.ok false) =>
      if rt.isReplicaReadMode && e = .serverIsBusy &&
          (region.nonWitnessPeers > 1 && attempt + 1 < region.nonWitnessPeers) then
        retry (rt'.addPendingBackoff peer.targetPeer.storeId) backoff
      else
        match backoff.nextDelay with
        | some backoff => (retry rt' backoff).map (.after [.sleep])
        | none => some ⟨[], .error (.regionError e), backoff⟩

/-- `handle_other_error`, whose retry is two attempts on. -/
def onOtherError (retry : Backoff → Option (Served Resp)) (backoff : Backoff) (e : Error) :
    Option (Served Resp) :=
  match backoff.nextDelay with
  | some backoff => (retry backoff).map (.after [.sleep])
  | none => some ⟨[], .error e, backoff⟩

/-- The backoff that is pending for a store is applied before it is asked again. -/
def applyPending (rt : ReadRouting) (storeId : ℕ) (backoff : Backoff) :
    Option Backoff × List Act :=
  if rt.pendingBackoffs storeId then (backoff.nextDelay, [.sleep]) else (some backoff, [])

/-- `single_plan_handler` and `single_shard_handler`, for a request of one shard. -/
def serve : ℕ → ReadRouting → Backoff → ℕ → Option (Served Resp)
  | 0, _, _, _ => none
  | fuel + 1, rt, backoff, attempt =>
    let region := o.region attempt
    match rt.selectPeer (o.isSlowNow attempt) region attempt with
    | .error (.leaderNotFound verId) =>
      onOtherError (fun b => serve fuel rt b (attempt + 2)) backoff (.leaderNotFound verId)
    | .error e => some ⟨[], .error e, backoff⟩
    | .ok peer =>
      match o.client attempt (.mapRegionToStore (region.toRegion peer)) with
      | .error (.leaderNotFound verId) =>
        onOtherError (fun b => serve fuel rt b (attempt + 2)) backoff (.leaderNotFound verId)
      | .error e => some ⟨[], .error e, backoff⟩
      | .ok _ =>
        match applyPending rt peer.targetPeer.storeId backoff with
        | (none, _) => some ⟨[], .error ShardedPlan.pendingExhausted, backoff⟩
        | (some backoff, slept) =>
          let rt := rt.clearPendingBackoff peer.targetPeer.storeId
          match resolveLock d w o lockBackoff fuel attempt peer rt with
          | none => none
          | some (acts, result, rt) =>
            Option.map (.after (slept ++ acts)) <|
            match result with
            | .error e =>
              if e.isGrpcError then
                onOtherError (fun b => serve fuel rt b (attempt + 2)) backoff e
              else some ⟨[], .error e, backoff⟩
            | .ok resp =>
              match Error.extractErrors (d.errors resp), d.regionError resp with
              | some es, _ => some ⟨[], .ok [.error (.multipleKeyErrors es)], backoff⟩
              | none, none => some ⟨[], .ok [.ok resp], backoff⟩
              | none, some e =>
                onRegionError o (fun rt b => serve fuel rt b (attempt + 1)) rt region peer backoff
                  attempt e

/-- An `epoch_not_match` without regions is backed off from. -/
lemma onRegionError_reroute (retry : ReadRouting → Backoff → Option (Served Resp))
    (rt : ReadRouting) (region : RegionWithLeader) (peer : ReadPeer) (backoff : Backoff)
    (attempt : ℕ) :
    onRegionError o retry rt region peer backoff attempt (.epochNotMatch []) =
      match backoff.nextDelay with
      | some b => (retry (rt.clearPinnedStoreForRegion region.id) b).map (.after [.sleep])
      | none => some ⟨[], .error (.regionError (.epochNotMatch [])), backoff⟩ := by
  simp [onRegionError, Answer.ops, keepPeer, ReadRouting.run, ReadRouting.apply,
    handleRegionError]

/-! ## The fallback -/

variable (rt : ReadRouting) (backoff left : Backoff) (slept : List Act) (attempt : ℕ)
  (peer : ReadPeer) (resp : Resp)

/-- A stale read that its peer answers, and whose locks are all resolved. -/
structure AnsweredStale : Prop where
  stale : rt.isStaleRead = true
  selected : rt.selectPeer (o.isSlowNow attempt) (o.region attempt) attempt = .ok peer
  mapped : o.client attempt (.mapRegionToStore ((o.region attempt).toRegion peer)) = .ok ()
  ready : applyPending rt peer.targetPeer.storeId backoff = (some left, slept)
  answered : o.respond attempt 0 peer = .ok resp
  clean : d.locks resp = [] → d.errors resp = [] ∧ d.regionError resp = none
  resolving : lockBackoff.isNone = false
  resolved : o.resolveLocks attempt 0 (d.locks resp) = .ok []

/-- Without locks the response is returned.  With locks the request goes on at the leader, as a read
that is not stale, at once and with the backoff it has left. -/
def FallsBackFreely (s : Served Resp) : Prop :=
  if d.locks resp = [] then s = ⟨slept ++ [.dispatch peer], .ok [.ok resp], left⟩
  else ∃ leader rt' fuel rest, (o.region (attempt + 1)).leader = some leader ∧
    serve d w o lockBackoff fuel rt' left (attempt + 1) = some rest ∧
    rest.acts.head? = some (.dispatch (.leader leader)) ∧
    s = rest.after (slept ++ [.dispatch peer, .resolveLocks (d.locks resp)])

variable {d o lockBackoff rt backoff left slept attempt peer resp}
  (h : AnsweredStale d o lockBackoff rt backoff left slept attempt peer resp)
include h

lemma serve_unlocked (hlocks : d.locks resp = []) (fuel : ℕ) :
    serve d w o lockBackoff (fuel + 2) rt backoff attempt =
      some ⟨slept ++ [.dispatch peer], .ok [.ok resp], left⟩ := by
  obtain ⟨herrors, hregion⟩ := h.clean hlocks
  simp [serve, h.selected, h.mapped, h.ready, resolveLock, h.answered, resolveLockLoop, hlocks,
    herrors, hregion, Error.extractErrors, Served.after]

/-- **What a stale read does that meets locks**: it sleeps before it goes on, or fails with the
error that was to send it to the leader. -/
lemma serve_rerouted (hlocks : d.locks resp ≠ []) (fuel : ℕ) :
    ∃ rt', rt'.forceLeader = true ∧
      serve d w o lockBackoff (fuel + 2) rt backoff attempt =
        Option.map (.after (slept ++ [.dispatch peer, .resolveLocks (d.locks resp)]))
          (match left.nextDelay with
          | some b =>
            (serve d w o lockBackoff (fuel + 1) rt' b (attempt + 1)).map (.after [.sleep])
          | none => some ⟨[], .error (.regionError (.epochNotMatch [])), left⟩) := by
  let forced := (rt.clearPendingBackoff peer.targetPeer.storeId).force
  refine ⟨forced.clearPinnedStoreForRegion (o.region attempt).id, rfl, ?_⟩
  have hstale : (rt.clearPendingBackoff peer.targetPeer.storeId).isStaleRead = true := h.stale
  -- The lock layer forces the leader and makes the region error up.
  have hresolve : resolveLock d w o lockBackoff (fuel + 1) attempt peer
      (rt.clearPendingBackoff peer.targetPeer.storeId) =
        some ([.dispatch peer, .resolveLocks (d.locks resp)], .ok w.response, forced) := by
    simp [resolveLock, h.answered, resolveLockLoop, hlocks, h.resolving, h.resolved, hstale, forced]
  rw [serve]
  simp only [h.selected, h.mapped, h.ready, hresolve, w.errors, w.regionError]
  exact congrArg _ (onRegionError_reroute ..)

lemma locks_eq_nil_of_fallsBackFreely {s : Served Resp} {n : ℕ}
    (hserve : ∀ fuel ≥ n, serve d w o lockBackoff fuel rt backoff attempt = some s)
    (hfree : FallsBackFreely d w o lockBackoff left slept attempt peer resp s) :
    d.locks resp = [] := by
  by_contra hlocks
  rw [FallsBackFreely, if_neg hlocks] at hfree
  obtain ⟨leader, rt₁, fuel₁, rest, -, -, hhead, rfl⟩ := hfree
  obtain ⟨rt', -, hrerouted⟩ := serve_rerouted w h hlocks n
  rw [hserve (n + 2) (by omega), eq_comm, Option.map_eq_some_iff] at hrerouted
  obtain ⟨rest', hrest, heq⟩ := hrerouted
  have hacts : rest'.acts = rest.acts := List.append_cancel_left (congrArg Served.acts heq)
  rw [← hacts] at hhead
  -- What follows the resolved locks is a sleep, or nothing.
  split at hrest
  · obtain ⟨rest'', -, rfl⟩ := Option.map_eq_some_iff.mp hrest
    cases hhead
  · cases hrest
    cases hhead

/-- **A stale read falls back freely** exactly if it meets no locks. -/
theorem fallsBackFreely_iff :
    (∃ s, (∃ n, ∀ fuel ≥ n, serve d w o lockBackoff fuel rt backoff attempt = some s) ∧
        FallsBackFreely d w o lockBackoff left slept attempt peer resp s) ↔
      d.locks resp = [] := by
  constructor
  · rintro ⟨s, ⟨n, hserve⟩, hfree⟩
    exact locks_eq_nil_of_fallsBackFreely w h hserve hfree
  · intro hlocks
    refine ⟨_, ⟨2, fun fuel hfuel => ?_⟩, if_pos hlocks |>.mpr rfl⟩
    obtain ⟨fuel, rfl⟩ := Nat.exists_eq_add_of_le' hfuel
    exact serve_unlocked w h hlocks fuel

omit h

def rerouteGet : Reroute Dispatch.get := ⟨⟨some (.epochNotMatch []), none, [], false, 0⟩, rfl, rfl⟩

/-- A replica that answers a stale read with this error; the leader has the value. -/
def staleReplica (error : Option KeyError) : Outside GetResponse where
  region _ := regionLedBy 1
  isSlowNow _ _ := false
  client _ := fixedCluster [] fun _ _ => .error .grpc
  respond attempt _ _ := .ok ⟨none, if attempt = 0 then error else none, [7], false, 0⟩
  resolveLocks _ _ _ := .ok []

/-- A `get` from the replica, without an attempt left. -/
def serveGet (error : Option KeyError) (fuel : ℕ) : Option (Served GetResponse) :=
  serve Dispatch.get rerouteGet (staleReplica error) (.attempts 10) fuel { staleRead := true }
    (.attempts 0) 0

def GetFallsBackFreely (error : Option KeyError) : Prop :=
  ∃ s, (∃ n, ∀ fuel ≥ n, serveGet error fuel = some s) ∧
    FallsBackFreely Dispatch.get rerouteGet (staleReplica error) (.attempts 10) (.attempts 0) [] 0
      ⟨⟨13, 3, 1, false⟩, false, true⟩ ⟨none, error, [7], false, 0⟩ s

theorem unlocked_read_returns : GetFallsBackFreely none :=
  (fallsBackFreely_iff rerouteGet ⟨rfl, rfl, rfl, rfl, rfl, fun _ => ⟨rfl, rfl⟩, rfl, rfl⟩).mpr rfl

/-- The lock of a transaction that is gone. -/
def leftLock : KeyError := ⟨some ⟨⟨[1]⟩, ⟨[1]⟩, 10, 3000, .put, false, 0, []⟩, .other⟩

/-- A stale read that meets a lock fails, although the lock is resolved. -/
theorem locked_read_fails :
    (serveGet (some leftLock) 2).map (·.results) =
        some (.error (.regionError (.epochNotMatch []))) ∧
      ¬ GetFallsBackFreely (some leftLock) := by
  refine ⟨rfl, ?_⟩
  rintro ⟨s, ⟨n, hserve⟩, hfree⟩
  have hlocks := locks_eq_nil_of_fallsBackFreely rerouteGet
    ⟨rfl, rfl, rfl, rfl, rfl, fun hnone => (by cases hnone), rfl, rfl⟩ hserve hfree
  cases hlocks

end PeerSelection

end TikvClient
