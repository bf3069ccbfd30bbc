import TikvClient.Core.Join
import TikvClient.Transaction.Status

/-!
# What the client asks of the outside

The signature of the programs in this development: the operations of `PdClient` and the
store client, the clock, the local latches, the task runtime, and the context that concurrent
resolutions of locks share.  Region and store caches are
part of the outside — a lookup may answer anything the cache or PD could — so invalidating
them is not a call.

`Async α` is an `async fn`, and `AsyncResult α` one that returns a `Result`; the source's `?`
is `Prog.andThen`.
-/

namespace TikvClient

open Proto

/-- **A background task** the client spawns, as the data its future captures. -/
inductive Task where
  | flush (request : FlushRequest) (retryOptions : RetryOptions)
  | heartbeat (startTs : ℕ) (primaryKey : Key) (regionBackoff : Backoff)
  | commitSecondary (committer : Committer) (commitVersion : ℕ)
  | resolveFlushedLocks (startTs commitTs : ℕ) (range : Key × Key)
deriving DecidableEq

/-- **A call** of the client. -/
inductive Call where
  /-- `PdClient::region_for_key`. -/
  | regionForKey (key : Key)
  /-- `PdClient::map_region_to_store`: connect to the store of the region's leader. -/
  | mapRegionToStore (region : Region)
  /-- `PdClient::update_leader`. -/
  | updateLeader (region : RegionVerId) (leader : ℕ)
  /-- `PdClient::get_timestamp`. -/
  | getTimestamp
  /-- One RPC attempt to the store of a region. -/
  | rpc (region : Region) (request : Request)
  /-- `start_instant.elapsed()` of the transaction, in milliseconds. -/
  | elapsed
  /-- Whether the commit-wait timeout has passed. -/
  | commitWaitTimedOut
  /-- Acquire the local latches of the keys; the answer says whether they are stale. -/
  | latch (startTs : ℕ) (keys : List Key)
  /-- Read the status of the transaction, which a heartbeat shares with it. -/
  | loadStatus
  | spawn (task : Task)
  /-- Wait for a task: its result, or the error of joining it. -/
  | await (task : ℕ)
  /-- `PipelinedTxnState::cancel`: set the flag and wake the flushes that wait for it. -/
  | cancel
  /-- Whether the flag is set. -/
  | isCancelled
  /-- Whether this flush has been woken by a cancellation. -/
  | isNotified
  /-- `PdClient::region_for_id`. -/
  | regionForId (id : ℕ)
  /-- One RPC attempt of the raw client. -/
  | rawRpc (region : Region) (request : RawRequest)
  /-- One RPC attempt of a garbage collection. -/
  | gcRpc (region : Region) (request : GcRequest)
  /-- `ResolveLocksContext`: the status that is known of a transaction. -/
  | getResolved (txnId : ℕ)
  | saveResolved (txnId : ℕ) (status : Requests.TransactionStatus)
  /-- `ResolveLocksContext`: whether the locks of a transaction in a region are resolved. -/
  | isRegionCleaned (txnId : ℕ) (region : RegionVerId)
  | saveCleanedRegion (txnId : ℕ) (region : RegionVerId)
  /-- `PdClient::update_safepoint`. -/
  | updateSafepoint (safepoint : ℕ)
deriving DecidableEq

/-- The type of the answer to a call. -/
def Call.Ans : Call → Type
  | .regionForKey _ => Except Error Region
  | .mapRegionToStore _ => Except Error Unit
  | .updateLeader _ _ => Except Error Unit
  | .getTimestamp => Except Error ℕ
  | .rpc _ request => Except Error request.Response
  | .elapsed => ℕ
  | .commitWaitTimedOut => Bool
  | .latch _ _ => Bool
  | .loadStatus => TransactionStatus
  | .spawn _ => ℕ
  | .await _ => Except Error Unit
  | .cancel => Unit
  | .isCancelled => Bool
  | .isNotified => Bool
  | .regionForId _ => Except Error Region
  | .rawRpc _ request => Except Error request.Response
  | .gcRpc _ request => Except Error request.Response
  | .getResolved _ => Option Requests.TransactionStatus
  | .saveResolved _ _ => Unit
  | .isRegionCleaned _ _ => Bool
  | .saveCleanedRegion _ _ => Unit
  | .updateSafepoint _ => Except Error Bool

/-- The signature of the client's programs. -/
abbrev sig : Signature := ⟨Call, Call.Ans⟩

/-- Which answers to calls are possible. -/
abbrev Answers := (c : Call) → c.Ans → Prop

/-- What happens in a run. -/
abbrev Trace := List (Event sig)

/-- An `async fn`. -/
abbrev Async := Prog sig

/-- An `async fn` that returns a `Result`. -/
abbrev AsyncResult (α : Type) := Async (Except Error α)

namespace Async

def regionForKey (key : Key) : AsyncResult Region := Prog.ask (S := sig) (.regionForKey key)
def mapRegionToStore (region : Region) : AsyncResult Unit :=
  Prog.ask (S := sig) (.mapRegionToStore region)
def updateLeader (region : RegionVerId) (leader : ℕ) : AsyncResult Unit :=
  Prog.ask (S := sig) (.updateLeader region leader)
def getTimestamp : AsyncResult ℕ := Prog.ask (S := sig) .getTimestamp
def rpc (region : Region) (request : Request) : AsyncResult request.Response :=
  Prog.ask (S := sig) (.rpc region request)
def elapsed : Async ℕ := Prog.ask (S := sig) .elapsed
def commitWaitTimedOut : Async Bool := Prog.ask (S := sig) .commitWaitTimedOut
def latch (startTs : ℕ) (keys : List Key) : Async Bool :=
  Prog.ask (S := sig) (.latch startTs keys)
def loadStatus : Async TransactionStatus := Prog.ask (S := sig) .loadStatus
def spawn (task : Task) : Async ℕ := Prog.ask (S := sig) (.spawn task)
def await (task : ℕ) : AsyncResult Unit := Prog.ask (S := sig) (.await task)
def cancel : Async Unit := Prog.ask (S := sig) .cancel
def isCancelled : Async Bool := Prog.ask (S := sig) .isCancelled
def isNotified : Async Bool := Prog.ask (S := sig) .isNotified
def regionForId (id : ℕ) : AsyncResult Region := Prog.ask (S := sig) (.regionForId id)
def rawRpc (region : Region) (request : RawRequest) : AsyncResult request.Response :=
  Prog.ask (S := sig) (.rawRpc region request)
def gcRpc (region : Region) (request : GcRequest) : AsyncResult request.Response :=
  Prog.ask (S := sig) (.gcRpc region request)
def getResolved (txnId : ℕ) : Async (Option Requests.TransactionStatus) :=
  Prog.ask (S := sig) (.getResolved txnId)
def saveResolved (txnId : ℕ) (status : Requests.TransactionStatus) : Async Unit :=
  Prog.ask (S := sig) (.saveResolved txnId status)
def isRegionCleaned (txnId : ℕ) (region : RegionVerId) : Async Bool :=
  Prog.ask (S := sig) (.isRegionCleaned txnId region)
def saveCleanedRegion (txnId : ℕ) (region : RegionVerId) : Async Unit :=
  Prog.ask (S := sig) (.saveCleanedRegion txnId region)
def updateSafepoint (safepoint : ℕ) : AsyncResult Bool :=
  Prog.ask (S := sig) (.updateSafepoint safepoint)

/-! Continuing after a primitive is making its call and continuing with the answer. -/

section Bind

variable {α : Type}

lemma elapsed_bind (f : ℕ → Async α) : elapsed.bind f = .call (S := sig) .elapsed f := rfl

end Bind

/-! Each primitive makes its own call and returns an allowed answer to it. -/

section Sat

variable {C : Call → Prop} {A : Answers}

lemma sat_regionForKey {key : Key} (h : C (.regionForKey key)) :
    (regionForKey key).Sat C A (A (.regionForKey key)) :=
  Prog.sat_ask h

variable {region : Region}

lemma sat_mapRegionToStore (h : C (.mapRegionToStore region)) :
    (mapRegionToStore region).Sat C A (A (.mapRegionToStore region)) :=
  Prog.sat_ask h

lemma sat_updateLeader {region : RegionVerId} {leader : ℕ} (h : C (.updateLeader region leader)) :
    (updateLeader region leader).Sat C A (A (.updateLeader region leader)) :=
  Prog.sat_ask h

lemma sat_getTimestamp (h : C .getTimestamp) : getTimestamp.Sat C A (A .getTimestamp) :=
  Prog.sat_ask h

lemma sat_rpc {request : Request} (h : C (.rpc region request)) :
    (rpc region request).Sat C A (A (.rpc region request)) :=
  Prog.sat_ask h

lemma sat_rawRpc {request : RawRequest} (h : C (.rawRpc region request)) :
    (rawRpc region request).Sat C A (A (.rawRpc region request)) :=
  Prog.sat_ask h

lemma sat_gcRpc {request : GcRequest} (h : C (.gcRpc region request)) :
    (gcRpc region request).Sat C A (A (.gcRpc region request)) :=
  Prog.sat_ask h

end Sat

end Async

/-- The calls that find and address regions are among `C`. -/
structure Routing (C : Call → Prop) : Prop where
  regionForKey : ∀ key, C (.regionForKey key)
  mapRegionToStore : ∀ region, C (.mapRegionToStore region)
  updateLeader : ∀ verId leader, C (.updateLeader verId leader)

lemma Routing.mono {C C' : Call → Prop} (h : Routing C) (hC : ∀ c, C c → C' c) : Routing C' :=
  ⟨fun _ => hC _ (h.regionForKey _), fun _ => hC _ (h.mapRegionToStore _),
    fun _ _ => hC _ (h.updateLeader _ _)⟩

lemma routing_true : Routing fun _ => True :=
  ⟨fun _ => trivial, fun _ => trivial, fun _ _ => trivial⟩

/-- In the run, the region of a key was always answered by one that contains it. -/
def LooksUpRegions (tr : Trace) : Prop :=
  ∀ (k : Key) (region : Region), Event.answered (S := sig) (.regionForKey k) (.ok region) ∈ tr →
    region.contains k = true

/-- In the run, no lookup of a region failed. -/
def LookupsSucceed (tr : Trace) : Prop :=
  ∀ (k : Key) (e : Error), Event.answered (S := sig) (.regionForKey k) (.error e) ∉ tr

/-- The regions that lookups answer contain the keys they are asked for. -/
def Hits (A : Answers) : Prop :=
  ∀ (k : Key) (region : Region), A (.regionForKey k) (.ok region) → region.contains k = true

/-- Lookups do not fail. -/
def Finds (A : Answers) : Prop := ∀ (k : Key) (e : Error), ¬ A (.regionForKey k) (.error e)

variable {tr : Trace}

lemma LooksUpRegions.hits (h : LooksUpRegions tr) : Hits (Prog.InTrace tr) := h

lemma LookupsSucceed.mono {tr' : Trace} (h : LookupsSucceed tr') (hsub : tr ⊆ tr') :
    LookupsSucceed tr :=
  fun k e hmem => h k e (hsub hmem)

lemma LookupsSucceed.finds (h : LookupsSucceed tr) : Finds (Prog.InTrace tr) := h

end TikvClient
