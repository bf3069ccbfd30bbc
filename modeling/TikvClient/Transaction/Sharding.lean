import TikvClient.Request.KeyTally
import TikvClient.Request.RangeShard
import TikvClient.Transaction.RequestLemmas
import TikvClient.Transaction.Transaction

/-!
# Sharding covers every key once

The requests of a transaction for many keys, in `RetryableMultiRegion`: whatever regions the lookups
answer from one time to the next, and whatever errors lead to retries, every shard is sent to the
region its keys are in, and the accepted shards have every key of the request once.

**Failed lookups.**  Requests that are cut into batches lose the keys from the first failed lookup
on, and succeed all the same: their shards cover the request only if no lookup fails
(`failed_lookup_commits_nothing`).

**Equal keys.**  Requests that are not cut into batches keep equal keys in one shard, so two
accepted shards of a pessimistic lock request have no key in common; the keys it reports as locked
when it fails are the keys of the accepted shards.
-/

namespace TikvClient

open Proto Prog

/-! ## Covering every key once -/

/-- The keys of a request for many keys. -/
def Proto.Request.multiKeys : Request → List Key
  | .batchGet r => r.keys
  | .prewrite r => r.mutations.map (·.key)
  | .flush r => r.mutations.map (·.key)
  | .commit r => r.keys
  | .batchRollback r => r.keys
  | .pessimisticRollback r => r.keys
  | .pessimisticLock r => r.mutations.map (·.key)
  | _ => []

/-- A request for many keys is sent to a region that contains them. -/
def InItsRegion : Call → Prop
  | .rpc region request => ∀ k ∈ request.multiKeys, region.contains k = true
  | _ => True

/-- **The plan covers every key of the request once**, in every run in which lookups answer regions
with the keys they were asked for; all of them only in runs that are `Whole`. -/
structure CoversOnce {R Resp : Type} (Whole : Trace → Prop) (keysOf : R → List Key)
    (request : R) (plan : AsyncResult (ShardResults R Resp)) : Prop where
  inRegion : ∀ tr rest, Steps plan tr rest → LooksUpRegions tr →
    ∀ e ∈ tr, Event.Made InItsRegion e
  all : ∀ tr results, Returns plan tr (.ok results) → LooksUpRegions tr → Whole tr →
    AllOk results → ((okLeaves results).flatMap fun x => keysOf x.1).Perm (keysOf request)
  once : ∀ tr results, Returns plan tr (.ok results) → LooksUpRegions tr →
    ((okLeaves results).flatMap fun x => keysOf x.1).Subperm (keysOf request)

/-- The requests of the dispatch cover their keys, with and without lock resolution. -/
def DispatchCoversOnce {R Shard Resp : Type} (policy : RoutingPolicy) (Whole : Trace → Prop)
    (d : Dispatch R Shard Resp) (keysOf : R → List Key) : Prop :=
  ∀ (preserve : Bool) (fuel : ℕ) (request : R) (backoff : Backoff),
    CoversOnce Whole keysOf request
      (d.plan.retryMultiRegionRouted policy preserve fuel request backoff) ∧
    ∀ (lockFuel : ℕ) (lockBackoff : Backoff),
      CoversOnce Whole keysOf request
        ((d.resolveLock (resolveLocks lockFuel) lockFuel lockBackoff).retryMultiRegionRouted policy
          preserve fuel request backoff)

/-! ## Shards in their regions -/

lemma routing_inItsRegion : Routing InItsRegion :=
  ⟨fun _ => trivial, fun _ => trivial, fun _ _ => trivial⟩

lemma resolving_inItsRegion (version : ℕ) : Resolving InItsRegion version :=
  ⟨fun _ _ _ hk => (by cases hk), fun _ _ _ hk => (by cases hk)⟩

/-- No key is in both lists. -/
def Apart (a b : List Key) : Prop := ∀ k ∈ a, k ∉ b

lemma Apart.mono {a b a' b' : List Key} (ha : a' ⊆ a) (hb : b' ⊆ b) (h : Apart a b) :
    Apart a' b' :=
  fun k hk hk' => h k (ha hk) (hb hk')

lemma Apart.symm (a b : List Key) (h : Apart a b) : Apart b a := fun k hk hk' => h k hk' hk

section Shards

variable {ι : Type} {C : Call → Prop} {A : Answers}

lemma pairwise_sortByKey (keyOf : ι → Key) (items : List ι) :
    (sortByKey keyOf items).Pairwise fun x y => keyOf x ≤ keyOf y := by
  have : Std.Total fun a b : ι => keyOf a ≤ keyOf b := ⟨fun a b => le_total (keyOf a) (keyOf b)⟩
  have : IsTrans ι fun a b => keyOf a ≤ keyOf b := ⟨fun _ _ _ h h' => le_trans (α := Key) h h'⟩
  exact List.pairwise_insertionSort _ items

/-- The shards of a request that is cut by region. -/
lemma sat_shardsByRegion_placed (hC : Routing C) (hits : Hits A) (keyOf : ι → Key)
    (items : List ι) :
    (shardsByRegion keyOf items).Sat C A fun res => ∀ ss, res = .ok ss →
      (∀ s ∈ ss, ∀ k ∈ s.1.map keyOf, s.2.contains k = true) ∧
        PartOf True (ss.flatMap fun s => s.1.map keyOf) (items.map keyOf) ∧
        ss.Pairwise fun s t => Apart (s.1.map keyOf) (t.1.map keyOf) := by
  refine (sat_regionRuns hC keyOf _).post fun res hres ss hss => ?_
  have hruns := hres ss hss
  refine ⟨fun s hs => List.forall_mem_map.mpr (hruns.inRegion hits s hs), .of_perm ?_, ?_⟩
  · rw [← List.map_flatMap, List.flatMap, hruns.cut.flatten_eq]
    exact (perm_sortByKey keyOf items).map keyOf
  · refine (hruns.apart hits (pairwise_sortByKey keyOf items)).imp fun {s t} hst => ?_
    intro k hk hk'
    obtain ⟨x, hx, rfl⟩ := List.mem_map.mp hk
    obtain ⟨y, hy, heq⟩ := List.mem_map.mp hk'
    exact (hst x hx y hy).ne heq.symm

/-- The shards of a request whose runs are cut into batches. -/
lemma sat_batched_placed (hC : Routing C) (hits : Hits A) (keyOf : ι → Key) (size : ι → ℕ)
    (items : List ι) {S : Type} (toShard : List ι → List ι → S) (itemsOf : S → List ι)
    (hitems : ∀ run batch, itemsOf (toShard run batch) = batch) :
    (batchedShards keyOf size toShard txnCommitBatchSize items).Sat C A fun res => ∀ ss,
      res = .ok ss → (∀ s ∈ ss, ∀ k ∈ (itemsOf s.1).map keyOf, s.2.contains k = true) ∧
        PartOf (Finds A) (ss.flatMap fun s => (itemsOf s.1).map keyOf) (items.map keyOf) ∧
        ss.Pairwise fun _ _ => True := by
  refine (sat_batchedShards hC itemsOf hitems keyOf items).post fun res hres ss hss => ?_
  obtain ⟨hbatch, hpart⟩ := hres ss hss
  refine ⟨fun s hs => List.forall_mem_map.mpr ((hbatch s hs).2 hits), ?_,
    List.pairwise_of_forall fun _ _ => trivial⟩
  rw [← List.map_flatMap]
  exact hpart.map keyOf

/-- The same for requests whose items are keys. -/
lemma sat_keysByRegion_placed (hC : Routing C) (hits : Hits A) (keys : List Key) :
    (shardsByRegion id keys).Sat C A fun res => ∀ ss, res = .ok ss →
      (∀ s ∈ ss, ∀ k ∈ s.1, s.2.contains k = true) ∧
        PartOf True (ss.flatMap fun s => s.1) keys ∧ ss.Pairwise fun s t => Apart s.1 t.1 := by
  have h := sat_shardsByRegion_placed hC hits id keys
  simp only [List.map_id] at h
  exact h

lemma sat_keysByBatch_placed (hC : Routing C) (hits : Hits A) (size : Key → ℕ) (keys : List Key) :
    (shardsByBatch id size keys).Sat C A fun res => ∀ ss, res = .ok ss →
      (∀ s ∈ ss, ∀ k ∈ s.1, s.2.contains k = true) ∧
        PartOf (Finds A) (ss.flatMap fun s => s.1) keys ∧ ss.Pairwise fun _ _ => True := by
  have h := sat_batched_placed hC hits id size keys (fun _ batch => batch) (fun batch => batch)
    fun _ _ => rfl
  simp only [List.map_id] at h
  exact h

end Shards

/-! ## The dispatches -/

section Dispatches

variable {R Shard Resp : Type} {d : Dispatch R Shard Resp} {keysOf : R → List Key}
  {D : List Key → List Key → Prop} {tr : Trace} {whole : Prop}
  {Whole : Trace → Prop}

/-- Resolving locks sends no other request for many keys. -/
lemma KeyPlan.resolveLock (h : KeyPlan d.plan InItsRegion (InTrace tr) keysOf D whole)
    (lockFuel : ℕ) (lockBackoff : Backoff) :
    KeyPlan (d.resolveLock (resolveLocks lockFuel) lockFuel lockBackoff) InItsRegion (InTrace tr)
      keysOf D whole where
  shards := h.shards
  applyStore := h.applyStore
  execute region r hat := by
    refine (sat_resolveLock (h.execute region r hat) (fun resp _ => ?_) lockFuel lockBackoff).post
      fun _ _ => trivial
    exact sat_resolveLocks routing_inItsRegion trivial lockFuel _
      fun _ _ l _ _ => resolving_inItsRegion l.lockVersion

/-- A plan that is cut by its keys covers them once. -/
lemma coversOnce_of_keyPlan {plan : ShardedPlan R Shard Resp}
    (h : ∀ tr, LooksUpRegions tr →
      KeyPlan plan InItsRegion (InTrace tr) keysOf (fun _ _ => True) (Whole tr))
    (policy : RoutingPolicy) (preserve : Bool) (fuel : ℕ) (request : R) (backoff : Backoff) :
    CoversOnce Whole keysOf request
      (plan.retryMultiRegionRouted policy preserve fuel request backoff) := by
  have hsat : ∀ tr, LooksUpRegions tr →
      (plan.retryMultiRegionRouted policy preserve fuel request backoff).Sat InItsRegion
        (InTrace tr)
        (ShardedPlan.Tallied (KeysOnce keysOf (fun _ _ => True) (Whole tr)) request) :=
    fun tr htr => (h tr htr).sat_retryMultiRegionRouted routing_inItsRegion
      (fun _ _ _ => trivial) (fun _ _ _ => trivial) policy preserve fuel request backoff
  refine ⟨fun tr rest hsteps htr => ?_, fun tr results hrun htr hwhole hok => ?_,
    fun tr results hrun htr => ?_⟩
  · exact ((hsat tr htr).of_steps hsteps (allowed_inTrace tr)).1
  · exact (((hsat tr htr).of_returns_inTrace hrun results rfl).2 hok).part.perm ⟨rfl, hwhole⟩
  · exact ((hsat tr htr).of_returns_inTrace hrun results rfl).1.part.subperm

lemma dispatchCoversOnce_of_keyPlan {policy : RoutingPolicy} (h : ∀ tr, LooksUpRegions tr →
      KeyPlan d.plan InItsRegion (InTrace tr) keysOf (fun _ _ => True) (Whole tr)) :
    DispatchCoversOnce policy Whole d keysOf := fun preserve fuel request backoff =>
  ⟨coversOnce_of_keyPlan h policy preserve fuel request backoff, fun lockFuel lockBackoff =>
    coversOnce_of_keyPlan (fun tr htr => (h tr htr).resolveLock lockFuel lockBackoff) policy
      preserve fuel request backoff⟩

end Dispatches

section Requests

variable {tr : Trace}

lemma sat_rpc_inItsRegion {region : Region} {request : Request}
    (h : ∀ k ∈ request.multiKeys, region.contains k = true) :
    (Async.rpc region request).Sat InItsRegion (InTrace tr) fun _ => True :=
  (Async.sat_rpc (show InItsRegion (.rpc region request) from h)).post fun _ _ => trivial

lemma KeyPlan.weaken {R Shard Resp : Type} {plan : ShardedPlan R Shard Resp} {C : Call → Prop}
    {A : Answers} {keysOf : R → List Key} {D : List Key → List Key → Prop} {whole : Prop}
    (h : KeyPlan plan C A keysOf D whole) : KeyPlan plan C A keysOf (fun _ _ => True) whole where
  shards r := (h.shards r).post fun _ hres ss hss =>
    ⟨(hres ss hss).1, (hres ss hss).2.1, (hres ss hss).2.2.imp fun _ => trivial⟩
  applyStore := h.applyStore
  execute := h.execute

variable (htr : LooksUpRegions tr)
include htr

lemma keyPlan_batchGet :
    KeyPlan Dispatch.batchGet.plan InItsRegion (InTrace tr) (·.keys) Apart True where
  shards r := sat_keysByRegion_placed routing_inItsRegion htr.hits r.keys
  applyStore _ _ := rfl
  execute _ _ hat := sat_rpc_inItsRegion hat

lemma keyPlan_batchRollback :
    KeyPlan Dispatch.batchRollback.plan InItsRegion (InTrace tr) (·.keys) Apart True where
  shards r := sat_keysByRegion_placed routing_inItsRegion htr.hits r.keys
  applyStore _ _ := rfl
  execute _ _ hat := sat_rpc_inItsRegion hat

lemma keyPlan_pessimisticRollback :
    KeyPlan Dispatch.pessimisticRollback.plan InItsRegion (InTrace tr) (·.keys) Apart True where
  shards r := sat_keysByRegion_placed routing_inItsRegion htr.hits r.keys
  applyStore _ _ := rfl
  execute _ _ hat := sat_rpc_inItsRegion hat

lemma keyPlan_pessimisticLock :
    KeyPlan Dispatch.pessimisticLock.plan InItsRegion (InTrace tr)
      (fun r => r.mutations.map (·.key)) Apart True where
  shards r := sat_shardsByRegion_placed routing_inItsRegion htr.hits Proto.Mutation.key r.mutations
  applyStore _ _ := rfl
  execute _ _ hat := sat_rpc_inItsRegion hat

lemma keyPlan_commit :
    KeyPlan Dispatch.commit.plan InItsRegion (InTrace tr) (·.keys) (fun _ _ => True)
      (LookupsSucceed tr) where
  shards r := sat_keysByBatch_placed routing_inItsRegion htr.hits Key.len r.keys
  applyStore _ _ := rfl
  execute _ _ hat := sat_rpc_inItsRegion hat

lemma keyPlan_flush :
    KeyPlan Dispatch.flush.plan InItsRegion (InTrace tr) (fun r => r.mutations.map (·.key))
      (fun _ _ => True) (LookupsSucceed tr) where
  shards r := sat_batched_placed routing_inItsRegion htr.hits Proto.Mutation.key mutationSize
    r.mutations (fun _ batch => batch) (fun batch => batch) fun _ _ => rfl
  applyStore _ _ := rfl
  execute _ _ hat := sat_rpc_inItsRegion hat

lemma keyPlan_prewrite :
    KeyPlan Dispatch.prewrite.plan InItsRegion (InTrace tr) (fun r => r.mutations.map (·.key))
      (fun _ _ => True) (LookupsSucceed tr) where
  shards r := sat_batched_placed routing_inItsRegion htr.hits Proto.Mutation.key mutationSize
    r.mutations (fun run batch => PrewriteShard.mk batch run.length) PrewriteShard.mutations
    fun _ _ => rfl
  applyStore attempt r := by
    simp only [Dispatch.plan, Dispatch.prewrite, PrewriteRequest.applyStore]
    split_ifs <;> rfl
  execute _ _ hat := sat_rpc_inItsRegion hat

/-- Two accepted shards of a pessimistic lock request have no key in common. -/
lemma apart_of_pessimisticLock (policy : RoutingPolicy)
    (preserve : Bool) (fuel lockFuel : ℕ) (lockBackoff : Backoff) (request : PessimisticLockRequest)
    (backoff : Backoff) {results : ShardResults PessimisticLockRequest PessimisticLockResponse}
    (hrun : Returns ((Dispatch.pessimisticLock.resolveLock (resolveLocks lockFuel) lockFuel
      lockBackoff).retryMultiRegionRouted policy preserve fuel request backoff) tr
        (.ok results)) :
    (okLeaves results).Pairwise fun x y =>
      Apart (x.1.mutations.map (·.key)) (y.1.mutations.map (·.key)) := by
  have hplan := (keyPlan_pessimisticLock htr).resolveLock lockFuel lockBackoff
  have hsat := hplan.sat_retryMultiRegionRouted routing_inItsRegion Apart.mono Apart.symm policy
    preserve fuel request backoff
  exact (hsat.of_returns_inTrace hrun results rfl).1.apart

end Requests

/-! ## The keys of a failed pessimistic lock request -/

lemma exists_of_pairsOfShard {mutations : List Proto.Mutation} {resp : PessimisticLockResponse}
    {e : Error} (h : Transaction.pairsOfShard mutations resp = .error e) :
    ∃ message, e = .internalError message := by
  unfold Transaction.pairsOfShard at h
  dsimp only at h
  split_ifs at h <;> cases h <;> exact ⟨_, rfl⟩

lemma exists_of_pairsOfShards {e : Error} :
    ∀ {leaves : List (PessimisticLockRequest × PessimisticLockResponse)},
      Transaction.pairsOfShards leaves = .error e → ∃ message, e = .internalError message
  | [], h => by cases h
  | (r, resp) :: rest, h => by
    unfold Transaction.pairsOfShards at h
    split at h
    next hshard =>
      cases h
      exact exists_of_pairsOfShard hshard
    next pairs e' _ hrest =>
      cases h
      exact exists_of_pairsOfShards hrest
    next => cases h

/-- The keys it reports are those of the accepted shards. -/
lemma successKeys_eq {results : ShardResults PessimisticLockRequest PessimisticLockResponse}
    {inner : Error} {keys : List Key}
    (h : Transaction.collectWithShard results = .error (.pessimisticLockError inner keys)) :
    keys = (okLeaves results).flatMap fun x => x.1.mutations.map (·.key) := by
  unfold Transaction.collectWithShard at h
  split at h
  next leaves _ =>
    obtain ⟨message, hmessage⟩ := exists_of_pairsOfShards h
    cases hmessage
  next e _ =>
    cases h
    rfl

/-- **Sharding with retries covers every key exactly once**, for every multi-key request of a
transaction, whatever regions the lookups answer and whatever fails in between; requests that are
cut into batches are covered if no lookup fails.  The keys that a failed pessimistic lock request
reports are those of its accepted shards, no two of which share a key. -/
theorem sharding_covers_once (policy : RoutingPolicy) :
    DispatchCoversOnce policy (fun _ => True) Dispatch.batchGet (·.keys) ∧
      DispatchCoversOnce policy LookupsSucceed Dispatch.prewrite
        (fun r => r.mutations.map (·.key)) ∧
      DispatchCoversOnce policy LookupsSucceed Dispatch.commit (·.keys) ∧
      DispatchCoversOnce policy LookupsSucceed Dispatch.flush (fun r => r.mutations.map (·.key)) ∧
      DispatchCoversOnce policy (fun _ => True) Dispatch.pessimisticLock
        (fun r => r.mutations.map (·.key)) ∧
      DispatchCoversOnce policy (fun _ => True) Dispatch.batchRollback (·.keys) ∧
      DispatchCoversOnce policy (fun _ => True) Dispatch.pessimisticRollback (·.keys) ∧
      ∀ fuel lockFuel lockBackoff request backoff tr results,
        Returns ((Dispatch.pessimisticLock.resolveLock (resolveLocks lockFuel) lockFuel
          lockBackoff).retryMultiRegionRouted policy true fuel request backoff) tr
            (.ok results) → LooksUpRegions tr →
        ((okLeaves results).Pairwise fun x y =>
          ∀ k ∈ x.1.mutations.map (·.key), k ∉ y.1.mutations.map (·.key)) ∧
        ∀ inner successKeys,
          Transaction.collectWithShard results = .error (.pessimisticLockError inner successKeys) →
            successKeys = (okLeaves results).flatMap fun x => x.1.mutations.map (·.key) := by
  refine ⟨dispatchCoversOnce_of_keyPlan fun _ htr => (keyPlan_batchGet htr).weaken,
    dispatchCoversOnce_of_keyPlan fun _ => keyPlan_prewrite,
    dispatchCoversOnce_of_keyPlan fun _ => keyPlan_commit,
    dispatchCoversOnce_of_keyPlan fun _ => keyPlan_flush,
    dispatchCoversOnce_of_keyPlan fun _ htr => (keyPlan_pessimisticLock htr).weaken,
    dispatchCoversOnce_of_keyPlan fun _ htr => (keyPlan_batchRollback htr).weaken,
    dispatchCoversOnce_of_keyPlan fun _ htr => (keyPlan_pessimisticRollback htr).weaken,
    fun fuel lockFuel lockBackoff request backoff tr results hrun htr => ⟨?_, ?_⟩⟩
  · exact apart_of_pessimisticLock htr policy true fuel lockFuel lockBackoff request backoff hrun
  · exact fun inner successKeys => successKeys_eq

/-- A commit of one key whose lookup fails has no shards: it succeeds, and commits nothing. -/
theorem failed_lookup_commits_nothing :
    ¬ DispatchCoversOnce .leaderOnly (fun _ => True) Dispatch.commit (·.keys) := by
  intro hcovers
  have hrun : Returns (Dispatch.commit.plan.retryMultiRegionRouted .leaderOnly false 1
      (newCommitRequest [⟨[1]⟩] 5 7) .noBackoff)
      [.answered (S := sig) (.regionForKey ⟨[1]⟩) (.error .grpc)] (.ok []) :=
    Steps.call (S := sig) (c := .regionForKey ⟨[1]⟩) (.error .grpc) (.refl _)
  have hperm := (hcovers false 1 (newCommitRequest [⟨[1]⟩] 5 7) .noBackoff).1.all _ _
    hrun (fun k region hmem => by cases List.mem_singleton.mp hmem) trivial fun _ h => by cases h
  cases hperm.length_eq

/-- Stores that only answer batch gets. -/
def serveBatchGet (_ : Region) : (request : Request) → Except Error request.Response
  | .batchGet _ => (.ok ⟨none, none, []⟩ : Except Error BatchGetResponse)
  | _ => .error .grpc

/-- Two keys of a batch get, in two regions and out of order. -/
theorem batchGet_covers_two_regions :
    ∃ tr results, Returns (Dispatch.batchGet.plan.retryMultiRegionRouted .leaderOnly false 20
        ⟨[⟨[9]⟩, ⟨[1]⟩], 7, false⟩ .noBackoff) tr (.ok results) ∧
      LooksUpRegions tr ∧ AllOk results ∧
      ((okLeaves results).flatMap fun x => x.1.keys).Perm [⟨[9]⟩, ⟨[1]⟩] := by
  have heval : (Dispatch.batchGet.plan.retryMultiRegionRouted .leaderOnly false 20
      ⟨[⟨[9]⟩, ⟨[1]⟩], 7, false⟩ .noBackoff).eval (fixedCluster twoRegions serveBatchGet) =
        some (.ok [.ok (⟨[⟨[1]⟩], 7, false⟩, ⟨none, none, []⟩),
          .ok (⟨[⟨[9]⟩], 7, false⟩, ⟨none, none, []⟩)]) := rfl
  obtain ⟨tr, hrun, hans⟩ := exists_returns_of_eval heval
  have htr : LooksUpRegions tr := by
    intro k region hmem
    obtain ⟨region', -, hroute, hk⟩ := routes_fixedCluster isPartition_twoRegions serveBatchGet k
    have hregion := (hans _ hmem).trans hroute
    cases hregion
    exact hk
  have hok : AllOk [.ok ((⟨[⟨[1]⟩], 7, false⟩ : BatchGetRequest),
      (⟨none, none, []⟩ : BatchGetResponse)), .ok (⟨[⟨[9]⟩], 7, false⟩, ⟨none, none, []⟩)] := by
    simp [AllOk]
  exact ⟨tr, _, hrun, htr, hok,
    ((sharding_covers_once .leaderOnly).1 false 20 ⟨[⟨[9]⟩, ⟨[1]⟩], 7, false⟩ .noBackoff).1.all tr _
      hrun htr trivial hok⟩

end TikvClient
