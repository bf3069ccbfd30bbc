import TikvClient.Request.OneShard
import TikvClient.Transaction.Lock

/-!
# The plans cover their requests

Every plan of a transaction is an instance of `ShardedPlan.Covering`: sorting, grouping and
batching only cut the items of a request, and the response to a shard speaks for the items of
that shard.  The statements are for any set `C` of calls that contains the routing calls
(`Routing`), so that each user of a plan says for itself which requests it may send.
-/

namespace TikvClient

open Proto

variable {C : Call → Prop} {A : Answers}

/-! ## Shards -/

section Shards

variable {ι : Type}

lemma sat_regionRuns (hC : Routing C) (keyOf : ι → Key) (items : List ι) :
    (regionStreamForKeys keyOf items).Sat C A fun r => ∀ runs, r = .ok runs →
      PlacedRuns A keyOf runs items :=
  (sat_regionStreamForKeys hC.regionForKey keyOf items).post fun _ h => h.1

variable {runs : List (List ι × Region)} {items : List ι}

lemma IsCut.eq_singleton {x : ι}
    (h : IsCut (runs.map Prod.fst) [x]) : ∃ region, runs = [([x], region)] := by
  have hflat := h.flatten_eq
  have hne : ∀ run ∈ runs, run.1 ≠ [] := fun run hrun =>
    h.nonempty run.1 (List.mem_map_of_mem hrun)
  cases runs with
  | nil => cases hflat
  | cons run rest =>
    obtain ⟨items, region⟩ := run
    have hitems : items ≠ [] := hne (items, region) List.mem_cons_self
    obtain ⟨y, ys, rfl⟩ := List.exists_cons_of_ne_nil hitems
    rw [List.map_cons, List.flatten_cons, List.cons_append, List.cons.injEq,
      List.append_eq_nil_iff] at hflat
    obtain ⟨rfl, rfl, hrest⟩ := hflat
    have hnil : rest = [] := by
      rw [List.eq_nil_iff_forall_not_mem]
      intro run hrun
      exact hne run (List.mem_cons_of_mem _ hrun)
        (List.flatten_eq_nil_iff.mp hrest run.1 (List.mem_map_of_mem hrun))
    exact ⟨region, by rw [hnil]⟩

lemma perm_sortByKey (keyOf : ι → Key) (items : List ι) :
    (sortByKey keyOf items).Perm items :=
  List.perm_insertionSort _ items

/-- The shards of sorted items: non-empty, and together items of the list; all of them if
`whole`. -/
structure IsSharding (whole : Prop) (shards : List (List ι × Region)) (items : List ι) : Prop where
  part : PartOf whole (shards.flatMap Prod.fst) items
  nonempty : ∀ s ∈ shards, s.1 ≠ []

lemma sat_shardsByRegion (hC : Routing C) (keyOf : ι → Key) (items : List ι) :
    (shardsByRegion keyOf items).Sat C A fun r => ∀ shards, r = .ok shards →
      IsSharding True shards items := by
  refine (sat_regionRuns hC keyOf _).post fun _ h shards hr => ?_
  have hcut := (h shards hr).cut
  refine ⟨.of_perm ?_, fun s hs => hcut.nonempty _ (List.mem_map_of_mem hs)⟩
  rw [List.flatMap, hcut.flatten_eq]
  exact perm_sortByKey keyOf items

section Batched

variable {S : Type} {size : ι → ℕ} {toShard : List ι → List ι → S} {batchSize : ℕ}

/-- The items of the batches of all runs, whatever else a shard carries. -/
lemma flatMap_batched {itemsOf : S → List ι}
    (hitems : ∀ run batch, itemsOf (toShard run batch) = batch)
    (runs : List (List ι × Region)) :
    ((runs.flatMap fun run => (batches size run.1 batchSize).map fun batch =>
      (toShard run.1 batch, run.2)).flatMap fun s => itemsOf s.1) = runs.flatMap Prod.fst := by
  simp only [List.flatMap_assoc, List.flatMap_map, hitems]
  refine List.flatMap_congr fun run _ => ?_
  rw [List.flatMap_id', (isCut_batches size run.1 batchSize).flatten_eq]

/-- How a batch lies in the items: it is a run of consecutive ones that fits. -/
structure IsBatch (keyOf : ι → Key) (size : ι → ℕ) (batchSize : ℕ) (items part : List ι) :
    Prop where
  nonempty : part ≠ []
  isInfix : part <:+: sortByKey keyOf items
  fits : FitsBatch size batchSize part

/-- **Batches of the runs that were found**: all the items, unless a lookup fails, and each in the
region of its keys. -/
theorem sat_batchedShards (hC : Routing C) (itemsOf : S → List ι)
    (hitems : ∀ run batch, itemsOf (toShard run batch) = batch) (keyOf : ι → Key) (items : List ι) :
    (batchedShards keyOf size toShard batchSize items).Sat C A fun res => ∀ ss, res = .ok ss →
      (∀ s ∈ ss, IsBatch keyOf size batchSize items (itemsOf s.1) ∧
        (Hits A → ∀ x ∈ itemsOf s.1, s.2.contains (keyOf x) = true)) ∧
        PartOf (Finds A) (ss.flatMap fun s => itemsOf s.1) items := by
  refine (sat_groupKeysAux_none hC.regionForKey _).bind fun stream hstream => ?_
  rintro ss h
  cases h
  obtain ⟨front, hfront, hplaced, hall⟩ := hstream.placed
  have hflat : stream.1.flatMap Prod.fst = front := hplaced.cut.flatten_eq
  refine ⟨fun s hs => ?_, ?_⟩
  · obtain ⟨run, hrun, hs⟩ := List.mem_flatMap.mp hs
    obtain ⟨batch, hbatch, rfl⟩ := List.mem_map.mp hs
    rw [hitems]
    have hcut := isCut_batches size run.1 batchSize
    have hsub := hcut.isInfix hbatch
    refine ⟨⟨hcut.nonempty batch hbatch, ?_, fitsBatch_batches hbatch⟩, fun hits x hx => ?_⟩
    · exact (hsub.trans (hplaced.cut.isInfix (List.mem_map_of_mem hrun))).trans hfront.isInfix
    · exact hplaced.inRegion hits run hrun x (hsub.subset hx)
  · rw [flatMap_batched hitems, hflat]
    refine ⟨hfront.sublist.subperm.trans (perm_sortByKey keyOf items).subperm, fun hfinds => ?_⟩
    have hnone : stream.2 = none := Option.eq_none_iff_forall_not_mem.mpr fun e he => by
      obtain ⟨k, hk⟩ := hstream.error e he
      exact hfinds k e hk
    rw [hall hnone]
    exact perm_sortByKey keyOf items

lemma sat_shardsByBatch (hC : Routing C) (keyOf : ι → Key) (size : ι → ℕ) (items : List ι) :
    (shardsByBatch keyOf size items).Sat C A fun r => ∀ shards, r = .ok shards →
      IsSharding (Finds A) shards items :=
  (sat_batchedShards hC (fun batch => batch) (fun _ _ => rfl) keyOf items).post
    fun _ h shards hr => ⟨(h shards hr).2, fun s hs => ((h shards hr).1 s hs).1.nonempty⟩

end Batched

end Shards

/-! ## Lock resolution inside a plan -/

section ResolveLock

variable {Resp : Type} {execute : AsyncResult Resp} {takeLocks : Resp → List LockInfo}
  {resolve : Resolver} {Q : Except Error Resp → Prop}

/-- A result of `ResolveLock` is a result of the plan inside, without locks. -/
lemma sat_resolveLockLoop (hexec : execute.Sat C A Q)
    (hresolve : ∀ r, Q (.ok r) → (resolve (takeLocks r)).Sat C A fun _ => True)
    (noBackoff : Bool) (fuel : ℕ) :
    ∀ (backoff : Backoff) (result : Resp), Q (.ok result) →
      (resolveLockLoop execute takeLocks resolve noBackoff fuel backoff result).Sat C A
        fun r => ∀ resp, r = .ok resp → Q (.ok resp) ∧ takeLocks resp = [] := by
  induction fuel with
  | zero => exact fun _ _ _ => Prog.sat_stuck
  | succ fuel ih =>
    intro backoff result hresult
    unfold resolveLockLoop
    have hagain : ∀ backoff,
        (execute.andThen fun result =>
          resolveLockLoop execute takeLocks resolve noBackoff fuel backoff result).Sat C A
          fun r => ∀ resp, r = .ok resp → Q (.ok resp) ∧ takeLocks resp = [] :=
      fun backoff => Prog.Sat.andThen hexec (fun result hr => ih backoff result hr)
        fun e _ resp h => by cases h
    split
    next hlocks =>
      rintro resp h
      cases h
      exact ⟨hresult, hlocks⟩
    next lock locks hlocks =>
      split_ifs
      · exact fun resp h => by cases h
      · rw [← hlocks]
        refine Prog.Sat.andThen (hresolve result hresult) (fun live _ => ?_) fun e _ resp h => by
          cases h
        split
        · exact hagain backoff
        · split
          · exact fun resp h => by cases h
          · exact hagain _

lemma sat_resolveLock (hexec : execute.Sat C A Q)
    (hresolve : ∀ r, Q (.ok r) → (resolve (takeLocks r)).Sat C A fun _ => True)
    (fuel : ℕ) (backoff : Backoff) :
    (resolveLock execute takeLocks resolve fuel backoff).Sat C A
      fun r => ∀ resp, r = .ok resp → Q (.ok resp) ∧ takeLocks resp = [] :=
  Prog.Sat.andThen hexec (fun result hr => sat_resolveLockLoop hexec hresolve _ fuel _ result hr)
    fun e _ resp h => by cases h

end ResolveLock

/-! ## Dispatched requests -/

section Dispatched

variable {R Shard Resp I : Type} {d : Dispatch R Shard Resp} {items : R → List I}
  {Inv : R → Prop} {Answered : R → Resp → Prop} {whole : Prop}

/-- **What a dispatched request guarantees**: its shards satisfy `Inv` and cover its items, all of
them if `whole`, and a response to a request is one that `Answered` allows. -/
structure Dispatch.Sends (d : Dispatch R Shard Resp) (C : Call → Prop) (A : Answers)
    (items : R → List I) (Inv : R → Prop) (Answered : R → Resp → Prop) (whole : Prop) : Prop where
  shards : ∀ r, Inv r → d.plan.ShardsInto C A items Inv whole r
  applyStore : ∀ attempt r, Inv r →
    Inv (d.applyStore attempt r) ∧ items (d.applyStore attempt r) = items r
  send : ∀ region r, Inv r → (d.send region r).Sat C A fun res => ∀ resp, res = .ok resp →
    Answered r resp

/-- The response answers the request and carries no error. -/
def Dispatch.Done (d : Dispatch R Shard Resp) (Answered : R → Resp → Prop) (r : R)
    (resp : Resp) : Prop :=
  Answered r resp ∧ d.errors resp = [] ∧ d.regionError resp = none

/-- The leaves of a plan that succeeded: answered without errors, and together items of the
request, all of them if `whole`. -/
structure Covered (items : R → List I) (Inv : R → Prop) (Done : R → Resp → Prop) (whole : Prop)
    (r : R) (leaves : List (R × Resp)) : Prop where
  done : ∀ x ∈ leaves, Inv x.1 ∧ Done x.1 x.2
  part : PartOf whole (leaves.flatMap fun x => items x.1) (items r)

lemma extractErrors_eq_none {errors : List KeyError} (h : Error.extractErrors errors = none) :
    errors = [] := by
  unfold Error.extractErrors at h
  split_ifs at h with hempty
  exact List.isEmpty_iff.mp hempty

lemma Dispatch.Sends.covering (h : d.Sends C A items Inv Answered whole) (hC : Routing C) :
    d.plan.Covering C A items Inv (d.Done Answered) whole where
  shards := h.shards
  applyStore := h.applyStore
  execute region r hr := (h.send region r hr).post fun _ hres resp heq hkey hregion =>
    ⟨hres resp heq, extractErrors_eq_none hkey, hregion⟩
  mapRegionToStore := hC.mapRegionToStore
  updateLeader := hC.updateLeader

lemma Dispatch.Sends.covering_resolveLock (h : d.Sends C A items Inv Answered whole)
    (hC : Routing C) {resolve : Resolver} (hresolve : ∀ r resp, Inv r → Answered r resp →
      (resolve (d.locks resp)).Sat C A fun _ => True) (fuel : ℕ) (backoff : Backoff) :
    (d.resolveLock resolve fuel backoff).Covering C A items Inv (d.Done Answered) whole where
  shards := h.shards
  applyStore := h.applyStore
  execute region r hr := by
    refine Prog.Sat.post (sat_resolveLock (h.send region r hr) (fun resp hresp => ?_) fuel backoff)
      fun res hres resp heq hkey hregion => ?_
    · exact hresolve r resp hr (hresp resp rfl)
    · exact ⟨(hres resp heq).1 resp rfl, extractErrors_eq_none hkey, hregion⟩
  mapRegionToStore := hC.mapRegionToStore
  updateLeader := hC.updateLeader

end Dispatched

/-! ## One key, one request -/

lemma sat_rpc_answered {request : Request} (h : ∀ region, C (.rpc region request))
    (region : Region) :
    (Async.rpc region request).Sat C A fun res => ∀ resp, res = .ok resp →
      ∃ region, A (.rpc region request) (.ok resp) :=
  (Async.sat_rpc (h region)).post fun _ hA _ hresp => ⟨region, hresp ▸ hA⟩

variable {R Resp : Type}

/-- A request for one key has one shard, for that key. -/
lemma Dispatch.sends_of_key {d : Dispatch R (List Key) Resp} {keyOf : R → Key}
    {Inv : R → Prop} {Answered : R → Resp → Prop} (hC : Routing C)
    (hshards : ∀ r, d.shards r = regionStreamForKeys id [keyOf r])
    (hset : ∀ r, d.applyShard r [keyOf r] = r) (hstore : ∀ n r, d.applyStore n r = r)
    (hsend : ∀ region r, Inv r → (d.send region r).Sat C A fun res => ∀ resp, res = .ok resp →
      Answered r resp) :
    d.Sends C A (fun r => [keyOf r]) Inv Answered True where
  shards r hr := by
    show (d.shards r).Sat C A _
    rw [hshards]
    refine (sat_regionRuns hC id [keyOf r]).post fun res h runs hres => ?_
    obtain ⟨region, rfl⟩ := (h runs hres).cut.eq_singleton
    exact ⟨by simpa [Dispatch.plan, hset] using hr, .of_perm (by simp [Dispatch.plan, hset])⟩
  applyStore n r hr := by
    rw [hstore]
    exact ⟨hr, rfl⟩
  send := hsend

/-! ## The resolver -/

/-- The requests a resolver may send about the transaction that started at `version`. -/
structure Resolving (C : Call → Prop) (version : ℕ) : Prop where
  cleanup : ∀ region key, C (.rpc region (.cleanup ⟨key, version⟩))
  resolveLock : ∀ region commitVersion, C (.rpc region (.resolveLock ⟨version, commitVersion⟩))

lemma Resolving.mono {C' : Call → Prop} {version : ℕ} (h : Resolving C version)
    (hC : ∀ c, C c → C' c) : Resolving C' version :=
  ⟨fun _ _ => hC _ (h.cleanup _ _), fun _ _ => hC _ (h.resolveLock _ _)⟩

lemma sat_resolveLockAttempts (hC : Routing C) {version : ℕ} (hv : Resolving C version)
    (key : Key) (commitVersion : ℕ) (attempts : ℕ) :
    ∀ last, (resolveLockAttempts key version commitVersion attempts last).Sat C A
      fun _ => True := by
  induction attempts with
  | zero =>
    intro last
    cases last <;> exact trivial
  | succ attempts ih =>
    intro last
    unfold resolveLockAttempts
    refine Prog.Sat.andThen (Async.sat_regionForKey (hC.regionForKey key)) (fun region _ => ?_)
      fun _ _ => trivial
    refine Prog.Sat.andThen (Async.sat_mapRegionToStore (hC.mapRegionToStore region))
      (fun _ _ => ?_) fun _ _ => trivial
    refine Prog.Sat.andThen (Async.sat_rpc (hv.resolveLock region commitVersion))
      (fun resp _ => ?_) fun _ _ => trivial
    split
    · exact trivial
    · exact trivial
    · exact Prog.Sat.andThen (ShardedPlan.sat_handleRegionError hC.updateLeader _ _)
        (fun _ _ => ih _) fun _ _ => trivial
    · exact trivial

lemma sends_cleanup (hC : Routing C) {version : ℕ} (hv : Resolving C version) :
    Dispatch.cleanup.Sends C A (fun r => [r.key]) (fun r => r.startVersion = version)
      (fun r resp => ∃ region, A (.rpc region (.cleanup r)) (.ok resp)) True :=
  Dispatch.sends_of_key hC (fun _ => rfl) (fun _ => rfl) (fun _ _ => rfl) fun region r hr => by
    obtain ⟨key, start⟩ := r
    cases hr
    exact sat_rpc_answered (fun region => hv.cleanup region key) region

lemma sat_cleanup (hC : Routing C) {version : ℕ} (hv : Resolving C version) (fuel : ℕ)
    (primaryLock : Key) : (cleanup fuel primaryLock version).Sat C A fun _ => True := by
  have hsends := sends_cleanup (A := A) hC hv
  refine Prog.Sat.andThen ((hsends.covering hC).sat_retryMultiRegion false fuel
    .defaultRegionBackoff (hsends.shards _ rfl)) (fun results _ => ?_) fun _ _ => trivial
  split <;> exact trivial

lemma sat_resolveExpired (hC : Routing C) (fuel : ℕ) (locks : List LockInfo) :
    (∀ l ∈ locks, Resolving C l.lockVersion) → ∀ cvs clean,
      (resolveExpired fuel locks cvs clean).Sat C A fun _ => True := by
  induction locks with
  | nil => exact fun _ _ _ => trivial
  | cons lock rest ih =>
    intro hlocks cvs clean
    have hlock := hlocks lock List.mem_cons_self
    have hrest := ih fun l hl => hlocks l (List.mem_cons_of_mem _ hl)
    unfold resolveExpired
    refine Prog.Sat.andThen (Async.sat_regionForKey (hC.regionForKey _)) (fun region _ => ?_)
      fun _ _ => trivial
    split_ifs
    · exact hrest _ _
    · refine Prog.Sat.andThen (Q := fun _ => True) ?_ (fun commitVersion _ => ?_) fun _ _ => trivial
      · unfold commitVersionOf
        split
        · exact trivial
        · exact sat_cleanup hC hlock fuel _
      · exact Prog.Sat.andThen (sat_resolveLockAttempts hC hlock _ _ _ _)
          (fun _ _ => hrest _ _) fun _ _ => trivial

/-- **The resolver only sends requests about the transactions of the expired locks.** -/
theorem sat_resolveLocks (hC : Routing C) (hts : C .getTimestamp) (fuel : ℕ)
    (locks : List LockInfo)
    (hlocks : ∀ ts, A .getTimestamp (.ok ts) → ∀ l ∈ locks, isExpired ts l = true →
      Resolving C l.lockVersion) :
    (resolveLocks fuel locks).Sat C A fun _ => True := by
  refine Prog.Sat.andThen (Async.sat_getTimestamp hts) (fun ts hA => ?_) fun _ _ => trivial
  refine Prog.Sat.andThen (sat_resolveExpired hC fuel _ (fun l hl => ?_) _ _) (fun _ _ => trivial)
    fun _ _ => trivial
  obtain ⟨hmem, hexp⟩ := List.mem_filter.mp hl
  exact hlocks ts hA l hmem hexp

/-! ## Plans that resolve the locks they meet -/

section Plans

variable {R Shard Resp I : Type} {d : Dispatch R Shard Resp} {items : R → List I}
  {Inv : R → Prop} {Answered : R → Resp → Prop} {whole : Prop}

/-- The locks the responses report may be resolved. -/
def MayResolve (d : Dispatch R Shard Resp) (C : Call → Prop) (Inv : R → Prop)
    (Answered : R → Resp → Prop) : Prop :=
  ∀ r resp, Inv r → Answered r resp → ∀ l ∈ d.locks resp, Resolving C l.lockVersion

variable {r : R}

lemma Dispatch.Sends.sat_executeShards (h : d.Sends C A items Inv Answered whole) (hC : Routing C)
    (hts : C .getTimestamp) (hlocks : MayResolve d C Inv Answered) (fuel : ℕ)
    (retryOptions : RetryOptions) (hr : d.plan.ShardsInto C A items Inv whole r) :
    (executeShards d fuel retryOptions r).Sat C A
      (ShardedPlan.LeavesOf items Inv (d.Done Answered) whole r) := by
  refine (h.covering_resolveLock hC (fun r resp hr hresp => ?_) fuel _).sat_retryMultiRegion
    _ _ _ hr
  exact sat_resolveLocks hC hts fuel _ fun _ _ l hl _ => hlocks r resp hr hresp l hl

/-- **A plan that succeeds has covered its request.** -/
theorem Dispatch.Sends.sat_executePlan (h : d.Sends C A items Inv Answered whole) (hC : Routing C)
    (hts : C .getTimestamp) (hlocks : MayResolve d C Inv Answered) (fuel : ℕ)
    (retryOptions : RetryOptions) (hr : Inv r) :
    (executePlan d fuel retryOptions r).Sat C A fun res => ∀ leaves, res = .ok leaves →
      Covered items Inv (d.Done Answered) whole r leaves := by
  refine Prog.Sat.andThen (h.sat_executeShards hC hts hlocks fuel retryOptions (h.shards r hr))
    (fun results hresults leaves hleaves => ?_) fun e _ leaves h => by cases h
  obtain ⟨hok, rfl⟩ := extractError_eq_ok_iff.mp hleaves
  exact ⟨(hresults results rfl).done, (hresults results rfl).part.imp (⟨hok, ·⟩)⟩

end Plans

/-! ## The requests whose shards are lists of keys or mutations -/

section Instances

/-- A property of requests that the shards of a request inherit: they are the same request
with some of its items. -/
def ShardStable {R ι : Type} (items : R → List ι) (setItems : R → List ι → R)
    (Inv : R → Prop) : Prop :=
  ∀ r part, Inv r → part ≠ [] → (∀ x ∈ part, x ∈ items r) → Inv (setItems r part)

variable {R ι : Type} {items : R → List ι}

/-- A request whose shards are parts of its items, cut by region and perhaps by batch. -/
lemma Dispatch.sends_of_sharding {Resp : Type} {d : Dispatch R (List ι) Resp} {Inv : R → Prop}
    {Answered : R → Resp → Prop} {whole : Prop}
    (hshards : ∀ r, (d.shards r).Sat C A fun res => ∀ ss, res = .ok ss →
      IsSharding whole ss (items r))
    (hset : ∀ r part, items (d.applyShard r part) = part) (hstore : ∀ n r, d.applyStore n r = r)
    (hInv : ShardStable items d.applyShard Inv)
    (hsend : ∀ region r, Inv r → (d.send region r).Sat C A fun res => ∀ resp, res = .ok resp →
      Answered r resp) :
    d.Sends C A items Inv Answered whole where
  shards r hr := by
    refine (hshards r).post fun _ h ss hss => ?_
    obtain ⟨hpart, hne⟩ := h ss hss
    refine ⟨fun s hs => hInv r s.1 hr (hne s hs) fun x hx => ?_, ?_⟩
    · exact hpart.subset (List.mem_flatMap.mpr ⟨s, hs, hx⟩)
    · simpa only [Dispatch.plan, hset] using hpart
  applyStore n r hr := by
    rw [hstore]
    exact ⟨hr, rfl⟩
  send := hsend

variable (hC : Routing C)

include hC

lemma sends_commit {I : CommitRequest → Prop}
    (hI : ShardStable CommitRequest.keys (fun r keys => { r with keys := keys }) I)
    (hrpc : ∀ region r, I r → C (.rpc region (.commit r))) :
    Dispatch.commit.Sends C A (·.keys) I
      (fun r resp => ∃ region, A (.rpc region (.commit r)) (.ok resp)) (Finds A) :=
  Dispatch.sends_of_sharding (fun r => sat_shardsByBatch hC id Key.len r.keys) (fun _ _ => rfl)
    (fun _ _ => rfl) hI fun region r hr => sat_rpc_answered (fun g => hrpc g r hr) region

lemma sends_batchRollback {I : BatchRollbackRequest → Prop}
    (hI : ShardStable BatchRollbackRequest.keys (fun r keys => { r with keys := keys }) I)
    (hrpc : ∀ region r, I r → C (.rpc region (.batchRollback r))) :
    Dispatch.batchRollback.Sends C A (·.keys) I
      (fun r resp => ∃ region, A (.rpc region (.batchRollback r)) (.ok resp)) True :=
  Dispatch.sends_of_sharding (fun r => sat_shardsByRegion hC id r.keys) (fun _ _ => rfl)
    (fun _ _ => rfl) hI fun region r hr => sat_rpc_answered (fun g => hrpc g r hr) region

lemma sends_pessimisticRollback {I : PessimisticRollbackRequest → Prop}
    (hI : ShardStable PessimisticRollbackRequest.keys (fun r keys => { r with keys := keys }) I)
    (hrpc : ∀ region r, I r → C (.rpc region (.pessimisticRollback r))) :
    Dispatch.pessimisticRollback.Sends C A (·.keys) I
      (fun r resp => ∃ region, A (.rpc region (.pessimisticRollback r)) (.ok resp)) True :=
  Dispatch.sends_of_sharding (fun r => sat_shardsByRegion hC id r.keys) (fun _ _ => rfl)
    (fun _ _ => rfl) hI fun region r hr => sat_rpc_answered (fun g => hrpc g r hr) region

lemma sends_pessimisticLock {I : PessimisticLockRequest → Prop}
    (hI : ShardStable PessimisticLockRequest.mutations
      (fun r ms => { r with mutations := ms }) I)
    (hrpc : ∀ region r, I r → C (.rpc region (.pessimisticLock r))) :
    Dispatch.pessimisticLock.Sends C A (·.mutations) I
      (fun r resp => ∃ region, A (.rpc region (.pessimisticLock r)) (.ok resp)) True :=
  Dispatch.sends_of_sharding (fun r => sat_shardsByRegion hC (·.key) r.mutations) (fun _ _ => rfl)
    (fun _ _ => rfl) hI fun region r hr => sat_rpc_answered (fun g => hrpc g r hr) region

lemma sends_batchGet (hrpc : ∀ region r, C (.rpc region (.batchGet r))) :
    Dispatch.batchGet.Sends C A (·.keys) (fun _ => True)
      (fun r resp => ∃ region, A (.rpc region (.batchGet r)) (.ok resp)) True :=
  Dispatch.sends_of_sharding (fun r => sat_shardsByRegion hC id r.keys) (fun _ _ => rfl)
    (fun _ _ => rfl) (fun _ _ _ _ _ => trivial)
    fun region r _ => sat_rpc_answered (fun g => hrpc g r) region

lemma sends_get (hrpc : ∀ region r, C (.rpc region (.get r))) :
    Dispatch.get.Sends C A (fun r => [r.key]) (fun _ => True)
      (fun r resp => ∃ region, A (.rpc region (.get r)) (.ok resp)) True :=
  Dispatch.sends_of_key hC (fun _ => rfl) (fun _ => rfl) (fun _ _ => rfl)
    fun region r _ => sat_rpc_answered (fun g => hrpc g r) region

lemma sends_txnHeartBeat {I : TxnHeartBeatRequest → Prop}
    (hrpc : ∀ region r, I r → C (.rpc region (.txnHeartBeat r))) :
    Dispatch.txnHeartBeat.Sends C A (fun r => [r.primaryLock]) I
      (fun r resp => ∃ region, A (.rpc region (.txnHeartBeat r)) (.ok resp)) True :=
  Dispatch.sends_of_key hC (fun _ => rfl) (fun _ => rfl) (fun _ _ => rfl)
    fun region r hr => sat_rpc_answered (fun g => hrpc g r hr) region

lemma sat_regionsFrom (endKey : Option Key) (fuel : ℕ) :
    ∀ startKey, (regionsFrom endKey fuel startKey).Sat C A fun _ => True := by
  induction fuel with
  | zero => exact fun _ => Prog.sat_stuck
  | succ fuel ih =>
    intro startKey
    refine Prog.Sat.andThen (Async.sat_regionForKey (hC.regionForKey _)) (fun region _ => ?_)
      fun _ _ => trivial
    split_ifs
    · exact trivial
    · exact Prog.Sat.andThen (ih _) (fun _ _ => trivial) fun _ _ => trivial

/-- A scan has no items: what matters is that it only reads. -/
lemma sends_scan (fuel : ℕ) (hrpc : ∀ region r, C (.rpc region (.scan r))) :
    (Dispatch.scan fuel).Sends C A (fun _ => ([] : List Unit)) (fun _ => True)
      (fun r resp => ∃ region, A (.rpc region (.scan r)) (.ok resp)) True where
  shards r _ := by
    refine Prog.Sat.andThen (sat_regionsFrom hC _ fuel _) (fun regions _ ss _ => ?_)
      fun _ _ ss h => by cases h
    exact ⟨fun _ _ => trivial, .of_perm (by simp)⟩
  applyStore _ _ _ := ⟨trivial, rfl⟩
  send region r _ := sat_rpc_answered (fun g => hrpc g r) region

/-- How the mutations of a prewrite shard lie in those of its request. -/
abbrev IsPrewriteShard (r : PrewriteRequest) : List Proto.Mutation → Prop :=
  IsBatch (·.key) mutationSize txnCommitBatchSize r.mutations

lemma sat_prewriteShards (r : PrewriteRequest) :
    (PrewriteRequest.shards r).Sat C A fun res => ∀ ss, res = .ok ss →
      (∀ s ∈ ss, IsPrewriteShard r s.1.mutations) ∧
        PartOf (Finds A) (ss.flatMap fun s => s.1.mutations) r.mutations :=
  (sat_batchedShards hC PrewriteShard.mutations (fun _ _ => rfl) _ _).post
    fun _ h ss hss => ⟨fun s hs => ((h ss hss).1 s hs).1, (h ss hss).2⟩

lemma shardsInto_prewrite {Inv : PrewriteRequest → Prop} {r : PrewriteRequest}
    (hshard : ∀ s, IsPrewriteShard r s.mutations → Inv (PrewriteRequest.applyShard r s)) :
    Dispatch.prewrite.plan.ShardsInto C A (·.mutations) Inv (Finds A) r :=
  (sat_prewriteShards hC r).post fun _ h ss hss =>
    ⟨fun s hs => hshard s.1 ((h ss hss).1 s hs), (h ss hss).2⟩

lemma sends_prewrite {I : PrewriteRequest → Prop}
    (hshard : ∀ r s, I r → IsPrewriteShard r s.mutations →
      I (PrewriteRequest.applyShard r s))
    (hstore : ∀ r n, I r → I { r with txnSize := n })
    (hrpc : ∀ region r, I r → C (.rpc region (.prewrite r))) :
    Dispatch.prewrite.Sends C A (·.mutations) I
      (fun r resp => ∃ region, A (.rpc region (.prewrite r)) (.ok resp)) (Finds A) where
  shards r hr := shardsInto_prewrite hC fun s => hshard r s hr
  applyStore attempt r hr := by
    simp only [Dispatch.prewrite, PrewriteRequest.applyStore]
    split_ifs
    · exact ⟨hstore r _ hr, rfl⟩
    · exact ⟨hr, rfl⟩
  send region r hr := sat_rpc_answered (fun g => hrpc g r hr) region

end Instances

/-! ## Requests that are answered without errors -/

/-- A request whose shards are all answered without errors is not tried again, and no locks are
resolved. -/
lemma Dispatch.eval_executeShards {Shard : Type} (d : Dispatch R Shard Resp)
    {ans : (c : Call) → c.Ans} {r : R} {ss : List (Shard × Region)} (resp : Shard × Region → Resp)
    (hshards : (d.shards r).eval (S := sig) ans = some (.ok ss))
    (hleader : ∀ s ∈ ss, s.2.leader ≠ none)
    (hstore : ∀ s ∈ ss, ans (.mapRegionToStore s.2) = .ok ()) {e : ℕ}
    (hsend : ∀ s ∈ ss, (d.send s.2 (d.plan.sent r s.1)).eval (S := sig) ans = some (.ok (resp s)))
    (hsteps : ∀ s ∈ ss, (d.send s.2 (d.plan.sent r s.1)).evalSteps (S := sig) ans ≤ e)
    (hlocks : ∀ s ∈ ss, d.locks (resp s) = []) (herrors : ∀ s ∈ ss, d.errors (resp s) = [])
    (hregion : ∀ s ∈ ss, d.regionError (resp s) = none) {fuel : ℕ}
    (hfuel : ss.length * (e + 2) < fuel) (retryOptions : RetryOptions) :
    (executeShards d fuel retryOptions r).eval (S := sig) ans =
      some (.ok (ss.map fun s => .ok (d.plan.sent r s.1, resp s))) := by
  have hsent := fun s hs => eval_resolveLock (hsend s hs) (hlocks s hs) (resolveLocks fuel)
    (Nat.zero_lt_of_lt hfuel) retryOptions.lockBackoff
  refine ShardedPlan.eval_retryMultiRegion (d.resolveLock _ fuel _) false _ resp hshards hleader
    hstore (fun s hs => (hsent s hs).1) (fun s hs => (hsent s hs).2.trans_le (hsteps s hs))
    (fun s hs => ?_) hregion hfuel
  simp only [Dispatch.resolveLock, Dispatch.plan, herrors s hs, Error.extractErrors]
  rfl

end TikvClient
