import TikvClient.Request.Tally

/-!
# The errors of a sharded plan

A plan fails, or has failed shards among its results, with errors of its parts — sharding, sending,
finding the store of a region — and with those the handlers make up themselves.  `FailsWith` says
that all of these are in a set `N`, and then the errors of the plan are, for every sharding, retry
and schedule.
-/

namespace TikvClient

open Proto

variable {R Shard Resp α : Type}

/-- If it is an error, it is one of `N`. -/
def FailsIn (N : Error → Prop) (res : Except Error α) : Prop := ∀ e, res = .error e → N e

variable {N : Error → Prop}

lemma failsIn_ok (a : α) : FailsIn N (.ok a) := fun _ h => by cases h

lemma failsIn_error {e : Error} (he : N e) :
    FailsIn N (.error e : Except Error α) :=
  fun _ h => by cases h; exact he

variable {C : Call → Prop} {A : Answers} {results : ShardResults R Resp}

/-- Cutting items along the regions fails with the errors of the lookups. -/
lemma sat_regionStreamForKeys_errors {ι : Type} (hC : ∀ key, C (.regionForKey key))
    (hA : ∀ key ans, A (.regionForKey key) ans → FailsIn N ans) (keyOf : ι → Key) (items : List ι) :
    (regionStreamForKeys keyOf items).Sat C A (FailsIn N) := by
  refine (sat_regionStreamForKeys hC keyOf items).post fun res hres e he => ?_
  obtain ⟨k, hk⟩ := hres.2 e he
  exact hA k _ hk e rfl

lemma sat_regionStreamForRange_errors (hC : ∀ key, C (.regionForKey key))
    (hA : ∀ key ans, A (.regionForKey key) ans → FailsIn N ans) (fuel : ℕ) (range : Key × Key) :
    (regionStreamForRange fuel range).Sat C A (FailsIn N) := by
  have hwalk : ∀ endKey fuel key, (regionsFrom endKey fuel key).Sat C A (FailsIn N) := by
    intro endKey fuel
    induction fuel with
    | zero => exact fun _ => Prog.sat_stuck
    | succ fuel ih =>
      intro key
      refine Prog.Sat.andThen (Async.sat_regionForKey (hC key)) (fun region _ => ?_)
        fun e he => failsIn_error (hA key _ he e rfl)
      split_ifs
      · exact failsIn_ok _
      · exact Prog.Sat.andThen (ih _) (fun _ _ => failsIn_ok _)
          fun e he => failsIn_error (he e rfl)
  exact Prog.Sat.andThen (hwalk _ _ _) (fun _ _ => failsIn_ok _)
    fun e he => failsIn_error (he e rfl)

lemma failsIn_collectError
    (h : ∀ e, .error e ∈ results → N e) : FailsIn N (collectError results) := by
  induction results with
  | nil => exact failsIn_ok _
  | cons result rest ih =>
    obtain ⟨hhead, hrest⟩ : (∀ e, result = .error e → N e) ∧ ∀ e, .error e ∈ rest → N e :=
      ⟨fun e he => h e (he ▸ List.mem_cons_self), fun e he => h e (List.mem_cons_of_mem _ he)⟩
    cases result with
    | error e => exact failsIn_error (hhead e rfl)
    | ok x =>
      have hmerged := ih hrest
      rw [collectError]
      cases hc : collectError rest with
      | ok xs => exact failsIn_ok _
      | error e => exact failsIn_error (hmerged e hc)

/-- The error of a single result is one of the results', or it says that there is more than one. -/
lemma failsIn_collectSingle
    (h : ∀ e, .error e ∈ results → N e) (hinternal : ∀ msg, N (.internalError msg)) :
    FailsIn N (collectSingle results) := by
  unfold collectSingle
  split
  · exact fun e he => h e (he ▸ List.mem_singleton_self _)
  · exact failsIn_error (hinternal _)

namespace ShardedPlan

/-- The errors of an execution, and those its response reports, are in `N`. -/
def Reports (plan : ShardedPlan R Shard Resp) (N : Error → Prop) (res : Except Error Resp) : Prop :=
  FailsIn N res ∧ ∀ resp es, res = .ok resp → plan.keyErrors resp = some es →
    N (.multipleKeyErrors es)

/-- **The errors of the parts of a plan are in `N`.** -/
structure FailsWith (plan : ShardedPlan R Shard Resp) (C : Call → Prop)
    (A : Answers) (N : Error → Prop) : Prop where
  shards : ∀ r, (plan.shards r).Sat C A (FailsIn N)
  execute : ∀ region r, (plan.execute region r).Sat C A (plan.Reports N)
  routing : Routing C
  mapRegionToStore : ∀ region ans, A (.mapRegionToStore region) ans → FailsIn N ans
  updateLeader : ∀ verId leader ans, A (.updateLeader verId leader) ans → FailsIn N ans
  leaderNotFound : ∀ verId, N (.leaderNotFound verId)
  regionError : ∀ e, N (.regionError e)

/-- The errors of a result, and of the shards it has, are in `N`. -/
def ErrorsIn (N : Error → Prop) (res : Except Error (ShardResults R Resp)) : Prop :=
  FailsIn N res ∧ ∀ results, res = .ok results → ∀ e, .error e ∈ results → N e

variable {plan : ShardedPlan R Shard Resp} {C : Call → Prop} {A : Answers}
  {N : Error → Prop} {retry : Retry R Resp}
  {e : Error}

lemma errorsIn_error (he : N e) :
    ErrorsIn N (.error e : Except Error (ShardResults R Resp)) :=
  ⟨failsIn_error he, fun _ h => by cases h⟩

lemma errorsIn_ok {results : ShardResults R Resp} (h : ∀ e, .error e ∈ results → N e) :
    ErrorsIn N (.ok results) :=
  ⟨failsIn_ok _, fun _ heq => by cases heq; exact h⟩

lemma sat_handleOtherError_errors (hretry : ∀ r b a, (retry r b a).Sat C A (ErrorsIn N)) (r : R)
    (backoff : Backoff) (attempt : ℕ) (he : N e) :
    (handleOtherError retry r backoff attempt e).Sat C A (ErrorsIn N) := by
  unfold handleOtherError
  split
  · exact hretry _ _ _
  · exact errorsIn_error he

namespace FailsWith

variable (hp : plan.FailsWith C A N)

include hp

lemma sat_handleRegionError (e : RegionError) (region : Region) :
    (handleRegionError e region).Sat C A (FailsIn N) := by
  unfold handleRegionError
  split
  case h_1 leader =>
    exact Prog.Sat.andThen (Async.sat_updateLeader (hp.routing.updateLeader _ _))
      (fun _ _ => failsIn_ok _) fun e he => failsIn_error (hp.updateLeader _ _ _ he e rfl)
  case h_13 => exact failsIn_error (hp.regionError _)
  all_goals exact failsIn_ok _

lemma sat_handleResponse (hretry : ∀ r b a, (retry r b a).Sat C A (ErrorsIn N)) (r : R)
    (region : Region) (backoff : Backoff) (attempt : ℕ) {resp : Resp}
    (hresp : plan.Reports N (.ok resp)) :
    (plan.handleResponse retry r region backoff attempt resp).Sat C A (ErrorsIn N) := by
  unfold handleResponse
  split
  next es hkey =>
    refine errorsIn_ok fun e he => ?_
    cases List.mem_singleton.mp he
    exact hresp.2 resp es rfl hkey
  · refine errorsIn_ok fun e he => ?_
    cases List.mem_singleton.mp he
  · refine Prog.Sat.andThen (hp.sat_handleRegionError _ _) (fun resolved _ => ?_)
      fun e he => errorsIn_error (he e rfl)
    split_ifs
    · exact hretry _ _ _
    · split
      · exact hretry _ _ _
      · exact errorsIn_error (hp.regionError _)

lemma sat_singleShardHandler (hretry : ∀ r b a, (retry r b a).Sat C A (ErrorsIn N)) (r : R)
    (region : Region) (backoff : Backoff) (attempt : ℕ) :
    (plan.singleShardHandler retry r region backoff attempt).Sat C A (ErrorsIn N) := by
  unfold singleShardHandler
  split
  · exact sat_handleOtherError_errors hretry _ _ _ (hp.leaderNotFound _)
  · refine (Async.sat_mapRegionToStore (hp.routing.mapRegionToStore _)).bind
      fun mapped hmapped => ?_
    split
    · exact sat_handleOtherError_errors hretry _ _ _ (hp.leaderNotFound _)
    · exact errorsIn_error (hp.mapRegionToStore _ _ hmapped _ rfl)
    · refine (hp.execute _ _).bind fun res hres => ?_
      cases res with
      | error e =>
        dsimp only
        split_ifs
        · exact sat_handleOtherError_errors hretry _ _ _ (hres.1 e rfl)
        · exact errorsIn_error (hres.1 e rfl)
      | ok resp => exact hp.sat_handleResponse hretry _ _ _ _ hres

/-- **The errors of a plan are those of its parts.** -/
theorem sat_singlePlanHandler (preserve : Bool) (fuel : ℕ) :
    ∀ r backoff attempt,
      (plan.singlePlanHandler preserve fuel r backoff attempt).Sat C A (ErrorsIn N) := by
  induction fuel with
  | zero => exact fun _ _ _ => Prog.sat_stuck
  | succ fuel ih =>
    intro r backoff attempt
    refine Prog.Sat.andThen (hp.shards r) (fun ss _ => ?_) fun e he => errorsIn_error (he e rfl)
    have hjoin := @Prog.Sat.join sig _ _ _ C A (onShardError preserve)
      (fun _ : Shard × Region => (ErrorsIn N : Except Error (ShardResults R Resp) → Prop)) fuel
      (ss.map fun s => (s, plan.singleShardHandler (plan.singlePlanHandler preserve fuel)
        (plan.applyShard r s.1) s.2 backoff attempt)) [] ?_
    · rw [List.map_map, List.map_map] at hjoin
      refine Prog.Sat.post hjoin fun res hres => ?_
      rcases hres with ⟨_, -, e, rfl, he, -⟩ | ⟨done, -, hdone, l, rfl, hl⟩
      · exact errorsIn_error (he.1 e rfl)
      · refine errorsIn_ok fun e he => ?_
        rw [List.nil_append] at hl
        obtain ⟨d, hd, hmem⟩ := List.mem_flatMap.mp (hl.mem_iff.mp he)
        obtain ⟨herrors, habsorbed⟩ := hdone d hd
        cases hres : d.2 with
        | ok results =>
          rw [hres] at hmem herrors
          exact herrors.2 results rfl e hmem
        | error e' =>
          rw [hres] at hmem herrors habsorbed
          cases preserve with
          | false => exact absurd rfl habsorbed
          | true =>
            cases List.mem_singleton.mp hmem
            exact herrors.1 e rfl
    · intro j hj
      obtain ⟨s, -, rfl⟩ := List.mem_map.mp hj
      exact hp.sat_singleShardHandler ih _ _ _ _

end FailsWith

/-- **A plan that preserves the errors of its shards only fails if its request cannot be cut.** -/
theorem sat_retryMultiRegion_preserved {plan : ShardedPlan R Shard Resp} {r : R}
    (hshards : (plan.shards r).Sat (fun _ => True) A (FailsIn N)) (fuel : ℕ) (backoff : Backoff) :
    (plan.retryMultiRegion true fuel r backoff).Sat (fun _ => True) A (FailsIn N) := by
  unfold retryMultiRegion
  cases fuel with
  | zero => exact Prog.sat_stuck
  | succ fuel =>
    refine Prog.Sat.andThen hshards (fun ss _ => ?_) fun e he => failsIn_error (he e rfl)
    have hjoin := @Prog.Sat.join sig _ _ _ (fun _ => True) A (onShardError true)
      (fun (_ : Shard × Region) (_ : Except Error (ShardResults R Resp)) => True) fuel
      (ss.map fun s => (s, plan.singleShardHandler (plan.singlePlanHandler true fuel)
        (plan.applyShard r s.1) s.2 backoff 0)) [] fun j _ => Prog.sat_true j.2
    rw [List.map_map, List.map_map] at hjoin
    refine Prog.Sat.post hjoin fun res hres => ?_
    rcases hres with ⟨_, -, e, rfl, -, habort⟩ | ⟨_, -, -, l, rfl, -⟩
    · cases habort
    · exact failsIn_ok l

end ShardedPlan

end TikvClient
