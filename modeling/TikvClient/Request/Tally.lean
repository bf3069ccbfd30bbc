import TikvClient.Core.Matched
import TikvClient.Request.Routed

/-!
# Accounting for the shards of a plan

The handlers re-shard a request any number of times, concurrently and with any answers from regions
and stores.  `Accounts` is the rule for whatever is to be said of the results of a plan: those of
the shards of a request, put together, have to account for the request, as do a response without
errors and an error by themselves.

**Leaves.**  Mostly one speaks of the *leaves* of a plan — the requests that were answered without
errors, with their responses.  In a `Tally`, `Good full r L` says that `L` accounts for the request
`r`: for all of it if `full`, and else for the part that was answered.

**The rules.**  `Accounts.sat_retryMultiRegionRouted` and `Tally.sat_retryMultiRegionRouted`: for
every routing, sharding, retry and schedule, every request executed is at its region, and the
results of a plan that returns account for its request; its leaves for all of it if there is no
error among the results.
-/

namespace TikvClient

open Proto

variable {R Shard Resp : Type}

/-- The leaves of a list of results: the requests that were answered, with their responses. -/
def okLeaves (results : ShardResults R Resp) : List (R × Resp) :=
  results.filterMap fun
    | .ok x => some x
    | .error _ => none

/-- All results are responses. -/
def AllOk (results : ShardResults R Resp) : Prop :=
  ∀ e, (.error e : Except Error (R × Resp)) ∉ results

@[simp] lemma okLeaves_nil : okLeaves ([] : ShardResults R Resp) = [] := rfl

@[simp] lemma okLeaves_cons_ok (x : R × Resp) (rs : ShardResults R Resp) :
    okLeaves (.ok x :: rs) = x :: okLeaves rs := rfl

variable {results : ShardResults R Resp}

lemma mem_okLeaves {x : R × Resp} :
    x ∈ okLeaves results ↔ .ok x ∈ results := by
  rw [okLeaves, List.mem_filterMap]
  constructor
  · rintro ⟨r, hr, hx⟩
    cases r with
    | ok y =>
      cases hx
      exact hr
    | error e => cases hx
  · exact fun h => ⟨.ok x, h, rfl⟩

/-- Merging succeeds exactly on lists without an error, and then returns the leaves. -/
lemma collectError_eq_ok_iff {xs : List (R × Resp)} :
    collectError results = .ok xs ↔ AllOk results ∧ xs = okLeaves results := by
  induction results generalizing xs with
  | nil =>
    simp only [collectError, Except.ok.injEq, okLeaves_nil]
    exact ⟨fun h => ⟨fun e he => absurd he List.not_mem_nil, h.symm⟩, fun h => h.2.symm⟩
  | cons r rs ih =>
    cases r with
    | error e =>
      simp only [collectError, reduceCtorEq, false_iff]
      exact fun h => h.1 e List.mem_cons_self
    | ok x =>
      have hall : AllOk (.ok x :: rs) ↔ AllOk rs := by simp [AllOk]
      rw [hall, okLeaves_cons_ok, collectError]
      cases hrs : collectError rs with
      | ok ys =>
        obtain ⟨hok, rfl⟩ := ih.mp hrs
        simp only [Except.ok.injEq]
        exact ⟨fun h => ⟨hok, h.symm⟩, fun h => h.2.symm⟩
      | error e =>
        simp only [reduceCtorEq, false_iff]
        rintro ⟨hok, -⟩
        have := ih.mpr ⟨hok, rfl⟩
        rw [hrs] at this
        cases this

lemma extractError_eq_ok_iff {xs : List (R × Resp)} :
    extractError results = .ok xs ↔ AllOk results ∧ xs = okLeaves results := by
  rw [← collectError_eq_ok_iff, extractError]
  cases collectError results <;> simp

lemma okLeaves_flatten (Rs : List (ShardResults R Resp)) :
    okLeaves Rs.flatten = (Rs.map okLeaves).flatten :=
  List.filterMap_flatten

namespace ShardedPlan

/-! ## What the results account for -/

/-- The shards of `r` are requests at their regions that account for it: results that account for
each of them account for `r`, put together. -/
def Divides (plan : ShardedPlan R Shard Resp) (C : Call → Prop) (A : Answers)
    (At : Region → R → Prop) (Inv : R → Prop) (Good : R → ShardResults R Resp → Prop)
    (r : R) : Prop :=
  (plan.shards r).Sat C A fun res => ∀ ss, res = .ok ss →
    (∀ s ∈ ss, At s.2 (plan.applyShard r s.1) ∧ Inv (plan.applyShard r s.1)) ∧
      ∀ Rs, List.Forall₂ (fun s results => Good (plan.applyShard r s.1) results) ss Rs →
        Good r Rs.flatten

/-- **What a plan guarantees of a request on its way to a region.**  `At` says that it may be sent
there, `Inv` that it may be sharded again, and `Done` what a response without errors means. -/
structure Handles (plan : ShardedPlan R Shard Resp) (C : Call → Prop) (A : Answers)
    (At : Region → R → Prop) (Inv : R → Prop) (Done : R → Resp → Prop) : Prop where
  applyStore : ∀ attempt r, Inv r → Inv (plan.applyStore attempt r)
  applyStore_at : ∀ attempt region r, At region r → At region (plan.applyStore attempt r)
  withLeader : ∀ region storeId r, At region r → At (region.withLeader storeId) r
  execute : ∀ region r, At region r → Inv r → (plan.execute region r).Sat C A fun res =>
    ∀ resp, res = .ok resp → plan.keyErrors resp = none → plan.regionError resp = none →
      Done r resp
  mapRegionToStore : ∀ region, C (.mapRegionToStore region)
  updateLeader : ∀ verId leader, C (.updateLeader verId leader)

/-- **What a plan guarantees, shard by shard.**  `Good` says which results account for a
request. -/
structure Accounts (plan : ShardedPlan R Shard Resp) (C : Call → Prop) (A : Answers)
    (At : Region → R → Prop) (Inv : R → Prop) (Done : R → Resp → Prop)
    (Good : R → ShardResults R Resp → Prop) : Prop extends plan.Handles C A At Inv Done where
  shards : ∀ r, Inv r → plan.Divides C A At Inv Good r
  applyStore_good : ∀ attempt r results, Inv r → Good (plan.applyStore attempt r) results →
    Good r results
  leaf : ∀ r resp, Inv r → Done r resp → Good r [.ok (r, resp)]
  error : ∀ r e, Inv r → Good r [.error e]
  perm : ∀ r results results', results.Perm results' → Good r results → Good r results'

/-- The postcondition of a handler. -/
abbrev Accounted (Good : R → ShardResults R Resp → Prop) (r : R)
    (res : Except Error (ShardResults R Resp)) : Prop :=
  ∀ results, res = .ok results → Good r results

section Rule

variable {plan : ShardedPlan R Shard Resp} {C : Call → Prop} {A : Answers}
  {At : Region → R → Prop} {Inv : R → Prop} {Done : R → Resp → Prop}
  {Good : R → ShardResults R Resp → Prop} {policy : RoutingPolicy} {retry : Retry R Resp}

lemma sat_handleRegionError (hC : ∀ verId leader, C (.updateLeader verId leader))
    (e : RegionError) (region : Region) :
    (handleRegionError e region).Sat C A fun _ => True := by
  unfold handleRegionError
  split
  case h_1 =>
    exact Prog.Sat.andThen (Async.sat_updateLeader (hC _ _)) (fun _ _ => trivial) fun _ _ => trivial
  all_goals exact trivial

lemma sat_choose {α : Type} (a : α) (as : List α) :
    (Prog.choose a as : Async α).Sat C A fun _ => True := by
  cases as with
  | nil => trivial
  | cons b bs => exact fun _ => trivial

lemma sat_takePendingBackoff (policy : RoutingPolicy) :
    policy.takePendingBackoff.Sat C A fun _ => True := by
  unfold RoutingPolicy.takePendingBackoff
  split_ifs
  · exact sat_choose false [true]
  · trivial

lemma accounted_error (r : R) (e : Error) :
    Accounted Good r (.error e : Except Error (ShardResults R Resp)) :=
  fun _ h => by cases h

namespace Accounts

variable (hp : plan.Accounts C A At Inv Done Good)

section Retries

variable (hretry : ∀ r b a, Inv r → (retry r b a).Sat C A (Accounted Good r))

include hretry

lemma sat_handleOtherError (r : R) (backoff : Backoff) (attempt : ℕ) (e : Error) (hr : Inv r) :
    (handleOtherError retry r backoff attempt e).Sat C A (Accounted Good r) := by
  unfold handleOtherError
  split
  · exact hretry _ _ _ hr
  · exact accounted_error r e

include hp

lemma sat_handleRoutedResponse (r : R) (region : Region) (staleRead : Bool) (backoff : Backoff)
    (attempt : ℕ) (resp : Resp) (hr : Inv r)
    (hdone : plan.keyErrors resp = none → plan.regionError resp = none → Done r resp) :
    (plan.handleRoutedResponse policy retry r region staleRead backoff attempt resp).Sat C A
      (Accounted Good r) := by
  unfold handleRoutedResponse
  split
  · -- Key errors end the shard with an error among the results.
    rintro results h
    cases h
    exact hp.error r _ hr
  next hkey hregion =>
    rintro results h
    cases h
    exact hp.leaf r resp hr (hdone hkey hregion)
  next e _ _ =>
    split
    · split
      · exact accounted_error r _
      · exact hretry _ _ _ hr
    split
    · split
      · exact accounted_error r _
      · exact hretry _ _ _ hr
    refine Prog.Sat.andThen (sat_handleRegionError hp.updateLeader _ _) (fun resolved _ => ?_)
      fun e _ => accounted_error r e
    split_ifs
    · exact hretry _ _ _ hr
    · exact hretry _ _ _ hr
    · split
      · exact hretry _ _ _ hr
      · exact accounted_error r _

lemma sat_routedShardHandler (r : R) (region : Region) (backoff : Backoff) (attempt : ℕ)
    (hat : At region r) (hr : Inv r) :
    (plan.routedShardHandler policy retry r region backoff attempt).Sat C A
      (Accounted Good r) := by
  unfold routedShardHandler
  split
  · exact sat_handleOtherError hretry _ _ _ _ hr
  next candidate candidates _ =>
  refine (sat_choose candidate candidates).bind fun peer _ => ?_
  refine (Async.sat_mapRegionToStore (hp.mapRegionToStore _)).bind fun mapped _ => ?_
  split
  · exact sat_handleOtherError hretry _ _ _ _ hr
  · exact accounted_error r _
  -- Applying the store leaves what accounts for the request as it is.
  have hback : ∀ res, Accounted Good (plan.applyStore attempt r) res → Accounted Good r res :=
    fun res h results hres => hp.applyStore_good attempt r _ hr (h results hres)
  have hinv := hp.applyStore attempt r hr
  have hat' := hp.withLeader region peer.storeId _ (hp.applyStore_at attempt region r hat)
  refine (sat_takePendingBackoff policy).bind fun pending _ => ?_
  split
  · exact accounted_error r _
  next backoff _ =>
  refine Prog.Sat.bind (hp.execute _ _ hat' hinv) fun res hres => ?_
  refine Prog.Sat.post ?_ hback
  cases res with
  | error e =>
    dsimp only
    split_ifs
    · exact sat_handleOtherError hretry _ _ _ _ hinv
    · exact accounted_error _ e
  | ok resp => exact hp.sat_handleRoutedResponse hretry _ _ _ _ _ _ hinv (hres resp rfl)

end Retries

variable {preserve : Bool} {r : R}

include hp

/-- What a shard that did not abort the plan contributes accounts for it. -/
lemma of_contribution {res : Except Error (ShardResults R Resp)} (hr : Inv r)
    (h : Accounted Good r res) (habs : Prog.Absorbed (onShardError preserve) res) :
    Good r (Prog.contribution (onShardError preserve) res) := by
  cases res with
  | ok results => exact h results rfl
  | error e =>
    -- A failed shard is only absorbed when results are preserved, as an error entry.
    have hsome : (onShardError preserve e : Option (ShardResults R Resp)) = some [.error e] := by
      cases preserve with
      | false => exact absurd rfl habs
      | true => rfl
    rw [Prog.contribution, hsome]
    exact hp.error r e hr

/-- Joining the shards of a request joins their results. -/
lemma of_join {ss : List (Shard × Region)} {res : Except Error (ShardResults R Resp)}
    (hinv : ∀ s ∈ ss, Inv (plan.applyShard r s.1))
    (hgood : ∀ Rs, List.Forall₂ (fun s results => Good (plan.applyShard r s.1) results) ss Rs →
      Good r Rs.flatten) (h : Prog.JoinPost (onShardError preserve)
      (fun s => Accounted Good (plan.applyShard r s.1)) ss [] res) :
    Accounted Good r res := by
  rintro results rfl
  rcases h with ⟨i, -, e, he, -⟩ | ⟨done, hlabels, hdone, l, hl, hresults⟩
  · cases he
  cases hl
  rw [List.nil_append] at hresults
  -- The results in the order of the shards.
  obtain ⟨done', hperm, rfl⟩ := Matched.exists_perm_map_eq hlabels
  have hflatten : results.Perm
      (done'.map fun d => Prog.contribution (onShardError preserve) d.2).flatten :=
    hresults.trans (hperm.symm.flatMap_right _)
  refine hp.perm r _ _ hflatten.symm (hgood _ (List.forall₂_map_left_iff.mpr ?_))
  refine List.forall₂_map_right_iff.mpr (List.forall₂_same.mpr fun d hd => ?_)
  obtain ⟨hd₁, hd₂⟩ := hdone d (hperm.mem_iff.mp hd)
  exact hp.of_contribution (hinv d.1 (List.mem_map_of_mem hd)) hd₁ hd₂

/-- One level of the recursion: the shards are joined. -/
lemma sat_routedPlanHandler_succ {fuel : ℕ}
    (hretry : ∀ r b a, Inv r →
      (plan.routedPlanHandler policy preserve fuel r b a).Sat C A (Accounted Good r))
    (hr : plan.Divides C A At Inv Good r) (backoff : Backoff) (attempt : ℕ) :
    (plan.routedPlanHandler policy preserve (fuel + 1) r backoff attempt).Sat C A
      (Accounted Good r) := by
  refine Prog.Sat.andThen hr (fun ss hss => ?_) fun e _ => accounted_error r e
  obtain ⟨hat, hgood⟩ := hss ss rfl
  have hjoin := @Prog.Sat.join sig _ _ _ C A (onShardError preserve)
    (fun s => Accounted Good (plan.applyShard r s.1)) fuel
    (ss.map fun s => (s, plan.routedShardHandler policy
      (plan.routedPlanHandler policy preserve fuel)
      (plan.applyShard r s.1) s.2 backoff attempt)) [] ?_
  · rw [List.map_map, List.map_map] at hjoin
    refine Prog.Sat.post hjoin fun res hres => ?_
    refine hp.of_join (fun s hs => (hat s hs).2) hgood (hres.of_perm ?_)
    simp [Function.comp_def]
  · intro j hj
    obtain ⟨s, hs, rfl⟩ := List.mem_map.mp hj
    exact hp.sat_routedShardHandler hretry _ _ _ _ (hat s hs).1 (hat s hs).2

/-- **The results of a plan account for its request**, for every routing, sharding, retry and
schedule. -/
theorem sat_routedPlanHandler (policy : RoutingPolicy) (preserve : Bool) (fuel : ℕ) :
    ∀ r backoff attempt, Inv r →
      (plan.routedPlanHandler policy preserve fuel r backoff attempt).Sat C A
        (Accounted Good r) := by
  -- Induction on the fuel: a retry is a plan with one unit less.
  induction fuel with
  | zero => exact fun _ _ _ _ => Prog.sat_stuck
  | succ fuel ih =>
    exact fun r backoff attempt hr =>
      hp.sat_routedPlanHandler_succ ih (hp.shards r hr) backoff attempt

/-- The request a plan starts from is only cut, never sent: it need not satisfy `Inv`. -/
theorem sat_retryMultiRegionRouted (policy : RoutingPolicy) (preserve : Bool) (fuel : ℕ)
    (backoff : Backoff) (hr : plan.Divides C A At Inv Good r) :
    (plan.retryMultiRegionRouted policy preserve fuel r backoff).Sat C A (Accounted Good r) := by
  unfold retryMultiRegionRouted
  cases fuel with
  | zero => exact Prog.sat_stuck
  | succ fuel =>
    exact hp.sat_routedPlanHandler_succ (hp.sat_routedPlanHandler policy preserve fuel) hr
      backoff 0

theorem sat_retryMultiRegion (preserve : Bool) (fuel : ℕ) (backoff : Backoff)
    (hr : plan.Divides C A At Inv Good r) :
    (plan.retryMultiRegion preserve fuel r backoff).Sat C A (Accounted Good r) := by
  have hsat := hp.sat_retryMultiRegionRouted .leaderOnly preserve fuel backoff hr
  rwa [retryMultiRegionRouted, routedPlanHandler_leaderOnly] at hsat

end Accounts

/-- The calls of a plan are those of sharding, sending and routing. -/
theorem sat_retryMultiRegion_calls (hC : Routing C)
    (hshards : ∀ r, (plan.shards r).Sat C A fun _ => True)
    (hexec : ∀ region r, (plan.execute region r).Sat C A fun _ => True) (preserve : Bool)
    (fuel : ℕ) (r : R) (backoff : Backoff) :
    (plan.retryMultiRegion preserve fuel r backoff).Sat C A fun _ => True := by
  have hdivides : ∀ r, plan.Divides C A (fun _ _ => True) (fun _ => True) (fun _ _ => True) r :=
    fun r => (hshards r).post fun _ _ _ _ => ⟨fun _ _ => ⟨trivial, trivial⟩, fun _ _ => trivial⟩
  have haccounts : plan.Accounts C A (fun _ _ => True) (fun _ => True) (fun _ _ => True)
      (fun _ _ => True) :=
    { shards := fun r _ => hdivides r
      applyStore := fun _ _ _ => trivial
      applyStore_at := fun _ _ _ _ => trivial
      applyStore_good := fun _ _ _ _ _ => trivial
      withLeader := fun _ _ _ _ => trivial
      execute := fun region r _ _ => (hexec region r).post fun _ _ _ _ _ _ => trivial
      leaf := fun _ _ _ _ => trivial
      error := fun _ _ _ => trivial
      perm := fun _ _ _ _ _ => trivial
      mapRegionToStore := hC.mapRegionToStore
      updateLeader := hC.updateLeader }
  exact (haccounts.sat_retryMultiRegion preserve fuel backoff (hdivides r)).post fun _ _ => trivial

end Rule

/-! ## What the leaves account for -/

/-- The shards of `r` are requests at their regions that account for it: what accounts for each of
them accounts for `r`, put together. -/
def SharesOut (plan : ShardedPlan R Shard Resp) (C : Call → Prop) (A : Answers)
    (At : Region → R → Prop) (Inv : R → Prop) (Good : Bool → R → List (R × Resp) → Prop)
    (r : R) : Prop :=
  (plan.shards r).Sat C A fun res => ∀ ss, res = .ok ss →
    (∀ s ∈ ss, At s.2 (plan.applyShard r s.1) ∧ Inv (plan.applyShard r s.1)) ∧
      ∀ full Ls, List.Forall₂ (fun s L => Good full (plan.applyShard r s.1) L) ss Ls →
        Good full r Ls.flatten

/-- **What a plan guarantees of its leaves, shard by shard.** -/
structure Tally (plan : ShardedPlan R Shard Resp) (C : Call → Prop) (A : Answers)
    (At : Region → R → Prop) (Inv : R → Prop) (Done : R → Resp → Prop)
    (Good : Bool → R → List (R × Resp) → Prop) : Prop extends plan.Handles C A At Inv Done where
  shards : ∀ r, Inv r → plan.SharesOut C A At Inv Good r
  applyStore_good : ∀ attempt full r L, Inv r → Good full (plan.applyStore attempt r) L →
    Good full r L
  leaf : ∀ full r resp, Inv r → Done r resp → Good full r [(r, resp)]
  nil : ∀ r, Good false r []
  perm : ∀ full r L L', L.Perm L' → Good full r L → Good full r L'

/-- The leaves account for the request, for all of it if there is no error. -/
def GoodLeaves (Good : Bool → R → List (R × Resp) → Prop) (r : R)
    (results : ShardResults R Resp) : Prop :=
  Good false r (okLeaves results) ∧ (AllOk results → Good true r (okLeaves results))

/-- The postcondition of a handler: the leaves account for the request. -/
abbrev Tallied (Good : Bool → R → List (R × Resp) → Prop) (r : R)
    (res : Except Error (ShardResults R Resp)) : Prop :=
  Accounted (GoodLeaves Good) r res

section Leaves

variable {plan : ShardedPlan R Shard Resp} {C : Call → Prop} {A : Answers}
  {At : Region → R → Prop} {Inv : R → Prop} {Done : R → Resp → Prop}
  {Good : Bool → R → List (R × Resp) → Prop}

lemma SharesOut.divides {r : R} (h : plan.SharesOut C A At Inv Good r) :
    plan.Divides C A At Inv (GoodLeaves Good) r := by
  refine Prog.Sat.post h fun res hres ss hss => ?_
  obtain ⟨hat, hgood⟩ := hres ss hss
  have hshards : ∀ full Rs, List.Forall₂ (fun s results =>
      Good full (plan.applyShard r s.1) (okLeaves results)) ss Rs →
        Good full r (okLeaves Rs.flatten) := by
    intro full Rs hRs
    rw [okLeaves_flatten]
    exact hgood full _ (List.forall₂_map_right_iff.mpr hRs)
  refine ⟨hat, fun Rs hRs => ⟨hshards false Rs (hRs.imp fun _ _ h => h.1), fun hok => ?_⟩⟩
  refine hshards true Rs (Matched.imp_of_mem hRs fun s results _ hresults h => h.2 fun e he => ?_)
  exact hok e (List.mem_flatten_of_mem hresults he)

lemma Tally.accounts (hp : plan.Tally C A At Inv Done Good) :
    plan.Accounts C A At Inv Done (GoodLeaves Good) where
  toHandles := hp.toHandles
  shards r hr := (hp.shards r hr).divides
  applyStore_good attempt r results hr h :=
    ⟨hp.applyStore_good attempt false r _ hr h.1,
      fun hok => hp.applyStore_good attempt true r _ hr (h.2 hok)⟩
  leaf r resp hr hdone := ⟨hp.leaf false r resp hr hdone, fun _ => hp.leaf true r resp hr hdone⟩
  error r e _ := ⟨hp.nil r, fun hok => absurd List.mem_cons_self (hok e)⟩
  perm r results results' hperm h := by
    refine ⟨hp.perm false r _ _ (hperm.filterMap _) h.1, fun hok => ?_⟩
    refine hp.perm true r _ _ (hperm.filterMap _) (h.2 fun e he => ?_)
    exact hok e (hperm.mem_iff.mp he)

/-- **The leaves of a plan account for its request**, for every routing, sharding, retry and
schedule. -/
theorem Tally.sat_routedPlanHandler (hp : plan.Tally C A At Inv Done Good) (policy : RoutingPolicy)
    (preserve : Bool) (fuel : ℕ) :
    ∀ r backoff attempt, Inv r →
      (plan.routedPlanHandler policy preserve fuel r backoff attempt).Sat C A
        (Tallied Good r) :=
  hp.accounts.sat_routedPlanHandler policy preserve fuel

theorem Tally.sat_retryMultiRegionRouted (hp : plan.Tally C A At Inv Done Good)
    (policy : RoutingPolicy) (preserve : Bool) (fuel : ℕ) {r : R} (backoff : Backoff)
    (hr : plan.SharesOut C A At Inv Good r) :
    (plan.retryMultiRegionRouted policy preserve fuel r backoff).Sat C A (Tallied Good r) :=
  hp.accounts.sat_retryMultiRegionRouted policy preserve fuel backoff hr.divides

end Leaves

end ShardedPlan

end TikvClient
