import TikvClient.Request.Tally

/-!
# What a sharded plan does with its request

The handlers re-shard a request any number of times, concurrently and with any answers from
regions and stores.  `Covering` collects what a plan must guarantee shard by shard, and
`Covering.sat_singlePlanHandler` is the result for the whole recursion:

* every request executed satisfies an invariant `Inv` that sharding keeps;
* the requests that responses answer — the *leaves* — were executed successfully and have items of
  the request it started from, each once; all of them if the plan succeeds, unless its shards may
  leave some out (`whole`).
-/

namespace TikvClient

variable {R Shard Resp I : Type}

namespace ShardedPlan

/-- The shards of a request satisfy `Inv` and share out its items, all of them if `whole`. -/
def ShardsInto (plan : ShardedPlan R Shard Resp) (C : Call → Prop) (A : Answers)
    (items : R → List I) (Inv : R → Prop) (whole : Prop) (r : R) : Prop :=
  (plan.shards r).Sat C A fun res => ∀ ss, res = .ok ss →
    (∀ s ∈ ss, Inv (plan.applyShard r s.1)) ∧
      PartOf whole (ss.flatMap fun s => items (plan.applyShard r s.1)) (items r)

/-- **What a plan guarantees shard by shard.**  `items` are the pieces of work of a request,
`Inv` an invariant of the requests, `Done` what a response without errors means; `whole` says that
no piece is left out. -/
structure Covering (plan : ShardedPlan R Shard Resp) (C : Call → Prop) (A : Answers)
    (items : R → List I) (Inv : R → Prop) (Done : R → Resp → Prop) (whole : Prop) : Prop where
  shards : ∀ r, Inv r → plan.ShardsInto C A items Inv whole r
  applyStore : ∀ attempt r, Inv r →
    Inv (plan.applyStore attempt r) ∧ items (plan.applyStore attempt r) = items r
  execute : ∀ region r, Inv r → (plan.execute region r).Sat C A fun res => ∀ resp,
    res = .ok resp → plan.keyErrors resp = none → plan.regionError resp = none → Done r resp
  mapRegionToStore : ∀ region, C (.mapRegionToStore region)
  updateLeader : ∀ verId leader, C (.updateLeader verId leader)

/-- The leaves of a plan: done, and together items of the request — all of them, if the plan
succeeds and leaves none out. -/
structure Leaves (items : R → List I) (Inv : R → Prop) (Done : R → Resp → Prop) (whole : Prop)
    (r : R) (results : ShardResults R Resp) : Prop where
  done : ∀ x ∈ okLeaves results, Inv x.1 ∧ Done x.1 x.2
  part : PartOf (AllOk results ∧ whole) ((okLeaves results).flatMap fun x => items x.1) (items r)

/-- The postcondition of a handler. -/
abbrev LeavesOf (items : R → List I) (Inv : R → Prop) (Done : R → Resp → Prop) (whole : Prop)
    (r : R) (res : Except Error (ShardResults R Resp)) : Prop :=
  ∀ results, res = .ok results → Leaves items Inv Done whole r results

section Rule

variable {plan : ShardedPlan R Shard Resp} {C : Call → Prop} {A : Answers}
  {items : R → List I} {Inv : R → Prop} {Done : R → Resp → Prop} {whole : Prop}

/-- The leaves are done and, if none is missing, are all the items. -/
def ItemsOf (items : R → List I) (Inv : R → Prop) (Done : R → Resp → Prop) (whole : Prop)
    (full : Bool) (r : R) (L : List (R × Resp)) : Prop :=
  (∀ x ∈ L, Inv x.1 ∧ Done x.1 x.2) ∧
    PartOf (full = true ∧ whole) (L.flatMap fun x => items x.1) (items r)

lemma leavesOf_of_tallied {r : R} {res : Except Error (ShardResults R Resp)}
    (h : Tallied (ItemsOf items Inv Done whole) r res) : LeavesOf items Inv Done whole r res :=
  fun results hres => ⟨(h results hres).1.1, (h results hres).1.2.subperm,
    fun hall => ((h results hres).2 hall.1).2.perm ⟨rfl, hall.2⟩⟩

lemma ShardsInto.sharesOut {r : R} (h : plan.ShardsInto C A items Inv whole r) :
    plan.SharesOut C A (fun _ => Inv) Inv (ItemsOf items Inv Done whole) r := by
  refine Prog.Sat.post h fun res hres ss hss => ?_
  obtain ⟨hinv, hpart⟩ := hres ss hss
  refine ⟨fun s hs => ⟨hinv s hs, hinv s hs⟩, fun full Ls hLs => ⟨fun x hx => ?_, ?_⟩⟩
  · obtain ⟨L, hL, hx⟩ := List.mem_flatten.mp hx
    obtain ⟨s, -, hgood⟩ := Matched.exists_left hLs hL
    exact hgood.1 x hx
  · exact (PartOf.flatMap (hLs.imp fun _ _ hgood => hgood.2)).trans (hpart.imp And.right)

lemma Covering.tally (hp : plan.Covering C A items Inv Done whole) :
    plan.Tally C A (fun _ => Inv) Inv Done (ItemsOf items Inv Done whole) where
  shards r hr := ShardsInto.sharesOut (hp.shards r hr)
  applyStore attempt r hr := (hp.applyStore attempt r hr).1
  applyStore_at attempt _ r hr := (hp.applyStore attempt r hr).1
  applyStore_good attempt full r L hr h := ⟨h.1, (hp.applyStore attempt r hr).2 ▸ h.2⟩
  withLeader _ _ _ hr := hr
  execute region r _ hr := hp.execute region r hr
  leaf full r resp hr hdone := ⟨by simpa using ⟨hr, hdone⟩, .of_perm (by simp)⟩
  nil r := ⟨by simp, List.nil_subperm, fun h => by cases h.1⟩
  perm full r L L' hperm h := ⟨fun x hx => h.1 x (hperm.mem_iff.mpr hx),
    (PartOf.of_perm (hperm.flatMap_right _).symm).trans h.2⟩
  mapRegionToStore := hp.mapRegionToStore
  updateLeader := hp.updateLeader

/-- **The leaves of a plan, for every sharding, retry and schedule.** -/
theorem Covering.sat_singlePlanHandler (hp : plan.Covering C A items Inv Done whole)
    (preserve : Bool) (fuel : ℕ) :
    ∀ r backoff attempt, Inv r →
      (plan.singlePlanHandler preserve fuel r backoff attempt).Sat C A
        (LeavesOf items Inv Done whole r) := by
  intro r backoff attempt hr
  rw [← routedPlanHandler_leaderOnly]
  exact (hp.tally.sat_routedPlanHandler .leaderOnly preserve fuel r backoff attempt hr).post
    fun _ => leavesOf_of_tallied

/-- The request a plan starts from is only cut, never sent: it need not satisfy `Inv`. -/
theorem Covering.sat_retryMultiRegion (hp : plan.Covering C A items Inv Done whole)
    (preserve : Bool) (fuel : ℕ) {r : R} (backoff : Backoff)
    (hr : plan.ShardsInto C A items Inv whole r) :
    (plan.retryMultiRegion preserve fuel r backoff).Sat C A (LeavesOf items Inv Done whole r) := by
  rw [retryMultiRegion, ← routedPlanHandler_leaderOnly]
  exact (hp.tally.sat_retryMultiRegionRouted .leaderOnly preserve fuel backoff hr.sharesOut).post
    fun _ => leavesOf_of_tallied

end Rule

end ShardedPlan

end TikvClient
