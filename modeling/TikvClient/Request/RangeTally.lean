import TikvClient.Request.RangeShard
import TikvClient.Request.Tally

/-!
# Accounting for range requests

A plan over a range of keys is cut along the regions, and again wherever a shard is retried, over
layouts that may have changed.  What an answered shard says about every key of its part of the range
(`P`), a plan without errors says about every key of the range.

**The rule.**  `RangePlan.sat_retryMultiRegion`, an instance of `Tally`: the parts of the range are
not tracked as lists, only the keys in them are.
-/

namespace TikvClient

variable {R Resp : Type}

/-- **A plan that is cut as a range.**  `Inv` is inherited by the shards. -/
structure RangePlan (plan : ShardedPlan R (Key × Key) Resp) (range : R → Key × Key)
    (Inv : R → Prop) (fuel : ℕ) : Prop where
  shards : ∀ r, Inv r → plan.shards r = regionStreamForRange fuel (range r)
  range_applyShard : ∀ r shard, range (plan.applyShard r shard) = shard
  inv_applyShard : ∀ r shard, Inv r → (∀ k, InRange shard k → InRange (range r) k) →
    Inv (plan.applyShard r shard)
  applyStore : ∀ attempt r, plan.applyStore attempt r = r

/-- The range of the request lies in the region. -/
def RangeAt (range : R → Key × Key) (region : Region) (r : R) : Prop :=
  ∀ k, InRange (range r) k → region.contains k = true

/-- What is known of the regions that lookups answer, whoever their leader is. -/
structure Found (A : Answers) (G : Region → Prop) : Prop where
  contains : ∀ k (r : Region), A (.regionForKey k) (.ok r) → r.contains k = true
  known : ∀ k (r : Region), A (.regionForKey k) (.ok r) → G r
  withLeader : ∀ (r : Region) storeId, G r → G (r.withLeader storeId)

/-- Every key of the range of an answered request satisfies `P`. -/
def KeysHold (range : R → Key × Key) (P : Key → Prop) (full : Bool) (r : R)
    (_ : List (R × Resp)) : Prop :=
  full = true → ∀ k, InRange (range r) k → P k

variable {plan : ShardedPlan R (Key × Key) Resp} {range : R → Key × Key} {Inv : R → Prop}
  {fuel : ℕ} {C : Call → Prop} {A : Answers} {P : Key → Prop}
  {G : Region → Prop}

namespace RangePlan

variable (h : RangePlan plan range Inv fuel) (hC : Routing C)

include h hC

lemma sharesOut (hA : Found A G) {r : R} (hr : Inv r) :
    plan.SharesOut C A (fun region r => RangeAt range region r ∧ G region) Inv (KeysHold range P)
      r := by
  unfold ShardedPlan.SharesOut
  rw [h.shards r hr]
  refine ((sat_regionStreamForRange hC.regionForKey hA.contains fuel (range r)).and
    (sat_regionStreamForRange_regions hC.regionForKey hA.known fuel (range r))).post
      fun res hres ss hss => ?_
  obtain ⟨hparts, hcover⟩ := hres.1 ss hss
  have hknown := hres.2 ss hss
  refine ⟨fun s hs => ⟨⟨fun k hk => ?_, hknown s hs⟩, h.inv_applyShard r s.1 hr fun k hk => ?_⟩, ?_⟩
  · rw [h.range_applyShard] at hk
    exact ((hparts s hs k).mp hk).1
  · exact ((hparts s hs k).mp hk).2
  · intro full Ls hLs hfull k hk
    obtain ⟨s, hs, hin⟩ := hcover k hk
    obtain ⟨L, -, hL⟩ := Matched.exists_right hLs hs
    exact hL hfull k (by rwa [h.range_applyShard])

section Regions

variable (hA : Found A G)
  (hexec : ∀ region r, RangeAt range region r → G region → Inv r →
    (plan.execute region r).Sat C A fun res =>
      ∀ resp, res = .ok resp → plan.keyErrors resp = none → plan.regionError resp = none →
        ∀ k, InRange (range r) k → P k)

include hA hexec

/-- A range plan accounts for its keys if executing it does. -/
lemma tally :
    plan.Tally C A (fun region r => RangeAt range region r ∧ G region) Inv
      (fun r _ => ∀ k, InRange (range r) k → P k) (KeysHold range P) where
  shards _ hr := h.sharesOut hC hA hr
  applyStore attempt r hr := (h.applyStore attempt r).symm ▸ hr
  applyStore_at attempt _ r hat := (h.applyStore attempt r).symm ▸ hat
  applyStore_good attempt _ r _ _ hgood := h.applyStore attempt r ▸ hgood
  withLeader region storeId _ hat := ⟨hat.1, hA.withLeader region storeId hat.2⟩
  execute region r hat := hexec region r hat.1 hat.2
  leaf _ _ _ _ hdone _ := hdone
  nil _ hfull := by cases hfull
  perm _ _ _ _ _ hgood := hgood
  mapRegionToStore := hC.mapRegionToStore
  updateLeader := hC.updateLeader

/-- **What the shards say about their keys, the plan says about all keys of its range.** -/
theorem sat_retryMultiRegion_found (preserve : Bool) (planFuel : ℕ) {r : R} (hr : Inv r)
    (backoff : Backoff) :
    (plan.retryMultiRegion preserve planFuel r backoff).Sat C A fun res => ∀ results,
      res = .ok results → AllOk results → ∀ k, InRange (range r) k → P k := by
  have hsat := (h.tally hC hA hexec).sat_retryMultiRegionRouted .leaderOnly preserve planFuel
    backoff (h.sharesOut hC hA hr)
  rw [ShardedPlan.retryMultiRegionRouted, ShardedPlan.routedPlanHandler_leaderOnly] at hsat
  exact hsat.post fun res hres results hresults hok => (hres results hresults).2 hok rfl

end Regions

/-- The same where nothing else is known of the regions. -/
theorem sat_retryMultiRegion
    (hA : ∀ k (r : Region), A (.regionForKey k) (.ok r) → r.contains k = true)
    (hexec : ∀ region r, RangeAt range region r → Inv r → (plan.execute region r).Sat C A fun res =>
      ∀ resp, res = .ok resp → plan.keyErrors resp = none → plan.regionError resp = none →
        ∀ k, InRange (range r) k → P k)
    (preserve : Bool) (planFuel : ℕ) {r : R} (hr : Inv r) (backoff : Backoff) :
    (plan.retryMultiRegion preserve planFuel r backoff).Sat C A fun res => ∀ results,
      res = .ok results → AllOk results → ∀ k, InRange (range r) k → P k :=
  h.sat_retryMultiRegion_found (G := fun _ => True) hC
    ⟨hA, fun _ _ _ => trivial, fun _ _ _ => trivial⟩
    (fun region r hat _ hr => hexec region r hat hr) preserve planFuel hr backoff

end RangePlan

end TikvClient
