import TikvClient.Request.Tally

/-!
# Accounting for the keys of a request

A request for many keys is cut by region, some requests again into batches, and shards that fail are
cut again over layouts that may have changed.

**The rule.**  `KeyPlan.sat_retryMultiRegionRouted`, an instance of `Tally`: the keys of the leaves
are together some of the keys of the request, each as often as the request has it at most — and all
of them if there is no error among the results and the shards of a request always have all of it
(`whole`).  What keeps the keys of two shards of a request apart (`D`) keeps the keys of two leaves
apart.
-/

namespace TikvClient

variable {R Shard Resp : Type}

/-- The keys of the request are in the region. -/
def KeysAt (keysOf : R → List Key) (region : Region) (r : R) : Prop :=
  ∀ k ∈ keysOf r, region.contains k = true

/-- **A plan that is cut by its keys.**  The keys of two shards of a request satisfy `D`. -/
structure KeyPlan (plan : ShardedPlan R Shard Resp) (C : Call → Prop) (A : Answers)
    (keysOf : R → List Key) (D : List Key → List Key → Prop) (whole : Prop) : Prop where
  shards : ∀ r, (plan.shards r).Sat C A fun res => ∀ ss, res = .ok ss →
    (∀ s ∈ ss, KeysAt keysOf s.2 (plan.applyShard r s.1)) ∧
      PartOf whole (ss.flatMap fun s => keysOf (plan.applyShard r s.1)) (keysOf r) ∧
      ss.Pairwise fun s t =>
        D (keysOf (plan.applyShard r s.1)) (keysOf (plan.applyShard r t.1))
  applyStore : ∀ attempt r, keysOf (plan.applyStore attempt r) = keysOf r
  execute : ∀ region r, KeysAt keysOf region r → (plan.execute region r).Sat C A fun _ => True

/-- The leaves have keys of the request only, none more often than the request, and pairwise as `D`
says; if `full`, they have all of them. -/
structure KeysOnce (keysOf : R → List Key) (D : List Key → List Key → Prop) (whole : Prop)
    (full : Bool) (r : R) (leaves : List (R × Resp)) : Prop where
  part : PartOf (full = true ∧ whole) (leaves.flatMap fun x => keysOf x.1) (keysOf r)
  apart : leaves.Pairwise fun x y => D (keysOf x.1) (keysOf y.1)

namespace KeyPlan

variable {plan : ShardedPlan R Shard Resp} {C : Call → Prop} {A : Answers}
  {keysOf : R → List Key} {D : List Key → List Key → Prop} {whole : Prop}
  (h : KeyPlan plan C A keysOf D whole) (hC : Routing C)
  (hD : ∀ {a b a' b'}, a' ⊆ a → b' ⊆ b → D a b → D a' b') (hsymm : ∀ a b, D a b → D b a)

include h hD

lemma sharesOut (r : R) :
    plan.SharesOut C A (KeysAt keysOf) (fun _ => True) (KeysOnce keysOf D whole) r := by
  refine (h.shards r).post fun res hres ss hss => ?_
  obtain ⟨hat, hpart, hapart⟩ := hres ss hss
  refine ⟨fun s hs => ⟨hat s hs, trivial⟩, fun full Ls hLs => ⟨?_, ?_⟩⟩
  · exact (PartOf.flatMap (hLs.imp fun _ _ hgood => hgood.part)).trans (hpart.imp And.right)
  · refine List.pairwise_flatten.mpr ⟨fun L hL => ?_, ?_⟩
    · obtain ⟨s, -, hgood⟩ := Matched.exists_left hLs hL
      exact hgood.apart
    · refine Matched.pairwise hLs hapart fun s L s' L' hgood hgood' hD' x hx y hy => ?_
      exact hD (fun k hk => hgood.part.subset (List.mem_flatMap.mpr ⟨x, hx, hk⟩))
        (fun k hk => hgood'.part.subset (List.mem_flatMap.mpr ⟨y, hy, hk⟩)) hD'

include hC hsymm

lemma tally :
    plan.Tally C A (KeysAt keysOf) (fun _ => True) (fun _ _ => True)
      (KeysOnce keysOf D whole) where
  shards r _ := h.sharesOut hD r
  applyStore _ _ _ := trivial
  applyStore_at attempt region r hat := by
    unfold KeysAt
    rwa [h.applyStore]
  applyStore_good attempt full r L _ hgood := ⟨h.applyStore attempt r ▸ hgood.part, hgood.apart⟩
  withLeader _ _ _ hat := hat
  execute region r hat _ := (h.execute region r hat).post fun _ _ _ _ _ _ => trivial
  leaf _ _ _ _ _ := ⟨.of_perm (by simp), List.pairwise_singleton _ _⟩
  nil _ := ⟨⟨List.nil_subperm, fun hfull => by cases hfull.1⟩, List.Pairwise.nil⟩
  perm full r L L' hL hgood :=
    ⟨(PartOf.of_perm (hL.flatMap_right _).symm).trans hgood.part,
      (hL.pairwise_iff fun hxy => hsymm _ _ hxy).mp hgood.apart⟩
  mapRegionToStore := hC.mapRegionToStore
  updateLeader := hC.updateLeader

/-- **Keys are accounted for once**, for every routing, sharding, retry and schedule. -/
theorem sat_retryMultiRegionRouted (policy : RoutingPolicy) (preserve : Bool) (fuel : ℕ) (r : R)
    (backoff : Backoff) :
    (plan.retryMultiRegionRouted policy preserve fuel r backoff).Sat C A
      (ShardedPlan.Tallied (KeysOnce keysOf D whole) r) :=
  (h.tally hC hD hsymm).sat_retryMultiRegionRouted policy preserve fuel backoff
    (h.sharesOut hD r)

end KeyPlan

end TikvClient
