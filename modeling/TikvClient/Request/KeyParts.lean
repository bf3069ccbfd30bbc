import TikvClient.Request.KeyTally

/-!
# What a failed shard stands for

When the results of the shards are preserved, a shard that fails is an error among them.  It stands
for the keys it was sent for: every result, response or error, stands for some keys of the request
(`Parted`), and no two of them for the same one.

**The result**: if there is an error among the results, some key of the request is in none of the
requests that succeeded (`Parted.exists_not_mem_okLeaves`).
-/

namespace TikvClient

variable {R Shard Resp : Type} {keysOf : R → List Key}

/-- Each result stands for a part: a response for the keys of its request, and an error for some
keys as well. -/
abbrev StandFor (keysOf : R → List Key) (results : ShardResults R Resp) (parts : List (List Key)) :
    Prop :=
  List.Forall₂ (fun res part => part ≠ [] ∧ ∀ leaf, res = .ok leaf → keysOf leaf.1 = part) results
    parts

namespace StandFor

variable {results : ShardResults R Resp} {parts : List (List Key)}

lemma okLeaves_subset (h : StandFor keysOf results parts) :
    ((okLeaves results).flatMap fun leaf => keysOf leaf.1) ⊆ parts.flatten := by
  induction h with
  | nil => simp
  | @cons res part results parts hres _ ih =>
    cases res with
    | error e => exact List.Subset.trans ih (List.subset_append_right _ _)
    | ok leaf =>
      rw [okLeaves_cons_ok, List.flatMap_cons, List.flatten_cons, hres.2 leaf rfl]
      exact List.append_subset.mpr ⟨List.subset_append_left _ _,
        List.Subset.trans ih (List.subset_append_right _ _)⟩

lemma exists_not_mem_okLeaves (h : StandFor keysOf results parts)
    (hdisjoint : parts.Pairwise List.Disjoint) {e : Error} (he : .error e ∈ results) :
    ∃ k ∈ parts.flatten, k ∉ (okLeaves results).flatMap fun leaf => keysOf leaf.1 := by
  induction h with
  | nil => cases he
  | @cons res part results parts hres hrest ih =>
    obtain ⟨hhead, htail⟩ := List.pairwise_cons.mp hdisjoint
    have hapart : List.Disjoint part parts.flatten := by
      intro k hk hk'
      obtain ⟨other, hother, hk'⟩ := List.mem_flatten.mp hk'
      exact hhead other hother hk hk'
    cases res with
    | error e' =>
      obtain ⟨k, hk⟩ := List.exists_mem_of_ne_nil _ hres.1
      exact ⟨k, List.mem_append_left _ hk, fun hmem => hapart hk (okLeaves_subset hrest hmem)⟩
    | ok leaf =>
      obtain ⟨k, hk, hnot⟩ := ih htail (by simpa using he)
      refine ⟨k, List.mem_append_right _ hk, ?_⟩
      rw [okLeaves_cons_ok, List.flatMap_cons, hres.2 leaf rfl, List.mem_append, not_or]
      exact ⟨fun hpart => hapart hpart hk, hnot⟩

end StandFor

/-- **Every result stands for a part of the keys of the request**, and no two for the same key. -/
def Parted (keysOf : R → List Key) (r : R) (results : ShardResults R Resp) : Prop :=
  ∃ parts, StandFor keysOf results parts ∧ parts.flatten.Perm (keysOf r) ∧
    parts.Pairwise List.Disjoint

namespace Parted

variable {r : R} {results : ShardResults R Resp}

lemma single (hne : keysOf r ≠ []) (res : Except Error (R × Resp))
    (hres : ∀ leaf, res = .ok leaf → keysOf leaf.1 = keysOf r) : Parted keysOf r [res] :=
  ⟨[keysOf r], .cons ⟨hne, hres⟩ .nil, by simp, List.pairwise_singleton _ _⟩

lemma perm {results' : ShardResults R Resp} (hperm : results.Perm results')
    (h : Parted keysOf r results) : Parted keysOf r results' := by
  obtain ⟨parts, hmatch, hkeys, hdisjoint⟩ := h
  obtain ⟨parts', hmatch', hperm'⟩ := List.perm_comp_forall₂ hperm.symm hmatch
  refine ⟨parts', hmatch', hperm'.flatten.trans hkeys, ?_⟩
  exact (hperm'.pairwise_iff fun h => List.disjoint_symm h).mpr hdisjoint

/-- The parts of the shards are parts of the request. -/
lemma flatten {ι : Type} {request : ι → R} {ss : List ι} {Rs : List (ShardResults R Resp)}
    (hkeys : (ss.flatMap fun s => keysOf (request s)).Perm (keysOf r))
    (hdisjoint : ss.Pairwise fun s s' => List.Disjoint (keysOf (request s)) (keysOf (request s')))
    (h : List.Forall₂ (fun s results => Parted keysOf (request s) results) ss Rs) :
    Parted keysOf r Rs.flatten := by
  have hparts : ∃ parts, StandFor keysOf Rs.flatten parts ∧
      parts.flatten.Perm (ss.flatMap fun s => keysOf (request s)) ∧
        parts.Pairwise List.Disjoint := by
    clear hkeys
    induction h with
    | nil => exact ⟨[], .nil, .nil, .nil⟩
    | @cons s results ss Rs hhead hrest ih =>
      obtain ⟨hapart, htail⟩ := List.pairwise_cons.mp hdisjoint
      obtain ⟨parts, hmatch, hkeys, hparts⟩ := hhead
      obtain ⟨parts', hmatch', hkeys', hparts'⟩ := ih htail
      refine ⟨parts ++ parts', List.rel_append hmatch hmatch', ?_, ?_⟩
      · rw [List.flatten_append, List.flatMap_cons]
        exact hkeys.append hkeys'
      · refine List.pairwise_append.mpr ⟨hparts, hparts', fun a ha b hb k hka hkb => ?_⟩
        have hk := hkeys.subset (List.mem_flatten_of_mem ha hka)
        obtain ⟨s', hs', hk'⟩ := List.mem_flatMap.mp
          (hkeys'.subset (List.mem_flatten_of_mem hb hkb))
        exact hapart s' hs' hk hk'
  obtain ⟨parts, hmatch, hperm, hparts⟩ := hparts
  exact ⟨parts, hmatch, hperm.trans hkeys, hparts⟩

lemma okLeaves_subset (h : Parted keysOf r results) :
    ((okLeaves results).flatMap fun leaf => keysOf leaf.1) ⊆ keysOf r := by
  obtain ⟨parts, hmatch, hkeys, -⟩ := h
  exact List.Subset.trans hmatch.okLeaves_subset hkeys.subset

/-- **A failed shard leaves a key out.** -/
lemma exists_not_mem_okLeaves (h : Parted keysOf r results) {e : Error} (he : .error e ∈ results) :
    ∃ k ∈ keysOf r, k ∉ (okLeaves results).flatMap fun leaf => keysOf leaf.1 := by
  obtain ⟨parts, hmatch, hkeys, hdisjoint⟩ := h
  obtain ⟨k, hk, hnot⟩ := hmatch.exists_not_mem_okLeaves hdisjoint he
  exact ⟨k, hkeys.subset hk, hnot⟩

end Parted

/-! ## The rule -/

namespace KeyPlan

variable {plan : ShardedPlan R Shard Resp} {C : Call → Prop} {A : Answers}
  (h : KeyPlan plan C A keysOf List.Disjoint True) (hC : Routing C)
  (hne : ∀ r, (plan.shards r).Sat C A fun res => ∀ ss, res = .ok ss →
    ∀ s ∈ ss, keysOf (plan.applyShard r s.1) ≠ [])

include h hne

lemma divides_parted (r : R) :
    plan.Divides C A (KeysAt keysOf) (fun r => keysOf r ≠ []) (Parted keysOf) r := by
  refine ((h.shards r).and (hne r)).post fun res hres ss hss => ?_
  obtain ⟨hat, hkeys, hdisjoint⟩ := hres.1 ss hss
  exact ⟨fun s hs => ⟨hat s hs, hres.2 ss hss s hs⟩,
    fun Rs => Parted.flatten (hkeys.perm trivial) hdisjoint⟩

include hC

lemma accounts_parted :
    plan.Accounts C A (KeysAt keysOf) (fun r => keysOf r ≠ []) (fun _ _ => True)
      (Parted keysOf) where
  shards r _ := h.divides_parted hne r
  applyStore attempt r hr := by rwa [h.applyStore]
  applyStore_at attempt region r hat := by
    unfold KeysAt
    rwa [h.applyStore]
  applyStore_good attempt r results _ hgood := by
    unfold Parted at hgood ⊢
    rwa [h.applyStore] at hgood
  withLeader _ _ _ hat := hat
  execute region r hat _ := (h.execute region r hat).post fun _ _ _ _ _ _ => trivial
  leaf r resp hr _ := Parted.single hr _ fun leaf hleaf => by cases hleaf; rfl
  error r e hr := Parted.single hr _ fun leaf hleaf => by cases hleaf
  perm _ _ _ := Parted.perm
  mapRegionToStore := hC.mapRegionToStore
  updateLeader := hC.updateLeader

/-- **The results of a plan that is cut by its keys stand for parts of its request.** -/
theorem sat_retryMultiRegion_parted (preserve : Bool) (fuel : ℕ) (r : R) (backoff : Backoff) :
    (plan.retryMultiRegion preserve fuel r backoff).Sat C A
      (ShardedPlan.Accounted (Parted keysOf) r) :=
  (h.accounts_parted hC hne).sat_retryMultiRegion preserve fuel backoff (h.divides_parted hne r)

end KeyPlan

end TikvClient
