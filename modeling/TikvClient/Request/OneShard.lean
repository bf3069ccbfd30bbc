import Mathlib.Algebra.Order.BigOperators.Group.List
import Mathlib.Algebra.Order.Ring.Nat
import TikvClient.Core.Ends
import TikvClient.Core.Eval
import TikvClient.Request.Plan

/-!
# Plans that are answered without errors

When every call has one answer, a plan whose regions and stores are found, and whose shards are all
answered without errors, returns the responses (`eval_retryMultiRegion`).  It needs enough fuel
for the steps of its shards.

**One shard.**  `ends_retryMultiRegion_one`: whatever the answers are, as long as regions and
stores are found and there is no region error, such a plan ends with the response or its key errors.
-/

namespace Prog

variable {S : Signature} {β ε : Type} {ans : (c : S.Call) → S.Ans c}

lemma evalSteps_bind {α γ : Type} {p : Prog S α} {f : α → Prog S γ} {a : α}
    (h : p.eval ans = some a) :
    (p.bind f).evalSteps ans = p.evalSteps ans + (f a).evalSteps ans := by
  induction p with
  | ret b =>
    cases h
    exact (Nat.zero_add _).symm
  | call c k ih => exact (congrArg (· + 1) (ih (ans c) h)).trans (Nat.add_right_comm _ _ _)
  | pick m k ih =>
    cases m with
    | zero => cases h
    | succ m => exact (congrArg (· + 1) (ih 0 h)).trans (Nat.add_right_comm _ _ _)
  | drop cs k ih => exact (congrArg (· + 1) (ih h)).trans (Nat.add_right_comm _ _ _)

/-- A join runs its first program to its end, given enough steps. -/
lemma eval_join_cons (onError : ε → Option (List β)) (ps : List (Prog S (Except ε (List β))))
    (acc : List β) {p : Prog S (Except ε (List β))} {v : List β} (h : p.eval ans = some (.ok v)) :
    ∀ n, (join onError (p.evalSteps ans + 1 + n) (p :: ps) acc).eval ans =
      (join onError n ps (acc ++ v)).eval ans := by
  induction p with
  | ret a =>
    cases h
    intro n
    rw [evalSteps, Nat.zero_add, Nat.add_comm]
    rfl
  | call c k ih =>
    intro n
    rw [evalSteps, Nat.add_right_comm _ 1 n]
    exact ih (ans c) h n
  | pick m k ih =>
    intro n
    cases m with
    | zero => cases h
    | succ m =>
      rw [evalSteps, Nat.add_right_comm _ 1 n]
      exact ih 0 h n
  | drop cs k ih =>
    intro n
    rw [evalSteps, Nat.add_right_comm _ 1 n]
    exact ih h n

/-- A join of programs that return collects what they return, given enough steps. -/
lemma eval_join (onError : ε → Option (List β)) {ps : List (Prog S (Except ε (List β)))}
    {vs : List (List β)} (h : List.Forall₂ (fun p v => p.eval ans = some (.ok v)) ps vs) :
    ∀ (acc : List β) (n : ℕ), (ps.map fun p => p.evalSteps ans + 1).sum ≤ n →
      (join onError n ps acc).eval ans = some (.ok (acc ++ vs.flatten)) := by
  induction h with
  | nil =>
    intro acc n _
    cases n <;> simp [join]
  | @cons p v ps vs hp _ ih =>
    intro acc n hn
    rw [List.map_cons, List.sum_cons] at hn
    obtain ⟨n, rfl⟩ := Nat.exists_eq_add_of_le (Nat.le_of_add_right_le hn)
    rw [eval_join_cons onError ps acc hp, ih (acc ++ v) n (Nat.le_of_add_le_add_left hn),
      List.flatten_cons, List.append_assoc]

end Prog

namespace TikvClient

open Proto

variable {R Shard Resp ι : Type} {ans : (c : Call) → c.Ans}

lemma eval_regionStreamForKeys_one (keyOf : ι → Key) {items : List ι} {region : Region}
    (hne : items ≠ []) (hregion : ∀ x ∈ items, ans (.regionForKey (keyOf x)) = .ok region)
    (hcontains : ∀ x ∈ items, region.contains (keyOf x) = true) :
    (regionStreamForKeys keyOf items).eval (S := sig) ans = some (.ok [(items, region)]) := by
  obtain ⟨x, xs, rfl⟩ := List.exists_cons_of_ne_nil hne
  obtain ⟨hx, -⟩ := List.forall_mem_cons.mp hregion
  obtain ⟨-, hxs⟩ := List.forall_mem_cons.mp hcontains
  have hlookup : (Async.regionForKey (keyOf x)).eval (S := sig) ans = some (.ok region) :=
    congrArg some hx
  have hrun := groupKeysAux_append keyOf region xs [] [x] hxs
  rw [List.append_nil] at hrun
  rw [regionStreamForKeys, groupKeysAux, Prog.eval_bind, Prog.eval_bind, hlookup, Option.bind_some]
  dsimp only
  rw [hrun]
  rfl

/-- One item is a run of its own, in the region that is answered. -/
lemma ends_regionStreamForKeys_one {A : Answers} {P : Region → Prop} (keyOf : ι → Key) (x : ι)
    (hfound : ∀ ans, A (.regionForKey (keyOf x)) ans → ∃ region, ans = .ok region ∧ P region) :
    Prog.Ends A (fun res => ∃ region, res = .ok [([x], region)] ∧ P region) 1
      (regionStreamForKeys keyOf [x]) :=
  Prog.ends_call (S := sig) fun ans hans => by
    obtain ⟨region, rfl, hP⟩ := hfound ans hans
    exact ⟨region, rfl, hP⟩

lemma eval_resolveLock {execute : AsyncResult Resp} {takeLocks : Resp → List LockInfo} {resp : Resp}
    (hexecute : execute.eval (S := sig) ans = some (.ok resp)) (hlocks : takeLocks resp = [])
    (resolve : List LockInfo → AsyncResult (List LockInfo)) {fuel : ℕ} (hfuel : 0 < fuel)
    (backoff : Backoff) :
    (resolveLock execute takeLocks resolve fuel backoff).eval (S := sig) ans = some (.ok resp) ∧
      (resolveLock execute takeLocks resolve fuel backoff).evalSteps (S := sig) ans =
        execute.evalSteps (S := sig) ans := by
  obtain ⟨fuel, rfl⟩ := Nat.exists_eq_add_of_lt hfuel
  have hloop : resolveLockLoop execute takeLocks resolve backoff.isNone (0 + fuel + 1) backoff
      resp = .ret (.ok resp) := by
    simp only [resolveLockLoop, hlocks]
  unfold resolveLock
  constructor
  · rw [Prog.eval_andThen_ok hexecute, hloop, Prog.eval_ret]
  · rw [Prog.andThen, Prog.evalSteps_bind hexecute]
    dsimp only
    rw [hloop, Prog.evalSteps, Nat.add_zero]

namespace ShardedPlan

section Eval

variable (plan : ShardedPlan R Shard Resp) (preserve : Bool) (backoff : Backoff) {r : R}

/-- The request of a shard, as it is sent first. -/
def sent (r : R) (shard : Shard) : R := plan.applyStore 0 (plan.applyShard r shard)

lemma eval_singleShardHandler {shard : Shard} {region : Region} {resp : Resp}
    (hleader : region.leader ≠ none) (hstore : ans (.mapRegionToStore region) = .ok ())
    (hexecute : (plan.execute region (plan.sent r shard)).eval (S := sig) ans = some (.ok resp))
    (hkey : plan.keyErrors resp = none) (hregion : plan.regionError resp = none)
    (retry : Retry R Resp) :
    (plan.singleShardHandler retry (plan.applyShard r shard) region backoff 0).eval (S := sig) ans =
        some (.ok [.ok (plan.sent r shard, resp)]) ∧
      (plan.singleShardHandler retry (plan.applyShard r shard) region backoff 0).evalSteps
          (S := sig) ans =
        (Async.mapRegionToStore region).evalSteps (S := sig) ans +
          (plan.execute region (plan.sent r shard)).evalSteps (S := sig) ans := by
  obtain ⟨leader, hleader⟩ := Option.ne_none_iff_exists'.mp hleader
  have hmapped : (Async.mapRegionToStore region).eval (S := sig) ans = some (.ok ()) :=
    congrArg some hstore
  unfold sent at hexecute ⊢
  unfold singleShardHandler
  simp only [hleader, Prog.eval_bind, hmapped, Option.bind_some, hexecute, handleResponse, hkey,
    hregion, Prog.eval_ret, Prog.evalSteps_bind hmapped, Prog.evalSteps_bind hexecute,
    Prog.evalSteps, Nat.add_zero, and_self]

/-- **A plan whose shards are answered without errors returns their responses.** -/
lemma eval_retryMultiRegion {ss : List (Shard × Region)} (resp : Shard × Region → Resp) {e : ℕ}
    (hshards : (plan.shards r).eval (S := sig) ans = some (.ok ss))
    (hleader : ∀ s ∈ ss, s.2.leader ≠ none)
    (hstore : ∀ s ∈ ss, ans (.mapRegionToStore s.2) = .ok ())
    (hexecute : ∀ s ∈ ss, (plan.execute s.2 (plan.sent r s.1)).eval (S := sig) ans =
      some (.ok (resp s)))
    (hsteps : ∀ s ∈ ss, (plan.execute s.2 (plan.sent r s.1)).evalSteps (S := sig) ans ≤ e)
    (hkey : ∀ s ∈ ss, plan.keyErrors (resp s) = none)
    (hregion : ∀ s ∈ ss, plan.regionError (resp s) = none) {fuel : ℕ}
    (hfuel : ss.length * (e + 2) < fuel) :
    (plan.retryMultiRegion preserve fuel r backoff).eval (S := sig) ans =
      some (.ok (ss.map fun s => .ok (plan.sent r s.1, resp s))) := by
  have hshard : ∀ retry, ∀ s ∈ ss, _ := fun retry s hs =>
    plan.eval_singleShardHandler backoff (hleader s hs) (hstore s hs) (hexecute s hs) (hkey s hs)
      (hregion s hs) retry
  cases fuel with
  | zero => cases hfuel
  | succ fuel =>
    have heval : List.Forall₂ (fun p v => p.eval (S := sig) ans = some (.ok v))
        (ss.map fun s => plan.singleShardHandler (plan.singlePlanHandler preserve fuel)
          (plan.applyShard r s.1) s.2 backoff 0)
        (ss.map fun s => [.ok (plan.sent r s.1, resp s)]) := by
      rw [List.forall₂_map_left_iff, List.forall₂_map_right_iff]
      exact List.forall₂_same.mpr fun s hs => (hshard _ s hs).1
    have hsum : ((ss.map fun s => plan.singleShardHandler (plan.singlePlanHandler preserve fuel)
        (plan.applyShard r s.1) s.2 backoff 0).map fun p => p.evalSteps (S := sig) ans + 1).sum ≤
          fuel := by
      refine (List.sum_le_card_nsmul _ (e + 2) ?_).trans ?_
      · simp only [List.forall_mem_map]
        intro s hs
        have := hsteps s hs
        rw [(hshard _ s hs).2]
        simp only [Async.mapRegionToStore, Prog.ask, Prog.evalSteps]
        omega
      · simpa using Nat.le_of_lt_succ hfuel
    rw [retryMultiRegion, singlePlanHandler, Prog.eval_andThen_ok hshards,
      Prog.eval_join (onShardError preserve) heval [] fuel hsum, List.nil_append,
      ← List.flatMap_def, ← List.map_eq_flatMap]

lemma exists_eval_retryMultiRegion_one {shard : Shard} {region : Region} {resp : Resp}
    (hshards : (plan.shards r).eval (S := sig) ans = some (.ok [(shard, region)]))
    (hleader : region.leader ≠ none) (hstore : ans (.mapRegionToStore region) = .ok ())
    (hexecute : (plan.execute region (plan.sent r shard)).eval (S := sig) ans = some (.ok resp))
    (hkey : plan.keyErrors resp = none) (hregion : plan.regionError resp = none) :
    ∃ n₀, ∀ fuel, n₀ ≤ fuel → (plan.retryMultiRegion preserve fuel r backoff).eval (S := sig) ans =
      some (.ok [.ok (plan.sent r shard, resp)]) := by
  refine ⟨(plan.execute region (plan.sent r shard)).evalSteps (S := sig) ans + 3,
    fun fuel hfuel => ?_⟩
  refine plan.eval_retryMultiRegion preserve backoff (fun _ => resp) hshards
    (List.forall_mem_singleton.mpr hleader) (List.forall_mem_singleton.mpr hstore)
    (List.forall_mem_singleton.mpr hexecute) (List.forall_mem_singleton.mpr le_rfl)
    (fun _ _ => hkey) (fun _ _ => hregion) ?_
  rw [List.length_singleton, Nat.one_mul]
  exact Nat.lt_of_succ_le hfuel

end Eval

/-- What a response becomes among the results. -/
def resultOf (plan : ShardedPlan R Shard Resp) (r : R) (resp : Resp) : Except Error (R × Resp) :=
  match plan.keyErrors resp with
  | some es => .error (.multipleKeyErrors es)
  | none => .ok (r, resp)

/-- **A plan with one shard ends with its response**, if there are no region errors. -/
theorem ends_retryMultiRegion_one {plan : ShardedPlan R Shard Resp}
    {A : Answers} {r : R} {shard : Shard} {d e fuel : ℕ} {Done : Resp → Prop}
    (hshards : Prog.Ends A (fun res => ∃ region : Region, res = .ok [(shard, region)] ∧
      region.leader ≠ none) d (plan.shards r))
    (hstore : ∀ region ans, A (.mapRegionToStore region) ans → ans = .ok ())
    (hexecute : ∀ region, Prog.Ends A (fun res => ∃ resp, res = .ok resp ∧
      plan.regionError resp = none ∧ Done resp) e
        (plan.execute region (plan.applyStore 0 (plan.applyShard r shard))))
    (hfuel : e + 2 < fuel) (preserve : Bool) (backoff : Backoff) :
    Prog.Ends A (fun res => ∃ resp, Done resp ∧
      res = .ok [plan.resultOf (plan.applyStore 0 (plan.applyShard r shard)) resp])
      (d + (2 * (1 + e) + 2)) (plan.retryMultiRegion preserve fuel r backoff) := by
  obtain ⟨fuel, rfl⟩ : ∃ n, fuel = n + 1 := ⟨fuel - 1, by omega⟩
  refine hshards.andThen (fun ss hss => ?_) fun x hx => ?_
  · obtain ⟨region, hss, hleader⟩ := hss
    cases hss
    obtain ⟨leader, hleader⟩ := Option.ne_none_iff_exists'.mp hleader
    have hshard : Prog.Ends A (fun res => ∃ resp, Done resp ∧
        res = .ok [plan.resultOf (plan.applyStore 0 (plan.applyShard r shard)) resp]) (1 + e)
        (plan.singleShardHandler (plan.singlePlanHandler preserve fuel) (plan.applyShard r shard)
          region backoff 0) := by
      unfold singleShardHandler
      simp only [hleader]
      refine Prog.Ends.bind (Prog.ends_ask (S := sig) (Call.mapRegionToStore region))
        fun mapped hmapped => ?_
      obtain rfl := hstore region mapped hmapped
      refine (hexecute region).bind (e := 0) fun res hres => ?_
      obtain ⟨resp, rfl, hregion, hdone⟩ := hres
      cases hkey : plan.keyErrors resp with
      | some es =>
        simp only [handleResponse, hkey]
        exact Prog.ends_ret ⟨resp, hdone, by rw [resultOf, hkey]⟩
      | none =>
        simp only [handleResponse, hkey, hregion]
        exact Prog.ends_ret ⟨resp, hdone, by rw [resultOf, hkey]⟩
    refine (hshard.join_one [] (by omega)).mono (Nat.le_refl _) ?_
    rintro res ⟨x, ⟨resp, hdone, rfl⟩, rfl⟩
    exact ⟨resp, hdone, rfl⟩
  · obtain ⟨region, hx, -⟩ := hx
    cases hx

end ShardedPlan

end TikvClient
