import Mathlib.Algebra.GroupWithZero.Nat
import Mathlib.Order.WellFounded
import Mathlib.Tactic.Common

/-!
# Machines: reachable states, executions and progress

A machine is a partial function that performs one action in a state.  Actions say who moves and
what the outside world decides; an action that is not possible gives `none`.

**Safety.**  `Reach` are the states reached by actions that are allowed, and `Reach.invariant` is
the rule for them.

**Progress.**  An `Execution` is an infinite sequence of actions and pauses.  It is `Fair` to a set
of actions if it never pauses them forever while one of them is possible.  When each of them makes a
measure smaller, and nothing else makes it larger, a fair execution reaches a state in which none of
them is possible (`Fair.eventually_quiescent`).  If they are possible until a goal is reached, it is
reached (`Fair.leads_to`).
-/

namespace Machine

variable {σ α : Type} {step : σ → α → Option σ} {allowed : σ → α → Prop} {s₀ s s' : σ}

/-! ## Reachable states -/

/-- The states that allowed actions lead to. -/
inductive Reach (step : σ → α → Option σ) (allowed : σ → α → Prop) (s₀ : σ) : σ → Prop where
  | refl : Reach step allowed s₀ s₀
  | act {s s' : σ} (a : α) : Reach step allowed s₀ s → allowed s a → step s a = some s' →
      Reach step allowed s₀ s'

/-- **The invariant rule.** -/
theorem Reach.invariant {I : σ → Prop} (hinit : I s₀)
    (hstep : ∀ s a s', I s → allowed s a → step s a = some s' → I s')
    (h : Reach step allowed s₀ s) : I s := by
  induction h with
  | refl => exact hinit
  | act a _ hallowed hact ih => exact hstep _ a _ ih hallowed hact

def run (step : σ → α → Option σ) : List α → σ → Option σ
  | [], s => some s
  | a :: as, s => (step s a).bind (run step as)

lemma run_append (as bs : List α) (s : σ) :
    run step (as ++ bs) s = (run step as s).bind (run step bs) := by
  induction as generalizing s with
  | nil => rfl
  | cons a as ih =>
    rw [List.cons_append, run, run]
    cases step s a with
    | none => rfl
    | some s' => exact ih s'

variable {as : List α}

/-- A list of actions that are always allowed leads from one reachable state to another. -/
lemma Reach.run (h : Reach step allowed s₀ s) (hrun : run step as s = some s')
    (hallowed : ∀ a ∈ as, ∀ s, allowed s a) : Reach step allowed s₀ s' := by
  induction as generalizing s with
  | nil =>
    cases hrun
    exact h
  | cons a as ih =>
    rw [Machine.run] at hrun
    obtain ⟨s₁, hact, hrest⟩ := Option.bind_eq_some_iff.mp hrun
    obtain ⟨ha, has⟩ := List.forall_mem_cons.mp hallowed
    exact ih (h.act a (ha s) hact) hrest has

lemma reach_of_run (h : run step as s₀ = some s) :
    Reach step (fun _ _ => True) s₀ s :=
  Reach.refl.run h fun _ _ _ => trivial

/-! ## Executions -/

/-- An infinite sequence of actions and pauses. -/
structure Execution (step : σ → α → Option σ) (s₀ : σ) where
  state : ℕ → σ
  action : ℕ → Option α
  init : state 0 = s₀
  pause : ∀ n, action n = none → state (n + 1) = state n
  act : ∀ n a, action n = some a → step (state n) a = some (state (n + 1))

/-- One of the actions is possible. -/
def Enabled (step : σ → α → Option σ) (system : α → Prop) (s : σ) : Prop :=
  ∃ a, system a ∧ (step s a).isSome = true

namespace Execution

variable {system : α → Prop}

/-- Every action of the execution is allowed. -/
def Obeys (e : Execution step s₀) (allowed : σ → α → Prop) : Prop :=
  ∀ n a, e.action n = some a → allowed (e.state n) a

/-- While one of the actions is possible, one of them is performed at some later time. -/
def Fair (e : Execution step s₀) (system : α → Prop) : Prop :=
  ∀ n, Enabled step system (e.state n) → ∃ m a, n ≤ m ∧ e.action m = some a ∧ system a

variable {e : Execution step s₀}

lemma Obeys.reach (h : e.Obeys allowed) (n : ℕ) :
    Reach step allowed s₀ (e.state n) := by
  induction n with
  | zero =>
    rw [e.init]
    exact .refl
  | succ n ih =>
    cases ha : e.action n with
    | none =>
      rw [e.pause n ha]
      exact ih
    | some a => exact ih.act a (h n a ha) (e.act n a ha)

lemma obeys_true (e : Execution step s₀) : e.Obeys fun _ _ => True := fun _ _ _ => trivial

lemma reach (e : Execution step s₀) (n : ℕ) : Reach step (fun _ _ => True) s₀ (e.state n) :=
  e.obeys_true.reach n

lemma state_eq_of_stuck {n : ℕ} (hstuck : ∀ a, step (e.state n) a = none)
    (m : ℕ) (hm : n ≤ m) : e.state m = e.state n := by
  induction m, hm using Nat.le_induction with
  | base => rfl
  | succ m _ ih =>
    cases ha : e.action m with
    | none => exact (e.pause m ha).trans ih
    | some a =>
      have hact := e.act m a ha
      rw [ih, hstuck a] at hact
      cases hact

/-- **The progress rule**: when the actions of the system make a measure smaller and no other action
makes it larger, a fair execution comes to rest again and again. -/
theorem Fair.eventually_quiescent {ω : Type} [Preorder ω] [WellFoundedLT ω]
    (μ : σ → ω) {I : σ → Prop} (hfair : e.Fair system) (hI : ∀ n, I (e.state n))
    (hobeys : e.Obeys allowed)
    (hsystem : ∀ s a s', I s → allowed s a → system a → step s a = some s' → μ s' < μ s)
    (hother : ∀ s a s', I s → allowed s a → ¬ system a → step s a = some s' → μ s' ≤ μ s) :
    ∀ n, ∃ m, n ≤ m ∧ ¬ Enabled step system (e.state m) := by
  have hstep : ∀ n, μ (e.state (n + 1)) ≤ μ (e.state n) := by
    intro n
    cases ha : e.action n with
    | none => rw [e.pause n ha]
    | some a =>
      by_cases hsys : system a
      · exact (hsystem _ a _ (hI n) (hobeys n a ha) hsys (e.act n a ha)).le
      · exact hother _ a _ (hI n) (hobeys n a ha) hsys (e.act n a ha)
  have hmono : ∀ n m, n ≤ m → μ (e.state m) ≤ μ (e.state n) := by
    intro n m hnm
    induction m, hnm using Nat.le_induction with
    | base => exact le_rfl
    | succ m _ ih => exact (hstep m).trans ih
  intro n
  -- Otherwise the measure would get smaller forever.
  induction hw : μ (e.state n) using WellFoundedLT.induction generalizing n with
  | _ w ih =>
    subst hw
    by_cases henabled : Enabled step system (e.state n)
    · obtain ⟨m, a, hnm, ha, hsys⟩ := hfair n henabled
      have hlt : μ (e.state (m + 1)) < μ (e.state n) :=
        (hsystem _ a _ (hI m) (hobeys m a ha) hsys (e.act m a ha)).trans_le (hmono n m hnm)
      obtain ⟨k, hmk, hk⟩ := ih _ hlt (m + 1) rfl
      exact ⟨k, hnm.trans ((Nat.le_succ m).trans hmk), hk⟩
    · exact ⟨n, le_rfl, henabled⟩

/-- **The leads-to rule**: while `P` holds the actions of the system are possible, each of them
makes a measure smaller, and no other action makes it larger, until `Q` holds. -/
theorem Fair.leads_to (hfair : e.Fair system) {P Q : σ → Prop} (μ : σ → ℕ)
    (henabled : ∀ n, P (e.state n) → Enabled step system (e.state n))
    (hsystem : ∀ n a, e.action n = some a → system a → P (e.state n) →
      Q (e.state (n + 1)) ∨ P (e.state (n + 1)) ∧ μ (e.state (n + 1)) < μ (e.state n))
    (hother : ∀ n a, e.action n = some a → ¬ system a → P (e.state n) →
      Q (e.state (n + 1)) ∨ P (e.state (n + 1)) ∧ μ (e.state (n + 1)) ≤ μ (e.state n))
    {n : ℕ} (h : P (e.state n)) : ∃ m, n ≤ m ∧ Q (e.state m) := by
  induction hw : μ (e.state n) using Nat.strong_induction_on generalizing n with
  | _ w ih =>
    subst hw
    by_contra hnever
    obtain ⟨m, a, hnm, ha, hsys⟩ := hfair n (henabled n h)
    have hkeep : ∀ k, n ≤ k → P (e.state k) ∧ μ (e.state k) ≤ μ (e.state n) := by
      intro k hk
      induction k, hk using Nat.le_induction with
      | base => exact ⟨h, le_rfl⟩
      | succ k hk ihk =>
        have hnot : ¬ Q (e.state (k + 1)) := fun hq => hnever ⟨k + 1, by omega, hq⟩
        cases hact : e.action k with
        | none =>
          rw [e.pause k hact]
          exact ihk
        | some b =>
          by_cases hb : system b
          · obtain ⟨hP, hlt⟩ := (hsystem k b hact hb ihk.1).resolve_left hnot
            exact ⟨hP, (hlt.trans_le ihk.2).le⟩
          · obtain ⟨hP, hle⟩ := (hother k b hact hb ihk.1).resolve_left hnot
            exact ⟨hP, hle.trans ihk.2⟩
    obtain ⟨hP, hle⟩ := hkeep m hnm
    have hnot : ¬ Q (e.state (m + 1)) := fun hq => hnever ⟨m + 1, by omega, hq⟩
    obtain ⟨hP', hlt⟩ := (hsystem m a ha hsys hP).resolve_left hnot
    obtain ⟨k, hk, hQ⟩ := ih _ (hlt.trans_le hle) hP' rfl
    exact hnever ⟨k, by omega, hQ⟩

end Execution

/-- A run, followed by a pause forever, is an execution. -/
theorem exists_execution (h : run step as s₀ = some s) :
    ∃ e : Execution step s₀, (∀ n, e.action n = as[n]?) ∧
      (∀ n, run step (as.take n) s₀ = some (e.state n)) ∧ ∀ n, as.length ≤ n → e.state n = s := by
  have hpart : ∀ n, ∃ t, run step (as.take n) s₀ = some t := by
    intro n
    rw [← List.take_append_drop n as, run_append] at h
    obtain ⟨t, ht, -⟩ := Option.bind_eq_some_iff.mp h
    exact ⟨t, ht⟩
  choose state hstate using hpart
  have hend : ∀ n, as.length ≤ n → state n = s := by
    intro n hn
    have ht := hstate n
    rw [List.take_of_length_le hn, h] at ht
    exact (Option.some.inj ht).symm
  let e : Execution step s₀ :=
    { state := state
      action := fun n => as[n]?
      init := by
        have ht := hstate 0
        rw [List.take_zero] at ht
        exact (Option.some.inj ht).symm
      pause := fun n hn => by
        have hlen := List.getElem?_eq_none_iff.mp hn
        rw [hend n hlen, hend (n + 1) (hlen.trans (Nat.le_succ n))]
      act := fun n a ha => by
        have ht := hstate (n + 1)
        rw [List.take_add_one, ha, run_append, hstate n] at ht
        simpa [run] using ht }
  exact ⟨e, fun n => rfl, hstate, hend⟩

/-- An execution is fair to actions of which none is possible after the last one. -/
lemma Execution.fair_of_last {e : Execution step s₀} {system : α → Prop} {k : ℕ} {a : α}
    (hact : e.action k = some a) (hsystem : system a)
    (hrest : ∀ n, k < n → ¬ Enabled step system (e.state n)) : e.Fair system := by
  intro n henabled
  by_cases hn : k < n
  · exact absurd henabled (hrest n hn)
  · exact ⟨k, a, not_lt.mp hn, hact, hsystem⟩

/-- **A run that ends at rest is a fair execution**: it pauses forever there. -/
theorem exists_execution_of_run {system : α → Prop} (h : run step as s₀ = some s)
    (hsystem : ∀ a ∈ as, system a) (hrest : ¬ Enabled step system s) :
    ∃ e : Execution step s₀, e.Fair system ∧ (∀ n, e.action n = as[n]?) ∧
      ∀ n, run step (as.take n) s₀ = some (e.state n) := by
  obtain ⟨e, haction, hstate, hend⟩ := exists_execution h
  refine ⟨e, fun n henabled => ?_, haction, hstate⟩
  by_cases hn : as.length ≤ n
  · exact absurd (hend n hn ▸ henabled) hrest
  · have ha : e.action n = some (as.get ⟨n, not_le.mp hn⟩) :=
      (haction n).trans (List.getElem?_eq_getElem (not_le.mp hn))
    exact ⟨n, _, le_rfl, ha, hsystem _ (List.mem_of_getElem? (haction n ▸ ha))⟩

end Machine
