import TikvClient.Core.Budget
import TikvClient.Core.Stateful

/-!
# Programs that end

`Sat` says what holds if a program returns.  `Ends A Q d p` says that it does: in every run with
answers allowed by `A`, `p` takes at most `d` steps, is never stuck, and returns a value in `Q`.  It
is the budget of `Within` without marks to spare, where forbidden answers are the marked ones.

**The rules** are those of `Within`; `Ends.join` is for a join, and `Ends.join_one` for a join of a
single program, whose result is known.  `Ends.of_returns` and `Ends.not_stuck` transfer the
judgement to runs, and `Ends.exists_returns` gives one.
-/

namespace Prog

variable {S : Signature} {α β ε : Type} {A : (c : S.Call) → S.Ans c → Prop} {Q : α → Prop} {d e : ℕ}

open Classical in
/-- Answers that are not allowed are marked. -/
noncomputable def forbidden (A : (c : S.Call) → S.Ans c → Prop) (c : S.Call) (ans : S.Ans c) : ℕ :=
  if A c ans then 0 else 1

lemma forbidden_eq_zero {c : S.Call} {ans : S.Ans c} : forbidden A c ans = 0 ↔ A c ans := by
  unfold forbidden
  split_ifs with h <;> simp [h]

/-- **Every run with allowed answers ends** within `d` steps, with a result in `Q`. -/
def Ends (A : (c : S.Call) → S.Ans c → Prop) (Q : α → Prop) (d : ℕ) (p : Prog S α) : Prop :=
  Within (fun _ => 0) (forbidden A) (fun _ => Q) 0 d 0 p

/-! ## Rules -/

lemma ends_ret {a : α} (h : Q a) : Ends A Q d (ret a) := h

lemma ends_call {c : S.Call} {k : S.Ans c → Prog S α}
    (h : ∀ ans, A c ans → Ends A Q d (k ans)) : Ends A Q (d + 1) (call c k) := by
  refine ⟨Nat.succ_pos d, Nat.le_refl 0, fun ans r hr => ?_⟩
  obtain ⟨hans, rfl⟩ : forbidden A c ans = 0 ∧ r = 0 := by omega
  exact h ans (forbidden_eq_zero.mp hans)

lemma ends_ask (c : S.Call) : Ends A (A c) 1 (ask c) := ends_call fun _ h => h

variable {p : Prog S α}

lemma Ends.mono {Q' : α → Prop} {d' : ℕ} (h : Ends A Q d p) (hd : d ≤ d')
    (hQ : ∀ a, Q a → Q' a) : Ends A Q' d' p :=
  Within.mono h hd (Nat.le_refl 0) fun _ a _ => hQ a

lemma Ends.bind {R : β → Prop} {f : α → Prog S β} (h : Ends A Q d p)
    (hf : ∀ a, Q a → Ends A R e (f a)) : Ends A R (d + e) (p.bind f) := by
  refine Within.bind (m := 0) h fun r a hr ha => ?_
  obtain rfl := Nat.le_zero.mp hr
  exact hf a ha

lemma Ends.andThen {Q : Except ε α → Prop} {R : Except ε β → Prop} {p : Prog S (Except ε α)}
    {f : α → Prog S (Except ε β)} (h : Ends A Q d p)
    (hok : ∀ a, Q (.ok a) → Ends A R e (f a)) (herr : ∀ x, Q (.error x) → R (.error x)) :
    Ends A R (d + e) (p.andThen f) := by
  refine h.bind fun r hr => ?_
  cases r with
  | ok a => exact hok a hr
  | error x => exact herr x hr

lemma ends_pick_one {k : Fin 1 → Prog S α} (h : Ends A Q d (k 0)) :
    Ends A Q (d + 1) (pick 1 k) := by
  refine ⟨Nat.succ_pos d, Nat.succ_pos 0, fun i => ?_⟩
  obtain rfl : i = 0 := Subsingleton.elim i 0
  exact h

lemma join_nil (onError : ε → Option (List β)) (n : ℕ) (acc : List β) :
    (Prog.join onError n [] acc : Prog S (Except ε (List β))) = ret (.ok acc) := by
  cases n <;> rfl

/-- What becomes of the result of a program that is joined with no others. -/
def joined (onError : ε → Option (List β)) (acc : List β) : Except ε (List β) → Except ε (List β)
  | .ok v => .ok (acc ++ v)
  | .error e => (onError e).elim (.error e) fun vs => .ok (acc ++ vs)

/-- **A join of one program** ends if the program does, with its result. -/
theorem Ends.join_one {onError : ε → Option (List β)} {Q : Except ε (List β) → Prop} {fuel : ℕ}
    (acc : List β) {p : Prog S (Except ε (List β))} (h : Ends A Q d p) (hfuel : d < fuel) :
    Ends A (fun r => ∃ x, Q x ∧ r = joined onError acc x) (2 * d + 2)
      (Prog.join onError fuel [p] acc) := by
  -- Each step of the program takes one unit of fuel, and one is left for its result.
  induction p generalizing d fuel with
  | ret x =>
    obtain ⟨fuel, rfl⟩ : ∃ n, fuel = n + 1 := ⟨fuel - 1, by omega⟩
    refine ends_pick_one (d := 2 * d + 1) ?_
    cases x with
    | ok v =>
      show Ends A _ _ (Prog.join onError fuel [] (acc ++ v))
      rw [join_nil]
      exact ends_ret ⟨_, h, rfl⟩
    | error e =>
      dsimp only [List.get_cons_zero]
      cases hon : onError e with
      | some vs =>
        show Ends A _ _ (Prog.join onError fuel [] (acc ++ vs))
        rw [join_nil]
        exact ends_ret ⟨_, h, by rw [joined, hon]; rfl⟩
      | none => exact ⟨by omega, _, h, by rw [joined, hon]; rfl⟩
  | call c k ih =>
    obtain ⟨fuel, rfl⟩ : ∃ n, fuel = n + 1 := ⟨fuel - 1, by omega⟩
    obtain ⟨hpos, -, hk⟩ := h
    obtain ⟨d, rfl⟩ : ∃ n, d = n + 1 := ⟨d - 1, by omega⟩
    refine ends_pick_one (d := 2 * (d + 1) + 1) (ends_call (d := 2 * d + 2) fun ans hans => ?_)
    exact ih ans (hk ans 0 (forbidden_eq_zero.mpr hans)) (by omega)
  | pick m k ih =>
    obtain ⟨fuel, rfl⟩ : ∃ n, fuel = n + 1 := ⟨fuel - 1, by omega⟩
    obtain ⟨hpos, hm, hk⟩ := h
    obtain ⟨d, rfl⟩ : ∃ n, d = n + 1 := ⟨d - 1, by omega⟩
    refine ends_pick_one (d := 2 * (d + 1) + 1) ⟨by omega, hm, fun i => ?_⟩
    exact ih i (hk i) (by omega)
  | drop cs k ih =>
    obtain ⟨fuel, rfl⟩ : ∃ n, fuel = n + 1 := ⟨fuel - 1, by omega⟩
    obtain ⟨hpos, hk⟩ := h
    obtain ⟨d, rfl⟩ : ∃ n, d = n + 1 := ⟨d - 1, by omega⟩
    exact ends_pick_one (d := 2 * (d + 1) + 1) ⟨by omega, ih hk (by omega)⟩

/-- **A join ends** if its programs do, with fuel for their steps and for their results. -/
theorem Ends.join {onError : ε → Option (List β)} {ps : List (Prog S (Except ε (List β)))}
    {fuel : ℕ} (acc : List β) (h : ∀ p ∈ ps, Ends A (fun _ => True) d p)
    (hfuel : ps.length * (d + 1) ≤ fuel) :
    Ends A (fun _ => True) (2 * (ps.length * (d + 1))) (Prog.join onError fuel ps acc) := by
  set jobs := ps.map fun p => Job.mk p d 0 with hjobs
  have htotal : Job.total jobs = ps.length * (d + 1) := by
    simp [hjobs, Job.total, Function.comp_def]
  have hcost : Job.totalCost jobs = 0 := by
    simp [hjobs, Job.totalCost, Function.comp_def]
  have hprogs : jobs.map Job.prog = ps := by
    simp [hjobs, Function.comp_def]
  have hwithin : ∀ j ∈ jobs,
      Within (fun _ => 0) (forbidden A) (fun _ _ => True) 0 j.steps j.cost j.prog :=
    List.forall_mem_map.mpr h
  have hjoin : Within (fun _ => 0) (forbidden A) (fun _ _ => True) 0 (2 * Job.total jobs)
      (Job.totalCost jobs) (Prog.join onError fuel (jobs.map Job.prog) acc) :=
    Within.join fuel 0 jobs acc hwithin (htotal ▸ hfuel)
  rw [htotal, hcost, hprogs] at hjoin
  exact hjoin

/-! ## Runs -/

lemma Ends.sat (h : Ends A Q d p) : p.Sat (fun _ => True) A Q := by
  induction p generalizing d with
  | ret a => exact h
  | call c k ih =>
    exact ⟨trivial, fun ans hans => ih ans (h.2.2 ans 0 (forbidden_eq_zero.mpr hans))⟩
  | pick m k ih => exact fun i => ih i (h.2.2 i)
  | drop cs k ih => exact ⟨fun _ _ => trivial, ih h.2⟩

/-- There is a run that returns, if every call can be answered. -/
theorem Ends.exists_returns (h : Ends A Q d p) (hA : ∀ c, ∃ ans, A c ans) :
    ∃ tr a, Returns p tr a ∧ (∀ e ∈ tr, Event.Allowed A e) ∧ Q a := by
  induction p generalizing d with
  | ret a => exact ⟨[], a, Steps.refl _, by simp, h⟩
  | call c k ih =>
    obtain ⟨ans, hans⟩ := hA c
    obtain ⟨tr, a, hrun, hallowed, ha⟩ := ih ans (h.2.2 ans 0 (forbidden_eq_zero.mpr hans))
    exact ⟨_, a, Steps.call ans hrun, List.forall_mem_cons.mpr ⟨hans, hallowed⟩, ha⟩
  | pick m k ih =>
    obtain ⟨tr, a, hrun, hallowed, ha⟩ := ih ⟨0, h.2.1⟩ (h.2.2 _)
    exact ⟨tr, a, Steps.pick _ hrun, hallowed, ha⟩
  | drop cs k ih =>
    obtain ⟨tr, a, hrun, hallowed, ha⟩ := ih h.2
    exact ⟨_, a, Steps.drop hrun, List.forall_mem_cons.mpr ⟨trivial, hallowed⟩, ha⟩

/-- A run that returns does so as the judgement says. -/
theorem Ends.of_returns {a : α} {tr : List (Event S)} (h : Ends A Q d p)
    (hrun : Returns p tr a) (hA : ∀ e ∈ tr, Event.Allowed A e) : Q a :=
  h.sat.of_returns hrun hA

end Prog

namespace StateProg

variable {S : Signature} {σ ε α β : Type} {A : (c : S.Call) → S.Ans c → Prop} {d e : ℕ}
  {Q : Except ε α × σ → Prop} {R : Except ε β × σ → Prop}

open Prog

variable {s : σ}

/-- **Stateful programs end one after another.** -/
lemma ends_exec_bind {m : StateProg S σ ε α} {f : α → StateProg S σ ε β}
    (h : Ends A Q d (m.exec s)) (hok : ∀ a s', Q (.ok a, s') → Ends A R e ((f a).exec s'))
    (herr : ∀ x s', Q (.error x, s') → R (.error x, s')) :
    Ends A R (d + e) ((m >>= f).exec s) := by
  rw [exec_bind]
  refine h.bind fun r hr => ?_
  obtain ⟨r, s'⟩ := r
  cases r with
  | ok a => exact hok a s' hr
  | error x => exact herr x s' hr

lemma ends_exec_get_bind {f : σ → StateProg S σ ε β} (h : Ends A R d ((f s).exec s)) :
    Ends A R d ((get >>= f).exec s) := h

lemma ends_exec_modify_bind {g : σ → σ} {f : PUnit → StateProg S σ ε β}
    (h : Ends A R d ((f ⟨⟩).exec (g s))) : Ends A R d ((modify g >>= f).exec s) := h

lemma ends_exec_ofProg {p : Prog S (Except ε α)} {P : Except ε α → Prop} (h : Ends A P d p) :
    Ends A (fun r => P r.1 ∧ r.2 = s) d ((ofProg p : StateProg S σ ε α).exec s) := by
  rw [exec_ofProg]
  exact h.bind (e := 0) fun r hr => ends_ret ⟨hr, rfl⟩

lemma ends_exec_ofCall {p : Prog S α} {P : α → Prop} (h : Ends A P d p) :
    Ends A (fun r => (∃ a, P a ∧ r.1 = .ok a) ∧ r.2 = s) d
      ((ofCall p : StateProg S σ ε α).exec s) := by
  rw [exec_ofCall]
  exact h.bind (e := 0) fun a ha => ends_ret ⟨⟨a, ha, rfl⟩, rfl⟩

end StateProg
