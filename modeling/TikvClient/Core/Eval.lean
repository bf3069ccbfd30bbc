import TikvClient.Core.Env

/-!
# Programs against a fixed environment

When every call has one answer, whenever it is made, a program without choices has one outcome.
`Prog.eval ans p` computes it; `none` means that the program does not return.
`Prog.evalSteps ans p` counts its steps.

**It is a run.**  `exists_returns_of_eval` connects the outcome to the runs of the program, and
`exists_run_of_eval` to those of an environment that may answer like that in some state.
-/

namespace Prog

variable {S : Signature} {α β ε : Type} {ans : (c : S.Call) → S.Ans c}

/-- The outcome of a program whose calls are answered by a function; of a choice, the first branch
is taken. -/
def eval (ans : (c : S.Call) → S.Ans c) : Prog S α → Option α
  | ret a => some a
  | call c k => (k (ans c)).eval ans
  | pick 0 _ => none
  | pick (_ + 1) k => (k 0).eval ans
  | drop _ k => k.eval ans

/-- How many steps the program takes. -/
def evalSteps (ans : (c : S.Call) → S.Ans c) {α : Type} : Prog S α → ℕ
  | ret _ => 0
  | call c k => (k (ans c)).evalSteps ans + 1
  | pick 0 _ => 0
  | pick (_ + 1) k => (k 0).evalSteps ans + 1
  | drop _ k => k.evalSteps ans + 1

@[simp] lemma eval_ret (a : α) : (ret a : Prog S α).eval ans = some a := rfl

@[simp] lemma eval_bind (p : Prog S α) (f : α → Prog S β) :
    (p.bind f).eval ans = (p.eval ans).bind fun a => (f a).eval ans := by
  induction p with
  | ret a => rfl
  | call c k ih => exact ih (ans c)
  | pick n k ih =>
    cases n with
    | zero => rfl
    | succ n => exact ih 0
  | drop cs k ih => exact ih

lemma isSome_eval_bind {p : Prog S α} {f : α → Prog S β} (hp : (p.eval ans).isSome = true)
    (hf : ∀ a, ((f a).eval ans).isSome = true) : ((p.bind f).eval ans).isSome = true := by
  obtain ⟨a, ha⟩ := Option.isSome_iff_exists.mp hp
  rw [eval_bind, ha]
  exact hf a

lemma eval_andThen_ok {p : Prog S (Except ε α)} {f : α → Prog S (Except ε β)} {a : α}
    (h : p.eval ans = some (.ok a)) : (p.andThen f).eval ans = (f a).eval ans := by
  rw [andThen, eval_bind, h]
  rfl

lemma eval_andThen_ret (p : Prog S (Except ε α)) (f : α → β) :
    (p.andThen fun a => ret (.ok (f a))).eval ans = (p.eval ans).map fun r => r.map f := by
  rw [andThen, eval_bind]
  cases p.eval ans with
  | none => rfl
  | some r => cases r <;> rfl

/-- **The outcome is the result of a run** in which every call is answered by the function. -/
theorem exists_returns_of_eval {p : Prog S α} {a : α} (h : p.eval ans = some a) :
    ∃ tr, Returns p tr a ∧ ∀ e ∈ tr, Event.Allowed (fun c x => x = ans c) e := by
  induction p with
  | ret b =>
    cases h
    exact ⟨[], Steps.refl _, by simp⟩
  | call c k ih =>
    obtain ⟨tr, hret, hans⟩ := ih (ans c) h
    exact ⟨_, Steps.call (ans c) hret, List.forall_mem_cons.mpr ⟨rfl, hans⟩⟩
  | pick n k ih =>
    cases n with
    | zero => cases h
    | succ n =>
      obtain ⟨tr, hret, hans⟩ := ih 0 h
      exact ⟨tr, Steps.pick 0 hret, hans⟩
  | drop cs k ih =>
    obtain ⟨tr, hret, hans⟩ := ih h
    exact ⟨_, Steps.drop hret, List.forall_mem_cons.mpr ⟨trivial, hans⟩⟩

/-- An environment that may answer all calls like that, and stays in its state, has such a run. -/
theorem exists_run_of_eval {W : Type} {E : Env S W} {w : W} {C : S.Call → Prop} {Q : α → Prop}
    (hreply : ∀ c, C c → E.reply w c (ans c) w) (hdropped : ∀ cs, E.dropped w cs w)
    {p : Prog S α} {a : α} (hsat : p.Sat C (fun c x => x = ans c) Q) (h : p.eval ans = some a) :
    ∃ tr, Returns p tr a ∧ E.Run w tr w := by
  induction p with
  | ret b =>
    cases h
    exact ⟨[], Steps.refl _, .refl w⟩
  | call c k ih =>
    obtain ⟨tr, hret, hrun⟩ := ih (ans c) (hsat.2 _ rfl) h
    exact ⟨_, Steps.call (ans c) hret, .answered (hreply c hsat.1) hrun⟩
  | pick n k ih =>
    cases n with
    | zero => cases h
    | succ n =>
      obtain ⟨tr, hret, hrun⟩ := ih 0 (hsat 0) h
      exact ⟨tr, Steps.pick 0 hret, hrun⟩
  | drop cs k ih =>
    obtain ⟨tr, hret, hrun⟩ := ih hsat.2 h
    exact ⟨_, Steps.drop hret, .dropped (hdropped cs) hrun⟩

end Prog
