import TikvClient.Core.Prog
import Mathlib.Data.List.Perm.Basic

/-!
# Joining concurrent programs

`join` runs a list of programs concurrently, as a set of unordered futures does: the scheduler
picks one of them, it advances by one node, and so on; results are collected in the order in
which the programs finish.  A program that fails either contributes to the results
(`onError e = some vs`) or makes the whole join fail at once, and the calls the others were
waiting for are dropped.

`interruptible` races a program against a signal, and drops it when the signal fires.

**The rule** is `Sat.join`.  Each program carries a label `i` and satisfies its own
postcondition `Q i`; every result of the join is then made of results of all the programs, in
some order, or is the failure of one of them.

**Runs.**  When no failure aborts a join, its events are those of complete runs of the programs,
interleaved (`interleaves_of_returns_join`).
-/

namespace Prog

variable {S : Signature} {α β ε ι : Type}

/-- The calls a program may be waiting for. -/
def pendingCalls : Prog S α → List S.Call
  | ret _ => []
  | call c _ => [c]
  | pick _ k => (List.ofFn fun i => (k i).pendingCalls).flatten
  | drop _ k => k.pendingCalls

/-- **Run the programs concurrently and collect their results.** -/
def join (onError : ε → Option (List β)) :
    ℕ → List (Prog S (Except ε (List β))) → List β → Prog S (Except ε (List β))
  | _, [], acc => ret (.ok acc)
  | 0, _ :: _, _ => stuck
  | n + 1, p :: ps, acc =>
    pick (ps.length + 1) fun i =>
      let rest := (p :: ps).eraseIdx i
      match (p :: ps).get i with
      | ret (.ok v) => join onError n rest (acc ++ v)
      | ret (.error e) =>
        match onError e with
        | some vs => join onError n rest (acc ++ vs)
        | none => drop (rest.flatMap pendingCalls) (ret (.error e))
      | call c k => call c fun ans => join onError n (k ans :: rest) acc
      | pick m k => pick m fun j => join onError n (k j :: rest) acc
      | drop cs k => drop cs (join onError n (k :: rest) acc)

/-- **Run the program until it returns or is interrupted.**  Before each of its calls the program
`poll` is asked; when it says so, the pending call is dropped and the result is `v`. -/
def interruptible (poll : Prog S Bool) (v : α) : Prog S α → Prog S α
  | ret a => ret a
  | call c k =>
    poll.bind fun fired =>
      if fired then drop [c] (ret v) else call c fun ans => interruptible poll v (k ans)
  | pick n k => pick n fun i => interruptible poll v (k i)
  | drop cs k => drop cs (interruptible poll v k)

/-- The scheduler may let any of the programs make its next call. -/
lemma steps_join_call (onError : ε → Option (List β)) (n : ℕ) (acc : List β)
    {ps : List (Prog S (Except ε (List β)))} {c : S.Call}
    {k : S.Ans c → Prog S (Except ε (List β))} (h : .call c k ∈ ps) (ans : S.Ans c) :
    ∃ rest, Steps (join onError (n + 1) ps acc) [.answered c ans]
      (join onError n (k ans :: rest) acc) := by
  obtain ⟨i, hi, hget⟩ := List.mem_iff_getElem.mp h
  cases ps with
  | nil => cases h
  | cons p ps =>
    refine ⟨(p :: ps).eraseIdx i, .pick ⟨i, by simpa using hi⟩ ?_⟩
    have hpick : (p :: ps).get ⟨i, hi⟩ = .call c k := hget
    simp only [hpick]
    exact .call ans (.refl _)

/-- What a finished program contributes to the results. -/
def contribution (onError : ε → Option (List β)) : Except ε (List β) → List β
  | .ok v => v
  | .error e => (onError e).getD []

/-- A result that does not abort the join. -/
def Absorbed (onError : ε → Option (List β)) : Except ε (List β) → Prop
  | .ok _ => True
  | .error e => onError e ≠ none

/-- The results of a join of programs labelled `labels` that satisfy `Q`. -/
def JoinPost (onError : ε → Option (List β)) (Q : ι → Except ε (List β) → Prop)
    (labels : List ι) (acc : List β) (r : Except ε (List β)) : Prop :=
  (∃ i ∈ labels, ∃ e, r = .error e ∧ Q i (.error e) ∧ onError e = none) ∨
    ∃ done : List (ι × Except ε (List β)), (done.map Prod.fst).Perm labels ∧
      (∀ d ∈ done, Q d.1 d.2 ∧ Absorbed onError d.2) ∧
      ∃ l, r = .ok l ∧ l.Perm (acc ++ done.flatMap fun d => contribution onError d.2)

variable {C : S.Call → Prop} {A : (c : S.Call) → S.Ans c → Prop}
  {Q : α → Prop} {p : Prog S α}

lemma Sat.pendingCalls (h : p.Sat C A Q) :
    ∀ c ∈ p.pendingCalls, C c := by
  induction p with
  | ret a => exact fun c hc => absurd hc List.not_mem_nil
  | call c k ih =>
    intro c' hc'
    rw [Prog.pendingCalls, List.mem_singleton] at hc'
    exact hc' ▸ h.1
  | pick n k ih =>
    intro c hc
    rw [Prog.pendingCalls, List.mem_flatten] at hc
    obtain ⟨l, hl, hcl⟩ := hc
    obtain ⟨i, rfl⟩ := List.mem_ofFn.mp hl
    exact ih i (h i) c hcl
  | drop cs k ih => exact ih h.2

section Rule

variable {onError : ε → Option (List β)} {Q : ι → Except ε (List β) → Prop}
  {labels : List ι} {acc : List β} {r : Except ε (List β)}

lemma JoinPost.of_perm {labels' : List ι}
    (hp : labels.Perm labels') (h : JoinPost onError Q labels acc r) :
    JoinPost onError Q labels' acc r := by
  rcases h with ⟨i, hi, e, he⟩ | ⟨done, hperm, hdone⟩
  · exact .inl ⟨i, hp.mem_iff.mp hi, e, he⟩
  · exact .inr ⟨done, hperm.trans hp, hdone⟩

/-- A program that finished first only adds its contribution. -/
lemma JoinPost.cons {i : ι} {x : Except ε (List β)} (hx : Q i x) (habs : Absorbed onError x)
    (h : JoinPost onError Q labels (acc ++ contribution onError x) r) :
    JoinPost onError Q (i :: labels) acc r := by
  rcases h with ⟨j, hj, e, he⟩ | ⟨done, hperm, hdone, l, rfl, hl⟩
  · exact .inl ⟨j, List.mem_cons_of_mem _ hj, e, he⟩
  · refine .inr ⟨(i, x) :: done, by simpa using hperm, ?_, l, rfl, ?_⟩
    · exact List.forall_mem_cons.mpr ⟨⟨hx, habs⟩, hdone⟩
    · simpa [List.append_assoc] using hl

/-- **The rule for joins**: programs that satisfy their own postconditions, run concurrently,
make only calls they make alone, and return what `JoinPost` says. -/
theorem Sat.join (n : ℕ) :
    ∀ (jobs : List (ι × Prog S (Except ε (List β)))) (acc : List β),
      (∀ j ∈ jobs, j.2.Sat C A (Q j.1)) →
      (Prog.join onError n (jobs.map Prod.snd) acc).Sat C A
        (JoinPost onError Q (jobs.map Prod.fst) acc) := by
  induction n with
  | zero =>
    intro jobs acc hjobs
    cases jobs with
    | nil => exact .inr ⟨[], by simp, by simp, acc, rfl, by simp⟩
    | cons j jobs => exact sat_stuck
  | succ n ih =>
    intro jobs acc hjobs
    cases jobs with
    | nil => exact .inr ⟨[], by simp, by simp, acc, rfl, by simp⟩
    | cons j jobs =>
      intro i
      have hi : i.1 < (j :: jobs).length := by
        have := i.2
        simpa using this
      -- The picked program, and the others with their labels.
      generalize hpicked : (j :: jobs).get ⟨i.1, hi⟩ = picked
      generalize hothers : (j :: jobs).eraseIdx i.1 = others
      have hperm : (picked :: others).Perm (j :: jobs) := by
        rw [← hpicked, ← hothers]
        exact List.getElem_cons_eraseIdx_perm hi
      have hlabels : (picked.1 :: others.map Prod.fst).Perm ((j :: jobs).map Prod.fst) := by
        simpa using hperm.map Prod.fst
      have hsat : ∀ x ∈ picked :: others, x.2.Sat C A (Q x.1) :=
        fun x hx => hjobs x (hperm.mem_iff.mp hx)
      have hp := hsat picked List.mem_cons_self
      have hrest : ∀ x ∈ others, x.2.Sat C A (Q x.1) :=
        fun x hx => hsat x (List.mem_cons_of_mem _ hx)
      have hget : (j.2 :: jobs.map Prod.snd).get i = picked.2 := by
        rw [← hpicked]
        simp [List.get_eq_getElem, ← List.map_cons]
      have herase : (j.2 :: jobs.map Prod.snd).eraseIdx i.1 = others.map Prod.snd := by
        rw [← List.map_cons, List.eraseIdx_map, hothers]
      simp only [hget, herase]
      obtain ⟨label, prog⟩ := picked
      refine Sat.post ?_ fun r => JoinPost.of_perm hlabels
      -- Advancing the picked program keeps its label and its postcondition.
      have hadvance : ∀ q : Prog S (Except ε (List β)), q.Sat C A (Q label) →
          (Prog.join onError n (q :: others.map Prod.snd) acc).Sat C A
            (JoinPost onError Q (label :: others.map Prod.fst) acc) := by
        intro q hq
        exact ih ((label, q) :: others) acc (List.forall_mem_cons.mpr ⟨hq, hrest⟩)
      have hfinish : ∀ x, Q label x → Absorbed onError x →
          (Prog.join onError n (others.map Prod.snd) (acc ++ contribution onError x)).Sat C A
            (JoinPost onError Q (label :: others.map Prod.fst) acc) :=
        fun x hx habs => (ih others _ hrest).post fun r => JoinPost.cons hx habs
      cases prog with
      | ret x =>
        cases x with
        | ok v => exact hfinish (.ok v) hp trivial
        | error e =>
          cases he : onError e with
          | some vs =>
            have := hfinish (.error e) hp (by simp [Absorbed, he])
            simpa [contribution, he] using this
          | none =>
            simp only [he]
            refine ⟨fun c hc => ?_, .inl ⟨label, List.mem_cons_self, e, rfl, hp, he⟩⟩
            obtain ⟨q, hq, hcq⟩ := List.mem_flatMap.mp hc
            obtain ⟨x, hx, rfl⟩ := List.mem_map.mp hq
            exact (hrest x hx).pendingCalls c hcq
      | call c k => exact ⟨hp.1, fun ans hans => hadvance _ (hp.2 ans hans)⟩
      | pick m k => exact fun i => hadvance _ (hp i)
      | drop cs k => exact ⟨hp.1, hadvance _ hp.2⟩

end Rule

/-! ## Runs -/

lemma exists_perm_cons_of_map {κ : Type} {l : List (κ × ι)} {a : κ} {rest : List κ}
    (h : (l.map Prod.fst).Perm (a :: rest)) :
    ∃ x others, l.Perm ((a, x) :: others) ∧ (others.map Prod.fst).Perm rest := by
  obtain ⟨⟨b, x⟩, hmem, rfl⟩ := List.mem_map.mp (h.mem_iff.mpr List.mem_cons_self)
  obtain ⟨l₁, l₂, rfl⟩ := List.append_of_mem hmem
  refine ⟨x, l₁ ++ l₂, List.perm_middle, ?_⟩
  exact ((List.perm_middle.map Prod.fst).symm.trans h).cons_inv

/-- The events of complete runs of the programs, interleaved; what the runs return is in `P`. -/
def Interleaves (P : α → Prop) (ps : List (Prog S α)) (tr : List (Event S)) : Prop :=
  ∃ runs : List (Prog S α × List (Event S)), (runs.map Prod.fst).Perm ps ∧
    (∀ run ∈ runs, ∃ x, Returns run.1 run.2 x ∧ P x) ∧ tr.Perm (runs.flatMap Prod.snd)

section Interleaves

variable {P : α → Prop} {ps : List (Prog S α)} {tr : List (Event S)}

lemma interleaves_nil : Interleaves P ([] : List (Prog S α)) [] := ⟨[], by simp, by simp, by simp⟩

lemma Interleaves.cons_ret (h : Interleaves P ps tr) {x : α} (hx : P x) :
    Interleaves P (.ret x :: ps) tr := by
  obtain ⟨runs, hprogs, hruns, htr⟩ := h
  refine ⟨(.ret x, []) :: runs, hprogs.cons _, ?_, by simpa using htr⟩
  exact List.forall_mem_cons.mpr ⟨⟨x, Steps.refl _, hx⟩, hruns⟩

lemma Interleaves.cons_step {q : Prog S α} (h : Interleaves P (q :: ps) tr) (p : Prog S α)
    (evs : List (Event S)) (hstep : ∀ run x, Returns q run x → Returns p (evs ++ run) x) :
    Interleaves P (p :: ps) (evs ++ tr) := by
  obtain ⟨runs, hprogs, hruns, htr⟩ := h
  obtain ⟨run, rest, hsplit, hrest⟩ := exists_perm_cons_of_map hprogs
  obtain ⟨x, hx, hP⟩ := hruns (q, run) (hsplit.mem_iff.mpr List.mem_cons_self)
  refine ⟨(p, evs ++ run) :: rest, hrest.cons p, ?_, ?_⟩
  · exact List.forall_mem_cons.mpr ⟨⟨x, hstep run x hx, hP⟩, fun y hy =>
      hruns y (hsplit.mem_iff.mpr (List.mem_cons_of_mem _ hy))⟩
  · rw [List.flatMap_cons, List.append_assoc]
    exact (htr.trans (hsplit.flatMap_right _)).append_left evs

end Interleaves

/-- **A run of a join that no failure aborts is made of runs of its programs.** -/
theorem interleaves_of_returns_join {onError : ε → Option (List β)} (n : ℕ) :
    ∀ {ps : List (Prog S (Except ε (List β)))} {acc : List β} {tr : List (Event S)}
      {r : Except ε (List β)}, Returns (join onError n ps acc) tr r → Absorbed onError r →
      Interleaves (Absorbed onError) ps tr := by
  induction n with
  | zero =>
    intro ps acc tr r h _
    cases ps with
    | nil =>
      obtain ⟨rfl, -⟩ := returns_ret_iff.mp h
      exact interleaves_nil
    | cons p ps => exact absurd h not_returns_stuck
  | succ n ih =>
    intro ps acc tr r h hr
    cases ps with
    | nil =>
      obtain ⟨rfl, -⟩ := returns_ret_iff.mp h
      exact interleaves_nil
    | cons p ps =>
      obtain ⟨i, h⟩ := returns_pick_iff.mp h
      generalize hpicked : (p :: ps).get i = picked at h
      generalize hothers : (p :: ps).eraseIdx i.1 = others at h
      have hperm : (picked :: others).Perm (p :: ps) := by
        rw [← hpicked, ← hothers]
        exact List.getElem_cons_eraseIdx_perm i.2
      suffices hrun : Interleaves (Absorbed onError) (picked :: others) tr by
        obtain ⟨runs, hprogs, hruns⟩ := hrun
        exact ⟨runs, hprogs.trans hperm, hruns⟩
      cases picked with
      | ret x =>
        cases x with
        | ok v => exact (ih h hr).cons_ret trivial
        | error e =>
          cases he : onError e with
          | some vs =>
            simp only [he] at h
            exact (ih h hr).cons_ret (by simp [Absorbed, he])
          | none =>
            simp only [he] at h
            obtain ⟨_, rfl, hret⟩ := returns_drop_iff.mp h
            obtain ⟨-, rfl⟩ := returns_ret_iff.mp hret
            exact absurd he hr
      | call c k =>
        obtain ⟨ans, tr, rfl, hrest⟩ := returns_call_iff.mp h
        exact (ih hrest hr).cons_step (.call c k) [.answered c ans] fun _ _ => Steps.call ans
      | pick m k =>
        obtain ⟨j, hrest⟩ := returns_pick_iff.mp h
        exact (ih hrest hr).cons_step (.pick m k) [] fun _ _ => Steps.pick j
      | drop cs k =>
        obtain ⟨tr, rfl, hrest⟩ := returns_drop_iff.mp h
        exact (ih hrest hr).cons_step (.drop cs k) [.dropped cs] fun _ _ => Steps.drop

end Prog
