import TikvClient.Core.Join

/-!
# Programs with a budget

How many calls a program makes before it returns.  Calls have a cost, and answers may be *marked*: a
program can be bound to a budget only as long as few of its answers are.

**The judgement.**  `p.Within cost marks Q r d n`: while the answers carry at most `r` marks, `p`
takes at most `d` steps, makes calls that cost at most `n`, is never stuck, and returns values that
satisfy `Q`, which is also told the marks that are left.

**The rules.**  Budgets add up along `bind` (`Within.bind`), and over concurrent programs
(`Within.join`), which draw on the same marks.  `Within.of_steps` transfers the judgement to runs.

**Long runs.**  `StepsIn s p tr q` is a run with `s` steps; what a program does alone it does in a
join (`StepsIn.join`).
-/

namespace Prog

variable {S : Signature} {α β ε : Type} {cost : S.Call → ℕ} {marks : (c : S.Call) → S.Ans c → ℕ}

/-- **The program keeps to a budget** of `r` marks, `d` steps and cost `n`. -/
def Within (cost : S.Call → ℕ) (marks : (c : S.Call) → S.Ans c → ℕ) (Q : ℕ → α → Prop) :
    ℕ → ℕ → ℕ → Prog S α → Prop
  | r, _, _, ret a => Q r a
  | r, d, n, call c k => 0 < d ∧ cost c ≤ n ∧
      ∀ ans r', marks c ans + r' = r → Within cost marks Q r' (d - 1) (n - cost c) (k ans)
  | r, d, n, pick m k => 0 < d ∧ 0 < m ∧ ∀ i, Within cost marks Q r (d - 1) n (k i)
  | r, d, n, drop _ k => 0 < d ∧ Within cost marks Q r (d - 1) n k

variable {Q : ℕ → α → Prop} {r d n : ℕ}

/-! ## Rules -/

lemma Within.mono {Q' : ℕ → α → Prop} {d' n' : ℕ}
    (h : Within cost marks Q r d n p) (hd : d ≤ d') (hn : n ≤ n')
    (hQ : ∀ s a, s ≤ r → Q s a → Q' s a) : Within cost marks Q' r d' n' p := by
  induction p generalizing r d d' n n' with
  | ret a => exact hQ r a (Nat.le_refl r) h
  | call c k ih =>
    obtain ⟨hpos, hcost, hk⟩ := h
    refine ⟨by omega, by omega, fun ans s hs => ?_⟩
    exact ih ans (hk ans s hs) (by omega) (by omega) fun s' a hs' => hQ s' a (by omega)
  | pick m k ih =>
    obtain ⟨hpos, hm, hk⟩ := h
    exact ⟨by omega, hm, fun i => ih i (hk i) (by omega) hn hQ⟩
  | drop cs k ih =>
    obtain ⟨hpos, hk⟩ := h
    exact ⟨by omega, ih hk (by omega) hn hQ⟩

lemma Within.fewer {r' : ℕ} (h : Within cost marks Q r d n p) (hr : r' ≤ r)
    (hQ : ∀ s s' a, s' ≤ s → Q s a → Q s' a) : Within cost marks Q r' d n p := by
  induction p generalizing r r' d n with
  | ret a => exact hQ r r' a hr h
  | call c k ih =>
    obtain ⟨hpos, hcost, hk⟩ := h
    refine ⟨hpos, hcost, fun ans s hs => ?_⟩
    exact ih ans (hk ans (s + (r - r')) (by omega)) (by omega)
  | pick m k ih => exact ⟨h.1, h.2.1, fun i => ih i (h.2.2 i) hr⟩
  | drop cs k ih => exact ⟨h.1, ih h.2 hr⟩

/-- **Budgets add up.** -/
lemma Within.bind {R : ℕ → β → Prop} {f : α → Prog S β} {e m : ℕ} (h : Within cost marks Q r d n p)
    (hf : ∀ r' a, r' ≤ r → Q r' a → Within cost marks R r' e m (f a)) :
    Within cost marks R r (d + e) (n + m) (p.bind f) := by
  induction p generalizing r d n with
  | ret a =>
    exact (hf r a (Nat.le_refl r) h).mono (by omega) (by omega) fun _ _ _ hb => hb
  | call c k ih =>
    obtain ⟨hpos, hcost, hk⟩ := h
    refine ⟨by omega, by omega, fun ans s hs => ?_⟩
    have hrest := ih ans (hk ans s hs) fun r' a hr' => hf r' a (by omega)
    exact hrest.mono (by omega) (by omega) fun _ _ _ hb => hb
  | pick i k ih =>
    obtain ⟨hpos, hi, hk⟩ := h
    refine ⟨by omega, hi, fun j => ?_⟩
    exact (ih j (hk j) hf).mono (by omega) (Nat.le_refl _) fun _ _ _ hb => hb
  | drop cs k ih =>
    obtain ⟨hpos, hk⟩ := h
    exact ⟨by omega, (ih hk hf).mono (by omega) (Nat.le_refl _) fun _ _ _ hb => hb⟩

lemma Within.andThen {R : ℕ → Except ε β → Prop} {Q : ℕ → Except ε α → Prop}
    {p : Prog S (Except ε α)} {f : α → Prog S (Except ε β)} {e m : ℕ}
    (h : Within cost marks Q r d n p)
    (hok : ∀ r' a, r' ≤ r → Q r' (.ok a) → Within cost marks R r' e m (f a))
    (herr : ∀ r' x, Q r' (.error x) → R r' (.error x)) :
    Within cost marks R r (d + e) (n + m) (p.andThen f) := by
  refine h.bind fun r' x hr' hx => ?_
  cases x with
  | ok a => exact hok r' a hr' hx
  | error x => exact herr r' x hx

lemma Within.and_sat {P : α → Prop} (h : Within cost marks Q r d n p)
    (hsat : p.Sat (fun _ => True) (fun _ _ => True) P) :
    Within cost marks (fun s a => Q s a ∧ P a) r d n p := by
  induction p generalizing r d n with
  | ret a => exact ⟨h, hsat⟩
  | call c k ih =>
    exact ⟨h.1, h.2.1, fun ans s hs => ih ans (h.2.2 ans s hs) (hsat.2 ans trivial)⟩
  | pick m k ih => exact ⟨h.1, h.2.1, fun i => ih i (h.2.2 i) (hsat i)⟩
  | drop cs k ih => exact ⟨h.1, ih h.2 hsat.2⟩

lemma within_ask (c : S.Call) :
    Within cost marks (fun s ans => marks c ans + s = r) r 1 (cost c) (ask c) :=
  ⟨by omega, Nat.le_refl _, fun _ _ hs => hs⟩

/-! ## Concurrent programs -/

section Join

variable {onError : ε → Option (List β)}

/-- A program with the steps and the cost it may take. -/
structure Job (S : Signature) (ε β : Type) where
  prog : Prog S (Except ε (List β))
  steps : ℕ
  cost : ℕ

/-- The steps of a join: one for every step of a job, and one to collect its result. -/
def Job.total (jobs : List (Job S ε β)) : ℕ := (jobs.map fun j => j.steps + 1).sum

def Job.totalCost (jobs : List (Job S ε β)) : ℕ := (jobs.map Job.cost).sum

@[simp] lemma Job.total_cons (j : Job S ε β) (jobs : List (Job S ε β)) :
    Job.total (j :: jobs) = j.steps + 1 + Job.total jobs := by
  simp [Job.total]

@[simp] lemma Job.totalCost_cons (j : Job S ε β) (jobs : List (Job S ε β)) :
    Job.totalCost (j :: jobs) = j.cost + Job.totalCost jobs := by
  simp [Job.totalCost]

/-- **Budgets of concurrent programs add up.** -/
theorem Within.join (fuel : ℕ) :
    ∀ (r : ℕ) (jobs : List (Job S ε β)) (acc : List β),
      (∀ j ∈ jobs, Within cost marks (fun _ _ => True) r j.steps j.cost j.prog) →
      Job.total jobs ≤ fuel →
      Within cost marks (fun _ _ => True) r (2 * Job.total jobs) (Job.totalCost jobs)
        (Prog.join onError fuel (jobs.map Job.prog) acc) := by
  induction fuel with
  | zero =>
    intro r jobs acc _ hfuel
    cases jobs with
    | nil => trivial
    | cons j jobs =>
      rw [Job.total_cons] at hfuel
      omega
  | succ fuel ih =>
    intro r jobs acc hjobs hfuel
    cases jobs with
    | nil => trivial
    | cons j jobs =>
      refine ⟨by rw [Job.total_cons]; omega, Nat.succ_pos _, fun i => ?_⟩
      have hi : i.1 < (j :: jobs).length := by simpa using i.2
      -- The picked program, and the others.
      generalize hpicked : (j :: jobs).get ⟨i.1, hi⟩ = picked
      generalize hothers : (j :: jobs).eraseIdx i.1 = others
      have hperm : (picked :: others).Perm (j :: jobs) := by
        rw [← hpicked, ← hothers]
        exact List.getElem_cons_eraseIdx_perm hi
      have htotal : Job.total (j :: jobs) = picked.steps + 1 + Job.total others := by
        rw [← Job.total_cons]
        exact (hperm.map _).sum_nat.symm
      have hcost : Job.totalCost (j :: jobs) = picked.cost + Job.totalCost others := by
        rw [← Job.totalCost_cons]
        exact (hperm.map _).sum_nat.symm
      have hin : ∀ x ∈ picked :: others,
          Within cost marks (fun _ _ => True) r x.steps x.cost x.prog :=
        fun x hx => hjobs x (hperm.mem_iff.mp hx)
      rw [htotal, hcost]
      rw [htotal] at hfuel
      have hget : (j.prog :: jobs.map Job.prog).get i = picked.prog := by
        rw [← hpicked]
        simp [List.get_eq_getElem, ← List.map_cons]
      have herase : (j.prog :: jobs.map Job.prog).eraseIdx i.1 = others.map Job.prog := by
        rw [← List.map_cons, List.eraseIdx_map, hothers]
      simp only [hget, herase]
      obtain ⟨hp, hrest⟩ := List.forall_mem_cons.mp hin
      have hrest' : ∀ s ≤ r, ∀ x ∈ others,
          Within cost marks (fun _ _ => True) s x.steps x.cost x.prog :=
        fun s hs x hx => (hrest x hx).fewer hs fun _ _ _ _ h => h
      obtain ⟨prog, steps, price⟩ := picked
      -- After a step of the picked program, with what is left of its budget.
      have hadvance : ∀ (s steps' price' : ℕ) (q : Prog S (Except ε (List β))),
          s ≤ r → steps' < steps → price' ≤ price →
          Within cost marks (fun _ _ => True) s steps' price' q →
          Within cost marks (fun _ _ => True) s (2 * (steps + 1 + Job.total others) - 1 - 1)
            (price' + Job.totalCost others)
            (Prog.join onError fuel (q :: others.map Job.prog) acc) := by
        intro s steps' price' q hs hsteps hprice hq
        have h := ih s (⟨q, steps', price'⟩ :: others) acc
          (List.forall_mem_cons.mpr ⟨hq, hrest' s hs⟩)
          (by rw [Job.total_cons]; dsimp only at hfuel ⊢; omega)
        rw [Job.total_cons, Job.totalCost_cons] at h
        exact h.mono (by dsimp only; omega) (Nat.le_refl _) fun _ _ _ h => h
      have hfinish : ∀ acc', Within cost marks (fun _ _ => True) r
          (2 * (steps + 1 + Job.total others) - 1) (price + Job.totalCost others)
          (Prog.join onError fuel (others.map Job.prog) acc') := by
        intro acc'
        exact (ih r others acc' hrest (by dsimp only at hfuel; omega)).mono (by omega)
          (by omega) fun _ _ _ h => h
      dsimp only at hp hfuel ⊢
      cases prog with
      | ret x =>
        cases x with
        | ok v => exact hfinish _
        | error e =>
          cases he : onError e with
          | some vs => simpa only [he] using hfinish (acc ++ vs)
          | none =>
            simp only [he]
            exact ⟨by omega, trivial⟩
      | call c k =>
        obtain ⟨hpos, hle, hk⟩ := hp
        refine ⟨by omega, by omega, fun ans s hs => ?_⟩
        have h := hadvance s (steps - 1) (price - cost c) (k ans) (by omega) (by omega)
          (by omega) (hk ans s hs)
        exact h.mono (Nat.le_refl _) (by omega) fun _ _ _ h => h
      | pick m k =>
        obtain ⟨hpos, hm, hk⟩ := hp
        exact ⟨by omega, hm, fun i =>
          hadvance r (steps - 1) price (k i) (Nat.le_refl r) (by omega) (Nat.le_refl _) (hk i)⟩
      | drop cs k =>
        obtain ⟨hpos, hk⟩ := hp
        exact ⟨by omega,
          hadvance r (steps - 1) price k (Nat.le_refl r) (by omega) (Nat.le_refl _) hk⟩

end Join

/-! ## Runs -/

/-- The cost of the calls a run was answered. -/
def traceCost (cost : S.Call → ℕ) : List (Event S) → ℕ
  | [] => 0
  | .answered c _ :: tr => cost c + traceCost cost tr
  | .dropped _ :: tr => traceCost cost tr

/-- The marks of the answers of a run. -/
def traceMarks (marks : (c : S.Call) → S.Ans c → ℕ) : List (Event S) → ℕ
  | [] => 0
  | .answered c ans :: tr => marks c ans + traceMarks marks tr
  | .dropped _ :: tr => traceMarks marks tr

/-- If only calls with a cost are marked, a run costs at least its marks. -/
lemma traceMarks_le_traceCost (h : ∀ c ans, marks c ans ≤ cost c) (tr : List (Event S)) :
    traceMarks marks tr ≤ traceCost cost tr := by
  induction tr with
  | nil => exact Nat.le_refl _
  | cons e tr ih =>
    cases e with
    | answered c ans => exact Nat.add_le_add (h c ans) ih
    | dropped cs => exact ih

/-- The program cannot go on: it waits for a choice among nothing. -/
def IsStuck : Prog S α → Prop
  | pick 0 _ => True
  | _ => False

/-- **A run keeps to the budget** as long as its answers carry no more marks than that, and it can
always go on. -/
theorem Within.of_steps
    (h : Within cost marks Q r d n p) (hs : Steps p tr q) (hr : traceMarks marks tr ≤ r) :
    traceCost cost tr ≤ n ∧ tr.length ≤ d ∧ ¬ q.IsStuck := by
  induction hs generalizing r d n with
  | refl p =>
    refine ⟨Nat.zero_le _, Nat.zero_le _, ?_⟩
    cases p with
    | pick m k =>
      cases m with
      | zero => exact absurd h.2.1 (by omega)
      | succ m => exact id
    | _ => exact id
  | @call c k tr q ans _ ih =>
    obtain ⟨hpos, hcost, hk⟩ := h
    have hmarks : marks c ans + traceMarks marks tr ≤ r := hr
    obtain ⟨hle, hlen, hq⟩ := ih (hk ans (r - marks c ans) (by omega)) (by omega)
    refine ⟨?_, ?_, hq⟩
    · rw [traceCost]
      omega
    · rw [List.length_cons]
      omega
  | pick i _ ih =>
    obtain ⟨hle, hlen, hq⟩ := ih (h.2.2 i) hr
    exact ⟨hle, by omega, hq⟩
  | drop _ ih =>
    obtain ⟨hle, hlen, hq⟩ := ih h.2 hr
    have hpos := h.1
    refine ⟨hle, ?_, hq⟩
    rw [List.length_cons]
    omega

/-! ## Long runs -/

/-- A run with `s` steps. -/
inductive StepsIn : ℕ → Prog S α → List (Event S) → Prog S α → Prop where
  | refl (p : Prog S α) : StepsIn 0 p [] p
  | call {s : ℕ} {c : S.Call} {k : S.Ans c → Prog S α} {tr : List (Event S)} {q : Prog S α}
      (ans : S.Ans c) (h : StepsIn s (k ans) tr q) :
      StepsIn (s + 1) (.call c k) (.answered c ans :: tr) q
  | pick {s n : ℕ} {k : Fin n → Prog S α} {tr : List (Event S)} {q : Prog S α}
      (i : Fin n) (h : StepsIn s (k i) tr q) : StepsIn (s + 1) (.pick n k) tr q
  | drop {s : ℕ} {cs : List S.Call} {k : Prog S α} {tr : List (Event S)} {q : Prog S α}
      (h : StepsIn s k tr q) : StepsIn (s + 1) (.drop cs k) (.dropped cs :: tr) q

variable {s s' : ℕ} {p q : Prog S α} {tr tr' : List (Event S)}

lemma StepsIn.steps (h : StepsIn s p tr q) : Steps p tr q := by
  induction h with
  | refl p => exact Steps.refl p
  | call ans _ ih => exact Steps.call ans ih
  | pick i _ ih => exact Steps.pick i ih
  | drop _ ih => exact Steps.drop ih

lemma StepsIn.append {q' : Prog S α} (h : StepsIn s p tr q) (h' : StepsIn s' q tr' q') :
    StepsIn (s + s') p (tr ++ tr') q' := by
  induction h with
  | refl p => simpa using h'
  | @call s _ _ _ _ ans _ ih =>
    rw [Nat.add_right_comm]
    exact StepsIn.call ans (ih h')
  | pick i _ ih =>
    rw [Nat.add_right_comm]
    exact StepsIn.pick i (ih h')
  | drop _ ih =>
    rw [Nat.add_right_comm]
    exact StepsIn.drop (ih h')

lemma StepsIn.join {p q : Prog S (Except ε (List β))} (onError : ε → Option (List β))
    (acc : List β) (h : StepsIn s p tr q) (fuel : ℕ) :
    StepsIn (2 * s) (Prog.join onError (fuel + s) [p] acc) tr (Prog.join onError fuel [q] acc) := by
  induction h with
  | refl p => exact StepsIn.refl _
  | call ans _ ih => exact StepsIn.pick 0 (StepsIn.call ans ih)
  | pick i _ ih => exact StepsIn.pick 0 (StepsIn.pick i ih)
  | drop _ ih => exact StepsIn.pick 0 (StepsIn.drop ih)

end Prog
