import Mathlib.Algebra.Order.BigOperators.Group.Finset
import Mathlib.Data.Finset.Max
import Mathlib.Data.Prod.Lex
import TikvClient.Transaction.LatchExclusion
import TikvClient.Transaction.LatchWaiters

/-!
# Latches: progress and cancellation

**The work that is left.**  Every step of a caller, of the background task and of a `recycle` task
makes `work` smaller, so a fair execution comes to rest (`eventually_rests`).

**At rest nobody waits.**  A lock that waits owns only keys before the one it waits for, because it
acquires them in order.  So the owner of the greatest key that somebody waits for does not wait
itself, and can go on (`exists_cancelled_of_waiting`): `latches_progress`.

**Unless a call was cancelled.**  The background task goes on acquiring for a lock whose `lock()`
was dropped while it was waiting, but there is no guard any more that would release the keys:
`attended_iff_no_cancel`.
-/

namespace TikvClient

variable {n size : ℕ}

namespace LatchView

variable {c : LatchConfig n size} {v v' : LatchView n size} {a : LatchAction n} {i l : Fin n}
  {key : Key}

/-! ## The work that is left -/

/-- The keys that a lock may still have to release. -/
def releaseWork (c : LatchConfig n size) (v : LatchView n size) (i : Fin n) : ℕ :=
  if v.phase i = .dropped then v.acquired i else (c.keys i).length

/-- The steps of `acquire`. -/
def acquireWork (c : LatchConfig n size) (v : LatchView n size) (i : Fin n) : ℕ :=
  if v.stale i then 0 else (c.keys i).length - v.acquired i + 1

/-- The steps of a caller, and a part of those that the background task makes because of it. -/
def callerWork (c : LatchConfig n size) (v : LatchView n size) (i : Fin n) : ℕ :=
  match v.phase i with
  | .idle => size + 10 + (c.keys i).length
  | .acquiring => size + 8 + v.acquireWork c i
  | .waiting => size + 7
  | .holding => size + 6
  | _ => 0

/-- The steps of the background task for the locks it has. -/
def wakeupWork (c : LatchConfig n size) (v : LatchView n size) (ws : List (Fin n)) : ℕ :=
  (ws.map fun w => v.acquireWork c w + 1).sum

/-- The other steps of the background task. -/
def eventWork (v : LatchView n size) : ℕ :=
  (size + 5) * v.channel.length +
    match v.task with
    | .idle => 0
    | .releasing _ _ => size + 4
    | .waking _ _ => size + 3

/-- The steps of the background task and of the `recycle` tasks. -/
def taskWork (c : LatchConfig n size) (v : LatchView n size) : ℕ :=
  v.wakeupWork c v.task.wakeups + v.eventWork + v.recycling

/-- All steps that are left before the next key is released. -/
def stepWork (c : LatchConfig n size) (v : LatchView n size) : ℕ :=
  ∑ i, v.callerWork c i + v.taskWork c

/-- **The work that is left**: a released key may let a lock acquire again, so the keys that are
still to be released come first. -/
def work (c : LatchConfig n size) (v : LatchView n size) : ℕ ×ₗ ℕ :=
  toLex (∑ i, v.releaseWork c i, v.stepWork c)

lemma sum_add_eq_sum_add {f g : Fin n → ℕ} (i : Fin n) (h : ∀ j, j ≠ i → g j = f j) :
    ∑ j, g j + f i = ∑ j, f j + g i := by
  have hrest : ∑ j ∈ Finset.univ.erase i, g j = ∑ j ∈ Finset.univ.erase i, f j :=
    Finset.sum_congr rfl fun j hj => h j (Finset.ne_of_mem_erase hj)
  rw [← Finset.add_sum_erase _ f (Finset.mem_univ i),
    ← Finset.add_sum_erase _ g (Finset.mem_univ i), hrest]
  omega

lemma releaseWork_of_ne (h : v.phase i ≠ .dropped) : v.releaseWork c i = (c.keys i).length :=
  if_neg h

variable {r : AcquireResult} {p : LatchPhase}

namespace Attempt

variable (h : Attempt c i key v v' r)

include h

lemma releaseWork_eq (hphase : v.phase i ≠ .dropped) : v'.releaseWork c = v.releaseWork c := by
  funext j
  by_cases hj : j = i
  · subst hj
    rw [releaseWork_of_ne hphase, releaseWork_of_ne (h.phase_eq ▸ hphase)]
  · simp only [releaseWork, h.phase_eq, h.acquired_of_ne hj]

lemma acquireWork_lt (hwanted : v.wantedKey c i = some key) (hr : r ≠ .locked) :
    v'.acquireWork c i < v.acquireWork c i := by
  obtain ⟨hstale, hnext⟩ := nextKey_of_wantedKey hwanted
  have hlt := (List.getElem?_eq_some_iff.mp hnext).1
  cases h with
  | stale => simp [acquireWork, markStale, hstale]
  | success =>
    simp only [acquireWork, grant, hstale, Function.update_self]
    simp
    omega
  | locked => exact absurd rfl hr

lemma acquireWork_of_ne {j : Fin n} (hj : j ≠ i) : v'.acquireWork c j = v.acquireWork c j := by
  cases h with
  | stale => simp [acquireWork, markStale, hj]
  | success => simp [acquireWork, grant, hj]
  | locked => rfl

end Attempt

lemma acquireWork_le : v.acquireWork c i ≤ (c.keys i).length + 1 := by
  unfold acquireWork
  split <;> omega

lemma releaseWork_setPhase_le (h : Owned c v) (hphase : v.phase i ≠ .dropped)
    (j : Fin n) : (v.setPhase i p).releaseWork c j ≤ v.releaseWork c j := by
  by_cases hj : j = i
  · subst hj
    rw [releaseWork_of_ne hphase]
    unfold releaseWork
    split
    · exact h.acquired_le j
    · exact le_rfl
  · simp [releaseWork, setPhase, hj]

lemma work_lt_of_stepWork_lt (hrelease : ∀ j, v'.releaseWork c j ≤ v.releaseWork c j)
    (hstep : v'.stepWork c < v.stepWork c) : v'.work c < v.work c := by
  rw [work, work, Prod.Lex.toLex_lt_toLex]
  have hsum : ∑ j, v'.releaseWork c j ≤ ∑ j, v.releaseWork c j :=
    Finset.sum_le_sum fun j _ => hrelease j
  obtain hlt | heq := hsum.lt_or_eq
  · exact .inl hlt
  · exact .inr ⟨heq, hstep⟩

lemma stepWork_lt_of_caller (i : Fin n) (hother : ∀ j, j ≠ i → v'.callerWork c j = v.callerWork c j)
    (hi : v'.callerWork c i + v'.taskWork c < v.callerWork c i + v.taskWork c) :
    v'.stepWork c < v.stepWork c := by
  have hsum := sum_add_eq_sum_add i hother
  unfold stepWork
  omega

lemma work_lt_of_taskWork_lt (hrelease : v'.releaseWork c = v.releaseWork c)
    (hcaller : v'.callerWork c = v.callerWork c) (htask : v'.taskWork c < v.taskWork c) :
    v'.work c < v.work c := by
  refine work_lt_of_stepWork_lt (fun j => (congrFun hrelease j).le) ?_
  unfold stepWork
  rw [hcaller]
  omega

lemma wakeupWork_congr {ws : List (Fin n)}
    (h : ∀ w ∈ ws, v'.acquireWork c w = v.acquireWork c w) :
    v'.wakeupWork c ws = v.wakeupWork c ws := by
  unfold wakeupWork
  congr 1
  exact List.map_congr_left fun w hw => by rw [h w hw]

lemma wakeupWork_cons (w : Fin n) (ws : List (Fin n)) :
    v.wakeupWork c (w :: ws) = v.acquireWork c w + 1 + v.wakeupWork c ws := rfl

lemma callerWork_setPhase_of_ne {j : Fin n} (hj : j ≠ i) :
    (v.setPhase i p).callerWork c j = v.callerWork c j := by
  have hphase : (v.setPhase i p).phase j = v.phase j := Function.update_of_ne hj _ _
  unfold callerWork
  rw [hphase]
  rfl

lemma work_setPhase_lt (h : Owned c v) (hphase : v.phase i ≠ .dropped)
    (hp : (v.setPhase i p).callerWork c i < v.callerWork c i) :
    (v.setPhase i p).work c < v.work c := by
  refine work_lt_of_stepWork_lt (releaseWork_setPhase_le h hphase)
    (stepWork_lt_of_caller i (fun j hj => callerWork_setPhase_of_ne hj) ?_)
  exact Nat.add_lt_add_right hp _

lemma work_release_lt {ws : List (Fin n)} {idx : ℕ} {next : Option (Fin n)}
    (h : Consistent c v) (htask : v.task = .releasing l ws) (hcount : v.acquired l = idx + 1)
    (htakes : Takes c key (v.release l idx key) v' next) (task : LatchTask n) :
    ({ v' with task := task } : LatchView n size).work c < v.work c := by
  have hl : v.phase l = .dropped := (h.sent.current l (by rw [htask]; rfl)).1
  have hphase : v'.phase = v.phase := htakes.phase_eq
  have hnext : ∀ j, v.phase j = .dropped → next ≠ some j := by
    intro j hj heq
    have hawait := (h.asleep.queued _ j (htakes.next_mem heq)).1
    simp [hj, LatchPhase.awaiting] at hawait
  have hself : v'.acquired l = idx := by
    rw [htakes.acquired_of_ne (hnext l hl)]
    exact Function.update_self _ _ _
  rw [work, work, Prod.Lex.toLex_lt_toLex]
  refine .inl (Finset.sum_lt_sum (fun j _ => ?_) ⟨l, Finset.mem_univ l, ?_⟩)
  · show (if v'.phase j = .dropped then v'.acquired j else (c.keys j).length) ≤ v.releaseWork c j
    rw [hphase, releaseWork]
    split_ifs with hj
    · rw [htakes.acquired_of_ne (hnext j hj)]
      by_cases hjl : j = l
      · subst hjl
        simp [LatchView.release, hcount]
      · simp [LatchView.release, hjl]
    · exact le_rfl
  · show (if v'.phase l = .dropped then v'.acquired l else (c.keys l).length) < v.releaseWork c l
    rw [hphase, releaseWork, if_pos hl, if_pos hl, hself, hcount]
    exact Nat.lt_succ_self idx

lemma Attempt.eventWork_eq (h : Attempt c i key v v' r) :
    v'.eventWork = v.eventWork := by
  unfold eventWork
  rw [h.channel_eq, h.task_eq]

lemma Attempt.recycling_eq (h : Attempt c i key v v' r) :
    v'.recycling = v.recycling := by
  cases h <;> rfl

/-- What a caller that sleeps has to do does not depend on what is acquired for it. -/
lemma Attempt.callerWork_eq (h : Attempt c i key v v' r)
    (hphase : v.phase i ≠ .acquiring) : v'.callerWork c = v.callerWork c := by
  funext j
  unfold callerWork
  rw [h.phase_eq]
  by_cases hj : j = i
  · subst hj
    split
    case h_2 heq => exact absurd heq hphase
    all_goals rfl
  · rw [h.acquireWork_of_ne hj]

lemma work_acquire_lt (h : Consistent c v) (hphase : v.phase i = .acquiring)
    (hwanted : v.wantedKey c i = some key) (hattempt : Attempt c i key v v' r) (hr : r ≠ .locked) :
    v'.work c < v.work c := by
  have hnot : i ∉ v.task.wakeups := by
    intro hi
    simpa [hphase, LatchPhase.awaiting] using (h.asleep.taken i hi).1
  have hwakeup : v'.wakeupWork c v.task.wakeups = v.wakeupWork c v.task.wakeups :=
    wakeupWork_congr fun w hw => hattempt.acquireWork_of_ne fun heq => hnot (heq ▸ hw)
  have htask : v'.taskWork c = v.taskWork c := by
    unfold taskWork
    rw [hattempt.eventWork_eq, hattempt.recycling_eq, hattempt.task_eq, hwakeup]
  refine work_lt_of_stepWork_lt (fun j => ?_) (stepWork_lt_of_caller i (fun j hj => ?_) ?_)
  · rw [hattempt.releaseWork_eq (by simp [hphase])]
  · unfold callerWork
    rw [hattempt.phase_eq, hattempt.acquireWork_of_ne hj]
  · have hlt := hattempt.acquireWork_lt hwanted hr
    have hphase' : v'.phase i = .acquiring := by rw [hattempt.phase_eq, hphase]
    rw [htask, callerWork, callerWork, hphase, hphase']
    dsimp only
    omega

lemma work_drop_lt (h : Owned c v) (hphase : v.phase i = .holding) :
    ({ v.setPhase i .dropped with channel := v.channel ++ [i] } : LatchView n size).work c <
      v.work c := by
  refine work_lt_of_stepWork_lt (releaseWork_setPhase_le h (by simp [hphase]))
    (stepWork_lt_of_caller i (fun j hj => callerWork_setPhase_of_ne hj) ?_)
  have hevent : eventWork { v.setPhase i .dropped with channel := v.channel ++ [i] } =
      v.eventWork + (size + 5) := by
    simp only [eventWork, setPhase, List.length_append, List.length_singleton, Nat.mul_add,
      Nat.mul_one]
    omega
  have hcaller : callerWork c { v.setPhase i .dropped with channel := v.channel ++ [i] } i = 0 := by
    simp [callerWork, setPhase]
  have hbefore : v.callerWork c i = size + 6 := by
    unfold callerWork
    rw [hphase]
  have htask : taskWork c { v.setPhase i .dropped with channel := v.channel ++ [i] } =
      v.wakeupWork c v.task.wakeups + (v.eventWork + (size + 5)) + v.recycling :=
    congrArg (v.wakeupWork c v.task.wakeups + · + v.recycling) hevent
  rw [htask, hcaller, hbefore, taskWork]
  omega

/-- **The work gets less** with every step, and no action makes it more. -/
lemma work_move (h : Consistent c v) (hmove : Move c v a v') :
    a.isProgress = true ∧ v'.work c < v.work c ∨ a.isProgress = false ∧ v'.work c ≤ v.work c := by
  have howned := h.owned
  cases hmove with
  | @call i hphase =>
    refine .inl ⟨rfl, work_setPhase_lt howned (by simp [hphase]) ?_⟩
    have hle := acquireWork_le (c := c) (v := v.setPhase i .acquiring) (i := i)
    simp only [callerWork, setPhase, Function.update_self, hphase] at hle ⊢
    omega
  | acquired hphase | resume hphase =>
    refine .inl ⟨rfl, work_setPhase_lt howned (by simp [hphase]) ?_⟩
    simp only [callerWork, setPhase, Function.update_self, hphase]
    omega
  | acquire hphase hwanted hattempt hr =>
    exact .inl ⟨rfl, work_acquire_lt h hphase hwanted hattempt hr⟩
  | @sleep i key v₁ hphase hwanted hattempt =>
    have hphase₁ : v₁.phase i = .acquiring := by rw [hattempt.phase_eq, hphase]
    have hlt : (v₁.setPhase i .waiting).work c < v₁.work c := by
      refine work_setPhase_lt (howned.attempt hwanted hattempt) (by simp [hphase₁]) ?_
      simp only [callerWork, setPhase, Function.update_self, hphase₁]
      omega
    refine .inl ⟨rfl, hlt.trans_le (le_of_eq ?_)⟩
    cases hattempt
    rfl
  | setCommitTs => exact .inr ⟨rfl, le_rfl⟩
  | drop hphase => exact .inl ⟨rfl, work_drop_lt howned hphase⟩
  | cancel hphase =>
    refine .inr ⟨rfl, (work_setPhase_lt howned (by simp [hphase]) ?_).le⟩
    simp only [callerWork, setPhase, Function.update_self, hphase]
    omega
  | recv htask hchannel =>
    refine .inl ⟨rfl, work_lt_of_taskWork_lt rfl rfl ?_⟩
    simp only [taskWork, eventWork, htask, hchannel, LatchTask.wakeups, List.length_cons,
      Nat.mul_add, Nat.mul_one]
    simp only [wakeupWork, List.map_nil, List.sum_nil]
    omega
  | @released l ws htask =>
    refine .inl ⟨rfl, work_lt_of_taskWork_lt rfl rfl ?_⟩
    have htask' : taskWork c { v with task := .waking l ws } =
      v.wakeupWork c ws + ((size + 5) * v.channel.length + (size + 3)) + v.recycling := rfl
    rw [htask', taskWork, eventWork, htask]
    dsimp only [LatchTask.wakeups]
    omega
  | release htask hcount _ htakes => exact .inl ⟨rfl, work_release_lt h htask hcount htakes _⟩
  | @woken l w ws htask hwanted =>
    refine .inl ⟨rfl, work_lt_of_taskWork_lt rfl rfl ?_⟩
    have htask' : taskWork c { v.wake w with task := .waking l ws } =
      v.wakeupWork c ws + ((size + 5) * v.channel.length + (size + 3)) + v.recycling := rfl
    rw [htask', taskWork, eventWork, htask]
    dsimp only [LatchTask.wakeups]
    rw [wakeupWork_cons]
    omega
  | @wakeup l w ws key _ _ htask hwanted hattempt hr =>
    have hws : v.task.wakeups = w :: ws := by rw [htask]; rfl
    have hw := h.asleep.head_phase htask
    have hacquiring : v.phase w ≠ .acquiring := by
      intro hphase
      have hawait := (h.asleep.taken w (by simp [hws])).1
      simp [hphase, LatchPhase.awaiting] at hawait
    have hlt := hattempt.acquireWork_lt hwanted hr
    have hrest : v'.wakeupWork c ws = v.wakeupWork c ws := by
      refine wakeupWork_congr fun j hj => hattempt.acquireWork_of_ne ?_
      rintro rfl
      exact (List.nodup_cons.mp (hws ▸ h.asleep.wakeups_nodup)).1 hj
    refine .inl ⟨rfl, work_lt_of_taskWork_lt (hattempt.releaseWork_eq hw.2.2) ?_ ?_⟩
    · exact hattempt.callerWork_eq hacquiring
    · rw [taskWork, taskWork, hattempt.eventWork_eq, hattempt.recycling_eq, hattempt.task_eq, hws,
        wakeupWork_cons, wakeupWork_cons, hrest]
      omega
  | @requeue l w ws key v₁ htask hwanted hattempt =>
    have hws : v.task.wakeups = w :: ws := by rw [htask]; rfl
    refine .inl ⟨rfl, work_lt_of_taskWork_lt ?_ ?_ ?_⟩
    · cases hattempt
      rfl
    · cases hattempt
      rfl
    · have htask' : taskWork c { v₁ with task := .waking l ws } =
          v.wakeupWork c ws + ((size + 5) * v.channel.length + (size + 3)) + v.recycling := by
        cases hattempt
        rfl
      rw [htask', taskWork, eventWork, hws, htask, wakeupWork_cons]
      dsimp only
      omega
  | @finish l work htask hwork =>
    refine .inl ⟨rfl, work_lt_of_taskWork_lt rfl rfl ?_⟩
    have htask' : taskWork c { v with task := .idle, recycling := work } =
      0 + ((size + 5) * v.channel.length + 0) + work := rfl
    rw [htask', taskWork, eventWork, htask]
    dsimp only [LatchTask.wakeups]
    omega
  | recycle hwork =>
    refine .inl ⟨rfl, work_lt_of_taskWork_lt rfl rfl ?_⟩
    exact Nat.add_lt_add_left hwork _

lemma lt_of_wantedKey {k k' : Key} (hk : k ∈ (c.keys i).take (v.acquired i))
    (hwanted : v.wantedKey c i = some k') : k < k' := by
  obtain ⟨j, hj, rfl⟩ := List.mem_take_iff_getElem.mp hk
  obtain ⟨hlt, rfl⟩ := List.getElem?_eq_some_iff.mp (nextKey_of_wantedKey hwanted).2
  exact List.pairwise_iff_getElem.mp (c.keys_pairwise i) j _ _ hlt (by omega)

/-- The owner of the greatest key that somebody waits for does not wait. -/
lemma exists_owner_not_waiting (hcons : Consistent c v) (hheard : Heard c v)
    (hwakeups : v.task.wakeups = []) {slot : Fin size} (hi : i ∈ v.waiting slot) :
    ∃ o, 0 < v.acquired o ∧ ∀ slot, o ∉ v.waiting slot := by
  let waits : Finset (Fin n) := {j | ∃ slot, j ∈ v.waiting slot}
  have hmem : ∀ {j}, j ∈ waits ↔ ∃ slot, j ∈ v.waiting slot := by simp [waits]
  obtain ⟨j, hj, hmax⟩ := waits.exists_max_image (fun j => (v.wantedKey c j).getD .empty)
    ⟨i, hmem.mpr ⟨slot, hi⟩⟩
  obtain ⟨slot', hj⟩ := hmem.mp hj
  obtain ⟨-, -, -, k, hk, -⟩ := hcons.asleep.queued slot' j hj
  obtain hown | ⟨p, hp, -⟩ := hheard.waiters slot' j k hj hk
  · obtain ⟨o, ho⟩ := Option.ne_none_iff_exists'.mp hown
    have htake := (hcons.owned.owner_iff k o).mp ho
    refine ⟨o, ?_, fun slot'' hwait => ?_⟩
    · by_contra hzero
      rw [Nat.eq_zero_of_not_pos hzero] at htake
      simp at htake
    · obtain ⟨-, -, -, k', hk', -⟩ := hcons.asleep.queued slot'' o hwait
      have hle := hmax o (hmem.mpr ⟨slot'', hwait⟩)
      rw [hk, hk'] at hle
      exact absurd (lt_of_wantedKey htake hk') (not_lt.mpr hle)
  · rw [hwakeups] at hp
    cases hp

lemma Move.cancelled_iff (hmove : Move c v a v') (i : Fin n) :
    v'.phase i = .cancelled ↔ v.phase i = .cancelled ∨ a = .cancel i := by
  have hset : ∀ {j : Fin n} {p : LatchPhase}, v.phase j ≠ .cancelled → p ≠ .cancelled →
      (Function.update v.phase j p i = .cancelled ↔ v.phase i = .cancelled) := by
    intro j p hj hp
    by_cases hij : i = j
    · simp [hij, hj, hp]
    · simp [hij]
  cases hmove with
  | call hphase | drop hphase => simpa [setPhase] using hset (by simp [hphase]) (by simp)
  | acquired hphase | resume hphase =>
    simpa [setPhase, record] using hset (by simp [hphase]) (by simp)
  | acquire _ _ hattempt | wakeup _ _ hattempt | requeue _ _ hattempt => simp [hattempt.phase_eq]
  | sleep hphase _ hattempt =>
    simpa [setPhase, hattempt.phase_eq] using hset (p := .waiting) (by simp [hphase]) (by simp)
  | @cancel j hphase =>
    by_cases hij : i = j
    · simp [setPhase, hij]
    · simp [setPhase, hij, eq_comm]
  | release _ _ _ htakes => simp [htakes.phase_eq, LatchView.release]
  | woken => simp [wake]
  | _ => simp

end LatchView

/-! ## Rest -/

namespace LatchState

open LatchView

variable {c : LatchConfig n size} {s s' : LatchState n size}

/-- **Nothing goes on**: no caller, no task can make a step. -/
structure AtRest (s : LatchState n size) : Prop where
  phase : ∀ i, s.phase i = .dropped ∨ s.phase i = .cancelled ∨
    s.phase i = .waiting ∧ (s.locks i).woken = false
  task : s.task = .idle
  channel : s.channel = []
  recycles : s.recycles = []

lemma atRest_iff : AtRest s ↔ ¬ Machine.Enabled (step c) (·.isProgress = true) s := by
  constructor
  · rintro hrest ⟨a, ha, hsome⟩
    have hphase := hrest.phase
    cases a with
    | call i | acquire i | drop i =>
      rcases hphase i with hp | hp | ⟨hp, -⟩ <;> simp [step, hp] at hsome
    | resume i => rcases hphase i with hp | hp | ⟨hp, hw⟩ <;> simp [step, *] at hsome
    | setCommitTs i ts => cases ha
    | cancel i => cases ha
    | recv => simp [step, hrest.task, hrest.channel] at hsome
    | release | wakeup | finish => simp [step, hrest.task] at hsome
    | recycle j => simp [step, hrest.recycles] at hsome
  · intro hrest
    have hno : ∀ a : LatchAction n, a.isProgress = true → step c s a = none := by
      intro a ha
      by_contra hsome
      exact hrest ⟨a, ha, Option.isSome_iff_ne_none.mpr hsome⟩
    have htask : s.task = .idle := by
      cases htask : s.task with
      | idle => rfl
      | releasing l ws =>
        have := hno .release rfl
        simp only [step, htask] at this
        split at this <;> cases this
      | waking l ws =>
        cases ws with
        | nil =>
          have := hno .finish rfl
          simp [step, htask] at this
        | cons w ws =>
          have := hno .wakeup rfl
          simp only [step, htask] at this
          split at this
          · cases this
          · split at this <;> cases this
    refine ⟨fun i => ?_, htask, ?_, ?_⟩
    · cases hp : s.phase i with
      | idle =>
        have := hno (.call i) rfl
        simp [step, hp] at this
      | acquiring =>
        have := hno (.acquire i) rfl
        simp only [step, hp] at this
        split at this
        · cases this
        · split at this <;> cases this
      | waiting =>
        have := hno (.resume i) rfl
        simp only [step, hp] at this
        refine .inr (.inr ⟨rfl, ?_⟩)
        by_contra hwoken
        simp [Bool.not_eq_false] at hwoken
        simp [hwoken] at this
      | holding =>
        have := hno (.drop i) rfl
        simp [step, hp] at this
      | dropped => exact .inl rfl
      | cancelled => exact .inr (.inl rfl)
    · cases hchannel : s.channel with
      | nil => rfl
      | cons l rest =>
        have := hno .recv rfl
        simp [step, htask, hchannel] at this
    · cases hrecycles : s.recycles with
      | nil => rfl
      | cons task rest =>
        have := hno (.recycle 0) rfl
        simp only [step, hrecycles, List.getElem?_cons_zero] at this
        split at this <;> cases this

variable {e : Machine.Execution (step c) (init n size)} {i : Fin n}

lemma eventually_rests
    (hfair : e.Fair (·.isProgress = true)) (m : ℕ) : ∃ m', m ≤ m' ∧ AtRest (e.state m') := by
  have hwork : ∀ {s s' : LatchState n size} {a : LatchAction n}, Consistent c (s.view c) →
      step c s a = some s' →
      a.isProgress = true ∧ (s'.view c).work c < (s.view c).work c ∨
        a.isProgress = false ∧ (s'.view c).work c ≤ (s.view c).work c := by
    intro s s' a hcons hstep
    obtain ⟨v, hv, hmove⟩ := step_view hcons.owned hstep
    have hsame : v.work c = (s.view c).work c := by
      obtain rfl | ⟨ts, max, -, rfl⟩ := hv <;> rfl
    rw [← hsame]
    exact work_move (hcons.recycles hv) hmove
  obtain ⟨m', hm, hrest⟩ := hfair.eventually_quiescent (fun s => (s.view c).work c)
    (fun m => consistent_of_reach (e.reach m)) e.obeys_true
    (fun s a s' hcons _ ha hstep => by
      obtain ⟨-, hlt⟩ | ⟨hno, -⟩ := hwork hcons hstep
      · exact hlt
      · rw [ha] at hno
        cases hno)
    (fun s a s' hcons _ ha hstep => by
      obtain ⟨hyes, -⟩ | ⟨-, hle⟩ := hwork hcons hstep
      · exact absurd hyes ha
      · exact hle) m
  exact ⟨m', hm, atRest_iff.mpr hrest⟩

/-- At rest, a lock that has a key was cancelled. -/
lemma AtRest.cancelled (h : AtRest s) (hcons : Consistent c (s.view c))
    (hpos : 0 < (s.locks i).acquiredCount) (hwait : ∀ slot, i ∉ (s.slots slot).waiting) :
    s.phase i = .cancelled := by
  rcases h.phase i with hp | hp | ⟨hp, hwoken⟩
  · have hzero := hcons.sent.released i hp (by simp [view, h.channel])
      (by simp [view, h.task, LatchTask.releases])
    exact absurd hzero hpos.ne'
  · exact hp
  · have hawait : (s.phase i).awaiting = true := by
      rw [hp]
      rfl
    obtain hin | ⟨slot, hin⟩ := hcons.asleep.located i hawait hwoken
    · simp [view, h.task, LatchTask.wakeups] at hin
    · exact absurd hin (hwait slot)

/-- At rest, a lock that was cancelled or waits is the reason that a cancelled lock has a key. -/
lemma AtRest.exists_cancelled (h : AtRest s) (hcons : Consistent c (s.view c))
    (hheard : Heard c (s.view c)) (hi : s.phase i ≠ .dropped) :
    ∃ o, s.phase o = .cancelled ∧ 0 < (s.locks o).acquiredCount := by
  have hawait : (s.phase i).awaiting = true := by
    rcases h.phase i with hp | hp | ⟨hp, -⟩
    · exact absurd hp hi
    · rw [hp]
      rfl
    · rw [hp]
      rfl
  have hwakeups : (s.view c).task.wakeups = [] := by simp [view, h.task, LatchTask.wakeups]
  have hqueued : ∀ slot j, j ∈ (s.slots slot).waiting →
      ∃ o, s.phase o = .cancelled ∧ 0 < (s.locks o).acquiredCount := by
    intro slot j hj
    obtain ⟨o, hpos, hwait⟩ := exists_owner_not_waiting hcons hheard hwakeups
      (show j ∈ (s.view c).waiting slot from hj)
    exact ⟨o, h.cancelled hcons hpos hwait, hpos⟩
  cases hwoken : (s.locks i).woken with
  | false =>
    obtain hin | ⟨slot, hin⟩ := hcons.asleep.located i hawait hwoken
    · rw [hwakeups] at hin
      cases hin
    · exact hqueued slot i hin
  | true =>
    have hpos := hheard.woken i hawait hwoken
    refine ⟨i, h.cancelled hcons hpos fun slot hin => ?_, hpos⟩
    have hfalse := (hcons.asleep.queued slot i hin).2.1
    simp [show (s.view c).woken i = true from hwoken] at hfalse

/-! ## Progress -/

lemma cancelled_step_iff {a : LatchAction n} (hcons : Consistent c (s.view c))
    (hstep : step c s a = some s') (i : Fin n) :
    s'.phase i = .cancelled ↔ s.phase i = .cancelled ∨ a = .cancel i := by
  obtain ⟨v, hv, hmove⟩ := step_view hcons.owned hstep
  have hiff := hmove.cancelled_iff i
  rw [hv.phase_eq] at hiff
  exact hiff

lemma ne_cancelled_of_reach (h : Machine.Reach (step c) (fun _ a => ∀ i, a ≠ .cancel i)
    (init n size) s) (i : Fin n) : s.phase i ≠ .cancelled := by
  have hboth : Consistent c (s.view c) ∧ ∀ i, s.phase i ≠ .cancelled := by
    refine h.invariant (I := fun s => Consistent c (s.view c) ∧ ∀ i, s.phase i ≠ .cancelled)
      ⟨consistent_init c, fun i => by simp [init]⟩ ?_
    rintro s a s' ⟨hcons, hphase⟩ hno hstep
    refine ⟨consistent_step hcons hstep, fun i hi => ?_⟩
    exact ((cancelled_step_iff hcons hstep i).mp hi).elim (hphase i) (hno i)
  exact hboth.2 i

/-- When all guards have been dropped and nothing goes on, no action is possible. -/
lemma AtRest.stuck (h : AtRest s) (hdropped : ∀ i, s.phase i = .dropped) (a : LatchAction n) :
    step c s a = none := by
  cases ha : a.isProgress with
  | true =>
    by_contra hsome
    exact atRest_iff.mp h ⟨a, ha, Option.isSome_iff_ne_none.mpr hsome⟩
  | false =>
    cases a with
    | setCommitTs i | cancel i => simp [step, hdropped i]
    | _ => cases ha

lemma eventually_dropped
    (hfair : e.Fair (·.isProgress = true)) (hcancel : ∀ m i, e.action m ≠ some (.cancel i)) :
    ∃ m, (∀ m', m ≤ m' → e.state m' = e.state m) ∧ AtRest (e.state m) ∧
      ∀ i, (e.state m).phase i = .dropped := by
  have hobeys : e.Obeys fun _ a => ∀ i, a ≠ .cancel i := by
    rintro m _ ha i rfl
    exact hcancel m i ha
  obtain ⟨m, -, hrest⟩ := eventually_rests hfair 0
  have hreach := hobeys.reach m
  have hdropped : ∀ i, (e.state m).phase i = .dropped := by
    intro i
    by_contra hi
    obtain ⟨o, ho, -⟩ := hrest.exists_cancelled (consistent_of_reach hreach)
      (heard_of_reach hreach) hi
    exact ne_cancelled_of_reach hreach o ho
  exact ⟨m, Machine.Execution.state_eq_of_stuck (hrest.stuck hdropped), hrest, hdropped⟩

/-- **All calls return**: whatever the keys and the hash function are, a fair execution in which no
call is cancelled ends with all guards dropped and nobody in a waiting list. -/
theorem latches_progress (c : LatchConfig n size) (e : Machine.Execution (step c) (init n size))
    (hfair : e.Fair (·.isProgress = true)) (hcancel : ∀ m i, e.action m ≠ some (.cancel i)) :
    ∃ m, (∀ m', m ≤ m' → e.state m' = e.state m) ∧ AtRest (e.state m) ∧
      (∀ i, (e.state m).phase i = .dropped) ∧ ∀ slot, ((e.state m).slots slot).waiting = [] := by
  obtain ⟨m, hconst, hrest, hdropped⟩ := eventually_dropped hfair hcancel
  have hcons := consistent_of_reach (e.reach m)
  refine ⟨m, hconst, hrest, hdropped, fun slot => ?_⟩
  refine List.eq_nil_iff_forall_not_mem.mpr fun i hi => ?_
  have hawait := (hcons.asleep.queued slot i hi).1
  simp [view, hdropped i, LatchPhase.awaiting] at hawait

/-- The second caller waits for the first one, gets its key from the background task, and releases
it. -/
def handover (i j : Fin 2) : List (LatchAction 2) :=
  [.call i, .acquire i, .acquire i, .acquire i, .call j, .acquire j, .drop i, .recv, .release,
    .release, .release, .wakeup, .wakeup, .finish, .resume j, .drop j, .recv, .release, .release,
    .finish]

theorem latches_progress_handover :
    ∃ e : Machine.Execution (step contended) (init 2 1), e.Fair (·.isProgress = true) ∧
      (∀ m i, e.action m ≠ some (.cancel i)) ∧
      ∃ m, (∀ i, (e.state m).phase i = .dropped) ∧
        ∀ slot, ((e.state m).slots slot).waiting = [] := by
  obtain ⟨s, hrun, hphase, htask, hchannel, hrecycles⟩ : ∃ s,
      Machine.run (step contended) (handover 0 1) (init 2 1) = some s ∧
      (s.phase 0, s.phase 1) = (.dropped, .dropped) ∧ s.task = .idle ∧ s.channel = [] ∧
      s.recycles = [] := ⟨_, rfl, rfl, rfl, rfl, rfl⟩
  have hrest : AtRest s :=
    ⟨Fin.forall_fin_two.mpr ⟨.inl (Prod.mk.inj hphase).1, .inl (Prod.mk.inj hphase).2⟩, htask,
      hchannel, hrecycles⟩
  obtain ⟨e, hfair, haction, -⟩ := Machine.exists_execution_of_run hrun
    (by simp [handover, LatchAction.isProgress]) (atRest_iff.mp hrest)
  have hcancel : ∀ m i, e.action m ≠ some (.cancel i) := by
    intro m i hm
    rw [haction] at hm
    have hmem := List.mem_of_getElem? hm
    simp [handover] at hmem
  obtain ⟨m, -, -, hend⟩ := latches_progress contended e hfair hcancel
  exact ⟨e, hfair, hcancel, m, hend⟩

/-! ## Cancellation -/

/-- **Somebody will release every key that has an owner**: there is a guard, or a caller that will
get one, or an event of the background task. -/
def Attended (s : LatchState n size) : Prop :=
  ∀ i k, s.Owns i k → s.phase i = .holding ∨ (s.phase i = .acquiring ∨ s.phase i = .waiting) ∨
    i ∈ s.channel ∨ s.task.releases = some i

lemma owns_of_pos (hcons : Consistent c (s.view c))
    (hpos : 0 < (s.locks i).acquiredCount) : ∃ k, s.Owns i k := by
  have hlen : 0 < (c.keys i).length := hpos.trans_le (hcons.owned.acquired_le i)
  have hmem : (c.keys i)[0] ∈ (c.keys i).take (s.locks i).acquiredCount :=
    List.mem_take_iff_getElem.mpr ⟨0, lt_min hpos hlen, rfl⟩
  obtain ⟨node, hnode, hvalue⟩ := exists_node_of_owner ((hcons.owned.owner_iff _ i).mpr hmem)
  exact ⟨_, _, node, hnode, hvalue⟩

/-- Only a cancelled call leaves keys to nobody. -/
lemma attended_iff (hcons : Consistent c (s.view c)) (hhoused : Housed c s) :
    Attended s ↔ ∀ i, s.phase i = .cancelled → (s.locks i).acquiredCount = 0 := by
  constructor
  · intro h i hi
    by_contra hne
    obtain ⟨k, hk⟩ := owns_of_pos hcons (Nat.pos_of_ne_zero hne)
    rcases h i k hk with hp | (hp | hp) | hin | hin
    · simp [hi] at hp
    · simp [hi] at hp
    · simp [hi] at hp
    · have hp := hcons.sent.sent i hin
      simp [view, hi] at hp
    · have hcurrent : s.task.current = some i := by
        cases htask : s.task <;> simp [htask, LatchTask.releases] at hin
        simp [LatchTask.current, hin]
      have hp := (hcons.sent.current i hcurrent).1
      simp [view, hi] at hp
  · intro h i k hk
    have htake := (hcons.owned.owner_iff k i).mp (hhoused.owns_iff.mp hk)
    have hpos : (s.locks i).acquiredCount ≠ 0 := by
      intro hzero
      rw [show (s.view c).acquired i = 0 from hzero] at htake
      simp at htake
    cases hp : s.phase i with
    | idle => exact absurd (hcons.sent.idle i hp) hpos
    | acquiring => exact .inr (.inl (.inl rfl))
    | waiting => exact .inr (.inl (.inr rfl))
    | holding => exact .inl rfl
    | dropped =>
      refine .inr (.inr ?_)
      by_contra hno
      obtain ⟨hchannel, htask⟩ := not_or.mp hno
      exact hpos (hcons.sent.released i hp hchannel htask)
    | cancelled => exact absurd (h i hp) hpos

lemma exists_owner_of_cancel
    (hfair : e.Fair (·.isProgress = true)) {m : ℕ} (hm : e.action m = some (.cancel i))
    (m₀ : ℕ) : ∃ m', m₀ ≤ m' ∧ ∃ o, (e.state m').phase o = .cancelled ∧
      0 < ((e.state m').locks o).acquiredCount := by
  have hcons : ∀ m, Consistent c ((e.state m).view c) := fun m =>
    consistent_of_reach (e.reach m)
  have hstays : ∀ m', m + 1 ≤ m' → (e.state m').phase i = .cancelled := by
    intro m' hm'
    induction m', hm' using Nat.le_induction with
    | base => exact (cancelled_step_iff (hcons m) (e.act m _ hm) i).mpr (.inr rfl)
    | succ m' _ ih =>
      cases ha : e.action m' with
      | none =>
        rw [e.pause m' ha]
        exact ih
      | some a => exact (cancelled_step_iff (hcons m') (e.act m' a ha) i).mpr (.inl ih)
  obtain ⟨m', hm', hrest⟩ := eventually_rests hfair (max m₀ (m + 1))
  have hi : (e.state m').phase i ≠ .dropped := by
    simp [hstays m' ((le_max_right _ _).trans hm')]
  exact ⟨m', (le_max_left _ _).trans hm',
    hrest.exists_cancelled (hcons m') (heard_of_reach (e.reach m')) hi⟩

/-- **Cancelled calls leak their keys, and nothing else does.**  As long as no call is cancelled
while it waits, somebody will release every key that has an owner.  A fair execution in which a call
is cancelled reaches a state in which this is not so, and keys stay latched forever. -/
theorem attended_iff_no_cancel (c : LatchConfig n size) :
    (∀ s, Machine.Reach (step c) (fun _ a => ∀ i, a ≠ .cancel i) (init n size) s → Attended s) ∧
    ∀ e : Machine.Execution (step c) (init n size), e.Fair (·.isProgress = true) →
      ((∀ m, Attended (e.state m)) ↔ ∀ m i, e.action m ≠ some (.cancel i)) ∧
      ((∃ m, ∀ m', m ≤ m' → ∀ i k, ¬ (e.state m').Owns i k) ↔
        ∀ m i, e.action m ≠ some (.cancel i)) := by
  have hreach : ∀ s, Machine.Reach (step c) (fun _ a => ∀ i, a ≠ .cancel i) (init n size) s →
      Attended s := by
    intro s hs
    refine (attended_iff (consistent_of_reach hs) (housed_of_reach hs)).mpr fun i hi => ?_
    exact absurd hi (ne_cancelled_of_reach hs i)
  refine ⟨hreach, fun e hfair => ⟨⟨fun h m i hm => ?_, fun h m => ?_⟩,
    fun h m i hm => ?_, fun h => ?_⟩⟩
  · obtain ⟨m', -, o, ho, hpos⟩ := exists_owner_of_cancel hfair hm 0
    have hs := e.reach m'
    have hzero := (attended_iff (consistent_of_reach hs) (housed_of_reach hs)).mp (h m') o ho
    omega
  · have hobeys : e.Obeys fun _ a => ∀ i, a ≠ .cancel i := by
      rintro m _ ha i rfl
      exact h m i ha
    exact hreach _ (hobeys.reach m)
  · obtain ⟨m₀, hnone⟩ := h
    obtain ⟨m', hm', o, -, hpos⟩ := exists_owner_of_cancel hfair hm m₀
    obtain ⟨k, hk⟩ := owns_of_pos (consistent_of_reach (e.reach m')) hpos
    exact hnone m' hm' o k hk
  · obtain ⟨m, hconst, hrest, hdropped⟩ := eventually_dropped hfair h
    refine ⟨m, fun m' hm' i k hk => ?_⟩
    rw [hconst m' hm'] at hk
    have hs := e.reach m
    have hcons := consistent_of_reach hs
    have hzero := hcons.sent.released i (hdropped i) (by simp [view, hrest.channel])
      (by simp [view, hrest.task, LatchTask.releases])
    have htake := (hcons.owned.owner_iff k i).mp ((housed_of_reach hs).owns_iff.mp hk)
    rw [hzero] at htake
    simp at htake

/-- While the second caller waits, somebody will release the keys of the first one. -/
theorem attended_iff_no_cancel_contended :
    ∃ s, Machine.Reach (step contended) (fun _ a => ∀ i, a ≠ .cancel i) (init 2 1) s ∧
      s.phase 1 = .waiting ∧ Attended s := by
  have hreach : ∃ s, Machine.Reach (step contended) (fun _ a => ∀ i, a ≠ .cancel i) (init 2 1) s ∧
      s.phase 1 = .waiting := by
    refine ⟨_, ((((((Machine.Reach.refl.act (.call 0) ?_ rfl).act (.acquire 0) ?_ rfl).act
      (.acquire 0) ?_ rfl).act (.acquire 0) ?_ rfl).act (.call 1) ?_ rfl).act (.acquire 1) ?_ rfl),
      rfl⟩ <;> simp
  obtain ⟨s, hs, hwaiting⟩ := hreach
  exact ⟨s, hs, hwaiting, (attended_iff_no_cancel contended).1 s hs⟩

/-- **A leak**: the second caller is cancelled while it waits.  The first one's guard is dropped,
and the background task acquires the key for the second one, which nobody releases. -/
theorem cancelled_call_leaks :
    ∃ s, Machine.run (step contended) [.call 0, .acquire 0, .acquire 0, .acquire 0, .call 1,
        .acquire 1, .cancel 1, .drop 0, .recv, .release, .release, .release, .wakeup, .wakeup,
        .finish] (init 2 1) = some s ∧
      AtRest s ∧ s.Owns 1 ⟨[2]⟩ ∧ ¬ Attended s := by
  obtain ⟨s, hrun, hphase, htask, hchannel, hrecycles, hnode⟩ : ∃ s,
      Machine.run (step contended) [.call 0, .acquire 0, .acquire 0, .acquire 0, .call 1,
        .acquire 1, .cancel 1, .drop 0, .recv, .release, .release, .release, .wakeup, .wakeup,
        .finish] (init 2 1) = some s ∧
      (s.phase 0, s.phase 1) = (.dropped, .cancelled) ∧ s.task = .idle ∧ s.channel = [] ∧
      s.recycles = [] ∧ (s.slots 0).nodes[(⟨[2]⟩ : Key)]? = some ⟨0, some 1⟩ :=
    ⟨_, rfl, rfl, rfl, rfl, rfl, rfl⟩
  obtain ⟨hp0, hp1⟩ := Prod.mk.inj hphase
  have howns : s.Owns 1 ⟨[2]⟩ := ⟨0, _, hnode, rfl⟩
  refine ⟨s, hrun, ⟨Fin.forall_fin_two.mpr ⟨.inl hp0, .inr (.inl hp1)⟩, htask, hchannel, hrecycles⟩,
    howns, fun hattended => ?_⟩
  have hsome := hattended 1 _ howns
  simp [hp1, hchannel, htask, LatchTask.releases] at hsome

end LatchState

end TikvClient
