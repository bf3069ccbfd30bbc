import TikvClient.Transaction.LatchInvariants

/-!
# Latches: no waiter is forgotten

When a key is released, the background task takes one of the locks that wait for it off the waiting
list, and the others stay there.  What makes this safe is that the lock which is taken *will* have
the key: it is made the owner at once when it is stale, and otherwise it cannot be stale when the
background task gets to it, because nothing else can release the key in between.  If another caller
takes the key first, the lock goes back into the list, and now that caller has to release the key.

`Heard` is the invariant, and `Heard.move` says that all steps keep it.
-/

namespace TikvClient

variable {n size : ℕ}

namespace LatchView

variable {c : LatchConfig n size} {v v' : LatchView n size} {a : LatchAction n} {i l : Fin n}
  {key : Key}

/-! ## No waiter is forgotten -/

/-- **Somebody will wake the waiters**: the owner of the key a lock waits for, or the background
task, which has a lock that will take the key. -/
structure Heard (c : LatchConfig n size) (v : LatchView n size) : Prop where
  waiters : ∀ slot i k, i ∈ v.waiting slot → v.wantedKey c i = some k → v.owner k ≠ none ∨
    ∃ p ∈ v.task.wakeups, v.wantedKey c p = some k ∧ v.maxCommitTs k ≤ c.startTs p
  /-- The background task took the locks off the waiting lists of keys it has released. -/
  popped : ∀ l ws, v.task = .releasing l ws → ∀ p ∈ ws, ∀ k, v.wantedKey c p = some k →
    ∃ j, v.acquired l ≤ j ∧ (c.keys l)[j]? = some k
  /-- A lock without keys that the background task has is not going to be stale at once. -/
  first : ∀ p ∈ v.task.wakeups, v.acquired p = 0 →
    ∃ k, v.wantedKey c p = some k ∧ v.maxCommitTs k ≤ c.startTs p
  /-- A lock that is woken up has a key. -/
  woken : ∀ i, (v.phase i).awaiting = true → v.woken i = true → 0 < v.acquired i

/-- Nothing changes for a caller that sleeps. -/
lemma Heard.congr (h : Heard c v) (hs : Asleep c v) (hwaiting : v'.waiting = v.waiting)
    (hwakeups : v'.task.wakeups = v.task.wakeups)
    (hreleases : ∀ l ws, v'.task = .releasing l ws → v.task = .releasing l ws ∧
      v'.acquired l = v.acquired l)
    (howner : ∀ k, v.owner k ≠ none → v'.owner k ≠ none)
    (hmax : ∀ k, v'.maxCommitTs k ≤ v.maxCommitTs k)
    (hsame : ∀ i, (v.phase i).awaiting = true →
      v'.wantedKey c i = v.wantedKey c i ∧ v'.acquired i = v.acquired i)
    (hawaiting : ∀ i, (v'.phase i).awaiting = true → v'.woken i = true →
      (v.phase i).awaiting = true ∧ v.woken i = true) : Heard c v' := by
  constructor
  · intro slot i k hi hwanted
    rw [hwaiting] at hi
    rw [(hsame i (hs.queued slot i hi).1).1] at hwanted
    obtain hown | ⟨p, hp, hpk, hpmax⟩ := h.waiters slot i k hi hwanted
    · exact .inl (howner k hown)
    · refine .inr ⟨p, hwakeups ▸ hp, ?_, (hmax k).trans hpmax⟩
      rw [(hsame p (hs.taken p hp).1).1]
      exact hpk
  · intro l ws htask p hp k hwanted
    obtain ⟨htask', hl⟩ := hreleases l ws htask
    have hp' : p ∈ v.task.wakeups := by
      rw [htask']
      exact hp
    rw [(hsame p (hs.taken p hp').1).1] at hwanted
    rw [hl]
    exact h.popped l ws htask' p hp k hwanted
  · intro p hp hzero
    rw [hwakeups] at hp
    rw [(hsame p (hs.taken p hp).1).2] at hzero
    obtain ⟨k, hpk, hpmax⟩ := h.first p hp hzero
    refine ⟨k, ?_, (hmax k).trans hpmax⟩
    rw [(hsame p (hs.taken p hp).1).1]
    exact hpk
  · intro i hi hwok
    obtain ⟨hi, hwok⟩ := hawaiting i hi hwok
    rw [(hsame i hi).2]
    exact h.woken i hi hwok

lemma Heard.recycles (h : Heard c v) (hs : Asleep c v) (hv : Recycles v v') : Heard c v' := by
  obtain rfl | ⟨ts, m, hm, rfl⟩ := hv
  · exact h
  · refine h.congr hs rfl rfl (fun l ws htask => ⟨htask, rfl⟩) (fun _ => id) (fun k => ?_)
      (fun _ _ => ⟨rfl, rfl⟩) fun _ hi hwok => ⟨hi, hwok⟩
    obtain heq | ⟨heq, -⟩ := hm k
    · exact heq.le
    · show m k ≤ _
      rw [heq]
      exact Nat.zero_le _

variable {next : Option (Fin n)} {ws : List (Fin n)} {w : Fin n}

/-- If somebody waits for the key, somebody is taken. -/
lemma Takes.next_ne_none (h : Takes c key v v' next)
    (hi : i ∈ v.waiting (c.slotId key)) (hkey : v.nextKey c i = some key) : next ≠ none := by
  cases h with
  | nobody hnone => exact absurd hkey (hnone i hi)
  | waiter => simp
  | stale => simp

lemma Heard.release {idx : ℕ} (h : Heard c v)
    (hcons : Consistent c v) (htask : v.task = .releasing l ws) (hcount : v.acquired l = idx + 1)
    (hkey : (c.keys l)[idx]? = some key) (htakes : Takes c key (v.release l idx key) v' next) :
    Heard c { v' with task := .releasing l (ws ++ next.toList) } := by
  have hs := hcons.asleep
  have hl : v.phase l = .dropped := (hcons.sent.current l (by rw [htask]; rfl)).1
  have hws : v.task.wakeups = ws := by
    rw [htask]
    rfl
  have hnext : ∀ w, next = some w → w ∈ v.waiting (c.slotId key) := fun w hw => htakes.next_mem hw
  -- A lock that sleeps and is not taken off its list does not change.
  have hsame : ∀ j, (v.phase j).awaiting = true → next ≠ some j →
      v'.wantedKey c j = v.wantedKey c j ∧ v'.acquired j = v.acquired j := by
    intro j hj hne
    have hjl : j ≠ l := by
      rintro rfl
      simp [hl, LatchPhase.awaiting] at hj
    rw [htakes.wantedKey_of_ne hne, htakes.acquired_of_ne hne]
    simp [LatchView.release, wantedKey, nextKey, hjl]
  have hkept : ∀ p ∈ ws, v'.wantedKey c p = v.wantedKey c p ∧ v'.acquired p = v.acquired p := by
    intro p hp
    refine hsame p (hs.taken p (hws ▸ hp)).1 fun hne => ?_
    exact (hs.queued _ p (hnext p hne)).2.2.1 (hws ▸ hp)
  have hkeys : ∀ k, k ≠ key → v'.maxCommitTs k = v.maxCommitTs k ∧ v'.owner k = v.owner k := by
    intro k hk
    cases htakes <;> simp [LatchView.release, setWaiting, grant, markStale, hk]
  -- The locks taken before want other keys, because the keys of a lock are different.
  have hother : ∀ p ∈ ws, v.wantedKey c p ≠ some key := by
    intro p hp hwanted
    obtain ⟨j, hj, hget⟩ := h.popped l ws htask p hp key hwanted
    rw [← hkey] at hget
    have hlt := (List.getElem?_eq_some_iff.mp hkey).1
    have heq := (List.getElem?_inj hlt (c.keys_nodup l)).mp hget.symm
    omega
  have htaken : ∀ p, next = some p →
      v'.wantedKey c p = some key ∧ v'.maxCommitTs key ≤ c.startTs p ∨
        v'.owner key ≠ none ∧ v'.wantedKey c p = none ∧ v'.acquired p ≠ 0 := by
    intro p hp
    have hstale := (nextKey_of_wantedKey (hs.queued _ p (hnext p hp)).2.2.2.choose_spec.1).1
    cases htakes with
    | nobody => cases hp
    | waiter _ hnextKey hle =>
      cases hp
      refine .inl ⟨?_, hle⟩
      show (if v.stale p = true then none else nextKey c (v.release l idx key) p) = some key
      rw [hstale]
      exact hnextKey
    | stale =>
      cases hp
      exact .inr ⟨by simp [grant, markStale], by simp [wantedKey, markStale],
        by simp [grant, markStale]⟩
  have hwakeups : ∀ p, p ∈ ws ++ next.toList ↔ p ∈ ws ∨ next = some p := by
    intro p
    simp [Option.mem_toList]
  constructor
  · intro slot i k hi hwanted
    show v'.owner k ≠ none ∨ ∃ p ∈ ws ++ next.toList, v'.wantedKey c p = some k ∧
      v'.maxCommitTs k ≤ c.startTs p
    obtain ⟨hi, hne⟩ := (htakes.mem_waiting (hs.release hl idx key) slot i).mp hi
    replace hi : i ∈ v.waiting slot := hi
    replace hwanted : v'.wantedKey c i = some k := hwanted
    have hawait := (hs.queued slot i hi).1
    rw [(hsame i (hs.queued slot i hi).1 hne).1] at hwanted
    by_cases hk : k = key
    · -- The waiter that is taken will take the key, or has it already.
      subst hk
      cases hn : next with
      | none =>
        have hnextKey : (v.release l idx k).nextKey c i = some k := by
          have hil : i ≠ l := by
            rintro rfl
            simp [hl, LatchPhase.awaiting] at hawait
          have hkeep := (nextKey_of_wantedKey hwanted).2
          simpa [nextKey, LatchView.release, hil] using hkeep
        obtain rfl := hs.slot_eq (nextKey_of_wantedKey hwanted).2 hi
        exact absurd hn (htakes.next_ne_none hi hnextKey)
      | some p =>
        obtain ⟨hpk, hpmax⟩ | ⟨hown, -⟩ := htaken p hn
        · exact .inr ⟨p, hn ▸ (hwakeups p).mpr (.inr hn), hpk, hpmax⟩
        · exact .inl hown
    · obtain hown | ⟨p, hp, hpk, hpmax⟩ := h.waiters slot i k hi hwanted
      · exact .inl ((hkeys k hk).2 ▸ hown)
      · refine .inr ⟨p, (hwakeups p).mpr (.inl (hws ▸ hp)), ?_, (hkeys k hk).1.le.trans hpmax⟩
        rw [(hkept p (hws ▸ hp)).1]
        exact hpk
  · rintro _ _ ⟨⟩ p hp k hwanted
    replace hwanted : v'.wantedKey c p = some k := hwanted
    show ∃ j, v'.acquired l ≤ j ∧ _
    have hl' : v'.acquired l = idx := by
      rw [htakes.acquired_of_ne fun heq => ?_]
      · exact Function.update_self _ _ _
      · have hawait := (hs.queued _ l (hnext l heq)).1
        simp [hl, LatchPhase.awaiting] at hawait
    rw [hl']
    obtain hp | hp := (hwakeups p).mp hp
    · rw [(hkept p hp).1] at hwanted
      obtain ⟨j, hj, hget⟩ := h.popped l ws htask p hp k hwanted
      exact ⟨j, by omega, hget⟩
    · obtain ⟨hpk, -⟩ | ⟨-, hnone, -⟩ := htaken p hp
      · rw [hpk] at hwanted
        cases hwanted
        exact ⟨idx, le_rfl, hkey⟩
      · rw [hnone] at hwanted
        cases hwanted
  · intro p hp hzero
    replace hzero : v'.acquired p = 0 := hzero
    show ∃ k, v'.wantedKey c p = some k ∧ v'.maxCommitTs k ≤ c.startTs p
    obtain hp | hp := (hwakeups p).mp hp
    · rw [(hkept p hp).2] at hzero
      obtain ⟨k, hpk, hpmax⟩ := h.first p (hws ▸ hp) hzero
      have hk : k ≠ key := by
        rintro rfl
        exact hother p hp hpk
      exact ⟨k, (hkept p hp).1.trans hpk, (hkeys k hk).1.le.trans hpmax⟩
    · obtain htake | ⟨-, -, hpos⟩ := htaken p hp
      · exact ⟨key, htake⟩
      · exact absurd hzero hpos
  · intro i hi hwok
    replace hi : (v'.phase i).awaiting = true := hi
    replace hwok : v'.woken i = true := hwok
    rw [htakes.phase_eq] at hi
    rw [htakes.woken_eq] at hwok
    have hne : next ≠ some i := by
      intro heq
      have hwoken := (hs.queued _ i (hnext i heq)).2.1
      simp [show v.woken i = true from hwok] at hwoken
    show 0 < v'.acquired i
    rw [(hsame i hi hne).2]
    exact h.woken i hi hwok

/-- The lock at the head of the background task's list acts, and stays there. -/
lemma Heard.wakeup {r : AcquireResult} (h : Heard c v)
    (hs : Asleep c v) (htask : v.task = .waking l (w :: ws)) (hwanted : v.wantedKey c w = some key)
    (hattempt : Attempt c w key v v' r) (hr : r ≠ .locked) : Heard c v' := by
  have hw : w ∈ v.task.wakeups := by
    rw [htask]
    exact List.mem_cons_self
  have hqueue : ∀ slot, w ∉ v.waiting slot := fun slot hi => (hs.queued slot w hi).2.2.1 hw
  have hother : ∀ j, j ≠ w → v'.wantedKey c j = v.wantedKey c j ∧ v'.acquired j = v.acquired j :=
    fun j hj => ⟨hattempt.wantedKey_of_ne hj, hattempt.acquired_of_ne hj⟩
  have hmax : v'.maxCommitTs = v.maxCommitTs := by
    cases hattempt <;> rfl
  have howner : ∀ k, v.owner k ≠ none → v'.owner k ≠ none := by
    intro k hk
    cases hattempt with
    | success =>
      by_cases hkey : k = key <;> simp [grant, hkey]
      exact hk
    | _ => exact hk
  -- A lock that is not stale at the key gets it.
  have htakes : v.maxCommitTs key ≤ c.startTs w → v'.owner key ≠ none := by
    intro hle
    cases hattempt with
    | stale hlt => exact absurd hle (not_le.mpr hlt)
    | success => simp [grant]
    | locked => exact absurd rfl hr
  have hpos : 0 < v'.acquired w := by
    cases hattempt with
    | stale hlt =>
      by_contra hzero
      obtain ⟨k, hk, hle⟩ := h.first w hw (Nat.eq_zero_of_not_pos hzero)
      rw [hwanted] at hk
      cases hk
      exact absurd hle (not_le.mpr hlt)
    | success => simp [grant]
    | locked => exact absurd rfl hr
  constructor
  · intro slot i k hi hik
    rw [hattempt.waiting_eq hr] at hi
    have hne : i ≠ w := fun heq => hqueue slot (heq ▸ hi)
    rw [(hother i hne).1] at hik
    obtain hown | ⟨p, hp, hpk, hpmax⟩ := h.waiters slot i k hi hik
    · exact .inl (howner k hown)
    · by_cases hpw : p = w
      · subst hpw
        rw [hwanted] at hpk
        cases hpk
        exact .inl (htakes hpmax)
      · refine .inr ⟨p, hattempt.task_eq ▸ hp, ?_, hmax ▸ hpmax⟩
        rw [(hother p hpw).1]
        exact hpk
  · intro l' ws' htask'
    rw [hattempt.task_eq, htask] at htask'
    cases htask'
  · intro p hp hzero
    have hpw : p ≠ w := by
      rintro rfl
      exact absurd hzero hpos.ne'
    rw [(hother p hpw).2] at hzero
    rw [(hother p hpw).1, hmax]
    exact h.first p (hattempt.task_eq ▸ hp) hzero
  · intro i hi hwok
    rw [hattempt.phase_eq] at hi
    rw [hattempt.woken_eq] at hwok
    by_cases hiw : i = w
    · exact hiw ▸ hpos
    · rw [(hother i hiw).2]
      exact h.woken i hi hwok

/-- A lock finds its key locked, and is put into a waiting list. -/
lemma Heard.enqueue {w : LatchView n size} (h : Heard c v) (hattempt : Attempt c i key v v' .locked)
    (hwanted : v.wantedKey c i = some key)
    (hw : w.waiting = v'.waiting ∧ w.owner = v'.owner ∧ w.maxCommitTs = v'.maxCommitTs ∧
      w.wantedKey c = v'.wantedKey c ∧ w.acquired = v'.acquired)
    (hwakeups : ∀ p, p ∈ v.task.wakeups → p = i ∨ p ∈ w.task.wakeups)
    (hsub : ∀ p, p ∈ w.task.wakeups → p ∈ v.task.wakeups)
    (hreleases : ∀ l ws, w.task = .releasing l ws → v.task = .releasing l ws)
    (hawaiting : ∀ j, (w.phase j).awaiting = true → w.woken j = true →
      (v.phase j).awaiting = true ∧ v.woken j = true) : Heard c w := by
  obtain ⟨hwaiting, hown, hmax, hkey, hacquired⟩ := hw
  have hmem := hattempt.mem_waiting
  rw [hattempt.locked_wantedKey] at hkey
  have hsame : v'.owner = v.owner ∧ v'.maxCommitTs = v.maxCommitTs ∧ v'.acquired = v.acquired := by
    cases hattempt
    exact ⟨rfl, rfl, rfl⟩
  rw [hsame.1] at hown
  rw [hsame.2.1] at hmax
  rw [hsame.2.2] at hacquired
  have howner : v.owner key ≠ none := by
    cases hattempt with
    | locked howner => exact howner
  constructor
  · intro slot j k hj hjk
    rw [hkey] at hjk
    rw [hwaiting, hmem] at hj
    rw [hown, hmax, hkey]
    obtain hj | ⟨rfl, rfl⟩ := hj
    · obtain hk | ⟨p, hp, hpk, hpmax⟩ := h.waiters slot j k hj hjk
      · exact .inl hk
      · obtain rfl | hp := hwakeups p hp
        · rw [hwanted] at hpk
          cases hpk
          exact .inl howner
        · exact .inr ⟨p, hp, hpk, hpmax⟩
    · rw [hwanted] at hjk
      cases hjk
      exact .inl howner
  · intro l ws htask p hp k hpk
    rw [hacquired]
    exact h.popped l ws (hreleases l ws htask) p hp k (hkey ▸ hpk)
  · intro p hp hzero
    rw [hkey, hmax]
    exact h.first p (hsub p hp) (hacquired ▸ hzero)
  · intro j hj hwok
    obtain ⟨hj, hwok⟩ := hawaiting j hj hwok
    rw [hacquired]
    exact h.woken j hj hwok

lemma Heard.wake (h : Heard c v)
    (htask : v.task = .waking l (w :: ws)) (hwanted : v.wantedKey c w = none) :
    Heard c { v.wake w with task := .waking l ws } := by
  have hws : v.task.wakeups = w :: ws := by
    rw [htask]
    rfl
  constructor
  · intro slot i k hi hik
    obtain hown | ⟨p, hp, hpk, hpmax⟩ := h.waiters slot i k hi hik
    · exact .inl hown
    · rw [hws, List.mem_cons] at hp
      obtain rfl | hp := hp
      · rw [hwanted] at hpk
        cases hpk
      · exact .inr ⟨p, hp, hpk, hpmax⟩
  · rintro l' ws' ⟨⟩
  · intro p hp hzero
    exact h.first p (by rw [hws]; exact List.mem_cons_of_mem w hp) hzero
  · intro i hi hwok
    by_cases hiw : i = w
    · subst hiw
      by_contra hzero
      obtain ⟨k, hk, -⟩ := h.first i (by rw [hws]; exact List.mem_cons_self)
        (Nat.eq_zero_of_not_pos hzero)
      rw [hwanted] at hk
      cases hk
    · exact h.woken i hi (by simpa [LatchView.wake, hiw] using hwok)

/-- **No step forgets a waiter.** -/
lemma Heard.move (h : Heard c v) (hcons : Consistent c v) (hmove : Move c v a v') : Heard c v' := by
  have hs := hcons.asleep
  have hupdate : ∀ {i : Fin n} {p : LatchPhase}, p.awaiting = false → ∀ j,
      (Function.update v.phase i p j).awaiting = true → (v.phase j).awaiting = true := by
    intro i p hp j hj
    by_cases hji : j = i
    · simp [hji, hp] at hj
    · simpa [hji] using hj
  cases hmove with
  | call | acquired | resume | drop =>
    exact h.congr hs rfl rfl (fun _ _ htask => ⟨htask, rfl⟩) (fun _ => id) (fun _ => le_rfl)
      (fun _ _ => ⟨rfl, rfl⟩) fun j hj hwok => ⟨hupdate rfl j hj, hwok⟩
  | @acquire i key _ _ hphase hwanted hattempt hr =>
    have hother : ∀ j, v.phase j ≠ .acquiring →
        v'.wantedKey c j = v.wantedKey c j ∧ v'.acquired j = v.acquired j := by
      intro j hj
      have hji : j ≠ i := fun heq => hj (heq ▸ hphase)
      exact ⟨hattempt.wantedKey_of_ne hji, hattempt.acquired_of_ne hji⟩
    refine h.congr hs (hattempt.waiting_eq hr) (congrArg _ hattempt.task_eq)
      (fun l ws htask => ?_) (fun k hk => ?_) (fun k => ?_) (fun j hj => hother j ?_) fun j => ?_
    · rw [hattempt.task_eq] at htask
      have hl := (hcons.sent.current l (by rw [htask]; rfl)).1
      exact ⟨htask, (hother l (by simp [hl])).2⟩
    · cases hattempt with
      | success =>
        by_cases hkey : k = key <;> simp [grant, hkey]
        exact hk
      | _ => exact hk
    · cases hattempt <;> exact le_rfl
    · intro hacquiring
      simp [hacquiring, LatchPhase.awaiting] at hj
    · rw [hattempt.phase_eq, hattempt.woken_eq]
      exact And.intro
  | @sleep i _ v₁ hphase hwanted hattempt =>
    have htask : (v₁.setPhase i .waiting).task = v.task := hattempt.task_eq
    refine h.enqueue hattempt hwanted ⟨rfl, rfl, rfl, rfl, rfl⟩ (fun p hp => ?_) (fun p hp => ?_)
      (fun l ws hws => ?_) fun j hj hwok => ?_
    · exact .inr (htask ▸ hp)
    · exact htask ▸ hp
    · exact htask ▸ hws
    · replace hwok : v.woken j = true := hattempt.woken_eq ▸ hwok
      have hji : j ≠ i := by
        rintro rfl
        simp [hs.fresh j (.inr hphase)] at hwok
      exact ⟨by simpa [setPhase, hji, hattempt.phase_eq] using hj, hwok⟩
  | setCommitTs | recycle =>
    exact h.congr hs rfl rfl (fun _ _ htask => ⟨htask, rfl⟩) (fun _ => id) (fun _ => le_rfl)
      (fun _ _ => ⟨rfl, rfl⟩) fun _ => And.intro
  | @cancel i hphase =>
    refine h.congr hs rfl rfl (fun _ _ htask => ⟨htask, rfl⟩) (fun _ => id) (fun _ => le_rfl)
      (fun _ _ => ⟨rfl, rfl⟩) fun j hj hwok => ⟨?_, hwok⟩
    by_cases hji : j = i
    · rw [hji, hphase]
      rfl
    · simpa [setPhase, hji] using hj
  | recv htask =>
    refine ⟨?_, ?_, ?_, h.woken⟩
    · have hwaiters := h.waiters
      rw [htask] at hwaiters
      exact hwaiters
    · rintro _ _ ⟨⟩ p hp
      cases hp
    · intro p hp
      cases hp
  | released htask | finish htask =>
    refine h.congr hs rfl ?_ (fun _ _ htask' => ?_) (fun _ => id) (fun _ => le_rfl)
      (fun _ _ => ⟨rfl, rfl⟩) fun _ => And.intro
    · rw [htask]
      rfl
    · cases htask'
  | release htask hcount hkey htakes => exact h.release hcons htask hcount hkey htakes
  | woken htask hwanted => exact h.wake htask hwanted
  | wakeup htask hwanted hattempt hr => exact h.wakeup hs htask hwanted hattempt hr
  | @requeue l w ws _ v₁ htask hwanted hattempt =>
    refine h.enqueue hattempt hwanted ⟨rfl, rfl, rfl, rfl, rfl⟩ (fun p hp => ?_) (fun p hp => ?_)
      (fun l ws hws => ?_) fun j hj hwok => ?_
    · rw [htask] at hp
      exact List.mem_cons.mp hp
    · rw [htask]
      exact List.mem_cons_of_mem w hp
    · cases hws
    · exact ⟨hattempt.phase_eq ▸ hj, hattempt.woken_eq ▸ hwok⟩

end LatchView

/-! ## Reachable states -/

namespace LatchState

open LatchView

variable {c : LatchConfig n size} {s s' : LatchState n size}

lemma heard_init (c : LatchConfig n size) : Heard c ((init n size).view c) := by
  constructor <;> simp [init, view, LatchTask.wakeups, LatchPhase.awaiting]

lemma heard_of_reach {allowed : LatchState n size → LatchAction n → Prop}
    (h : Machine.Reach (step c) allowed (init n size) s) : Heard c (s.view c) := by
  have hboth : Consistent c (s.view c) ∧ Heard c (s.view c) := by
    refine h.invariant (I := fun s => Consistent c (s.view c) ∧ Heard c (s.view c))
      ⟨consistent_init c, heard_init c⟩ ?_
    rintro s a s' ⟨hcons, hheard⟩ - hstep
    obtain ⟨v, hv, hmove⟩ := step_view hcons.owned hstep
    exact ⟨consistent_step hcons hstep,
      (hheard.recycles hcons.asleep hv).move (hcons.recycles hv) hmove⟩
  exact hboth.2

end LatchState

end TikvClient
