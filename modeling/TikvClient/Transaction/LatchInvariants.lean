import TikvClient.Transaction.LatchTable

/-!
# Latches: who has what, and who waits where

The invariant of the latches (`Consistent`) has three parts, on views.

**Ownership** (`Owned`): a lock owns the keys it has acquired, a front part of its sorted key list.

**The callers that sleep** (`Asleep`): once a caller sleeps, its lock is in exactly one place.  It
is in the waiting list of the slot of the key it wants, or the background task has taken it off and
acts for it, or it has been notified.  A lock that acts is in no waiting list, so nobody else acts
for it.

**The other callers** (`Sent`): a guard is complete or stale, and a lock whose guard was dropped is
in the channel, or its keys are being released, or it has none left.

Recycling changes nothing of this, and each `Move` keeps each part.
-/

namespace TikvClient

open Function

variable {n size : ℕ}

namespace LatchConfig

variable (c : LatchConfig n size) (i : Fin n)

lemma keys_pairwise : (c.keys i).Pairwise (· < ·) := by
  have hsorted : (c.keys i).Pairwise (· ≤ ·) :=
    (List.pairwise_insertionSort (· ≤ ·) (c.lockKeys i)).sublist (List.dedup_sublist _)
  exact hsorted.imp₂ (fun _ _ hle hne => lt_of_le_of_ne hle hne) (List.nodup_dedup _)

lemma keys_nodup : (c.keys i).Nodup := List.nodup_dedup _

lemma mem_keys {k : Key} : k ∈ c.keys i ↔ k ∈ c.lockKeys i := by
  rw [keys, List.mem_dedup, List.mem_insertionSort]

end LatchConfig

namespace LatchView

variable {c : LatchConfig n size} {v v' v₁ : LatchView n size} {a : LatchAction n} {i l : Fin n}
  {key : Key}

/-! ## Ownership -/

lemma nextKey_notMem (h : v.nextKey c i = some key) : key ∉ (c.keys i).take (v.acquired i) := by
  intro hmem
  obtain ⟨j, hj, hget⟩ := List.mem_take_iff_getElem.mp hmem
  obtain ⟨hlt, heq⟩ := List.getElem?_eq_some_iff.mp h
  have := (List.Nodup.getElem_inj_iff (c.keys_nodup i)).mp (hget.trans heq.symm)
  omega

lemma nextKey_of_wantedKey (h : v.wantedKey c i = some key) :
    v.stale i = false ∧ v.nextKey c i = some key := by
  unfold wantedKey at h
  split_ifs at h with hstale
  exact ⟨by simpa using hstale, h⟩

lemma Owned.congr (h : Owned c v) (howner : v'.owner = v.owner)
    (hacquired : v'.acquired = v.acquired) : Owned c v' := by
  constructor
  · rw [howner, hacquired]
    exact h.owner_iff
  · rw [hacquired]
    exact h.acquired_le

lemma Owned.grant (h : Owned c v) (hnext : v.nextKey c i = some key) (hfree : v.owner key = none) :
    Owned c (v.grant i key) := by
  constructor
  · intro k j
    have hbefore := h.owner_iff k j
    by_cases hj : j = i
    · subst hj
      show update v.owner key (some j) k = some j ↔
        k ∈ (c.keys j).take (update v.acquired j (v.acquired j + 1) j)
      rw [update_self, List.take_add_one, show (c.keys j)[v.acquired j]? = some key from hnext,
        List.mem_append, ← hbefore, update_apply]
      by_cases hk : k = key <;> simp [hk]
    · show update v.owner key (some i) k = some j ↔
        k ∈ (c.keys j).take (update v.acquired i (v.acquired i + 1) j)
      rw [update_of_ne hj, ← hbefore, update_apply]
      by_cases hk : k = key
      · simp [hk, hfree, Ne.symm hj]
      · simp [hk]
  · intro j
    show update v.acquired i (v.acquired i + 1) j ≤ _
    by_cases hj : j = i
    · subst hj
      rw [update_self]
      exact (List.getElem?_eq_some_iff.mp hnext).1
    · rw [update_of_ne hj]
      exact h.acquired_le j

lemma Owned.release {idx : ℕ} (h : Owned c v) (hcount : v.acquired l = idx + 1)
    (hkey : (c.keys l)[idx]? = some key) : Owned c (v.release l idx key) := by
  have hsplit : (c.keys l).take (v.acquired l) = (c.keys l).take idx ++ [key] := by
    rw [hcount, List.take_add_one, hkey]
    rfl
  have howner : v.owner key = some l := (h.owner_iff key l).mpr (by simp [hsplit])
  have hlast : key ∉ (c.keys l).take idx := by
    have hnodup : ((c.keys l).take idx ++ [key]).Nodup :=
      hsplit ▸ (c.keys_nodup l).sublist (List.take_sublist _ _)
    exact fun hmem => (List.nodup_append.mp hnodup).2.2 key hmem key (List.mem_singleton_self _) rfl
  constructor
  · intro k j
    have hbefore := h.owner_iff k j
    show update v.owner key none k = some j ↔
      k ∈ (c.keys j).take (update v.acquired l idx j)
    by_cases hj : j = l
    · subst hj
      rw [update_self, update_apply]
      rw [hsplit] at hbefore
      by_cases hk : k = key
      · simpa [hk] using hlast
      · simpa [hk] using hbefore
    · rw [update_of_ne hj, ← hbefore, update_apply]
      by_cases hk : k = key
      · simp [hk, howner, Ne.symm hj]
      · simp [hk]
  · intro j
    show update v.acquired l idx j ≤ _
    by_cases hj : j = l
    · subst hj
      have hle := h.acquired_le j
      rw [update_self]
      omega
    · rw [update_of_ne hj]
      exact h.acquired_le j

variable {r : AcquireResult} {next : Option (Fin n)} {j : Fin n} {ws : List (Fin n)}

lemma Owned.attempt (h : Owned c v) (hwanted : v.wantedKey c i = some key)
    (hattempt : Attempt c i key v v' r) : Owned c v' := by
  cases hattempt with
  | stale | locked => exact h.congr rfl rfl
  | success _ howner => exact h.grant (nextKey_of_wantedKey hwanted).2 howner

lemma Owned.takes (h : Owned c v) (hfree : v.owner key = none)
    (htakes : Takes c key v v' next) : Owned c v' := by
  cases htakes with
  | nobody => exact h
  | waiter => exact h.congr rfl rfl
  | stale _ hnext =>
    exact (h.grant hnext hfree).congr rfl rfl

/-- Ownership is kept by every step. -/
lemma Owned.move (h : Owned c v) (hmove : Move c v a v') : Owned c v' := by
  cases hmove with
  | acquire _ hwanted hattempt | wakeup _ hwanted hattempt => exact h.attempt hwanted hattempt
  | sleep _ hwanted hattempt | requeue _ hwanted hattempt =>
    exact (h.attempt hwanted hattempt).congr rfl rfl
  | release _ hcount hkey htakes =>
    exact ((h.release hcount hkey).takes (update_self _ _ _) htakes).congr rfl rfl
  | _ => exact h.congr rfl rfl

/-! ## Where the locks are -/

/-- **The locks of the callers that sleep**: each of them is in the waiting list of the slot of the
key it wants, or the background task has it, or it has been woken up. -/
structure Asleep (c : LatchConfig n size) (v : LatchView n size) : Prop where
  queued : ∀ slot i, i ∈ v.waiting slot → (v.phase i).awaiting = true ∧ v.woken i = false ∧
    i ∉ v.task.wakeups ∧ ∃ k, v.wantedKey c i = some k ∧ c.slotId k = slot
  waiting_nodup : ∀ slot, (v.waiting slot).Nodup
  taken : ∀ i ∈ v.task.wakeups, (v.phase i).awaiting = true ∧ v.woken i = false
  wakeups_nodup : v.task.wakeups.Nodup
  located : ∀ i, (v.phase i).awaiting = true → v.woken i = false →
    i ∈ v.task.wakeups ∨ ∃ slot, i ∈ v.waiting slot
  fresh : ∀ i, v.phase i = .idle ∨ v.phase i = .acquiring → v.woken i = false
  ready : ∀ i, (v.phase i).awaiting = true → v.woken i = true → v.wantedKey c i = none

/-- Nothing changes for a caller that sleeps. -/
lemma Asleep.congr (h : Asleep c v) (hwoken : v'.woken = v.woken)
    (hwaiting : v'.waiting = v.waiting) (hwakeups : v'.task.wakeups = v.task.wakeups)
    (hawaiting : ∀ i, (v'.phase i).awaiting = (v.phase i).awaiting)
    (hfresh : ∀ i, v'.phase i = .idle ∨ v'.phase i = .acquiring →
      v.phase i = .idle ∨ v.phase i = .acquiring)
    (hwanted : ∀ i, (v.phase i).awaiting = true → i ∉ v.task.wakeups →
      v'.wantedKey c i = v.wantedKey c i) : Asleep c v' := by
  constructor
  · intro slot i hi
    rw [hwaiting] at hi
    obtain ⟨hawait, hwok, htaken, hkey⟩ := h.queued slot i hi
    rw [hawaiting, hwoken, hwakeups, hwanted i hawait htaken]
    exact ⟨hawait, hwok, htaken, hkey⟩
  · rw [hwaiting]
    exact h.waiting_nodup
  · intro i hi
    rw [hwakeups] at hi
    rw [hawaiting, hwoken]
    exact h.taken i hi
  · rw [hwakeups]
    exact h.wakeups_nodup
  · intro i
    rw [hawaiting, hwoken, hwakeups, hwaiting]
    exact h.located i
  · intro i hi
    rw [hwoken]
    exact h.fresh i (hfresh i hi)
  · intro i hi hwok
    rw [hawaiting] at hi
    rw [hwoken] at hwok
    have htaken : i ∉ v.task.wakeups := fun hmem => by simp [(h.taken i hmem).2] at hwok
    rw [hwanted i hi htaken]
    exact h.ready i hi hwok

lemma Asleep.setPhase {p : LatchPhase} (h : Asleep c v)
    (hawaiting : p.awaiting = (v.phase i).awaiting)
    (hfresh : p = .idle ∨ p = .acquiring → v.phase i = .idle ∨ v.phase i = .acquiring) :
    Asleep c (v.setPhase i p) := by
  refine h.congr rfl rfl rfl (fun j => ?_) (fun j => ?_) fun _ _ _ => rfl
  · by_cases hj : j = i <;> simp [LatchView.setPhase, hj, hawaiting]
  · by_cases hj : j = i
    · subst hj
      simpa [LatchView.setPhase] using hfresh
    · simp [LatchView.setPhase, hj]

namespace Attempt

section

variable (h : Attempt c i key v v' r)

include h

lemma wantedKey_of_ne (hj : j ≠ i) : v'.wantedKey c j = v.wantedKey c j := by
  cases h with
  | stale => simp [wantedKey, nextKey, markStale, hj]
  | success => simp [wantedKey, nextKey, LatchView.grant, hj]
  | locked => rfl

lemma phase_eq : v'.phase = v.phase := by
  cases h <;> rfl

lemma woken_eq : v'.woken = v.woken := by
  cases h <;> rfl

lemma task_eq : v'.task = v.task := by
  cases h <;> rfl

lemma channel_eq : v'.channel = v.channel := by
  cases h <;> rfl

lemma waiting_eq (hr : r ≠ .locked) : v'.waiting = v.waiting := by
  cases h with
  | locked => exact absurd rfl hr
  | _ => rfl

end

variable (h : Attempt c i key v v' .locked)

include h

/-- A lock that finds its key locked is put into the waiting list of the slot. -/
lemma mem_waiting (slot : Fin size) (j : Fin n) :
    j ∈ v'.waiting slot ↔ j ∈ v.waiting slot ∨ slot = c.slotId key ∧ j = i := by
  cases h
  show j ∈ update v.waiting (c.slotId key) (v.waiting (c.slotId key) ++ [i]) slot ↔ _
  by_cases hslot : slot = c.slotId key
  · subst hslot
    simp
  · simp [hslot]

lemma waiting_nodup (hnodup : ∀ slot, (v.waiting slot).Nodup) (hi : ∀ slot, i ∉ v.waiting slot)
    (slot : Fin size) : (v'.waiting slot).Nodup := by
  cases h
  show (update v.waiting (c.slotId key) (v.waiting (c.slotId key) ++ [i]) slot).Nodup
  by_cases hslot : slot = c.slotId key
  · subst hslot
    rw [update_self]
    exact List.nodup_append.mpr ⟨hnodup _, List.nodup_singleton _, by
      rintro j hj _ hmem rfl
      exact hi _ (List.mem_singleton.mp hmem ▸ hj)⟩
  · rw [update_of_ne hslot]
    exact hnodup slot

lemma locked_wantedKey : v'.wantedKey c = v.wantedKey c := by
  cases h
  rfl

end Attempt

/-- A lock that is in no waiting list goes into the one of the key it wants. -/
lemma Asleep.enqueue {w : LatchView n size} (h : Asleep c v)
    (hattempt : Attempt c i key v v' .locked) (hwanted : v.wantedKey c i = some key)
    (hwoken : v.woken i = false)
    (hqueue : ∀ slot, i ∉ v.waiting slot)
    (hw : w.waiting = v'.waiting ∧ w.woken = v'.woken ∧ w.wantedKey c = v'.wantedKey c)
    (hphase : ∀ j, j ≠ i → w.phase j = v.phase j) (hawait : (w.phase i).awaiting = true)
    (htaken : ∀ j, j ∈ w.task.wakeups ↔ j ≠ i ∧ j ∈ v.task.wakeups)
    (hnodup : w.task.wakeups.Nodup) : Asleep c w := by
  obtain ⟨hwaiting, hwok, hkey⟩ := hw
  rw [hattempt.woken_eq] at hwok
  rw [hattempt.locked_wantedKey] at hkey
  have hmem := hattempt.mem_waiting
  constructor
  · intro slot j hj
    rw [hwaiting, hmem] at hj
    rw [hwok, hkey, htaken]
    obtain hj | ⟨rfl, rfl⟩ := hj
    · have hne : j ≠ i := fun heq => hqueue slot (heq ▸ hj)
      obtain ⟨hawait', hwok', hnot, hslot⟩ := h.queued slot j hj
      rw [hphase j hne]
      exact ⟨hawait', hwok', fun hin => hnot hin.2, hslot⟩
    · exact ⟨hawait, hwoken, fun hin => hin.1 rfl, key, hwanted, rfl⟩
  · rw [hwaiting]
    exact hattempt.waiting_nodup h.waiting_nodup hqueue
  · intro j hj
    obtain ⟨hne, hj⟩ := (htaken j).mp hj
    rw [hphase j hne, hwok]
    exact h.taken j hj
  · exact hnodup
  · intro j hj hwok'
    by_cases hne : j = i
    · subst hne
      exact .inr ⟨c.slotId key, by rw [hwaiting, hmem]; exact .inr ⟨rfl, rfl⟩⟩
    · rw [hphase j hne] at hj
      rw [hwok] at hwok'
      obtain hin | ⟨slot, hin⟩ := h.located j hj hwok'
      · exact .inl ((htaken j).mpr ⟨hne, hin⟩)
      · exact .inr ⟨slot, by rw [hwaiting, hmem]; exact .inl hin⟩
  · intro j hj
    rw [hwok]
    by_cases hne : j = i
    · exact hne ▸ hwoken
    · exact h.fresh j (hphase j hne ▸ hj)
  · intro j hj hwok'
    have hne : j ≠ i := by
      rintro rfl
      simp [hwok, hwoken] at hwok'
    rw [hkey]
    exact h.ready j (hphase j hne ▸ hj) (hwok ▸ hwok')

lemma Asleep.slot_eq {slot : Fin size} (h : Asleep c v) (hnext : v.nextKey c i = some key)
    (hi : i ∈ v.waiting slot) : slot = c.slotId key := by
  obtain ⟨-, -, -, k, hk, rfl⟩ := h.queued slot i hi
  have := (nextKey_of_wantedKey hk).2.symm.trans hnext
  rw [Option.some.inj this]

namespace Takes

variable (h : Takes c key v v' next)

include h

lemma phase_eq : v'.phase = v.phase := by
  cases h <;> rfl

lemma woken_eq : v'.woken = v.woken := by
  cases h <;> rfl

lemma channel_eq : v'.channel = v.channel := by
  cases h <;> rfl

lemma wantedKey_of_ne (hj : next ≠ some j) : v'.wantedKey c j = v.wantedKey c j := by
  cases h with
  | nobody => rfl
  | waiter => rfl
  | stale =>
    have hne : j ≠ _ := fun heq => hj (congrArg some heq.symm)
    simp [wantedKey, nextKey, markStale, LatchView.grant, setWaiting, hne]

lemma mem_waiting (hv : Asleep c v) (slot : Fin size) (j : Fin n) :
    j ∈ v'.waiting slot ↔ j ∈ v.waiting slot ∧ next ≠ some j := by
  have herase : ∀ {w : Fin n}, v.nextKey c w = some key →
      (j ∈ update v.waiting (c.slotId key) ((v.waiting (c.slotId key)).erase w) slot ↔
        j ∈ v.waiting slot ∧ some w ≠ some j) := by
    intro w hnext
    by_cases hslot : slot = c.slotId key
    · subst hslot
      rw [update_self, (hv.waiting_nodup _).mem_erase_iff]
      simp [and_comm, eq_comm]
    · rw [update_of_ne hslot]
      refine ⟨fun hj => ⟨hj, ?_⟩, And.left⟩
      rintro ⟨⟩
      exact hslot (hv.slot_eq hnext hj)
  cases h with
  | nobody => simp
  | waiter _ hnext | stale _ hnext => exact herase hnext

lemma waiting_nodup (hv : Asleep c v) (slot : Fin size) : (v'.waiting slot).Nodup := by
  have herase : ∀ w, (update v.waiting (c.slotId key)
      ((v.waiting (c.slotId key)).erase w) slot).Nodup := by
    intro w
    by_cases hslot : slot = c.slotId key
    · subst hslot
      rw [update_self]
      exact (hv.waiting_nodup _).erase w
    · rw [update_of_ne hslot]
      exact hv.waiting_nodup slot
  cases h with
  | nobody => exact hv.waiting_nodup slot
  | waiter => exact herase _
  | stale => exact herase _

lemma next_mem {w : Fin n} (hw : next = some w) : w ∈ v.waiting (c.slotId key) := by
  cases h with
  | nobody => cases hw
  | waiter hmem | stale hmem =>
    cases hw
    exact hmem

end Takes

lemma Asleep.release (h : Asleep c v) (hl : v.phase l = .dropped) (idx : ℕ) (key : Key) :
    Asleep c (v.release l idx key) := by
  refine h.congr rfl rfl rfl (fun _ => rfl) (fun _ => id) fun j hj _ => ?_
  have hne : j ≠ l := by
    rintro rfl
    simp [hl, LatchPhase.awaiting] at hj
  simp [wantedKey, nextKey, LatchView.release, hne]

lemma Asleep.takes (h : Asleep c v) (htakes : Takes c key v v' next) :
    Asleep c { v' with task := .releasing l (v.task.wakeups ++ next.toList) } := by
  have htaken : ∀ j, j ∈ v.task.wakeups ++ next.toList ↔ j ∈ v.task.wakeups ∨ next = some j := by
    intro j
    simp [Option.mem_toList]
  have hmem := htakes.mem_waiting h
  constructor
  · intro slot j hj
    obtain ⟨hj, hne⟩ := (hmem slot j).mp hj
    obtain ⟨hawait, hwok, hnot, hslot⟩ := h.queued slot j hj
    refine ⟨htakes.phase_eq ▸ hawait, htakes.woken_eq ▸ hwok, fun hin => ?_, ?_⟩
    · exact ((htaken j).mp hin).elim hnot hne
    · rw [← htakes.wantedKey_of_ne hne] at hslot
      exact hslot
  · intro slot
    exact htakes.waiting_nodup h slot
  · intro j hj
    show (v'.phase j).awaiting = true ∧ v'.woken j = false
    rw [htakes.phase_eq, htakes.woken_eq]
    obtain hj | hj := (htaken j).mp hj
    · exact h.taken j hj
    · obtain ⟨hawait, hwok, -⟩ := h.queued _ j (htakes.next_mem hj)
      exact ⟨hawait, hwok⟩
  · show (v.task.wakeups ++ next.toList).Nodup
    refine List.nodup_append.mpr ⟨h.wakeups_nodup, ?_, ?_⟩
    · cases next <;> simp
    · rintro j hj _ hw rfl
      exact (h.queued _ j (htakes.next_mem (Option.mem_toList.mp hw))).2.2.1 hj
  · intro j hj hwok
    replace hj : (v'.phase j).awaiting = true := hj
    replace hwok : v'.woken j = false := hwok
    rw [htakes.phase_eq] at hj
    rw [htakes.woken_eq] at hwok
    by_cases hne : next = some j
    · exact .inl ((htaken j).mpr (.inr hne))
    · obtain hin | ⟨slot, hin⟩ := h.located j hj hwok
      · exact .inl ((htaken j).mpr (.inl hin))
      · exact .inr ⟨slot, (hmem slot j).mpr ⟨hin, hne⟩⟩
  · intro j hj
    show v'.woken j = false
    rw [htakes.woken_eq]
    exact h.fresh j (htakes.phase_eq ▸ hj)
  · intro j hj hwok
    replace hj : (v'.phase j).awaiting = true := hj
    replace hwok : v'.woken j = true := hwok
    rw [htakes.phase_eq] at hj
    rw [htakes.woken_eq] at hwok
    have hne : next ≠ some j := by
      intro heq
      simp [(h.queued _ j (htakes.next_mem heq)).2.1] at hwok
    exact (htakes.wantedKey_of_ne hne).trans (h.ready j hj hwok)

/-- A lock is notified, or its caller goes on after that. -/
lemma Asleep.settle (h : Asleep c v) (hqueue : ∀ slot, i ∉ v.waiting slot)
    (hv' : v'.waiting = v.waiting ∧ v'.wantedKey c = v.wantedKey c)
    (hother : ∀ j, j ≠ i → v'.phase j = v.phase j ∧ v'.woken j = v.woken j)
    (htaken : ∀ j, j ∈ v'.task.wakeups ↔ j ≠ i ∧ j ∈ v.task.wakeups)
    (hnodup : v'.task.wakeups.Nodup) (hwoken : v'.woken i = true)
    (hfresh : v'.phase i ≠ .idle ∧ v'.phase i ≠ .acquiring)
    (hready : (v'.phase i).awaiting = true → v.wantedKey c i = none) : Asleep c v' := by
  obtain ⟨hwaiting, hwanted⟩ := hv'
  constructor
  · intro slot j hj
    rw [hwaiting] at hj
    obtain ⟨hphase, hwok⟩ := hother j fun heq => hqueue slot (heq ▸ hj)
    obtain ⟨hawait', hwok', hnot, hslot⟩ := h.queued slot j hj
    rw [hphase, hwok, hwanted]
    exact ⟨hawait', hwok', fun hin => hnot ((htaken j).mp hin).2, hslot⟩
  · rw [hwaiting]
    exact h.waiting_nodup
  · intro j hj
    obtain ⟨hne, hj⟩ := (htaken j).mp hj
    rw [(hother j hne).1, (hother j hne).2]
    exact h.taken j hj
  · exact hnodup
  · intro j hj hwok
    have hne : j ≠ i := by
      rintro rfl
      simp [hwoken] at hwok
    rw [(hother j hne).1] at hj
    rw [(hother j hne).2] at hwok
    rw [hwaiting]
    exact (h.located j hj hwok).imp_left fun hin => (htaken j).mpr ⟨hne, hin⟩
  · intro j hj
    have hne : j ≠ i := by
      rintro rfl
      exact hj.elim hfresh.1 hfresh.2
    rw [(hother j hne).2]
    exact h.fresh j ((hother j hne).1 ▸ hj)
  · intro j hj hwok
    rw [hwanted]
    by_cases hne : j = i
    · subst hne
      exact hready hj
    · exact h.ready j ((hother j hne).1 ▸ hj) ((hother j hne).2 ▸ hwok)

lemma Asleep.head_phase {w : Fin n} (h : Asleep c v) (htask : v.task = .waking l (w :: ws)) :
    v.phase w ≠ .idle ∧ v.phase w ≠ .holding ∧ v.phase w ≠ .dropped := by
  have hw := (h.taken w (by rw [htask]; exact List.mem_cons_self)).1
  refine ⟨?_, ?_, ?_⟩ <;> intro hphase <;> simp [hphase, LatchPhase.awaiting] at hw

/-- **The locks of the other callers.** -/
structure Sent (c : LatchConfig n size) (v : LatchView n size) : Prop where
  idle : ∀ i, v.phase i = .idle → v.acquired i = 0
  holding : ∀ i, v.phase i = .holding → v.wantedKey c i = none
  sent : ∀ i ∈ v.channel, v.phase i = .dropped
  channel_nodup : v.channel.Nodup
  current : ∀ l, v.task.current = some l → v.phase l = .dropped ∧ l ∉ v.channel
  released : ∀ i, v.phase i = .dropped → i ∉ v.channel → v.task.releases ≠ some i →
    v.acquired i = 0

lemma mem_iff_of_nodup_cons {α : Type} {x y : α} {l : List α} (h : (x :: l).Nodup) :
    y ∈ l ↔ y ≠ x ∧ y ∈ x :: l := by
  rw [List.mem_cons]
  constructor
  · intro hy
    refine ⟨?_, .inr hy⟩
    rintro rfl
    exact (List.nodup_cons.mp h).1 hy
  · rintro ⟨hne, hy⟩
    exact hy.resolve_left hne

lemma Asleep.move (h : Asleep c v) (hs : Sent c v) (hmove : Move c v a v') : Asleep c v' := by
  cases hmove with
  | call hphase => exact h.setPhase (by rw [hphase]; rfl) (by simp [hphase])
  | acquired hphase _ =>
    have hphase' := h.setPhase (p := .holding) (by rw [hphase]; rfl) (by simp)
    exact hphase'.congr rfl rfl rfl (fun _ => rfl) (fun _ => id) fun _ _ _ => rfl
  | @acquire i key _ _ hphase hwanted hattempt hr =>
    refine h.congr hattempt.woken_eq (hattempt.waiting_eq hr)
      (congrArg _ hattempt.task_eq) (fun j => ?_) (fun j => ?_) fun j hj _ => ?_
    · rw [hattempt.phase_eq]
    · rw [hattempt.phase_eq]
      exact id
    · refine hattempt.wantedKey_of_ne ?_
      rintro rfl
      simp [hphase, LatchPhase.awaiting] at hj
  | @sleep i key v₁ hphase hwanted hattempt =>
    have hqueue : ∀ slot, i ∉ v.waiting slot := by
      intro slot hi
      have hawait := (h.queued slot i hi).1
      simp [hphase, LatchPhase.awaiting] at hawait
    have hnot : i ∉ v.task.wakeups := by
      intro hi
      have hawait := (h.taken i hi).1
      simp [hphase, LatchPhase.awaiting] at hawait
    have htask : (v₁.setPhase i .waiting).task = v.task := hattempt.task_eq
    refine h.enqueue hattempt hwanted (h.fresh i (.inr hphase)) hqueue ⟨rfl, rfl, rfl⟩
      (fun j hj => ?_) ?_ (fun j => ?_) ?_
    · show update v₁.phase i .waiting j = v.phase j
      rw [update_of_ne hj, hattempt.phase_eq]
    · show (update v₁.phase i .waiting i).awaiting = true
      rw [update_self]
      rfl
    · rw [htask]
      exact ⟨fun hj => ⟨fun heq => hnot (heq ▸ hj), hj⟩, And.right⟩
    · rw [htask]
      exact h.wakeups_nodup
  | @resume i hphase hwoken =>
    have hqueue : ∀ slot, i ∉ v.waiting slot := by
      intro slot hi
      simp [(h.queued slot i hi).2.1] at hwoken
    have hnot : i ∉ v.task.wakeups := by
      intro hi
      simp [(h.taken i hi).2] at hwoken
    refine h.settle hqueue ⟨rfl, rfl⟩ (fun j hj => ?_) (fun j => ?_) h.wakeups_nodup hwoken ?_ ?_
    · simp [LatchView.setPhase, record, hj]
    · exact ⟨fun hj => ⟨fun heq => hnot (heq ▸ hj), hj⟩, And.right⟩
    · simp [LatchView.setPhase, record]
    · simp [LatchView.setPhase, record, LatchPhase.awaiting]
  | setCommitTs | recycle => exact h.congr rfl rfl rfl (fun _ => rfl) (fun _ => id) fun _ _ _ => rfl
  | drop hphase =>
    have hphase' := h.setPhase (p := .dropped) (by rw [hphase]; rfl) (by simp)
    exact hphase'.congr rfl rfl rfl (fun _ => rfl) (fun _ => id) fun _ _ _ => rfl
  | cancel hphase => exact h.setPhase (by rw [hphase]; rfl) (by simp)
  | recv htask | released htask | finish htask =>
    refine h.congr rfl rfl ?_ (fun _ => rfl) (fun _ => id) fun _ _ _ => rfl
    rw [htask]
    rfl
  | @release l ws idx key v₁ next htask hcount hkey htakes =>
    have hl : v.phase l = .dropped := (hs.current l (by rw [htask]; rfl)).1
    have hws : (v.release l idx key).task.wakeups = ws := by
      rw [show (v.release l idx key).task = v.task from rfl, htask]
      rfl
    exact hws ▸ (h.release hl idx key).takes htakes
  | @woken l w ws htask hwanted =>
    have hws : v.task.wakeups = w :: ws := by rw [htask]; rfl
    have hw : w ∈ v.task.wakeups := by simp [hws]
    have hnodup := hws ▸ h.wakeups_nodup
    have hqueue : ∀ slot, w ∉ v.waiting slot := fun slot hi => (h.queued slot w hi).2.2.1 hw
    refine h.settle hqueue ⟨rfl, rfl⟩ (fun j hj => ?_) (fun j => ?_) hnodup.of_cons ?_ ?_ ?_
    · simp [wake, hj]
    · rw [hws]
      exact mem_iff_of_nodup_cons hnodup
    · simp [wake]
    · have hawait := (h.taken w hw).1
      constructor <;> intro hphase <;> replace hphase : v.phase w = _ := hphase <;>
        simp [hphase, LatchPhase.awaiting] at hawait
    · exact fun _ => hwanted
  | @wakeup l w ws key _ _ htask hwanted hattempt hr =>
    refine h.congr hattempt.woken_eq (hattempt.waiting_eq hr)
      (congrArg _ hattempt.task_eq) (fun j => ?_) (fun j => ?_) fun j hj hnot => ?_
    · rw [hattempt.phase_eq]
    · rw [hattempt.phase_eq]
      exact id
    · refine hattempt.wantedKey_of_ne ?_
      rintro rfl
      exact hnot (by rw [htask]; exact List.mem_cons_self)
  | @requeue l w ws key v₁ htask hwanted hattempt =>
    have hws : v.task.wakeups = w :: ws := by rw [htask]; rfl
    have hw : w ∈ v.task.wakeups := by simp [hws]
    have hnodup := hws ▸ h.wakeups_nodup
    have hqueue : ∀ slot, w ∉ v.waiting slot := fun slot hi => (h.queued slot w hi).2.2.1 hw
    refine h.enqueue hattempt hwanted (h.taken w hw).2 hqueue ⟨rfl, rfl, rfl⟩
      (fun j _ => congrFun hattempt.phase_eq j) ?_ (fun j => ?_) hnodup.of_cons
    · show (v₁.phase w).awaiting = true
      rw [hattempt.phase_eq]
      exact (h.taken w hw).1
    · rw [hws]
      exact mem_iff_of_nodup_cons hnodup

/-- Nothing changes for a lock that nobody has called for or whose guard was dropped. -/
lemma Sent.congr (h : Sent c v) (hidle : ∀ j, v'.phase j = .idle → v.phase j = .idle)
    (hdropped : ∀ j, v'.phase j = .dropped ↔ v.phase j = .dropped)
    (hholding : ∀ j, v'.phase j = .holding → v'.wantedKey c j = none)
    (hchannel : v'.channel = v.channel)
    (hcurrent : ∀ l, v'.task.current = some l → v.task.current = some l)
    (hreleases : v'.task.releases = v.task.releases)
    (hacquired : ∀ j, v.phase j = .idle ∨ v.phase j = .dropped → v'.acquired j = v.acquired j) :
    Sent c v' := by
  constructor
  · intro j hj
    rw [hacquired j (.inl (hidle j hj))]
    exact h.idle j (hidle j hj)
  · exact hholding
  · intro j hj
    rw [hchannel] at hj
    exact (hdropped j).mpr (h.sent j hj)
  · rw [hchannel]
    exact h.channel_nodup
  · intro l hl
    rw [hdropped, hchannel]
    exact h.current l (hcurrent l hl)
  · intro j hj
    rw [hdropped] at hj
    rw [hchannel, hreleases, hacquired j (.inr hj)]
    exact h.released j hj

/-- What a caller that has its guard wants does not change when another lock acts. -/
lemma Attempt.acquired_of_ne (h : Attempt c i key v v' r)
    (hj : j ≠ i) : v'.acquired j = v.acquired j := by
  cases h with
  | success => simp [LatchView.grant, hj]
  | _ => rfl

lemma Sent.attempt (h : Sent c v) (hattempt : Attempt c i key v v' r)
    (hphase : v.phase i ≠ .idle ∧ v.phase i ≠ .holding ∧ v.phase i ≠ .dropped) : Sent c v' := by
  refine h.congr (fun j => ?_) (fun j => ?_) (fun j hj => ?_) hattempt.channel_eq (fun l => ?_) ?_
    fun j hj => ?_
  · rw [hattempt.phase_eq]
    exact id
  · rw [hattempt.phase_eq]
  · rw [hattempt.phase_eq] at hj
    have hne : j ≠ i := fun heq => hphase.2.1 (heq ▸ hj)
    rw [hattempt.wantedKey_of_ne hne]
    exact h.holding j hj
  · rw [hattempt.task_eq]
    exact id
  · rw [hattempt.task_eq]
  · refine hattempt.acquired_of_ne ?_
    rintro rfl
    exact hj.elim hphase.1 hphase.2.2

lemma Takes.acquired_of_ne (h : Takes c key v v' next)
    (hj : next ≠ some j) : v'.acquired j = v.acquired j := by
  cases h with
  | stale =>
    have hne : j ≠ _ := fun heq => hj (congrArg some heq.symm)
    simp [LatchView.grant, markStale, setWaiting, hne]
  | _ => rfl

lemma Sent.setPhase {p : LatchPhase} (h : Sent c v) (hphase : v.phase i ≠ .dropped)
    (hp : p ≠ .idle ∧ p ≠ .dropped) (hholding : p = .holding → v.wantedKey c i = none) :
    Sent c (v.setPhase i p) := by
  refine h.congr (fun j hj => ?_) (fun j => ?_) (fun j hj => ?_) rfl (fun _ => id) rfl
    fun _ _ => rfl
  · by_cases hji : j = i
    · simp [LatchView.setPhase, hji, hp] at hj
    · simpa [LatchView.setPhase, hji] using hj
  · by_cases hji : j = i <;> simp [LatchView.setPhase, hji, hp, hphase]
  · by_cases hji : j = i
    · subst hji
      exact hholding (by simpa [LatchView.setPhase] using hj)
    · exact h.holding j (by simpa [LatchView.setPhase, hji] using hj)

lemma Sent.record {event : LatchEvent n} (h : Sent c v) : Sent c (v.record event) :=
  ⟨h.idle, h.holding, h.sent, h.channel_nodup, h.current, h.released⟩

lemma Sent.drop (h : Sent c v) (hphase : v.phase i = .holding) :
    Sent c { v.setPhase i .dropped with channel := v.channel ++ [i] } := by
  have hi : i ∉ v.channel := by
    intro hmem
    have hdropped := h.sent i hmem
    simp [hphase] at hdropped
  constructor
  · intro j hj
    by_cases hji : j = i
    · simp [LatchView.setPhase, hji] at hj
    · exact h.idle j (by simpa [LatchView.setPhase, hji] using hj)
  · intro j hj
    by_cases hji : j = i
    · simp [LatchView.setPhase, hji] at hj
    · exact h.holding j (by simpa [LatchView.setPhase, hji] using hj)
  · intro j hj
    by_cases hji : j = i
    · simp [LatchView.setPhase, hji]
    · have hmem : j ∈ v.channel := by simpa [hji] using hj
      simpa [LatchView.setPhase, hji] using h.sent j hmem
  · show (v.channel ++ [i]).Nodup
    refine List.nodup_append.mpr ⟨h.channel_nodup, List.nodup_singleton i, ?_⟩
    rintro j hj _ hmem rfl
    exact hi (List.mem_singleton.mp hmem ▸ hj)
  · intro l hl
    obtain ⟨hdropped, hnot⟩ := h.current l hl
    have hli : l ≠ i := by
      rintro rfl
      simp [hphase] at hdropped
    exact ⟨by simpa [LatchView.setPhase, hli] using hdropped, by simp [hnot, hli]⟩
  · intro j hj hnot
    have hji : j ≠ i ∧ j ∉ v.channel := by
      simpa [not_or, and_comm] using hnot
    exact h.released j (by simpa [LatchView.setPhase, hji.1] using hj) hji.2

lemma Sent.recv {channel : List (Fin n)} (h : Sent c v) (htask : v.task = .idle)
    (hchannel : v.channel = l :: channel) :
    Sent c { v with channel, task := .releasing l [] } := by
  have hnodup := hchannel ▸ h.channel_nodup
  constructor
  · exact h.idle
  · exact h.holding
  · intro j hj
    exact h.sent j (by simp [hchannel, show j ∈ channel from hj])
  · exact hnodup.of_cons
  · rintro _ ⟨⟩
    exact ⟨h.sent l (by simp [hchannel]), (List.nodup_cons.mp hnodup).1⟩
  · intro j hj hnot hne
    have hjl : j ≠ l := fun heq => hne (congrArg some heq.symm)
    refine h.released j hj ?_ (by simp [htask, LatchTask.releases])
    rw [hchannel, List.mem_cons]
    exact fun hor => hor.elim hjl hnot

lemma Sent.released_all (h : Sent c v) (htask : v.task = .releasing l ws)
    (hzero : v.acquired l = 0) : Sent c { v with task := .waking l ws } := by
  constructor
  · exact h.idle
  · exact h.holding
  · exact h.sent
  · exact h.channel_nodup
  · intro j hj
    exact h.current j (by rw [htask]; exact hj)
  · intro j hj hnot _
    by_cases hjl : j = l
    · exact hjl ▸ hzero
    · refine h.released j hj hnot ?_
      rw [htask]
      exact fun heq => hjl (Option.some.inj heq).symm

lemma Sent.release {ws' : List (Fin n)} {idx : ℕ} (h : Sent c v)
    (hs : Asleep c v) (htask : v.task = .releasing l ws)
    (htakes : Takes c key (v.release l idx key) v' next) :
    Sent c { v' with task := .releasing l ws' } := by
  have hl : v.phase l = .dropped := (h.current l (by rw [htask]; rfl)).1
  have hnext : ∀ w, next = some w → (v.phase w).awaiting = true := fun w hw =>
    (hs.queued _ w (htakes.next_mem hw)).1
  -- Only the lock itself and the waiter change, and neither of them has a guard.
  have hother : ∀ j, j ≠ l → (v.phase j).awaiting = false →
      v'.acquired j = v.acquired j ∧ v'.wantedKey c j = v.wantedKey c j := by
    intro j hjl hj
    have hne : next ≠ some j := by
      intro heq
      simp [hnext j heq] at hj
    rw [htakes.acquired_of_ne hne, htakes.wantedKey_of_ne hne]
    simp [LatchView.release, wantedKey, nextKey, hjl]
  have hphase : v'.phase = v.phase := htakes.phase_eq
  have hchannel : v'.channel = v.channel := htakes.channel_eq
  constructor
  · intro j hj
    replace hj : v.phase j = .idle := hphase ▸ hj
    have hjl : j ≠ l := by
      rintro rfl
      simp [hl] at hj
    exact (hother j hjl (by rw [hj]; rfl)).1.trans (h.idle j hj)
  · intro j hj
    replace hj : v.phase j = .holding := hphase ▸ hj
    have hjl : j ≠ l := by
      rintro rfl
      simp [hl] at hj
    exact (hother j hjl (by rw [hj]; rfl)).2.trans (h.holding j hj)
  · intro j hj
    show v'.phase j = .dropped
    rw [hphase]
    exact h.sent j (hchannel ▸ hj)
  · show v'.channel.Nodup
    rw [hchannel]
    exact h.channel_nodup
  · rintro _ ⟨⟩
    show v'.phase l = .dropped ∧ l ∉ v'.channel
    rw [hphase, hchannel]
    exact h.current l (by rw [htask]; rfl)
  · intro j hj hnot hne
    replace hj : v.phase j = .dropped := hphase ▸ hj
    have hjl : j ≠ l := fun heq => hne (congrArg some heq.symm)
    refine (hother j hjl (by rw [hj]; rfl)).1.trans (h.released j hj (hchannel ▸ hnot) ?_)
    rw [htask]
    exact fun heq => hjl (Option.some.inj heq).symm

lemma Sent.move (h : Sent c v) (hs : Asleep c v) (hmove : Move c v a v') : Sent c v' := by
  cases hmove with
  | call hphase | cancel hphase => exact h.setPhase (by simp [hphase]) (by simp) (by simp)
  | acquired hphase hwanted =>
    exact (h.setPhase (by simp [hphase]) (by simp) fun _ => hwanted).record
  | acquire hphase _ hattempt => exact h.attempt hattempt (by simp [hphase])
  | sleep hphase _ hattempt =>
    have hattempted := h.attempt hattempt (by simp [hphase])
    exact hattempted.setPhase (by simp [hattempt.phase_eq, hphase]) (by simp) (by simp)
  | resume hphase hwoken =>
    have hready := hs.ready _ (by rw [hphase]; rfl) hwoken
    exact (h.setPhase (by simp [hphase]) (by simp) fun _ => hready).record
  | setCommitTs | recycle =>
    exact ⟨h.idle, h.holding, h.sent, h.channel_nodup, h.current, h.released⟩
  | drop hphase => exact h.drop hphase
  | recv htask hchannel => exact h.recv htask hchannel
  | released htask hzero => exact h.released_all htask hzero
  | release htask _ _ htakes => exact h.release hs htask htakes
  | woken htask =>
    refine h.congr (fun _ => id) (fun _ => Iff.rfl) h.holding rfl (fun l hl => ?_) ?_
      fun _ _ => rfl
    · rw [htask]
      exact hl
    · rw [htask]
      rfl
  | wakeup htask _ hattempt => exact h.attempt hattempt (hs.head_phase htask)
  | requeue htask _ hattempt =>
    have hattempted := h.attempt hattempt (hs.head_phase htask)
    refine hattempted.congr (fun _ => id) (fun _ => Iff.rfl) hattempted.holding rfl
      (fun l hl => ?_) ?_ fun _ _ => rfl
    · rw [hattempt.task_eq, htask]
      exact hl
    · rw [hattempt.task_eq, htask]
      rfl
  | finish htask =>
    refine h.congr (fun _ => id) (fun _ => Iff.rfl) h.holding rfl (fun l hl => ?_) ?_
      fun _ _ => rfl
    · cases hl
    · rw [htask]
      rfl

/-- **The invariant of the latches.** -/
structure Consistent (c : LatchConfig n size) (v : LatchView n size) : Prop where
  owned : Owned c v
  asleep : Asleep c v
  sent : Sent c v

lemma Consistent.recycles (h : Consistent c v) (hv : Recycles v v') : Consistent c v' := by
  obtain rfl | ⟨ts, m, -, rfl⟩ := hv
  · exact h
  · exact ⟨h.owned.congr rfl rfl,
      h.asleep.congr rfl rfl rfl (fun _ => rfl) (fun _ => id) fun _ _ _ => rfl,
      h.sent.idle, h.sent.holding, h.sent.sent, h.sent.channel_nodup, h.sent.current,
      h.sent.released⟩

lemma Consistent.move (h : Consistent c v) (hmove : Move c v a v') : Consistent c v' :=
  ⟨h.owned.move hmove, h.asleep.move h.sent hmove, h.sent.move h.asleep hmove⟩

lemma Consistent.owner_of_holding (h : Consistent c v) (hphase : v.phase i = .holding)
    (hstale : v.stale i = false) (hkey : key ∈ c.lockKeys i) : v.owner key = some i := by
  have hwanted := h.sent.holding i hphase
  rw [wantedKey, hstale] at hwanted
  have hlen : (c.keys i).length ≤ v.acquired i := List.getElem?_eq_none_iff.mp hwanted
  refine (h.owned.owner_iff key i).mpr ?_
  rw [List.take_of_length_le hlen]
  exact (c.mem_keys i).mpr hkey

end LatchView

/-! ## Reachable states -/

namespace LatchState

open LatchView

variable {c : LatchConfig n size} {s s' : LatchState n size}

lemma consistent_init (c : LatchConfig n size) : Consistent c ((init n size).view c) := by
  constructor
  · constructor
    · intro k i
      simp [init, view, SlotInner.entry]
    · intro i
      exact Nat.zero_le _
  · constructor <;> simp [init, view, LatchTask.wakeups, LatchPhase.awaiting]
  · constructor <;> simp [init, view, LatchTask.current]

lemma consistent_step {a : LatchAction n} (h : Consistent c (s.view c))
    (hstep : s.step c a = some s') : Consistent c (s'.view c) := by
  obtain ⟨v, hv, hmove⟩ := step_view h.owned hstep
  exact (h.recycles hv).move hmove

lemma consistent_of_reach {allowed : LatchState n size → LatchAction n → Prop}
    (h : Machine.Reach (step c) allowed (init n size) s) : Consistent c (s.view c) :=
  h.invariant (I := fun s => Consistent c (s.view c)) (consistent_init c)
    fun _ _ _ hs _ hstep => consistent_step hs hstep

end LatchState

end TikvClient
