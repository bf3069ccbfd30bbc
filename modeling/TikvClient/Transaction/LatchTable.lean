import TikvClient.Transaction.Latch

/-!
# What the latches are: an owner and a newest commit for each key

The nodes, their tables and slots are a way to keep two functions on keys: who owns a key, and how
new the newest commit of a former owner is.  A `LatchView` is a state of the latches with these
functions in place of the tables; `Move` are the steps of the latches on views, one constructor for
each thing that a step can do.

**Recycling** makes the latches forget old commits of keys without an owner.  It may happen before a
`Move`, so it is a relation of its own (`Recycles`), and all invariants are stated for both.

**The simulation** (`step_view`) says that every action of the machine is a `Move`, possibly after a
`Recycles`.  It assumes what `releaseSlot` assumes: a lock owns the keys that it releases
(`Owned`).
-/

namespace TikvClient

open Function

/-- **The latches as functions on keys and locks.** -/
@[ext]
structure LatchView (n size : ℕ) where
  owner : Key → Option (Fin n)
  maxCommitTs : Key → ℕ
  waiting : Fin size → List (Fin n)
  acquired : Fin n → ℕ
  commitTs : Fin n → ℕ
  stale : Fin n → Bool
  woken : Fin n → Bool
  phase : Fin n → LatchPhase
  channel : List (Fin n)
  task : LatchTask n
  /-- The steps that the `recycle` tasks have left. -/
  recycling : ℕ
  history : List (LatchEvent n)

variable {n size : ℕ}

/-- The steps that a list of `recycle` tasks has left. -/
def recyclesLeft (size : ℕ) (recycles : List (ℕ × ℕ)) : ℕ :=
  (recycles.map fun task => size - task.2 + 1).sum

lemma recyclesLeft_append (recycles : List (ℕ × ℕ)) (ts : ℕ) :
    recyclesLeft size (recycles ++ [(ts, 0)]) = recyclesLeft size recycles + (size + 1) := by
  simp [recyclesLeft]

variable {j : ℕ}

lemma recyclesLeft_set_lt {recycles : List (ℕ × ℕ)} {ts slot : ℕ}
    (hget : recycles[j]? = some (ts, slot)) (hslot : slot < size) :
    recyclesLeft size (recycles.set j (ts, slot + 1)) < recyclesLeft size recycles := by
  induction recycles generalizing j with
  | nil => simp at hget
  | cons task recycles ih =>
    cases j with
    | zero =>
      obtain rfl : task = (ts, slot) := by simpa using hget
      simp only [recyclesLeft, List.set_cons_zero, List.map_cons, List.sum_cons]
      omega
    | succ j => simpa [recyclesLeft] using ih (by simpa using hget)

lemma recyclesLeft_eraseIdx_lt {recycles : List (ℕ × ℕ)} {task : ℕ × ℕ}
    (hget : recycles[j]? = some task) :
    recyclesLeft size (recycles.eraseIdx j) < recyclesLeft size recycles := by
  induction recycles generalizing j with
  | nil => simp at hget
  | cons task' recycles ih =>
    cases j with
    | zero =>
      simp only [recyclesLeft, List.eraseIdx_cons_zero, List.map_cons, List.sum_cons]
      omega
    | succ j => simpa [recyclesLeft] using ih (by simpa using hget)

def LatchState.view (c : LatchConfig n size) (s : LatchState n size) : LatchView n size where
  owner := fun k => ((s.slots (c.slotId k)).entry k).value
  maxCommitTs := fun k => ((s.slots (c.slotId k)).entry k).maxCommitTs
  waiting := fun slot => (s.slots slot).waiting
  acquired := fun i => (s.locks i).acquiredCount
  commitTs := fun i => (s.locks i).commitTs
  stale := fun i => (s.locks i).stale
  woken := fun i => (s.locks i).woken
  phase := s.phase
  channel := s.channel
  task := s.task
  recycling := recyclesLeft size s.recycles
  history := s.history

namespace LatchView

def setPhase (v : LatchView n size) (i : Fin n) (p : LatchPhase) : LatchView n size :=
  { v with phase := update v.phase i p }

def record (v : LatchView n size) (event : LatchEvent n) : LatchView n size :=
  { v with history := v.history ++ [event] }

def markStale (v : LatchView n size) (i : Fin n) : LatchView n size :=
  { v with stale := update v.stale i true }

def wake (v : LatchView n size) (i : Fin n) : LatchView n size :=
  { v with woken := update v.woken i true }

def setNode (v : LatchView n size) (key : Key) (node : Node n) : LatchView n size :=
  { v with
    owner := update v.owner key node.value
    maxCommitTs := update v.maxCommitTs key node.maxCommitTs }

def setAcquired (v : LatchView n size) (i : Fin n) (count : ℕ) : LatchView n size :=
  { v with acquired := update v.acquired i count }

def setWaiting (v : LatchView n size) (slot : Fin size) (ws : List (Fin n)) : LatchView n size :=
  { v with waiting := update v.waiting slot ws }

def grant (v : LatchView n size) (i : Fin n) (key : Key) : LatchView n size :=
  { v with
    owner := update v.owner key (some i)
    acquired := update v.acquired i (v.acquired i + 1)
    history := v.history ++ [.granted i key] }

/-- A lock gives a key back, the last of the `idx + 1` it has. -/
def release (v : LatchView n size) (l : Fin n) (idx : ℕ) (key : Key) : LatchView n size :=
  { v with
    owner := update v.owner key none
    maxCommitTs := update v.maxCommitTs key (max (v.maxCommitTs key) (v.commitTs l))
    acquired := update v.acquired l idx
    history := v.history ++ [.released l key (v.commitTs l)] }

/-- The first key that a lock has not acquired. -/
def nextKey (c : LatchConfig n size) (v : LatchView n size) (i : Fin n) : Option Key :=
  (c.keys i)[v.acquired i]?

/-- The key that `acquire` tries next. -/
def wantedKey (c : LatchConfig n size) (v : LatchView n size) (i : Fin n) : Option Key :=
  if v.stale i then none else v.nextKey c i

/-- **Who owns what**: a lock owns the keys it has acquired, in the order of its key list. -/
structure Owned (c : LatchConfig n size) (v : LatchView n size) : Prop where
  owner_iff : ∀ k i, v.owner k = some i ↔ k ∈ (c.keys i).take (v.acquired i)
  acquired_le : ∀ i, v.acquired i ≤ (c.keys i).length

/-- Old commits of keys without an owner are forgotten. -/
def Recycles (v v' : LatchView n size) : Prop :=
  v' = v ∨ ∃ ts m, (∀ k, m k = v.maxCommitTs k ∨
      m k = 0 ∧ v.owner k = none ∧ expireDuration ≤ tsoSub ts (v.maxCommitTs k)) ∧
    v' = { v with maxCommitTs := m, history := v.history ++ [.recycled ts] }

/-- An attempt of a lock to acquire a key. -/
inductive Attempt (c : LatchConfig n size) (i : Fin n) (key : Key) (v : LatchView n size) :
    LatchView n size → AcquireResult → Prop where
  | stale (hmax : c.startTs i < v.maxCommitTs key) : Attempt c i key v (v.markStale i) .stale
  | success (hmax : v.maxCommitTs key ≤ c.startTs i) (howner : v.owner key = none) :
      Attempt c i key v (v.grant i key) .success
  | locked (howner : v.owner key ≠ none) :
      Attempt c i key v
        (v.setWaiting (c.slotId key) (v.waiting (c.slotId key) ++ [i])) .locked

/-- A waiter is taken off its list after the key has been released. -/
inductive Takes (c : LatchConfig n size) (key : Key) (v : LatchView n size) :
    LatchView n size → Option (Fin n) → Prop where
  | nobody (hnone : ∀ w ∈ v.waiting (c.slotId key), v.nextKey c w ≠ some key) :
      Takes c key v v none
  | waiter {w : Fin n} (hmem : w ∈ v.waiting (c.slotId key)) (hnext : v.nextKey c w = some key)
      (hmax : v.maxCommitTs key ≤ c.startTs w) :
      Takes c key v (v.setWaiting (c.slotId key) ((v.waiting (c.slotId key)).erase w)) (some w)
  | stale {w : Fin n} (hmem : w ∈ v.waiting (c.slotId key)) (hnext : v.nextKey c w = some key)
      (hmax : c.startTs w < v.maxCommitTs key) :
      Takes c key v (((v.setWaiting (c.slotId key)
        ((v.waiting (c.slotId key)).erase w)).grant w key).markStale w) (some w)

/-- **The steps of the latches.** -/
inductive Move (c : LatchConfig n size) (v : LatchView n size) :
    LatchAction n → LatchView n size → Prop where
  | call {i : Fin n} (hphase : v.phase i = .idle) : Move c v (.call i) (v.setPhase i .acquiring)
  | acquired {i : Fin n} (hphase : v.phase i = .acquiring) (hwanted : v.wantedKey c i = none) :
      Move c v (.acquire i) ((v.setPhase i .holding).record (.returned i))
  | acquire {i : Fin n} {key : Key} {v' : LatchView n size} {r : AcquireResult}
      (hphase : v.phase i = .acquiring) (hwanted : v.wantedKey c i = some key)
      (hattempt : Attempt c i key v v' r) (hr : r ≠ .locked) : Move c v (.acquire i) v'
  | sleep {i : Fin n} {key : Key} {v' : LatchView n size}
      (hphase : v.phase i = .acquiring) (hwanted : v.wantedKey c i = some key)
      (hattempt : Attempt c i key v v' .locked) :
      Move c v (.acquire i) (v'.setPhase i .waiting)
  | resume {i : Fin n} (hphase : v.phase i = .waiting) (hwoken : v.woken i = true) :
      Move c v (.resume i) ((v.setPhase i .holding).record (.returned i))
  | setCommitTs {i : Fin n} {ts : ℕ} (hphase : v.phase i = .holding) :
      Move c v (.setCommitTs i ts) { v with commitTs := update v.commitTs i ts }
  | drop {i : Fin n} (hphase : v.phase i = .holding) :
      Move c v (.drop i) { v.setPhase i .dropped with channel := v.channel ++ [i] }
  | cancel {i : Fin n} (hphase : v.phase i = .waiting) :
      Move c v (.cancel i) (v.setPhase i .cancelled)
  | recv {l : Fin n} {channel : List (Fin n)} (htask : v.task = .idle)
      (hchannel : v.channel = l :: channel) :
      Move c v .recv { v with channel, task := .releasing l [] }
  | released {l : Fin n} {ws : List (Fin n)} (htask : v.task = .releasing l ws)
      (hzero : v.acquired l = 0) : Move c v .release { v with task := .waking l ws }
  | release {l : Fin n} {ws : List (Fin n)} {idx : ℕ} {key : Key} {v' : LatchView n size}
      {next : Option (Fin n)} (htask : v.task = .releasing l ws) (hcount : v.acquired l = idx + 1)
      (hkey : (c.keys l)[idx]? = some key) (htakes : Takes c key (v.release l idx key) v' next) :
      Move c v .release { v' with task := .releasing l (ws ++ next.toList) }
  | woken {l w : Fin n} {ws : List (Fin n)} (htask : v.task = .waking l (w :: ws))
      (hwanted : v.wantedKey c w = none) :
      Move c v .wakeup { v.wake w with task := .waking l ws }
  | wakeup {l w : Fin n} {ws : List (Fin n)} {key : Key} {v' : LatchView n size}
      {r : AcquireResult} (htask : v.task = .waking l (w :: ws))
      (hwanted : v.wantedKey c w = some key) (hattempt : Attempt c w key v v' r)
      (hr : r ≠ .locked) : Move c v .wakeup v'
  | requeue {l w : Fin n} {ws : List (Fin n)} {key : Key} {v' : LatchView n size}
      (htask : v.task = .waking l (w :: ws)) (hwanted : v.wantedKey c w = some key)
      (hattempt : Attempt c w key v v' .locked) :
      Move c v .wakeup { v' with task := .waking l ws }
  | finish {l : Fin n} {work : ℕ} (htask : v.task = .waking l [])
      (hwork : work ≤ v.recycling + (size + 1)) :
      Move c v .finish { v with task := .idle, recycling := work }
  | recycle {j work : ℕ} (hwork : work < v.recycling) :
      Move c v (.recycle j) { v with recycling := work }

section

variable {c : LatchConfig n size} {v v' : LatchView n size}

lemma Recycles.phase_eq (h : Recycles v v') : v'.phase = v.phase := by
  obtain rfl | ⟨ts, m, -, rfl⟩ := h <;> rfl

lemma Recycles.task_eq (h : Recycles v v') : v'.task = v.task := by
  obtain rfl | ⟨ts, m, -, rfl⟩ := h <;> rfl

lemma Recycles.wantedKey_eq (h : Recycles v v') : v'.wantedKey c = v.wantedKey c := by
  obtain rfl | ⟨ts, m, -, rfl⟩ := h <;> rfl

end

end LatchView

/-! ## The views of the updated states -/

namespace LatchState

open LatchView

variable {c : LatchConfig n size} {s s' : LatchState n size}

@[simp] lemma view_record (event : LatchEvent n) :
    (s.record event).view c = (s.view c).record event := rfl

lemma view_setLock (i : Fin n) (lock : LatchLock) :
    (s.setLock i lock).view c = LatchView.mk (s.view c).owner (s.view c).maxCommitTs
      (s.view c).waiting
      (update (s.view c).acquired i lock.acquiredCount)
      (update (s.view c).commitTs i lock.commitTs)
      (update (s.view c).stale i lock.stale)
      (update (s.view c).woken i lock.woken)
      s.phase s.channel s.task (recyclesLeft size s.recycles) s.history := by
  have hupdate : ∀ {β : Type} (f : LatchLock → β),
      (fun j => f (update s.locks i lock j)) =
        update (fun j => f (s.locks j)) i (f lock) :=
    fun f => comp_update f s.locks i lock
  simp only [view, setLock, hupdate]

@[simp] lemma view_markStale (i : Fin n) : (s.markStale i).view c = (s.view c).markStale i := by
  rw [markStale, view_setLock]
  simp [view, LatchView.markStale]

@[simp] lemma view_wake (i : Fin n) : (s.wake i).view c = (s.view c).wake i := by
  rw [wake, view_setLock]
  simp [view, LatchView.wake]

lemma view_setLock_acquiredCount (i : Fin n) (count : ℕ) :
    (s.setLock i { s.locks i with acquiredCount := count }).view c =
      (s.view c).setAcquired i count := by
  rw [view_setLock]
  simp [view, setAcquired]

lemma view_setLock_commitTs (i : Fin n) (ts : ℕ) :
    (s.setLock i { s.locks i with commitTs := ts }).view c =
      { s.view c with commitTs := update (s.view c).commitTs i ts } := by
  rw [view_setLock]
  simp [view]

lemma view_setNode (key : Key) (node : Node n) :
    (s.setSlot (c.slotId key) ((s.slots (c.slotId key)).setNode key node)).view c =
      (s.view c).setNode key node := by
  have hentry : ∀ k, (update s.slots (c.slotId key)
      ((s.slots (c.slotId key)).setNode key node) (c.slotId k)).entry k =
      update (fun k => (s.slots (c.slotId k)).entry k) key node k := by
    intro k
    by_cases hk : k = key
    · subst hk
      rw [update_self, update_self, SlotInner.entry_setNode, if_pos rfl]
    · rw [update_of_ne hk]
      by_cases hslot : c.slotId k = c.slotId key
      · rw [hslot, update_self, SlotInner.entry_setNode, if_neg (Ne.symm hk)]
      · rw [update_of_ne hslot]
  have hupdate : ∀ {β : Type} (f : Node n → β),
      (fun k => f (update (fun k => (s.slots (c.slotId k)).entry k) key node k)) =
        update (fun k => f ((s.slots (c.slotId k)).entry k)) key (f node) :=
    fun f => comp_update f _ key node
  ext1
  case owner => simp only [view, setSlot, hentry, hupdate, setNode]
  case maxCommitTs => simp only [view, setSlot, hentry, hupdate, setNode]
  case waiting =>
    refine (comp_update SlotInner.waiting s.slots _ _).trans ?_
    exact update_eq_self _ _
  all_goals rfl

lemma view_setWaiting (slot : Fin size) (ws : List (Fin n)) :
    (s.setSlot slot ((s.slots slot).setWaiting ws)).view c = (s.view c).setWaiting slot ws := by
  have hentry : ∀ k, (update s.slots slot ((s.slots slot).setWaiting ws)
      (c.slotId k)).entry k = (s.slots (c.slotId k)).entry k := by
    intro k
    by_cases hslot : c.slotId k = slot
    · subst hslot
      rw [update_self, SlotInner.entry_setWaiting]
    · rw [update_of_ne hslot]
  ext1
  case owner => simp only [view, setSlot, hentry, setWaiting]
  case maxCommitTs => simp only [view, setSlot, hentry, setWaiting]
  case waiting => exact comp_update SlotInner.waiting s.slots _ _
  all_goals rfl

lemma view_setWaiting_setNode (key : Key) (node : Node n) (ws : List (Fin n)) :
    (s.setSlot (c.slotId key) (((s.slots (c.slotId key)).setNode key node).setWaiting ws)).view c =
      ((s.view c).setNode key node).setWaiting (c.slotId key) ws := by
  rw [← view_setNode, ← view_setWaiting]
  simp [setSlot]

lemma recycleSlot_view (slot : Fin size) (ts : ℕ) :
    Recycles (s.view c) ((s.recycleSlot slot ts).view c) := by
  have hentry : ∀ k, (update s.slots slot ((s.slots slot).recycle ts)
        (c.slotId k)).entry k = (s.slots (c.slotId k)).entry k ∨
      (update s.slots slot ((s.slots slot).recycle ts) (c.slotId k)).entry k = ⟨0, none⟩ ∧
        (s.view c).owner k = none ∧ expireDuration ≤ tsoSub ts ((s.view c).maxCommitTs k) := by
    intro k
    by_cases hslot : c.slotId k = slot
    · subst hslot
      rw [update_self]
      exact SlotInner.entry_recycle _ ts k
    · rw [update_of_ne hslot]
      exact .inl rfl
  refine .inr ⟨ts, ((s.recycleSlot slot ts).view c).maxCommitTs, fun k => ?_, ?_⟩
  · obtain heq | ⟨heq, hrest⟩ := hentry k
    · exact .inl (congrArg Node.maxCommitTs heq)
    · exact .inr ⟨congrArg Node.maxCommitTs heq, hrest⟩
  · ext1
    case owner =>
      funext k
      obtain heq | ⟨heq, hnone, -⟩ := hentry k
      · exact congrArg Node.value heq
      · exact (congrArg Node.value heq).trans hnone.symm
    case waiting =>
      refine (comp_update SlotInner.waiting s.slots _ _).trans ?_
      exact update_eq_self _ _
    all_goals rfl

/-! ## The simulation -/

lemma setNode_entry (key : Key) :
    (s.view c).setNode key ((s.slots (c.slotId key)).entry key) = s.view c := by
  simp [setNode, view]

lemma recycleFull_view (i : Fin n) (key : Key) :
    Recycles (s.view c) ((s.recycleFull c i key).view c) := by
  unfold recycleFull
  split
  · exact recycleSlot_view _ _
  · exact .inl rfl

variable {i : Fin n} {r : AcquireResult} {next : Option (Fin n)}

lemma acquireNode_view {key : Key}
    (h : s.acquireNode c i key = (s', r)) : Attempt c i key (s.view c) (s'.view c) r := by
  unfold acquireNode at h
  dsimp only at h
  split_ifs at h with hmax
  · cases h
    rw [view_markStale, view_setNode, setNode_entry]
    exact .stale hmax
  · split at h
    next hvalue =>
      cases h
      rw [view_record, incAcquired, view_setLock_acquiredCount, view_setNode]
      have hattempt := Attempt.success (i := i) (v := s.view c) (not_lt.mp hmax) hvalue
      convert hattempt using 1
      simp [view, grant, LatchView.record, setAcquired, setNode, setSlot]
    next owner hvalue =>
      cases h
      rw [view_setWaiting_setNode, setNode_entry]
      refine .locked fun hnone => ?_
      exact absurd (hvalue.symm.trans hnone) (Option.some_ne_none owner)

lemma acquireSlot_view {key : Key} (h : s.acquireSlot c i key = (s', r)) :
    ∃ v, Recycles (s.view c) v ∧ Attempt c i key v (s'.view c) r :=
  ⟨_, recycleFull_view i key, acquireNode_view h⟩

lemma takeWaiter_view {key : Key} (h : s.takeWaiter c key = (s', next)) :
    Takes c key (s.view c) (s'.view c) next := by
  unfold takeWaiter at h
  dsimp only at h
  split at h
  next hfind =>
    cases h
    refine .nobody fun w hw => ?_
    have hnext : s.nextKey c w ≠ some key := by simpa using List.find?_eq_none.mp hfind w hw
    exact hnext
  next w hfind =>
    have hmem := List.mem_of_find?_eq_some hfind
    have hnext : s.nextKey c w = some key := by simpa using List.find?_some hfind
    split_ifs at h with hmax
    · cases h
      have hset := view_setWaiting_setNode (c := c) (s := s) key
        { (s.slots (c.slotId key)).entry key with value := some w }
        ((s.slots (c.slotId key)).waiting.erase w)
      have htakes := Takes.stale (v := s.view c) hmem hnext hmax
      rw [view_record, view_markStale, incAcquired, view_setLock_acquiredCount]
      convert htakes using 1
      refine (congrArg (fun v : LatchView n size =>
        ((v.setAcquired w (v.acquired w + 1)).markStale w).record (.granted w key)) hset).trans ?_
      simp [view, setWaiting, grant, LatchView.markStale, LatchView.record, setAcquired, setNode]
    · cases h
      rw [view_setWaiting]
      exact .waiter hmem hnext (not_lt.mp hmax)

/-- A lock that owns the keys it has acquired releases the last of them. -/
lemma releaseSlot_view {l : Fin n} {idx : ℕ} (howned : Owned c (s.view c))
    (hcount : (s.locks l).acquiredCount = idx + 1) (h : s.releaseSlot c l = (s', next)) :
    ∃ key, (c.keys l)[idx]? = some key ∧
      Takes c key ((s.view c).release l idx key) (s'.view c) next := by
  have hidx : idx < (c.keys l).length := by
    have := howned.acquired_le l
    rw [show (s.view c).acquired l = idx + 1 from hcount] at this
    exact this
  have hkey := List.getElem?_eq_getElem hidx
  refine ⟨_, hkey, ?_⟩
  have howner : ((s.slots (c.slotId (c.keys l)[idx])).entry (c.keys l)[idx]).value = some l := by
    refine (howned.owner_iff _ l).mpr ?_
    rw [show (s.view c).acquired l = idx + 1 from hcount, List.take_add_one, hkey]
    exact List.mem_append_right _ (List.mem_singleton_self _)
  unfold releaseSlot at h
  rw [hcount] at h
  dsimp only at h
  rw [hkey] at h
  dsimp only at h
  rw [show (s.setLock l { s.locks l with acquiredCount := idx }).slots = s.slots from rfl,
    howner] at h
  dsimp only at h
  rw [if_pos rfl] at h
  have hset : ((s.setLock l { s.locks l with acquiredCount := idx }).setSlot
      (c.slotId (c.keys l)[idx]) ((s.slots (c.slotId (c.keys l)[idx])).setNode (c.keys l)[idx]
        ⟨max ((s.view c).maxCommitTs (c.keys l)[idx]) ((s.view c).commitTs l), none⟩)).view c =
      ((s.view c).setAcquired l idx).setNode (c.keys l)[idx]
        ⟨max ((s.view c).maxCommitTs (c.keys l)[idx]) ((s.view c).commitTs l), none⟩ :=
    (view_setNode _ _).trans (congrArg (LatchView.setNode · _ _) (view_setLock_acquiredCount l idx))
  have htakes := takeWaiter_view h
  rw [view_record] at htakes
  convert htakes using 1
  exact (congrArg (fun v : LatchView n size => v.record _) hset).symm

/-- **Every action is a move.** -/
theorem step_view {a : LatchAction n} (howned : Owned c (s.view c)) (h : s.step c a = some s') :
    ∃ v, Recycles (s.view c) v ∧ Move c v a (s'.view c) := by
  have hsame : Recycles (s.view c) (s.view c) := .inl rfl
  cases a with
  | call i =>
    simp only [step] at h
    split at h
    next hphase =>
      cases h
      exact ⟨_, hsame, .call hphase⟩
    · cases h
  | acquire i =>
    simp only [step] at h
    split at h
    next hphase =>
      split at h
      next hwanted =>
        cases h
        exact ⟨_, hsame, .acquired hphase hwanted⟩
      next key hwanted =>
        split at h
        next s₁ hacquire =>
          cases h
          obtain ⟨v, hv, hattempt⟩ := acquireSlot_view hacquire
          exact ⟨v, hv, .sleep (hv.phase_eq ▸ hphase) (hv.wantedKey_eq ▸ hwanted) hattempt⟩
        next s₁ r hr hacquire =>
          cases h
          obtain ⟨v, hv, hattempt⟩ := acquireSlot_view hacquire
          exact ⟨v, hv, .acquire (hv.phase_eq ▸ hphase) (hv.wantedKey_eq ▸ hwanted) hattempt hr⟩
    · cases h
  | resume i =>
    simp only [step] at h
    split at h
    next hphase hwoken =>
      cases h
      exact ⟨_, hsame, .resume hphase hwoken⟩
    · cases h
  | setCommitTs i ts =>
    simp only [step] at h
    split at h
    next hphase =>
      cases h
      rw [view_setLock_commitTs]
      exact ⟨_, hsame, .setCommitTs hphase⟩
    · cases h
  | drop i =>
    simp only [step] at h
    split at h
    next hphase =>
      cases h
      exact ⟨_, hsame, .drop hphase⟩
    · cases h
  | cancel i =>
    simp only [step] at h
    split at h
    next hphase =>
      cases h
      exact ⟨_, hsame, .cancel hphase⟩
    · cases h
  | recv =>
    simp only [step] at h
    split at h
    next l channel htask hchannel =>
      cases h
      exact ⟨_, hsame, .recv htask hchannel⟩
    · cases h
  | release =>
    simp only [step] at h
    split at h
    next l ws htask =>
      split_ifs at h with hzero
      · cases h
        exact ⟨_, hsame, .released htask hzero⟩
      · cases h
        obtain ⟨idx, hcount⟩ := Nat.exists_eq_succ_of_ne_zero hzero
        obtain ⟨key, hkey, htakes⟩ := releaseSlot_view howned hcount rfl
        exact ⟨_, hsame, .release htask hcount hkey htakes⟩
    · cases h
  | wakeup =>
    simp only [step] at h
    split at h
    next l w ws htask =>
      split at h
      next hwanted =>
        cases h
        have hmove := Move.woken (v := s.view c) htask hwanted
        rw [← view_wake] at hmove
        exact ⟨_, hsame, hmove⟩
      next key hwanted =>
        split at h
        next s₁ hacquire =>
          cases h
          obtain ⟨v, hv, hattempt⟩ := acquireSlot_view hacquire
          exact ⟨v, hv, .requeue (hv.task_eq.trans htask) (hv.wantedKey_eq ▸ hwanted) hattempt⟩
        next s₁ r hr hacquire =>
          cases h
          obtain ⟨v, hv, hattempt⟩ := acquireSlot_view hacquire
          exact ⟨v, hv, .wakeup (hv.task_eq.trans htask) (hv.wantedKey_eq ▸ hwanted) hattempt hr⟩
    · cases h
  | finish =>
    simp only [step] at h
    split at h
    next l htask =>
      cases h
      unfold finishRelease
      dsimp only
      split
      · exact ⟨_, hsame, .finish htask (recyclesLeft_append _ _).le⟩
      · exact ⟨_, hsame, .finish htask (Nat.le_add_right _ _)⟩
    · cases h
  | recycle j =>
    simp only [step] at h
    split at h
    next ts slot hget =>
      split_ifs at h with hslot
      · cases h
        exact ⟨_, recycleSlot_view _ ts, .recycle (recyclesLeft_set_lt hget hslot)⟩
      · cases h
        exact ⟨_, hsame, .recycle (recyclesLeft_eraseIdx_lt hget)⟩
    · cases h

end LatchState

end TikvClient
