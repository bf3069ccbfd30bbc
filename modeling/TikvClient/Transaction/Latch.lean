import Mathlib.Data.List.Dedup
import Mathlib.Data.List.Sort
import TikvClient.Core.Machine
import TikvClient.Kv.Key

/-!
# Local latches

Before it commits, a transaction takes the latches of its keys, so that commits of this client with
overlapping keys happen one after the other.  A latch is a `Node` in the table of the slot its key
is hashed to; it has an owner and the newest commit timestamp of the owners that released it.  A
transaction that finds a newer commit than its own start is *stale*.

**Who moves.**  A caller of `lock()` takes its keys in order until one of them has an owner; then it
is put into the waiting list of the slot and sleeps.  From there on the background task acts for it:
when the guard of an owner is dropped, the task releases the keys, takes one waiter of each of them
off its list, and afterwards goes on acquiring for these waiters.

**The machine.**  A step is one critical section of a slot, or what happens between two of them.
The key lists and the timestamps of the callers and the hash function are a `LatchConfig`.  The
`history` of a state is no part of the program: it records which events happened, for the statements
about whole runs.
-/

namespace TikvClient

/-- `EXPIRE_DURATION`, in milliseconds. -/
def expireDuration : ℕ := 2 * 60 * 1000

/-- `CHECK_INTERVAL`, in milliseconds. -/
def checkInterval : ℕ := 60 * 1000

def checkCounter : ℕ := 50000

def latchListCount : ℕ := 5

/-- The physical part of a timestamp, which has 18 logical bits. -/
def extractPhysicalMs (ts : ℕ) : ℕ := ts >>> 18

/-- The difference of the physical parts, in milliseconds; zero if it would be negative. -/
def tsoSub (ts₁ ts₂ : ℕ) : ℕ := extractPhysicalMs ts₁ - extractPhysicalMs ts₂

inductive AcquireResult where
  | success
  | locked
  | stale
deriving DecidableEq

/-! ## Slots -/

/-- The latch of a key.  Locks are named by numbers. -/
structure Node (n : ℕ) where
  maxCommitTs : ℕ
  value : Option (Fin n)
deriving DecidableEq

structure SlotInner (n : ℕ) where
  nodes : Std.ExtTreeMap Key (Node n)
  waiting : List (Fin n)

namespace SlotInner

variable {n : ℕ}

/-- The node of a key, which is created when it is missing. -/
def entry (inner : SlotInner n) (key : Key) : Node n := inner.nodes[key]?.getD ⟨0, none⟩

def setNode (inner : SlotInner n) (key : Key) (node : Node n) : SlotInner n :=
  { inner with nodes := inner.nodes.insert key node }

def setWaiting (inner : SlotInner n) (waiting : List (Fin n)) : SlotInner n :=
  { inner with waiting }

/-- Forget the nodes without an owner whose newest commit is long ago. -/
def recycle (inner : SlotInner n) (currentTs : ℕ) : SlotInner n :=
  { inner with nodes := inner.nodes.filter fun _ node =>
      node.value.isSome || decide (tsoSub currentTs node.maxCommitTs < expireDuration) }

lemma entry_setNode (inner : SlotInner n) (key k : Key) (node : Node n) :
    (inner.setNode key node).entry k = if key = k then node else inner.entry k := by
  unfold entry setNode
  rw [Std.ExtTreeMap.getElem?_insert]
  by_cases hk : key = k
  · simp [hk]
  · simp [hk]

lemma entry_setWaiting (inner : SlotInner n) (waiting : List (Fin n)) (k : Key) :
    (inner.setWaiting waiting).entry k = inner.entry k := rfl

lemma entry_recycle (inner : SlotInner n) (ts : ℕ) (k : Key) :
    (inner.recycle ts).entry k = inner.entry k ∨
      (inner.recycle ts).entry k = ⟨0, none⟩ ∧ (inner.entry k).value = none ∧
        expireDuration ≤ tsoSub ts (inner.entry k).maxCommitTs := by
  unfold entry recycle
  rw [Std.ExtTreeMap.getElem?_filter']
  cases hnode : inner.nodes[k]? with
  | none => exact .inl rfl
  | some node =>
    by_cases hkeep : (node.value.isSome ||
        decide (tsoSub ts node.maxCommitTs < expireDuration)) = true
    · left
      rw [Option.filter_some, if_pos hkeep]
    · right
      simp only [Bool.or_eq_true, decide_eq_true_eq, not_or, not_lt, Option.isSome_iff_ne_none,
        not_not] at hkeep
      rw [Option.filter_some, if_neg (by simpa [Option.isSome_iff_ne_none] using hkeep)]
      exact ⟨rfl, hkeep⟩

end SlotInner

/-! ## Locks and the state of the scheduler -/

/-- **The callers and the hash function**: what each `lock()` is called with, and the slot of each
key. -/
structure LatchConfig (n size : ℕ) where
  slotId : Key → Fin size
  startTs : Fin n → ℕ
  lockKeys : Fin n → List Key

/-- The keys of a lock (`gen_lock`): `keys.sort(); keys.dedup()`. -/
def LatchConfig.keys {n size : ℕ} (c : LatchConfig n size) (i : Fin n) : List Key :=
  ((c.lockKeys i).insertionSort (· ≤ ·)).dedup

/-- What changes of a lock. -/
structure LatchLock where
  acquiredCount : ℕ
  commitTs : ℕ
  stale : Bool
  /-- The permit that `notify_one` leaves in the `Notify`. -/
  woken : Bool

/-- Where the caller of `lock()` is. -/
inductive LatchPhase where
  | idle
  /-- In the loop of `acquire`. -/
  | acquiring
  /-- Found a key locked, and waits to be notified. -/
  | waiting
  /-- `lock()` returned, and the guard is alive. -/
  | holding
  /-- The guard was dropped. -/
  | dropped
  /-- The future of `lock()` was dropped while it was waiting. -/
  | cancelled
deriving DecidableEq

/-- The caller went to sleep and `lock()` has not returned. -/
def LatchPhase.awaiting : LatchPhase → Bool
  | .waiting => true
  | .cancelled => true
  | _ => false

/-- Where the background task is, with the waiters it took off their lists and has to deal with. -/
inductive LatchTask (n : ℕ) where
  | idle
  | releasing (lock : Fin n) (wakeups : List (Fin n))
  | waking (lock : Fin n) (wakeups : List (Fin n))

namespace LatchTask

variable {n : ℕ}

def wakeups : LatchTask n → List (Fin n)
  | .idle => []
  | .releasing _ ws => ws
  | .waking _ ws => ws

/-- The lock whose unlock event the task deals with. -/
def current : LatchTask n → Option (Fin n)
  | .idle => none
  | .releasing l _ => some l
  | .waking l _ => some l

/-- The lock whose keys the task releases. -/
def releases : LatchTask n → Option (Fin n)
  | .releasing l _ => some l
  | _ => none

end LatchTask

/-- What is recorded of a run. -/
inductive LatchEvent (n : ℕ) where
  | granted (lock : Fin n) (key : Key)
  | released (lock : Fin n) (key : Key) (commitTs : ℕ)
  /-- `lock()` returned. -/
  | returned (lock : Fin n)
  /-- `recycle` was called. -/
  | recycled (currentTs : ℕ)
deriving DecidableEq

/-- **The state of the latches**, their callers, the background task and the `recycle` tasks it
spawned. -/
structure LatchState (n size : ℕ) where
  slots : Fin size → SlotInner n
  locks : Fin n → LatchLock
  phase : Fin n → LatchPhase
  /-- The unlock events the background task has not received. -/
  channel : List (Fin n)
  task : LatchTask n
  counter : ℕ
  lastRecycleTs : ℕ
  /-- The timestamps of the running `recycle` calls, each with the next slot it goes to. -/
  recycles : List (ℕ × ℕ)
  history : List (LatchEvent n)

/-- What happens next. -/
inductive LatchAction (n : ℕ) where
  | call (i : Fin n)
  | acquire (i : Fin n)
  /-- The caller wakes up, and `lock()` returns. -/
  | resume (i : Fin n)
  | setCommitTs (i : Fin n) (ts : ℕ)
  /-- The guard is dropped. -/
  | drop (i : Fin n)
  /-- The future of a waiting `lock()` is dropped. -/
  | cancel (i : Fin n)
  /-- The background task receives an unlock event. -/
  | recv
  | release
  | wakeup
  /-- The background task is done with an event. -/
  | finish
  /-- A `recycle` task goes on. -/
  | recycle (task : ℕ)

/-- The steps of the callers, of the background task and of the `recycle` tasks.  Nobody has to
cancel a call or to set a commit timestamp. -/
def LatchAction.isProgress {n : ℕ} : LatchAction n → Bool
  | .setCommitTs _ _ => false
  | .cancel _ => false
  | _ => true

namespace LatchState

variable {n size : ℕ}

def init (n size : ℕ) : LatchState n size where
  slots := fun _ => ⟨∅, []⟩
  locks := fun _ => ⟨0, 0, false, false⟩
  phase := fun _ => .idle
  channel := []
  task := .idle
  counter := 0
  lastRecycleTs := 0
  recycles := []
  history := []

def setSlot (s : LatchState n size) (slot : Fin size) (inner : SlotInner n) : LatchState n size :=
  { s with slots := Function.update s.slots slot inner }

def setLock (s : LatchState n size) (i : Fin n) (lock : LatchLock) : LatchState n size :=
  { s with locks := Function.update s.locks i lock }

def setPhase (s : LatchState n size) (i : Fin n) (p : LatchPhase) : LatchState n size :=
  { s with phase := Function.update s.phase i p }

def record (s : LatchState n size) (event : LatchEvent n) : LatchState n size :=
  { s with history := s.history ++ [event] }

def markStale (s : LatchState n size) (i : Fin n) : LatchState n size :=
  s.setLock i { s.locks i with stale := true }

def incAcquired (s : LatchState n size) (i : Fin n) : LatchState n size :=
  s.setLock i { s.locks i with acquiredCount := (s.locks i).acquiredCount + 1 }

/-- `notify_one`. -/
def wake (s : LatchState n size) (i : Fin n) : LatchState n size :=
  s.setLock i { s.locks i with woken := true }

def recycleSlot (s : LatchState n size) (slot : Fin size) (currentTs : ℕ) : LatchState n size :=
  (s.setSlot slot ((s.slots slot).recycle currentTs)).record (.recycled currentTs)

/-- The first key that a lock has not acquired. -/
def nextKey (c : LatchConfig n size) (s : LatchState n size) (i : Fin n) : Option Key :=
  (c.keys i)[(s.locks i).acquiredCount]?

/-- A slot with many nodes is recycled before a lock looks for its key there. -/
def recycleFull (c : LatchConfig n size) (s : LatchState n size) (i : Fin n) (key : Key) :
    LatchState n size :=
  if latchListCount ≤ (s.slots (c.slotId key)).nodes.size then
    s.recycleSlot (c.slotId key) (c.startTs i)
  else s

/-- A lock tries to acquire a node. -/
def acquireNode (c : LatchConfig n size) (s : LatchState n size) (i : Fin n) (key : Key) :
    LatchState n size × AcquireResult :=
  let slot := c.slotId key
  let inner := s.slots slot
  let node := inner.entry key
  if c.startTs i < node.maxCommitTs then
    ((s.setSlot slot (inner.setNode key node)).markStale i, .stale)
  else
    match node.value with
    | none =>
      (((s.setSlot slot (inner.setNode key { node with value := some i })).incAcquired i).record
        (.granted i key), .success)
    | some _ =>
      (s.setSlot slot ((inner.setNode key node).setWaiting (inner.waiting ++ [i])), .locked)

/-- Try to acquire the next key of a lock. -/
def acquireSlot (c : LatchConfig n size) (s : LatchState n size) (i : Fin n) (key : Key) :
    LatchState n size × AcquireResult :=
  (s.recycleFull c i key).acquireNode c i key

/-- Take the first lock that waits for the key off the waiting list.  If it is stale, it gets the
key, so that it can release it promptly. -/
def takeWaiter (c : LatchConfig n size) (s : LatchState n size) (key : Key) :
    LatchState n size × Option (Fin n) :=
  let slot := c.slotId key
  let inner := s.slots slot
  match inner.waiting.find? fun w => decide (s.nextKey c w = some key) with
  | none => (s, none)
  | some next =>
    let inner := inner.setWaiting (inner.waiting.erase next)
    let node := inner.entry key
    if c.startTs next < node.maxCommitTs then
      ((((s.setSlot slot (inner.setNode key { node with value := some next })).incAcquired
        next).markStale next).record (.granted next key), some next)
    else (s.setSlot slot inner, some next)

/-- Release the last key that a lock acquired, and return the waiter that is to be woken up. -/
def releaseSlot (c : LatchConfig n size) (s : LatchState n size) (l : Fin n) :
    LatchState n size × Option (Fin n) :=
  match (s.locks l).acquiredCount with
  | 0 => (s, none)
  | idx + 1 =>
    let commitTs := (s.locks l).commitTs
    let s := s.setLock l { s.locks l with acquiredCount := idx }
    match (c.keys l)[idx]? with
    | none => (s, none)
    | some key =>
      let slot := c.slotId key
      let inner := s.slots slot
      let node := inner.entry key
      match node.value with
      | some owner =>
        if owner = l then
          ((s.setSlot slot (inner.setNode key
            ⟨max node.maxCommitTs commitTs, none⟩)).record
            (.released l key commitTs)).takeWaiter c key
        else
          -- "wrong lock owner"
          (s.setSlot slot (inner.setNode key node), none)
      | none =>
        -- "inconsistent state"
        ((s.setSlot slot (inner.setNode key
          { node with maxCommitTs := max node.maxCommitTs commitTs })).record
          (.released l key commitTs)).takeWaiter c key

/-- The key that `acquire` tries next; none if it returns. -/
def wantedKey (c : LatchConfig n size) (s : LatchState n size) (i : Fin n) : Option Key :=
  if (s.locks i).stale then none else s.nextKey c i

/-- The background task is done with the event of a lock, and may spawn a `recycle` task. -/
def finishRelease (c : LatchConfig n size) (s : LatchState n size) (l : Fin n) :
    LatchState n size :=
  let commitTs := (s.locks l).commitTs
  if c.startTs l < commitTs ∧
      (checkInterval < tsoSub commitTs s.lastRecycleTs ∨ checkCounter < s.counter) then
    { s with task := .idle, recycles := s.recycles ++ [(commitTs, 0)],
             lastRecycleTs := commitTs, counter := 1 }
  else { s with task := .idle, counter := s.counter + 1 }

/-- **One action.** -/
def step (c : LatchConfig n size) (s : LatchState n size) :
    LatchAction n → Option (LatchState n size)
  | .call i =>
    match s.phase i with
    | .idle => some (s.setPhase i .acquiring)
    | _ => none
  | .acquire i =>
    match s.phase i with
    | .acquiring =>
      match s.wantedKey c i with
      | none => some ((s.setPhase i .holding).record (.returned i))
      | some key =>
        match s.acquireSlot c i key with
        | (s', .locked) => some (s'.setPhase i .waiting)
        | (s', _) => some s'
    | _ => none
  | .resume i =>
    match s.phase i, (s.locks i).woken with
    | .waiting, true => some ((s.setPhase i .holding).record (.returned i))
    | _, _ => none
  | .setCommitTs i ts =>
    match s.phase i with
    | .holding => some (s.setLock i { s.locks i with commitTs := ts })
    | _ => none
  | .drop i =>
    match s.phase i with
    | .holding => some { s.setPhase i .dropped with channel := s.channel ++ [i] }
    | _ => none
  | .cancel i =>
    match s.phase i with
    | .waiting => some (s.setPhase i .cancelled)
    | _ => none
  | .recv =>
    match s.task, s.channel with
    | .idle, l :: channel => some { s with channel, task := .releasing l [] }
    | _, _ => none
  | .release =>
    match s.task with
    | .releasing l ws =>
      if (s.locks l).acquiredCount = 0 then some { s with task := .waking l ws }
      else
        match s.releaseSlot c l with
        | (s', next) => some { s' with task := .releasing l (ws ++ next.toList) }
    | _ => none
  | .wakeup =>
    match s.task with
    | .waking l (w :: ws) =>
      match s.wantedKey c w with
      | none => some { s.wake w with task := .waking l ws }
      | some key =>
        match s.acquireSlot c w key with
        | (s', .locked) => some { s' with task := .waking l ws }
        | (s', _) => some s'
    | _ => none
  | .finish =>
    match s.task with
    | .waking l [] => some (s.finishRelease c l)
    | _ => none
  | .recycle j =>
    match s.recycles[j]? with
    | some (ts, slot) =>
      if h : slot < size then
        some { s.recycleSlot ⟨slot, h⟩ ts with recycles := s.recycles.set j (ts, slot + 1) }
      else some { s with recycles := s.recycles.eraseIdx j }
    | none => none

end LatchState

end TikvClient
