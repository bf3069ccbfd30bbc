import Mathlib.Algebra.BigOperators.Fin
import Mathlib.Algebra.Order.BigOperators.Group.Finset
import Mathlib.Tactic.IntervalCases
import TikvClient.Common.Errors
import TikvClient.Core.Machine
import TikvClient.Pd.RegionCache

/-!
# Loading regions: concurrent lookups

A lookup that misses the cache asks PD, and lookups of the same key or id share one request: the
first of them leaves a marker with a `Notify` in the in-flight map and loads the region, the others
wait for its notification and look again.  The two functions `get_region_by_key` and
`get_region_by_id` are the same program with a different `Target`.

**The machine.**  A step is what a call does between two points at which another task can act: a
critical section of the cache or of the in-flight map, the creation of a `Notified`, a notification,
an answer of PD.  A call may be dropped where it is suspended (`Phase.suspended`).

**What can go wrong.**  A call takes the `Notify` under the mutex and creates its `Notified` later;
a notification in between is lost: `lookups_return_iff` says that this is the only way for a lookup
not to return.  A loader that is dropped leaves its marker behind: `markers_have_loaders` says that
nothing else does.
-/

namespace TikvClient

/-- What a lookup asks for. -/
inductive Target where
  | key (key : Key)
  | id (id : ℕ)
deriving DecidableEq

/-- Where a lookup is.  The number is the `Notify` it has a handle of. -/
inductive Phase where
  /-- At the top of the loop, before the cache is read. -/
  | check
  /-- The cache missed; before the in-flight map is locked. -/
  | join
  /-- Has the `Notify` of a load in flight; before `notified()`. -/
  | holding (notify : ℕ)
  /-- Has created its `Notified` and awaits it. -/
  | waiting (notify : ℕ)
  /-- Became the loader; before the cache is read again. -/
  | recheck (notify : ℕ)
  /-- Waits for PD. -/
  | fetch (notify : ℕ)
  /-- PD answered; before the cache is locked to add the region. -/
  | add (notify : ℕ) (region : Region)
  /-- Has its result; before the marker is removed.  With `guard`, the cache is still locked for
  reading. -/
  | clear (notify : ℕ) (result : Except Error Region) (guard : Bool)
  /-- The marker is removed; before `notify_waiters()`. -/
  | notify (notify : ℕ) (result : Except Error Region) (guard : Bool)
  | done (result : Except Error Region)
  | dropped

namespace Phase

/-- The `Notify` whose marker the call left in the map and has not removed. -/
def loads : Phase → Option ℕ
  | .recheck h => some h
  | .fetch h => some h
  | .add h _ => some h
  | .clear h _ _ => some h
  | _ => none

/-- The `Notify` the call is still going to notify. -/
def wakes : Phase → Option ℕ
  | .notify h _ _ => some h
  | p => p.loads

/-- The `Notify` the call waits for, or is about to. -/
def awaits : Phase → Option ℕ
  | .holding h => some h
  | .waiting h => some h
  | _ => none

/-- The call holds the cache locked for reading. -/
def holdsGuard : Phase → Bool
  | .clear _ _ guard => guard
  | .notify _ _ guard => guard
  | _ => false

/-- The call is suspended at an `await`, where it may be dropped. -/
def suspended : Phase → Bool
  | .holding _ => false
  | .notify _ _ _ => false
  | .done _ => false
  | .dropped => false
  | _ => true

/-- The call has not returned and was not dropped. -/
def active : Phase → Bool
  | .done _ => false
  | .dropped => false
  | _ => true

end Phase

/-- **The state of the lookups**: the shared maps and where each call is. -/
structure LoadState (n : ℕ) where
  cache : RegionCacheMap
  inFlightRegionByKey : Std.ExtTreeMap Key ℕ
  inFlightRegionById : Std.ExtTreeMap ℕ ℕ
  /-- The next `Notify::new()`. -/
  nextNotify : ℕ
  phase : Fin n → Phase

/-- What happens next: which call moves, and what the clock, the jitter and PD say. -/
inductive LoadAction (n : ℕ) where
  | lookup (i : Fin n) (now jitter : ℤ)
  | join (i : Fin n)
  | notified (i : Fin n)
  | recheck (i : Fin n) (now jitter : ℤ)
  | answer (i : Fin n) (result : Except Error Region)
  | add (i : Fin n) (now jitter : ℤ)
  | clear (i : Fin n)
  | notify (i : Fin n)
  /-- The caller drops the future. -/
  | drop (i : Fin n)
  /-- Something else uses the cache. -/
  | cacheOp (op : CacheOp)

namespace LoadState

variable {n : ℕ}

/-- All calls are about to start, on some cache. -/
def init (n : ℕ) (cache : RegionCacheMap) : LoadState n := ⟨cache, ∅, ∅, 0, fun _ => .check⟩

/-- The marker of a target. -/
def inFlight (s : LoadState n) : Target → Option ℕ
  | .key key => s.inFlightRegionByKey[key]?
  | .id id => s.inFlightRegionById[id]?

def insertInFlight (s : LoadState n) (target : Target) (h : ℕ) : LoadState n :=
  match target with
  | .key key => { s with inFlightRegionByKey := s.inFlightRegionByKey.insert key h }
  | .id id => { s with inFlightRegionById := s.inFlightRegionById.insert id h }

def removeInFlight (s : LoadState n) : Target → LoadState n
  | .key key => { s with inFlightRegionByKey := s.inFlightRegionByKey.erase key }
  | .id id => { s with inFlightRegionById := s.inFlightRegionById.erase id }

def setPhase (s : LoadState n) (i : Fin n) (p : Phase) : LoadState n :=
  { s with phase := Function.update s.phase i p }

/-- The cached lookup of a target. -/
def lookup (t : RegionCacheTtl) (c : RegionCacheMap) (target : Target) (now jitter : ℤ) :
    RegionCacheMap × Option Region :=
  match target with
  | .key key => c.lookupByKey t key now jitter
  | .id id => c.lookupById t id now jitter

/-- Some call holds the cache locked for reading. -/
def guardHeld (s : LoadState n) : Bool := decide (∃ i, (s.phase i).holdsGuard = true)

/-- `notify_waiters`: the calls that have created their `Notified` go on at the top of the loop. -/
def notifyWaiters (s : LoadState n) (h : ℕ) : LoadState n :=
  { s with phase := fun i =>
      match s.phase i with
      | .waiting h' => if h' = h then .check else .waiting h'
      | p => p }

/-- **One action.** -/
def step (t : RegionCacheTtl) (targets : Fin n → Target) (s : LoadState n) :
    LoadAction n → Option (LoadState n)
  | .lookup i now jitter =>
    match s.phase i with
    | .check =>
      match lookup t s.cache (targets i) now jitter with
      | (cache, some region) => some ({ s with cache }.setPhase i (.done (.ok region)))
      | (cache, none) => some ({ s with cache }.setPhase i .join)
    | _ => none
  | .join i =>
    match s.phase i with
    | .join =>
      match s.inFlight (targets i) with
      | some h => some (s.setPhase i (.holding h))
      | none =>
        let s' := s.insertInFlight (targets i) s.nextNotify
        some ({ s' with nextNotify := s.nextNotify + 1 }.setPhase i (.recheck s.nextNotify))
    | _ => none
  | .notified i =>
    match s.phase i with
    | .holding h => some (s.setPhase i (.waiting h))
    | _ => none
  | .recheck i now jitter =>
    match s.phase i with
    | .recheck h =>
      match lookup t s.cache (targets i) now jitter with
      | (cache, some region) => some ({ s with cache }.setPhase i (.clear h (.ok region) true))
      | (cache, none) => some ({ s with cache }.setPhase i (.fetch h))
    | _ => none
  | .answer i result =>
    match s.phase i with
    | .fetch h =>
      match result with
      | .ok region => some (s.setPhase i (.add h region))
      | .error e => some (s.setPhase i (.clear h (.error e) false))
    | _ => none
  | .add i now jitter =>
    match s.phase i with
    | .add h region =>
      if s.guardHeld then none
      else
        let cache := s.cache.addRegion t region now jitter
        some ({ s with cache }.setPhase i (.clear h (.ok region) false))
    | _ => none
  | .clear i =>
    match s.phase i with
    | .clear h result guard =>
      some ((s.removeInFlight (targets i)).setPhase i (.notify h result guard))
    | _ => none
  | .notify i =>
    match s.phase i with
    | .notify h result _ => some ((s.notifyWaiters h).setPhase i (.done result))
    | _ => none
  | .drop i => if (s.phase i).suspended then some (s.setPhase i .dropped) else none
  | .cacheOp op => if s.guardHeld then none else some { s with cache := s.cache.step t op }

/-! ## What a step does -/

variable {t : RegionCacheTtl} {targets : Fin n → Target} {s s' : LoadState n} {i j : Fin n} {h : ℕ}

/-- The moves of one call that leave the in-flight maps alone: the cache and the phase of the call
afterwards. -/
inductive Advance (t : RegionCacheTtl) (targets : Fin n → Target) (s : LoadState n) :
    LoadAction n → Fin n → RegionCacheMap → Phase → Prop where
  | hit {i : Fin n} {now jitter : ℤ} {cache : RegionCacheMap} {region : Region} :
      s.phase i = .check → lookup t s.cache (targets i) now jitter = (cache, some region) →
      Advance t targets s (.lookup i now jitter) i cache (.done (.ok region))
  | miss {i : Fin n} {now jitter : ℤ} {cache : RegionCacheMap} :
      s.phase i = .check → lookup t s.cache (targets i) now jitter = (cache, none) →
      Advance t targets s (.lookup i now jitter) i cache .join
  | follow {i : Fin n} {h : ℕ} :
      s.phase i = .join → s.inFlight (targets i) = some h →
      Advance t targets s (.join i) i s.cache (.holding h)
  | register {i : Fin n} {h : ℕ} :
      s.phase i = .holding h → Advance t targets s (.notified i) i s.cache (.waiting h)
  | recheckHit {i : Fin n} {h : ℕ} {now jitter : ℤ} {cache : RegionCacheMap} {region : Region} :
      s.phase i = .recheck h → lookup t s.cache (targets i) now jitter = (cache, some region) →
      Advance t targets s (.recheck i now jitter) i cache (.clear h (.ok region) true)
  | recheckMiss {i : Fin n} {h : ℕ} {now jitter : ℤ} {cache : RegionCacheMap} :
      s.phase i = .recheck h → lookup t s.cache (targets i) now jitter = (cache, none) →
      Advance t targets s (.recheck i now jitter) i cache (.fetch h)
  | answerOk {i : Fin n} {h : ℕ} {region : Region} :
      s.phase i = .fetch h →
      Advance t targets s (.answer i (.ok region)) i s.cache (.add h region)
  | answerError {i : Fin n} {h : ℕ} {e : Error} :
      s.phase i = .fetch h →
      Advance t targets s (.answer i (.error e)) i s.cache (.clear h (.error e) false)
  | added {i : Fin n} {h : ℕ} {region : Region} {now jitter : ℤ} :
      s.phase i = .add h region → s.guardHeld = false →
      Advance t targets s (.add i now jitter) i (s.cache.addRegion t region now jitter)
        (.clear h (.ok region) false)
  | drop {i : Fin n} :
      (s.phase i).suspended = true → Advance t targets s (.drop i) i s.cache .dropped

variable {a : LoadAction n} {cache : RegionCacheMap} {p : Phase}

/-- **What an action does.** -/
theorem step_cases (hstep : step t targets s a = some s') :
    (∃ i cache p, Advance t targets s a i cache p ∧ s' = { s with cache }.setPhase i p) ∨
    (∃ i, a = .join i ∧ s.phase i = .join ∧ s.inFlight (targets i) = none ∧
      s' = { s.insertInFlight (targets i) s.nextNotify with
        nextNotify := s.nextNotify + 1 }.setPhase i (.recheck s.nextNotify)) ∨
    (∃ i h result guard, a = .clear i ∧ s.phase i = .clear h result guard ∧
      s' = (s.removeInFlight (targets i)).setPhase i (.notify h result guard)) ∨
    (∃ i h result guard, a = .notify i ∧ s.phase i = .notify h result guard ∧
      s' = (s.notifyWaiters h).setPhase i (.done result)) ∨
    (∃ op, a = .cacheOp op ∧ s.guardHeld = false ∧ s' = { s with cache := s.cache.step t op }) := by
  cases a with
  | lookup i now jitter =>
    simp only [step] at hstep
    split at hstep
    next hphase =>
      split at hstep
      next cache region hlookup =>
        cases hstep
        exact .inl ⟨i, cache, _, .hit hphase hlookup, rfl⟩
      next cache hlookup =>
        cases hstep
        exact .inl ⟨i, cache, _, .miss hphase hlookup, rfl⟩
    · cases hstep
  | join i =>
    simp only [step] at hstep
    split at hstep
    next hphase =>
      split at hstep
      next h hflight =>
        cases hstep
        exact .inl ⟨i, s.cache, _, .follow hphase hflight, rfl⟩
      next hflight =>
        cases hstep
        exact .inr (.inl ⟨i, rfl, hphase, hflight, rfl⟩)
    · cases hstep
  | notified i =>
    simp only [step] at hstep
    split at hstep
    next h hphase =>
      cases hstep
      exact .inl ⟨i, s.cache, _, .register hphase, rfl⟩
    · cases hstep
  | recheck i now jitter =>
    simp only [step] at hstep
    split at hstep
    next h hphase =>
      split at hstep
      next cache region hlookup =>
        cases hstep
        exact .inl ⟨i, cache, _, .recheckHit hphase hlookup, rfl⟩
      next cache hlookup =>
        cases hstep
        exact .inl ⟨i, cache, _, .recheckMiss hphase hlookup, rfl⟩
    · cases hstep
  | answer i result =>
    simp only [step] at hstep
    split at hstep
    next h hphase =>
      cases result with
      | ok region =>
        cases hstep
        exact .inl ⟨i, s.cache, _, .answerOk hphase, rfl⟩
      | error e =>
        cases hstep
        exact .inl ⟨i, s.cache, _, .answerError hphase, rfl⟩
    · cases hstep
  | add i now jitter =>
    simp only [step] at hstep
    split at hstep
    next h region hphase =>
      split_ifs at hstep with hguard
      cases hstep
      exact .inl ⟨i, _, _, .added hphase (by simpa using hguard), rfl⟩
    · cases hstep
  | clear i =>
    simp only [step] at hstep
    split at hstep
    next h result guard hphase =>
      cases hstep
      exact .inr (.inr (.inl ⟨i, h, result, guard, rfl, hphase, rfl⟩))
    · cases hstep
  | notify i =>
    simp only [step] at hstep
    split at hstep
    next h result guard hphase =>
      cases hstep
      exact .inr (.inr (.inr (.inl ⟨i, h, result, guard, rfl, hphase, rfl⟩)))
    · cases hstep
  | drop i =>
    simp only [step] at hstep
    split_ifs at hstep with hsuspended
    cases hstep
    exact .inl ⟨i, s.cache, _, .drop hsuspended, rfl⟩
  | cacheOp op =>
    simp only [step] at hstep
    split_ifs at hstep with hguard
    cases hstep
    exact .inr (.inr (.inr (.inr ⟨op, rfl, by simpa using hguard, rfl⟩)))

/-! ## Phases and markers after a step -/

lemma phase_setPhase (s : LoadState n) (i j : Fin n) (p : Phase) :
    (s.setPhase i p).phase j = if j = i then p else s.phase j :=
  Function.update_apply s.phase i p j

@[simp] lemma inFlight_setPhase (s : LoadState n) (i : Fin n) (p : Phase) (target : Target) :
    (s.setPhase i p).inFlight target = s.inFlight target := by
  cases target <;> rfl

@[simp] lemma inFlight_cache (s : LoadState n) (cache : RegionCacheMap) (target : Target) :
    { s with cache }.inFlight target = s.inFlight target := by
  cases target <;> rfl

@[simp] lemma inFlight_nextNotify (s : LoadState n) (h : ℕ) (target : Target) :
    { s with nextNotify := h }.inFlight target = s.inFlight target := by
  cases target <;> rfl

@[simp] lemma inFlight_notifyWaiters (s : LoadState n) (h : ℕ) (target : Target) :
    (s.notifyWaiters h).inFlight target = s.inFlight target := by
  cases target <;> rfl

lemma inFlight_insertInFlight (s : LoadState n) (target target' : Target) (h : ℕ) :
    (s.insertInFlight target h).inFlight target' =
      if target = target' then some h else s.inFlight target' := by
  cases target <;> cases target' <;>
    simp [insertInFlight, inFlight, Std.ExtTreeMap.getElem?_insert]

lemma inFlight_removeInFlight (s : LoadState n) (target target' : Target) :
    (s.removeInFlight target).inFlight target' =
      if target = target' then none else s.inFlight target' := by
  cases target <;> cases target' <;>
    simp [removeInFlight, inFlight, Std.ExtTreeMap.getElem?_erase]

@[simp] lemma phase_insertInFlight (s : LoadState n) (target : Target) (h : ℕ) :
    (s.insertInFlight target h).phase = s.phase := by
  cases target <;> rfl

@[simp] lemma phase_removeInFlight (s : LoadState n) (target : Target) :
    (s.removeInFlight target).phase = s.phase := by
  cases target <;> rfl

/-- A notification moves the calls that wait for it to the top of the loop, and no others. -/
lemma phase_notifyWaiters (s : LoadState n) (h : ℕ) (j : Fin n) :
    (s.phase j = .waiting h ∧ (s.notifyWaiters h).phase j = .check) ∨
      (s.phase j ≠ .waiting h ∧ (s.notifyWaiters h).phase j = s.phase j) := by
  unfold notifyWaiters
  cases hp : s.phase j with
  | waiting h' =>
    by_cases hh : h' = h
    · exact .inl ⟨by rw [hh], by simp [hp, hh]⟩
    · exact .inr ⟨by simpa using hh, by simp [hp, hh]⟩
  | _ => exact .inr ⟨by simp, by simp [hp]⟩

/-- **What a step can do to one call**: move it, or wake it. -/
inductive Moved (t : RegionCacheTtl) (targets : Fin n → Target) (s : LoadState n)
    (a : LoadAction n) (j : Fin n) : Phase → Prop where
  | stay : Moved t targets s a j (s.phase j)
  | advance {cache : RegionCacheMap} {p : Phase} :
      Advance t targets s a j cache p → Moved t targets s a j p
  | lead : s.phase j = .join → Moved t targets s a j (.recheck s.nextNotify)
  | clear {h : ℕ} {result : Except Error Region} {guard : Bool} :
      s.phase j = .clear h result guard → Moved t targets s a j (.notify h result guard)
  | notify {h : ℕ} {result : Except Error Region} {guard : Bool} :
      s.phase j = .notify h result guard → Moved t targets s a j (.done result)
  | wake {i : Fin n} {h : ℕ} : s.phase j = .waiting h → (s.phase i).wakes = some h →
      Moved t targets s a j .check

lemma moved_step (hstep : step t targets s a = some s') (j : Fin n) :
    Moved t targets s a j (s'.phase j) := by
  rcases step_cases hstep with ⟨i, cache, p, hadv, rfl⟩ | ⟨i, -, hphase, -, rfl⟩ |
    ⟨i, h, result, guard, -, hphase, rfl⟩ | ⟨i, h, result, guard, -, hphase, rfl⟩ |
    ⟨op, -, -, rfl⟩
  · rw [phase_setPhase]
    split_ifs with hji
    · exact hji ▸ .advance hadv
    · exact .stay
  · rw [phase_setPhase, phase_insertInFlight]
    split_ifs with hji
    · exact .lead (hji ▸ hphase)
    · exact .stay
  · rw [phase_setPhase, phase_removeInFlight]
    split_ifs with hji
    · exact .clear (hji ▸ hphase)
    · exact .stay
  · rw [phase_setPhase]
    split_ifs with hji
    · exact .notify (hji ▸ hphase)
    · rcases phase_notifyWaiters s h j with ⟨hp, hp'⟩ | ⟨-, hp'⟩
      · rw [hp']
        exact .wake hp (by rw [hphase]; rfl)
      · rw [hp']
        exact .stay
  · exact .stay

/-! ## Loaders -/

/-- The markers of loaders are in the map, and no target has two loaders. -/
structure Marked (targets : Fin n → Target) (s : LoadState n) : Prop where
  marked : ∀ i h, (s.phase i).loads = some h → s.inFlight (targets i) = some h
  unique : ∀ i j h h', (s.phase i).loads = some h → (s.phase j).loads = some h' →
    targets i = targets j → i = j

lemma marked_init (targets : Fin n → Target) (cache : RegionCacheMap) :
    Marked targets (init n cache) := by
  constructor <;> simp [init, Phase.loads]

lemma Advance.loads (hadv : Advance t targets s a i cache p) :
    p.loads = (s.phase i).loads ∨ (a = .drop i ∧ p.loads = none) := by
  cases hadv with
  | drop => exact .inr ⟨rfl, rfl⟩
  | _ => simp_all [Phase.loads]

lemma loads_notifyWaiters (s : LoadState n) (h : ℕ) (j : Fin n) :
    ((s.notifyWaiters h).phase j).loads = (s.phase j).loads := by
  rcases phase_notifyWaiters s h j with ⟨hp, hp'⟩ | ⟨-, hp'⟩
  · rw [hp, hp']
    rfl
  · rw [hp']

lemma Marked.step (hs : Marked targets s) (hstep : step t targets s a = some s') :
    Marked targets s' := by
  -- Where no call becomes a loader, and the map stays, there is nothing to show.
  have hkeep : ∀ {s' : LoadState n}, (∀ target, s'.inFlight target = s.inFlight target) →
      (∀ j h, (s'.phase j).loads = some h → (s.phase j).loads = some h) → Marked targets s' := by
    intro s' hflight hloads
    exact ⟨fun j h hj => (hflight _).trans (hs.marked j h (hloads j h hj)),
      fun j k h h' hj hk => hs.unique j k h h' (hloads j h hj) (hloads k h' hk)⟩
  rcases step_cases hstep with ⟨i, cache, p, hadv, rfl⟩ | ⟨i, -, hphase, hnone, rfl⟩ |
    ⟨i, h, result, guard, -, hphase, rfl⟩ | ⟨i, h, result, guard, -, hphase, rfl⟩ |
    ⟨op, -, -, rfl⟩
  · refine hkeep (by simp) fun j h hj => ?_
    rw [phase_setPhase] at hj
    split_ifs at hj with hji
    · rcases hadv.loads with heq | ⟨-, hnone⟩
      · rw [hji, ← heq, hj]
      · rw [hnone] at hj
        cases hj
    · exact hj
  · -- A new loader: nobody else has its target.
    have hother : ∀ j h, (s.phase j).loads = some h → targets j ≠ targets i := by
      intro j h hj heq
      rw [← heq, hs.marked j h hj] at hnone
      cases hnone
    constructor
    · intro j h hj
      rw [phase_setPhase] at hj
      simp only [inFlight_setPhase, inFlight_nextNotify, inFlight_insertInFlight]
      split_ifs at hj with hji
      · rw [hji, if_pos rfl]
        exact hj
      · simp only [phase_insertInFlight] at hj
        rw [if_neg (hother j h hj).symm, hs.marked j h hj]
    · intro j k h h' hj hk heq
      rw [phase_setPhase] at hj hk
      simp only [phase_insertInFlight] at hj hk
      split_ifs at hj hk with hji hki hki
      · rw [hji, hki]
      · exact absurd (heq.symm.trans (by rw [hji])) (hother k h' hk)
      · exact absurd (heq.trans (by rw [hki])) (hother j h hj)
      · exact hs.unique j k h h' hj hk heq
  · -- The loader removes its own marker.
    have hi : (s.phase i).loads = some h := by rw [hphase]; rfl
    have hold : ∀ j h', (((s.removeInFlight (targets i)).setPhase i
        (.notify h result guard)).phase j).loads = some h' →
      j ≠ i ∧ (s.phase j).loads = some h' := by
      intro j h' hj
      rw [phase_setPhase] at hj
      split_ifs at hj with hji
      · cases hj
      · exact ⟨hji, by simpa using hj⟩
    constructor
    · intro j h' hj
      obtain ⟨hji, hj⟩ := hold j h' hj
      rw [inFlight_setPhase, inFlight_removeInFlight,
        if_neg fun heq => hji (hs.unique j i h' h hj hi heq.symm), hs.marked j h' hj]
    · intro j k h₁ h₂ hj hk
      exact hs.unique j k h₁ h₂ (hold j h₁ hj).2 (hold k h₂ hk).2
  · refine hkeep (by simp) fun j h' hj => ?_
    rw [phase_setPhase] at hj
    split_ifs at hj with hji
    · cases hj
    · rwa [loads_notifyWaiters] at hj
  · exact hkeep (by simp) fun j h hj => hj

/-! ## Markers -/

/-- **Every marker has a live loader.** -/
def MarkersLive (targets : Fin n → Target) (s : LoadState n) : Prop :=
  ∀ target h, s.inFlight target = some h → ∃ i, targets i = target ∧ (s.phase i).loads = some h

/-- No call is dropped while it is the loader of a marker. -/
def KeepsLoaders (s : LoadState n) (a : LoadAction n) : Prop :=
  ∀ i, a = .drop i → (s.phase i).loads = none

lemma MarkersLive.step (hlive : MarkersLive targets s)
    (hkeeps : KeepsLoaders s a) (hstep : step t targets s a = some s') :
    MarkersLive targets s' := by
  rcases step_cases hstep with ⟨i, cache, p, hadv, rfl⟩ | ⟨i, -, hphase, hnone, rfl⟩ |
    ⟨i, h, result, guard, -, hphase, rfl⟩ | ⟨i, h, result, guard, -, hphase, rfl⟩ |
    ⟨op, -, -, rfl⟩
  · intro target h hflight
    obtain ⟨j, hj, hloads⟩ := hlive target h (by simpa using hflight)
    refine ⟨j, hj, ?_⟩
    rw [phase_setPhase]
    split_ifs with hji
    · rcases hadv.loads with heq | ⟨hdrop, -⟩
      · rw [heq, ← hji, hloads]
      · rw [hji, hkeeps i hdrop] at hloads
        cases hloads
    · exact hloads
  · intro target h hflight
    simp only [inFlight_setPhase, inFlight_nextNotify, inFlight_insertInFlight] at hflight
    split_ifs at hflight with heq
    · refine ⟨i, heq, ?_⟩
      rw [phase_setPhase, if_pos rfl]
      exact hflight
    · obtain ⟨j, hj, hloads⟩ := hlive target h hflight
      refine ⟨j, hj, ?_⟩
      rw [phase_setPhase, if_neg (by rintro rfl; exact heq hj)]
      simpa using hloads
  · intro target h' hflight
    rw [inFlight_setPhase, inFlight_removeInFlight] at hflight
    split_ifs at hflight with heq
    obtain ⟨j, hj, hloads⟩ := hlive target h' hflight
    refine ⟨j, hj, ?_⟩
    rw [phase_setPhase, if_neg (by rintro rfl; exact heq hj)]
    simpa using hloads
  · intro target h' hflight
    obtain ⟨j, hj, hloads⟩ := hlive target h' (by simpa using hflight)
    refine ⟨j, hj, ?_⟩
    rw [phase_setPhase, if_neg, loads_notifyWaiters, hloads]
    rintro rfl
    rw [hphase] at hloads
    cases hloads
  · exact fun target h hflight => hlive target h (by simpa using hflight)

/-! ## Waiters -/

/-- **Every waiter has a loader that will notify it.** -/
def WaitersHeard (s : LoadState n) : Prop :=
  ∀ j h, (s.phase j).awaits = some h → ∃ i, (s.phase i).wakes = some h

/-- When a `Notify` is notified, every call that has taken it has created its `Notified`. -/
def NotifiesAll (s : LoadState n) (a : LoadAction n) : Prop :=
  ∀ i h result guard, a = .notify i → s.phase i = .notify h result guard →
    ∀ j, s.phase j ≠ .holding h

lemma Advance.wakes (hadv : Advance t targets s a i cache p) (hkeeps : KeepsLoaders s a) :
    p.wakes = (s.phase i).wakes := by
  cases hadv with
  | drop hsuspended =>
    have hloads := hkeeps i rfl
    cases hp : s.phase i <;> simp_all [Phase.wakes, Phase.loads, Phase.suspended]
  | _ => simp_all [Phase.wakes, Phase.loads]

lemma Advance.awaits (hadv : Advance t targets s a i cache p) (hp : p.awaits = some h) :
    (s.phase i).awaits = some h ∨ s.inFlight (targets i) = some h := by
  cases hadv with
  | follow hphase hflight =>
    cases hp
    exact .inr hflight
  | register hphase =>
    cases hp
    exact .inl (by rw [hphase]; rfl)
  | _ => cases hp

lemma wakes_of_loads (hp : p.loads = some h) : p.wakes = some h := by
  cases p <;> simp_all [Phase.loads, Phase.wakes]

lemma wakes_notifyWaiters (s : LoadState n) (h : ℕ) (j : Fin n) :
    ((s.notifyWaiters h).phase j).wakes = (s.phase j).wakes := by
  rcases phase_notifyWaiters s h j with ⟨hp, hp'⟩ | ⟨-, hp'⟩
  · rw [hp, hp']
    rfl
  · rw [hp']

/-- Who will notify a `Notify` after a step: the same calls as before, except that a new loader has
a new one and that a loader is done when it has notified. -/
lemma wakes_step (hkeeps : KeepsLoaders s a) (hstep : step t targets s a = some s') (j : Fin n) :
    s.nextNotify ≤ s'.nextNotify ∧
      ((s'.phase j).wakes = (s.phase j).wakes ∨
        ((s.phase j).wakes = none ∧ (s'.phase j).wakes = some s.nextNotify ∧
          s'.nextNotify = s.nextNotify + 1 ∧ a = .join j) ∨
        ((s'.phase j).wakes = none ∧ a = .notify j)) := by
  rcases step_cases hstep with ⟨i, cache, p, hadv, rfl⟩ | ⟨i, rfl, hphase, hnone, rfl⟩ |
    ⟨i, h, result, guard, -, hphase, rfl⟩ | ⟨i, h, result, guard, rfl, hphase, rfl⟩ |
    ⟨op, rfl, -, rfl⟩
  · refine ⟨le_rfl, .inl ?_⟩
    rw [phase_setPhase]
    split_ifs with hji
    · rw [hadv.wakes hkeeps, hji]
    · rfl
  · refine ⟨Nat.le_succ _, ?_⟩
    rw [phase_setPhase]
    split_ifs with hji
    · exact .inr (.inl ⟨by rw [hji, hphase]; rfl, rfl, rfl, by rw [hji]⟩)
    · exact .inl (by simp)
  · have hnext : (s.removeInFlight (targets i)).nextNotify = s.nextNotify := by
      cases targets i <;> rfl
    refine ⟨hnext.ge, .inl ?_⟩
    rw [phase_setPhase]
    split_ifs with hji
    · rw [hji, hphase]
      rfl
    · simp
  · refine ⟨le_rfl, ?_⟩
    rw [phase_setPhase]
    split_ifs with hji
    · exact .inr (.inr ⟨rfl, by rw [hji]⟩)
    · exact .inl (wakes_notifyWaiters s h j)
  · exact ⟨le_rfl, .inl rfl⟩

lemma not_awaits_of_notify {i : Fin n} (hwakes : (s.phase i).wakes = some h)
    (hall : NotifiesAll s (.notify i)) (hstep : step t targets s (.notify i) = some s')
    (j : Fin n) : (s'.phase j).awaits ≠ some h := by
  intro hj
  cases hphase : s.phase i with
  | notify h' result guard =>
    rw [hphase] at hwakes
    cases hwakes
    simp only [step, hphase, Option.some.injEq] at hstep
    rw [← hstep, phase_setPhase] at hj
    split_ifs at hj with hji
    · cases hj
    rcases phase_notifyWaiters s h j with ⟨-, hp'⟩ | ⟨hno, hp'⟩
    · rw [hp'] at hj
      cases hj
    · rw [hp'] at hj
      cases hp : s.phase j with
      | holding h'' =>
        rw [hp] at hj
        cases hj
        exact hall i h result guard rfl hphase j hp
      | waiting h'' =>
        rw [hp] at hj
        cases hj
        exact hno hp
      | _ =>
        rw [hp] at hj
        cases hj
  | _ => simp [step, hphase] at hstep

lemma WaitersHeard.step (hheard : WaitersHeard s) (hlive : MarkersLive targets s)
    (hkeeps : KeepsLoaders s a) (hall : NotifiesAll s a)
    (hstep : step t targets s a = some s') : WaitersHeard s' := by
  intro j h hj
  -- Somebody was going to notify it, and still is unless it does so now.
  have hwaker : ∃ i, (s.phase i).wakes = some h := by
    have hmoved := moved_step hstep j
    generalize s'.phase j = p at hmoved hj
    cases hmoved with
    | stay => exact hheard j h hj
    | advance hadv =>
      rcases hadv.awaits hj with hawaits | hflight
      · exact hheard j h hawaits
      · obtain ⟨k, -, hk⟩ := hlive _ h hflight
        exact ⟨k, wakes_of_loads hk⟩
    | _ => cases hj
  obtain ⟨i, hi⟩ := hwaker
  obtain ⟨-, heq | ⟨hnone, -⟩ | ⟨-, rfl⟩⟩ := wakes_step hkeeps hstep i
  · exact ⟨i, heq.trans hi⟩
  · cases hnone.symm.trans hi
  · exact absurd hj (not_awaits_of_notify hi hall hstep j)

/-! ## Progress -/

end LoadState

/-- The actions of the calls themselves and of PD, which go on when they can. -/
def LoadAction.isLookup {n : ℕ} : LoadAction n → Bool
  | .drop _ => false
  | .cacheOp _ => false
  | _ => true

/-- How far a call is from the end of its loop. -/
def Phase.rank : Phase → ℕ
  | .check => 8
  | .join => 7
  | .recheck _ => 6
  | .fetch _ => 5
  | .add _ _ => 4
  | .clear _ _ _ => 3
  | .holding _ => 2
  | .notify _ _ _ => 2
  | .waiting _ => 1
  | .done _ => 0
  | .dropped => 0

namespace LoadState

variable {n : ℕ} {t : RegionCacheTtl} {targets : Fin n → Target} {s s' : LoadState n} {i : Fin n}

/-- The number of calls that have not returned, and then how far they are from the end of their
loops.  A notification sends waiters back to the start, but the loader then returns. -/
def progress (s : LoadState n) : ℕ ×ₗ ℕ :=
  toLex (∑ i, (s.phase i).active.toNat, ∑ i, (s.phase i).rank)

/-- When one call gets closer to its end, and the others do not move, there is progress. -/
lemma progress_setPhase_lt {p : Phase} (hsame : ∀ j, s'.phase j = s.phase j)
    (hactive : p.active.toNat ≤ (s.phase i).active.toNat) (hrank : p.rank < (s.phase i).rank) :
    (s'.setPhase i p).progress < s.progress := by
  have hle : ∀ f : Phase → ℕ, f p ≤ f (s.phase i) →
      ∀ j, f ((s'.setPhase i p).phase j) ≤ f (s.phase j) := by
    intro f hf j
    rw [phase_setPhase]
    split_ifs with hji
    · exact hji ▸ hf
    · rw [hsame]
  have hlt : ∑ j, ((s'.setPhase i p).phase j).rank < ∑ j, (s.phase j).rank := by
    refine Finset.sum_lt_sum (fun j _ => hle Phase.rank hrank.le j) ⟨i, Finset.mem_univ i, ?_⟩
    rwa [phase_setPhase, if_pos rfl]
  have hsum : ∑ j, ((s'.setPhase i p).phase j).active.toNat ≤ ∑ j, (s.phase j).active.toNat :=
    Finset.sum_le_sum fun j _ => hle (fun p => p.active.toNat) hactive j
  rw [progress, progress, Prod.Lex.toLex_lt_toLex]
  exact hsum.lt_or_eq.imp id fun heq => ⟨heq, hlt⟩

variable {a : LoadAction n} {cache : RegionCacheMap} {j : Fin n}

lemma Advance.rank {p : Phase} (hadv : Advance t targets s a i cache p) :
    p.active.toNat ≤ (s.phase i).active.toNat ∧ p.rank < (s.phase i).rank := by
  cases hadv with
  | drop hsuspended =>
    cases hp : s.phase i <;> simp_all [Phase.active, Phase.rank, Phase.suspended]
  | _ => simp_all [Phase.active, Phase.rank]

/-- **Every step of a call is progress**, also when it is dropped; other uses of the cache are
none. -/
lemma progress_step (hstep : step t targets s a = some s') :
    s'.progress < s.progress ∨ (a.isLookup = false ∧ s'.progress = s.progress) := by
  rcases step_cases hstep with ⟨i, cache, p, hadv, rfl⟩ | ⟨i, -, hphase, hnone, rfl⟩ |
    ⟨i, h, result, guard, -, hphase, rfl⟩ | ⟨i, h, result, guard, ha, hphase, rfl⟩ |
    ⟨op, rfl, -, rfl⟩
  · exact .inl (progress_setPhase_lt (fun _ => rfl) hadv.rank.1 hadv.rank.2)
  · refine .inl (progress_setPhase_lt (by simp) ?_ ?_) <;> rw [hphase]
    · exact le_rfl
    · exact Nat.lt_succ_self 6
  · refine .inl (progress_setPhase_lt (by simp) ?_ ?_) <;> rw [hphase]
    · exact le_rfl
    · exact Nat.lt_succ_self 2
  · left
    rw [progress, progress, Prod.Lex.toLex_lt_toLex]
    refine .inl (Finset.sum_lt_sum (fun j _ => ?_) ⟨i, Finset.mem_univ i, ?_⟩)
    · rw [phase_setPhase]
      split_ifs with hji
      · exact Nat.zero_le _
      · rcases phase_notifyWaiters s h j with ⟨hp, hp'⟩ | ⟨-, hp'⟩
        · rw [hp, hp']
          exact le_rfl
        · rw [hp']
    · rw [phase_setPhase, if_pos rfl, hphase]
      exact Nat.zero_lt_one
  · exact .inr ⟨rfl, rfl⟩

/-- **At rest, every call has returned, was dropped, or waits.** -/
lemma phase_of_quiescent (hrest : ¬ Machine.Enabled (step t targets) (·.isLookup = true) s)
    (i : Fin n) :
    (∃ result, s.phase i = .done result) ∨ s.phase i = .dropped ∨ ∃ h, s.phase i = .waiting h := by
  have hno : ∀ a : LoadAction n, a.isLookup = true → step t targets s a = none := by
    intro a ha
    by_contra hsome
    exact hrest ⟨a, ha, Option.isSome_iff_ne_none.mpr hsome⟩
  have hclear : ∀ (j : Fin n) h result guard, s.phase j ≠ .clear h result guard := by
    intro j h result guard hp
    have := hno (.clear j) rfl
    simp [step, hp] at this
  have hnotify : ∀ (j : Fin n) h result guard, s.phase j ≠ .notify h result guard := by
    intro j h result guard hp
    have := hno (.notify j) rfl
    simp [step, hp] at this
  -- Whoever locks the cache can go on, so nobody does.
  have hguard : s.guardHeld = false := by
    refine decide_eq_false ?_
    rintro ⟨j, hj⟩
    cases hp : s.phase j with
    | clear h result guard => exact hclear j h result guard hp
    | notify h result guard => exact hnotify j h result guard hp
    | _ => simp [hp, Phase.holdsGuard] at hj
  cases hp : s.phase i with
  | check =>
    have := hno (.lookup i 0 0) rfl
    simp only [step, hp] at this
    split at this <;> cases this
  | join =>
    have := hno (.join i) rfl
    simp only [step, hp] at this
    split at this <;> cases this
  | holding h =>
    have := hno (.notified i) rfl
    simp [step, hp] at this
  | recheck h =>
    have := hno (.recheck i 0 0) rfl
    simp only [step, hp] at this
    split at this <;> cases this
  | fetch h =>
    have := hno (.answer i (.ok default)) rfl
    simp [step, hp] at this
  | add h region =>
    have := hno (.add i 0 0) rfl
    simp [step, hp, hguard] at this
  | clear h result guard => exact absurd hp (hclear i h result guard)
  | notify h result guard => exact absurd hp (hnotify i h result guard)
  | waiting h => exact .inr (.inr ⟨h, rfl⟩)
  | done result => exact .inl ⟨result, rfl⟩
  | dropped => exact .inr (.inl rfl)

/-! ## Whole executions -/

lemma markersLive_init (targets : Fin n → Target) (cache : RegionCacheMap) :
    MarkersLive targets (init n cache) := by
  intro target h hflight
  cases target <;> simp [init, inFlight] at hflight

lemma markersLive_of_reach {allowed : LoadState n → LoadAction n → Prop}
    (hallowed : ∀ s a, allowed s a → KeepsLoaders s a)
    (h : Machine.Reach (step t targets) allowed (init n cache) s) : MarkersLive targets s :=
  h.invariant (markersLive_init targets cache) fun s a _ hs ha hstep =>
    hs.step (hallowed s a ha) hstep

lemma eventually_rests
    {e : Machine.Execution (step t targets) (init n cache)} (hfair : e.Fair (·.isLookup = true)) :
    ∀ m, ∃ m', m ≤ m' ∧ ¬ Machine.Enabled (step t targets) (·.isLookup = true) (e.state m') := by
  refine hfair.eventually_quiescent (I := fun _ => True) progress (fun _ => trivial) e.obeys_true
    ?_ ?_
  · intro s a s' _ _ ha hstep
    rcases progress_step hstep with hlt | ⟨hother, -⟩
    · exact hlt
    · rw [hother] at ha
      cases ha
  · intro s a s' _ _ _ hstep
    rcases progress_step hstep with hlt | ⟨-, heq⟩
    · exact hlt.le
    · exact heq.le

lemma ne_dropped_step (hno : ∀ i, a ≠ .drop i) (hs : ∀ i, s.phase i ≠ .dropped)
    (hstep : step t targets s a = some s') (j : Fin n) : s'.phase j ≠ .dropped := by
  have hmoved := moved_step hstep j
  generalize s'.phase j = p at hmoved ⊢
  cases hmoved with
  | stay => exact hs j
  | advance hadv =>
    cases hadv with
    | drop => exact absurd rfl (hno j)
    | _ => simp
  | _ => simp

lemma done_step {result : Except Error Region} (hdone : s.phase j = .done result)
    (hstep : step t targets s a = some s') : s'.phase j = .done result := by
  have hmoved := moved_step hstep j
  generalize s'.phase j = p at hmoved ⊢
  cases hmoved with
  | stay => exact hdone
  | advance hadv =>
    cases hadv with
    | drop hsuspended =>
      rw [hdone] at hsuspended
      cases hsuspended
    | hit hphase | miss hphase | follow hphase | register hphase | recheckHit hphase
    | recheckMiss hphase | answerOk hphase | answerError hphase | added hphase =>
      cases hdone.symm.trans hphase
  | lead hphase | clear hphase | notify hphase | wake hphase => cases hdone.symm.trans hphase

lemma done_mono (e : Machine.Execution (step t targets) (init n cache))
    {result : Except Error Region} {m m' : ℕ} (hm : m ≤ m')
    (hdone : (e.state m).phase j = .done result) : (e.state m').phase j = .done result := by
  induction m', hm using Nat.le_induction with
  | base => exact hdone
  | succ m' _ ih =>
    cases ha : e.action m' with
    | none => rw [e.pause m' ha, ih]
    | some a => exact done_step ih (e.act m' a ha)

lemma quiescent_of_phases (hphase : ∀ i, (∃ result, s.phase i = .done result) ∨
    s.phase i = .dropped ∨ ∃ h, s.phase i = .waiting h) :
    ¬ Machine.Enabled (step t targets) (·.isLookup = true) s := by
  rintro ⟨a, ha, hsome⟩
  obtain ⟨s', hstep⟩ := Option.isSome_iff_exists.mp hsome
  have hno : ∀ {i : Fin n} {p : Phase}, s.phase i = p → (∀ result, p ≠ .done result) →
      p ≠ .dropped → (∀ h, p ≠ .waiting h) → False := by
    rintro i p rfl hdone hdropped hwaiting
    rcases hphase i with ⟨result, hp⟩ | hp | ⟨h, hp⟩
    · exact hdone result hp
    · exact hdropped hp
    · exact hwaiting h hp
  rcases step_cases hstep with ⟨i, cache, p, hadv, -⟩ | ⟨i, -, hp, -⟩ |
    ⟨i, h, result, guard, -, hp, -⟩ | ⟨i, h, result, guard, -, hp, -⟩ | ⟨op, rfl, -⟩
  · cases hadv with
    | drop => cases ha
    | hit hp | miss hp | follow hp | register hp | recheckHit hp | recheckMiss hp | answerOk hp
    | answerError hp | added hp => exact hno hp (by simp) (by simp) (by simp)
  · exact hno hp (by simp) (by simp) (by simp)
  · exact hno hp (by simp) (by simp) (by simp)
  · exact hno hp (by simp) (by simp) (by simp)
  · cases ha

/-- A call that is not dropped returns, if every notification is heard. -/
lemma eventually_done
    {e : Machine.Execution (step t targets) (init n cache)} (hfair : e.Fair (·.isLookup = true))
    (hdrop : ∀ m i, e.action m ≠ some (.drop i)) (hheard : e.Obeys NotifiesAll) :
    ∃ m, ∀ i, ∃ result, (e.state m).phase i = .done result := by
  have hobeys : e.Obeys fun s a => (∀ i, a ≠ .drop i) ∧ NotifiesAll s a := fun m a ha =>
    ⟨fun i hi => hdrop m i (hi ▸ ha), hheard m a ha⟩
  have hinv : ∀ m, MarkersLive targets (e.state m) ∧ WaitersHeard (e.state m) ∧
      ∀ i, (e.state m).phase i ≠ .dropped := by
    intro m
    refine (hobeys.reach m).invariant (I := fun s => MarkersLive targets s ∧ WaitersHeard s ∧
      ∀ i, s.phase i ≠ .dropped) ⟨markersLive_init targets cache, ?_, ?_⟩ ?_
    · intro j h hj
      simp [init, Phase.awaits] at hj
    · simp [init]
    · rintro s a s' ⟨hlive, hwaits, hnone⟩ ⟨hno, hall⟩ hstep
      have hkeeps : KeepsLoaders s a := fun i hi => absurd hi (hno i)
      exact ⟨hlive.step hkeeps hstep, hwaits.step hlive hkeeps hall hstep,
        ne_dropped_step hno hnone hstep⟩
  obtain ⟨m, -, hrest⟩ := eventually_rests hfair 0
  refine ⟨m, fun i => ?_⟩
  obtain ⟨-, hwaits, hnone⟩ := hinv m
  rcases phase_of_quiescent hrest i with hdone | hdropped | ⟨h, hwaiting⟩
  · exact hdone
  · exact absurd hdropped (hnone i)
  · -- At rest there is no loader for it to wait for.
    obtain ⟨k, hk⟩ := hwaits i h (by rw [hwaiting]; rfl)
    rcases phase_of_quiescent hrest k with ⟨result, hp⟩ | hp | ⟨h', hp⟩ <;>
      · rw [hp] at hk
        cases hk

/-! ## Lost notifications -/

/-- Every `Notify` has at most one call that will notify it, and new ones are new. -/
structure Handles (s : LoadState n) : Prop where
  wakes_lt : ∀ i h, (s.phase i).wakes = some h → h < s.nextNotify
  unique : ∀ i j h, (s.phase i).wakes = some h → (s.phase j).wakes = some h → i = j

lemma handles_init (cache : RegionCacheMap) : Handles (init n cache) := by
  constructor <;> simp [init, Phase.wakes, Phase.loads]

lemma Handles.step (hs : Handles s) (hkeeps : KeepsLoaders s a)
    (hstep : step t targets s a = some s') : Handles s' := by
  constructor
  · intro i h hi
    obtain ⟨hle, heq | ⟨-, heq, hnext, -⟩ | ⟨heq, -⟩⟩ := wakes_step hkeeps hstep i
    · exact (hs.wakes_lt i h (heq ▸ hi)).trans_le hle
    · rw [heq] at hi
      cases hi
      omega
    · rw [heq] at hi
      cases hi
  · intro i j h hi hj
    obtain ⟨-, heq | ⟨-, heq, -, ha⟩ | ⟨heq, -⟩⟩ := wakes_step hkeeps hstep i
    · obtain ⟨-, heq' | ⟨-, heq', -, -⟩ | ⟨heq', -⟩⟩ := wakes_step hkeeps hstep j
      · exact hs.unique i j h (heq ▸ hi) (heq' ▸ hj)
      · rw [heq'] at hj
        cases hj
        exact absurd (hs.wakes_lt i _ (heq ▸ hi)) (lt_irrefl _)
      · rw [heq'] at hj
        cases hj
    · obtain ⟨-, heq' | ⟨-, heq', -, ha'⟩ | ⟨heq', -⟩⟩ := wakes_step hkeeps hstep j
      · rw [heq] at hi
        cases hi
        exact absurd (hs.wakes_lt j _ (heq' ▸ hj)) (lt_irrefl _)
      · rw [ha] at ha'
        cases ha'
        rfl
      · rw [heq'] at hj
        cases hj
    · rw [heq] at hi
      cases hi

/-- The call waits for a notification that nobody will send. -/
structure Unheard (s : LoadState n) (j : Fin n) (h : ℕ) : Prop where
  awaits : (s.phase j).awaits = some h
  unsent : ∀ i, (s.phase i).wakes ≠ some h
  old : h < s.nextNotify

lemma Unheard.step {h : ℕ} (hs : Unheard s j h)
    (hno : ∀ i, a ≠ .drop i) (hstep : step t targets s a = some s') : Unheard s' j h := by
  have hkeeps : KeepsLoaders s a := fun i hi => absurd hi (hno i)
  refine ⟨?_, fun i hi => ?_, hs.old.trans_le (wakes_step hkeeps hstep j).1⟩
  · have hawaits := hs.awaits
    have hmoved := moved_step hstep j
    generalize s'.phase j = p at hmoved ⊢
    cases hmoved with
    | stay => exact hawaits
    | advance hadv =>
      cases hadv with
      | drop => exact absurd rfl (hno j)
      | register hphase => rwa [hphase] at hawaits
      | hit hphase | miss hphase | follow hphase | recheckHit hphase | recheckMiss hphase
      | answerOk hphase | answerError hphase | added hphase =>
        rw [hphase] at hawaits
        cases hawaits
    | lead hphase | clear hphase | notify hphase =>
      rw [hphase] at hawaits
      cases hawaits
    | wake hphase hwakes =>
      -- Another notification does not reach it.
      rw [hphase] at hawaits
      cases hawaits
      exact absurd hwakes (hs.unsent _)
  · obtain ⟨-, heq | ⟨-, heq, -, -⟩ | ⟨heq, -⟩⟩ := wakes_step hkeeps hstep i
    · exact hs.unsent i (heq ▸ hi)
    · rw [heq] at hi
      cases hi
      exact lt_irrefl _ hs.old
    · rw [heq] at hi
      cases hi

/-- A notification that comes before a call has created its `Notified` is not heard by it. -/
lemma unheard_of_notify {h : ℕ} {result : Except Error Region} {guard : Bool}
    (hs : Handles s) (hphase : s.phase i = .notify h result guard) (hj : s.phase j = .holding h)
    (hstep : step t targets s (.notify i) = some s') : Unheard s' j h := by
  have hi : (s.phase i).wakes = some h := by
    rw [hphase]
    rfl
  have hji : j ≠ i := by
    rintro rfl
    rw [hphase] at hj
    cases hj
  have hs' : s' = (s.notifyWaiters h).setPhase i (.done result) := by
    simp only [step, hphase, Option.some.injEq] at hstep
    exact hstep.symm
  subst hs'
  refine ⟨?_, fun k hk => ?_, hs.wakes_lt i h hi⟩
  · rw [phase_setPhase, if_neg hji]
    rcases phase_notifyWaiters s h j with ⟨hp, -⟩ | ⟨-, hp'⟩
    · rw [hj] at hp
      cases hp
    · rw [hp', hj]
      rfl
  · rw [phase_setPhase] at hk
    split_ifs at hk with hki
    · cases hk
    · rw [wakes_notifyWaiters] at hk
      exact hki (hs.unique k i h hk hi)

/-- **Every lookup returns**, in a fair execution without drops, exactly if every notification comes
after the calls that share the load have created their `Notified`. -/
theorem lookups_return_iff (t : RegionCacheTtl) (targets : Fin n → Target) (cache : RegionCacheMap)
    (e : Machine.Execution (step t targets) (init n cache)) (hfair : e.Fair (·.isLookup = true))
    (hdrop : ∀ m i, e.action m ≠ some (.drop i)) :
    (∃ m, ∀ i, ∃ result, (e.state m).phase i = .done result) ↔ e.Obeys NotifiesAll := by
  refine ⟨?_, eventually_done hfair hdrop⟩
  rintro ⟨m₀, hdone⟩ m a ha i h result guard rfl hphase j hj
  have hobeys : e.Obeys fun _ a => ∀ i, a ≠ .drop i := fun m a ha i hi => hdrop m i (hi ▸ ha)
  have hhandles : Handles (e.state m) := (hobeys.reach m).invariant (handles_init cache)
    fun _ _ _ hs hno hstep => hs.step (fun i hi => absurd hi (hno i)) hstep
  -- From then on nobody will notify the call, so it never returns.
  have hlater : ∀ k, m + 1 ≤ k → Unheard (e.state k) j h := by
    intro k hk
    induction k, hk using Nat.le_induction with
    | base => exact unheard_of_notify hhandles hphase hj (e.act m _ ha)
    | succ k _ ih =>
      cases hak : e.action k with
      | none => rwa [e.pause k hak]
      | some b => exact ih.step (hobeys k b hak) (e.act k b hak)
  obtain ⟨result', hj'⟩ := hdone j
  have hawaits := (hlater (max m₀ (m + 1)) (le_max_right _ _)).awaits
  rw [done_mono e (le_max_left m₀ (m + 1)) hj'] at hawaits
  cases hawaits

/-- Two lookups of the same key. -/
def sameKey : Fin 2 → Target := fun _ => .key ⟨[107]⟩

/-- The region PD answers with. -/
def wholeRegion : Region := ⟨⟨1, 1, 1⟩, ⟨[]⟩, ⟨[]⟩, some 1⟩

/-- The second lookup waits for the first one's load, and then finds its region. -/
def sharedLoad : List (LoadAction 2) :=
  [.lookup 0 0 0, .join 0, .lookup 1 0 0, .join 1, .notified 1, .recheck 0 0 0,
    .answer 0 (.ok wholeRegion), .add 0 0 0, .clear 0, .notify 0, .lookup 1 0 0]

/-- Both lookups return when the second one is waiting in time. -/
theorem lookups_return_iff_shared_load :
    ∃ e : Machine.Execution (step (.new 600 60) sameKey) (init 2 .new),
      e.Fair (·.isLookup = true) ∧ (∀ m i, e.action m ≠ some (.drop i)) ∧ e.Obeys NotifiesAll ∧
        ∃ m, ∀ i, ∃ result, (e.state m).phase i = .done result := by
  obtain ⟨s, hrun, h0, h1⟩ : ∃ s, Machine.run (step (.new 600 60) sameKey) sharedLoad
      (init 2 .new) = some s ∧ s.phase 0 = .done (.ok wholeRegion) ∧
      s.phase 1 = .done (.ok wholeRegion) := ⟨_, rfl, rfl, rfl⟩
  obtain ⟨e, hfair, haction, hstate⟩ := Machine.exists_execution_of_run hrun
    (by simp [sharedLoad, LoadAction.isLookup])
    (quiescent_of_phases (Fin.forall_fin_two.mpr ⟨.inl ⟨_, h0⟩, .inl ⟨_, h1⟩⟩))
  have hdrop : ∀ m i, e.action m ≠ some (.drop i) := by
    intro m i hm
    rw [haction] at hm
    have := List.mem_of_getElem? hm
    simp [sharedLoad] at this
  have hheard : e.Obeys NotifiesAll := by
    rintro m a ha i h result guard rfl - j
    -- The notification is the tenth action, and by then the second lookup waits.
    rw [haction] at ha
    have hm : m < 11 := (List.getElem?_eq_some_iff.mp ha).1
    interval_cases m <;> cases ha
    have hphase : ((e.state 9).phase 0, (e.state 9).phase 1) =
        (.notify 0 (.ok wholeRegion) false, .waiting 0) :=
      congrArg (fun s : LoadState 2 => (s.phase 0, s.phase 1))
        (Option.some.inj ((hstate 9).symm.trans rfl))
    obtain ⟨hp0, hp1⟩ := Prod.mk.inj hphase
    revert j
    refine Fin.forall_fin_two.mpr ⟨?_, ?_⟩
    · rw [hp0]
      simp
    · rw [hp1]
      simp
  exact ⟨e, hfair, hdrop, hheard, (lookups_return_iff _ _ _ e hfair hdrop).mpr hheard⟩

/-- The second lookup takes the `Notify` of the first one's load, and creates its `Notified` only
after the first one has notified. -/
def lateNotified : List (LoadAction 2) :=
  [.lookup 0 0 0, .join 0, .lookup 1 0 0, .join 1, .recheck 0 0 0, .answer 0 (.ok wholeRegion),
    .add 0 0 0, .clear 0, .notify 0, .notified 1]

/-- **A lost notification**: a fair execution without drops in which the second lookup never
returns. -/
theorem lost_notification_blocks :
    ∃ e : Machine.Execution (step (.new 600 60) sameKey) (init 2 .new),
      e.Fair (·.isLookup = true) ∧ (∀ m i, e.action m ≠ some (.drop i)) ∧
        ∀ m result, (e.state m).phase 1 ≠ .done result := by
  obtain ⟨s, hrun, h0, h1⟩ : ∃ s, Machine.run (step (.new 600 60) sameKey) lateNotified
      (init 2 .new) = some s ∧ s.phase 0 = .done (.ok wholeRegion) ∧ s.phase 1 = .waiting 0 :=
    ⟨_, rfl, rfl, rfl⟩
  obtain ⟨e, hfair, haction, hstate⟩ := Machine.exists_execution_of_run hrun
    (by simp [lateNotified, LoadAction.isLookup])
    (quiescent_of_phases (Fin.forall_fin_two.mpr ⟨.inl ⟨_, h0⟩, .inr (.inr ⟨_, h1⟩)⟩))
  refine ⟨e, hfair, fun m i hm => ?_, fun m result hdone => ?_⟩
  · rw [haction] at hm
    have := List.mem_of_getElem? hm
    simp [lateNotified] at this
  · -- Once returned it would have returned at the end, but there it waits.
    have hlater := done_mono e (le_max_left m lateNotified.length) hdone
    have hend := hstate (max m lateNotified.length)
    rw [List.take_of_length_le (le_max_right m _), hrun] at hend
    rw [← Option.some.inj hend, h1] at hlater
    cases hlater

/-! ## Dropped loaders -/

lemma keepsLoaders_of_markersLive (hs : Marked targets s)
    (hstep : step t targets s a = some s') (hlive : MarkersLive targets s') : KeepsLoaders s a := by
  rintro i rfl
  cases hi : (s.phase i).loads with
  | none => rfl
  | some h =>
    exfalso
    simp only [step] at hstep
    split_ifs at hstep
    cases hstep
    obtain ⟨j, hj, hloads⟩ := hlive (targets i) h (by simpa using hs.marked i h hi)
    rw [phase_setPhase] at hloads
    split_ifs at hloads with hji
    · cases hloads
    · exact hji (hs.unique j i h h hloads hi hj)

/-- **Markers have loaders**, in every run in which no call is dropped while it is the loader of a
marker; such a drop abandons the marker at once.  In a fair execution of this kind every marker goes
away. -/
theorem markers_have_loaders (t : RegionCacheTtl) (targets : Fin n → Target)
    (cache : RegionCacheMap) :
    (∀ s, Machine.Reach (step t targets) KeepsLoaders (init n cache) s → MarkersLive targets s ∧
      ∀ a s', step t targets s a = some s' → (MarkersLive targets s' ↔ KeepsLoaders s a)) ∧
    ∀ e : Machine.Execution (step t targets) (init n cache), e.Fair (·.isLookup = true) →
      e.Obeys KeepsLoaders → ∀ m target h, (e.state m).inFlight target = some h →
        ∃ m', m ≤ m' ∧ (e.state m').inFlight target = none := by
  refine ⟨fun s hs => ?_, fun e hfair hobeys m target h _ => ?_⟩
  · have hlive : MarkersLive targets s := markersLive_of_reach (fun _ _ ha => ha) hs
    have hmarked : Marked targets s :=
      hs.invariant (marked_init targets cache) fun _ _ _ hs _ hstep => hs.step hstep
    exact ⟨hlive, fun a s' hstep =>
      ⟨keepsLoaders_of_markersLive hmarked hstep, fun hkeeps => hlive.step hkeeps hstep⟩⟩
  · obtain ⟨m', hm, hrest⟩ := eventually_rests hfair m
    refine ⟨m', hm, ?_⟩
    cases hflight : (e.state m').inFlight target with
    | none => rfl
    | some h' =>
      -- At rest there are no loaders.
      obtain ⟨i, -, hi⟩ := markersLive_of_reach (fun _ _ ha => ha) (hobeys.reach m') target h'
        hflight
      rcases phase_of_quiescent hrest i with ⟨result, hp⟩ | hp | ⟨h', hp⟩ <;>
        · rw [hp] at hi
          cases hi

/-- While PD is asked, the marker has its loader. -/
theorem markers_have_loaders_fetching :
    ∃ s, Machine.Reach (step (.new 600 60) sameKey) KeepsLoaders (init 2 .new) s ∧
      s.inFlight (.key ⟨[107]⟩) = some 0 ∧ MarkersLive sameKey s := by
  have hreach : Machine.Reach (step (.new 600 60) sameKey) KeepsLoaders (init 2 .new) _ :=
    (((Machine.Reach.refl.act (.lookup 0 0 0) (by simp [KeepsLoaders]) rfl).act (.join 0)
      (by simp [KeepsLoaders]) rfl).act (.recheck 0 0 0) (by simp [KeepsLoaders]) rfl)
  exact ⟨_, hreach, rfl, ((markers_have_loaders _ sameKey .new).1 _ hreach).1⟩

/-- The first lookup is dropped while PD is asked; the second one then waits for it. -/
def droppedLoader : List (LoadAction 2) :=
  [.lookup 0 0 0, .join 0, .recheck 0 0 0, .drop 0, .lookup 1 0 0, .join 1, .notified 1]

/-- **An abandoned marker**: it has no loader, and a later lookup of the key waits at rest. -/
theorem dropped_loader_leaves_marker :
    ∃ s, Machine.Reach (step (.new 600 60) sameKey) (fun _ _ => True) (init 2 .new) s ∧
      ¬ MarkersLive sameKey s ∧ s.inFlight (.key ⟨[107]⟩) = some 0 ∧ s.phase 1 = .waiting 0 ∧
        ¬ Machine.Enabled (step (.new 600 60) sameKey) (·.isLookup = true) s := by
  obtain ⟨s, hrun, hflight, h0, h1⟩ : ∃ s, Machine.run (step (.new 600 60) sameKey) droppedLoader
      (init 2 .new) = some s ∧ s.inFlight (.key ⟨[107]⟩) = some 0 ∧ s.phase 0 = .dropped ∧
      s.phase 1 = .waiting 0 := ⟨_, rfl, rfl, rfl, rfl⟩
  refine ⟨s, Machine.reach_of_run hrun, fun hlive => ?_, hflight, h1, ?_⟩
  · obtain ⟨i, -, hi⟩ := hlive _ 0 hflight
    revert hi
    revert i
    refine Fin.forall_fin_two.mpr ⟨?_, ?_⟩
    · rw [h0]
      exact fun hi => by cases hi
    · rw [h1]
      exact fun hi => by cases hi
  · exact quiescent_of_phases (Fin.forall_fin_two.mpr ⟨.inr (.inl h0), .inr (.inr ⟨_, h1⟩)⟩)

/-- **One load at a time**: whatever calls are dropped and whatever else uses the cache, a target
has at most one loader, whose marker is in the map. -/
theorem one_loader_for_each_target (e : Machine.Execution (step t targets) (init n cache)) (m : ℕ)
    (target : Target) :
    {i | targets i = target ∧ ((e.state m).phase i).loads ≠ none}.Subsingleton ∧
      ∀ i h, targets i = target → ((e.state m).phase i).loads = some h →
        (e.state m).inFlight target = some h := by
  have hs : Marked targets (e.state m) :=
    (e.reach m).invariant (marked_init targets cache) fun _ _ _ hs _ hstep => hs.step hstep
  constructor
  · rintro i ⟨rfl, hi⟩ j ⟨heq, hj⟩
    obtain ⟨h, hi⟩ := Option.ne_none_iff_exists'.mp hi
    obtain ⟨h', hj⟩ := Option.ne_none_iff_exists'.mp hj
    exact hs.unique i j h h' hi hj heq.symm
  · rintro i h rfl hi
    exact hs.marked i h hi

end LoadState

end TikvClient
