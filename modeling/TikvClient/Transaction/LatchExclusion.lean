import TikvClient.Core.SortedMap
import TikvClient.Transaction.LatchInvariants

/-!
# Latches: mutual exclusion

**The main result** (`latches_exclusive`) says what the invariants mean for the tables of the slots:
a key has one owner at most, and a lock owns the keys that it has acquired so far.  Guards that are
not stale own all their keys, so two of them have none in common.

The tables are indexed by slots, so a key could in principle have several nodes; `Housed` says that
it has none outside its own slot.
-/

namespace TikvClient

variable {n size : ℕ}

namespace LatchState

open LatchView

variable {c : LatchConfig n size} {s s' : LatchState n size}

/-- Every node is in the slot of its key. -/
def Housed (c : LatchConfig n size) (s : LatchState n size) : Prop :=
  ∀ (slot : Fin size) (k : Key) (node : Node n),
    (s.slots slot).nodes[k]? = some node → c.slotId k = slot

lemma Housed.setSlot {slot : Fin size} {inner : SlotInner n} (h : Housed c s)
    (hinner : ∀ (k : Key) (node : Node n), inner.nodes[k]? = some node → c.slotId k = slot) :
    Housed c (s.setSlot slot inner) := by
  intro slot' k node hnode
  by_cases hslot : slot' = slot
  · subst hslot
    exact hinner k node (by simpa [LatchState.setSlot] using hnode)
  · exact h slot' k node (by simpa [LatchState.setSlot, hslot] using hnode)

lemma Housed.setNode (h : Housed c s) (key : Key) (node : Node n) (k : Key) (node' : Node n)
    (hget : ((s.slots (c.slotId key)).setNode key node).nodes[k]? = some node') :
    c.slotId k = c.slotId key := by
  obtain ⟨rfl, -⟩ | ⟨-, hget⟩ := SortedMap.getElem?_insert_eq_some_iff.mp hget
  · rfl
  · exact h _ k node' hget

lemma Housed.recycleSlot (h : Housed c s) (slot : Fin size) (ts : ℕ) :
    Housed c (s.recycleSlot slot ts) := by
  refine h.setSlot fun k node hget => h slot k node ?_
  rw [SlotInner.recycle, Std.ExtTreeMap.getElem?_filter'] at hget
  exact (Option.filter_eq_some_iff.mp hget).1

lemma Housed.recycleFull (h : Housed c s) (i : Fin n) (key : Key) :
    Housed c (s.recycleFull c i key) := by
  unfold LatchState.recycleFull
  split
  · exact h.recycleSlot _ _
  · exact h

lemma Housed.acquireSlot (h : Housed c s) (i : Fin n) (key : Key) :
    Housed c (s.acquireSlot c i key).1 := by
  have hfull := h.recycleFull i key
  unfold LatchState.acquireSlot LatchState.acquireNode
  dsimp only
  split
  · exact hfull.setSlot (hfull.setNode key _)
  · split
    · exact hfull.setSlot (hfull.setNode key _)
    · exact hfull.setSlot (hfull.setNode key _)

lemma Housed.takeWaiter (h : Housed c s) (key : Key) : Housed c (s.takeWaiter c key).1 := by
  unfold LatchState.takeWaiter
  dsimp only
  split
  · exact h
  · split
    · exact h.setSlot (h.setNode key _)
    · exact h.setSlot (h _)

lemma Housed.releaseSlot (h : Housed c s) (l : Fin n) : Housed c (s.releaseSlot c l).1 := by
  unfold LatchState.releaseSlot
  split
  · exact h
  next idx _ =>
    have hlock : Housed c (s.setLock l { s.locks l with acquiredCount := idx }) := h
    dsimp only
    split
    · exact hlock
    next key _ =>
      have hset : ∀ node event, Housed c
          (((s.setLock l { s.locks l with acquiredCount := idx }).setSlot (c.slotId key)
            ((s.slots (c.slotId key)).setNode key node)).record event) :=
        fun node _ => hlock.setSlot (h.setNode key node)
      split
      · split
        · exact (hset _ _).takeWaiter key
        · exact hlock.setSlot (h.setNode key _)
      · exact (hset _ _).takeWaiter key

lemma Housed.step {a : LatchAction n} (h : Housed c s) (hstep : s.step c a = some s') :
    Housed c s' := by
  cases a with
  | acquire i =>
    simp only [LatchState.step] at hstep
    split at hstep
    · split at hstep
      · cases hstep
        exact h
      next key _ =>
        have hacquire := h.acquireSlot i key
        split at hstep
        next heq =>
          cases hstep
          rw [heq] at hacquire
          exact hacquire
        next heq =>
          cases hstep
          rw [heq] at hacquire
          exact hacquire
    · cases hstep
  | wakeup =>
    simp only [LatchState.step] at hstep
    split at hstep
    next w _ _ =>
      split at hstep
      · cases hstep
        exact h
      next key _ =>
        have hacquire := h.acquireSlot w key
        split at hstep
        next heq =>
          cases hstep
          rw [heq] at hacquire
          exact hacquire
        next heq =>
          cases hstep
          rw [heq] at hacquire
          exact hacquire
    · cases hstep
  | release =>
    simp only [LatchState.step] at hstep
    split at hstep
    next l _ _ =>
      split at hstep
      · cases hstep
        exact h
      · cases hstep
        exact h.releaseSlot l
    · cases hstep
  | finish =>
    simp only [LatchState.step] at hstep
    split at hstep
    · cases hstep
      unfold finishRelease
      dsimp only
      split
      · exact h
      · exact h
    · cases hstep
  | recycle j =>
    simp only [LatchState.step] at hstep
    split at hstep
    · split at hstep
      · cases hstep
        exact h.recycleSlot _ _
      · cases hstep
        exact h
    · cases hstep
  | _ =>
    simp only [LatchState.step] at hstep
    split at hstep
    · cases hstep
      exact h
    · cases hstep

lemma housed_of_reach {allowed : LatchState n size → LatchAction n → Prop}
    (h : Machine.Reach (step c) allowed (init n size) s) : Housed c s := by
  refine h.invariant (I := Housed c) ?_ fun _ _ _ hs _ hstep => hs.step hstep
  intro slot k node hnode
  simp [init] at hnode

/-- A node of some slot says that the lock owns the key. -/
def Owns (s : LatchState n size) (i : Fin n) (k : Key) : Prop :=
  ∃ (slot : Fin size) (node : Node n), (s.slots slot).nodes[k]? = some node ∧ node.value = some i

lemma exists_node_of_owner {k : Key} {i : Fin n} (h : (s.view c).owner k = some i) :
    ∃ node, (s.slots (c.slotId k)).nodes[k]? = some node ∧ node.value = some i := by
  replace h : ((s.slots (c.slotId k)).nodes[k]?.getD ⟨0, none⟩).value = some i := h
  cases hnode : (s.slots (c.slotId k)).nodes[k]? with
  | none => simp [hnode] at h
  | some node =>
    rw [hnode] at h
    exact ⟨node, rfl, h⟩

lemma Housed.owns_iff (h : Housed c s) {i : Fin n} {k : Key} :
    s.Owns i k ↔ (s.view c).owner k = some i := by
  constructor
  · rintro ⟨slot, node, hnode, hvalue⟩
    obtain rfl := h slot k node hnode
    show ((s.slots (c.slotId k)).nodes[k]?.getD ⟨0, none⟩).value = some i
    rw [hnode]
    exact hvalue
  · intro howner
    obtain ⟨node, hnode, hvalue⟩ := exists_node_of_owner howner
    exact ⟨_, node, hnode, hvalue⟩

/-- **Mutual exclusion**, and what it rests on: who owns which keys. -/
structure Exclusive (c : LatchConfig n size) (s : LatchState n size) : Prop where
  /-- A key has at most one owner. -/
  owner_unique : ∀ i j k, s.Owns i k → s.Owns j k → i = j
  /-- A lock owns the keys it has acquired, in the order of its list. -/
  owns_iff : ∀ i k, s.Owns i k ↔ k ∈ (c.keys i).take (s.locks i).acquiredCount
  acquired_le : ∀ i, (s.locks i).acquiredCount ≤ (c.keys i).length
  /-- A lock waits in the slot of the next key, which it does not own. -/
  waits : ∀ slot i, i ∈ (s.slots slot).waiting →
    ∃ k, s.nextKey c i = some k ∧ c.slotId k = slot ∧ ¬ s.Owns i k
  /-- Guards that are not stale have no key in common. -/
  disjoint : ∀ i j, i ≠ j → s.phase i = .holding → s.phase j = .holding →
    (s.locks i).stale = false → (s.locks j).stale = false →
    (c.lockKeys i).Disjoint (c.lockKeys j)
  /-- When a key is released, its node is there and says so: the branches of `releaseSlot` for a
  wrong owner and for an inconsistent state are not reached. -/
  releases : ∀ l ws idx, s.task = .releasing l ws → (s.locks l).acquiredCount = idx + 1 →
    ∃ key node, (c.keys l)[idx]? = some key ∧
      (s.slots (c.slotId key)).nodes[key]? = some node ∧ node.value = some l

/-- **The latches exclude each other** in every state that calls of `lock()`, dropped guards, the
background task and its `recycle` tasks lead to, however they interleave. -/
theorem latches_exclusive (c : LatchConfig n size) (s : LatchState n size)
    (h : Machine.Reach (step c) (fun _ _ => True) (init n size) s) : Exclusive c s := by
  have hcons := consistent_of_reach h
  have howns : ∀ {i k}, s.Owns i k ↔ (s.view c).owner k = some i := (housed_of_reach h).owns_iff
  constructor
  · intro i j k hi hj
    have heq := (howns.mp hi).symm.trans (howns.mp hj)
    exact Option.some.inj heq
  · intro i k
    rw [howns]
    exact hcons.owned.owner_iff k i
  · exact hcons.owned.acquired_le
  · intro slot i hi
    obtain ⟨-, -, -, k, hwanted, hslot⟩ := hcons.asleep.queued slot i hi
    have hnext := (nextKey_of_wantedKey hwanted).2
    refine ⟨k, hnext, hslot, ?_⟩
    rw [howns, hcons.owned.owner_iff]
    exact nextKey_notMem hnext
  · intro i j hne hi hj hstalei hstalej k hki hkj
    have heq := (hcons.owner_of_holding hi hstalei hki).symm.trans
      (hcons.owner_of_holding hj hstalej hkj)
    exact hne (Option.some.inj heq)
  · intro l ws idx htask hcount
    have hlt : idx < (c.keys l).length := by
      have hle := hcons.owned.acquired_le l
      rw [show (s.view c).acquired l = idx + 1 from hcount] at hle
      exact hle
    have hkey := List.getElem?_eq_getElem hlt
    have howner : (s.view c).owner (c.keys l)[idx] = some l := by
      refine (hcons.owned.owner_iff _ l).mpr ?_
      rw [show (s.view c).acquired l = idx + 1 from hcount, List.take_add_one, hkey]
      exact List.mem_append_right _ (List.mem_singleton_self _)
    obtain ⟨node, hnode, hvalue⟩ := exists_node_of_owner howner
    exact ⟨_, node, hkey, hnode, hvalue⟩

/-- Two callers with a common key, in a table of one slot. -/
def contended : LatchConfig 2 1 where
  slotId := fun _ => 0
  startTs := fun i => if i.val = 0 then 10 else 20
  lockKeys := fun i => if i.val = 0 then [⟨[2]⟩, ⟨[1]⟩, ⟨[2]⟩] else [⟨[2]⟩]

theorem latches_exclusive_contended :
    ∃ s, Machine.run (step contended) [.call 0, .acquire 0, .acquire 0, .acquire 0, .call 1,
        .acquire 1] (init 2 1) = some s ∧
      s.phase 0 = .holding ∧ s.phase 1 = .waiting ∧ Exclusive contended s := by
  have hrun : ∃ s, Machine.run (step contended) [.call 0, .acquire 0, .acquire 0, .acquire 0,
      .call 1, .acquire 1] (init 2 1) = some s ∧ s.phase 0 = .holding ∧ s.phase 1 = .waiting :=
    ⟨_, rfl, rfl, rfl⟩
  obtain ⟨s, hrun, hholding, hwaiting⟩ := hrun
  exact ⟨s, hrun, hholding, hwaiting, latches_exclusive contended s (Machine.reach_of_run hrun)⟩

/-- **The abstract latches take the action**: a move, possibly after recycling; and a pause changes
nothing. -/
def ViewStep (c : LatchConfig n size) : Option (LatchAction n) → LatchView n size →
    LatchView n size → Prop
  | some a, v, v' => ∃ v₁, v.Recycles v₁ ∧ v₁.Move c a v'
  | none, v, v' => v' = v

/-- **The latches refine their view**: what an action makes of the tables and slots, the same action
makes of the owners and the newest commits. -/
theorem latches_refine_view (c : LatchConfig n size)
    (e : Machine.Execution (step c) (init n size)) (m : ℕ) :
    ViewStep c (e.action m) ((e.state m).view c) ((e.state (m + 1)).view c) := by
  have howned := (consistent_of_reach (e.reach m)).owned
  cases haction : e.action m with
  | none => exact congrArg (view c) (e.pause m haction)
  | some a => exact step_view howned (e.act m a haction)

end LatchState

end TikvClient
