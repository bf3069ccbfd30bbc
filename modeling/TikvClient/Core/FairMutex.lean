import Mathlib.Data.List.Nodup

/-!
# A fair mutex

The parties that have asked for a fair mutex stand in line: the first of them holds it, and the
others wait.  Asking and waiting are separated from each other, as the futures of an asynchronous
mutex do it.  A party leaves the line by letting go of the guard or by dropping its request; if it
was the first, the next one holds the mutex.
-/

/-- **A fair mutex**, as the line of the parties that hold it or wait for it. -/
structure FairMutex (ι : Type) where
  line : List ι
  nodup : line.Nodup
deriving DecidableEq

namespace FairMutex

variable {ι : Type}

/-- Nobody has asked for it. -/
def free : FairMutex ι := ⟨[], List.nodup_nil⟩

def holder (m : FairMutex ι) : Option ι := m.line.head?

lemma mem_of_holder {m : FairMutex ι} {i : ι} (h : m.holder = some i) : i ∈ m.line :=
  List.mem_of_mem_head? h

variable [DecidableEq ι]

/-- Get in line. -/
def lock (m : FairMutex ι) (i : ι) : FairMutex ι :=
  if h : i ∈ m.line then m
  else ⟨m.line ++ [i], List.nodup_append.mpr ⟨m.nodup, List.nodup_singleton i, by grind⟩⟩

def leave (m : FairMutex ι) (i : ι) : FairMutex ι := ⟨m.line.erase i, m.nodup.erase i⟩

variable {m : FairMutex ι} {i j : ι}

lemma line_lock (h : i ∉ m.line) : (m.lock i).line = m.line ++ [i] := by
  rw [lock, dif_neg h]

lemma mem_line_lock : j ∈ (m.lock i).line ↔ j ∈ m.line ∨ j = i := by
  unfold lock
  split_ifs with h
  · grind
  · simp

lemma holder_lock_of_holder (h : m.holder = some j) : (m.lock i).holder = some j := by
  unfold lock
  split_ifs
  · exact h
  · obtain ⟨rest, hline⟩ := List.head?_eq_some_iff.mp h
    simp [holder, hline]

lemma holder_lock_of_free (h : m.line = []) : (m.lock i).holder = some i := by
  rw [holder, line_lock (by simp [h]), h]
  rfl

lemma mem_line_leave : j ∈ (m.leave i).line ↔ j ≠ i ∧ j ∈ m.line := m.nodup.mem_erase_iff

lemma holder_leave_of_ne (h : m.holder = some j) (hne : j ≠ i) : (m.leave i).holder = some j := by
  obtain ⟨rest, hline⟩ := List.head?_eq_some_iff.mp h
  simp [holder, leave, hline, List.erase_cons_tail, hne]

lemma holder_leave_of_mem (h : m.holder = some i) (hj : j ∈ m.line) (hne : j ≠ i)
    (hall : ∀ p, p = i ∨ p = j) : (m.leave i).holder = some j := by
  obtain ⟨rest, hline⟩ := List.head?_eq_some_iff.mp h
  have hnodup := m.nodup
  rw [hline] at hj hnodup
  have hrest : j ∈ rest := (List.mem_cons.mp hj).resolve_left hne
  obtain ⟨p, rest', rfl⟩ := List.exists_cons_of_ne_nil (List.ne_nil_of_mem hrest)
  rcases hall p with rfl | rfl
  · simp at hnodup
  · simp [holder, leave, hline]

end FairMutex
