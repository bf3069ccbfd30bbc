import Mathlib.Algebra.Group.Int.Defs
import Mathlib.Algebra.GroupWithZero.Nat
import Mathlib.Data.List.Lex
import Mathlib.Order.Lattice
import Std.Data.ExtTreeMap

/-!
# Keys, values and regions

The data every request of the client is about.  A `Key` is a sequence of bytes, ordered
lexicographically; the byte order is the one `BTreeMap<Key, _>`, region routing and the
sorting of mutations all use, so it is the *only* order on keys here.

**Regions.**  A `Region` is what the client keeps of a `RegionWithLeader`: its identity and
epoch, the half-open key range it serves (an empty end key is "no upper bound") and the store
of its leader, if one is known.
-/

namespace TikvClient

abbrev Value := List UInt8

/-- **A key**: an ordered sequence of bytes. -/
structure Key where
  bytes : List UInt8
deriving DecidableEq, Inhabited

namespace Key

/-- The byte values of a key, as the numbers they are compared by. -/
def digits (k : Key) : List ℕ :=
  k.bytes.map UInt8.toNat

lemma digits_injective : Function.Injective digits := by
  rintro ⟨xs⟩ ⟨ys⟩ h
  have hinj : Function.Injective UInt8.toNat := fun _ _ => UInt8.toNat.inj
  exact congrArg Key.mk (List.map_injective_iff.mpr hinj h)

/-- Keys are ordered lexicographically by their bytes. -/
instance : LinearOrder Key :=
  LinearOrder.lift' digits digits_injective

instance : Std.TransOrd Key := inferInstance

instance : Std.LawfulEqOrd Key where
  eq_of_compare := compare_eq_iff_eq.mp

def empty : Key := ⟨[]⟩

def isEmpty (k : Key) : Bool := k.bytes.isEmpty

def len (k : Key) : ℕ := k.bytes.length

/-- The smallest key greater than `k`: `k` with a zero byte pushed at its end. -/
def nextKey (k : Key) : Key := ⟨k.bytes ++ [0]⟩

lemma lt_iff_digits_lt (k l : Key) : k < l ↔ k.digits < l.digits := Iff.rfl

lemma lt_nextKey (k : Key) : k < k.nextKey := by
  have happend : ∀ l : List ℕ, l < l ++ [0] := by
    intro l
    induction l with
    | nil => simp
    | cons a l ih => exact List.cons_lt_cons_iff.mpr (.inr ⟨rfl, ih⟩)
  simpa [lt_iff_digits_lt, digits, nextKey] using happend k.digits

/-- Nothing lies between a key and the next one. -/
lemma nextKey_le_iff (k l : Key) : k.nextKey ≤ l ↔ k < l := by
  refine ⟨fun h => (lt_nextKey k).trans_le h, fun h => ?_⟩
  have hsucc : ∀ a b : List ℕ, a < b → ¬ b < a ++ [0] := by
    intro a
    induction a with
    | nil =>
      intro b hb
      cases b with
      | nil => exact absurd hb (List.not_lt_nil _)
      | cons y b => simp [List.cons_lt_cons_iff]
    | cons x a ih =>
      intro b hb
      cases b with
      | nil => exact absurd hb (List.not_lt_nil _)
      | cons y b =>
        rw [List.cons_lt_cons_iff] at hb
        rw [List.cons_append, List.cons_lt_cons_iff]
        rintro (hyx | ⟨rfl, hlt⟩)
        · rcases hb with hxy | ⟨rfl, -⟩ <;> omega
        · exact ih b (hb.resolve_left (lt_irrefl _)).2 hlt
  rw [← not_lt, lt_iff_digits_lt]
  simpa [digits, nextKey] using hsucc k.digits l.digits h

lemma lt_nextKey_iff (k l : Key) : l < k.nextKey ↔ l ≤ k := by
  rw [← not_le, nextKey_le_iff, not_lt]

lemma empty_le (k : Key) : empty ≤ k := by
  rw [← not_lt, lt_iff_digits_lt]
  exact List.not_lt_nil _

lemma isEmpty_iff (k : Key) : k.isEmpty = true ↔ k = .empty := by
  obtain ⟨bytes⟩ := k
  simp [isEmpty, empty]

lemma lt_of_isEmpty {j k : Key} (hj : j.isEmpty = true) (hk : k.isEmpty = false) : j < k := by
  have hnil : j = .empty := (isEmpty_iff j).mp hj
  refine lt_of_le_of_ne (hnil ▸ empty_le k) fun heq => ?_
  rw [← heq, hj] at hk
  cases hk

lemma isEmpty_eq_false_of_lt {j k : Key} (h : j < k) : k.isEmpty = false := by
  rw [isEmpty, Bool.eq_false_iff, ne_eq, List.isEmpty_iff]
  intro hk
  obtain ⟨bytes⟩ := k
  obtain rfl : bytes = [] := hk
  exact absurd h (not_lt.mpr (empty_le j))

end Key

/-! ## Regions -/

/-- The identity and epoch of a region. -/
structure RegionVerId where
  id : ℕ
  confVer : ℕ
  ver : ℕ
deriving DecidableEq, Inhabited

/-- **A region and its leader**, as the client's region cache knows them. -/
structure Region where
  verId : RegionVerId
  startKey : Key
  endKey : Key
  leader : Option ℕ
deriving DecidableEq, Inhabited

namespace Region

/-- Whether the region's range contains the key; an empty end key is no upper bound. -/
def contains (r : Region) (k : Key) : Bool :=
  decide (r.startKey ≤ k) && (decide (k < r.endKey) || r.endKey.isEmpty)

end Region

/-! ## Ranges of keys -/

/-- One end of a range (`std::ops::Bound`). -/
inductive Bound where
  | included (key : Key)
  | excluded (key : Key)
  | unbounded
deriving DecidableEq

structure BoundRange where
  lower : Bound
  upper : Bound
deriving DecidableEq

/-- `end_bound`: an empty key as the upper end is no bound. -/
def BoundRange.endBound (r : BoundRange) : Bound :=
  match r.upper with
  | .included t => if t.isEmpty then .unbounded else .included t
  | .excluded t => if t.isEmpty then .unbounded else .excluded t
  | .unbounded => .unbounded

/-- The key is not below the bound. -/
def Bound.startsBefore (b : Bound) (k : Key) : Bool :=
  match b with
  | .included l => decide (l ≤ k)
  | .excluded l => decide (l < k)
  | .unbounded => true

/-- The key is not above the bound. -/
def Bound.endsAfter (b : Bound) (k : Key) : Bool :=
  match b with
  | .included u => decide (k ≤ u)
  | .excluded u => decide (k < u)
  | .unbounded => true

/-- Whether the range contains the key (`RangeBounds::contains`). -/
def BoundRange.contains (r : BoundRange) (k : Key) : Bool :=
  r.lower.startsBefore k && r.endBound.endsAfter k

/-- Whether `BTreeMap::range` panics on the range: it begins after its end, or both are the same
key, excluded. -/
def BoundRange.isInverted (r : BoundRange) : Bool :=
  match r.lower, r.endBound with
  | .excluded s, .excluded e => decide (e ≤ s)
  | .included s, .included e | .included s, .excluded e | .excluded s, .included e => decide (e < s)
  | _, _ => false

structure KvPair where
  key : Key
  value : Value
deriving DecidableEq

end TikvClient
