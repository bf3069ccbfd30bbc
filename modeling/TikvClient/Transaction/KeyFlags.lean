import Mathlib.Tactic.Common

/-!
# Per-key transaction flags

`KeyFlags` is the bit set a transaction keeps for a key, and `FlagsOp` the operations on it.
The flags decide how a buffered entry is lowered to a mutation and whether its key takes part
in the commit phase.

**Reading flags bit by bit.**  Each query is a test of one or two bits, and each operation
sets or clears one or two bits; the `apply` lemmas below state what the operations do to the two
queries the protocol depends on, `hasPrewriteOnly` and `hasPresumeKeyNotExists`.
-/

namespace TikvClient

/-- Per-key metadata associated with a transaction key: a set of bits. -/
structure KeyFlags where
  bits : BitVec 16
deriving DecidableEq

/-- An operation that mutates `KeyFlags`. -/
inductive FlagsOp where
  | setPresumeKeyNotExists
  | delPresumeKeyNotExists
  | setPrewriteOnly
  | delPrewriteOnly
  | setAssertExist
  | setAssertNotExist
  | setAssertUnknown
  | setAssertNone
deriving DecidableEq

namespace KeyFlags

def presumeKeyNotExists : BitVec 16 := BitVec.twoPow 16 0
def prewriteOnly : BitVec 16 := BitVec.twoPow 16 1
def assertExist : BitVec 16 := BitVec.twoPow 16 2
def assertNotExist : BitVec 16 := BitVec.twoPow 16 3

def default : KeyFlags := ⟨0⟩

def hasPresumeKeyNotExists (f : KeyFlags) : Bool :=
  f.bits &&& presumeKeyNotExists != 0

/-- Whether the key is prewrite-only (excluded from the commit phase). -/
def hasPrewriteOnly (f : KeyFlags) : Bool :=
  f.bits &&& prewriteOnly != 0

def hasAssertExist (f : KeyFlags) : Bool :=
  f.bits &&& assertExist != 0 && f.bits &&& assertNotExist == 0

def hasAssertNotExist (f : KeyFlags) : Bool :=
  f.bits &&& assertNotExist != 0 && f.bits &&& assertExist == 0

def apply (f : KeyFlags) : FlagsOp → KeyFlags
  | .setPresumeKeyNotExists => ⟨f.bits ||| presumeKeyNotExists⟩
  | .delPresumeKeyNotExists => ⟨f.bits &&& ~~~presumeKeyNotExists⟩
  | .setPrewriteOnly => ⟨f.bits ||| prewriteOnly⟩
  | .delPrewriteOnly => ⟨f.bits &&& ~~~prewriteOnly⟩
  | .setAssertExist => ⟨f.bits &&& ~~~assertNotExist ||| assertExist⟩
  | .setAssertNotExist => ⟨f.bits &&& ~~~assertExist ||| assertNotExist⟩
  | .setAssertUnknown => ⟨f.bits ||| (assertExist ||| assertNotExist)⟩
  | .setAssertNone => ⟨f.bits &&& ~~~(assertExist ||| assertNotExist)⟩

/-! ## The bits under each operation -/

lemma and_twoPow_ne_zero (x : BitVec 16) {i : ℕ} (hi : i < 16) :
    (x &&& BitVec.twoPow 16 i != 0) = x.getLsbD i := by
  rw [BitVec.and_twoPow]
  have hpow : BitVec.twoPow 16 i ≠ 0#16 := by
    intro h
    have hbit := congrArg (fun y => y.getLsbD i) h
    simp [hi] at hbit
  cases x.getLsbD i <;> simp [hpow]

lemma hasPrewriteOnly_eq (f : KeyFlags) : f.hasPrewriteOnly = f.bits.getLsbD 1 :=
  and_twoPow_ne_zero f.bits (by decide)

@[simp] lemma hasPrewriteOnly_default : default.hasPrewriteOnly = false := by
  decide

@[simp] lemma hasPrewriteOnly_apply (f : KeyFlags) (op : FlagsOp) :
    (f.apply op).hasPrewriteOnly =
      match op with
      | .setPrewriteOnly => true
      | .delPrewriteOnly => false
      | _ => f.hasPrewriteOnly := by
  cases op <;>
    simp [hasPrewriteOnly_eq, apply, presumeKeyNotExists, prewriteOnly, assertExist,
      assertNotExist]

@[simp] lemma hasPresumeKeyNotExists_default : default.hasPresumeKeyNotExists = false := by
  decide

@[simp] lemma hasPresumeKeyNotExists_apply (f : KeyFlags) (op : FlagsOp) :
    (f.apply op).hasPresumeKeyNotExists =
      match op with
      | .setPresumeKeyNotExists => true
      | .delPresumeKeyNotExists => false
      | _ => f.hasPresumeKeyNotExists := by
  have hbit : ∀ g : KeyFlags, g.hasPresumeKeyNotExists = g.bits.getLsbD 0 :=
    fun g => and_twoPow_ne_zero g.bits (by decide)
  cases op <;>
    simp [hbit, apply, presumeKeyNotExists, prewriteOnly, assertExist, assertNotExist]

end KeyFlags

end TikvClient
