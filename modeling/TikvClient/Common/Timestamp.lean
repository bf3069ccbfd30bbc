import TikvClient.Common.Errors
import Mathlib.Data.Int.Bitwise

/-!
# Timestamps and versions

PD hands out a timestamp as two numbers, the physical time and a logical counter; a transaction
uses it as one, its version, of which the lower 18 bits are the logical part.  The source goes back
and forth in `u64`, `i64` and `i128`.

**The sign bit.**  `from_version` reads the version as an `i64` before it shifts, `extract_physical`
shifts first.  So they agree on the versions below `2 ^ 63`, and only there: above, the physical
part is negative, `version` does not fit into a `u64` and falls back to 0, and every such timestamp
comes before all the others.
-/

namespace TikvClient

def physicalShiftBits : ℕ := 18

def logicalMask : Int64 := ((1 : Int64) <<< (18 : Int64)) - 1

/-- `pdpb::Timestamp`, without the suffix bits, which are 0 everywhere. -/
structure Timestamp where
  physical : Int64
  logical : Int64
deriving DecidableEq

/-- `((physical as i128) << PHYSICAL_SHIFT_BITS) + (logical as i128)`; an `i128` has room for it. -/
def wideTs (physical logical : Int64) : ℤ :=
  physical.toInt <<< physicalShiftBits + logical.toInt

/-- `i128::try_into::<u64>`. -/
def tryIntoU64 (ts : ℤ) : Option UInt64 :=
  if 0 ≤ ts ∧ ts < 2 ^ 64 then some (UInt64.ofNat ts.toNat) else none

def composeTs (physicalMs logical : Int64) : Except Error UInt64 :=
  match tryIntoU64 (wideTs physicalMs logical) with
  | some ts => .ok ts
  | none =>
    -- `internal_err!` displays a single argument as it stands, without formatting it.
    .error (.internalError
      "invalid ts parts (physical_ms=\x7bphysical_ms\x7d, logical=\x7blogical\x7d)")

def extractPhysical (ts : UInt64) : Int64 := (ts >>> (18 : UInt64)).toInt64

def extractLogical (ts : UInt64) : Int64 := ts.toInt64 &&& logicalMask

namespace Timestamp

def version (t : Timestamp) : UInt64 := (tryIntoU64 (wideTs t.physical t.logical)).getD 0

def fromVersion (version : UInt64) : Timestamp where
  physical := version.toInt64 >>> (18 : Int64)
  logical := version.toInt64 &&& logicalMask

/-! ## The parts as numbers -/

lemma toInt_toInt64 (v : UInt64) :
    v.toInt64.toInt = if v.toNat < 2 ^ 63 then (v.toNat : ℤ) else v.toNat - 2 ^ 64 := by
  rw [← Int64.toInt_toBitVec, UInt64.toBitVec_toInt64, BitVec.toInt_eq_toNat_cond,
    UInt64.toNat_toBitVec]
  have hlt := v.toNat_lt
  split_ifs <;> omega

lemma toInt_and_logicalMask (x : Int64) : (x &&& logicalMask).toInt = x.toInt % 2 ^ 18 := by
  have hmask : logicalMask.toBitVec.toNat = 2 ^ 18 - 1 := by decide
  have hnat : (x &&& logicalMask).toBitVec.toNat = x.toBitVec.toNat % 2 ^ 18 := by
    rw [Int64.toBitVec_and, BitVec.toNat_and, hmask, Nat.and_two_pow_sub_one_eq_mod]
  rw [← Int64.toInt_toBitVec, ← Int64.toInt_toBitVec, BitVec.toInt_eq_toNat_cond,
    BitVec.toInt_eq_toNat_cond, hnat]
  have hlt := x.toBitVec.isLt
  split_ifs <;> omega

lemma toInt_shiftRight (x : Int64) : (x >>> (18 : Int64)).toInt = x.toInt / 2 ^ 18 := by
  have hbits : (BitVec.smod (18 : Int64).toBitVec 64).toNat = 18 := by decide
  rw [← Int64.toInt_toBitVec, Int64.toBitVec_shiftRight, BitVec.toInt_sshiftRight', hbits,
    Int64.toInt_toBitVec, Int.shiftRight_eq_div_pow]
  rfl

lemma toInt_extractPhysical (v : UInt64) :
    (extractPhysical v).toInt = (v.toNat / 2 ^ 18 : ℕ) := by
  have hshift : (v >>> (18 : UInt64)).toNat = v.toNat / 2 ^ 18 := by
    rw [UInt64.toNat_shiftRight, Nat.shiftRight_eq_div_pow]
    rfl
  rw [extractPhysical, toInt_toInt64, hshift, if_pos]
  have hlt := v.toNat_lt
  omega

lemma toInt_fromVersion (v : UInt64) :
    (fromVersion v).physical.toInt = v.toInt64.toInt / 2 ^ 18 ∧
      (fromVersion v).logical.toInt = v.toInt64.toInt % 2 ^ 18 :=
  ⟨toInt_shiftRight v.toInt64, toInt_and_logicalMask v.toInt64⟩

lemma wideTs_eq (physical logical : Int64) :
    wideTs physical logical = physical.toInt * 2 ^ 18 + logical.toInt := by
  rw [wideTs, physicalShiftBits, Int.shiftLeft_eq]

/-- Shifting and masking take nothing away: the parts make up the number that was read. -/
lemma wideTs_fromVersion (v : UInt64) :
    wideTs (fromVersion v).physical (fromVersion v).logical = v.toInt64.toInt := by
  obtain ⟨hphysical, hlogical⟩ := toInt_fromVersion v
  rw [wideTs_eq, hphysical, hlogical]
  omega

lemma wideTs_extract (v : UInt64) :
    wideTs (extractPhysical v) (extractLogical v) = v.toNat := by
  have hlogical : (extractLogical v).toInt = v.toInt64.toInt % 2 ^ 18 :=
    toInt_and_logicalMask v.toInt64
  rw [wideTs_eq, toInt_extractPhysical, hlogical, toInt_toInt64]
  split_ifs <;> omega

lemma tryIntoU64_toNat (v : UInt64) : tryIntoU64 v.toNat = some v := by
  have hlt := v.toNat_lt
  rw [tryIntoU64, if_pos (by omega), Int.toNat_natCast, UInt64.ofNat_toNat]

lemma tryIntoU64_of_neg {ts : ℤ} (h : ts < 0) : tryIntoU64 ts = none :=
  if_neg fun h' => absurd h'.1 (not_le.mpr h)

/-! ## Round trips -/

/-- `i64::MAX`, as a version: the last one the conversions agree on. -/
def lastSigned : ℕ := 2 ^ 63 - 1

lemma version_fromVersion (v : UInt64) :
    (fromVersion v).version = if v.toNat ≤ lastSigned then v else 0 := by
  have hlt := v.toNat_lt
  rw [version, wideTs_fromVersion, toInt_toInt64, lastSigned]
  by_cases h : v.toNat < 2 ^ 63
  · rw [if_pos h, if_pos (by omega), tryIntoU64_toNat, Option.getD_some]
  · rw [if_neg h, if_neg (by omega), tryIntoU64_of_neg (by omega), Option.getD_none]

lemma physical_fromVersion_iff (v : UInt64) :
    (fromVersion v).physical = extractPhysical v ↔ v.toNat ≤ lastSigned := by
  rw [← Int64.toInt_inj, (toInt_fromVersion v).1, toInt_extractPhysical, toInt_toInt64, lastSigned]
  have hlt := v.toNat_lt
  split_ifs <;> omega

/-- **A version survives the conversions**: through a timestamp and through its parts. -/
structure RoundTrips (v : UInt64) : Prop where
  version : (fromVersion v).version = v
  physical : (fromVersion v).physical = extractPhysical v
  logical : (fromVersion v).logical = extractLogical v
  compose : composeTs (extractPhysical v) (extractLogical v) = .ok v

lemma composeTs_extract (v : UInt64) :
    composeTs (extractPhysical v) (extractLogical v) = .ok v := by
  rw [composeTs, wideTs_extract, tryIntoU64_toNat]

lemma roundTrips_iff (v : UInt64) : RoundTrips v ↔ v.toNat ≤ lastSigned := by
  refine ⟨fun h => (physical_fromVersion_iff v).mp h.physical, fun h => ?_⟩
  refine ⟨?_, (physical_fromVersion_iff v).mpr h, rfl, composeTs_extract v⟩
  rw [version_fromVersion, if_pos h]

/-! ## Order -/

/-- The lexicographic comparison of the parts. -/
def compareParts (t u : Timestamp) : Ordering :=
  (compare t.physical u.physical).then (compare t.logical u.logical)

lemma compare_int64 (x y : Int64) : compare x y = compare x.toInt y.toInt := by
  rcases lt_trichotomy x.toInt y.toInt with h | h | h
  · rw [compare_lt_iff_lt.mpr h]
    exact if_pos (Int64.lt_iff_toInt_lt.mpr h)
  · rw [Int64.toInt_inj.mp h]
    simp
  · rw [compare_gt_iff_gt.mpr h]
    have hlt : ¬ x < y := fun h' => absurd (Int64.lt_iff_toInt_lt.mp h') (by omega)
    have hne : x ≠ y := fun h' => absurd (congrArg Int64.toInt h') (by omega)
    exact (if_neg hlt).trans (if_neg hne)

lemma compare_uint64 (v w : UInt64) : compare v w = compare v.toNat w.toNat := by
  rcases lt_trichotomy v.toNat w.toNat with h | h | h
  · rw [compare_lt_iff_lt.mpr h]
    exact if_pos (UInt64.lt_iff_toNat_lt.mpr h)
  · rw [UInt64.toNat_inj.mp h]
    simp
  · rw [compare_gt_iff_gt.mpr h]
    have hlt : ¬ v < w := fun h' => absurd (UInt64.lt_iff_toNat_lt.mp h') (by omega)
    have hne : v ≠ w := fun h' => absurd (congrArg UInt64.toNat h') (by omega)
    exact (if_neg hlt).trans (if_neg hne)

/-- Quotients and remainders compare lexicographically as the numbers do. -/
lemma compare_div_then_mod (x y : ℤ) :
    (compare (x / 2 ^ 18) (y / 2 ^ 18)).then (compare (x % 2 ^ 18) (y % 2 ^ 18)) =
      compare x y := by
  rcases lt_trichotomy (x / 2 ^ 18) (y / 2 ^ 18) with h | h | h
  · have hxy : x < y := by omega
    rw [compare_lt_iff_lt.mpr h, compare_lt_iff_lt.mpr hxy]
    rfl
  · have hmod : x % 2 ^ 18 = x - 2 ^ 18 * (y / 2 ^ 18) := by rw [Int.emod_def, h]
    rw [compare_eq_iff_eq.mpr h, hmod, Int.emod_def]
    rcases lt_trichotomy x y with hxy | rfl | hxy
    · rw [compare_lt_iff_lt.mpr hxy]
      exact compare_lt_iff_lt.mpr (by omega)
    · simp
    · rw [compare_gt_iff_gt.mpr hxy]
      exact compare_gt_iff_gt.mpr (by omega)
  · have hxy : y < x := by omega
    rw [compare_gt_iff_gt.mpr h, compare_gt_iff_gt.mpr hxy]
    rfl

/-- The parts compare as the versions do when they are read as signed numbers. -/
lemma compareParts_fromVersion (v w : UInt64) :
    compareParts (fromVersion v) (fromVersion w) = compare v.toInt64.toInt w.toInt64.toInt := by
  obtain ⟨hphysical, hlogical⟩ := toInt_fromVersion v
  obtain ⟨hphysical', hlogical'⟩ := toInt_fromVersion w
  rw [compareParts, compare_int64, compare_int64, hphysical, hphysical', hlogical, hlogical',
    compare_div_then_mod]

lemma compareParts_eq_iff (v w : UInt64) :
    compareParts (fromVersion v) (fromVersion w) = compare v w ↔
      (v.toNat ≤ lastSigned ↔ w.toNat ≤ lastSigned) := by
  have hv := v.toNat_lt
  have hw := w.toNat_lt
  rw [compareParts_fromVersion, compare_uint64, toInt_toInt64, toInt_toInt64, lastSigned]
  -- Only a version with the sign bit and one without it change their order.
  rcases lt_trichotomy v.toNat w.toNat with h | h | h
  · rw [compare_lt_iff_lt.mpr h, compare_lt_iff_lt]
    split_ifs <;> omega
  · rw [h]
    simp
  · rw [compare_gt_iff_gt.mpr h, compare_gt_iff_gt]
    split_ifs <;> omega

/-- **Versions and timestamps correspond below the sign bit.**  A version survives the conversions
exactly if it is at most `i64::MAX`, and the parts of two timestamps compare as their versions
exactly if both are, or neither is. -/
theorem roundTrips_iff_le_lastSigned (v w : UInt64) :
    (RoundTrips v ↔ v.toNat ≤ lastSigned) ∧
      (compareParts (fromVersion v) (fromVersion w) = compare v w ↔
        (v.toNat ≤ lastSigned ↔ w.toNat ≤ lastSigned)) :=
  ⟨roundTrips_iff v, compareParts_eq_iff v w⟩

/-- The version that means "latest" becomes version 0, and its parts come before those of 0. -/
theorem latest_version_becomes_zero :
    (fromVersion 0xffffffffffffffff).version = 0 ∧
      (fromVersion 0xffffffffffffffff).physical ≠ extractPhysical 0xffffffffffffffff ∧
      compare (0xffffffffffffffff : UInt64) 0 = .gt ∧
      compareParts (fromVersion 0xffffffffffffffff) (fromVersion 0) = .lt := by
  decide

end Timestamp

end TikvClient
