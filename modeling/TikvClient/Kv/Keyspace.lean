import TikvClient.Core.Lex
import TikvClient.Kv.BoundRange

/-!
# Keyspaces

A client with a keyspace puts four bytes in front of every key: the mode (raw or transactional) and
the low three bytes of the keyspace's id.  A range is encoded by its ends; without an upper end, the
encoding ends before the next four bytes.

**Isolation.**  `contains_encodeKeyspace_iff`: of the keys with at least four bytes, the encoded
range contains the encodings of the keys of the range, and nothing else.
-/

namespace TikvClient

inductive Keyspace where
  | disable
  | enable (keyspaceId : UInt32)
deriving DecidableEq

inductive KeyMode where
  | raw
  | txn
deriving DecidableEq

def keyspacePrefixLen : ℕ := 4

def maxKeyspaceId : ℕ := 2 ^ 24 - 1

/-- `RAW_KEY_PREFIX` and `TXN_KEY_PREFIX`. -/
def KeyMode.byte : KeyMode → UInt8
  | .raw => 0x72
  | .txn => 0x78

def toBeBytes (n : UInt32) : List UInt8 :=
  [(n >>> 24).toUInt8, (n >>> 16).toUInt8, (n >>> 8).toUInt8, n.toUInt8]

/-- The bytes in front of the keys of a keyspace. -/
def keyspacePrefix (keyspaceId : UInt32) (mode : KeyMode) : List UInt8 :=
  (toBeBytes keyspaceId).set 0 mode.byte

/-- The loop of `keyspace_end_prefix`, from the last byte on: add one, and go on if that
overflows. -/
def addOne : List UInt8 → List UInt8
  | [] => []
  | byte :: bytes =>
    if byte = 255 then (byte + 1) :: addOne bytes else (byte + 1) :: bytes

/-- The first bytes behind the keys of a keyspace. -/
def keyspaceEndPrefix (keyspaceId : UInt32) (mode : KeyMode) : List UInt8 :=
  (addOne (keyspacePrefix keyspaceId mode).reverse).reverse

/-- `encode_keyspace` of a key. -/
def Key.encodeKeyspace (k : Key) (keyspace : Keyspace) (mode : KeyMode) : Key :=
  match keyspace with
  | .disable => k
  | .enable keyspaceId => ⟨keyspacePrefix keyspaceId mode ++ k.bytes⟩

/-- `truncate_keyspace` of a key. -/
def Key.truncateKeyspace (k : Key) (keyspace : Keyspace) : Key :=
  match keyspace with
  | .disable => k
  | .enable _ => if k.len < keyspacePrefixLen then k else ⟨k.bytes.drop keyspacePrefixLen⟩

/-- The upper end of an encoded range that has none of its own. -/
def Keyspace.endKey (keyspace : Keyspace) (mode : KeyMode) : Key :=
  match keyspace with
  | .disable => .empty
  | .enable keyspaceId => ⟨keyspaceEndPrefix keyspaceId mode⟩

/-- `encode_keyspace` of a range. -/
def BoundRange.encodeKeyspace (r : BoundRange) (keyspace : Keyspace) (mode : KeyMode) :
    BoundRange where
  lower :=
    match r.lower with
    | .included key => .included (key.encodeKeyspace keyspace mode)
    | .excluded key => .excluded (key.encodeKeyspace keyspace mode)
    | .unbounded => .included (Key.empty.encodeKeyspace keyspace mode)
  upper :=
    match r.upper with
    | .included key =>
      if key.isEmpty then .excluded (keyspace.endKey mode)
      else .included (key.encodeKeyspace keyspace mode)
    | .excluded key =>
      if key.isEmpty then .excluded (keyspace.endKey mode)
      else .excluded (key.encodeKeyspace keyspace mode)
    | .unbounded => .excluded (keyspace.endKey mode)

/-! ## The bytes in front -/

section Front

variable {id id' : UInt32} {mode mode' : KeyMode}

@[simp] lemma length_keyspacePrefix (id : UInt32) (mode : KeyMode) :
    (keyspacePrefix id mode).length = keyspacePrefixLen := rfl

/-- Keyspaces with different ids or modes have different bytes in front. -/
lemma keyspacePrefix_inj (hid : id.toNat ≤ maxKeyspaceId) (hid' : id'.toNat ≤ maxKeyspaceId) :
    keyspacePrefix id mode = keyspacePrefix id' mode' ↔ id = id' ∧ mode = mode' := by
  refine ⟨fun h => ?_, fun ⟨hid, hmode⟩ => by rw [hid, hmode]⟩
  simp only [keyspacePrefix, toBeBytes, List.set_cons_zero, List.cons.injEq, and_true] at h
  obtain ⟨hmode, h₁, h₂, h₃⟩ := h
  constructor
  · -- Three bytes determine a number below `2 ^ 24`.
    apply UInt32.toNat.inj
    have h₁ := congrArg UInt8.toNat h₁
    have h₂ := congrArg UInt8.toNat h₂
    have h₃ := congrArg UInt8.toNat h₃
    simp only [UInt32.toNat_toUInt8, UInt32.toNat_shiftRight, UInt32.reduceToNat,
      Nat.shiftRight_eq_div_pow, Nat.reduceMod, Nat.reducePow] at h₁ h₂ h₃
    simp only [maxKeyspaceId, Nat.reducePow, Nat.reduceSub] at hid hid'
    omega
  · cases mode <;> cases mode' <;> first | rfl | exact absurd hmode (by decide)

lemma map_toNat_addOne (bytes : List UInt8) :
    (addOne bytes).map UInt8.toNat = Lex.carry 255 (bytes.map UInt8.toNat) := by
  induction bytes with
  | nil => rfl
  | cons byte bytes ih =>
    have hlt := byte.toNat_lt
    by_cases h : byte = 255
    · subst h
      simpa [addOne, Lex.carry] using ih
    · have hne : byte.toNat ≠ 255 := fun h' => h (UInt8.toNat.inj h')
      have hadd : (byte + 1).toNat = byte.toNat + 1 := by
        rw [UInt8.toNat_add, Nat.mod_eq_of_lt (by simp only [UInt8.reduceToNat]; omega)]
        rfl
      simp [addOne, Lex.carry, h, hne, hadd]

/-- **The bytes behind a keyspace are the next ones** after those in front of it. -/
lemma lt_keyspaceEndPrefix_iff {t : List UInt8} (ht : t.length = keyspacePrefixLen) :
    (⟨t⟩ : Key) < ⟨keyspaceEndPrefix id mode⟩ ↔ (⟨t⟩ : Key) ≤ ⟨keyspacePrefix id mode⟩ := by
  have hmode : ∃ d ∈ (keyspacePrefix id mode).reverse.map UInt8.toNat, d ≠ 255 := by
    refine ⟨mode.byte.toNat, List.mem_map_of_mem ?_, by cases mode <;> decide⟩
    simp [keyspacePrefix, toBeBytes]
  have hbyte : ∀ d ∈ t.map UInt8.toNat, d ≤ 255 := by
    intro d hd
    obtain ⟨b, -, rfl⟩ := List.mem_map.mp hd
    exact Nat.le_of_lt_succ b.toNat_lt
  have h := Lex.lt_reverse_carry_iff hmode (t.map UInt8.toNat) (by simpa using ht) hbyte
  rwa [← map_toNat_addOne, ← List.map_reverse, ← List.map_reverse, List.reverse_reverse] at h

lemma length_keyspaceEndPrefix (id : UInt32) (mode : KeyMode) :
    (keyspaceEndPrefix id mode).length = keyspacePrefixLen := by
  have h := congrArg List.length (map_toNat_addOne (keyspacePrefix id mode).reverse)
  simpa [keyspaceEndPrefix] using h

lemma isEmpty_endKey (id : UInt32) (mode : KeyMode) :
    (Keyspace.endKey (.enable id) mode).isEmpty = false := by
  rw [Key.isEmpty, Keyspace.endKey, List.isEmpty_eq_false_iff, ← List.length_pos_iff,
    length_keyspaceEndPrefix]
  decide

end Front

/-! ## Isolation -/

/-- Keys that begin with equally many bytes compare as these do, or as the rest does. -/
lemma Key.append_lt_append_iff {a b : List UInt8} (h : a.length = b.length) (k l : Key) :
    (⟨a ++ k.bytes⟩ : Key) < ⟨b ++ l.bytes⟩ ↔ (⟨a⟩ : Key) < ⟨b⟩ ∨ ((⟨a⟩ : Key) = ⟨b⟩ ∧ k < l) := by
  have hlex := Lex.append_lt_append_iff (a := a.map UInt8.toNat) (b := b.map UInt8.toNat)
    (c := k.digits) (d := l.digits) (by simpa using h)
  rw [Key.digits, Key.digits, ← List.map_append, ← List.map_append] at hlex
  rw [← Key.digits_injective.eq_iff (a := ⟨a⟩)]
  exact hlex

lemma Key.append_le_append_iff {a b : List UInt8} (h : a.length = b.length) (k l : Key) :
    (⟨a ++ k.bytes⟩ : Key) ≤ ⟨b ++ l.bytes⟩ ↔ (⟨a⟩ : Key) < ⟨b⟩ ∨ ((⟨a⟩ : Key) = ⟨b⟩ ∧ k ≤ l) := by
  rw [← not_lt, Key.append_lt_append_iff h.symm, ← not_lt (a := l)]
  rcases lt_trichotomy (⟨a⟩ : Key) ⟨b⟩ with hlt | heq | hgt
  · simp [hlt, hlt.not_gt, hlt.ne']
  · simp [heq]
  · simp [hgt, hgt.not_gt, hgt.ne']

/-- Truncation undoes the encoding. -/
@[simp] lemma Key.truncateKeyspace_encodeKeyspace (k : Key) (keyspace : Keyspace) (mode : KeyMode) :
    (k.encodeKeyspace keyspace mode).truncateKeyspace keyspace = k := by
  cases keyspace with
  | disable => rfl
  | enable id =>
    have hlen : ¬ (⟨keyspacePrefix id mode ++ k.bytes⟩ : Key).len < keyspacePrefixLen := by
      simp [Key.len]
    rw [Key.encodeKeyspace, Key.truncateKeyspace, if_neg hlen]
    exact congrArg Key.mk (List.drop_left' (length_keyspacePrefix id mode))

/-- The encoding keeps the order. -/
lemma Key.encodeKeyspace_lt_iff (k l : Key) (keyspace : Keyspace) (mode : KeyMode) :
    k.encodeKeyspace keyspace mode < l.encodeKeyspace keyspace mode ↔ k < l := by
  cases keyspace with
  | disable => rfl
  | enable id =>
    have h := Key.append_lt_append_iff (a := keyspacePrefix id mode) rfl k l
    simpa [Key.encodeKeyspace] using h

section Isolation

variable {id : UInt32} {mode : KeyMode} {r : BoundRange} {front : List UInt8} {k : Key}

/-- A key with at least four bytes is before the end of a keyspace if its first four are not after
those in front of the keyspace. -/
lemma append_lt_endKey_iff (id : UInt32) (mode : KeyMode) (k : Key)
    (hfront : front.length = keyspacePrefixLen) :
    (⟨front ++ k.bytes⟩ : Key) < Keyspace.endKey (.enable id) mode ↔
      (⟨front⟩ : Key) ≤ ⟨keyspacePrefix id mode⟩ := by
  have h := Key.append_lt_append_iff (hfront.trans (length_keyspaceEndPrefix id mode).symm) k .empty
  rw [or_iff_left (fun h => not_lt.mpr (Key.empty_le k) h.2), lt_keyspaceEndPrefix_iff hfront] at h
  simpa [Key.empty, Keyspace.endKey] using h

lemma startsBefore_encodeKeyspace_iff (hfront : front.length = keyspacePrefixLen) :
    (r.encodeKeyspace (.enable id) mode).lower.startsBefore ⟨front ++ k.bytes⟩ = true ↔
      (⟨keyspacePrefix id mode⟩ : Key) < ⟨front⟩ ∨
        (⟨keyspacePrefix id mode⟩ : Key) = ⟨front⟩ ∧ r.lower.startsBefore k = true := by
  have hlength : (keyspacePrefix id mode).length = front.length := hfront.symm
  obtain ⟨lower, upper⟩ := r
  cases lower with
  | included l =>
    simpa [BoundRange.encodeKeyspace, Key.encodeKeyspace, Bound.startsBefore] using
      Key.append_le_append_iff hlength l k
  | excluded l =>
    simpa [BoundRange.encodeKeyspace, Key.encodeKeyspace, Bound.startsBefore] using
      Key.append_lt_append_iff hlength l k
  | unbounded =>
    simpa [BoundRange.encodeKeyspace, Key.encodeKeyspace, Bound.startsBefore, Key.empty_le] using
      Key.append_le_append_iff hlength .empty k

lemma endsAfter_encodeKeyspace_iff (hfront : front.length = keyspacePrefixLen) :
    (r.encodeKeyspace (.enable id) mode).endBound.endsAfter ⟨front ++ k.bytes⟩ = true ↔
      (⟨front⟩ : Key) < ⟨keyspacePrefix id mode⟩ ∨
        (⟨front⟩ : Key) = ⟨keyspacePrefix id mode⟩ ∧ r.endBound.endsAfter k = true := by
  -- Encoded ends are not empty, so none of them is read as "no bound".
  have hkey : ∀ u : Key, (⟨keyspacePrefix id mode ++ u.bytes⟩ : Key).isEmpty = false := fun _ => rfl
  have hend := isEmpty_endKey id mode
  have hlength : front.length = (keyspacePrefix id mode).length := hfront
  have hnone := append_lt_endKey_iff id mode k hfront
  rw [le_iff_lt_or_eq] at hnone
  obtain ⟨lower, upper⟩ := r
  cases upper with
  | included u =>
    by_cases hu : u.isEmpty = true
    · simpa [BoundRange.encodeKeyspace, BoundRange.endBound, Bound.endsAfter, hu, hend] using hnone
    · simpa [BoundRange.encodeKeyspace, BoundRange.endBound, Bound.endsAfter, hu,
        Key.encodeKeyspace, hkey] using Key.append_le_append_iff hlength k u
  | excluded u =>
    by_cases hu : u.isEmpty = true
    · simpa [BoundRange.encodeKeyspace, BoundRange.endBound, Bound.endsAfter, hu, hend] using hnone
    · simpa [BoundRange.encodeKeyspace, BoundRange.endBound, Bound.endsAfter, hu,
        Key.encodeKeyspace, hkey] using Key.append_lt_append_iff hlength k u
  | unbounded =>
    simpa [BoundRange.encodeKeyspace, BoundRange.endBound, Bound.endsAfter, hend] using hnone

/-- **What an encoded range contains**, of the keys with at least four bytes. -/
lemma contains_encodeKeyspace_append (hfront : front.length = keyspacePrefixLen) :
    (r.encodeKeyspace (.enable id) mode).contains ⟨front ++ k.bytes⟩ = true ↔
      front = keyspacePrefix id mode ∧ r.contains k = true := by
  rw [BoundRange.contains, Bool.and_eq_true, startsBefore_encodeKeyspace_iff hfront,
    endsAfter_encodeKeyspace_iff hfront, BoundRange.contains, Bool.and_eq_true]
  rcases lt_trichotomy (⟨front⟩ : Key) ⟨keyspacePrefix id mode⟩ with hlt | heq | hgt
  · have hne : front ≠ keyspacePrefix id mode := fun h => hlt.ne (congrArg Key.mk h)
    simp [hlt.not_gt, hlt.ne', hne]
  · simp [Key.mk.inj heq]
  · have hne : front ≠ keyspacePrefix id mode := fun h => hgt.ne' (congrArg Key.mk h)
    simp [hgt.not_gt, hgt.ne', hne]

/-- **Of the stored keys, an encoded range contains the encodings of the keys of the range.** -/
lemma contains_encodeKeyspace_enable_iff (id : UInt32) (mode : KeyMode) (r : BoundRange) {e : Key}
    (he : keyspacePrefixLen ≤ e.len) :
    (r.encodeKeyspace (.enable id) mode).contains e = true ↔
      ∃ k : Key, e = k.encodeKeyspace (.enable id) mode ∧ r.contains k = true := by
  obtain ⟨bytes⟩ := e
  have hsplit : (⟨bytes⟩ : Key) = ⟨bytes.take keyspacePrefixLen ++
      (⟨bytes.drop keyspacePrefixLen⟩ : Key).bytes⟩ := by rw [List.take_append_drop]
  rw [hsplit, contains_encodeKeyspace_append (List.length_take_of_le he)]
  constructor
  · rintro ⟨hfront, hk⟩
    exact ⟨_, by rw [hfront]; rfl, hk⟩
  · rintro ⟨k, heq, hk⟩
    obtain ⟨hfront, hrest⟩ := List.append_inj (Key.mk.inj heq) (List.length_take_of_le he)
    rw [show (⟨bytes.drop keyspacePrefixLen⟩ : Key) = k from congrArg Key.mk hrest]
    exact ⟨hfront, hk⟩

/-- **Ranges stay in their keyspace.**  Of the stored keys, an encoded range contains the encodings
of the keys of the range and nothing else; so it contains the encoding of no key of another keyspace
or mode. -/
theorem contains_encodeKeyspace_iff (id : UInt32) (mode : KeyMode) (r : BoundRange) :
    (∀ e : Key, keyspacePrefixLen ≤ e.len →
      ((r.encodeKeyspace (.enable id) mode).contains e = true ↔
        ∃ k : Key, e = k.encodeKeyspace (.enable id) mode ∧ r.contains k = true)) ∧
      ∀ (id' : UInt32) (mode' : KeyMode) (k : Key), id.toNat ≤ maxKeyspaceId →
        id'.toNat ≤ maxKeyspaceId →
        ((r.encodeKeyspace (.enable id) mode).contains
            (k.encodeKeyspace (.enable id') mode') = true ↔
          id = id' ∧ mode = mode' ∧ r.contains k = true) := by
  refine ⟨fun e he => contains_encodeKeyspace_enable_iff id mode r he,
    fun id' mode' k hid hid' => ?_⟩
  refine (contains_encodeKeyspace_append (length_keyspacePrefix id' mode')).trans ?_
  rw [keyspacePrefix_inj hid' hid, and_assoc, eq_comm, eq_comm (a := mode')]

/-- At the last id, the end of an unbounded range carries into the byte of the mode. -/
theorem unbounded_stays_in_last_keyspace :
    (BoundRange.encodeKeyspace ⟨.unbounded, .unbounded⟩ (.enable 0xffffff) .raw).contains
        ⟨[0x72, 0xff, 0xff, 0xff, 0xff]⟩ = true ∧
      (BoundRange.encodeKeyspace ⟨.unbounded, .unbounded⟩ (.enable 0xffffff) .raw).contains
        (Key.encodeKeyspace ⟨[1]⟩ (.enable 0) .txn) = false := by
  obtain ⟨hstored, hothers⟩ :=
    contains_encodeKeyspace_iff 0xffffff .raw ⟨.unbounded, .unbounded⟩
  refine ⟨(hstored _ (by decide)).mpr ⟨⟨[0xff]⟩, rfl, rfl⟩, ?_⟩
  rw [Bool.eq_false_iff, ne_eq, hothers 0 .txn ⟨[1]⟩ (by decide) (by decide)]
  decide

/-- The keys that are stored when the keyspace is in use: with keyspaces, every key has one. -/
def Keyspace.Stored : Keyspace → Key → Prop
  | .disable, _ => True
  | .enable _, e => keyspacePrefixLen ≤ e.len

/-- **The stored keys of an encoded range**, in any keyspace or none. -/
lemma contains_encodeKeyspace_stored_iff (keyspace : Keyspace) (mode : KeyMode) (r : BoundRange)
    {e : Key} (he : keyspace.Stored e) :
    (r.encodeKeyspace keyspace mode).contains e = true ↔
      ∃ k : Key, e = k.encodeKeyspace keyspace mode ∧ r.contains k = true := by
  cases keyspace with
  | enable id => exact contains_encodeKeyspace_enable_iff id mode r he
  | disable =>
    have hlower : (r.encodeKeyspace .disable mode).lower.startsBefore e =
        r.lower.startsBefore e := by
      obtain ⟨lower, upper⟩ := r
      cases lower <;>
        simp [BoundRange.encodeKeyspace, Key.encodeKeyspace, Bound.startsBefore, Key.empty_le]
    have hempty : Key.empty.isEmpty = true := rfl
    have hend : (r.encodeKeyspace .disable mode).endBound = r.endBound := by
      obtain ⟨lower, upper⟩ := r
      cases upper with
      | included u | excluded u =>
        by_cases hu : u.isEmpty = true <;>
          simp [BoundRange.encodeKeyspace, BoundRange.endBound, Key.encodeKeyspace,
            Keyspace.endKey, hu, hempty]
      | unbounded => rfl
    rw [BoundRange.contains, hlower, hend]
    refine ⟨fun h => ⟨e, rfl, h⟩, ?_⟩
    rintro ⟨k, rfl, h⟩
    exact h

end Isolation

end TikvClient
