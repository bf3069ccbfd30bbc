import Mathlib.Tactic.IntervalCases
import TikvClient.Common.Errors
import TikvClient.Core.Lex

/-!
# The memory-comparable encoding of keys

PD knows keys in an encoding that no key is a prefix of another in, and that keeps their order: a
key is cut into groups of eight bytes, the last one padded, and each group is followed by a marker
that says how much of it is padding.

**Encoding and decoding.**  `encodeBytes` and `decodeBytesInPlace` follow the loops of the code; the
decoder is an exact inverse (`decodeBytesInPlace_encodeBytes`).

**Order.**  `toEncoded_lt_iff`: keys compare as their encodings do.
-/

namespace TikvClient

namespace Codec

def encGroupSize : ℕ := 8

def encMarker : UInt8 := 0xff

def maxEncodedBytesSize (n : ℕ) : ℕ := (n / encGroupSize + 1) * (encGroupSize + 1)

/-- Descending encodings have every byte complemented. -/
def adjustBytesOrder (bs : List UInt8) (desc : Bool) : List UInt8 :=
  if desc then bs.map (~~~ ·) else bs

/-- `ENC_ASC_PADDING[..pad]` and `ENC_DESC_PADDING[..pad]`. -/
def encPadding (desc : Bool) (pad : ℕ) : List UInt8 :=
  List.replicate pad (if desc then ~~~ 0 else 0)

/-- One turn of the loop of `encode_bytes`, at the bytes that remain. -/
def encodeGroup (rest : List UInt8) (desc : Bool) : List UInt8 :=
  let remain := rest.length
  if remain > encGroupSize then
    adjustBytesOrder (rest.take encGroupSize) desc ++ adjustBytesOrder [encMarker] desc
  else
    let pad := encGroupSize - remain
    adjustBytesOrder rest desc ++ encPadding desc pad ++
      adjustBytesOrder [encMarker - UInt8.ofNat pad] desc

/-- **Encode a key.**  The loop's index takes the multiples of the group size up to the length of
the key, so a key that ends with a full group is followed by a group of padding. -/
def encodeBytes (key : List UInt8) (desc : Bool) : List UInt8 :=
  (List.range (key.length / encGroupSize + 1)).flatMap fun i =>
    encodeGroup (key.drop (encGroupSize * i)) desc

/-- The loop of `decode_bytes_in_place`: `written` are the bytes that were copied to the front of
`data`, and `rest` those that were not read; copying never reaches them. -/
def decodeLoop (data : List UInt8) (desc : Bool) (written rest : List UInt8) :
    Except Error (List UInt8) :=
  match _hdrop : rest.drop encGroupSize with
  | [] =>
    let data := written ++ data.drop written.length
    .error (.internalError s!"unexpected EOF, original key = {data}")
  | marker :: rest' =>
    let written := written ++ rest.take encGroupSize
    let padSize := if desc then marker.toNat else (encMarker - marker).toNat
    if padSize > 0 then
      if padSize > encGroupSize then .error (.internalError "invalid key padding")
      else if written.drop (written.length - padSize) ≠ encPadding desc padSize then
        .error (.internalError "invalid key padding")
      else .ok (adjustBytesOrder (written.take (written.length - padSize)) desc)
    else decodeLoop data desc written rest'
termination_by rest.length
decreasing_by
  have hlen := congrArg List.length _hdrop
  simp only [List.length_drop, List.length_cons] at hlen
  omega

/-- **Decode a key**; the empty key stands for itself. -/
def decodeBytesInPlace (data : List UInt8) (desc : Bool) : Except Error (List UInt8) :=
  if data.isEmpty then .ok [] else decodeLoop data desc [] data

/-! ## The encoding, group by group -/

variable {key group rest : List UInt8} {desc : Bool}

@[simp] lemma length_adjustBytesOrder (bs : List UInt8) (desc : Bool) :
    (adjustBytesOrder bs desc).length = bs.length := by
  cases desc <;> simp [adjustBytesOrder]

@[simp] lemma adjustBytesOrder_append (bs cs : List UInt8) (desc : Bool) :
    adjustBytesOrder (bs ++ cs) desc = adjustBytesOrder bs desc ++ adjustBytesOrder cs desc := by
  cases desc <;> simp [adjustBytesOrder]

@[simp] lemma adjustBytesOrder_adjustBytesOrder (bs : List UInt8) (desc : Bool) :
    adjustBytesOrder (adjustBytesOrder bs desc) desc = bs := by
  cases desc <;> simp [adjustBytesOrder, Function.comp_def]

lemma encodeBytes_of_lt (h : key.length < encGroupSize) :
    encodeBytes key desc = adjustBytesOrder key desc ++
      encPadding desc (encGroupSize - key.length) ++
      adjustBytesOrder [encMarker - UInt8.ofNat (encGroupSize - key.length)] desc := by
  rw [encodeBytes, Nat.div_eq_of_lt h]
  simp [encodeGroup, not_lt.mpr h.le]

lemma groups_append (h : group.length = encGroupSize) :
    (group ++ rest).length / encGroupSize = rest.length / encGroupSize + 1 := by
  rw [List.length_append, h, Nat.add_comm, Nat.add_div_right _ (by decide)]

lemma encodeBytes_append (h : group.length = encGroupSize) :
    encodeBytes (group ++ rest) desc =
      adjustBytesOrder group desc ++ adjustBytesOrder [encMarker] desc ++
        encodeBytes rest desc := by
  have hgroup : encodeGroup (group ++ rest) desc =
      adjustBytesOrder group desc ++ adjustBytesOrder [encMarker] desc := by
    unfold encodeGroup
    dsimp only
    split_ifs with hlong
    · rw [← h, List.take_left]
    · obtain rfl : rest = [] := by
        rw [List.length_append, h] at hlong
        exact List.length_eq_zero_iff.mp (by omega)
      simp [h, encPadding]
  rw [encodeBytes, groups_append h, List.range_succ_eq_map, List.flatMap_cons, List.flatMap_map,
    Nat.mul_zero, List.drop_zero, hgroup]
  congr 1
  refine List.flatMap_congr fun i _ => ?_
  rw [Nat.mul_succ, Nat.add_comm, ← List.drop_drop, ← h, List.drop_left]

/-- Keys are made of full groups and a short rest. -/
theorem groups_induction {P : List UInt8 → Prop} (short : ∀ key, key.length < encGroupSize → P key)
    (long : ∀ group rest, group.length = encGroupSize → P rest → P (group ++ rest)) :
    ∀ key, P key := by
  intro key
  induction hn : key.length using Nat.strong_induction_on generalizing key with
  | _ n ih =>
    subst hn
    by_cases h : key.length < encGroupSize
    · exact short key h
    · rw [← List.take_append_drop encGroupSize key]
      refine long _ _ (List.length_take_of_le (not_lt.mp h)) (ih _ ?_ _ rfl)
      rw [List.length_drop]
      have : 0 < encGroupSize := by decide
      omega

/-! ## Decoding -/

lemma decodeLoop_group {data written : List UInt8} {marker : UInt8}
    (h : group.length = encGroupSize) :
    decodeLoop data desc written (group ++ marker :: rest) =
      let padSize := if desc then marker.toNat else (encMarker - marker).toNat
      if padSize > 0 then
        if padSize > encGroupSize then .error (.internalError "invalid key padding")
        else if (written ++ group).drop ((written ++ group).length - padSize) ≠
            encPadding desc padSize then
          .error (.internalError "invalid key padding")
        else .ok (adjustBytesOrder
          ((written ++ group).take ((written ++ group).length - padSize)) desc)
      else decodeLoop data desc (written ++ group) rest := by
  have hdrop : (group ++ marker :: rest).drop encGroupSize = marker :: rest := by
    rw [← h, List.drop_left]
  have htake : (group ++ marker :: rest).take encGroupSize = group := by
    rw [← h, List.take_left]
  rw [decodeLoop]
  split
  next hnil =>
    rw [hdrop] at hnil
    cases hnil
  next marker' rest' hcons =>
    rw [hdrop] at hcons
    cases hcons
    rw [htake]

lemma padSize_marker {pad : ℕ} (hpad : pad ≤ encGroupSize) (desc : Bool) :
    ∃ marker, adjustBytesOrder [encMarker - UInt8.ofNat pad] desc = [marker] ∧
      (if desc then marker.toNat else (encMarker - marker).toNat) = pad := by
  have hpad' : pad ≤ 8 := hpad
  cases desc with
  | true | false => exact ⟨_, rfl, by interval_cases pad <;> rfl⟩

lemma decodeLoop_encodeBytes (data tail : List UInt8) (desc : Bool) (key : List UInt8) :
    ∀ written, decodeLoop data desc written (encodeBytes key desc ++ tail) =
      .ok (adjustBytesOrder written desc ++ key) := by
  induction key using groups_induction with
  | short key hkey =>
    intro written
    obtain ⟨marker, hmarker, hpad⟩ := padSize_marker (Nat.sub_le encGroupSize key.length) desc
    have hgroup : (adjustBytesOrder key desc ++
        encPadding desc (encGroupSize - key.length)).length = encGroupSize := by
      simp only [List.length_append, length_adjustBytesOrder, encPadding, List.length_replicate]
      omega
    rw [encodeBytes_of_lt hkey, hmarker, List.append_assoc, List.singleton_append,
      decodeLoop_group hgroup]
    dsimp only
    have hwritten : (written ++ (adjustBytesOrder key desc ++
        encPadding desc (encGroupSize - key.length))).length - (encGroupSize - key.length) =
        (written ++ adjustBytesOrder key desc).length := by
      simp only [List.length_append, length_adjustBytesOrder, encPadding, List.length_replicate]
      omega
    rw [hpad, if_pos (by omega), if_neg (by omega), hwritten, ← List.append_assoc,
      List.drop_left, List.take_left, if_neg (not_not.mpr rfl)]
    simp
  | long group rest hgroup ih =>
    intro written
    obtain ⟨marker, hmarker, hpad⟩ := padSize_marker (Nat.zero_le encGroupSize) desc
    have hmarker' : adjustBytesOrder [encMarker] desc = [marker] := hmarker
    have hlength : (adjustBytesOrder group desc).length = encGroupSize := by simpa using hgroup
    rw [encodeBytes_append hgroup, hmarker', List.append_assoc, List.append_assoc,
      List.singleton_append, decodeLoop_group hlength]
    dsimp only
    rw [hpad, if_neg (by omega), ih]
    simp

lemma encodeBytes_ne_nil (key : List UInt8) (desc : Bool) : encodeBytes key desc ≠ [] := by
  induction key using groups_induction with
  | short key hkey =>
    rw [encodeBytes_of_lt hkey]
    cases desc <;> simp [adjustBytesOrder]
  | long group rest hgroup _ =>
    rw [encodeBytes_append hgroup]
    cases desc <;> simp [adjustBytesOrder]

/-- **Decoding is the inverse of encoding.** -/
theorem decodeBytesInPlace_encodeBytes (key : List UInt8) (desc : Bool) :
    decodeBytesInPlace (encodeBytes key desc) desc = .ok key := by
  have h := decodeLoop_encodeBytes (encodeBytes key desc) [] desc key []
  rw [List.append_nil] at h
  rw [decodeBytesInPlace, if_neg (by simpa using encodeBytes_ne_nil key desc), h]
  cases desc <;> rfl

/-! ## Order -/

/-- The bytes of an ascending encoding, as numbers. -/
def encDigits (key : List UInt8) : List ℕ := (encodeBytes key false).map UInt8.toNat

lemma encDigits_of_lt (h : key.length < encGroupSize) :
    encDigits key = Lex.padMark encGroupSize 247 (key.map UInt8.toNat) := by
  have hmarker :
      (encMarker - UInt8.ofNat (encGroupSize - key.length)).toNat = 247 + key.length := by
    have h' : key.length < 8 := h
    rw [encGroupSize]
    interval_cases key.length <;> rfl
  rw [encDigits, encodeBytes_of_lt h]
  simp [adjustBytesOrder, encPadding, Lex.padMark, hmarker]

lemma encDigits_append (h : group.length = encGroupSize) :
    encDigits (group ++ rest) =
      Lex.padMark encGroupSize 247 (group.map UInt8.toNat) ++ encDigits rest := by
  rw [encDigits, encodeBytes_append h, encDigits]
  simp [adjustBytesOrder, Lex.padMark, h, encMarker, encGroupSize]

/-- An encoding is its first group, with the marker, and the encoding of the rest, if there is
one. -/
lemma encDigits_eq (key : List UInt8) :
    encDigits key = Lex.padMark encGroupSize 247 ((key.map UInt8.toNat).take encGroupSize) ++
      if key.length < encGroupSize then [] else encDigits (key.drop encGroupSize) := by
  split_ifs with h
  · rw [encDigits_of_lt h, List.take_of_length_le (by simpa using h.le), List.append_nil]
  · have hgroup := List.length_take_of_le (not_lt.mp h)
    conv_lhs => rw [← List.take_append_drop encGroupSize key]
    rw [encDigits_append hgroup, List.map_take]

/-- **The encoding keeps the order.** -/
theorem encDigits_lt_iff (a b : List UInt8) :
    encDigits a < encDigits b ↔ a.map UInt8.toNat < b.map UInt8.toNat := by
  induction hn : a.length using Nat.strong_induction_on generalizing a b with
  | _ n ih =>
    subst hn
    have hlength : ∀ key : List UInt8, ((key.map UInt8.toNat).take encGroupSize).length ≤
        encGroupSize := fun key => by simp
    -- Compare the first groups with their markers, and then what follows.
    have htake : ∀ key : List UInt8, (encDigits key).take (encGroupSize + 1) =
        Lex.padMark encGroupSize 247 ((key.map UInt8.toNat).take encGroupSize) := fun key => by
      rw [encDigits_eq, ← Lex.length_padMark (hlength key), List.take_left]
    have hdrop : ∀ key : List UInt8, (encDigits key).drop (encGroupSize + 1) =
        if key.length < encGroupSize then [] else encDigits (key.drop encGroupSize) :=
      fun key => by
      rw [encDigits_eq, ← Lex.length_padMark (hlength key), List.drop_left]
    rw [Lex.lt_iff_take_drop (encGroupSize + 1), htake, htake, hdrop, hdrop,
      Lex.padMark_lt_iff (hlength a) (hlength b), Lex.padMark_inj (hlength a) (hlength b),
      Lex.lt_iff_take_drop encGroupSize (a.map UInt8.toNat)]
    refine or_congr_right (and_congr_right fun heq => ?_)
    have hiff : a.length < encGroupSize ↔ b.length < encGroupSize := by
      have := congrArg List.length heq
      simp only [List.length_take, List.length_map] at this
      omega
    by_cases ha : a.length < encGroupSize
    · rw [if_pos ha, if_pos (hiff.mp ha), List.drop_eq_nil_of_le (by simpa using ha.le),
        List.drop_eq_nil_of_le (by simpa using (hiff.mp ha).le)]
    · rw [if_neg ha, if_neg (hiff.not.mp ha), ← List.map_drop, ← List.map_drop]
      refine ih _ ?_ _ _ rfl
      rw [List.length_drop]
      have : 0 < encGroupSize := by decide
      omega

end Codec

namespace Key

/-- The encoded representation of a key (`to_encoded`). -/
def toEncoded (k : Key) : Key := ⟨Codec.encodeBytes k.bytes false⟩

/-- **Keys compare as their encodings do.** -/
theorem toEncoded_lt_iff (j k : Key) : j.toEncoded < k.toEncoded ↔ j < k :=
  Codec.encDigits_lt_iff j.bytes k.bytes

theorem toEncoded_le_iff (j k : Key) : j.toEncoded ≤ k.toEncoded ↔ j ≤ k := by
  rw [← not_lt, toEncoded_lt_iff, not_lt]

end Key

end TikvClient
