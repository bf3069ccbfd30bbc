import TikvClient.Kv.Codec

/-!
# The codec, exactly

**In place.**  `decode_bytes_in_place` moves the groups of a key to the front of the buffer they are
read from.  `decodeInPlace` has the buffer and its two offsets, and panics where the code would;
`decodeInPlace_eq` says that it computes what the decoder on lists computes, so it never does.

**Inverse.**  `decodeLoop_eq_ok_iff` inverts the decoder: what it accepts begins with the encoding
of what it returns.

**Order.**  The ascending encoding keeps the order of the keys.  The descending one is its
complement (`encodeBytes_desc`), and complements compare the other way as long as the first
difference is a byte of both — which it is, since no encoding is a prefix of another.
-/

namespace TikvClient.Codec

/-! ## Decoding in place -/

/-- `copy_within(src..src + n, dest)`. -/
def copyWithin (data : List UInt8) (src n dest : ℕ) : Except Error (List UInt8) :=
  if src + n ≤ data.length ∧ dest + n ≤ data.length then
    .ok (data.take dest ++ (data.drop src).take n ++ data.drop (dest + n))
  else .error (.panicked "range out of bounds for slice")

/-- `&data[start..stop]`, where `start` is computed as `stop - n`. -/
def sliceBack (data : List UInt8) (stop n : ℕ) : Except Error (List UInt8) :=
  if n ≤ stop ∧ stop ≤ data.length then .ok ((data.drop (stop - n)).take n)
  else .error (.panicked "range out of bounds for slice")

variable {data written : List UInt8} {n : ℕ}

lemma length_of_copyWithin {data' : List UInt8} {src dest : ℕ}
    (h : copyWithin data src n dest = .ok data') : data'.length = data.length := by
  unfold copyWithin at h
  split_ifs at h with hbounds
  cases h
  simp only [List.length_append, List.length_take, List.length_drop]
  omega

/-- The loop of `decode_bytes_in_place`, on the buffer. -/
def decodeInPlaceLoop (desc : Bool) (data : List UInt8) (writeOffset readOffset : ℕ) :
    Except Error (List UInt8) :=
  let markerOffset := readOffset + encGroupSize
  if markerOffset ≥ data.length then
    .error (.internalError s!"unexpected EOF, original key = {data}")
  else
    match _hcopy : copyWithin data readOffset encGroupSize writeOffset with
    | .error e => .error e
    | .ok data' =>
      let writeOffset := writeOffset + encGroupSize
      match data'[markerOffset]? with
      | none => .error (.panicked "index out of bounds")
      | some marker =>
        let padSize := if desc then marker.toNat else (encMarker - marker).toNat
        if padSize > 0 then
          if padSize > encGroupSize then .error (.internalError "invalid key padding")
          else
            match sliceBack data' writeOffset padSize with
            | .error e => .error e
            | .ok padding =>
              if padding ≠ encPadding desc padSize then
                .error (.internalError "invalid key padding")
              else .ok (adjustBytesOrder (data'.take (writeOffset - padSize)) desc)
        else decodeInPlaceLoop desc data' writeOffset (readOffset + (encGroupSize + 1))
termination_by data.length - readOffset
decreasing_by
  rw [length_of_copyWithin _hcopy]
  omega

/-- **`decode_bytes_in_place`.** -/
def decodeInPlace (data : List UInt8) (desc : Bool) : Except Error (List UInt8) :=
  if data.isEmpty then .ok [] else decodeInPlaceLoop desc data 0 0

variable {desc : Bool}

lemma drop_written (h : written.length ≤ n) :
    (written ++ data.drop written.length).drop n = data.drop n := by
  rw [List.drop_append, List.drop_eq_nil_of_le h, List.nil_append, List.drop_drop]
  congr 1
  omega

/-- Copying a group to the end of what was written. -/
lemma copyWithin_group {readOffset : ℕ}
    (hoffsets : written.length ≤ readOffset) (hlen : readOffset + encGroupSize ≤ data.length) :
    copyWithin (written ++ data.drop written.length) readOffset encGroupSize written.length =
      .ok ((written ++ (data.drop readOffset).take encGroupSize) ++
        data.drop (written.length + encGroupSize)) := by
  rw [copyWithin, if_pos (by simp only [List.length_append, List.length_drop]; omega),
    List.take_left, drop_written hoffsets, drop_written (Nat.le_add_right _ _)]

lemma sliceBack_append {rest : List UInt8} (h : n ≤ written.length) :
    sliceBack (written ++ rest) written.length n = .ok (written.drop (written.length - n)) := by
  rw [sliceBack, if_pos ⟨h, by simp⟩, List.drop_append_of_le_length (Nat.sub_le _ _),
    List.take_append_of_le_length (by simp only [List.length_drop]; omega),
    List.take_of_length_le (by simp only [List.length_drop]; omega)]

/-- One turn of the loop in place, at a group with its marker: as `decodeLoop_group`. -/
lemma decodeInPlaceLoop_group {readOffset : ℕ} {marker : UInt8}
    (hoffsets : written.length ≤ readOffset)
    (hmarker : data[readOffset + encGroupSize]? = some marker) :
    let group := (data.drop readOffset).take encGroupSize
    let padSize := if desc then marker.toNat else (encMarker - marker).toNat
    decodeInPlaceLoop desc (written ++ data.drop written.length) written.length readOffset =
      if padSize > 0 then
        if padSize > encGroupSize then .error (.internalError "invalid key padding")
        else if (written ++ group).drop ((written ++ group).length - padSize) ≠
            encPadding desc padSize then
          .error (.internalError "invalid key padding")
        else .ok (adjustBytesOrder
          ((written ++ group).take ((written ++ group).length - padSize)) desc)
      else decodeInPlaceLoop desc ((written ++ group) ++ data.drop (written ++ group).length)
        (written ++ group).length (readOffset + (encGroupSize + 1)) := by
  intro group padSize
  have hlen : readOffset + encGroupSize < data.length := (List.getElem?_eq_some_iff.mp hmarker).1
  have hgroup : (written ++ group).length = written.length + encGroupSize := by
    simp only [group, List.length_append, List.length_take, List.length_drop]
    omega
  rw [decodeInPlaceLoop]
  dsimp only
  rw [if_neg (by simp only [List.length_append, List.length_drop]; omega)]
  have hcopied := copyWithin_group hoffsets hlen.le
  split
  next e hcopy =>
    rw [hcopied] at hcopy
    cases hcopy
  next data' hcopy =>
    rw [hcopied, ← hgroup] at hcopy
    cases hcopy
    -- The marker lies behind the group that was copied.
    have hbehind : ((written ++ group) ++ data.drop (written ++ group).length)[
        readOffset + encGroupSize]? = some marker := by
      rw [← hmarker, List.getElem?_append_right (by omega), List.getElem?_drop]
      congr 1
      omega
    rw [hbehind]
    dsimp only
    rw [← hgroup]
    by_cases hbig : padSize > encGroupSize
    · rw [if_pos hbig, if_pos hbig]
    · have hpad : padSize ≤ (written ++ group).length := by omega
      rw [if_neg hbig, if_neg hbig, sliceBack_append hpad]
      dsimp only
      rw [List.take_append_of_le_length (Nat.sub_le _ _)]

/-- **The loop in place is the loop on lists**: the buffer is what was written, and then the data
as it was. -/
lemma decodeInPlaceLoop_eq (data : List UInt8) (desc : Bool) (written : List UInt8)
    (readOffset : ℕ) (hoffsets : written.length ≤ readOffset) :
    decodeInPlaceLoop desc (written ++ data.drop written.length) written.length readOffset =
      decodeLoop data desc written (data.drop readOffset) := by
  induction hn : data.length - readOffset using Nat.strong_induction_on
    generalizing written readOffset with
  | _ n ih =>
    subst hn
    by_cases hlen : readOffset + encGroupSize < data.length
    · -- The group, its marker and the rest, as the loop on lists reads them.
      obtain ⟨marker, hmarker⟩ : ∃ marker, data[readOffset + encGroupSize]? = some marker :=
        ⟨_, List.getElem?_eq_getElem hlen⟩
      have hgroup : ((data.drop readOffset).take encGroupSize).length = encGroupSize := by
        simp only [List.length_take, List.length_drop]
        omega
      have hread : data.drop readOffset = (data.drop readOffset).take encGroupSize ++
          marker :: data.drop (readOffset + (encGroupSize + 1)) := by
        have hdrop := List.drop_eq_getElem?_toList_append (l := data)
          (i := readOffset + encGroupSize)
        rw [hmarker, Option.toList_some, List.singleton_append, Nat.add_assoc] at hdrop
        rw [← hdrop, ← List.drop_drop, List.take_append_drop]
      rw [decodeInPlaceLoop_group hoffsets hmarker, hread, decodeLoop_group hgroup]
      rw [← hread, ih _ (by omega) _ _ (by rw [List.length_append]; omega) rfl]
    · -- No marker is left.
      have hnil : (data.drop readOffset).drop encGroupSize = [] := by
        rw [List.drop_drop]
        exact List.drop_eq_nil_of_le (by omega)
      rw [decodeInPlaceLoop, decodeLoop]
      dsimp only
      rw [if_pos (by simp only [List.length_append, List.length_drop]; omega)]
      split
      · rfl
      next hcons =>
        rw [hnil] at hcons
        cases hcons

/-- **Decoding in place is decoding.** -/
theorem decodeInPlace_eq (data : List UInt8) (desc : Bool) :
    decodeInPlace data desc = decodeBytesInPlace data desc := by
  unfold decodeInPlace decodeBytesInPlace
  split_ifs
  · rfl
  · exact decodeInPlaceLoop_eq data desc [] 0 le_rfl

/-! ## What the decoder accepts -/

/-- The marker is recovered from the size of the padding it stands for. -/
lemma marker_of_padSize (marker : UInt8) (desc : Bool) :
    adjustBytesOrder
      [encMarker - UInt8.ofNat (if desc then marker.toNat else (encMarker - marker).toNat)] desc =
      [marker] := by
  cases desc with
  | false =>
    have hsub : encMarker - (encMarker - marker) = marker := by grind
    simp [adjustBytesOrder, hsub]
  | true =>
    -- The complement of `0xff - marker` is the marker.
    have hnot : ~~~(encMarker - marker) = marker := by
      have hlt := marker.toNat_lt
      apply UInt8.toNat.inj
      rw [UInt8.toNat_not, UInt8.toNat_sub_of_le _ _ (UInt8.le_iff_toNat_le.mpr (by
        simp only [encMarker, UInt8.reduceToNat]; omega))]
      simp only [encMarker, UInt8.reduceToNat, UInt8.size]
      omega
    simp [adjustBytesOrder, hnot]

/-- A group that ends with the padding its marker stands for is the encoding of what comes before
the padding. -/
lemma encodeBytes_of_padding {group : List UInt8} {marker : UInt8} {pad : ℕ}
    (hgroup : group.length = encGroupSize) (hpos : 0 < pad) (hle : pad ≤ encGroupSize)
    (hmarker : (if desc then marker.toNat else (encMarker - marker).toNat) = pad)
    (hpadding : group.drop (encGroupSize - pad) = encPadding desc pad) :
    encodeBytes (adjustBytesOrder (group.take (encGroupSize - pad)) desc) desc =
      group ++ [marker] := by
  have hlength : (adjustBytesOrder (group.take (encGroupSize - pad)) desc).length =
      encGroupSize - pad := by
    rw [length_adjustBytesOrder, List.length_take]
    omega
  rw [encodeBytes_of_lt (by omega), hlength, adjustBytesOrder_adjustBytesOrder,
    Nat.sub_sub_self hle, ← hpadding, List.take_append_drop, ← hmarker, marker_of_padSize]

/-- **The decoder, inverted**: it accepts what begins with an encoding, and returns the key of
that encoding. -/
theorem decodeLoop_eq_ok_iff (data : List UInt8) (desc : Bool) (written rest key : List UInt8) :
    decodeLoop data desc written rest = .ok key ↔
      ∃ k, encodeBytes k desc <+: rest ∧ key = adjustBytesOrder written desc ++ k := by
  refine ⟨fun h => ?_, ?_⟩
  · induction hn : rest.length using Nat.strong_induction_on generalizing written rest with
    | _ n ih =>
      subst hn
      rcases hdrop : rest.drop encGroupSize with _ | ⟨marker, rest'⟩
      · -- Without a marker the loop ends with an error.
        rw [decodeLoop] at h
        split at h
        · cases h
        next hcons =>
          rw [hdrop] at hcons
          cases hcons
      · obtain ⟨group, hgroup, rfl⟩ : ∃ group : List UInt8, group.length = encGroupSize ∧
            rest = group ++ marker :: rest' := by
          refine ⟨rest.take encGroupSize, List.length_take_of_le ?_, ?_⟩
          · have := congrArg List.length hdrop
            rw [List.length_drop, List.length_cons] at this
            omega
          · rw [← hdrop, List.take_append_drop]
        rw [decodeLoop_group hgroup] at h
        dsimp only at h
        generalize hpad : (if desc then marker.toNat else (encMarker - marker).toNat) = pad at h
        split_ifs at h with hpos hbig hpadding
        · -- The last group.
          cases h
          have hlen : (written ++ group).length - pad = written.length + (encGroupSize - pad) := by
            rw [List.length_append]
            omega
          rw [hlen, List.drop_length_add_append, not_not] at hpadding
          rw [hlen, List.take_length_add_append]
          refine ⟨adjustBytesOrder (group.take (encGroupSize - pad)) desc, ?_, by simp⟩
          rw [encodeBytes_of_padding hgroup hpos (not_lt.mp hbig) hpad hpadding]
          exact ⟨rest', by simp⟩
        · -- A full group, and the rest.
          obtain ⟨k, ⟨tail, htail⟩, rfl⟩ := ih _ (by simp; omega) _ _ h rfl
          refine ⟨adjustBytesOrder group desc ++ k, ⟨tail, ?_⟩, by simp⟩
          have hmarker : adjustBytesOrder [encMarker] desc = [marker] := by
            have := marker_of_padSize marker desc
            rwa [hpad, Nat.eq_zero_of_not_pos hpos] at this
          rw [encodeBytes_append (by simpa using hgroup), hmarker, ← htail]
          simp
  · rintro ⟨k, ⟨tail, rfl⟩, rfl⟩
    exact decodeLoop_encodeBytes data tail desc k written

/-- Decoding from the start. -/
lemma decodeInPlace_eq_ok_iff (d k : List UInt8) (desc : Bool) :
    decodeInPlace d desc = .ok k ↔ (d = [] ∧ k = []) ∨ encodeBytes k desc <+: d := by
  rw [decodeInPlace_eq, decodeBytesInPlace]
  rcases d with _ | ⟨b, d⟩
  · rw [List.prefix_nil, or_iff_left (encodeBytes_ne_nil k desc)]
    exact ⟨fun h => ⟨rfl, (Except.ok.inj h).symm⟩, fun h => by rw [h.2]; rfl⟩
  · have hnil : adjustBytesOrder [] desc = [] := by cases desc <;> rfl
    simp [decodeLoop_eq_ok_iff, hnil]

lemma decodeLoop_internalError (data : List UInt8) (desc : Bool) (written rest : List UInt8) :
    (∃ k, decodeLoop data desc written rest = .ok k) ∨
      ∃ msg, decodeLoop data desc written rest = .error (.internalError msg) := by
  fun_induction decodeLoop data desc written rest with
  | case1 | case2 | case3 => exact .inr ⟨_, rfl⟩
  | case4 => exact .inl ⟨_, rfl⟩
  | case5 => assumption

/-- **The codec is an exact inverse.**  Decoding in place leaves `k` exactly if the buffer begins
with the encoding of `k` — or both are empty; so it undoes encoding, it ends with an internal error
on every other buffer, and it never panics. -/
theorem decodeInPlace_exact (d k : List UInt8) (desc : Bool) :
    (decodeInPlace d desc = .ok k ↔ (d = [] ∧ k = []) ∨ encodeBytes k desc <+: d) ∧
      decodeInPlace (encodeBytes k desc) desc = .ok k ∧
      (∀ msg, decodeInPlace d desc ≠ .error (.panicked msg)) ∧
      ((∃ msg, decodeInPlace d desc = .error (.internalError msg)) ↔
        d ≠ [] ∧ ∀ key, ¬ encodeBytes key desc <+: d) := by
  have hcases : (∃ key, decodeInPlace d desc = .ok key) ∨
      ∃ msg, decodeInPlace d desc = .error (.internalError msg) := by
    rw [decodeInPlace_eq, decodeBytesInPlace]
    split_ifs
    · exact .inl ⟨[], rfl⟩
    · exact decodeLoop_internalError d desc [] d
  refine ⟨decodeInPlace_eq_ok_iff d k desc,
    (decodeInPlace_eq_ok_iff _ _ _).mpr (.inr List.prefix_rfl), ?_, ?_⟩
  · rcases hcases with ⟨key, h⟩ | ⟨msg, h⟩ <;> simp [h]
  · constructor
    · rintro ⟨msg, h⟩
      refine ⟨?_, fun key hkey => ?_⟩
      · rintro rfl
        cases h
      · rw [(decodeInPlace_eq_ok_iff d key desc).mpr (.inr hkey)] at h
        cases h
    · rintro ⟨hne, hnone⟩
      rcases hcases with ⟨key, h⟩ | h
      · rcases (decodeInPlace_eq_ok_iff d key desc).mp h with ⟨hd, _⟩ | hkey
        · exact absurd hd hne
        · exact absurd hkey (hnone key)
      · exact h

/-! ## Order -/

/-- **The descending encoding is the complement of the ascending one.** -/
lemma encodeBytes_desc (key : List UInt8) :
    encodeBytes key true = (encodeBytes key false).map (~~~ ·) := by
  induction key using groups_induction with
  | short key hkey =>
    rw [encodeBytes_of_lt hkey, encodeBytes_of_lt hkey]
    simp [adjustBytesOrder, encPadding]
  | long group rest hgroup ih =>
    rw [encodeBytes_append hgroup, encodeBytes_append hgroup, ih]
    simp [adjustBytesOrder]

/-- No encoding is the beginning of another: the decoder would read both keys from it. -/
lemma encodeBytes_prefix_iff (a b : List UInt8) (desc : Bool) :
    encodeBytes a desc <+: encodeBytes b desc ↔ a = b := by
  refine ⟨fun h => ?_, fun h => h ▸ List.prefix_rfl⟩
  have ha := (decodeInPlace_eq_ok_iff (encodeBytes b desc) a desc).mpr (.inr h)
  have hb := (decodeInPlace_eq_ok_iff (encodeBytes b desc) b desc).mpr (.inr List.prefix_rfl)
  exact Except.ok.inj (ha.symm.trans hb)

lemma length_encodeBytes (key : List UInt8) (desc : Bool) :
    (encodeBytes key desc).length = maxEncodedBytesSize key.length := by
  induction key using groups_induction with
  | short key hkey =>
    rw [encodeBytes_of_lt hkey, maxEncodedBytesSize, Nat.div_eq_of_lt hkey]
    simp only [List.length_append, length_adjustBytesOrder, encPadding, List.length_replicate,
      List.length_singleton]
    omega
  | long group rest hgroup ih =>
    rw [encodeBytes_append hgroup, List.length_append, ih, maxEncodedBytesSize,
      maxEncodedBytesSize, groups_append hgroup,
      Nat.add_mul (rest.length / encGroupSize + 1) 1]
    simp [hgroup, Nat.add_comm]

lemma map_toNat_lt_iff (a b : List UInt8) : a.map UInt8.toNat < b.map UInt8.toNat ↔ a < b :=
  Lex.map_lt_map_iff_of_mono (fun _ _ => UInt8.toNat.inj) (fun _ _ => UInt8.lt_iff_toNat_lt.symm)
    a b

lemma not_lt_not_iff (x y : UInt8) : ~~~x < ~~~y ↔ y < x := by
  have hx := x.toNat_lt
  have hy := y.toNat_lt
  rw [UInt8.lt_iff_toNat_lt, UInt8.lt_iff_toNat_lt, UInt8.toNat_not, UInt8.toNat_not, UInt8.size]
  omega

/-- **The codec and the order of keys.**  Ascending encodings compare as the keys do, descending
ones the other way; no encoding is the beginning of another; and an encoding is as long as was
reserved for it. -/
theorem encodeBytes_order (a b : List UInt8) :
    (encodeBytes a false < encodeBytes b false ↔ a < b) ∧
      (encodeBytes a true < encodeBytes b true ↔ b < a) ∧
      (∀ desc, encodeBytes a desc <+: encodeBytes b desc ↔ a = b) ∧
      ∀ desc, (encodeBytes a desc).length = maxEncodedBytesSize a.length := by
  have hasc : ∀ a b : List UInt8, encodeBytes a false < encodeBytes b false ↔ a < b := by
    intro a b
    rw [← map_toNat_lt_iff, ← map_toNat_lt_iff a b]
    exact encDigits_lt_iff a b
  refine ⟨hasc a b, ?_, fun desc => encodeBytes_prefix_iff a b desc, length_encodeBytes a⟩
  by_cases hab : a = b
  · subst hab
    exact iff_of_false (List.lt_irrefl _) (List.lt_irrefl _)
  · have hcompl : Function.Injective fun x : UInt8 => ~~~x := fun x y h => UInt8.not_inj.mp h
    rw [encodeBytes_desc, encodeBytes_desc,
      Lex.map_lt_map_iff_of_anti hcompl not_lt_not_iff
        (fun h => hab ((encodeBytes_prefix_iff a b false).mp h))
        (fun h => hab ((encodeBytes_prefix_iff b a false).mp h).symm), hasc]

end TikvClient.Codec
