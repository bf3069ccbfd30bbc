import TikvClient.Core.Intervals
import TikvClient.Kv.CodecExact
import TikvClient.Kv.Keyspace

/-!
# Regions of an error, as a keyspace sees them

A region error of TiKV carries the regions it knows, with memcomparable bounds over all keyspaces.
Before the error reaches the caller, `truncate_epoch_not_match` decodes the bounds, cuts the regions
to the keyspace of the client and takes the bytes in front of the keys away; where the payload
cannot be decoded, the error is kept as it is.

**The mode is guessed.**  The function knows the id of the keyspace but not whether the client is
raw or transactional; it takes the mode of the first bound that begins with the byte of one.  So the
regions are those the client sees exactly if the guess is right, or does not matter.

**Short bounds.**  Taking four bytes away panics on a shorter bound.  Such bounds lie between the
bytes in front of a keyspace and those behind it where the last byte of the id carries.
-/

namespace TikvClient

open Codec

/-- A region of the payload (`metapb::Region`): its bounds, and the fields that are kept. -/
structure PbRegion (μ : Type) where
  startKey : Key
  endKey : Key
  rest : μ
deriving DecidableEq

namespace PbRegion

variable {μ : Type}

/-- `decode_bytes_in_place` of both bounds. -/
def decode (r : PbRegion μ) : Except Error (PbRegion μ) := do
  let startKey ← decodeInPlace r.startKey.bytes false
  let endKey ← decodeInPlace r.endKey.bytes false
  return { r with startKey := ⟨startKey⟩, endKey := ⟨endKey⟩ }

def inferKeyModeFromKey (key : Key) : Option KeyMode :=
  match key.bytes.head? with
  | none => none
  | some byte =>
    if byte = KeyMode.raw.byte then some .raw
    else if byte = KeyMode.txn.byte then some .txn
    else none

def inferKeyModeFromRegion (r : PbRegion μ) : Option KeyMode :=
  (inferKeyModeFromKey r.startKey).or (inferKeyModeFromKey r.endKey)

/-- `Vec::split_off`, of which the rest is used. -/
def splitOff (key : Key) (n : ℕ) : Except Error Key :=
  if n ≤ key.len then .ok ⟨key.bytes.drop n⟩
  else .error (.panicked s!"`at` split index (is {n}) should be <= len (is {key.len})")

/-- A bound of a region without the bytes in front; at the edge of the keyspace, empty. -/
def splitBound (edge bound : Key) : Except Error Key :=
  if bound = edge then .ok .empty else splitOff bound keyspacePrefixLen

/-- The body of the loop over the regions, between the bytes in front of the keyspace and those
behind it; `none` is a region that is left out. -/
def truncate (keyspacePrefix keyspaceEnd : Key) (r : PbRegion μ) :
    Except Error (Option (PbRegion μ)) :=
  if !r.endKey.isEmpty && decide (r.endKey ≤ keyspacePrefix) then .ok none
  else if !r.startKey.isEmpty && decide (r.startKey ≥ keyspaceEnd) then .ok none
  else
    let startKey :=
      if r.startKey.isEmpty || decide (r.startKey < keyspacePrefix) then keyspacePrefix
      else r.startKey
    let endKey :=
      if r.endKey.isEmpty || decide (r.endKey > keyspaceEnd) then keyspaceEnd else r.endKey
    if startKey ≥ endKey then .ok none
    else do
      let startKey ← splitBound keyspacePrefix startKey
      let endKey ← splitBound keyspaceEnd endKey
      return some { r with startKey := startKey, endKey := endKey }

end PbRegion

/-- The first and the last key of a keyspace, the last one excluded. -/
def Keyspace.front (keyspaceId : UInt32) (mode : KeyMode) : Key := ⟨keyspacePrefix keyspaceId mode⟩

def Keyspace.behind (keyspaceId : UInt32) (mode : KeyMode) : Key :=
  ⟨keyspaceEndPrefix keyspaceId mode⟩

namespace EpochNotMatch

variable {μ : Type}

/-- The mode that is guessed from the decoded regions. -/
def inferKeyMode (regions : List (PbRegion μ)) : KeyMode :=
  (regions.findSome? PbRegion.inferKeyModeFromRegion).getD .raw

def truncateEpochNotMatch (currentRegions : List (PbRegion μ)) (keyspaceId : UInt32) :
    Except Error (List (PbRegion μ)) := do
  let regions ← currentRegions.mapM PbRegion.decode
  let mode := inferKeyMode regions
  let kept ← regions.mapM
    (PbRegion.truncate (Keyspace.front keyspaceId mode) (Keyspace.behind keyspaceId mode))
  return kept.reduceOption

/-- `truncate_keyspace` of a region error, of which only the payload of `epoch_not_match` changes.
A payload that cannot be decoded is kept; a panic is not an error that could be caught. -/
def truncateKeyspace (keyspace : Keyspace) (epochNotMatch : Option (List (PbRegion μ))) :
    Except Error (Option (List (PbRegion μ))) :=
  match keyspace, epochNotMatch with
  | .disable, _ => .ok epochNotMatch
  | .enable _, none => .ok none
  | .enable keyspaceId, some currentRegions =>
    match truncateEpochNotMatch currentRegions keyspaceId with
    | .ok regions => .ok (some regions)
    | .error (.panicked msg) => .error (.panicked msg)
    | .error _ => .ok (some currentRegions)

end EpochNotMatch

/-! ## Cutting a region -/

namespace PbRegion

variable {μ : Type}

/-- The keys of a region. -/
def interval (r : PbRegion μ) : HalfOpenInterval Key :=
  ⟨r.startKey, if r.endKey.isEmpty then ⊤ else r.endKey⟩

/-- The keys of a region between two keys. -/
def inside (first last : Key) (r : PbRegion μ) : HalfOpenInterval Key :=
  r.interval.inter ⟨first, last⟩

/-- The bounds the loop computes are those of the intersection. -/
lemma inside_eq (first last : Key) (r : PbRegion μ) :
    r.inside first last =
      ⟨if r.startKey.isEmpty || decide (r.startKey < first) then first else r.startKey,
        ((if r.endKey.isEmpty || decide (r.endKey > last) then last else r.endKey : Key) :
          WithTop Key)⟩ := by
  have hlower : max r.startKey first =
      if r.startKey.isEmpty || decide (r.startKey < first) then first else r.startKey := by
    by_cases hempty : r.startKey.isEmpty = true
    · rw [if_pos (by simp [hempty]), (Key.isEmpty_iff _).mp hempty,
        max_eq_right (Key.empty_le first)]
    · rcases lt_or_ge r.startKey first with h | h
      · simp [h, h.le]
      · simp [h, not_lt.mpr h, hempty]
  have hupper : min (if r.endKey.isEmpty then ⊤ else (r.endKey : WithTop Key)) last =
      ((if r.endKey.isEmpty || decide (r.endKey > last) then last else r.endKey : Key) :
        WithTop Key) := by
    by_cases hempty : r.endKey.isEmpty = true
    · simp [hempty]
    · rcases lt_or_ge last r.endKey with h | h
      · simp [hempty, h, h.le]
      · simp [hempty, not_lt.mpr h, h]
  rw [inside, HalfOpenInterval.inter, interval, hlower, hupper]

variable {first last : Key} {r : PbRegion μ}

lemma startKey_lt_of_proper (h : (r.inside first last).Proper) : r.startKey < last := by
  have hlower : (r.startKey : WithTop Key) ≤ (r.inside first last).lower :=
    WithTop.coe_le_coe.mpr (le_max_left _ _)
  exact WithTop.coe_lt_coe.mp (hlower.trans_lt (h.trans_le (min_le_right _ _)))

lemma lt_endKey_of_proper
    (h : (r.inside first last).Proper) (hend : r.endKey.isEmpty = false) : first < r.endKey := by
  have hlower : (first : WithTop Key) ≤ (r.inside first last).lower :=
    WithTop.coe_le_coe.mpr (le_max_right _ _)
  have hupper : (r.inside first last).upper ≤ r.endKey := by
    refine (min_le_left _ _).trans ?_
    rw [interval, if_neg (by simp [hend])]
  exact WithTop.coe_lt_coe.mp (hlower.trans_lt (h.trans_le hupper))

/-- **The loop keeps the regions that meet the keyspace**, and takes the bytes in front of their
bounds away. -/
lemma truncate_eq (first last : Key) (r : PbRegion μ) :
    r.truncate first last =
      if (r.inside first last).Proper then do
        let startKey ← splitBound first (r.inside first last).lower
        let endKey ← splitBound last ((r.inside first last).upper.untopD last)
        return some { r with startKey := startKey, endKey := endKey }
      else .ok none := by
  have hinter := inside_eq first last r
  rw [truncate, hinter]
  -- The two early exits are cases in which the intersection is empty.
  by_cases hbefore : (!r.endKey.isEmpty && decide (r.endKey ≤ first)) = true
  · rw [if_pos hbefore, if_neg]
    rw [Bool.and_eq_true, Bool.not_eq_true', decide_eq_true_eq] at hbefore
    rw [← hinter]
    exact fun h => absurd (lt_endKey_of_proper h hbefore.1) (not_lt.mpr hbefore.2)
  · rw [if_neg hbefore]
    by_cases hafter : (!r.startKey.isEmpty && decide (r.startKey ≥ last)) = true
    · rw [if_pos hafter, if_neg]
      rw [Bool.and_eq_true, decide_eq_true_eq] at hafter
      rw [← hinter]
      exact fun h => absurd (startKey_lt_of_proper h) (not_lt.mpr hafter.2)
    · rw [if_neg hafter]
      -- What is left is the test the loop makes, on the same bounds.
      set startKey := if r.startKey.isEmpty || decide (r.startKey < first) then first
        else r.startKey
      set endKey := if r.endKey.isEmpty || decide (r.endKey > last) then last else r.endKey
      have hproper : HalfOpenInterval.Proper ⟨startKey, (endKey : WithTop Key)⟩ ↔
          ¬ startKey ≥ endKey := WithTop.coe_lt_coe.trans not_le.symm
      by_cases hempty : startKey ≥ endKey
      · rw [if_neg (hproper.not.mpr (not_not.mpr hempty))]
        exact if_pos hempty
      · rw [if_pos (hproper.mpr hempty)]
        exact if_neg hempty

/-! ## Short bounds -/

/-- **Four bytes can be taken away**: if the region meets the keyspace, each of its bounds that lies
inside has them. -/
def SplitsSafely (first last : Key) (r : PbRegion μ) : Prop :=
  (r.inside first last).Proper →
    (first < r.startKey → keyspacePrefixLen ≤ r.startKey.len) ∧
      (r.endKey.isEmpty = false → r.endKey < last → keyspacePrefixLen ≤ r.endKey.len)

lemma exists_splitBound_iff {edge bound : Key} :
    (∃ k, splitBound edge bound = .ok k) ↔ (bound ≠ edge → keyspacePrefixLen ≤ bound.len) := by
  by_cases hedge : bound = edge
  · exact iff_of_true ⟨_, if_pos hedge⟩ fun h => absurd hedge h
  · rw [splitBound, if_neg hedge, splitOff]
    split_ifs with hlen
    · exact iff_of_true ⟨_, rfl⟩ fun _ => hlen
    · exact iff_of_false (fun ⟨_, h⟩ => by cases h) fun h => hlen (h hedge)

lemma error_of_splitBound {edge bound : Key} {e : Error} (h : splitBound edge bound = .error e) :
    ∃ msg, e = .panicked msg := by
  rw [splitBound] at h
  split_ifs at h
  rw [splitOff] at h
  split_ifs at h
  cases h
  exact ⟨_, rfl⟩

lemma lower_inside (first last : Key) (r : PbRegion μ) :
    (r.inside first last).lower = max r.startKey first := rfl

lemma upper_inside (first last : Key) (r : PbRegion μ) :
    (r.inside first last).upper.untopD last =
      if r.endKey.isEmpty || decide (r.endKey > last) then last else r.endKey := by
  rw [inside_eq, WithTop.untopD_coe]

lemma exists_splitBound_lower_iff :
    (∃ k, splitBound first (r.inside first last).lower = .ok k) ↔
      (first < r.startKey → keyspacePrefixLen ≤ r.startKey.len) := by
  rw [exists_splitBound_iff, lower_inside]
  rcases lt_or_ge first r.startKey with h | h
  · rw [max_eq_left h.le]
    exact ⟨fun hlen _ => hlen h.ne', fun hlen _ => hlen h⟩
  · rw [max_eq_right h]
    exact iff_of_true (fun hne => absurd rfl hne) fun hlt => absurd hlt (not_lt.mpr h)

lemma exists_splitBound_upper_iff :
    (∃ k, splitBound last ((r.inside first last).upper.untopD last) = .ok k) ↔
      (r.endKey.isEmpty = false → r.endKey < last → keyspacePrefixLen ≤ r.endKey.len) := by
  rw [exists_splitBound_iff, upper_inside]
  by_cases hempty : r.endKey.isEmpty = true
  · rw [if_pos (by simp [hempty])]
    refine iff_of_true (fun hne => absurd rfl hne) fun h => ?_
    rw [hempty] at h
    cases h
  · rcases lt_trichotomy r.endKey last with h | h | h
    · rw [if_neg (by simp [hempty, h.le])]
      exact ⟨fun hlen _ _ => hlen h.ne, fun hlen _ => hlen (by simpa using hempty) h⟩
    · rw [h, ite_self]
      exact iff_of_true (fun hne => absurd rfl hne) fun _ hlt => absurd hlt (lt_irrefl _)
    · rw [if_pos (by simp [h])]
      exact iff_of_true (fun hne => absurd rfl hne) fun _ hlt => absurd hlt h.not_gt

/-- **A region is cut without a panic exactly if the bounds inside the keyspace are long enough.**
-/
lemma exists_truncate_iff :
    (∃ x, r.truncate first last = .ok x) ↔ r.SplitsSafely first last := by
  rw [truncate_eq, SplitsSafely, ← exists_splitBound_lower_iff, ← exists_splitBound_upper_iff]
  by_cases hproper : (r.inside first last).Proper
  · rw [if_pos hproper, forall_prop_of_true hproper]
    constructor
    · intro h
      obtain ⟨startKey, hstart, h⟩ := exists_bind_iff.mp h
      obtain ⟨endKey, hend, -⟩ := exists_bind_iff.mp h
      exact ⟨⟨_, hstart⟩, _, hend⟩
    · rintro ⟨⟨startKey, hstart⟩, endKey, hend⟩
      rw [hstart, hend]
      exact ⟨_, rfl⟩
  · rw [if_neg hproper]
    exact iff_of_true ⟨_, rfl⟩ fun h => absurd h hproper

lemma error_of_truncate {e : Error}
    (h : r.truncate first last = .error e) : ∃ msg, e = .panicked msg := by
  rw [truncate_eq] at h
  split_ifs at h
  rcases error_of_bind h with hstart | ⟨_, -, h⟩
  · exact error_of_splitBound hstart
  · rcases error_of_bind h with hend | ⟨_, -, h⟩
    · exact error_of_splitBound hend
    · cases h

end PbRegion

/-! ## Truncating the error -/

section MapM

variable {α β : Type} {f : α → Except Error β}

lemma mapM_cons_ok {x : α} {y : β} (h : f x = .ok y) (l : List α) :
    (x :: l).mapM f = (l.mapM f).map (y :: ·) := by
  rw [List.mapM_cons, h]
  cases l.mapM f <;> rfl

lemma exists_mapM_iff (l : List α) :
    (∃ ys, l.mapM f = .ok ys) ↔ ∀ x ∈ l, ∃ y, f x = .ok y := by
  induction l with
  | nil => exact iff_of_true ⟨[], rfl⟩ nofun
  | cons x l ih =>
    rw [List.mapM_cons, exists_bind_iff, List.forall_mem_cons, ← ih]
    constructor
    · rintro ⟨y, hy, h⟩
      obtain ⟨ys, hys, -⟩ := exists_bind_iff.mp h
      exact ⟨⟨y, hy⟩, ys, hys⟩
    · rintro ⟨⟨y, hy⟩, ys, hys⟩
      exact ⟨y, hy, exists_bind_iff.mpr ⟨ys, hys, _, rfl⟩⟩

lemma error_of_mapM {l : List α} {e : Error} (h : l.mapM f = .error e) : ∃ x, f x = .error e := by
  induction l with
  | nil => cases h
  | cons x l ih =>
    rw [List.mapM_cons] at h
    rcases error_of_bind h with hx | ⟨_, -, h⟩
    · exact ⟨x, hx⟩
    · rcases error_of_bind h with hl | ⟨_, -, h⟩
      · exact ih hl
      · cases h

lemma mapM_eq_map {g : α → β} {l : List α} (h : ∀ x ∈ l, f x = .ok (g x)) :
    l.mapM f = .ok (l.map g) := by
  induction l with
  | nil => rfl
  | cons x l ih =>
    rw [List.forall_mem_cons] at h
    rw [mapM_cons_ok h.1, ih h.2]
    rfl

end MapM

namespace EpochNotMatch

variable {μ : Type}

/-- Decoding a region never panics. -/
lemma error_of_decode {r : PbRegion μ} {e : Error} (h : r.decode = .error e) (msg : String) :
    e ≠ .panicked msg := by
  have hcodec : ∀ d, decodeInPlace d false ≠ .error (.panicked msg) := fun d =>
    (decodeInPlace_exact d [] false).2.2.1 msg
  rintro rfl
  rcases error_of_bind h with hstart | ⟨_, -, h⟩
  · exact hcodec _ hstart
  · rcases error_of_bind h with hend | ⟨_, -, h⟩
    · exact hcodec _ hend
    · cases h

/-- What follows the decoding. -/
def cutRegions (regions : List (PbRegion μ)) (keyspaceId : UInt32) :
    Except Error (List (Option (PbRegion μ))) :=
  regions.mapM (PbRegion.truncate (Keyspace.front keyspaceId (inferKeyMode regions))
    (Keyspace.behind keyspaceId (inferKeyMode regions)))

lemma truncateEpochNotMatch_of_decode {currentRegions regions : List (PbRegion μ)}
    (h : currentRegions.mapM PbRegion.decode = .ok regions) (keyspaceId : UInt32) :
    truncateEpochNotMatch currentRegions keyspaceId =
      (cutRegions regions keyspaceId).map List.reduceOption := by
  rw [truncateEpochNotMatch, h]
  change (cutRegions regions keyspaceId >>= fun kept => pure kept.reduceOption) = _
  cases cutRegions regions keyspaceId <;> rfl

/-- **The payload can be truncated**: in every region that meets the keyspace, the bounds inside
have at least four bytes. -/
def SplitsSafely (currentRegions : List (PbRegion μ)) (keyspaceId : UInt32) : Prop :=
  ∀ regions, currentRegions.mapM PbRegion.decode = .ok regions →
    ∀ r ∈ regions, r.SplitsSafely (Keyspace.front keyspaceId (inferKeyMode regions))
      (Keyspace.behind keyspaceId (inferKeyMode regions))

/-- **Truncating a region error returns exactly if no bound inside the keyspace is too short**: for
every keyspace and all bounds, encoded or not. -/
theorem truncateKeyspace_returns_iff (keyspaceId : UInt32) (currentRegions : List (PbRegion μ)) :
    (∃ err, truncateKeyspace (.enable keyspaceId) (some currentRegions) = .ok err) ↔
      SplitsSafely currentRegions keyspaceId := by
  cases hdecode : currentRegions.mapM PbRegion.decode with
  | error e =>
    have htruncate : truncateEpochNotMatch currentRegions keyspaceId = .error e := by
      rw [truncateEpochNotMatch, hdecode]
      rfl
    obtain ⟨r, hr⟩ := error_of_mapM hdecode
    refine iff_of_true ⟨some currentRegions, ?_⟩ fun regions h => ?_
    · rw [truncateKeyspace, htruncate]
      cases e <;> first | rfl | exact absurd rfl (error_of_decode hr _)
    · rw [hdecode] at h
      cases h
  | ok regions =>
    have hsafe : SplitsSafely currentRegions keyspaceId ↔
        ∃ kept, cutRegions regions keyspaceId = .ok kept := by
      rw [cutRegions, exists_mapM_iff]
      simp only [SplitsSafely, hdecode, Except.ok.injEq, forall_eq', PbRegion.exists_truncate_iff]
    rw [hsafe, truncateKeyspace, truncateEpochNotMatch_of_decode hdecode]
    cases hcut : cutRegions regions keyspaceId with
    | error e =>
      obtain ⟨r, hr⟩ := error_of_mapM hcut
      obtain ⟨msg, rfl⟩ := PbRegion.error_of_truncate hr
      exact iff_of_false (fun ⟨_, h⟩ => by cases h) fun ⟨_, h⟩ => by cases h
    | ok kept => exact iff_of_true ⟨_, rfl⟩ ⟨_, rfl⟩

/-- A region that begins three bytes into the next keyspace. -/
def shortRegion : PbRegion Unit := ⟨⟨encodeBytes [0x72, 0, 1] false⟩, .empty, ()⟩

/-- Keyspace 255 ends before `[0x72, 0, 1, 0]`, so `[0x72, 0, 1]` lies inside and has only three
bytes. -/
theorem short_bound_panics :
    truncateKeyspace (.enable 255) (some [shortRegion]) =
      .error (.panicked "`at` split index (is 4) should be <= len (is 3)") := by
  have hdecode : shortRegion.decode = .ok ⟨⟨[0x72, 0, 1]⟩, .empty, ()⟩ := by
    rw [PbRegion.decode, shortRegion, (decodeInPlace_exact [] [0x72, 0, 1] false).2.1]
    rfl
  have hregions : [shortRegion].mapM PbRegion.decode = .ok [⟨⟨[0x72, 0, 1]⟩, .empty, ()⟩] := by
    rw [mapM_cons_ok hdecode]
    rfl
  rw [truncateKeyspace, truncateEpochNotMatch_of_decode hregions]
  rfl

end EpochNotMatch

/-! ## The view of a keyspace -/

namespace PbRegion

variable {μ : Type}

/-- A bound as the client sees it: without the bytes in front, and empty at the edge. -/
def stripBound (edge bound : Key) : Key :=
  if bound = edge then .empty else ⟨bound.bytes.drop keyspacePrefixLen⟩

/-- **The view of a keyspace on a region**: nothing if the region has no key of the keyspace, and
otherwise the bounds of the keys it has. -/
def view (keyspaceId : UInt32) (mode : KeyMode) (r : PbRegion μ) : Option (PbRegion μ) :=
  let first := Keyspace.front keyspaceId mode
  let last := Keyspace.behind keyspaceId mode
  if (r.inside first last).Proper then
    some { r with
      startKey := stripBound first (r.inside first last).lower
      endKey := stripBound last ((r.inside first last).upper.untopD last) }
  else none

/-- Each bound is empty or has at least four bytes. -/
structure IsLong (r : PbRegion μ) : Prop where
  startKey : r.startKey.isEmpty = true ∨ keyspacePrefixLen ≤ r.startKey.len
  endKey : r.endKey.isEmpty = true ∨ keyspacePrefixLen ≤ r.endKey.len

lemma splitBound_eq {edge bound : Key} (h : bound ≠ edge → keyspacePrefixLen ≤ bound.len) :
    splitBound edge bound = .ok (stripBound edge bound) := by
  rw [splitBound, stripBound]
  split_ifs with hedge
  · rfl
  · exact if_pos (h hedge)

variable {r : PbRegion μ} {keyspaceId : UInt32} {mode : KeyMode} {k : Key}

/-- With long bounds, what the loop makes of a region is the view of the keyspace. -/
lemma IsLong.truncate_eq_view (hlong : r.IsLong) (keyspaceId : UInt32) (mode : KeyMode) :
    r.truncate (Keyspace.front keyspaceId mode) (Keyspace.behind keyspaceId mode) =
      .ok (r.view keyspaceId mode) := by
  have hstart : ∃ k, splitBound (Keyspace.front keyspaceId mode)
      (r.inside (Keyspace.front keyspaceId mode) (Keyspace.behind keyspaceId mode)).lower =
        .ok k := exists_splitBound_lower_iff.mpr fun h =>
    hlong.startKey.resolve_left (by rw [Key.isEmpty_eq_false_of_lt h]; decide)
  have hend : ∃ k, splitBound (Keyspace.behind keyspaceId mode)
      ((r.inside (Keyspace.front keyspaceId mode)
        (Keyspace.behind keyspaceId mode)).upper.untopD (Keyspace.behind keyspaceId mode)) =
        .ok k := exists_splitBound_upper_iff.mpr fun h _ =>
    hlong.endKey.resolve_left (by rw [h]; decide)
  rw [truncate_eq, splitBound_eq (exists_splitBound_iff.mp hstart),
    splitBound_eq (exists_splitBound_iff.mp hend), view]
  split_ifs <;> rfl

lemma front_eq_encodeKeyspace (keyspaceId : UInt32) (mode : KeyMode) :
    Keyspace.front keyspaceId mode = Key.empty.encodeKeyspace (.enable keyspaceId) mode := by
  rw [Key.encodeKeyspace, Keyspace.front, Key.empty, List.append_nil]

lemma front_le_encodeKeyspace (keyspaceId : UInt32) (mode : KeyMode) (k : Key) :
    Keyspace.front keyspaceId mode ≤ k.encodeKeyspace (.enable keyspaceId) mode := by
  rw [front_eq_encodeKeyspace, ← not_lt, Key.encodeKeyspace_lt_iff, not_lt]
  exact Key.empty_le k

/-- A long key between the bytes in front and those behind is an encoded one. -/
lemma exists_encodeKeyspace
    (hlen : keyspacePrefixLen ≤ k.len) (hfront : Keyspace.front keyspaceId mode ≤ k)
    (hbehind : k < Keyspace.behind keyspaceId mode) :
    ∃ l : Key, k = l.encodeKeyspace (.enable keyspaceId) mode := by
  obtain ⟨bytes⟩ := k
  have hlength : (bytes.take keyspacePrefixLen).length = keyspacePrefixLen :=
    List.length_take_of_le hlen
  have hsplit : (⟨bytes⟩ : Key) = ⟨bytes.take keyspacePrefixLen ++
      (⟨bytes.drop keyspacePrefixLen⟩ : Key).bytes⟩ := by rw [List.take_append_drop]
  rw [hsplit] at hfront hbehind ⊢
  rw [front_eq_encodeKeyspace] at hfront
  have hle := (append_lt_endKey_iff keyspaceId mode _ hlength).mp hbehind
  have hlength' : (keyspacePrefix keyspaceId mode).length =
      (bytes.take keyspacePrefixLen).length := hlength.symm
  rcases (Key.append_le_append_iff hlength' .empty _).mp hfront with hlt | ⟨heq, -⟩
  · exact absurd hle (not_le.mpr hlt)
  · rw [← Key.mk.inj heq]
    exact ⟨_, rfl⟩

lemma encodeKeyspace_lt_behind (keyspaceId : UInt32) (mode : KeyMode) (k : Key) :
    k.encodeKeyspace (.enable keyspaceId) mode < Keyspace.behind keyspaceId mode :=
  (append_lt_endKey_iff keyspaceId mode k (length_keyspacePrefix keyspaceId mode)).mpr le_rfl

lemma stripBound_encodeKeyspace {edge : Key}
    (h : k.encodeKeyspace (.enable keyspaceId) mode ≠ edge) :
    stripBound edge (k.encodeKeyspace (.enable keyspaceId) mode) = k := by
  rw [stripBound, if_neg h]
  exact congrArg Key.mk (List.drop_left' (length_keyspacePrefix keyspaceId mode))

lemma not_isEmpty_of_lt {a b : Key} (h : a < b) : ¬ b.isEmpty = true := by
  rw [Key.isEmpty_eq_false_of_lt h]
  decide

lemma interval_contains_iff :
    r.interval.Contains k ↔ r.startKey ≤ k ∧ (r.endKey.isEmpty = true ∨ k < r.endKey) := by
  refine and_congr Iff.rfl ?_
  change (k : WithTop Key) < (if _ then ⊤ else _) ↔ _
  split_ifs with h
  · exact iff_of_true (WithTop.coe_lt_top k) (.inl h)
  · rw [WithTop.coe_lt_coe, or_iff_right h]

/-- **The view has the keys of the client** whose encodings the region has. -/
lemma contains_view {r' : PbRegion μ} (hlong : r.IsLong)
    (hview : r.view keyspaceId mode = some r') (k : Key) :
    r'.interval.Contains k ↔
      r.interval.Contains (k.encodeKeyspace (.enable keyspaceId) mode) := by
  rw [view] at hview
  split_ifs at hview with hproper
  cases hview
  rw [interval_contains_iff, interval_contains_iff]
  refine and_congr ?_ ?_
  · -- Below, the region is cut at the keyspace, or begins inside.
    change stripBound _ (max r.startKey _) ≤ k ↔ _
    rcases lt_or_ge (Keyspace.front keyspaceId mode) r.startKey with hinside | hcut
    · have hlen := hlong.startKey.resolve_left (by rw [Key.isEmpty_eq_false_of_lt hinside]; decide)
      obtain ⟨l, hl⟩ := exists_encodeKeyspace hlen hinside.le (startKey_lt_of_proper hproper)
      rw [max_eq_left hinside.le, hl, stripBound_encodeKeyspace (hl ▸ hinside.ne'), ← not_lt,
        ← not_lt, Key.encodeKeyspace_lt_iff]
    · rw [max_eq_right hcut, stripBound, if_pos rfl]
      exact iff_of_true (Key.empty_le k) (hcut.trans (front_le_encodeKeyspace keyspaceId mode k))
  · -- Above, the same; a bound inside is not empty, so it is not read as "no bound".
    have hedge : stripBound (Keyspace.behind keyspaceId mode) (Keyspace.behind keyspaceId mode) =
        .empty := if_pos rfl
    have hbelow := encodeKeyspace_lt_behind keyspaceId mode k
    change (stripBound _ (WithTop.untopD _ (inside _ _ r).upper)).isEmpty = true ∨
      k < stripBound _ _ ↔ _
    rw [upper_inside]
    by_cases hend : r.endKey.isEmpty = true
    · rw [if_pos (by simp [hend]), hedge]
      exact iff_of_true (.inl rfl) (.inl hend)
    · rcases lt_or_ge r.endKey (Keyspace.behind keyspaceId mode) with hinside | hcut
      · have hafter := lt_endKey_of_proper hproper (by simpa using hend)
        obtain ⟨l, hl⟩ := exists_encodeKeyspace (hlong.endKey.resolve_left hend) hafter.le hinside
        have hne : ¬ l.isEmpty = true := by
          rw [front_eq_encodeKeyspace, hl, Key.encodeKeyspace_lt_iff] at hafter
          exact not_isEmpty_of_lt hafter
        rw [if_neg (by simp [hend, hinside.le]), hl, stripBound_encodeKeyspace (hl ▸ hinside.ne),
          or_iff_right hne, or_iff_right (hl ▸ hend), Key.encodeKeyspace_lt_iff]
      · rw [or_iff_right hend]
        rcases hcut.lt_or_eq with h | h
        · rw [if_pos (by simp [h]), hedge]
          exact iff_of_true (.inl rfl) (hbelow.trans h)
        · rw [← h, ite_self, hedge]
          exact iff_of_true (.inl rfl) hbelow

end PbRegion

namespace EpochNotMatch

variable {μ : Type}

/-- A bound of the payload: empty, or the encoding of a key. -/
def encodeBound (key : Key) : Key := if key.isEmpty then .empty else key.toEncoded

/-- A region with its bounds encoded. -/
def encodeRegion (r : PbRegion μ) : PbRegion μ :=
  { r with startKey := encodeBound r.startKey, endKey := encodeBound r.endKey }

lemma decodeInPlace_encodeBound (key : Key) :
    decodeInPlace (encodeBound key).bytes false = .ok key.bytes := by
  rw [encodeBound]
  split_ifs with hempty
  · rw [(Key.isEmpty_iff key).mp hempty]
    rfl
  · exact (decodeInPlace_exact [] key.bytes false).2.1

lemma decode_encodeRegion (r : PbRegion μ) : (encodeRegion r).decode = .ok r := by
  rw [PbRegion.decode, encodeRegion, decodeInPlace_encodeBound, decodeInPlace_encodeBound]
  rfl

lemma mapM_decode_encodeRegion (regions : List (PbRegion μ)) :
    (regions.map encodeRegion).mapM PbRegion.decode = .ok regions := by
  induction regions with
  | nil => rfl
  | cons r regions ih =>
    rw [List.map_cons, mapM_cons_ok (decode_encodeRegion r), ih]
    rfl

/-- **What truncation makes of long bounds**: the view of the keyspace in the mode that is guessed.
-/
lemma truncateKeyspace_encoded {regions : List (PbRegion μ)} (hlong : ∀ r ∈ regions, r.IsLong)
    (keyspaceId : UInt32) :
    truncateKeyspace (.enable keyspaceId) (some (regions.map encodeRegion)) =
      .ok (some (regions.filterMap (PbRegion.view keyspaceId (inferKeyMode regions)))) := by
  have hcut : cutRegions regions keyspaceId =
      .ok (regions.map (PbRegion.view keyspaceId (inferKeyMode regions))) :=
    mapM_eq_map fun r hr => (hlong r hr).truncate_eq_view keyspaceId _
  rw [truncateKeyspace, truncateEpochNotMatch_of_decode (mapM_decode_encodeRegion regions), hcut]
  refine congrArg (fun kept => Except.ok (some kept)) ?_
  exact List.filterMap_map

/-- The raw and the transactional keyspace see the regions alike. -/
def SeenAlike (keyspaceId : UInt32) (regions : List (PbRegion μ)) : Prop :=
  regions.filterMap (PbRegion.view keyspaceId .raw) =
    regions.filterMap (PbRegion.view keyspaceId .txn)

/-- **The regions of the truncated error are those the client sees exactly if its mode is the one
that is guessed**, or does not matter. -/
theorem truncateKeyspace_eq_view_iff (keyspaceId : UInt32) (mode : KeyMode)
    (regions : List (PbRegion μ)) (hlong : ∀ r ∈ regions, r.IsLong) :
    truncateKeyspace (.enable keyspaceId) (some (regions.map encodeRegion)) =
        .ok (some (regions.filterMap (PbRegion.view keyspaceId mode))) ↔
      inferKeyMode regions = mode ∨ SeenAlike keyspaceId regions := by
  rw [truncateKeyspace_encoded hlong, SeenAlike]
  simp only [Except.ok.injEq, Option.some.injEq]
  cases inferKeyMode regions <;> cases mode <;> simp [eq_comm]

/-- A region from the raw keyspace 1 into the transactional one. -/
def straddlingRegion : PbRegion Unit := ⟨⟨[0x72, 0, 0, 1, 5]⟩, ⟨[0x78, 0, 0, 1, 7]⟩, ()⟩

/-- The first bound of the region is raw, so the raw client gets its view. -/
theorem straddling_region_seen_raw :
    truncateKeyspace (.enable 1) (some ([straddlingRegion].map encodeRegion)) =
      .ok (some ([straddlingRegion].filterMap (PbRegion.view 1 .raw))) :=
  (truncateKeyspace_eq_view_iff 1 .raw [straddlingRegion]
    (List.forall_mem_singleton.mpr ⟨.inr (by decide), .inr (by decide)⟩)).mpr (.inl rfl)

/-- The transactional client gets that view, too, and not its own. -/
theorem straddling_region_hidden_from_txn :
    [straddlingRegion].filterMap (PbRegion.view 1 .txn) = [⟨.empty, ⟨[7]⟩, ()⟩] ∧
      truncateKeyspace (.enable 1) (some ([straddlingRegion].map encodeRegion)) =
        .ok (some [⟨⟨[5]⟩, .empty, ()⟩]) := by
  have hlong : ∀ r ∈ [straddlingRegion], r.IsLong :=
    List.forall_mem_singleton.mpr ⟨.inr (by decide), .inr (by decide)⟩
  rw [truncateKeyspace_encoded hlong]
  exact ⟨by decide, congrArg (fun kept => Except.ok (some kept)) (by decide)⟩

/-- **No key is lost or gained**: the truncated error has a region with a key exactly if the payload
has one with the encoding of the key in the mode that is guessed. -/
theorem truncateKeyspace_covers (keyspaceId : UInt32)
    (regions : List { r : PbRegion μ // r.IsLong }) (k : Key) :
    ∃ kept, truncateKeyspace (.enable keyspaceId) (some (regions.unattach.map encodeRegion)) =
        .ok (some kept) ∧
      ((∃ r ∈ kept, r.interval.Contains k) ↔ ∃ r ∈ regions.unattach, r.interval.Contains
        (k.encodeKeyspace (.enable keyspaceId) (inferKeyMode regions.unattach))) := by
  have hlong : ∀ r ∈ regions.unattach, r.IsLong := fun r hr => (List.mem_unattach.mp hr).1
  refine ⟨_, truncateKeyspace_encoded hlong keyspaceId, ?_⟩
  generalize inferKeyMode regions.unattach = mode
  constructor
  · rintro ⟨r', hr', hk⟩
    obtain ⟨r, hr, hview⟩ := List.mem_filterMap.mp hr'
    exact ⟨r, hr, (PbRegion.contains_view (hlong r hr) hview k).mp hk⟩
  · rintro ⟨r, hr, hk⟩
    -- A region with a key of the keyspace has a view.
    have hinside : (r.inside (Keyspace.front keyspaceId mode)
        (Keyspace.behind keyspaceId mode)).Contains _ :=
      HalfOpenInterval.inter_contains_iff.mpr ⟨hk, PbRegion.front_le_encodeKeyspace _ _ k,
        WithTop.coe_lt_coe.mpr (PbRegion.encodeKeyspace_lt_behind _ _ k)⟩
    have hview : r.view keyspaceId mode = some _ :=
      if_pos ((WithTop.coe_le_coe.mpr hinside.1).trans_lt hinside.2)
    exact ⟨_, List.mem_filterMap.mpr ⟨r, hr, hview⟩,
      (PbRegion.contains_view (hlong r hr) hview k).mpr hk⟩

end EpochNotMatch

end TikvClient
