import TikvClient.Kv.Keyspace
import TikvClient.Request.RangeShard

/-!
# The two keys of a request for a range

A request has a start key and an end key, and an empty end key is no bound.  Once a range of the
user is encoded into the keyspace, its two keys say exactly what it contains
(`contains_encodeKeyspace_iff_inRange`): its upper end is a key of the keyspace, the end of the
keyspace, or, without a keyspace, the empty key.

**Views.**  A range made of two keys can be read as an interval, by its bounds, by the keys it is
turned into, and by those of its encoding.  These agree unless the end is the single byte zero
(`viewsAgree_iff`), which becomes "up to the empty key, included", and so no bound.
-/

namespace TikvClient

/-- The range has an upper bound; an empty key is none. -/
def BoundRange.BoundedAbove (r : BoundRange) : Prop :=
  match r.upper with
  | .included key => key.isEmpty = false
  | .excluded key => key.isEmpty = false
  | .unbounded => False

/-- The keys of a request for the range. -/
def BoundRange.requestRange (r : BoundRange) : Key × Key :=
  (r.intoKeys.1, r.intoKeys.2.getD .empty)

namespace BoundRange

variable {r : BoundRange} {keyspace : Keyspace} {mode : KeyMode}

lemma BoundedAbove.contains_iff (h : r.BoundedAbove) (k : Key) :
    r.contains k = true ↔ InRange r.requestRange k := by
  have hnext : ∀ key : Key, key.nextKey.isEmpty = false := by simp [Key.nextKey, Key.isEmpty]
  rw [contains, Bool.and_eq_true, startsBefore_iff, InRange]
  refine and_congr Iff.rfl ?_
  obtain ⟨lower, upper⟩ := r
  cases upper with
  | included key =>
    have hkey : key.isEmpty = false := h
    simp [endBound, requestRange, intoKeys, hkey, hnext, Bound.endsAfter, Key.lt_nextKey_iff]
  | excluded key =>
    have hkey : key.isEmpty = false := h
    simp [endBound, requestRange, intoKeys, hkey, Bound.endsAfter]
  | unbounded => exact absurd h id

lemma BoundedAbove.requestRange_snd (h : r.BoundedAbove) : r.requestRange.2.isEmpty = false := by
  obtain ⟨lower, upper⟩ := r
  cases upper with
  | included key => simp [requestRange, intoKeys, Key.nextKey, Key.isEmpty]
  | excluded key => exact h
  | unbounded => exact absurd h id

lemma boundedAbove_encodeKeyspace_enable (r : BoundRange) (id : UInt32) (mode : KeyMode) :
    (r.encodeKeyspace (.enable id) mode).BoundedAbove := by
  have hend : (Keyspace.endKey (.enable id) mode).isEmpty = false := isEmpty_endKey id mode
  have hkey : ∀ u : Key, (u.encodeKeyspace (.enable id) mode).isEmpty = false := fun _ => rfl
  obtain ⟨lower, upper⟩ := r
  cases upper with
  | included u | excluded u =>
    by_cases hu : u.isEmpty = true <;> simp [BoundedAbove, encodeKeyspace, hu, hend, hkey]
  | unbounded => simp [BoundedAbove, encodeKeyspace, hend]

lemma BoundedAbove.encodeKeyspace_disable (h : r.BoundedAbove) (mode : KeyMode) :
    (r.encodeKeyspace .disable mode).BoundedAbove := by
  obtain ⟨lower, upper⟩ := r
  cases upper with
  | included u | excluded u =>
    have hu : u.isEmpty = false := h
    simp [BoundedAbove, encodeKeyspace, Key.encodeKeyspace, hu]
  | unbounded => exact absurd h id

/-- Without a keyspace and an upper bound, the encoded range ends with the empty key. -/
lemma upper_encodeKeyspace_disable (h : ¬ r.BoundedAbove) (mode : KeyMode) :
    (r.encodeKeyspace .disable mode).upper = .excluded .empty := by
  obtain ⟨lower, upper⟩ := r
  cases upper with
  | included u | excluded u =>
    have hu : u.isEmpty = true := by simpa [BoundedAbove] using h
    simp [encodeKeyspace, hu, Keyspace.endKey]
  | unbounded => rfl

lemma contains_encodeKeyspace_iff_inRange (r : BoundRange) (keyspace : Keyspace) (mode : KeyMode)
    (k : Key) :
    (r.encodeKeyspace keyspace mode).contains k = true ↔
      InRange (r.encodeKeyspace keyspace mode).requestRange k := by
  cases keyspace with
  | enable id => exact (boundedAbove_encodeKeyspace_enable r id mode).contains_iff k
  | disable =>
    by_cases hbounded : r.BoundedAbove
    · exact (hbounded.encodeKeyspace_disable mode).contains_iff k
    · have hupper := upper_encodeKeyspace_disable hbounded mode
      rw [contains, Bool.and_eq_true, startsBefore_iff, InRange]
      refine and_congr Iff.rfl ?_
      simp [endBound, requestRange, intoKeys, hupper, Bound.endsAfter, Key.isEmpty, Key.empty]

lemma intoKeys_encodeKeyspace (r : BoundRange) (keyspace : Keyspace) (mode : KeyMode) :
    (r.encodeKeyspace keyspace mode).intoKeys =
      ((r.encodeKeyspace keyspace mode).requestRange.1,
        some (r.encodeKeyspace keyspace mode).requestRange.2) := by
  have hsome : ∃ e, (r.encodeKeyspace keyspace mode).intoKeys.2 = some e := by
    obtain ⟨lower, upper⟩ := r
    cases upper with
    | included u | excluded u =>
      by_cases hu : u.isEmpty = true <;> simp [encodeKeyspace, intoKeys, hu]
    | unbounded => exact ⟨_, rfl⟩
  obtain ⟨e, he⟩ := hsome
  rw [requestRange, he]
  exact Prod.ext rfl he

/-! ## Ranges made of two keys -/

/-- `BoundRange::from(key_range)`. -/
def ofKeyRange (range : Proto.KeyRange) : BoundRange :=
  ⟨range.startKey.intoLowerBound, range.endKey.intoUpperBound⟩

/-- The key is in the interval that `into_keys` returned; an absent or empty end is no bound. -/
def InKeys (keys : Key × Option Key) (k : Key) : Prop :=
  keys.1 ≤ k ∧ ∀ stop, keys.2 = some stop → stop.isEmpty = false → k < stop

/-- **The views of the range agree** with the keys it was made of. -/
structure ViewsAgree (start stop : Key) (r : BoundRange) : Prop where
  contains : ∀ k, r.contains k = true ↔ start ≤ k ∧ k < stop
  intoKeys : ∀ k, InKeys r.intoKeys k ↔ start ≤ k ∧ k < stop
  encoded : ∀ keyspace mode k,
    InKeys (r.encodeKeyspace keyspace mode).intoKeys (k.encodeKeyspace keyspace mode) ↔
      start ≤ k ∧ k < stop

lemma inKeys_intoKeys_iff (r : BoundRange) (k : Key) :
    InKeys r.intoKeys k ↔ InRange r.requestRange k := by
  refine and_congr Iff.rfl ?_
  cases hend : r.intoKeys.2 with
  | none => simp [requestRange, hend, Key.isEmpty, Key.empty]
  | some stop => cases hempty : stop.isEmpty <;> simp [requestRange, hend, hempty]

lemma contains_encodeKeyspace_encodeKeyspace (r : BoundRange) (keyspace : Keyspace)
    (mode : KeyMode) (k : Key) :
    (r.encodeKeyspace keyspace mode).contains (k.encodeKeyspace keyspace mode) = true ↔
      r.contains k = true := by
  cases keyspace with
  | enable id =>
    refine (contains_encodeKeyspace_append (length_keyspacePrefix id mode)).trans ?_
    exact and_iff_right rfl
  | disable =>
    refine (contains_encodeKeyspace_stored_iff .disable mode r trivial).trans ?_
    exact ⟨fun ⟨l, heq, hl⟩ => (show k = l from heq) ▸ hl, fun hk => ⟨k, rfl, hk⟩⟩

variable {start stop : Key}

/-- Reading a key as an exclusive end keeps a bound, unless it is the single byte zero. -/
lemma boundedAbove_ofKeys_iff (hstop : stop.isEmpty = false) :
    (ofKeys (start, stop)).BoundedAbove ↔ stop ≠ ⟨[0]⟩ := by
  rw [BoundedAbove, ofKeys, Key.intoUpperBound]
  dsimp only
  split_ifs with hlast
  · -- The end is a key followed by the zero byte.
    have hstop' : stop = ⟨[0]⟩ ↔ stop.pop = .empty := by
      constructor
      · rintro rfl
        rfl
      · intro h
        rw [← Key.nextKey_pop hlast, h]
        rfl
    rw [ne_eq, hstop', ← Key.isEmpty_iff]
    simp
  · refine iff_of_true hstop ?_
    rintro rfl
    exact hlast rfl

lemma requestRange_ofKeys (range : Key × Key) : (ofKeys range).requestRange = range := by
  rw [requestRange, intoKeys_ofKeys]
  rfl

lemma inRange_iff_of_end (hstop : stop.isEmpty = false) (k : Key) :
    InRange (start, stop) k ↔ start ≤ k ∧ k < stop := by
  simp [InRange, hstop]

/-- The keys a range was made of are those it is turned into, also where its bounds say less. -/
lemma inKeys_ofKeys_iff (hstop : stop.isEmpty = false) (k : Key) :
    InKeys (ofKeys (start, stop)).intoKeys k ↔ start ≤ k ∧ k < stop := by
  rw [inKeys_intoKeys_iff, requestRange_ofKeys, inRange_iff_of_end hstop]

lemma viewsAgree_ofKeys (hstop : stop.isEmpty = false) (hzero : stop ≠ ⟨[0]⟩) :
    ViewsAgree start stop (ofKeys (start, stop)) := by
  have hcontains : ∀ k, (ofKeys (start, stop)).contains k = true ↔ start ≤ k ∧ k < stop := by
    intro k
    rw [((boundedAbove_ofKeys_iff hstop).mpr hzero).contains_iff, requestRange_ofKeys,
      inRange_iff_of_end hstop]
  refine ⟨hcontains, inKeys_ofKeys_iff hstop, fun keyspace mode k => ?_⟩
  rw [inKeys_intoKeys_iff, ← contains_encodeKeyspace_iff_inRange,
    contains_encodeKeyspace_encodeKeyspace, hcontains]

/-- With the single byte zero as its end, the range has no bound: it contains every key from its
start on. -/
lemma contains_ofKeys_zero (start k : Key) (h : start ≤ k) :
    (ofKeys (start, ⟨[0]⟩)).contains k = true := by
  have hlower : (ofKeys (start, ⟨[0]⟩)).lower.startsBefore k = true := by
    rw [startsBefore_iff, intoKeys_ofKeys]
    exact h
  rw [BoundRange.contains, hlower]
  rfl

/-- **The views of a range agree unless its end is the single byte zero.** -/
theorem viewsAgree_iff (start stop : Key) (hstop : stop.isEmpty = false) :
    (ViewsAgree start stop (ofKeys (start, stop)) ∧
      ViewsAgree start stop (ofKeyRange ⟨start, stop⟩)) ↔ stop ≠ ⟨[0]⟩ := by
  constructor
  · rintro ⟨hviews, -⟩ rfl
    have hlast := (hviews.contains (max start ⟨[0]⟩)).mp
      (contains_ofKeys_zero start _ (le_max_left _ _))
    exact absurd hlast.2 (not_lt.mpr (le_max_right _ _))
  · intro hzero
    exact ⟨viewsAgree_ofKeys hstop hzero, viewsAgree_ofKeys hstop hzero⟩

theorem viewsAgree_a_z :
    ViewsAgree ⟨[97]⟩ ⟨[122, 0]⟩ (ofKeys (⟨[97]⟩, ⟨[122, 0]⟩)) ∧
      ViewsAgree ⟨[97]⟩ ⟨[122, 0]⟩ (ofKeyRange ⟨⟨[97]⟩, ⟨[122, 0]⟩⟩) :=
  (viewsAgree_iff ⟨[97]⟩ ⟨[122, 0]⟩ rfl).mpr (by decide)

/-- The range from the empty key to the single byte zero contains the key `a` by its bounds and by
its encoding, and not by its keys. -/
theorem views_differ_at_zero :
    (ofKeys (.empty, ⟨[0]⟩)).contains ⟨[97]⟩ = true ∧
      ¬ InKeys (ofKeys (.empty, ⟨[0]⟩)).intoKeys ⟨[97]⟩ ∧
      InKeys ((ofKeys (.empty, ⟨[0]⟩)).encodeKeyspace (.enable 1) .txn).intoKeys
        (Key.encodeKeyspace ⟨[97]⟩ (.enable 1) .txn) := by
  have hcontains : (ofKeys (.empty, ⟨[0]⟩)).contains ⟨[97]⟩ = true :=
    contains_ofKeys_zero .empty ⟨[97]⟩ (Key.empty_le _)
  refine ⟨hcontains, ?_, ?_⟩
  · rw [inKeys_ofKeys_iff rfl]
    decide
  · rw [inKeys_intoKeys_iff, ← contains_encodeKeyspace_iff_inRange,
      contains_encodeKeyspace_encodeKeyspace]
    exact hcontains

end BoundRange

end TikvClient
