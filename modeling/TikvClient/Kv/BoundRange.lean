import TikvClient.Kv.Key

/-!
# Ranges as pairs of keys

Requests carry a range as two keys `[start, end)`.  A bound that is on the wrong side for that — an
excluded lower or an included upper one — is moved to the next key, by a zero byte at its end; going
back, a final zero byte is read as such a bound.

**Round trip.**  `intoKeys_ofKeys`: a pair of keys read as a range and turned into keys again is the
same pair, whether its keys end with zero bytes or not.
-/

namespace TikvClient

namespace Key

def zeroTerminated (k : Key) : Bool :=
  match k.bytes.getLast? with
  | some b => b == 0
  | none => false

/-- `self.0.pop()`. -/
def pop (k : Key) : Key := ⟨k.bytes.dropLast⟩

def intoLowerBound (k : Key) : Bound :=
  if k.zeroTerminated then .excluded k.pop else .included k

def intoUpperBound (k : Key) : Bound :=
  if k.zeroTerminated then .included k.pop else .excluded k

lemma nextKey_pop {k : Key} (h : k.zeroTerminated = true) : k.pop.nextKey = k := by
  obtain ⟨bytes⟩ := k
  rcases List.eq_nil_or_concat bytes with rfl | ⟨front, b, rfl⟩
  · cases h
  · obtain rfl : b = 0 := by simpa [zeroTerminated] using h
    simp [pop, nextKey]

end Key

namespace BoundRange

/-- `BoundRange::range_from`: no upper bound. -/
def rangeFrom (start : Key) : BoundRange := ⟨.included start, .unbounded⟩

/-- `BoundRange::from((start, end))`. -/
def ofKeys (range : Key × Key) : BoundRange :=
  ⟨range.1.intoLowerBound, range.2.intoUpperBound⟩

/-- `BoundRange::from((start, Option<end>))`. -/
def ofKeysOption (range : Key × Option Key) : BoundRange :=
  ⟨range.1.intoLowerBound, (range.2.map Key.intoUpperBound).getD .unbounded⟩

def intoKeys (r : BoundRange) : Key × Option Key :=
  (match r.lower with
    | .included v => v
    | .excluded v => v.nextKey
    | .unbounded => .empty,
   match r.upper with
    | .included v => some v.nextKey
    | .excluded v => some v
    | .unbounded => none)

/-- **A pair of keys survives the way through a range.** -/
theorem intoKeys_ofKeys (range : Key × Key) :
    (ofKeys range).intoKeys = (range.1, some range.2) := by
  have hlower : ((ofKeys range).intoKeys).1 = range.1 := by
    unfold ofKeys intoKeys Key.intoLowerBound
    split_ifs with h
    · exact Key.nextKey_pop h
    · rfl
  have hupper : ((ofKeys range).intoKeys).2 = some range.2 := by
    unfold ofKeys intoKeys Key.intoUpperBound
    split_ifs with h
    · exact congrArg some (Key.nextKey_pop h)
    · rfl
  rw [← hlower, ← hupper]

lemma intoKeys_ofKeysOption (range : Key × Option Key) :
    (ofKeysOption range).intoKeys = range := by
  obtain ⟨start, stop⟩ := range
  cases stop with
  | none =>
    have hlower := congrArg Prod.fst (intoKeys_ofKeys (start, .empty))
    exact congrArg (·, none) hlower
  | some stop => exact intoKeys_ofKeys (start, stop)

/-- The lower end of the range, as a key. -/
lemma startsBefore_iff (r : BoundRange) (k : Key) :
    r.lower.startsBefore k = true ↔ r.intoKeys.1 ≤ k := by
  obtain ⟨lower, upper⟩ := r
  cases lower <;> simp [intoKeys, Bound.startsBefore, Key.nextKey_le_iff, Key.empty_le]

end BoundRange

end TikvClient
