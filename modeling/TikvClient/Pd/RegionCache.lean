import Mathlib.Data.List.Induction
import Mathlib.Data.Prod.Lex
import TikvClient.Core.Intervals
import TikvClient.Core.SortedMap
import TikvClient.Kv.Key

/-!
# The region cache

The client remembers the regions it has been told about in three maps: the regions themselves by
their versioned id, and two indexes into them, by start key and by id.

**The invariant** is `Indexed`: the three maps describe the same regions, and these are disjoint.
The search for the regions that a new one replaces relies on it — it walks backwards from the end of
the new region and stops at the first region that is out of reach — and so does the lookup of a key,
which looks at a single candidate.

**Time.**  The clock and the random jitter of the expiry are arguments of the operations that use
them.
-/

namespace TikvClient

open SortedMap

/-! ## Regions as intervals -/

instance : LinearOrder RegionVerId :=
  LinearOrder.lift' (fun v => toLex (v.id, toLex (v.confVer, v.ver))) (by
    rintro ⟨i, c, v⟩ ⟨i', c', v'⟩ h
    simpa using h)

instance : Std.LawfulEqOrd RegionVerId where
  eq_of_compare := compare_eq_iff_eq.mp

namespace Region

/-- The region's range is not empty. -/
def WellFormed (r : Region) : Prop := r.startKey < r.endKey ∨ r.endKey.isEmpty = true

/-- The regions have a key in common. -/
def Overlaps (r s : Region) : Prop := ∃ k, r.contains k = true ∧ s.contains k = true

/-- The regions have the same versioned id and the same range. -/
def SameRange (r s : Region) : Prop :=
  r.verId = s.verId ∧ r.startKey = s.startKey ∧ r.endKey = s.endKey

/-- The region's range as an interval. -/
def interval (r : Region) : HalfOpenInterval Key :=
  ⟨r.startKey, if r.endKey.isEmpty then ⊤ else (r.endKey : WithTop Key)⟩

variable {r s : Region} {k : Key}

lemma lt_upper_interval_iff :
    (k : WithTop Key) < r.interval.upper ↔ r.endKey.isEmpty = true ∨ k < r.endKey := by
  unfold interval
  by_cases h : r.endKey.isEmpty = true <;> simp [h]

lemma interval_contains_iff : r.interval.Contains k ↔ r.contains k = true := by
  rw [HalfOpenInterval.Contains, lt_upper_interval_iff, contains]
  simp [interval, or_comm]

lemma interval_proper_iff : r.interval.Proper ↔ r.WellFormed := by
  rw [HalfOpenInterval.Proper, lt_upper_interval_iff, WellFormed, or_comm]
  rfl

lemma interval_overlaps_iff : r.interval.Overlaps s.interval ↔ r.Overlaps s := by
  simp only [HalfOpenInterval.Overlaps, interval_contains_iff, Overlaps]

lemma WellFormed.contains_startKey (h : r.WellFormed) : r.contains r.startKey = true :=
  interval_contains_iff.mp (interval_proper_iff.mpr h).contains_lower

lemma Overlaps.symm (h : r.Overlaps s) : s.Overlaps r :=
  let ⟨k, hr, hs⟩ := h
  ⟨k, hs, hr⟩

lemma SameRange.symm (h : r.SameRange s) : s.SameRange r := ⟨h.1.symm, h.2.1.symm, h.2.2.symm⟩

lemma SameRange.contains_eq (h : r.SameRange s) (k : Key) : r.contains k = s.contains k := by
  rw [contains, contains, h.2.1, h.2.2]

lemma SameRange.wellFormed (h : r.SameRange s) (hr : r.WellFormed) : s.WellFormed := by
  rw [WellFormed, ← h.2.1, ← h.2.2]
  exact hr

end Region

/-! ## Expiry -/

/-- `i64::saturating_add`. -/
def saturatingAddI64 (a b : ℤ) : ℤ := max (-2 ^ 63) (min (a + b) (2 ^ 63 - 1))

/-- How long a region stays cached without being used. -/
structure RegionCacheTtl where
  baseSec : ℤ
  jitterSec : ℤ
deriving DecidableEq

namespace RegionCacheTtl

/-- From the configured durations, in seconds. -/
def new (base jitter : ℕ) : RegionCacheTtl :=
  ⟨min base (2 ^ 63 - 1), min jitter (2 ^ 63 - 1)⟩

def isEnabled (t : RegionCacheTtl) : Bool := decide (0 < t.baseSec)

/-- The expiry of a region that is used now; `jitter` is drawn from `0..jitter_sec`. -/
def nextTtl (t : RegionCacheTtl) (nowEpochSec jitter : ℤ) : ℤ :=
  if !t.isEnabled then 2 ^ 63 - 1
  else
    let jitter := if 0 < t.jitterSec then jitter else 0
    saturatingAddI64 (saturatingAddI64 nowEpochSec t.baseSec) jitter

/-- Whether the entry is still valid, and its expiry after this use. -/
def checkAndRefresh (t : RegionCacheTtl) (ttlEpochSec nowEpochSec jitter : ℤ) : Bool × ℤ :=
  if !t.isEnabled then (true, ttlEpochSec)
  else if nowEpochSec > ttlEpochSec then (false, ttlEpochSec)
  -- Only an entry that is within the base window of its expiry is refreshed.
  else if ttlEpochSec > saturatingAddI64 nowEpochSec t.baseSec then (true, ttlEpochSec)
  else (true, t.nextTtl nowEpochSec jitter)

/-- An entry with this expiry may still be used. -/
def Unexpired (t : RegionCacheTtl) (ttlEpochSec nowEpochSec : ℤ) : Prop :=
  t.isEnabled = true → nowEpochSec ≤ ttlEpochSec

lemma checkAndRefresh_fst (t : RegionCacheTtl) (ttlEpochSec nowEpochSec jitter : ℤ) :
    (t.checkAndRefresh ttlEpochSec nowEpochSec jitter).1 = true ↔
      t.Unexpired ttlEpochSec nowEpochSec := by
  unfold checkAndRefresh Unexpired
  split_ifs <;> simp_all

end RegionCacheTtl

/-! ## The cache -/

/-- A cached region and when it expires. -/
structure CachedRegion where
  region : Region
  ttlEpochSec : ℤ
deriving DecidableEq

/-- **The region cache**: regions by versioned id, and the indexes by start key and by id. -/
structure RegionCacheMap where
  verIdToRegion : Std.ExtTreeMap RegionVerId CachedRegion
  keyToVerId : Std.ExtTreeMap Key RegionVerId
  idToVerId : Std.ExtTreeMap ℕ RegionVerId

namespace RegionCacheMap

def new : RegionCacheMap := ⟨∅, ∅, ∅⟩

/-- The version that a use is about, if it is cached and valid; the use refreshes its expiry. -/
def touch (t : RegionCacheTtl) (c : RegionCacheMap) (verId : RegionVerId) (now jitter : ℤ) :
    RegionCacheMap × Option Region :=
  match c.verIdToRegion[verId]? with
  | none => (c, none)
  | some cached =>
    let (valid, ttlEpochSec) := t.checkAndRefresh cached.ttlEpochSec now jitter
    ({ c with verIdToRegion := c.verIdToRegion.insert verId ⟨cached.region, ttlEpochSec⟩ },
      if valid then some cached.region else none)

/-- The cached lookup of `get_region_by_key`: the region that begins last at or before the key. -/
def lookupByKey (t : RegionCacheTtl) (c : RegionCacheMap) (key : Key) (now jitter : ℤ) :
    RegionCacheMap × Option Region :=
  match (c.keyToVerId.toList.filter fun e => e.1 ≤ key).getLast? with
  | none => (c, none)
  | some (_, verId) =>
    let (c, region) := touch t c verId now jitter
    -- The expiry is checked, and refreshed, before the range.
    (c, region.filter fun r => r.contains key)

/-- The cached lookup of `get_region_by_id`. -/
def lookupById (t : RegionCacheTtl) (c : RegionCacheMap) (id : ℕ) (now jitter : ℤ) :
    RegionCacheMap × Option Region :=
  match c.idToVerId[id]? with
  | none => (c, none)
  | some verId => touch t c verId now jitter

/-- Remove a region from the three maps. -/
def removeRegion (c : RegionCacheMap) (verId : RegionVerId) : RegionCacheMap :=
  match c.verIdToRegion[verId]? with
  | none => c
  | some cached =>
    { verIdToRegion := c.verIdToRegion.erase verId
      keyToVerId := c.keyToVerId.erase cached.region.startKey
      idToVerId := c.idToVerId.erase cached.region.verId.id }

def invalidateRegionCache (c : RegionCacheMap) (verId : RegionVerId) : RegionCacheMap :=
  c.removeRegion verId

def updateLeader (t : RegionCacheTtl) (c : RegionCacheMap) (verId : RegionVerId) (leader : ℕ)
    (now jitter : ℤ) : RegionCacheMap :=
  match c.verIdToRegion[verId]? with
  | none => c
  | some cached =>
    { c with
      verIdToRegion := c.verIdToRegion.insert verId
        ⟨{ cached.region with leader := some leader }, t.nextTtl now jitter⟩ }

/-- The start keys before an end key, the last one first; an empty end key is no bound. -/
def searchRange (c : RegionCacheMap) (endKey : Key) : List (Key × RegionVerId) :=
  (c.keyToVerId.toList.filter fun e => endKey.isEmpty || e.1 < endKey).reverse

/-- Walk backwards over start keys and collect the regions that reach beyond `startKey`, up to the
first that does not.  The second list are start keys that lead nowhere. -/
def collectOverlapped (c : RegionCacheMap) (startKey : Key) :
    List (Key × RegionVerId) → List RegionVerId × List Key
  | [] => ([], [])
  | (start, verId) :: rest =>
    match c.verIdToRegion[verId]? with
    | none =>
      let (overlapped, stale) := c.collectOverlapped startKey rest
      (overlapped, start :: stale)
    | some cached =>
      if cached.region.endKey.isEmpty || startKey < cached.region.endKey then
        let (overlapped, stale) := c.collectOverlapped startKey rest
        (verId :: overlapped, stale)
      else ([], [])

/-- The cached version of the region's id, if it is another one. -/
def otherVersion (c : RegionCacheMap) (region : Region) : List RegionVerId :=
  match c.idToVerId[region.verId.id]? with
  | some verId => if verId ≠ region.verId then [verId] else []
  | none => []

/-- Enter a region into the three maps. -/
def insertRegion (c : RegionCacheMap) (cached : CachedRegion) : RegionCacheMap where
  verIdToRegion := c.verIdToRegion.insert cached.region.verId cached
  keyToVerId := c.keyToVerId.insert cached.region.startKey cached.region.verId
  idToVerId := c.idToVerId.insert cached.region.verId.id cached.region.verId

/-- **Add a region** in place of those it overlaps and of the other version of its id. -/
def addRegion (t : RegionCacheTtl) (c : RegionCacheMap) (region : Region) (now jitter : ℤ) :
    RegionCacheMap :=
  let (overlapped, stale) := c.collectOverlapped region.startKey (c.searchRange region.endKey)
  let toBeRemoved := c.otherVersion region ++ overlapped
  let c := { c with keyToVerId := stale.foldl (fun m k => m.erase k) c.keyToVerId }
  let c := toBeRemoved.foldl removeRegion c
  c.insertRegion ⟨region, t.nextTtl now jitter⟩

/-! ## The invariant -/

/-- **The three maps describe the same regions**, and these are disjoint. -/
structure Indexed (c : RegionCacheMap) : Prop where
  verId : ∀ (v : RegionVerId) (x : CachedRegion), c.verIdToRegion[v]? = some x → x.region.verId = v
  byKey : IsIndex c.keyToVerId c.verIdToRegion fun x => x.region.startKey
  byId : IsIndex c.idToVerId c.verIdToRegion fun x => x.region.verId.id
  wellFormed : ∀ (v : RegionVerId) (x : CachedRegion), c.verIdToRegion[v]? = some x →
    x.region.WellFormed
  disjoint : ∀ (v w : RegionVerId) (x y : CachedRegion), c.verIdToRegion[v]? = some x →
    c.verIdToRegion[w]? = some y → v ≠ w → ¬ x.region.Overlaps y.region

variable {c : RegionCacheMap} {t : RegionCacheTtl} {v w : RegionVerId} {x y : CachedRegion}
  {r : Region} {now jitter : ℤ}

lemma indexed_new : new.Indexed where
  verId := by simp [new]
  byKey := by simp [new, IsIndex]
  byId := by simp [new, IsIndex]
  wellFormed := by simp [new]
  disjoint := by simp [new]

lemma Indexed.replace (h : c.Indexed) (hx : c.verIdToRegion[v]? = some x)
    (hsame : y.region.SameRange x.region) :
    Indexed { c with verIdToRegion := c.verIdToRegion.insert v y } := by
  have hold : ∀ (w : RegionVerId) (z : CachedRegion),
      (c.verIdToRegion.insert v y)[w]? = some z →
      ∃ z', c.verIdToRegion[w]? = some z' ∧ z.region.SameRange z'.region := by
    intro w z hz
    rcases getElem?_insert_eq_some_iff.mp hz with ⟨rfl, rfl⟩ | ⟨-, hz⟩
    · exact ⟨x, hx, hsame⟩
    · exact ⟨z, hz, rfl, rfl, rfl⟩
  refine ⟨fun w z hz => ?_, h.byKey.replace hx hsame.2.1, h.byId.replace hx (by rw [hsame.1]),
    fun w z hz => ?_, fun w w' z z' hz hz' hne => ?_⟩
  · obtain ⟨z', hz', hsame'⟩ := hold w z hz
    exact hsame'.1.trans (h.verId w z' hz')
  · obtain ⟨z', hz', hsame'⟩ := hold w z hz
    exact hsame'.symm.wellFormed (h.wellFormed w z' hz')
  · obtain ⟨u, hu, hsame⟩ := hold w z hz
    obtain ⟨u', hu', hsame'⟩ := hold w' z' hz'
    rintro ⟨k, hk, hk'⟩
    exact h.disjoint w w' u u' hu hu' hne
      ⟨k, (hsame.contains_eq k).symm.trans hk, (hsame'.contains_eq k).symm.trans hk'⟩

lemma Indexed.touch (h : c.Indexed) (v : RegionVerId) (now jitter : ℤ) :
    (touch t c v now jitter).1.Indexed := by
  unfold RegionCacheMap.touch
  split
  · exact h
  next x hx => exact h.replace hx ⟨rfl, rfl, rfl⟩

lemma Indexed.updateLeader (h : c.Indexed) (v : RegionVerId) (leader : ℕ) (now jitter : ℤ) :
    (updateLeader t c v leader now jitter).Indexed := by
  unfold RegionCacheMap.updateLeader
  split
  · exact h
  next x hx => exact h.replace hx ⟨rfl, rfl, rfl⟩

/-! ## Removing and entering regions -/

lemma getElem?_removeRegion (c : RegionCacheMap) (v w : RegionVerId) (y : CachedRegion) :
    (c.removeRegion v).verIdToRegion[w]? = some y ↔ w ≠ v ∧ c.verIdToRegion[w]? = some y := by
  unfold removeRegion
  split
  next hnone =>
    refine ⟨fun hy => ⟨?_, hy⟩, And.right⟩
    rintro rfl
    rw [hnone] at hy
    cases hy
  next x hx => rw [getElem?_erase_eq_some_iff, ne_comm]

lemma Indexed.removeRegion (h : c.Indexed) (v : RegionVerId) : (c.removeRegion v).Indexed := by
  have hold : ∀ (w : RegionVerId) (y : CachedRegion),
      (c.removeRegion v).verIdToRegion[w]? = some y → c.verIdToRegion[w]? = some y :=
    fun w y hy => ((getElem?_removeRegion c v w y).mp hy).2
  refine ⟨fun w y hy => h.verId w y (hold w y hy), ?_, ?_,
    fun w y hy => h.wellFormed w y (hold w y hy), fun w w' y y' hy hy' =>
    h.disjoint w w' y y' (hold w y hy) (hold w' y' hy')⟩
  · unfold RegionCacheMap.removeRegion
    split
    · exact h.byKey
    next x hx => exact h.byKey.erase hx
  · unfold RegionCacheMap.removeRegion
    split
    · exact h.byId
    next x hx => exact h.byId.erase hx

lemma Indexed.removeRegions (verIds : List RegionVerId) :
    ∀ {c : RegionCacheMap}, c.Indexed → (verIds.foldl RegionCacheMap.removeRegion c).Indexed ∧
      ∀ (w : RegionVerId) (y : CachedRegion),
        (verIds.foldl RegionCacheMap.removeRegion c).verIdToRegion[w]? = some y ↔
          w ∉ verIds ∧ c.verIdToRegion[w]? = some y := by
  induction verIds with
  | nil => exact fun h => ⟨h, by simp⟩
  | cons v rest ih =>
    intro c h
    obtain ⟨hindexed, hget⟩ := ih (h.removeRegion v)
    refine ⟨hindexed, fun w y => ?_⟩
    rw [List.foldl_cons, hget, getElem?_removeRegion, List.mem_cons]
    tauto

/-- A region that overlaps none of the cached ones, with an id that none of them has, may be
entered. -/
lemma Indexed.insertRegion (h : c.Indexed) (hwf : x.region.WellFormed)
    (hid : ∀ (v : RegionVerId) (y : CachedRegion), c.verIdToRegion[v]? = some y →
      y.region.verId.id ≠ x.region.verId.id)
    (hdisjoint : ∀ (v : RegionVerId) (y : CachedRegion), c.verIdToRegion[v]? = some y →
      ¬ y.region.Overlaps x.region) : (c.insertRegion x).Indexed := by
  have hrow : c.verIdToRegion[x.region.verId]? = none := by
    cases hy : c.verIdToRegion[x.region.verId]? with
    | none => rfl
    | some y => exact absurd (by rw [h.verId _ y hy]) (hid _ y hy)
  refine ⟨fun v y hy => ?_, h.byKey.insert hrow fun v y hy hstart => ?_, h.byId.insert hrow hid,
    fun v y hy => ?_, fun v w y z hy hz hne => ?_⟩
  · rcases getElem?_insert_eq_some_iff.mp hy with ⟨rfl, rfl⟩ | ⟨-, hy⟩
    · rfl
    · exact h.verId v y hy
  · -- Regions with the same start key overlap there.
    refine hdisjoint v y hy ⟨x.region.startKey, ?_, hwf.contains_startKey⟩
    rw [← hstart]
    exact (h.wellFormed v y hy).contains_startKey
  · rcases getElem?_insert_eq_some_iff.mp hy with ⟨rfl, rfl⟩ | ⟨-, hy⟩
    · exact hwf
    · exact h.wellFormed v y hy
  · rcases getElem?_insert_eq_some_iff.mp hy with ⟨rfl, rfl⟩ | ⟨-, hy⟩
    · rcases getElem?_insert_eq_some_iff.mp hz with ⟨rfl, rfl⟩ | ⟨-, hz⟩
      · exact absurd rfl hne
      · exact fun hoverlap => hdisjoint w z hz hoverlap.symm
    · rcases getElem?_insert_eq_some_iff.mp hz with ⟨rfl, rfl⟩ | ⟨-, hz⟩
      · exact hdisjoint v y hy
      · exact h.disjoint v w y z hy hz hne

/-! ## Finding what a region overlaps -/

def intervalOf (c : RegionCacheMap) (v : RegionVerId) : HalfOpenInterval Key :=
  match c.verIdToRegion[v]? with
  | some x => x.region.interval
  | none => ⟨Key.empty, ⊤⟩

lemma intervalOf_eq (hx : c.verIdToRegion[v]? = some x) : c.intervalOf v = x.region.interval := by
  rw [intervalOf, hx]

variable {e : Key × RegionVerId}

lemma Indexed.exists_of_mem (h : c.Indexed) (he : e ∈ c.keyToVerId.toList) :
    ∃ x : CachedRegion, c.verIdToRegion[e.2]? = some x ∧ x.region.startKey = e.1 :=
  (h.byKey e.1 e.2).mp (Std.ExtTreeMap.mem_toList_iff_getElem?_eq_some.mp he)

lemma Indexed.proper_intervalOf (h : c.Indexed)
    (he : e ∈ c.keyToVerId.toList) : (c.intervalOf e.2).Proper := by
  obtain ⟨x, hx, -⟩ := h.exists_of_mem he
  rw [intervalOf_eq hx]
  exact Region.interval_proper_iff.mpr (h.wellFormed _ x hx)

lemma Indexed.lower_intervalOf (h : c.Indexed)
    (he : e ∈ c.keyToVerId.toList) : (c.intervalOf e.2).lower = e.1 := by
  obtain ⟨x, hx, hstart⟩ := h.exists_of_mem he
  rw [intervalOf_eq hx]
  exact hstart

lemma Indexed.pairwise_lower (h : c.Indexed) :
    c.keyToVerId.toList.Pairwise fun e e' =>
      (c.intervalOf e.2).lower < (c.intervalOf e'.2).lower := by
  refine List.Pairwise.imp_of_mem ?_ (Std.ExtTreeMap.ordered_keys_toList (t := c.keyToVerId))
  intro e e' he he' hlt
  rw [h.lower_intervalOf he, h.lower_intervalOf he']
  exact compare_lt_iff_lt.mp hlt

lemma Indexed.pairwise_disjoint (h : c.Indexed) :
    c.keyToVerId.toList.Pairwise fun e e' =>
      ¬ (c.intervalOf e.2).Overlaps (c.intervalOf e'.2) := by
  refine List.Pairwise.imp_of_mem ?_ h.pairwise_lower
  intro e e' he he' hlt
  obtain ⟨x, hx, -⟩ := h.exists_of_mem he
  obtain ⟨y, hy, -⟩ := h.exists_of_mem he'
  have hne : e.2 ≠ e'.2 := fun heq => by
    rw [heq] at hlt
    exact lt_irrefl _ hlt
  rw [intervalOf_eq hx, intervalOf_eq hy, Region.interval_overlaps_iff]
  exact h.disjoint _ _ x y hx hy hne

/-- The walk over the index collects the regions up to the first that is out of reach. -/
lemma Indexed.collectOverlapped_eq (h : c.Indexed) (startKey : Key) {l : List (Key × RegionVerId)}
    (hl : ∀ e ∈ l, e ∈ c.keyToVerId.toList) :
    c.collectOverlapped startKey l =
      ((l.takeWhile fun e => ((startKey : Key) : WithTop Key) < (c.intervalOf e.2).upper).map
        Prod.snd, []) := by
  induction l with
  | nil => rfl
  | cons e rest ih =>
    obtain ⟨start, verId⟩ := e
    obtain ⟨x, hx, -⟩ := h.exists_of_mem (hl _ List.mem_cons_self)
    have hreach : ((x.region.endKey.isEmpty || decide (startKey < x.region.endKey)) = true) ↔
        ((startKey : Key) : WithTop Key) < (c.intervalOf verId).upper := by
      rw [intervalOf_eq hx, Region.lt_upper_interval_iff]
      simp
    rw [RegionCacheMap.collectOverlapped, hx]
    simp only [ih fun e he => hl e (List.mem_cons_of_mem _ he)]
    split_ifs with hlt
    · rw [List.takeWhile_cons_of_pos (by simpa using hreach.mp hlt)]
      rfl
    · rw [List.takeWhile_cons_of_neg (by simpa using fun h' => hlt (hreach.mpr h'))]
      rfl

/-- **What is collected are the regions that overlap the new one.** -/
lemma Indexed.mem_collectOverlapped (h : c.Indexed) (hwf : r.WellFormed) :
    v ∈ (c.collectOverlapped r.startKey (c.searchRange r.endKey)).1 ↔
      ∃ x : CachedRegion, c.verIdToRegion[v]? = some x ∧ x.region.Overlaps r := by
  have hmem : ∀ e ∈ c.searchRange r.endKey, e ∈ c.keyToVerId.toList := fun e he =>
    (List.mem_filter.mp (List.mem_reverse.mp he)).1
  have hsorted : (c.searchRange r.endKey).Pairwise fun e e' =>
      (c.intervalOf e'.2).lower < (c.intervalOf e.2).lower :=
    List.pairwise_reverse.mpr (h.pairwise_lower.filter _)
  have hdisjoint : (c.searchRange r.endKey).Pairwise fun e e' =>
      ¬ (c.intervalOf e.2).Overlaps (c.intervalOf e'.2) :=
    List.pairwise_reverse.mpr ((h.pairwise_disjoint.filter _).imp fun hno hyes => hno hyes.symm)
  rw [h.collectOverlapped_eq r.startKey hmem,
    ← HalfOpenInterval.filter_lt_upper (fun e : Key × RegionVerId => c.intervalOf e.2)
      (fun e he => h.proper_intervalOf (hmem e he)) hsorted hdisjoint]
  have hoverlaps : ∀ x : CachedRegion, c.verIdToRegion[v]? = some x →
      (x.region.Overlaps r ↔ (r.endKey.isEmpty = true ∨ x.region.startKey < r.endKey) ∧
        ((r.startKey : Key) : WithTop Key) < (c.intervalOf v).upper) := by
    intro x hx
    rw [← Region.interval_overlaps_iff, HalfOpenInterval.overlaps_iff
      (Region.interval_proper_iff.mpr (h.wellFormed v x hx)) (Region.interval_proper_iff.mpr hwf),
      ← Region.lt_upper_interval_iff, intervalOf_eq hx]
    rfl
  constructor
  · intro hv
    obtain ⟨⟨start, v⟩, he, rfl⟩ := List.mem_map.mp hv
    obtain ⟨he, hreach⟩ := List.mem_filter.mp he
    obtain ⟨x, hx, hstart⟩ := h.exists_of_mem (hmem _ he)
    refine ⟨x, hx, (hoverlaps x hx).mpr ⟨?_, of_decide_eq_true hreach⟩⟩
    have hend := (List.mem_filter.mp (List.mem_reverse.mp he)).2
    rw [hstart]
    simpa using hend
  · rintro ⟨x, hx, hoverlap⟩
    obtain ⟨hend, hreach⟩ := (hoverlaps x hx).mp hoverlap
    refine List.mem_map.mpr ⟨(x.region.startKey, v), List.mem_filter.mpr
      ⟨List.mem_reverse.mpr (List.mem_filter.mpr ⟨?_, by simpa using hend⟩),
        decide_eq_true hreach⟩, rfl⟩
    exact Std.ExtTreeMap.mem_toList_iff_getElem?_eq_some.mpr
      ((h.byKey _ _).mpr ⟨x, hx, rfl⟩)

lemma Indexed.mem_otherVersion (h : c.Indexed) :
    v ∈ c.otherVersion r ↔
      v ≠ r.verId ∧ ∃ x : CachedRegion, c.verIdToRegion[v]? = some x ∧ v.id = r.verId.id := by
  have hid : c.idToVerId[r.verId.id]? = some v ↔
      ∃ x : CachedRegion, c.verIdToRegion[v]? = some x ∧ v.id = r.verId.id := by
    rw [h.byId]
    exact exists_congr fun x => and_congr_right fun hx => by simp only [h.verId v x hx]
  rw [← hid]
  unfold otherVersion
  cases hw : c.idToVerId[r.verId.id]? with
  | none => simp
  | some w =>
    rw [Option.some_inj]
    dsimp only
    split_ifs with hne
    · rw [List.mem_singleton]
      constructor
      · rintro rfl
        exact ⟨hne, rfl⟩
      · exact fun hv => hv.2.symm
    · refine iff_of_false (List.not_mem_nil) fun hv => hv.1 ?_
      rw [← hv.2]
      exact not_not.mp hne

/-! ## Adding a region -/

/-- The cache without what a new region replaces. -/
def withoutReplaced (c : RegionCacheMap) (r : Region) : RegionCacheMap :=
  (c.otherVersion r ++ (c.collectOverlapped r.startKey (c.searchRange r.endKey)).1).foldl
    removeRegion c

lemma Indexed.addRegion_eq (h : c.Indexed) :
    addRegion t c r now jitter = (c.withoutReplaced r).insertRegion ⟨r, t.nextTtl now jitter⟩ := by
  have hmem : ∀ e ∈ c.searchRange r.endKey, e ∈ c.keyToVerId.toList := fun e he =>
    (List.mem_filter.mp (List.mem_reverse.mp he)).1
  have hstale : (c.collectOverlapped r.startKey (c.searchRange r.endKey)).2 = [] := by
    rw [h.collectOverlapped_eq r.startKey hmem]
  unfold addRegion withoutReplaced
  simp only [hstale, List.foldl_nil]

/-- **What a new region replaces**: the regions it overlaps and the other version of its id. -/
lemma Indexed.withoutReplaced (h : c.Indexed) (hwf : r.WellFormed) :
    (c.withoutReplaced r).Indexed ∧
      ∀ (v : RegionVerId) (x : CachedRegion),
        (c.withoutReplaced r).verIdToRegion[v]? = some x ↔
          c.verIdToRegion[v]? = some x ∧ ¬ x.region.Overlaps r ∧
            ¬ (v ≠ r.verId ∧ v.id = r.verId.id) := by
  obtain ⟨hindexed, hget⟩ := Indexed.removeRegions
    (c.otherVersion r ++ (c.collectOverlapped r.startKey (c.searchRange r.endKey)).1) h
  refine ⟨hindexed, fun v x => ?_⟩
  rw [RegionCacheMap.withoutReplaced, hget, List.mem_append, h.mem_otherVersion,
    h.mem_collectOverlapped hwf, and_comm]
  refine and_congr_right fun hx => ?_
  simp only [hx, Option.some.injEq, exists_eq_left']
  tauto

end RegionCacheMap

/-! ## Histories -/

inductive CacheOp where
  | addRegion (region : Region) (now jitter : ℤ)
  | updateLeader (verId : RegionVerId) (leader : ℕ) (now jitter : ℤ)
  | invalidateRegionCache (verId : RegionVerId)
  | lookupByKey (key : Key) (now jitter : ℤ)
  | lookupById (id : ℕ) (now jitter : ℤ)

/-- The regions an operation enters satisfy `U`. -/
def CacheOp.Adds (U : Region → Prop) : CacheOp → Prop
  | .addRegion region _ _ => U region
  | _ => True

/-- What PD promises of the regions it knows over time. -/
structure Served (U : Region → Prop) : Prop where
  wellFormed : ∀ r, U r → r.WellFormed
  sameRange : ∀ r s, U r → U s → r.verId = s.verId → r.SameRange s

namespace RegionCacheMap

def step (t : RegionCacheTtl) (c : RegionCacheMap) : CacheOp → RegionCacheMap
  | .addRegion region now jitter => addRegion t c region now jitter
  | .updateLeader verId leader now jitter => updateLeader t c verId leader now jitter
  | .invalidateRegionCache verId => c.invalidateRegionCache verId
  | .lookupByKey key now jitter => (lookupByKey t c key now jitter).1
  | .lookupById id now jitter => (lookupById t c id now jitter).1

/-- The cache after a history of operations. -/
def run (t : RegionCacheTtl) (c : RegionCacheMap) (ops : List CacheOp) : RegionCacheMap :=
  ops.foldl (step t) c

/-- Every cached region has the range of one that PD knew. -/
def CachesOnly (U : Region → Prop) (c : RegionCacheMap) : Prop :=
  ∀ (v : RegionVerId) (x : CachedRegion), c.verIdToRegion[v]? = some x →
    ∃ r, U r ∧ x.region.SameRange r

variable {c : RegionCacheMap} {t : RegionCacheTtl} {U : Region → Prop} {r : Region}
  {now jitter : ℤ}

/-- Nothing that is left has the new region's versioned id: it would overlap it. -/
lemma Indexed.addRegion (hU : Served U) (h : c.Indexed) (hc : c.CachesOnly U) (hr : U r) :
    (addRegion t c r now jitter).Indexed := by
  obtain ⟨hindexed, hget⟩ := h.withoutReplaced (hU.wellFormed r hr)
  rw [h.addRegion_eq]
  refine hindexed.insertRegion (hU.wellFormed r hr) (fun v y hy hid => ?_) fun v y hy => ?_
  · obtain ⟨hy, hno, hother⟩ := (hget v y).mp hy
    rw [h.verId v y hy] at hid
    have hv : v = r.verId := by
      by_contra hne
      exact hother ⟨hne, hid⟩
    obtain ⟨s, hs, hsame⟩ := hc v y hy
    have hsame' : y.region.SameRange r := by
      have hrs := hU.sameRange s r hs hr (hsame.1.symm.trans ((h.verId v y hy).trans hv))
      exact ⟨hsame.1.trans hrs.1, hsame.2.1.trans hrs.2.1, hsame.2.2.trans hrs.2.2⟩
    have hstart := (hU.wellFormed r hr).contains_startKey
    exact hno ⟨r.startKey, (hsame'.contains_eq _).trans hstart, hstart⟩
  · exact ((hget v y).mp hy).2.1

lemma CachesOnly.addRegion (h : c.Indexed) (hwf : r.WellFormed) (hc : c.CachesOnly U)
    (hr : U r) : (RegionCacheMap.addRegion t c r now jitter).CachesOnly U := by
  intro v x hx
  rw [h.addRegion_eq] at hx
  rcases getElem?_insert_eq_some_iff.mp hx with ⟨rfl, rfl⟩ | ⟨-, hx⟩
  · exact ⟨r, hr, rfl, rfl, rfl⟩
  · exact hc v x (((h.withoutReplaced hwf).2 v x).mp hx).1

variable {v : RegionVerId}

lemma CachesOnly.replace (hc : c.CachesOnly U) {x y : CachedRegion}
    (hx : c.verIdToRegion[v]? = some x) (hsame : y.region.SameRange x.region) :
    CachesOnly U { c with verIdToRegion := c.verIdToRegion.insert v y } := by
  intro w z hz
  rcases getElem?_insert_eq_some_iff.mp hz with ⟨rfl, rfl⟩ | ⟨-, hz⟩
  · obtain ⟨r, hr, hxr⟩ := hc v x hx
    exact ⟨r, hr, hsame.1.trans hxr.1, hsame.2.1.trans hxr.2.1, hsame.2.2.trans hxr.2.2⟩
  · exact hc w z hz

lemma CachesOnly.touch (hc : c.CachesOnly U) (v : RegionVerId) (now jitter : ℤ) :
    (RegionCacheMap.touch t c v now jitter).1.CachesOnly U := by
  unfold RegionCacheMap.touch
  split
  · exact hc
  next x hx => exact hc.replace hx ⟨rfl, rfl, rfl⟩

lemma lookupByKey_fst (t : RegionCacheTtl) (c : RegionCacheMap) (key : Key) (now jitter : ℤ) :
    (lookupByKey t c key now jitter).1 = c ∨
      ∃ v, (lookupByKey t c key now jitter).1 = (touch t c v now jitter).1 := by
  unfold lookupByKey
  split
  · exact .inl rfl
  next v _ => exact .inr ⟨v, rfl⟩

lemma lookupById_fst (t : RegionCacheTtl) (c : RegionCacheMap) (id : ℕ) (now jitter : ℤ) :
    (lookupById t c id now jitter).1 = c ∨
      ∃ v, (lookupById t c id now jitter).1 = (touch t c v now jitter).1 := by
  unfold lookupById
  split
  · exact .inl rfl
  next v _ => exact .inr ⟨v, rfl⟩

/-- **One operation** keeps the invariant. -/
lemma step_indexed (hU : Served U) {op : CacheOp} (hop : op.Adds U)
    (h : c.Indexed ∧ c.CachesOnly U) : (step t c op).Indexed ∧ (step t c op).CachesOnly U := by
  obtain ⟨h, hc⟩ := h
  cases op with
  | addRegion region now jitter =>
    exact ⟨h.addRegion hU hc hop, hc.addRegion h (hU.wellFormed region hop) hop⟩
  | updateLeader verId leader now jitter =>
    refine ⟨h.updateLeader verId leader now jitter, ?_⟩
    simp only [step, RegionCacheMap.updateLeader]
    split
    · exact hc
    next x hx => exact hc.replace hx ⟨rfl, rfl, rfl⟩
  | invalidateRegionCache verId =>
    exact ⟨h.removeRegion verId, fun w y hy =>
      hc w y ((getElem?_removeRegion c verId w y).mp hy).2⟩
  | lookupByKey key now jitter =>
    rcases lookupByKey_fst t c key now jitter with heq | ⟨v, heq⟩
    · rw [step, heq]
      exact ⟨h, hc⟩
    · rw [step, heq]
      exact ⟨h.touch v now jitter, hc.touch v now jitter⟩
  | lookupById id now jitter =>
    rcases lookupById_fst t c id now jitter with heq | ⟨v, heq⟩
    · rw [step, heq]
      exact ⟨h, hc⟩
    · rw [step, heq]
      exact ⟨h.touch v now jitter, hc.touch v now jitter⟩

/-- **Along a history** the cache stays indexed. -/
lemma run_indexed (hU : Served U) (ops : List CacheOp) (hops : ∀ op ∈ ops, op.Adds U) :
    (run t new ops).Indexed ∧ (run t new ops).CachesOnly U := by
  induction ops using List.reverseRecOn with
  | nil => exact ⟨indexed_new, fun v x hx => by simp [run, new] at hx⟩
  | append_singleton ops op ih =>
    rw [run, List.foldl_append]
    exact step_indexed hU (hops op (List.mem_append_right _ List.mem_cons_self))
      (ih fun o ho => hops o (List.mem_append_left _ ho))

/-- **The index invariant of the region cache.**  After every history the three maps describe the
same disjoint regions, and adding a region removes exactly those that it overlaps and the other
version of its id. -/
theorem region_cache_indexed (t : RegionCacheTtl) (U : Region → Prop) (hU : Served U)
    (ops : List CacheOp) (hops : ∀ op ∈ ops, op.Adds U) :
    (run t new ops).Indexed ∧
      ∀ r, U r → ∀ (now jitter : ℤ) (v : RegionVerId) (x : CachedRegion),
        (addRegion t (run t new ops) r now jitter).verIdToRegion[v]? = some x ↔
          (v = r.verId ∧ x = ⟨r, t.nextTtl now jitter⟩) ∨
          (v ≠ r.verId ∧ (run t new ops).verIdToRegion[v]? = some x ∧
            ¬ (x.region.Overlaps r ∨ v.id = r.verId.id)) := by
  obtain ⟨h, hc⟩ := run_indexed (t := t) hU ops hops
  refine ⟨h, fun r hr now jitter v x => ?_⟩
  rw [h.addRegion_eq, insertRegion, getElem?_insert_eq_some_iff,
    (h.withoutReplaced (hU.wellFormed r hr)).2, eq_comm (a := r.verId), ne_comm,
    eq_comm (a := CachedRegion.mk r _)]
  tauto

/-- Two neighbours are cached, and then their merger replaces both. -/
theorem region_cache_indexed_merge :
    let t : RegionCacheTtl := .new 600 60
    let a : Region := ⟨⟨1, 1, 1⟩, ⟨[]⟩, ⟨[5]⟩, none⟩
    let b : Region := ⟨⟨2, 1, 1⟩, ⟨[5]⟩, ⟨[]⟩, none⟩
    let m : Region := ⟨⟨1, 1, 2⟩, ⟨[]⟩, ⟨[]⟩, none⟩
    let c := run t new [.addRegion a 0 0, .addRegion b 0 0]
    c.Indexed ∧ c.keyToVerId.toList = [(⟨[]⟩, a.verId), (⟨[5]⟩, b.verId)] ∧
      ∀ (v : RegionVerId) (x : CachedRegion),
        (addRegion t c m 0 0).verIdToRegion[v]? = some x → v = m.verId := by
  intro t a b m c
  have hU : Served fun r => r = a ∨ r = b ∨ r = m := by
    refine ⟨?_, ?_⟩
    · rintro r (rfl | rfl | rfl)
      · exact .inl (by decide)
      · exact .inr rfl
      · exact .inr rfl
    · rintro r s (rfl | rfl | rfl) (rfl | rfl | rfl) hv <;>
        first
        | exact ⟨rfl, rfl, rfl⟩
        | exact absurd hv (by decide)
  obtain ⟨hindexed, hadd⟩ := region_cache_indexed t _ hU
    [.addRegion a 0 0, .addRegion b 0 0] (by simp [CacheOp.Adds])
  refine ⟨hindexed, by decide, fun v x hx => ?_⟩
  rcases (hadd m (.inr (.inr rfl)) 0 0 v x).mp hx with ⟨hv, -⟩ | ⟨-, hold, hno⟩
  · exact hv
  · -- The merger covers every key, so nothing cached is left.
    exfalso
    refine hno (.inl ⟨x.region.startKey, (hindexed.wellFormed v x hold).contains_startKey, ?_⟩)
    simpa [m, Region.contains, Key.isEmpty, Key.empty] using Key.empty_le x.region.startKey

/-! ## Lookups -/

lemma touch_snd :
    (touch t c v now jitter).2 = some r ↔
      ∃ x : CachedRegion, c.verIdToRegion[v]? = some x ∧ x.region = r ∧
        t.Unexpired x.ttlEpochSec now := by
  unfold touch
  cases hx : c.verIdToRegion[v]? with
  | none => simp
  | some x =>
    simp only [Option.ite_none_right_eq_some, Option.some.injEq, exists_eq_left',
      t.checkAndRefresh_fst, and_comm]

/-- **The lookup of a key hits exactly if a cached, unexpired region contains it**, and returns that
region. -/
lemma Indexed.lookupByKey_eq_some_iff (h : c.Indexed) {key : Key} :
    (lookupByKey t c key now jitter).2 = some r ↔
      ∃ (v : RegionVerId) (x : CachedRegion), c.verIdToRegion[v]? = some x ∧ x.region = r ∧
        t.Unexpired x.ttlEpochSec now ∧ r.contains key = true := by
  have hfilter : (c.keyToVerId.toList.filter fun e => e.1 ≤ key) =
      c.keyToVerId.toList.filter fun e => (c.intervalOf e.2).lower ≤ key :=
    List.filter_congr fun e he => by rw [h.lower_intervalOf he]
  have hmem : ∀ (v : RegionVerId) (x : CachedRegion), c.verIdToRegion[v]? = some x →
      (x.region.startKey, v) ∈ c.keyToVerId.toList := fun v x hx =>
    Std.ExtTreeMap.mem_toList_iff_getElem?_eq_some.mpr ((h.byKey _ _).mpr ⟨x, hx, rfl⟩)
  unfold lookupByKey
  rw [hfilter]
  cases hlast : (c.keyToVerId.toList.filter
      fun e => (c.intervalOf e.2).lower ≤ key).getLast? with
  | none =>
    refine iff_of_false (by simp) ?_
    rintro ⟨v, x, hx, rfl, -, hkey⟩
    rw [List.getLast?_eq_none_iff, List.filter_eq_nil_iff] at hlast
    refine hlast _ (hmem v x hx) ?_
    rw [decide_eq_true_iff, h.lower_intervalOf (hmem v x hx)]
    exact (Region.interval_contains_iff.mpr hkey).1
  | some e =>
    obtain ⟨start, w⟩ := e
    simp only [Option.filter_eq_some_iff, touch_snd]
    constructor
    · rintro ⟨⟨x, hx, rfl, hvalid⟩, hkey⟩
      exact ⟨w, x, hx, rfl, hvalid, hkey⟩
    · rintro ⟨v, x, hx, rfl, hvalid, hkey⟩
      have heq : (x.region.startKey, v) = (start, w) :=
        HalfOpenInterval.eq_of_getLast?_of_contains
          (fun e : Key × RegionVerId => c.intervalOf e.2)
          (fun e he => h.proper_intervalOf he) h.pairwise_lower h.pairwise_disjoint hlast
          (hmem v x hx) (by
            rw [intervalOf_eq hx]
            exact Region.interval_contains_iff.mpr hkey)
      cases heq
      exact ⟨⟨x, hx, rfl, hvalid⟩, hkey⟩

end RegionCacheMap

end TikvClient
