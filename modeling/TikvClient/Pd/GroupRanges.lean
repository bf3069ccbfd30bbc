import TikvClient.Request.RangeShard

/-!
# Grouping ranges by region

`group_ranges_by_region` takes ranges off a stack.  A group begins with the top one, in the region
of its start key, and goes on with the ranges below it as long as they begin in that region.  A
range that goes beyond the region is cut at its end; the rest of it goes back on the stack, and the
group ends.

**What is emitted** is in order a partition of each of the ranges (`CutsInto`), as long as no part
is empty (`cutsInto_takeRanges`).

**Empty parts.**  The test for beginning in the region lets a range pass that begins where the
region ends.  Such a range is cut into nothing and itself.  This happens if it comes right behind a
range that ends in the region (`Touches`), and only then (`isChain_takeRanges_iff`).

**The end.**  Every group takes a range off the stack, or moves the start of one to a later region
(`work_takeGroup_lt`).
-/

namespace TikvClient

open Proto

/-- The two keys of the range. -/
def Proto.KeyRange.keys (range : KeyRange) : Key × Key := (range.startKey, range.endKey)

/-- The range is not empty. -/
def Proto.KeyRange.Proper (range : KeyRange) : Prop :=
  range.startKey < range.endKey ∨ range.endKey.isEmpty = true

/-- The test for cutting a range at the end of a region. -/
def Region.endsBefore (region : Region) (range : KeyRange) : Bool :=
  !region.endKey.isEmpty && (decide (region.endKey < range.endKey) || range.endKey.isEmpty)

/-- The loop that goes on with a group: the ranges that are taken from the stack, and what is left
of it.  The top of the stack comes first. -/
def takeRanges (region : Region) : List KeyRange → List KeyRange × List KeyRange
  | [] => ([], [])
  | range :: ranges =>
    if range.startKey < region.startKey ∨ range.startKey > region.endKey then
      ([], range :: ranges)
    else if region.endsBefore range then
      ([⟨range.startKey, region.endKey⟩], ⟨region.endKey, range.endKey⟩ :: ranges)
    else
      let taken := takeRanges region ranges
      (range :: taken.1, taken.2)

/-- A group that begins with the range. -/
def takeGroup (region : Region) (range : KeyRange) (ranges : List KeyRange) :
    List KeyRange × List KeyRange :=
  if region.endsBefore range then
    ([⟨range.startKey, region.endKey⟩], ⟨region.endKey, range.endKey⟩ :: ranges)
  else
    let taken := takeRanges region ranges
    (range :: taken.1, taken.2)

def groupRangesByRegion : ℕ → List KeyRange → AsyncResult (List (List KeyRange × Region))
  | 0, _ => .stuck
  | _ + 1, [] => .ret (.ok [])
  | fuel + 1, range :: ranges =>
    (Async.regionForKey range.startKey).andThen fun region =>
    let taken := takeGroup region range ranges
    (groupRangesByRegion fuel taken.2).andThen fun groups =>
    .ret (.ok ((taken.1, region) :: groups))

/-- The parts of a group, with their region. -/
def partsIn (region : Region) (grouped : List KeyRange) : List ((Key × Key) × Region) :=
  grouped.map fun range => (range.keys, region)

/-- What the stream emits, part by part. -/
def emitted (groups : List (List KeyRange × Region)) : List ((Key × Key) × Region) :=
  groups.flatMap fun group => partsIn group.2 group.1

/-- **In order, a partition of each of the ranges.** -/
inductive CutsInto : List KeyRange → List ((Key × Key) × Region) → Prop
  | nil : CutsInto [] []
  | cons {range : KeyRange} {ranges : List KeyRange} {parts out : List ((Key × Key) × Region)} :
      PartitionsRange range.keys parts → CutsInto ranges out →
        CutsInto (range :: ranges) (parts ++ out)

/-- The second range begins at the end of the region in which the first one ends. -/
def Touches (regions : List Region) (first second : KeyRange) : Prop :=
  ∃ region ∈ regions, region.startKey < first.endKey ∧ first.endKey ≤ region.endKey ∧
    second.startKey = region.endKey

/-! ## Cutting one range -/

section Cut

variable {region : Region} {range : KeyRange} {parts : List ((Key × Key) × Region)}

lemma Region.endsBefore_iff : region.endsBefore range = true ↔
    region.endKey.isEmpty = false ∧
      (region.endKey < range.endKey ∨ range.endKey.isEmpty = true) := by
  simp [Region.endsBefore]

lemma Region.not_endsBefore_iff : ¬ region.endsBefore range = true ↔
    region.endKey.isEmpty = true ∨
      range.endKey ≤ region.endKey ∧ range.endKey.isEmpty = false := by
  rw [Region.endsBefore_iff]
  cases region.endKey.isEmpty <;> simp

lemma Region.proper_rest (h : region.endsBefore range = true) :
    KeyRange.Proper ⟨region.endKey, range.endKey⟩ :=
  (Region.endsBefore_iff.mp h).2

lemma partitionsRange_whole (hproper : range.Proper) (hstart : region.startKey ≤ range.startKey)
    (hends : ¬ region.endsBefore range = true) :
    PartitionsRange range.keys [(range.keys, region)] where
  nonempty := List.forall_mem_singleton.mpr ⟨range.startKey, le_rfl, hproper⟩
  ordered := List.pairwise_singleton _ _
  inRegion := by
    refine List.forall_mem_singleton.mpr fun k hk => ?_
    refine Region.contains_iff_inRange.mpr ⟨hstart.trans hk.1, ?_⟩
    rcases Region.not_endsBefore_iff.mp hends with hlast | ⟨hle, hend⟩
    · exact .inr hlast
    · have hlt : k < range.endKey := hk.2.resolve_right (by simpa [KeyRange.keys] using hend)
      exact .inl (hlt.trans_le hle)
  union k := by simp

/-- A range that is cut: the part before the end of the region, and the parts of the rest. -/
lemma partitionsRange_cut (hlt : range.startKey < region.endKey)
    (hstart : region.startKey ≤ range.startKey) (hends : region.endsBefore range = true)
    (hrest : PartitionsRange (region.endKey, range.endKey) parts) :
    PartitionsRange range.keys (((range.startKey, region.endKey), region) :: parts) := by
  obtain ⟨hend, hbeyond⟩ := Region.endsBefore_iff.mp hends
  have hhead : ∀ k, InRange (range.startKey, region.endKey) k ↔
      range.startKey ≤ k ∧ k < region.endKey := by simp [InRange, hend]
  refine ⟨?_, ?_, ?_, fun k => ?_⟩
  · refine List.forall_mem_cons.mpr ⟨⟨range.startKey, le_rfl, .inl hlt⟩, hrest.nonempty⟩
  · refine List.pairwise_cons.mpr ⟨fun s hs k k' hk hk' => ?_, hrest.ordered⟩
    exact ((hhead k).mp hk).2.trans_le ((hrest.union k').mpr ⟨s, hs, hk'⟩).1
  · refine List.forall_mem_cons.mpr ⟨fun k hk => ?_, hrest.inRegion⟩
    obtain ⟨hlower, hupper⟩ := (hhead k).mp hk
    exact Region.contains_iff_inRange.mpr ⟨hstart.trans hlower, .inl hupper⟩
  · rw [List.exists_mem_cons_iff, hhead, ← hrest.union]
    constructor
    · rintro ⟨hlower, hupper⟩
      rcases lt_or_ge k region.endKey with hk | hk
      · exact .inl ⟨hlower, hk⟩
      · exact .inr ⟨hk, hupper⟩
    · rintro (⟨hlower, hupper⟩ | ⟨hlower, hupper⟩)
      · exact ⟨hlower, hbeyond.imp_left hupper.trans⟩
      · exact ⟨hlt.le.trans hlower, hupper⟩

end Cut

/-! ## What is emitted -/

section Parts

variable {region : Region} {ranges : List KeyRange} {out : List ((Key × Key) × Region)}

/-- The step that cuts a range, on what is emitted for the rest of the stack. -/
lemma CutsInto.cut {range : KeyRange} (hlt : range.startKey < region.endKey)
    (hstart : region.startKey ≤ range.startKey) (hends : region.endsBefore range = true)
    (h : CutsInto (⟨region.endKey, range.endKey⟩ :: ranges) out) :
    CutsInto (range :: ranges) (((range.startKey, region.endKey), region) :: out) := by
  cases h with
  | cons hparts hout => exact .cons (partitionsRange_cut hlt hstart hends hparts) hout

/-- The step that keeps a range whole. -/
lemma CutsInto.whole {range : KeyRange} {grouped : List KeyRange} (hrange : range.Proper)
    (hstart : region.startKey ≤ range.startKey) (hends : ¬ region.endsBefore range = true)
    (h : CutsInto ranges (partsIn region grouped ++ out)) :
    CutsInto (range :: ranges) (partsIn region (range :: grouped) ++ out) := by
  rw [partsIn, List.map_cons, List.cons_append, ← List.singleton_append]
  exact .cons (partitionsRange_whole hrange hstart hends) h

/-- A part up to the end of a region is not empty if it begins before it. -/
lemma proper_upTo_iff {start : Key} (hend : region.endKey.isEmpty = false) :
    KeyRange.Proper ⟨start, region.endKey⟩ ↔ start < region.endKey := by
  simp [KeyRange.Proper, hend]

variable (hranges : ∀ range ∈ ranges, range.Proper)

include hranges

/-- **What a group takes from the stack** is cut correctly, as long as no part is empty. -/
lemma cutsInto_takeRanges
    (hparts : ∀ part ∈ (takeRanges region ranges).1, part.Proper)
    (h : CutsInto (takeRanges region ranges).2 out) :
    CutsInto ranges (partsIn region (takeRanges region ranges).1 ++ out) := by
  induction ranges with
  | nil => exact h
  | cons range ranges ih =>
    obtain ⟨hrange, hranges⟩ := List.forall_mem_cons.mp hranges
    unfold takeRanges at hparts h ⊢
    split_ifs at hparts h ⊢ with hstart hends
    · exact h
    · rw [not_or, not_lt] at hstart
      have hend := (Region.endsBefore_iff.mp hends).1
      exact h.cut ((proper_upTo_iff hend).mp (List.forall_mem_singleton.mp hparts)) hstart.1 hends
    · rw [not_or, not_lt] at hstart
      exact (ih hranges (List.forall_mem_cons.mp hparts).2 h).whole hrange hstart.1 hends

lemma cutsInto_takeGroup {range : KeyRange} (hrange : range.Proper)
    (hstart : region.contains range.startKey = true)
    (hparts : ∀ part ∈ (takeGroup region range ranges).1, part.Proper)
    (h : CutsInto (takeGroup region range ranges).2 out) :
    CutsInto (range :: ranges) (partsIn region (takeGroup region range ranges).1 ++ out) := by
  have hstart := (Region.contains_iff_inRange.mp hstart).1
  unfold takeGroup at hparts h ⊢
  split_ifs at hparts h ⊢ with hends
  · have hend := (Region.endsBefore_iff.mp hends).1
    exact h.cut ((proper_upTo_iff hend).mp (List.forall_mem_singleton.mp hparts)) hstart hends
  · have htaken := cutsInto_takeRanges hranges (List.forall_mem_cons.mp hparts).2 h
    exact htaken.whole hrange hstart hends

lemma proper_takeRanges_rest : ∀ range ∈ (takeRanges region ranges).2, range.Proper := by
  induction ranges with
  | nil => exact hranges
  | cons range ranges ih =>
    obtain ⟨hrange, htail⟩ := List.forall_mem_cons.mp hranges
    unfold takeRanges
    split_ifs with hstart hends
    · exact hranges
    · exact List.forall_mem_cons.mpr ⟨Region.proper_rest hends, htail⟩
    · exact ih htail

lemma proper_takeGroup_rest {range : KeyRange} :
    ∀ rest ∈ (takeGroup region range ranges).2, rest.Proper := by
  unfold takeGroup
  split_ifs with hends
  · exact List.forall_mem_cons.mpr ⟨Region.proper_rest hends, hranges⟩
  · exact proper_takeRanges_rest hranges

end Parts

/-! ## Empty parts -/

section Touching

variable {regions : List Region} {region : Region} {first : KeyRange} {ranges : List KeyRange}

/-- No range touches the one before it. -/
abbrev NoneTouches (regions : List Region) (ranges : List KeyRange) : Prop :=
  ranges.IsChain fun first second => ¬ Touches regions first second

lemma noneTouches_congr {second : KeyRange} (hend : first.endKey = second.endKey) :
    NoneTouches regions (first :: ranges) ↔ NoneTouches regions (second :: ranges) := by
  cases ranges with
  | nil => simp
  | cons range ranges => simp [NoneTouches, Touches, hend]

/-- A range that lies in a region is touched by those that begin at the region's end. -/
lemma touches_iff (hregions : IsPartition regions) (hregion : region ∈ regions)
    (hproper : first.Proper) (hstart : region.startKey ≤ first.startKey)
    (hends : ¬ region.endsBefore first = true) (second : KeyRange) :
    Touches regions first second ↔
      region.endKey.isEmpty = false ∧ second.startKey = region.endKey := by
  have hwithin := Region.not_endsBefore_iff.mp hends
  constructor
  · rintro ⟨other, hother, hlower, hupper, heq⟩
    have hend : first.endKey.isEmpty = false := Key.isEmpty_eq_false_of_lt hlower
    have hlt : first.startKey < first.endKey := hproper.resolve_right (by simp [hend])
    -- Both regions contain the last keys of the range.
    have hlast : max other.startKey first.startKey < first.endKey := max_lt hlower hlt
    have hsame : other = region := by
      refine hregions.eq_of_contains (k := max other.startKey first.startKey) hother hregion ?_ ?_
      · exact Region.contains_iff_inRange.mpr ⟨le_max_left _ _, .inl (hlast.trans_le hupper)⟩
      · refine Region.contains_iff_inRange.mpr ⟨hstart.trans (le_max_right _ _), ?_⟩
        exact hwithin.symm.imp_left fun h => hlast.trans_le h.1
    subst hsame
    exact ⟨Key.isEmpty_eq_false_of_lt (hlower.trans_le hupper), heq⟩
  · rintro ⟨hend, heq⟩
    obtain ⟨hupper, hfirst⟩ := hwithin.resolve_left (by simp [hend])
    have hlt : first.startKey < first.endKey := hproper.resolve_right (by simp [hfirst])
    exact ⟨region, hregion, hstart.trans_lt hlt, hupper, heq⟩

/-- **A group has no empty part exactly if no range in it touches the one before it.** -/
lemma isChain_takeRanges_iff (hregions : IsPartition regions) (hregion : region ∈ regions)
    (hproper : first.Proper) (hstart : region.startKey ≤ first.startKey)
    (hends : ¬ region.endsBefore first = true) (hranges : ∀ range ∈ ranges, range.Proper) :
    NoneTouches regions (first :: ranges) ↔
      (∀ part ∈ (takeRanges region ranges).1, part.Proper) ∧
        NoneTouches regions (takeRanges region ranges).2 := by
  induction ranges generalizing first with
  | nil => simp [takeRanges]
  | cons second ranges ih =>
    obtain ⟨hsecond, htail⟩ := List.forall_mem_cons.mp hranges
    have htouches := touches_iff hregions hregion hproper hstart hends second
    have hregionLt : region.endKey.isEmpty = false → region.startKey < region.endKey := by
      intro hend
      obtain ⟨hle, hfirst⟩ := (Region.not_endsBefore_iff.mp hends).resolve_left (by simp [hend])
      exact hstart.trans_lt ((hproper.resolve_right (by simp [hfirst])).trans_le hle)
    rw [NoneTouches, List.isChain_cons_cons]
    unfold takeRanges
    split_ifs with hbegins hcut
    · -- The group ends here: the range begins elsewhere.
      have hnot : ¬ Touches regions first second := by
        rw [htouches]
        rintro ⟨hend, heq⟩
        rcases hbegins with hlt | hgt
        · exact absurd (hregionLt hend) (not_lt.mpr (heq ▸ hlt.le))
        · exact absurd heq hgt.ne'
      simp [hnot]
    · -- The range is cut.
      rw [not_or, not_lt, gt_iff_lt, not_lt] at hbegins
      have hend := (Region.endsBefore_iff.mp hcut).1
      have hpart : ¬ Touches regions first second ↔
          KeyRange.Proper ⟨second.startKey, region.endKey⟩ := by
        rw [htouches, proper_upTo_iff hend, lt_iff_le_and_ne]
        simp [hend, hbegins.2]
      rw [hpart, List.forall_mem_singleton]
      exact and_congr Iff.rfl (noneTouches_congr rfl)
    · -- The range lies in the region, and so it does not begin at the region's end.
      rw [not_or, not_lt] at hbegins
      have hnot : ¬ Touches regions first second := by
        rw [htouches]
        rintro ⟨hend, heq⟩
        obtain ⟨hle, hne⟩ := (Region.not_endsBefore_iff.mp hcut).resolve_left (by simp [hend])
        exact absurd heq ((hsecond.resolve_right (by simp [hne])).trans_le hle).ne
      rw [List.forall_mem_cons, and_assoc, ← ih hsecond hbegins.1 hcut htail]
      simp [hnot, hsecond]

lemma isChain_takeGroup_iff (hregions : IsPartition regions) (hregion : region ∈ regions)
    (hproper : first.Proper) (hstart : region.contains first.startKey = true)
    (hranges : ∀ range ∈ ranges, range.Proper) :
    NoneTouches regions (first :: ranges) ↔
      (∀ part ∈ (takeGroup region first ranges).1, part.Proper) ∧
        NoneTouches regions (takeGroup region first ranges).2 := by
  obtain ⟨hlower, hupper⟩ := Region.contains_iff_inRange.mp hstart
  unfold takeGroup
  split_ifs with hends
  · have hend := (Region.endsBefore_iff.mp hends).1
    have hlt : first.startKey < region.endKey := hupper.resolve_right (by simp [hend])
    rw [List.forall_mem_singleton, and_iff_right ((proper_upTo_iff hend).mpr hlt)]
    exact noneTouches_congr rfl
  · rw [List.forall_mem_cons, and_iff_right hproper]
    exact isChain_takeRanges_iff hregions hregion hproper hlower hends hranges

end Touching

/-! ## The end of the stream -/

section Work

variable {regions : List Region} {region : Region} {ranges : List KeyRange}

/-- The regions ahead of the ranges on the stack. -/
def work (regions : List Region) (ranges : List KeyRange) : ℕ :=
  (ranges.map fun range => later regions range.startKey).sum

lemma later_anti {k l : Key} (h : k ≤ l) : later regions l ≤ later regions k := by
  refine List.Sublist.length_le (List.monotone_filter_right regions fun r hr => ?_)
  simp only [Bool.or_eq_true, decide_eq_true_eq] at hr ⊢
  exact hr.imp_right h.trans_lt

lemma work_takeRanges_le : work regions (takeRanges region ranges).2 ≤ work regions ranges := by
  induction ranges with
  | nil => exact le_rfl
  | cons range ranges ih =>
    unfold takeRanges
    split_ifs with hbegins hends
    · exact le_rfl
    · rw [not_or, gt_iff_lt, not_lt, not_lt] at hbegins
      have hle : later regions region.endKey ≤ later regions range.startKey :=
        later_anti hbegins.2
      simpa [work] using hle
    · refine ih.trans ?_
      simp [work]

/-- **Every group leaves less work.** -/
lemma work_takeGroup_lt {range : KeyRange} (hregion : region ∈ regions)
    (hstart : region.contains range.startKey = true) :
    work regions (takeGroup region range ranges).2 < work regions (range :: ranges) := by
  unfold takeGroup
  split_ifs with hends
  · have hlt := later_lt hregion hstart (Region.endsBefore_iff.mp hends).1
    simpa [work] using hlt
  · have hle : work regions (takeRanges region ranges).2 ≤ work regions ranges :=
      work_takeRanges_le
    have hpos := later_pos hregion hstart
    simp only [work, List.map_cons, List.sum_cons] at hle ⊢
    omega

end Work

section Stream

variable {regions : List Region} {ans : (c : Call) → c.Ans}

/-- The parts that the stream emits for a stack, over a partition. -/
lemma exists_groups (hregions : IsPartition regions) (hroutes : Routes ans regions) (n : ℕ) :
    ∀ ranges : List KeyRange, (∀ range ∈ ranges, range.Proper) → work regions ranges ≤ n →
      ∃ groups, (∀ fuel > n, (groupRangesByRegion fuel ranges).eval ans = some (.ok groups)) ∧
        (∀ group ∈ groups, group.2 ∈ regions) ∧
        (NoneTouches regions ranges ↔ ∀ group ∈ groups, ∀ part ∈ group.1, part.Proper) ∧
        ((∀ group ∈ groups, ∀ part ∈ group.1, part.Proper) → CutsInto ranges (emitted groups)) := by
  have hnil : ∀ fuel > 0, (groupRangesByRegion fuel []).eval ans = some (.ok []) := by
    rintro (_ | fuel) hfuel
    · cases hfuel
    · rfl
  induction n with
  | zero =>
    intro ranges hranges hwork
    cases ranges with
    | nil => exact ⟨[], hnil, by simp, by simp, fun _ => .nil⟩
    | cons range ranges =>
      obtain ⟨region, hregion, -, hstart⟩ := hroutes range.startKey
      have := later_pos hregion hstart
      simp only [work, List.map_cons, List.sum_cons] at hwork
      omega
  | succ n ih =>
    intro ranges hranges hwork
    cases ranges with
    | nil =>
      exact ⟨[], fun fuel hfuel => hnil fuel (Nat.zero_lt_of_lt hfuel), by simp, by simp,
        fun _ => .nil⟩
    | cons range ranges =>
      obtain ⟨hrange, htail⟩ := List.forall_mem_cons.mp hranges
      obtain ⟨region, hregion, hans, hstart⟩ := hroutes range.startKey
      have hlt : work regions (takeGroup region range ranges).2 < work regions (range :: ranges) :=
        work_takeGroup_lt hregion hstart
      obtain ⟨groups, heval, hmem, hchain, hcuts⟩ :=
        ih (takeGroup region range ranges).2 (proper_takeGroup_rest htail) (by omega)
      refine ⟨((takeGroup region range ranges).1, region) :: groups, ?_, ?_, ?_, ?_⟩
      · rintro (_ | fuel) hfuel
        · cases hfuel
        · have hlookup : (Async.regionForKey range.startKey).eval ans = some (.ok region) :=
            congrArg some hans
          rw [groupRangesByRegion, Prog.eval_andThen_ok hlookup,
            Prog.eval_andThen_ok (heval fuel (Nat.lt_of_succ_lt_succ hfuel))]
          rfl
      · exact List.forall_mem_cons.mpr ⟨hregion, hmem⟩
      · rw [List.forall_mem_cons, ← hchain]
        exact isChain_takeGroup_iff hregions hregion hrange hstart htail
      · intro hparts
        obtain ⟨hhead, hrest⟩ := List.forall_mem_cons.mp hparts
        exact cutsInto_takeGroup htail hrange hstart hhead (hcuts hrest)

lemma CutsInto.nonempty {ranges : List KeyRange} {out : List ((Key × Key) × Region)}
    (h : CutsInto ranges out) : ∀ part ∈ out, ∃ k, InRange part.1 k := by
  induction h with
  | nil => simp
  | cons hparts _ ih => exact List.forall_mem_append.mpr ⟨hparts.nonempty, ih⟩

/-- **Grouping ranges by region is a refinement exactly if no range touches the one before it**: the
stream ends, it emits parts of regions of the partition, and these are in order a partition of each
of the ranges. -/
theorem groupRangesByRegion_refines_iff (hregions : IsPartition regions)
    (hroutes : Routes ans regions) (ranges : List KeyRange)
    (hranges : ∀ range ∈ ranges, range.Proper) :
    (∃ groups fuel₀,
      (∀ fuel ≥ fuel₀, (groupRangesByRegion fuel ranges).eval ans = some (.ok groups)) ∧
        (∀ group ∈ groups, group.2 ∈ regions) ∧ CutsInto ranges (emitted groups)) ↔
      NoneTouches regions ranges := by
  obtain ⟨groups, heval, hmem, hchain, hcuts⟩ :=
    exists_groups hregions hroutes (work regions ranges) ranges hranges le_rfl
  constructor
  · rintro ⟨groups', fuel₀, heval', -, hcuts'⟩
    have hsame : groups' = groups := by
      have h := (heval' _ (le_max_left fuel₀ (work regions ranges + 1))).symm.trans
        (heval _ (le_max_right fuel₀ (work regions ranges + 1)))
      exact Except.ok.inj (Option.some.inj h)
    subst hsame
    refine hchain.mpr fun group hgroup part hpart => ?_
    have hin : (part.keys, group.2) ∈ emitted groups' :=
      List.mem_flatMap.mpr ⟨group, hgroup, List.mem_map_of_mem hpart⟩
    obtain ⟨k, hlower, hupper⟩ := hcuts'.nonempty _ hin
    exact hupper.imp_left hlower.trans_lt
  · intro hnone
    exact ⟨groups, work regions ranges + 1, heval, hmem, hcuts (hchain.mp hnone)⟩

/-- Two ranges, of which the first crosses from one region to the other. -/
theorem crossing_ranges_refined :
    ∃ groups fuel₀, (∀ fuel ≥ fuel₀, (groupRangesByRegion fuel
        [⟨⟨[1]⟩, ⟨[9]⟩⟩, ⟨⟨[2]⟩, ⟨[5, 0]⟩⟩]).eval
          (fixedCluster twoRegions fun _ _ => .error (.internalError "")) = some (.ok groups)) ∧
      (∀ group ∈ groups, group.2 ∈ twoRegions) ∧
      CutsInto [⟨⟨[1]⟩, ⟨[9]⟩⟩, ⟨⟨[2]⟩, ⟨[5, 0]⟩⟩] (emitted groups) := by
  refine (groupRangesByRegion_refines_iff isPartition_twoRegions
    (routes_fixedCluster isPartition_twoRegions fun _ _ => .error (.internalError ""))
    [⟨⟨[1]⟩, ⟨[9]⟩⟩, ⟨⟨[2]⟩, ⟨[5, 0]⟩⟩] ?_).mpr ?_
  · simp only [List.forall_mem_cons, KeyRange.Proper]
    exact ⟨.inl (by decide), .inl (by decide), by simp⟩
  · refine List.isChain_cons_cons.mpr ⟨?_, .singleton _⟩
    rintro ⟨region, hregion, -, -, heq⟩
    have hend : ∀ region ∈ twoRegions, region.endKey ≠ ⟨[2]⟩ := by decide
    exact hend region hregion heq.symm

/-- The second range begins where the first region ends: it is grouped with that region, as an empty
part. -/
theorem empty_part_emitted :
    ∃ groups, (groupRangesByRegion 4 [⟨⟨[1]⟩, ⟨[2]⟩⟩, ⟨⟨[5, 0]⟩, ⟨[9]⟩⟩]).eval
        (fixedCluster twoRegions fun _ _ => .error (.internalError "")) = some (.ok groups) ∧
      emitted groups = [((⟨[1]⟩, ⟨[2]⟩), ⟨⟨1, 1, 1⟩, .empty, ⟨[5, 0]⟩, some 1⟩),
        ((⟨[5, 0]⟩, ⟨[5, 0]⟩), ⟨⟨1, 1, 1⟩, .empty, ⟨[5, 0]⟩, some 1⟩),
        ((⟨[5, 0]⟩, ⟨[9]⟩), ⟨⟨2, 1, 1⟩, ⟨[5, 0]⟩, .empty, some 1⟩)] ∧
      ¬ ∃ k, InRange (⟨[5, 0]⟩, ⟨[5, 0]⟩) k := by
  refine ⟨_, rfl, rfl, ?_⟩
  rintro ⟨k, hlower, hupper⟩
  exact absurd (hupper.resolve_right (by decide)) (not_lt.mpr hlower)

end Stream

end TikvClient
