import TikvClient.Transaction.Buffer

/-!
# How the buffer operations act on the two tables

Small lemmas about the entry table and the flag table of a `Buffer`, one per primitive
update.  Everything later proved about histories of buffer operations goes through these:
no proof outside this file unfolds a map.
-/

namespace TikvClient.Buffer

open Proto

variable (b : Buffer) (k j : Key)

/-! ## The flag table -/

@[simp] lemma keyFlags_new (p : Bool) : (new p).keyFlags k = KeyFlags.default := by
  simp [keyFlags, new]

lemma keyFlags_congr {b c : Buffer} (h : b.keyFlagMap = c.keyFlagMap) :
    b.keyFlags = c.keyFlags := by
  funext k
  simp [keyFlags, h]

@[simp] lemma entryMap_updateKeyFlags (ops : List FlagsOp) :
    (b.updateKeyFlags k ops).entryMap = b.entryMap := rfl

/-- Dropping the record of a key whose flags became the default is not observable. -/
lemma keyFlags_updateKeyFlags (ops : List FlagsOp) :
    (b.updateKeyFlags k ops).keyFlags j =
      if j = k then ops.foldl KeyFlags.apply (b.keyFlags k) else b.keyFlags j := by
  have hget : ∀ next : KeyFlags,
      (if next = KeyFlags.default then b.keyFlagMap.erase k
        else b.keyFlagMap.insert k next).getD j KeyFlags.default =
        if j = k then next else b.keyFlagMap.getD j KeyFlags.default := by
    intro next
    by_cases hjk : j = k
    · subst hjk
      rw [if_pos rfl]
      split_ifs with hdef
      · rw [Std.ExtTreeMap.getD_erase_self, hdef]
      · rw [Std.ExtTreeMap.getD_insert_self]
    · have hne : compare k j ≠ .eq := fun h => hjk (compare_eq_iff_eq.mp h).symm
      rw [if_neg hjk]
      split_ifs with hdef
      · rw [Std.ExtTreeMap.getD_erase, if_neg hne]
      · rw [Std.ExtTreeMap.getD_insert, if_neg hne]
  exact hget _

@[simp] lemma entryMap_primaryKeyOr : (b.primaryKeyOr k).entryMap = b.entryMap := rfl

/-! ## The entry table -/

/-- Replace the entry of one key in place, touching nothing else. -/
abbrev setEntry (entry : BufferEntry) : Buffer :=
  { b with entryMap := b.entryMap.insert k entry }

lemma entryMap_setEntry (entry : BufferEntry) :
    (b.setEntry k entry).entryMap[j]? = if j = k then some entry else b.entryMap[j]? := by
  by_cases hjk : j = k
  · subst hjk
    simp
  · have hkj : ¬ k = j := fun h => hjk h.symm
    simp [Std.ExtTreeMap.getElem?_insert, hjk, hkj]

lemma entryMap_erase :
    ({ b with entryMap := b.entryMap.erase k, entryRemoved := true } : Buffer).entryMap[j]? =
      if j = k then none else b.entryMap[j]? := by
  by_cases hjk : j = k
  · subst hjk
    simp
  · have hkj : ¬ k = j := fun h => hjk h.symm
    simp [Std.ExtTreeMap.getElem?_erase, hjk, hkj]

/-- `insertEntry` writes the entry it is given. -/
lemma entryMap_insertEntry (entry : BufferEntry) :
    (b.insertEntry k entry).entryMap[j]? = if j = k then some entry else b.entryMap[j]? := by
  have hmap : (b.insertEntry k entry).entryMap = b.entryMap.insert k entry := by
    unfold insertEntry
    split_ifs <;> simp
  rw [hmap]
  exact b.entryMap_setEntry k j entry

/-- A write that goes through `insertEntry` clears the prewrite-only flag of its key. -/
lemma hasPrewriteOnly_insertEntry (entry : BufferEntry) (hw : entry.isWrite = true) :
    ((b.insertEntry k entry).keyFlags j).hasPrewriteOnly =
      (!decide (j = k) && (b.keyFlags j).hasPrewriteOnly) := by
  have hflags : (b.insertEntry k entry).keyFlags =
      (b.updateKeyFlags k [.delPrewriteOnly]).keyFlags := by
    funext i
    unfold insertEntry
    simp only [hw, if_true]
    split_ifs
    · exact congrFun (keyFlags_congr (by unfold updateKeyFlags primaryKeyOr; rfl)) i
    · rfl
  rw [hflags, keyFlags_updateKeyFlags]
  by_cases hjk : j = k
  · simp [hjk]
  · simp [hjk]

/-! ## Lowering -/

lemma lowerEntry_key {b : Buffer} {level : AssertionLevel} {k : Key} {entry : BufferEntry}
    {m : Proto.Mutation} (h : b.lowerEntry level k entry = some m) : m.key = k := by
  obtain ⟨pb, hpb, rfl⟩ := Option.map_eq_some_iff.mp h
  have hkey : pb.key = k := by
    cases entry <;> simp [BufferEntry.toProtoWithKey] at hpb <;> rw [← hpb]
  dsimp only
  split_ifs <;> exact hkey

lemma lowerEntry_op {b : Buffer} {level : AssertionLevel} {k : Key} {entry : BufferEntry}
    {m : Proto.Mutation} (h : b.lowerEntry level k entry = some m) :
    (entry = .checkNotExist ∧ m.op = .checkNotExists) ∨
      (entry ≠ .checkNotExist ∧ m.op ∈ [Op.put, Op.del, Op.insert, Op.lock]) := by
  obtain ⟨pb, hpb, rfl⟩ := Option.map_eq_some_iff.mp h
  cases entry <;> simp only [BufferEntry.toProtoWithKey, Option.some.injEq, reduceCtorEq] at hpb
  all_goals
    subst hpb
    dsimp only
    split_ifs <;> simp_all

/-- The mutations of a buffer are in key order, one per key. -/
lemma pairwise_toProtoMutations (level : AssertionLevel) :
    (b.toProtoMutations level).Pairwise fun m m' => m.key < m'.key := by
  refine Std.ExtTreeMap.ordered_keys_toList.filterMap _ fun e e' he m hm m' hm' => ?_
  rw [lowerEntry_key hm, lowerEntry_key hm']
  exact compare_lt_iff_lt.mp he

end TikvClient.Buffer
