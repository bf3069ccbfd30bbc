import TikvClient.Transaction.BufferEntries

/-!
# What a scan returns

A scan fetches pairs from the store, lays the local writes over them, and returns the first `limit`
of what is left.  It asks for more than `limit` pairs, since local deletions remove some.

**What it should return** are the first `limit` pairs that the transaction sees in the range
(`expectedScan`), where a key has the value that a read of it returns (`Buffer.view`).

**What it does return.**  The scan lets only `put` and `del` override what was fetched.  A local
insertion is not shown, and neither is the absence that a deleted insertion leaves behind;
`scansView_iff` says that these are the only reasons for a scan to differ, apart from a limit that
does not fit `u32` together with the number of deletions.  The range has to be one that the ordered
map of the buffer accepts (`isInverted`).
-/

namespace TikvClient

open SortedMap

/-! ## Scan order -/

/-- The key `j` comes before `k` in the direction of a scan. -/
def Before (reverse : Bool) (j k : Key) : Prop := if reverse then k < j else j < k

instance (reverse : Bool) : DecidableRel (Before reverse) :=
  fun j k => inferInstanceAs (Decidable (if reverse = true then k < j else j < k))

instance (reverse : Bool) : IsStrictTotalOrder Key (Before reverse) where
  trichotomous j k hjk hkj := by
    cases reverse
    · exact le_antisymm (not_lt.mp hkj) (not_lt.mp hjk)
    · exact le_antisymm (not_lt.mp hjk) (not_lt.mp hkj)
  irrefl k := by cases reverse <;> exact lt_irrefl k
  trans j k l hjk hkl := by
    cases reverse
    · exact lt_trans (α := Key) hjk hkl
    · exact lt_trans (α := Key) hkl hjk

lemma Before.ne {reverse : Bool} {j k : Key} (h : Before reverse j k) : j ≠ k := by
  rintro rfl
  exact irrefl_of (Before reverse) j h

/-- A list in key order, in the direction of a scan. -/
def inDirection {α : Type} (reverse : Bool) (l : List α) : List α :=
  if reverse then l.reverse else l

/-- **The pairs of a map in a range**, in the direction of a scan. -/
def pairsIn (m : Std.ExtTreeMap Key Value) (range : BoundRange) (reverse : Bool) :
    List (Key × Value) :=
  inDirection reverse (m.toList.filter fun p => range.contains p.1)

section PairsIn

variable {m : Std.ExtTreeMap Key Value} {range : BoundRange} {reverse : Bool}

lemma mem_inDirection {α : Type} {l : List α} {x : α} : x ∈ inDirection reverse l ↔ x ∈ l := by
  cases reverse <;> simp [inDirection]

lemma mem_pairsIn {k : Key} {v : Value} :
    (k, v) ∈ pairsIn m range reverse ↔ range.contains k = true ∧ m[k]? = some v := by
  rw [pairsIn, mem_inDirection, List.mem_filter, Std.ExtTreeMap.mem_toList_iff_getElem?_eq_some]
  exact and_comm

lemma pairwise_inDirection {β : Type} {l : List (Key × β)}
    (h : l.Pairwise fun x y => x.1 < y.1) :
    (inDirection reverse l).Pairwise fun x y => Before reverse x.1 y.1 := by
  cases reverse
  · exact h
  · exact List.pairwise_reverse.mpr h

lemma pairwise_toList (m : Std.ExtTreeMap Key Value) :
    m.toList.Pairwise fun x y => x.1 < y.1 :=
  Std.ExtTreeMap.ordered_keys_toList.imp fun h => compare_lt_iff_lt.mp h

lemma pairwise_pairsIn (m : Std.ExtTreeMap Key Value) (range : BoundRange) (reverse : Bool) :
    (pairsIn m range reverse).Pairwise fun x y => Before reverse x.1 y.1 :=
  pairwise_inDirection ((pairwise_toList m).filter _)

end PairsIn

/-! ## What is asked for, and what is expected -/

namespace Buffer

/-- The number of local deletions in a range. -/
def deletedCount (b : Buffer) (range : BoundRange) : ℕ :=
  (b.entryMap.toList.filter fun e => range.contains e.1 && e.2 == .del).length

/-- The number of pairs a scan asks for; the additions saturate at `u32::MAX`. -/
def redundantLimit (b : Buffer) (range : BoundRange) (limit : ℕ) : ℕ :=
  min (limit + min (b.deletedCount range) (2 ^ 32 - 1)) (2 ^ 32 - 1)

/-- What the buffer knows of a key, if it knows its value. -/
def known (e : BufferEntry) : Option (Option Value) :=
  match e.getValue with
  | .determined v => some v
  | .undetermined => none

/-- The pairs the transaction sees in a range, in the direction of a scan. -/
def visiblePairs (b : Buffer) (S : Snapshot) (range : BoundRange) (reverse : Bool) :
    List (Key × Value) :=
  pairsIn (applyChanges (b.changesIn range known) S) range reverse

/-- **What a scan should return.** -/
def expectedScan (b : Buffer) (S : Snapshot) (range : BoundRange) (limit : ℕ) (reverse : Bool) :
    List KvPair :=
  ((b.visiblePairs S range reverse).take limit).map fun p => ⟨p.1, p.2⟩

end Buffer

/-- The fetch returned pairs of the snapshot, and at least the first `n` of the range. -/
structure Fetches (S : Snapshot) (range : BoundRange) (n : ℕ) (reverse : Bool)
    (fetched : List KvPair) : Prop where
  sound : ∀ p ∈ fetched, range.contains p.key = true ∧ S[p.key]? = some p.value
  complete : ∀ p ∈ (pairsIn S range reverse).take n, ⟨p.1, p.2⟩ ∈ fetched

namespace Buffer

/-- **The scan returns what it should**, whatever a fetch that does its part returns. -/
def ScansView (b : Buffer) (S : Snapshot) (range : BoundRange) (limit : ℕ)
    (updateCache reverse : Bool) : Prop :=
  ∀ (f : BoundRange → ℕ → Except Error (List KvPair)) (fetched : List KvPair),
    f range (b.redundantLimit range limit) = .ok fetched →
    Fetches S range (b.redundantLimit range limit) reverse fetched →
    (b.scanAndFetch (m := Id) range limit updateCache reverse f).2 =
      .ok (b.expectedScan S range limit reverse)

/-- The entry is an insertion, or the check that one left behind, and the snapshot has something
else at the key. -/
def Misread (b : Buffer) (S : Snapshot) (k : Key) : Prop :=
  match b.entryMap[k]? with
  | some (.insert v) => S[k]? ≠ some v
  | some .checkNotExist => S[k]? ≠ none
  | _ => False

/-- The number of visible pairs before a key, in the direction of a scan. -/
def visibleBefore (b : Buffer) (S : Snapshot) (range : BoundRange) (reverse : Bool) (k : Key) : ℕ :=
  countBefore (Before reverse) (b.visiblePairs S range reverse) k

/-- **When a scan is right**: what it would misread comes after the first `limit` pairs, and is not
cached; and the number of pairs asked for does not overflow, or the pairs not asked for come after
the first `limit` as well. -/
structure ScanFaithful (b : Buffer) (S : Snapshot) (range : BoundRange) (limit : ℕ)
    (updateCache reverse : Bool) : Prop where
  misread : ∀ k, range.contains k = true → b.Misread S k →
    limit ≤ b.visibleBefore S range reverse k
  cached : updateCache = true → ∀ k, range.contains k = true → b.Misread S k → S[k]? = none
  fetched : limit + b.deletedCount range ≤ 2 ^ 32 - 1 ∨
    ∀ p ∈ (pairsIn S range reverse).drop (b.redundantLimit range limit),
      (b.entryMap[p.1]?).bind scanChange = none → limit ≤ b.visibleBefore S range reverse p.1

variable {b : Buffer} {S : Snapshot} {range : BoundRange} {limit n : ℕ} {updateCache reverse : Bool}
  {fetched : List KvPair} {k : Key} {v : Value}

/-! ## What the transaction sees -/

lemma view_eq (b : Buffer) (S : Snapshot) (k : Key) :
    b.view S k = ((b.entryMap[k]?).bind known).getD S[k]? := by
  unfold view getFromMutations
  rcases b.entryMap[k]? with - | e
  · rfl
  · cases he : e.getValue <;> simp [known, he]

lemma mem_visiblePairs :
    (k, v) ∈ b.visiblePairs S range reverse ↔
      range.contains k = true ∧ b.view S k = some v := by
  rw [visiblePairs, mem_pairsIn, getElem?_applyChanges_changesIn, view_eq]
  exact and_congr_right fun hrange => by rw [if_pos hrange]

lemma visibleBefore_mono {j : Key} (h : Before reverse j k) :
    b.visibleBefore S range reverse j ≤ b.visibleBefore S range reverse k := by
  refine List.countP_mono_left fun p _ hp => ?_
  simp only [decide_eq_true_eq] at hp ⊢
  exact trans_of (Before reverse) hp h

/-! ## What the scan finds -/

/-- What the scan finds at a key: a local put or deletion, or what was fetched. -/
def scanned (b : Buffer) (fetched : List KvPair) (k : Key) : Option Value :=
  ((b.entryMap[k]?).bind scanChange).getD (fetchedMap fetched)[k]?

lemma getElem?_fetchedMap (h : Fetches S range n reverse fetched) :
    (fetchedMap fetched)[k]? = some v ↔ ⟨k, v⟩ ∈ fetched := by
  refine ⟨mem_of_getElem?_fetchedMap, fun hmem => ?_⟩
  obtain ⟨w, hw⟩ := Option.isSome_iff_exists.mp
    (isSome_foldl_insert KvPair.key KvPair.value ⟨⟨k, v⟩, hmem, rfl⟩ (∅ : Std.ExtTreeMap Key Value))
  have hkw : S[k]? = some w := (h.sound _ (mem_of_getElem?_fetchedMap hw)).2
  have hkv : S[k]? = some v := (h.sound _ hmem).2
  rw [hkv] at hkw
  rw [hkw]
  exact hw

lemma mem_overlay (h : Fetches S range n reverse fetched) :
    (k, v) ∈ inDirection reverse (b.overlay range fetched).toList ↔
      range.contains k = true ∧ b.scanned fetched k = some v := by
  rw [mem_inDirection, Std.ExtTreeMap.mem_toList_iff_getElem?_eq_some, overlay_eq,
    getElem?_applyChanges_changesIn]
  split_ifs with hrange
  · exact (and_iff_right hrange).symm
  · refine iff_of_false (fun hv => hrange ?_) (fun hv => hrange hv.1)
    exact (h.sound _ (mem_of_getElem?_fetchedMap hv)).1

/-- **Caching a value succeeds** if it is what the buffer knows already, if it knows anything. -/
lemma updateCache_isOk_iff (b : Buffer) (k : Key) (v : Option Value) :
    (∃ c, b.updateCache k v = .ok c) ↔ ∀ w, (b.entryMap[k]?).bind known = some w → v = w := by
  unfold Buffer.updateCache
  rcases b.entryMap[k]? with - | e
  · simp
  · rcases e with w | (- | w) | w | - | w | - <;> simp [known, BufferEntry.getValue]
    all_goals split_ifs <;> simp_all

lemma updateCaches_eq_ok_iff (pairs : List (Key × Option Value))
    (hdistinct : pairs.Pairwise fun x y => x.1 ≠ y.1) : ∀ b : Buffer,
    (b.updateCaches pairs).2 = .ok () ↔
      ∀ p ∈ pairs, ∀ w, (b.entryMap[p.1]?).bind known = some w → p.2 = w := by
  induction pairs with
  | nil => simp [updateCaches]
  | cons pair rest ih =>
    intro b
    obtain ⟨key, v⟩ := pair
    obtain ⟨hhead, hrest⟩ := List.pairwise_cons.mp hdistinct
    rw [List.forall_mem_cons, ← updateCache_isOk_iff b key v, updateCaches]
    cases hc : b.updateCache key v with
    | error e => simp
    | ok c =>
      -- The first pair leaves the entries of the others as they were.
      have hsame : ∀ p ∈ rest, c.entryMap[p.1]? = b.entryMap[p.1]? := fun p hp => by
        rw [entryMap_updateCache hc p.1, if_neg (hhead p hp).symm]
      rw [ih hrest c]
      simp only [Except.ok.injEq, exists_eq', true_and]
      exact forall₂_congr fun p hp => by rw [hsame p hp]

lemma scanAndFetch_eq (hrange : range.isInverted = false)
    (f : BoundRange → ℕ → Except Error (List KvPair))
    (hf : f range (b.redundantLimit range limit) = .ok fetched) :
    (b.scanAndFetch (m := Id) range limit updateCache reverse f).2 =
      (if updateCache then
        (b.updateCaches ((b.overlay range fetched).toList.map fun e => (e.1, some e.2))).2
        else .ok ()).map fun _ =>
          ((inDirection reverse (b.overlay range fetched).toList).take limit).map
            fun p => ⟨p.1, p.2⟩ := by
  have hf' : f range (min (limit + min (b.entryMap.toList.filter fun e =>
      range.contains e.1 && e.2 == .del).length (2 ^ 32 - 1)) (2 ^ 32 - 1)) = .ok fetched := hf
  unfold scanAndFetch
  rw [if_neg (by simp [hrange])]
  simp only [bind, pure, hf']
  have hpairs : (inDirection reverse ((b.overlay range fetched).toList.map
      fun e => (⟨e.1, e.2⟩ : KvPair))).take limit =
      ((inDirection reverse (b.overlay range fetched).toList).take limit).map
        fun p => ⟨p.1, p.2⟩ := by
    cases reverse <;> simp [inDirection, List.map_take]
  cases updateCache with
  | false => exact congrArg Except.ok hpairs
  | true =>
    simp only [if_true]
    split
    next c e heq => rw [heq]; rfl
    next c u heq => rw [heq]; exact congrArg Except.ok hpairs

/-- **When the scan is right**, given what was fetched: nothing that was found contradicts the
buffer, if it is cached, and what is found differs from the view only after `limit` visible
pairs. -/
lemma scanAndFetch_eq_ok_iff (hrange : range.isInverted = false)
    (f : BoundRange → ℕ → Except Error (List KvPair))
    (hf : f range (b.redundantLimit range limit) = .ok fetched)
    (h : Fetches S range n reverse fetched) :
    (b.scanAndFetch (m := Id) range limit updateCache reverse f).2 =
        .ok (b.expectedScan S range limit reverse) ↔
      (updateCache = true → ∀ k v, range.contains k = true → b.scanned fetched k = some v →
        ∀ w, (b.entryMap[k]?).bind known = some w → some v = w) ∧
      ∀ k, range.contains k = true → b.scanned fetched k ≠ b.view S k →
        limit ≤ b.visibleBefore S range reverse k := by
  have hcaches : (if updateCache = true then
        (b.updateCaches ((b.overlay range fetched).toList.map fun e => (e.1, some e.2))).2
        else .ok ()) = .ok () ↔
      (updateCache = true → ∀ k v, range.contains k = true → b.scanned fetched k = some v →
        ∀ w, (b.entryMap[k]?).bind known = some w → some v = w) := by
    cases updateCache with
    | false => simp
    | true =>
      have hdistinct : ((b.overlay range fetched).toList.map
          fun e => (e.1, some e.2)).Pairwise fun x y => x.1 ≠ y.1 :=
        List.pairwise_map.mpr ((pairwise_toList _).imp fun hlt => hlt.ne)
      rw [if_pos rfl, updateCaches_eq_ok_iff _ hdistinct]
      simp only [List.forall_mem_map, forall_const, Prod.forall]
      refine forall₂_congr fun k v => ?_
      rw [← @mem_inDirection reverse, mem_overlay h, and_imp]
  have htake : ((inDirection reverse (b.overlay range fetched).toList).take limit =
        (b.visiblePairs S range reverse).take limit) ↔
      ∀ k, range.contains k = true → b.scanned fetched k ≠ b.view S k →
        limit ≤ b.visibleBefore S range reverse k := by
    rw [visiblePairs, take_eq_take_iff (r := Before reverse) limit
      (pairwise_inDirection (pairwise_toList _)) (pairwise_pairsIn _ range reverse),
      ← visiblePairs]
    constructor
    · intro hdiff k hrange hne
      -- One of the two has a value at `k`, and the other does not have it.
      cases hv : b.scanned fetched k with
      | some v =>
        refine hdiff (k, v) fun hiff => hne ?_
        rw [hv, ((mem_visiblePairs).mp (hiff.mp ((mem_overlay h).mpr ⟨hrange, hv⟩))).2]
      | none =>
        obtain ⟨w, hw⟩ := Option.ne_none_iff_exists'.mp (hv ▸ hne).symm
        refine hdiff (k, w) fun hiff => hne ?_
        rw [hw, ((mem_overlay h).mp (hiff.mpr (mem_visiblePairs.mpr ⟨hrange, hw⟩))).2]
    · rintro hdiff ⟨k, v⟩ hpair
      rw [mem_overlay h] at hpair
      have hrange : range.contains k = true := by
        by_contra hrange
        exact hpair (iff_of_false (fun hv => hrange hv.1) fun hv =>
          hrange (mem_visiblePairs.mp hv).1)
      refine hdiff k hrange fun heq => hpair ?_
      exact Iff.trans (by rw [heq]) mem_visiblePairs.symm
  have hinj : Function.Injective fun p : Key × Value => (⟨p.1, p.2⟩ : KvPair) := by
    rintro ⟨k, v⟩ ⟨k', v'⟩ heq
    cases heq
    rfl
  rw [scanAndFetch_eq hrange f hf, ← hcaches, ← htake, expectedScan,
    ← (List.map_injective_iff.mpr hinj).eq_iff]
  generalize (if updateCache = true then
    (b.updateCaches ((b.overlay range fetched).toList.map fun e => (e.1, some e.2))).2
    else .ok ()) = cached
  cases cached <;> simp [Except.map]

/-! ## Which keys a scan gets wrong -/

/-- A list of snapshot pairs of the range, with the first `n` of them, is a possible answer. -/
lemma fetches_map {l : List (Key × Value)} (hsub : l ⊆ pairsIn S range reverse)
    (htake : (pairsIn S range reverse).take n ⊆ l) :
    Fetches S range n reverse (l.map fun p => ⟨p.1, p.2⟩) where
  sound := by
    intro p hp
    obtain ⟨⟨k, v⟩, hkv, rfl⟩ := List.mem_map.mp hp
    exact mem_pairsIn.mp (hsub hkv)
  complete := fun p hp => List.mem_map.mpr ⟨p, htake hp, rfl⟩

/-- What is found differs from the view where the entry is misread, or where the snapshot has a
value that was not fetched. -/
lemma of_scanned_ne_view (hagree : ReadsAgree S b) (h : Fetches S range n reverse fetched)
    (hne : b.scanned fetched k ≠ b.view S k) :
    b.Misread S k ∨
      ((b.entryMap[k]?).bind scanChange = none ∧ (fetchedMap fetched)[k]? = none ∧
        S[k]? ≠ none) := by
  have hmissing : (fetchedMap fetched)[k]? ≠ S[k]? →
      (fetchedMap fetched)[k]? = none ∧ S[k]? ≠ none := by
    intro hdiff
    cases hv : (fetchedMap fetched)[k]? with
    | none => exact ⟨rfl, fun hS => hdiff (hv.trans hS.symm)⟩
    | some v =>
      exact absurd (hv.trans (h.sound _ (mem_of_getElem?_fetchedMap hv)).2.symm) hdiff
  rw [scanned, view_eq] at hne
  rcases he : b.entryMap[k]? with - | e
  · rw [he] at hne
    exact .inr ⟨rfl, hmissing hne⟩
  · rw [he] at hne
    rcases e with w | (- | w) | w | - | w | -
    · refine .inr ⟨rfl, hmissing fun heq => hne ?_⟩
      exact heq.trans (hagree k w (.inl he)).symm
    · exact .inr ⟨rfl, hmissing hne⟩
    · refine .inr ⟨rfl, hmissing fun heq => hne ?_⟩
      exact heq.trans (hagree k w (.inr he)).symm
    · exact absurd rfl hne
    · exact absurd rfl hne
    · by_cases hS : S[k]? = some w
      · exact .inr ⟨rfl, hmissing fun heq => hne (heq.trans hS)⟩
      · exact .inl (by rw [Misread, he]; exact hS)
    · refine .inl ?_
      rw [Misread, he]
      intro hS
      by_cases hdiff : (fetchedMap fetched)[k]? = S[k]?
      · exact hne (hdiff.trans hS)
      · exact (hmissing hdiff).2 hS

lemma Misread.scanChange_eq_none (h : b.Misread S k) :
    (b.entryMap[k]?).bind scanChange = none := by
  unfold Misread at h
  split at h
  next he => rw [he]; rfl
  next he => rw [he]; rfl
  · cases h

/-- The buffer knows the value of a misread key, and it is not that of the snapshot. -/
lemma Misread.exists_known (h : b.Misread S k) :
    ∃ w, (b.entryMap[k]?).bind known = some w ∧ S[k]? ≠ w := by
  unfold Misread at h
  split at h
  next w he => exact ⟨some w, by rw [he]; rfl, h⟩
  next he => exact ⟨none, by rw [he]; rfl, h⟩
  · cases h

/-- A key of the snapshot is visible under some value, unless it is deleted or misread. -/
lemma exists_view_eq_some (hagree : ReadsAgree S b) (hS : S[k]? ≠ none)
    (hdel : b.entryMap[k]? ≠ some .del) (hread : ¬ b.Misread S k) :
    ∃ v, b.view S k = some v := by
  refine Option.ne_none_iff_exists'.mp ?_
  rw [view_eq]
  rcases he : b.entryMap[k]? with - | e
  · exact hS
  · rcases e with w | (- | w) | w | - | w | -
    · exact (hagree k w (.inl he)).symm ▸ hS
    · exact hS
    · exact (hagree k w (.inr he)).symm ▸ hS
    · exact Option.some_ne_none w
    · exact absurd he hdel
    · exact Option.some_ne_none w
    · exact absurd (by rw [Misread, he]; exact hS) hread

/-- The pairs that are not asked for come after `limit` visible pairs, unless a misread key does
not: of those asked for, at most the deleted ones are not visible. -/
lemma le_visibleBefore_of_mem_drop (hagree : ReadsAgree S b)
    (hmisread : ∀ k, range.contains k = true → b.Misread S k →
      limit ≤ b.visibleBefore S range reverse k)
    {p : Key × Value}
    (hp : p ∈ (pairsIn S range reverse).drop (limit + b.deletedCount range)) :
    limit ≤ b.visibleBefore S range reverse p.1 := by
  set asked := (pairsIn S range reverse).take (limit + b.deletedCount range) with hasked
  have hsorted := pairwise_pairsIn S range reverse
  have hbefore : ∀ q ∈ asked, Before reverse q.1 p.1 := by
    rw [← List.take_append_drop (limit + b.deletedCount range) (pairsIn S range reverse)] at hsorted
    exact fun q hq => (List.pairwise_append.mp hsorted).2.2 q hq p hp
  have hmem : ∀ q ∈ asked, range.contains q.1 = true ∧ S[q.1]? = some q.2 :=
    fun q hq => mem_pairsIn.mp (List.mem_of_mem_take hq)
  by_cases hasked' : ∃ q ∈ asked, b.Misread S q.1
  · obtain ⟨q, hq, hread⟩ := hasked'
    exact (hmisread q.1 (hmem q hq).1 hread).trans (visibleBefore_mono (hbefore q hq))
  · have hlength : asked.length = limit + b.deletedCount range := by
      have := List.length_pos_of_mem hp
      rw [List.length_drop] at this
      rw [hasked, List.length_take]
      omega
    have hdistinct : asked.Pairwise fun x y => x.1 ≠ y.1 :=
      (hsorted.sublist (List.take_sublist _ _)).imp Before.ne
    have hdeleted : (asked.filter fun q => b.entryMap[q.1]? == some .del).length ≤
        b.deletedCount range := by
      refine length_le_of_keys_subset (hdistinct.filter _) fun q hq => ?_
      obtain ⟨hq, hdel⟩ := List.mem_filter.mp hq
      refine ⟨(q.1, .del), List.mem_filter.mpr ⟨?_, by simp [(hmem q hq).1]⟩, rfl⟩
      exact Std.ExtTreeMap.mem_toList_iff_getElem?_eq_some.mpr (by simpa using hdel)
    have hvisible : (asked.filter fun q => !(b.entryMap[q.1]? == some .del)).length ≤
        b.visibleBefore S range reverse p.1 := by
      rw [visibleBefore, countBefore, List.countP_eq_length_filter]
      refine length_le_of_keys_subset (hdistinct.filter _) fun q hq => ?_
      obtain ⟨hq, hdel⟩ := List.mem_filter.mp hq
      obtain ⟨v, hv⟩ := exists_view_eq_some hagree (by simp [(hmem q hq).2])
        (by simpa using hdel) fun hread => hasked' ⟨q, hq, hread⟩
      refine ⟨(q.1, v), List.mem_filter.mpr ⟨?_, by simpa using hbefore q hq⟩, rfl⟩
      exact mem_visiblePairs.mpr ⟨(hmem q hq).1, hv⟩
    have hsplit := List.length_eq_length_filter_add
      (l := asked) fun q => b.entryMap[q.1]? == some .del
    omega

/-- The snapshot has a value that was not fetched: it is beyond what was asked for. -/
lemma mem_drop_of_not_fetched (h : Fetches S range n reverse fetched)
    (hrange : range.contains k = true) (hk : (fetchedMap fetched)[k]? = none)
    (hv : S[k]? = some v) : (k, v) ∈ (pairsIn S range reverse).drop n := by
  have hmem : (k, v) ∈ pairsIn S range reverse := mem_pairsIn.mpr ⟨hrange, hv⟩
  rw [← List.take_append_drop n (pairsIn S range reverse)] at hmem
  rcases List.mem_append.mp hmem with htake | hdrop
  · have hfetched := (getElem?_fetchedMap h).mpr (h.complete _ htake)
    rw [hk] at hfetched
    cases hfetched
  · exact hdrop

/-- A scan that is faithful returns what it should. -/
lemma ScanFaithful.scansView (hagree : ReadsAgree S b) (hrange : range.isInverted = false)
    (h : b.ScanFaithful S range limit updateCache reverse) :
    b.ScansView S range limit updateCache reverse := by
  intro f fetched hf hfetches
  refine (scanAndFetch_eq_ok_iff hrange f hf hfetches).mpr ⟨fun hupdate k v hrange hv w hw => ?_,
    fun k hrange hne => ?_⟩
  · -- What contradicts the buffer is a value of the snapshot that is misread.
    by_contra hdiff
    have hfound : (b.entryMap[k]?).bind scanChange = none ∧ (fetchedMap fetched)[k]? = some v := by
      rw [scanned] at hv
      rcases he : b.entryMap[k]? with - | e
      · rw [he] at hw
        cases hw
      · rw [he] at hv hw
        cases e <;> simp_all [scanChange, known, BufferEntry.getValue]
    have hS : S[k]? = some v := (hfetches.sound _ (mem_of_getElem?_fetchedMap hfound.2)).2
    have hmisread : b.Misread S k := by
      rcases he : b.entryMap[k]? with - | e
      · rw [he] at hw
        cases hw
      · rw [he] at hw
        rcases e with u | (- | u) | u | - | u | - <;> cases hw
        · exact absurd (hS.symm.trans (hagree k _ (.inl he)).symm) hdiff
        · exact absurd (hS.symm.trans (hagree k _ (.inr he)).symm) hdiff
        · rw [he] at hfound
          cases hfound.1
        · rw [he] at hfound
          cases hfound.1
        · rw [Misread, he, hS]
          exact hdiff
        · rw [Misread, he, hS]
          exact hdiff
    rw [h.cached hupdate k hrange hmisread] at hS
    cases hS
  · rcases of_scanned_ne_view hagree hfetches hne with hmisread | ⟨hchange, hmissing, hS⟩
    · exact h.misread k hrange hmisread
    · obtain ⟨v, hv⟩ := Option.ne_none_iff_exists'.mp hS
      have hdrop := mem_drop_of_not_fetched hfetches hrange hmissing hv
      rcases h.fetched with hfit | hlate
      · refine le_visibleBefore_of_mem_drop hagree h.misread (p := (k, v)) ?_
        have hlimit : b.redundantLimit range limit = limit + b.deletedCount range := by
          rw [redundantLimit]
          omega
        rwa [hlimit] at hdrop
      · exact hlate (k, v) hdrop hchange

/-- A scan that always returns what it should is faithful: it is when everything is fetched, and
when only the pairs asked for are. -/
lemma ScansView.scanFaithful (hagree : ReadsAgree S b) (hrange : range.isInverted = false)
    (h : b.ScansView S range limit updateCache reverse) :
    b.ScanFaithful S range limit updateCache reverse := by
  have hall := fetches_map (n := b.redundantLimit range limit) (List.Subset.refl
    (pairsIn S range reverse)) (List.take_subset _ _)
  have hfirst := fetches_map (n := b.redundantLimit range limit) (List.take_subset _
    (pairsIn S range reverse)) (List.Subset.refl _)
  obtain ⟨hcached, hlate⟩ := (scanAndFetch_eq_ok_iff hrange (fun _ _ => .ok _) rfl hall).mp
    (h _ _ rfl hall)
  obtain ⟨-, hlate'⟩ := (scanAndFetch_eq_ok_iff hrange (fun _ _ => .ok _) rfl hfirst).mp
    (h _ _ rfl hfirst)
  have hscanned : ∀ k, range.contains k = true → b.Misread S k →
      b.scanned ((pairsIn S range reverse).map fun p => ⟨p.1, p.2⟩) k = S[k]? := by
    intro k hrange hk
    rw [scanned, hk.scanChange_eq_none, Option.getD_none]
    ext v
    rw [getElem?_fetchedMap hall]
    simp [mem_pairsIn, hrange]
  have hmisread : ∀ k, range.contains k = true → b.Misread S k →
      limit ≤ b.visibleBefore S range reverse k := by
    intro k hrange hk
    obtain ⟨w, hw, hne⟩ := hk.exists_known
    refine hlate k hrange ?_
    rw [hscanned k hrange hk, view_eq, hw]
    exact hne
  refine ⟨hmisread, fun hupdate k hrange hk => ?_, .inr fun p hp hchange => ?_⟩
  · obtain ⟨w, hw, hne⟩ := hk.exists_known
    by_contra hS
    obtain ⟨v, hv⟩ := Option.ne_none_iff_exists'.mp hS
    exact hne (hv.trans (hcached hupdate k v hrange ((hscanned k hrange hk).trans hv) w hw))
  · obtain ⟨hrange, hS⟩ := mem_pairsIn.mp (List.mem_of_mem_drop hp)
    by_cases hread : b.Misread S p.1
    · exact hmisread p.1 hrange hread
    · refine hlate' p.1 hrange ?_
      have hmissing : (fetchedMap (((pairsIn S range reverse).take
          (b.redundantLimit range limit)).map fun p => (⟨p.1, p.2⟩ : KvPair)))[p.1]? = none := by
        refine Option.eq_none_iff_forall_ne_some.mpr fun v hv => ?_
        obtain ⟨q, hq, heq⟩ := List.mem_map.mp (mem_of_getElem?_fetchedMap hv)
        have hsorted := pairwise_pairsIn S range reverse
        rw [← List.take_append_drop (b.redundantLimit range limit)
          (pairsIn S range reverse)] at hsorted
        exact ((List.pairwise_append.mp hsorted).2.2 q hq p hp).ne (congrArg KvPair.key heq)
      have hdel : b.entryMap[p.1]? ≠ some .del := fun he => by
        rw [he] at hchange
        cases hchange
      obtain ⟨v, hv⟩ := exists_view_eq_some hagree (by simp [hS]) hdel hread
      rw [scanned, hchange, Option.getD_none, hmissing, hv]
      exact (Option.some_ne_none v).symm

/-- **A scan returns what the transaction sees** — the first `limit` pairs of its range, in scan
order — exactly if no insertion or existence check of the transaction gets in its way. -/
theorem scansView_iff (S : Snapshot) (isPessimistic : Bool) (ops : List BufferOp)
    (hops : ∀ op ∈ ops, op.ReadsFrom S) (range : BoundRange) (hrange : range.isInverted = false)
    (limit : ℕ) (updateCache reverse : Bool) :
    ((new isPessimistic).run ops).ScansView S range limit updateCache reverse ↔
      ((new isPessimistic).run ops).ScanFaithful S range limit updateCache reverse :=
  have hagree := readsAgree_run isPessimistic ops hops
  ⟨ScansView.scanFaithful hagree hrange, ScanFaithful.scansView hagree hrange⟩

/-- The transaction inserts the key `k` into an empty store and scans everything. -/
theorem scan_misses_inserted_key :
    let b := (new false).run [.insert ⟨[107]⟩ [1]]
    let range : BoundRange := ⟨.unbounded, .unbounded⟩
    Fetches ∅ range (b.redundantLimit range 1) false [] ∧
      b.view ∅ ⟨[107]⟩ = some [1] ∧
      b.expectedScan ∅ range 1 false = [⟨⟨[107]⟩, [1]⟩] ∧
      (b.scanAndFetch (m := Id) range 1 true false fun _ _ => .ok []).2 = .ok [] ∧
      ¬ b.ScansView ∅ range 1 true false := by
  intro b range
  have hfetches : Fetches ∅ range (b.redundantLimit range 1) false [] :=
    ⟨by simp, fun p hp => absurd (mem_pairsIn.mp (List.mem_of_mem_take hp)).2 (by simp)⟩
  have hexpected : b.expectedScan ∅ range 1 false = [⟨⟨[107]⟩, [1]⟩] := by decide
  have hscan : (b.scanAndFetch (m := Id) range 1 true false fun _ _ => .ok []).2 = .ok [] := rfl
  refine ⟨hfetches, by decide, hexpected, hscan, fun h => ?_⟩
  have hres := h (fun _ _ => .ok []) _ rfl hfetches
  rw [hscan, hexpected] at hres
  cases hres

/-- A put and a deletion are seen by a scan. -/
theorem scansView_put_delete :
    let b := (new false).run [.put ⟨[107]⟩ [1], .delete ⟨[97]⟩]
    let S : Snapshot := (∅ : Snapshot).insert ⟨[97]⟩ [9]
    b.expectedScan S ⟨.unbounded, .unbounded⟩ 1 false = [⟨⟨[107]⟩, [1]⟩] ∧
      b.ScansView S ⟨.unbounded, .unbounded⟩ 1 true false := by
  intro b S
  have hread : ∀ k, ¬ b.Misread S k := by
    intro k
    have hentry : b.entryMap[k]? = if k = ⟨[97]⟩ then some .del else
        if k = ⟨[107]⟩ then some (.put [1]) else none := by
      have hpresume : (((new false).put ⟨[107]⟩ [1]).keyFlags ⟨[97]⟩).hasPresumeKeyNotExists =
          false := by decide
      refine (entryMap_delete hpresume k).trans ?_
      rw [entryMap_put, entryMap_put]
      simp [new, entryAfter]
    rw [Misread, hentry]
    split_ifs <;> exact id
  refine ⟨by decide, (scansView_iff S false _ ?_ _ rfl _ _ _).mpr ⟨?_, ?_, .inl (by decide)⟩⟩
  · simp [BufferOp.ReadsFrom]
  · exact fun k _ hk => absurd hk (hread k)
  · exact fun _ k _ hk => absurd hk (hread k)

end Buffer

end TikvClient
