import TikvClient.Core.SortedMap
import TikvClient.Transaction.BufferHistory

/-!
# The entry of one key along a history

A buffer is a table of entries, and its operations act on it key by key.  This file says once what
each operation does to the entry of one key: `entryAfter` for the writes and locks, and `afterRead`
for a value read from the store.

**Reads from a snapshot.**  `BufferOp.ReadsFrom S` are the operations of a transaction that reads
the committed data `S` and sets no flags of its own.  Along them an entry that remembers a read
remembers the value of `S` (`ReadsAgree`).
-/

namespace TikvClient

/-- The committed data a transaction reads. -/
abbrev Snapshot := Std.ExtTreeMap Key Value

/-! ## Operations, seen from one key -/

/-- What an operation means for one key. -/
inductive KeyOp where
  | put (value : Value)
  | insert (value : Value)
  | delete
  | lock
  | other
deriving DecidableEq

namespace BufferOp

/-- The operation as the key `k` sees it. -/
def atKey (k : Key) : BufferOp → KeyOp
  | .put key value => if k = key then .put value else .other
  | .insert key value => if k = key then .insert value else .other
  | .delete key => if k = key then .delete else .other
  | .mutate (.put key value) => if k = key then .put value else .other
  | .mutate (.delete key) => if k = key then .delete else .other
  | .lock key => if k = key then .lock else .other
  | _ => .other

/-- The values an operation reads are those of `S`; it does not unlock and sets no flags. -/
def ReadsFrom (S : Snapshot) : BufferOp → Prop
  | .updateReadCache key value _ => value = S[key]?
  | .getOrElse key fetched => ∀ value, fetched = .ok value → value = S[key]?
  | .batchGetOrElse _ fetched =>
    ∀ pairs, fetched = .ok pairs → ∀ p ∈ pairs, S[p.key]? = some p.value
  | .scanAndFetch _ _ _ _ fetched =>
    ∀ pairs, fetched = .ok pairs → ∀ p ∈ pairs, S[p.key]? = some p.value
  | .unlock _ => False
  | .updateKeyFlags _ _ => False
  | .setAssertion _ _ => False
  | _ => True

/-- The operations that read. -/
def isRead : BufferOp → Bool
  | .updateReadCache _ _ _ => true
  | .getOrElse _ _ => true
  | .batchGetOrElse _ _ => true
  | .scanAndFetch _ _ _ _ _ => true
  | _ => false

end BufferOp

/-! ## Entries -/

/-- The entry after a write or a lock of a transaction that sets no flags.  In an optimistic one,
deleting an insertion only leaves the check that the key does not exist. -/
def entryAfter (isPessimistic : Bool) : Option BufferEntry → KeyOp → Option BufferEntry
  | some (.insert _), .put v => some (.insert v)
  | some .checkNotExist, .put v => some (.insert v)
  | _, .put v => some (.put v)
  | some .del, .insert v => some (.put v)
  | _, .insert v => some (.insert v)
  | some (.insert _), .delete => if isPessimistic then some .del else some .checkNotExist
  | some .checkNotExist, .delete => if isPessimistic then some .del else some .checkNotExist
  | _, .delete => some .del
  | none, .lock => some (.locked none)
  | some (.cached v), .lock => some (.locked (some v))
  | e, .lock => e
  | e, .other => e

/-- The entry after a value was read, unless it contradicts the entry. -/
def afterRead : Option BufferEntry → Option Value → Option BufferEntry
  | none, v => some (.cached v)
  | some (.locked none), v => some (.locked (some v))
  | e, _ => e

namespace Buffer

variable {b c : Buffer} {S : Snapshot}

lemma entryMap_put (b : Buffer) (key k : Key) (v : Value) :
    (b.put key v).entryMap[k]? =
      if k = key then entryAfter b.isPessimistic b.entryMap[key]? (.put v)
      else b.entryMap[k]? := by
  unfold Buffer.put
  split
  next h => rw [entryMap_setEntry, h, entryAfter]
  next h => rw [entryMap_setEntry, h, entryAfter]
  next hinsert hcheck =>
    rw [entryMap_insertEntry]
    split_ifs
    · rcases h : b.entryMap[key]? with - | e
      · rfl
      · cases e <;> simp_all [entryAfter]
    · rfl

lemma entryMap_insert (b : Buffer) (key k : Key) (v : Value) :
    (b.insert key v).entryMap[k]? =
      if k = key then entryAfter b.isPessimistic b.entryMap[key]? (.insert v)
      else b.entryMap[k]? := by
  unfold Buffer.insert
  split
  next h => rw [entryMap_setEntry, h, entryAfter]
  next hdel =>
    rw [entryMap_insertEntry]
    split_ifs
    · rcases h : b.entryMap[key]? with - | e
      · rfl
      · cases e <;> simp_all [entryAfter]
    · rfl

lemma entryMap_delete {key : Key} (hpresume : (b.keyFlags key).hasPresumeKeyNotExists = false)
    (k : Key) :
    (b.delete key).entryMap[k]? =
      if k = key then entryAfter b.isPessimistic b.entryMap[key]? .delete else b.entryMap[k]? := by
  have hafter : entryAfter b.isPessimistic b.entryMap[key]? .delete =
      if b.deleteLeavesCheck key then some .checkNotExist else some .del := by
    unfold deleteLeavesCheck
    rcases h : b.entryMap[key]? with - | e
    · simp [entryAfter]
    · cases e <;> cases b.isPessimistic <;> simp [entryAfter, hpresume]
  rw [hafter]
  unfold Buffer.delete
  split_ifs
  · rw [entryMap_updateKeyFlags, entryMap_setEntry, if_pos (by assumption)]
  · rw [entryMap_updateKeyFlags, entryMap_setEntry, if_neg (by assumption)]
  · rw [entryMap_insertEntry, if_pos (by assumption)]
  · rw [entryMap_insertEntry, if_neg (by assumption)]

lemma entryMap_lock (b : Buffer) (key k : Key) :
    (b.lock key).entryMap[k]? =
      if k = key then entryAfter b.isPessimistic b.entryMap[key]? .lock
      else b.entryMap[k]? := by
  unfold Buffer.lock
  dsimp only
  split
  next h =>
    rw [entryMap_primaryKeyOr] at h
    rw [entryMap_setEntry, h, entryMap_primaryKeyOr]
    rfl
  next h =>
    rw [entryMap_primaryKeyOr] at h
    rw [entryMap_setEntry, h, entryMap_primaryKeyOr]
    rfl
  next e hcached h =>
    rw [entryMap_primaryKeyOr] at h
    rw [entryMap_primaryKeyOr]
    split_ifs with hk
    · rw [hk, h]
      cases e <;> simp_all [entryAfter]
    · rfl

/-! ## Reads -/

@[simp] lemma afterRead_afterRead (e : Option BufferEntry) (v v' : Option Value) :
    afterRead (afterRead e v) v' = afterRead e v := by
  rcases e with - | e
  · rfl
  · cases e with
    | locked w => cases w <;> rfl
    | _ => rfl

variable {v : Option Value} {k : Key} {op : BufferOp}

lemma entryMap_updateCache {key : Key} (h : b.updateCache key v = .ok c) (k : Key) :
    c.entryMap[k]? = if k = key then afterRead b.entryMap[key]? v else b.entryMap[k]? := by
  have hsame : c = b → afterRead b.entryMap[key]? v = b.entryMap[key]? →
      c.entryMap[k]? = if k = key then afterRead b.entryMap[key]? v else b.entryMap[k]? := by
    rintro rfl hafter
    split_ifs with hk
    · rw [hafter, hk]
    · rfl
  unfold updateCache at h
  split at h
  next hentry =>
    cases h
    rw [hentry]
    exact entryMap_setEntry b key k _
  next hentry =>
    cases h
    rw [hentry]
    exact entryMap_setEntry b key k _
  all_goals
    next hentry =>
    split_ifs at h
    cases h
    exact hsame rfl (by rw [hentry]; rfl)

/-- The buffer `c` is `b` after values in `V` were read; a read changes entries only. -/
structure CachedFrom (V : Key → Option Value → Prop) (b c : Buffer) : Prop where
  entry : ∀ k, c.entryMap[k]? = b.entryMap[k]? ∨
    ∃ v, V k v ∧ c.entryMap[k]? = afterRead b.entryMap[k]? v
  keyFlagMap : c.keyFlagMap = b.keyFlagMap
  isPessimistic : c.isPessimistic = b.isPessimistic

variable {V : Key → Option Value → Prop} {d : Buffer}

lemma CachedFrom.refl (V : Key → Option Value → Prop) (b : Buffer) : CachedFrom V b b :=
  ⟨fun _ => .inl rfl, rfl, rfl⟩

lemma CachedFrom.trans (h : CachedFrom V b c) (h' : CachedFrom V c d) : CachedFrom V b d where
  entry := by
    intro k
    rcases h'.entry k with hd | ⟨v', hv', hd⟩
    · rw [hd]
      exact h.entry k
    · rcases h.entry k with hc | ⟨v, hv, hc⟩
      · exact .inr ⟨v', hv', by rw [hd, hc]⟩
      · exact .inr ⟨v, hv, by rw [hd, hc, afterRead_afterRead]⟩
  keyFlagMap := h'.keyFlagMap.trans h.keyFlagMap
  isPessimistic := h'.isPessimistic.trans h.isPessimistic

lemma CachedFrom.mono {V' : Key → Option Value → Prop} (h : CachedFrom V b c)
    (hV : ∀ k v, V k v → V' k v ∨ afterRead b.entryMap[k]? v = b.entryMap[k]?) :
    CachedFrom V' b c where
  entry := by
    intro k
    rcases h.entry k with hc | ⟨v, hv, hc⟩
    · exact .inl hc
    · rcases hV k v hv with hv' | hsame
      · exact .inr ⟨v, hv', hc⟩
      · exact .inl (hc.trans hsame)
  keyFlagMap := h.keyFlagMap
  isPessimistic := h.isPessimistic

lemma cachedFrom_updateCache {key : Key} (h : b.updateCache key v = .ok c)
    (hV : V key v) : CachedFrom V b c := by
  refine ⟨fun k => ?_, ?_, ?_⟩
  · rw [entryMap_updateCache h k]
    split_ifs with hk
    · exact .inr ⟨v, hk ▸ hV, by rw [hk]⟩
    · exact .inl rfl
  all_goals
    unfold updateCache at h
    split at h
    case h_1 | h_2 =>
      cases h
      rfl
    all_goals
      split_ifs at h
      cases h
      rfl

lemma cachedFrom_updateCaches (pairs : List (Key × Option Value)) :
    ∀ b : Buffer, CachedFrom (fun k v => (k, v) ∈ pairs) b (b.updateCaches pairs).1 := by
  induction pairs with
  | nil => exact fun b => CachedFrom.refl _ b
  | cons pair rest ih =>
    intro b
    obtain ⟨key, v⟩ := pair
    unfold updateCaches
    split
    next c hc =>
      refine (cachedFrom_updateCache hc List.mem_cons_self).trans ((ih c).mono ?_)
      exact fun k v hmem => .inl (List.mem_cons_of_mem _ hmem)
    · exact CachedFrom.refl _ b

/-- **The value of a key as the transaction sees it**: from the buffer, or from the snapshot. -/
def view (b : Buffer) (S : Snapshot) (k : Key) : Option Value :=
  match b.getFromMutations k with
  | .determined v => v
  | .undetermined => S[k]?

lemma getOrElse_eq_view (b : Buffer) (S : Snapshot) (k : Key) :
    (b.getOrElse (m := Id) k fun key => .ok S[key]?).2 = .ok (b.view S k) := by
  unfold getOrElse view
  cases hk : b.getFromMutations k with
  | determined v => rfl
  | undetermined =>
    -- Nothing contradicts the value that was fetched.
    have hentry : b.entryMap[k]? = none ∨ b.entryMap[k]? = some (.locked none) := by
      unfold getFromMutations at hk
      rcases he : b.entryMap[k]? with - | e
      · exact .inl rfl
      · rw [he] at hk
        cases e with
        | locked v =>
          cases v with
          | none => exact .inr rfl
          | some v => cases hk
        | _ => cases hk
    rcases hentry with he | he <;> simp [bind, pure, updateCache, he]

/-! ## What a scan sees -/

/-- How a scan lets an entry override what was fetched. -/
def scanChange : BufferEntry → Option (Option Value)
  | .put v => some (some v)
  | .del => some none
  | _ => none

/-- The changes `f` makes of the entries in a range. -/
def changesIn (b : Buffer) (range : BoundRange) (f : BufferEntry → Option (Option Value)) :
    List (Key × Option Value) :=
  (b.entryMap.toList.filter fun e => range.contains e.1).filterMap fun e =>
    (f e.2).map fun v => (e.1, v)

/-- The fetched pairs as a map. -/
def fetchedMap (fetched : List KvPair) : Std.ExtTreeMap Key Value :=
  fetched.foldl (fun r p => r.insert p.key p.value) ∅

lemma overlay_eq (b : Buffer) (range : BoundRange) (fetched : List KvPair) :
    b.overlay range fetched =
      SortedMap.applyChanges (b.changesIn range scanChange) (fetchedMap fetched) := by
  have hfold : ∀ (l : List (Key × BufferEntry)) (m : Std.ExtTreeMap Key Value),
      l.foldl (fun r e =>
        match e.2 with
        | .put v => r.insert e.1 v
        | .del => r.erase e.1
        | _ => r) m =
      SortedMap.applyChanges (l.filterMap fun e => (scanChange e.2).map fun v => (e.1, v)) m := by
    intro l
    induction l with
    | nil => exact fun m => rfl
    | cons e rest ih =>
      intro m
      rw [List.foldl_cons, ih]
      obtain ⟨k, entry⟩ := e
      cases entry <;> rfl
  exact hfold _ _

lemma mem_changesIn {range : BoundRange} {f : BufferEntry → Option (Option Value)} :
    (k, v) ∈ b.changesIn range f ↔
      range.contains k = true ∧ ∃ e, b.entryMap[k]? = some e ∧ f e = some v := by
  constructor
  · intro h
    obtain ⟨⟨k', e⟩, he, hmap⟩ := List.mem_filterMap.mp h
    obtain ⟨w, hw, heq⟩ := Option.map_eq_some_iff.mp hmap
    cases heq
    obtain ⟨hmem, hrange⟩ := List.mem_filter.mp he
    exact ⟨hrange, e, Std.ExtTreeMap.mem_toList_iff_getElem?_eq_some.mp hmem, hw⟩
  · rintro ⟨hrange, e, he, hw⟩
    refine List.mem_filterMap.mpr ⟨(k, e), List.mem_filter.mpr ⟨?_, hrange⟩, by simp [hw]⟩
    exact Std.ExtTreeMap.mem_toList_iff_getElem?_eq_some.mpr he

lemma pairwise_changesIn (b : Buffer) (range : BoundRange)
    (f : BufferEntry → Option (Option Value)) :
    (b.changesIn range f).Pairwise fun x y => x.1 ≠ y.1 := by
  refine (Std.ExtTreeMap.distinct_keys_toList.filter _).filterMap _ ?_
  intro e e' hne x hx y hy
  obtain ⟨v, -, rfl⟩ := Option.map_eq_some_iff.mp hx
  obtain ⟨w, -, rfl⟩ := Option.map_eq_some_iff.mp hy
  exact fun heq => hne (compare_eq_iff_eq.mpr heq)

/-- **What is found at a key** of a map that the entries in a range were laid over. -/
lemma getElem?_applyChanges_changesIn (b : Buffer) (range : BoundRange)
    (f : BufferEntry → Option (Option Value)) (m : Std.ExtTreeMap Key Value) (k : Key) :
    (SortedMap.applyChanges (b.changesIn range f) m)[k]? =
      if range.contains k then ((b.entryMap[k]?).bind f).getD m[k]? else m[k]? := by
  have hkeep : (∀ v, (k, v) ∉ b.changesIn range f) →
      (SortedMap.applyChanges (b.changesIn range f) m)[k]? = m[k]? := by
    intro h
    refine SortedMap.getElem?_applyChanges_of_forall_ne ?_ m
    rintro ⟨k', v⟩ hmem rfl
    exact h v hmem
  split_ifs with hrange
  · cases hv : (b.entryMap[k]?).bind f with
    | none =>
      rw [Option.getD_none]
      refine hkeep fun v hmem => ?_
      obtain ⟨-, e, he, hw⟩ := mem_changesIn.mp hmem
      simp [he, hw] at hv
    | some v =>
      obtain ⟨e, he, hw⟩ := Option.bind_eq_some_iff.mp hv
      exact SortedMap.getElem?_applyChanges_of_mem (b.pairwise_changesIn range f)
        (mem_changesIn.mpr ⟨hrange, e, he, hw⟩) m
  · refine hkeep fun v hmem => hrange ?_
    exact (mem_changesIn.mp hmem).1

lemma mem_of_getElem?_fetchedMap {fetched : List KvPair} {v : Value}
    (h : (fetchedMap fetched)[k]? = some v) : ⟨k, v⟩ ∈ fetched := by
  rcases SortedMap.getElem?_foldl_insert KvPair.key KvPair.value fetched ∅ h with
    ⟨p, hp, rfl, rfl⟩ | hempty
  · exact hp
  · simp at hempty

lemma of_getElem?_overlay {range : BoundRange} {fetched : List KvPair} {v : Value}
    (h : (b.overlay range fetched)[k]? = some v) :
    ⟨k, v⟩ ∈ fetched ∨ b.entryMap[k]? = some (.put v) := by
  rw [overlay_eq, getElem?_applyChanges_changesIn] at h
  split_ifs at h
  · cases hv : (b.entryMap[k]?).bind scanChange with
    | none =>
      rw [hv, Option.getD_none] at h
      exact .inl (mem_of_getElem?_fetchedMap h)
    | some w =>
      rw [hv, Option.getD_some] at h
      subst h
      obtain ⟨e, he, hw⟩ := Option.bind_eq_some_iff.mp hv
      cases e <;> simp [scanChange] at hw
      exact .inr (by rw [he, hw])
  · exact .inl (mem_of_getElem?_fetchedMap h)

/-! ## One step -/

/-- No key is presumed absent by a flag. -/
def NoPresume (b : Buffer) : Prop := ∀ k, (b.keyFlags k).hasPresumeKeyNotExists = false

lemma NoPresume.of_keyFlagMap (h : b.NoPresume) (heq : c.keyFlagMap = b.keyFlagMap) :
    c.NoPresume := by
  rw [NoPresume, keyFlags_congr heq]
  exact h

/-- The flag operations of the buffer itself are about the prewrite-only bit. -/
lemma presumed_updateKeyFlags (b : Buffer) (key k : Key) {op : FlagsOp}
    (hop : op = .setPrewriteOnly ∨ op = .delPrewriteOnly) :
    ((b.updateKeyFlags key [op]).keyFlags k).hasPresumeKeyNotExists =
      (b.keyFlags k).hasPresumeKeyNotExists := by
  rw [keyFlags_updateKeyFlags]
  split_ifs with hk
  · rcases hop with rfl | rfl <;> simp [hk]
  · rfl

lemma presumed_insertEntry (b : Buffer) (key k : Key) (entry : BufferEntry) :
    ((b.insertEntry key entry).keyFlags k).hasPresumeKeyNotExists =
      (b.keyFlags k).hasPresumeKeyNotExists := by
  have hprimary : (if entry.setsPrimary then b.primaryKeyOr key else b).keyFlags k =
      b.keyFlags k := by
    split_ifs <;> rfl
  unfold Buffer.insertEntry
  dsimp only
  by_cases hwrite : entry.isWrite = true
  · rw [if_pos hwrite, ← hprimary]
    exact presumed_updateKeyFlags _ key k (.inr rfl)
  · rw [if_neg hwrite, ← hprimary]
    rfl

lemma presumed_put (b : Buffer) (key k : Key) (v : Value) :
    ((b.put key v).keyFlags k).hasPresumeKeyNotExists =
      (b.keyFlags k).hasPresumeKeyNotExists := by
  unfold Buffer.put
  split
  · rfl
  · rfl
  · exact presumed_insertEntry b key k _

lemma presumed_insert (b : Buffer) (key k : Key) (v : Value) :
    ((b.insert key v).keyFlags k).hasPresumeKeyNotExists =
      (b.keyFlags k).hasPresumeKeyNotExists := by
  unfold Buffer.insert
  split
  · rfl
  · exact presumed_insertEntry b key k _

lemma presumed_delete (b : Buffer) (key k : Key) :
    ((b.delete key).keyFlags k).hasPresumeKeyNotExists =
      (b.keyFlags k).hasPresumeKeyNotExists := by
  unfold Buffer.delete
  split_ifs
  · exact presumed_updateKeyFlags (b.setEntry key .checkNotExist) key k (.inl rfl)
  · exact presumed_insertEntry b key k _

lemma presumed_lock (b : Buffer) (key k : Key) :
    ((b.lock key).keyFlags k).hasPresumeKeyNotExists =
      (b.keyFlags k).hasPresumeKeyNotExists := by
  unfold Buffer.lock
  dsimp only
  split <;> rfl

lemma isPessimistic_insertEntry (b : Buffer) (key : Key) (entry : BufferEntry) :
    (b.insertEntry key entry).isPessimistic = b.isPessimistic := by
  unfold Buffer.insertEntry
  split_ifs <;> rfl

lemma isPessimistic_put (b : Buffer) (key : Key) (v : Value) :
    (b.put key v).isPessimistic = b.isPessimistic := by
  unfold Buffer.put
  split
  · rfl
  · rfl
  · exact isPessimistic_insertEntry b key _

lemma isPessimistic_insert (b : Buffer) (key : Key) (v : Value) :
    (b.insert key v).isPessimistic = b.isPessimistic := by
  unfold Buffer.insert
  split
  · rfl
  · exact isPessimistic_insertEntry b key _

lemma isPessimistic_delete (b : Buffer) (key : Key) :
    (b.delete key).isPessimistic = b.isPessimistic := by
  unfold Buffer.delete
  split_ifs
  · rfl
  · exact isPessimistic_insertEntry b key _

lemma isPessimistic_lock (b : Buffer) (key : Key) :
    (b.lock key).isPessimistic = b.isPessimistic := by
  unfold Buffer.lock
  dsimp only
  split <;> rfl

lemma cachedFrom_updateReadCache {key : Key} {value : Option Value} {commitTs : ℕ}
    (h : b.updateReadCache key value commitTs = .ok c) (hV : V key value) : CachedFrom V b c := by
  unfold updateReadCache at h
  cases hu : b.updateCache key value with
  | error e =>
    rw [hu] at h
    cases h
  | ok d =>
    rw [hu] at h
    have hd : CachedFrom V b d := cachedFrom_updateCache hu hV
    simp only [bind, Except.bind] at h
    split_ifs at h <;> cases h <;> exact ⟨hd.entry, hd.keyFlagMap, hd.isPessimistic⟩

lemma cachedFrom_getOrElse {key : Key} {fetched : Except Error (Option Value)}
    (hV : ∀ value, fetched = .ok value → V key value) :
    CachedFrom V b (b.getOrElse (m := Id) key fun _ => fetched).1 := by
  unfold getOrElse
  split
  · exact .refl V b
  · cases fetched with
    | error e => exact .refl V b
    | ok value =>
      cases hu : b.updateCache key value with
      | error e =>
        simp only [bind, pure, hu]
        exact .refl V b
      | ok c =>
        simp only [bind, pure, hu]
        exact cachedFrom_updateCache hu (hV value rfl)

lemma cachedFrom_batchGetOrElse {keys : List Key} {fetched : Except Error (List KvPair)}
    (hV : ∀ pairs, fetched = .ok pairs → ∀ p ∈ pairs, V p.key (some p.value)) :
    CachedFrom V b (b.batchGetOrElse (m := Id) keys fun _ => fetched).1 := by
  cases fetched with
  | error e => exact .refl V b
  | ok pairs =>
    have hc : CachedFrom V b (b.updateCaches (pairs.map fun p => (p.key, some p.value))).1 := by
      refine (cachedFrom_updateCaches _ b).mono fun k v hmem => .inl ?_
      obtain ⟨p, hp, heq⟩ := List.mem_map.mp hmem
      cases heq
      exact hV pairs rfl p hp
    unfold batchGetOrElse
    simp only [bind, pure]
    split
    next c e heq => rwa [heq] at hc
    next c heq => rwa [heq] at hc

lemma cachedFrom_scanAndFetch {range : BoundRange} {limit : ℕ} {updateCache reverse : Bool}
    {fetched : Except Error (List KvPair)}
    (hV : ∀ pairs, fetched = .ok pairs → ∀ p ∈ pairs, V p.key (some p.value)) :
    CachedFrom V b
      (b.scanAndFetch (m := Id) range limit updateCache reverse fun _ _ => fetched).1 := by
  unfold scanAndFetch
  by_cases hinverted : (b.hasRoot && range.isInverted) = true
  · rw [if_pos hinverted]
    exact .refl V b
  rw [if_neg hinverted]
  cases fetched with
  | error e => exact .refl V b
  | ok pairs =>
    have hc : CachedFrom V b
        (b.updateCaches ((b.overlay range pairs).toList.map fun e => (e.1, some e.2))).1 := by
      refine (cachedFrom_updateCaches _ b).mono fun k v hmem => ?_
      obtain ⟨⟨k', w⟩, hkw, heq⟩ := List.mem_map.mp hmem
      cases heq
      have hget := Std.ExtTreeMap.mem_toList_iff_getElem?_eq_some.mp hkw
      rcases of_getElem?_overlay hget with hfetched | hput
      · exact .inl (hV pairs rfl _ hfetched)
      · exact .inr (by rw [hput]; rfl)
    cases updateCache with
    | false => exact .refl V b
    | true =>
      simp only [bind, pure, if_true]
      split <;> exact hc

/-- **A read caches values of the snapshot.** -/
lemma cachedFrom_step (hop : op.isRead = true) (h : op.ReadsFrom S) :
    CachedFrom (fun k v => v = S[k]?) b (b.step op) := by
  cases op with
  | updateReadCache key value commitTs =>
    simp only [Buffer.step]
    split
    next c hc => exact cachedFrom_updateReadCache hc h
    · exact .refl _ b
  | getOrElse key fetched => exact cachedFrom_getOrElse h
  | batchGetOrElse keys fetched =>
    exact cachedFrom_batchGetOrElse fun pairs hpairs p hp => (h pairs hpairs p hp).symm
  | scanAndFetch range limit updateCache reverse fetched =>
    exact cachedFrom_scanAndFetch fun pairs hpairs p hp => (h pairs hpairs p hp).symm
  | _ => cases hop

/-- What a step of a transaction without flags keeps. -/
structure Plain (isPessimistic : Bool) (b : Buffer) : Prop where
  isPessimistic_eq : b.isPessimistic = isPessimistic
  noPresume : b.NoPresume

variable {isPessimistic : Bool}

lemma plain_new (isPessimistic : Bool) : Plain isPessimistic (new isPessimistic) :=
  ⟨rfl, fun k => by simp⟩

@[simp] lemma entryAfter_other (isPessimistic : Bool) (e : Option BufferEntry) :
    entryAfter isPessimistic e .other = e := by
  rcases e with - | e
  · rfl
  · cases e <;> rfl

/-- **One step, seen from one key**: a write or a lock acts on the entry as `entryAfter` says, and a
read may leave the value of the snapshot there. -/
theorem Plain.entry_step (hb : Plain isPessimistic b) (h : op.ReadsFrom S) (k : Key) :
    (b.step op).entryMap[k]? = entryAfter isPessimistic b.entryMap[k]? (op.atKey k) ∨
      (op.atKey k = .other ∧ (b.step op).entryMap[k]? = afterRead b.entryMap[k]? S[k]?) := by
  have hwrite : ∀ {c : Buffer} {key : Key} {change : KeyOp},
      c.entryMap[k]? = (if k = key then entryAfter b.isPessimistic b.entryMap[key]? change
        else b.entryMap[k]?) →
      c.entryMap[k]? =
        entryAfter isPessimistic b.entryMap[k]? (if k = key then change else .other) := by
    intro c key change hc
    rw [hc, hb.isPessimistic_eq]
    split_ifs with hk
    · rw [hk]
    · rw [entryAfter_other]
  have hread : op.isRead = true → op.atKey k = .other →
      (b.step op).entryMap[k]? = entryAfter isPessimistic b.entryMap[k]? (op.atKey k) ∨
        (op.atKey k = .other ∧ (b.step op).entryMap[k]? = afterRead b.entryMap[k]? S[k]?) := by
    intro hop hother
    rw [hother, entryAfter_other]
    rcases (cachedFrom_step hop h).entry k with heq | ⟨v, rfl, heq⟩
    · exact .inl heq
    · exact .inr ⟨rfl, heq⟩
  cases op with
  | put key v => exact .inl (hwrite (entryMap_put b key k v))
  | insert key v => exact .inl (hwrite (entryMap_insert b key k v))
  | delete key => exact .inl (hwrite (entryMap_delete (hb.noPresume key) k))
  | mutate m =>
    cases m with
    | put key v => exact .inl (hwrite (entryMap_put b key k v))
    | delete key => exact .inl (hwrite (entryMap_delete (hb.noPresume key) k))
  | lock key => exact .inl (hwrite (entryMap_lock b key k))
  | updateReadCache | getOrElse | batchGetOrElse | scanAndFetch => exact hread rfl rfl
  | unlock | updateKeyFlags | setAssertion => cases h

lemma Plain.of_eq (hb : Plain isPessimistic b) (hpess : c.isPessimistic = b.isPessimistic)
    (hflags : ∀ k, (c.keyFlags k).hasPresumeKeyNotExists =
      (b.keyFlags k).hasPresumeKeyNotExists) : Plain isPessimistic c :=
  ⟨hpess.trans hb.isPessimistic_eq, fun k => (hflags k).trans (hb.noPresume k)⟩

theorem Plain.step (hb : Plain isPessimistic b) (h : op.ReadsFrom S) :
    Plain isPessimistic (b.step op) := by
  have hread : op.isRead = true → Plain isPessimistic (b.step op) := fun hop =>
    have hc := cachedFrom_step (b := b) hop h
    ⟨hc.isPessimistic.trans hb.isPessimistic_eq, hb.noPresume.of_keyFlagMap hc.keyFlagMap⟩
  cases op with
  | put key v => exact hb.of_eq (isPessimistic_put b key v) fun k => presumed_put b key k v
  | insert key v => exact hb.of_eq (isPessimistic_insert b key v) fun k => presumed_insert b key k v
  | delete key => exact hb.of_eq (isPessimistic_delete b key) fun k => presumed_delete b key k
  | mutate m =>
    cases m with
    | put key v => exact hb.of_eq (isPessimistic_put b key v) fun k => presumed_put b key k v
    | delete key => exact hb.of_eq (isPessimistic_delete b key) fun k => presumed_delete b key k
  | lock key => exact hb.of_eq (isPessimistic_lock b key) fun k => presumed_lock b key k
  | updateReadCache | getOrElse | batchGetOrElse | scanAndFetch => exact hread rfl
  | unlock | updateKeyFlags | setAssertion => cases h

/-! ## Runs -/

/-- **An entry that remembers a read remembers the value of the snapshot.** -/
def ReadsAgree (S : Snapshot) (b : Buffer) : Prop :=
  ∀ (k : Key) (v : Option Value),
    b.entryMap[k]? = some (.cached v) ∨ b.entryMap[k]? = some (.locked (some v)) → v = S[k]?

lemma ReadsAgree.step (hagree : ReadsAgree S b) (hb : Plain isPessimistic b)
    (h : op.ReadsFrom S) : ReadsAgree S (b.step op) := by
  intro k v hv
  rcases hb.entry_step h k with heq | ⟨-, heq⟩
  · -- A write leaves no read value; a lock keeps the one that was cached.
    rw [heq] at hv
    rcases he : b.entryMap[k]? with - | e
    · rw [he] at hv
      cases hop : op.atKey k <;> simp [hop, entryAfter] at hv
    · rw [he] at hv
      refine hagree k v ?_
      rw [he]
      cases hop : op.atKey k <;> cases e <;> cases isPessimistic <;>
        simp_all [entryAfter]
  · rw [heq] at hv
    rcases he : b.entryMap[k]? with - | e
    · rw [he] at hv
      simpa [afterRead, eq_comm] using hv
    · rw [he] at hv
      rcases e with w | (- | w) | w | - | w | - <;>
        simp only [afterRead, reduceCtorEq, Option.some.injEq, BufferEntry.cached.injEq,
          BufferEntry.locked.injEq, or_false, false_or] at hv
      · exact hagree k v (.inl (by rw [he, hv]))
      · exact hv.symm
      · exact hagree k v (.inr (by rw [he, hv]))

/-- **Along a history**, no flags are set and what was read is the snapshot. -/
theorem readsAgree_run (isPessimistic : Bool) (ops : List BufferOp)
    (hops : ∀ op ∈ ops, op.ReadsFrom S) : ReadsAgree S ((new isPessimistic).run ops) := by
  have hrun : Plain isPessimistic ((new isPessimistic).run ops) ∧
      ReadsAgree S ((new isPessimistic).run ops) := by
    induction ops using List.reverseRecOn with
    | nil => exact ⟨plain_new isPessimistic, fun k v hv => by simp [new] at hv⟩
    | append_singleton ops op ih =>
      obtain ⟨hplain, hagree⟩ := ih fun o ho => hops o (List.mem_append_left _ ho)
      have hop : op.ReadsFrom S := hops op (List.mem_append_right _ List.mem_cons_self)
      rw [run_append_singleton]
      exact ⟨hplain.step hop, hagree.step hplain hop⟩
  exact hrun.2

end Buffer

end TikvClient
