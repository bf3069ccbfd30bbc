import TikvClient.Transaction.Folding
import TikvClient.Transaction.Operations

/-!
# Locked and written keys

What writing, locking and unlocking keys does to the entries of a buffer: a key is mutated if it is
written or locked, and then the buffer has a mutation for it.

**Locking** gives every key an entry that is a lock, unless it is written.  **Unlocking** takes
locks back, and leaves what is written as it is.
-/

namespace TikvClient

open Proto

namespace Buffer

variable {b c : Buffer} {k key : Key}

/-- The key is written or locked: its entry is lowered to a mutation. -/
def IsMutated (b : Buffer) (k : Key) : Prop :=
  ∃ e, b.entryMap[k]? = some e ∧ ∀ v, e ≠ .cached v

/-- The key is locked, and not written. -/
def IsLocked (b : Buffer) (k : Key) : Prop := ∃ v, b.entryMap[k]? = some (.locked v)

def IsWritten (b : Buffer) (k : Key) : Prop := b.IsMutated k ∧ ¬ b.IsLocked k

lemma lowerEntry_isSome_iff (level : AssertionLevel) {e : BufferEntry} :
    (b.lowerEntry level k e).isSome = true ↔ ∀ v, e ≠ .cached v := by
  cases e <;> simp [lowerEntry, BufferEntry.toProtoWithKey]

/-- The mutated keys are those of the mutations. -/
lemma isMutated_iff (level : AssertionLevel) :
    b.IsMutated k ↔ ∃ m ∈ b.toProtoMutations level, m.key = k := by
  constructor
  · rintro ⟨e, he, hcached⟩
    obtain ⟨m, hm⟩ := Option.isSome_iff_exists.mp ((lowerEntry_isSome_iff level).mpr hcached)
    have hfor : b.mutationForKey k level = some m := by rw [mutationForKey, he]; exact hm
    have hkey := mutationForKey_key hfor
    exact ⟨m, mem_toProtoMutations.mpr (hkey ▸ hfor), hkey⟩
  · rintro ⟨m, hm, rfl⟩
    obtain ⟨e, he, hlower⟩ := Option.bind_eq_some_iff.mp (mem_toProtoMutations.mp hm)
    exact ⟨e, he, (lowerEntry_isSome_iff level).mp (Option.isSome_of_eq_some hlower)⟩

lemma isMutated_congr (h : c.entryMap[k]? = b.entryMap[k]?) : c.IsMutated k ↔ b.IsMutated k := by
  unfold IsMutated
  rw [h]

/-- A lock is lowered to the operation `Lock`. -/
lemma op_of_isLocked {level : AssertionLevel} {m : Proto.Mutation}
    (hm : b.mutationForKey k level = some m) (h : b.IsLocked k) : m.op = .lock := by
  obtain ⟨v, hv⟩ := h
  rw [mutationForKey, hv, Option.bind_some, lowerEntry, BufferEntry.toProtoWithKey,
    Option.map_some, Option.some.injEq] at hm
  rw [← hm]
  dsimp only
  split_ifs <;> simp_all

/-- A write or a lock gives its key an entry that is no cached read, and no other key. -/
lemma exists_entry_of_keyWrite {f : Buffer → Buffer} (hf : Transaction.KeyWrite key f)
    (b : Buffer) :
    ∃ e : BufferEntry, (∀ v, e ≠ .cached v) ∧
      ∀ k, (f b).entryMap[k]? = if k = key then some e else b.entryMap[k]? := by
  cases hf with
  | put value =>
    dsimp only [Buffer.put]
    split
    · exact ⟨.insert value, by simp, fun k => entryMap_setEntry b key k _⟩
    · exact ⟨.insert value, by simp, fun k => entryMap_setEntry b key k _⟩
    · exact ⟨.put value, by simp, fun k => entryMap_insertEntry b key k _⟩
  | insert value =>
    dsimp only [Buffer.insert]
    split
    · exact ⟨.put value, by simp, fun k => entryMap_setEntry b key k _⟩
    · exact ⟨.insert value, by simp, fun k => entryMap_insertEntry b key k _⟩
  | delete =>
    dsimp only [Buffer.delete]
    split_ifs
    · exact ⟨.checkNotExist, by simp, fun k => entryMap_setEntry b key k _⟩
    · exact ⟨.del, by simp, fun k => entryMap_insertEntry b key k _⟩
  | lock =>
    have hafter : ∃ e, entryAfter b.isPessimistic b.entryMap[key]? .lock = some e ∧
        ∀ v, e ≠ .cached v := by
      rcases b.entryMap[key]? with - | e
      · exact ⟨.locked none, rfl, by simp⟩
      · cases e <;> exact ⟨_, rfl, by simp⟩
    obtain ⟨e, he, hcached⟩ := hafter
    refine ⟨e, hcached, fun k => ?_⟩
    rw [entryMap_lock, he]

/-- A write or a lock leaves its key mutated, and no other key loses that. -/
lemma isMutated_keyWrite {f : Buffer → Buffer} (hf : Transaction.KeyWrite key f) (b : Buffer) :
    (f b).IsMutated k ↔ k = key ∨ b.IsMutated k := by
  obtain ⟨e, hcached, hentry⟩ := exists_entry_of_keyWrite hf b
  by_cases hk : k = key
  · have hkey := hentry k
    rw [if_pos hk] at hkey
    exact ⟨fun _ => .inl hk, fun _ => ⟨e, hkey, hcached⟩⟩
  · have hother := hentry k
    rw [if_neg hk] at hother
    rw [isMutated_congr hother]
    exact ⟨.inr, fun h => h.resolve_left hk⟩

lemma isMutated_foldl_lock {locks : List (Key × Assertion)} (b : Buffer) :
    (locks.foldl (fun b lock => b.lock lock.1) b).IsMutated k ↔
      k ∈ locks.map Prod.fst ∨ b.IsMutated k := by
  induction locks generalizing b with
  | nil => simp
  | cons lock locks ih =>
    rw [List.foldl_cons, ih, isMutated_keyWrite .lock, List.map_cons, List.mem_cons]
    tauto

lemma isLocked_lock (b : Buffer) (key : Key) :
    (b.lock key).IsLocked k ↔ (k = key ∧ ¬ b.IsWritten k) ∨ b.IsLocked k := by
  by_cases hk : k = key
  · subst hk
    unfold IsLocked IsWritten IsMutated IsLocked
    rw [entryMap_lock, if_pos rfl]
    rcases b.entryMap[k]? with - | e
    · simp [entryAfter]
    · cases e <;> simp [entryAfter]
  · unfold IsLocked
    rw [entryMap_lock, if_neg hk]
    simp [hk]

lemma isWritten_lock (b : Buffer) (key : Key) : (b.lock key).IsWritten k ↔ b.IsWritten k := by
  have hmutated := isMutated_keyWrite (k := k) (.lock : Transaction.KeyWrite key _) b
  have hlocked := b.isLocked_lock (k := k) key
  unfold IsWritten at *
  rw [hmutated, hlocked]
  tauto

/-- **Locking keys makes those locked that are not written.** -/
lemma isLocked_foldl_lock {locks : List (Key × Assertion)} (b : Buffer) :
    (locks.foldl (fun b lock => b.lock lock.1) b).IsLocked k ↔
      (k ∈ locks.map Prod.fst ∧ ¬ b.IsWritten k) ∨ b.IsLocked k := by
  induction locks generalizing b with
  | nil => simp
  | cons lock locks ih =>
    rw [List.foldl_cons, ih, isWritten_lock, isLocked_lock, List.map_cons, List.mem_cons]
    tauto

lemma entryMap_unlock (b : Buffer) (key k : Key) (h : k ≠ key ∨ ¬ b.IsLocked k) :
    (b.unlock key).entryMap[k]? = b.entryMap[k]? := by
  have hkey : ∀ v, b.entryMap[key]? = some (.locked v) → k ≠ key := by
    rintro v hv rfl
    exact h.elim (fun hne => hne rfl) fun hnot => hnot ⟨v, hv⟩
  unfold Buffer.unlock
  split
  next v hv => rw [entryMap_setEntry, if_neg (hkey _ hv)]
  next hv => rw [entryMap_erase, if_neg (hkey _ hv)]
  · rfl

/-- **Unlocking keys leaves the others and what is written as it is.** -/
lemma entryMap_foldl_unlock {keys : List Key} (h : k ∉ keys ∨ ¬ b.IsLocked k) :
    (keys.foldl Buffer.unlock b).entryMap[k]? = b.entryMap[k]? := by
  induction keys generalizing b with
  | nil => rfl
  | cons key keys ih =>
    have hstep : (b.unlock key).entryMap[k]? = b.entryMap[k]? :=
      entryMap_unlock b key k (h.imp_left fun hnot => List.ne_of_not_mem_cons hnot)
    rw [List.foldl_cons, ih (h.imp List.not_mem_of_not_mem_cons fun hnot => ?_), hstep]
    unfold IsLocked
    rwa [hstep]

@[simp] lemma primaryKey_unlock (b : Buffer) (key : Key) :
    (b.unlock key).primaryKey = b.primaryKey := by
  unfold Buffer.unlock
  split <;> rfl

@[simp] lemma primaryKey_foldl_unlock (keys : List Key) (b : Buffer) :
    (keys.foldl Buffer.unlock b).primaryKey = b.primaryKey := by
  induction keys generalizing b with
  | nil => rfl
  | cons key keys ih => rw [List.foldl_cons, ih, primaryKey_unlock]

lemma primaryKey_updateCache {value : Option Value} (h : b.updateCache key value = .ok c) :
    c.primaryKey = b.primaryKey := by
  unfold updateCache at h
  split at h
  case h_1 | h_2 => cases h; rfl
  all_goals
    split_ifs at h
    cases h
    rfl

lemma ReadInto.isMutated_iff (h : b.ReadInto c) : c.IsMutated k ↔ b.IsMutated k := by
  induction h with
  | refl => exact Iff.rfl
  | commitTs ts _ ih => exact ih
  | @cache c d key value _ hd ih =>
    rw [← ih]
    rcases (cachedFrom_updateCache (V := fun _ _ => True) hd trivial).entry k with
      hsame | ⟨v, -, hread⟩
    · exact isMutated_congr hsame
    · unfold IsMutated
      rw [hread]
      rcases c.entryMap[k]? with - | e
      · simp [afterRead]
      · rcases e with - | w | - | - | - | - <;> try exact Iff.rfl
        cases w <;> simp [afterRead]

lemma ReadInto.primaryKey (h : b.ReadInto c) : c.primaryKey = b.primaryKey := by
  induction h with
  | refl => rfl
  | commitTs ts _ ih => exact ih
  | cache _ hd ih => rw [primaryKey_updateCache hd, ih]

end Buffer

end TikvClient
