import TikvClient.Transaction.BufferLemmas
import Mathlib.Data.List.Induction

/-!
# Histories of buffer operations, and the prewrite-only flag

`PREWRITE_ONLY` excludes a key from the commit phase.  The code means it for keys whose entry
is only the check that the key does not exist, and keeps the flag and the entry in two maps.
This file follows both along arbitrary histories of buffer operations.

**The invariant** is `FlagsMatch`: a key is prewrite-only exactly when its entry is
`checkNotExist`.  Every operation keeps it but one: a put over `checkNotExist` overwrites the
entry in place, without the flag update of `insertEntry`.  `commitsEveryWrite_iff` says that
this is the *only* way to lose it, and `insert_delete_put_not_committed` is the shortest
history that does: insert, delete, put.

**Why it matters.**  `commit` drops prewrite-only keys from `commit_keys`, so such an
insertion is prewritten and never committed.
-/

namespace TikvClient

open Proto

/-- The flag operations other than the two on the prewrite-only bit. -/
def UserFlagsOp : Type :=
  { op : FlagsOp // op ≠ .setPrewriteOnly ∧ op ≠ .delPrewriteOnly }

/-- **An operation on a buffer**, with the answer of the fetch it may run. -/
inductive BufferOp where
  | put (key : Key) (value : Value)
  | insert (key : Key) (value : Value)
  | delete (key : Key)
  | mutate (mutation : Mutation)
  | lock (key : Key)
  | unlock (key : Key)
  | updateReadCache (key : Key) (value : Option Value) (commitTs : ℕ)
  | getOrElse (key : Key) (fetched : Except Error (Option Value))
  | batchGetOrElse (keys : List Key) (fetched : Except Error (List KvPair))
  | scanAndFetch (range : BoundRange) (limit : ℕ) (updateCache reverse : Bool)
      (fetched : Except Error (List KvPair))
  | updateKeyFlags (key : Key) (ops : List UserFlagsOp)
  | setAssertion (key : Key) (assertion : Assertion)

namespace Buffer

/-- The buffer after one operation; an operation that fails keeps what it had done. -/
def step (b : Buffer) : BufferOp → Buffer
  | .put key value => b.put key value
  | .insert key value => b.insert key value
  | .delete key => b.delete key
  | .mutate mutation => b.mutate mutation
  | .lock key => b.lock key
  | .unlock key => b.unlock key
  | .updateReadCache key value commitTs =>
    match b.updateReadCache key value commitTs with
    | .ok b' => b'
    | .error _ => b
  | .getOrElse key fetched => (b.getOrElse (m := Id) key fun _ => fetched).1
  | .batchGetOrElse keys fetched => (b.batchGetOrElse (m := Id) keys fun _ => fetched).1
  | .scanAndFetch range limit updateCache reverse fetched =>
    (b.scanAndFetch (m := Id) range limit updateCache reverse fun _ _ => fetched).1
  | .updateKeyFlags key ops => b.updateKeyFlags key (ops.map Subtype.val)
  | .setAssertion key assertion => b.setAssertion key assertion

/-- The buffer after a history of operations. -/
def run (b : Buffer) (ops : List BufferOp) : Buffer :=
  ops.foldl step b

@[simp] lemma run_nil (b : Buffer) : b.run [] = b := rfl

@[simp] lemma run_append_singleton (b : Buffer) (ops : List BufferOp) (op : BufferOp) :
    b.run (ops ++ [op]) = (b.run ops).step op := by
  simp [run]

/-! ## The invariant -/

/-- Whether the entry of a key is the bare existence check. -/
def IsCheck (b : Buffer) (k : Key) : Prop :=
  b.entryMap[k]? = some .checkNotExist

instance (b : Buffer) (k : Key) : Decidable (b.IsCheck k) :=
  inferInstanceAs (Decidable (_ = _))

/-- **A key is prewrite-only exactly when its entry is the existence check.** -/
def FlagsMatch (b : Buffer) : Prop :=
  ∀ k, (b.keyFlags k).hasPrewriteOnly = true ↔ b.IsCheck k

/-- The commit phase takes every key whose mutation writes: the flags match, and the commit
keys are the keys of the put, delete, insert and lock mutations. -/
def CommitsEveryWrite (b : Buffer) : Prop :=
  b.FlagsMatch ∧
    ∀ level, b.commitKeys (b.toProtoMutations level) =
      ((b.toProtoMutations level).filter fun m =>
        m.op ∈ [Op.put, Op.del, Op.insert, Op.lock]).map (·.key)

/-- The operation puts a value over an entry that is only the existence check. -/
def PutsOverCheck (b : Buffer) : BufferOp → Prop
  | .put key _ => b.IsCheck key
  | .mutate (.put key _) => b.IsCheck key
  | _ => False

/-! ## What the commit phase takes when the flags match -/

variable {b c : Buffer} {k : Key}

lemma commitKeys_of_flagsMatch (h : b.FlagsMatch) (level : AssertionLevel) :
    b.commitKeys (b.toProtoMutations level) =
      ((b.toProtoMutations level).filter fun m =>
        m.op ∈ [Op.put, Op.del, Op.insert, Op.lock]).map (·.key) := by
  unfold commitKeys
  congr 1
  apply List.filter_congr
  intro m hm
  obtain ⟨⟨k, entry⟩, hmem, hlow⟩ := List.mem_filterMap.mp hm
  have hentry : b.entryMap[k]? = some entry :=
    Std.ExtTreeMap.mem_toList_iff_getElem?_eq_some.mp hmem
  have hkey : m.key = k := lowerEntry_key hlow
  have hflag := h k
  rw [IsCheck, hentry, Option.some.injEq] at hflag
  rcases lowerEntry_op hlow with ⟨rfl, hop⟩ | ⟨hne, hop⟩
  · simp [hop]
  · have hclear : (b.keyFlags m.key).hasPrewriteOnly = false := by
      rw [hkey, Bool.eq_false_iff]
      exact fun ht => hne (hflag.mp ht)
    have hcheck : m.op ≠ .checkNotExists := by
      intro heq
      rw [heq] at hop
      simp at hop
    simp [hclear, hop, hcheck]

lemma FlagsMatch.commitsEveryWrite (h : b.FlagsMatch) : b.CommitsEveryWrite :=
  ⟨h, commitKeys_of_flagsMatch h⟩

/-! ## What each operation does to the invariant -/

/-- Both sides of `FlagsMatch` are untouched. -/
structure SameChecks (b c : Buffer) : Prop where
  prewriteOnly : ∀ k, (c.keyFlags k).hasPrewriteOnly = (b.keyFlags k).hasPrewriteOnly
  isCheck : ∀ k, c.IsCheck k ↔ b.IsCheck k

lemma SameChecks.refl (b : Buffer) : SameChecks b b :=
  ⟨fun _ => rfl, fun _ => Iff.rfl⟩

lemma SameChecks.trans {d : Buffer} (h : SameChecks b c) (h' : SameChecks c d) :
    SameChecks b d :=
  ⟨fun k => (h'.prewriteOnly k).trans (h.prewriteOnly k),
    fun k => (h'.isCheck k).trans (h.isCheck k)⟩

lemma FlagsMatch.of_sameChecks (h : b.FlagsMatch) (hs : SameChecks b c) :
    c.FlagsMatch := by
  intro k
  rw [hs.prewriteOnly k, hs.isCheck k]
  exact h k

lemma sameChecks_setEntry {entry : BufferEntry} (hold : ¬ b.IsCheck k)
    (hnew : entry ≠ .checkNotExist) : SameChecks b (b.setEntry k entry) := by
  refine ⟨fun j => rfl, fun j => ?_⟩
  unfold IsCheck
  rw [entryMap_setEntry]
  by_cases hjk : j = k
  · subst hjk
    rw [if_pos rfl]
    exact ⟨fun h => absurd (Option.some.inj h) hnew, fun h => absurd h hold⟩
  · rw [if_neg hjk]

lemma sameChecks_erase (hold : ¬ b.IsCheck k) :
    SameChecks b { b with entryMap := b.entryMap.erase k, entryRemoved := true } := by
  refine ⟨fun j => rfl, fun j => ?_⟩
  unfold IsCheck
  rw [entryMap_erase]
  by_cases hjk : j = k
  · subst hjk
    rw [if_pos rfl]
    exact ⟨fun h => by simp at h, fun h => absurd h hold⟩
  · rw [if_neg hjk]

/-- A write through `insertEntry` clears the flag and replaces the entry together. -/
lemma FlagsMatch.insertEntry (h : b.FlagsMatch) (k : Key) {entry : BufferEntry}
    (hw : entry.isWrite = true) : (b.insertEntry k entry).FlagsMatch := by
  intro j
  have hne : entry ≠ .checkNotExist := by
    rintro rfl
    simp [BufferEntry.isWrite] at hw
  unfold IsCheck
  rw [hasPrewriteOnly_insertEntry b k j entry hw, entryMap_insertEntry]
  by_cases hjk : j = k
  · simp [hjk, hne]
  · simpa [hjk, IsCheck] using h j

lemma FlagsMatch.put (h : b.FlagsMatch) (v : Value)
    (hcheck : ¬ b.IsCheck k) : (b.put k v).FlagsMatch := by
  unfold Buffer.put
  split
  · exact h.of_sameChecks (sameChecks_setEntry hcheck (by simp))
  · exact absurd (by assumption) hcheck
  · exact h.insertEntry k rfl

lemma FlagsMatch.insert (h : b.FlagsMatch) (k : Key) (v : Value) :
    (b.insert k v).FlagsMatch := by
  unfold Buffer.insert
  split
  next hdel =>
    exact h.of_sameChecks (sameChecks_setEntry (by simp [IsCheck, hdel]) (by simp))
  · exact h.insertEntry k rfl

/-- Deleting over an insertion sets the flag and leaves the check, together. -/
lemma FlagsMatch.delete (h : b.FlagsMatch) (k : Key) : (b.delete k).FlagsMatch := by
  unfold Buffer.delete
  split_ifs
  · intro j
    unfold IsCheck
    rw [entryMap_updateKeyFlags, entryMap_setEntry, keyFlags_updateKeyFlags]
    by_cases hjk : j = k
    · simp [hjk]
    · rw [if_neg hjk, if_neg hjk]
      exact h j
  · exact h.insertEntry k rfl

lemma sameChecks_lock (b : Buffer) (k : Key) : SameChecks b (b.lock k) := by
  have hprimary : SameChecks b (b.primaryKeyOr k) := ⟨fun _ => rfl, fun _ => Iff.rfl⟩
  refine hprimary.trans ?_
  unfold Buffer.lock
  dsimp only
  split
  next hnone => exact sameChecks_setEntry (by rw [IsCheck, hnone]; simp) (by simp)
  next v hcached => exact sameChecks_setEntry (by rw [IsCheck, hcached]; simp) (by simp)
  · exact SameChecks.refl _

lemma sameChecks_unlock (b : Buffer) (k : Key) : SameChecks b (b.unlock k) := by
  unfold Buffer.unlock
  split
  next v hlocked => exact sameChecks_setEntry (by simp [IsCheck, hlocked]) (by simp)
  next hlocked => exact sameChecks_erase (by simp [IsCheck, hlocked])
  · exact SameChecks.refl _

lemma sameChecks_updateCache {v : Option Value}
    (h : b.updateCache k v = .ok c) : SameChecks b c := by
  unfold updateCache at h
  split at h
  next hlocked =>
    cases h
    exact sameChecks_setEntry (by simp [IsCheck, hlocked]) (by simp)
  next hnone =>
    cases h
    exact sameChecks_setEntry (by simp [IsCheck, hnone]) (by simp)
  -- In all other cases the cached value is only compared with the entry.
  all_goals
    split_ifs at h
    cases h
    exact SameChecks.refl _

lemma sameChecks_updateCaches (kvs : List (Key × Option Value)) :
    ∀ b : Buffer, SameChecks b (b.updateCaches kvs).1 := by
  induction kvs with
  | nil => exact fun b => SameChecks.refl b
  | cons kv rest ih =>
    intro b
    obtain ⟨k, v⟩ := kv
    unfold updateCaches
    split
    next c hc => exact (sameChecks_updateCache hc).trans (ih c)
    · exact SameChecks.refl b

lemma sameChecks_updateReadCache {v : Option Value} {ts : ℕ}
    (h : b.updateReadCache k v ts = .ok c) : SameChecks b c := by
  unfold updateReadCache at h
  cases hu : b.updateCache k v with
  | error e =>
    rw [hu] at h
    cases h
  | ok d =>
    rw [hu] at h
    have hd : SameChecks b d := sameChecks_updateCache hu
    -- The commit timestamps of cached reads play no part in the invariant.
    simp only [bind, Except.bind] at h
    split_ifs at h <;> cases h <;> exact hd.trans ⟨fun _ => rfl, fun _ => Iff.rfl⟩

lemma sameChecks_getOrElse (b : Buffer) (k : Key) (fetched : Except Error (Option Value)) :
    SameChecks b (b.getOrElse (m := Id) k fun _ => fetched).1 := by
  unfold getOrElse
  split
  · exact SameChecks.refl b
  · cases fetched with
    | error e => exact SameChecks.refl b
    | ok v =>
      cases hu : b.updateCache k v with
      | error e =>
        simp only [bind, pure, hu]
        exact SameChecks.refl b
      | ok c =>
        simp only [bind, pure, hu]
        exact sameChecks_updateCache hu

lemma sameChecks_batchGetOrElse (b : Buffer) (ks : List Key)
    (fetched : Except Error (List KvPair)) :
    SameChecks b (b.batchGetOrElse (m := Id) ks fun _ => fetched).1 := by
  cases fetched with
  | error e => exact SameChecks.refl b
  | ok pairs =>
    have hc := sameChecks_updateCaches (pairs.map fun p => (p.key, some p.value)) b
    unfold batchGetOrElse
    simp only [bind, pure]
    split
    next c e heq => rw [heq] at hc; exact hc
    next c heq => rw [heq] at hc; exact hc

lemma sameChecks_scanAndFetch (b : Buffer) (range : BoundRange) (limit : ℕ)
    (updateCache reverse : Bool) (fetched : Except Error (List KvPair)) :
    SameChecks b
      (b.scanAndFetch (m := Id) range limit updateCache reverse fun _ _ => fetched).1 := by
  unfold scanAndFetch
  by_cases hinverted : (b.hasRoot && range.isInverted) = true
  · rw [if_pos hinverted]
    exact SameChecks.refl b
  rw [if_neg hinverted]
  cases fetched with
  | error e => exact SameChecks.refl b
  | ok pairs =>
    have hc := sameChecks_updateCaches
      ((b.overlay range pairs).toList.map fun e => (e.1, some e.2)) b
    cases updateCache with
    | false => exact SameChecks.refl b
    | true =>
      simp only [bind, pure, if_true]
      split <;> exact hc

lemma sameChecks_updateKeyFlags (b : Buffer) (k : Key) (ops : List FlagsOp)
    (hops : ∀ op ∈ ops, op ≠ .setPrewriteOnly ∧ op ≠ .delPrewriteOnly) :
    SameChecks b (b.updateKeyFlags k ops) := by
  have hfold : ∀ f : KeyFlags,
      (ops.foldl KeyFlags.apply f).hasPrewriteOnly = f.hasPrewriteOnly := by
    induction ops with
    | nil => exact fun f => rfl
    | cons op rest ih =>
      intro f
      have hop := hops op List.mem_cons_self
      rw [List.foldl_cons, ih fun o ho => hops o (List.mem_cons_of_mem _ ho)]
      cases op <;> simp_all
  refine ⟨fun j => ?_, fun j => Iff.rfl⟩
  rw [keyFlags_updateKeyFlags]
  by_cases hjk : j = k
  · rw [if_pos hjk, hfold, hjk]
  · rw [if_neg hjk]

/-- **One step keeps the invariant**, unless it puts a value over the existence check. -/
theorem FlagsMatch.step (h : b.FlagsMatch) {op : BufferOp}
    (hop : ¬ b.PutsOverCheck op) : (b.step op).FlagsMatch := by
  cases op with
  | put k v => exact h.put v hop
  | insert k v => exact h.insert k v
  | delete k => exact h.delete k
  | mutate m =>
    cases m with
    | put k v => exact h.put v hop
    | delete k => exact h.delete k
  | lock k => exact h.of_sameChecks (sameChecks_lock b k)
  | unlock k => exact h.of_sameChecks (sameChecks_unlock b k)
  | updateReadCache k v ts =>
    cases hu : b.updateReadCache k v ts with
    | ok c => simpa only [Buffer.step, hu] using h.of_sameChecks (sameChecks_updateReadCache hu)
    | error e => simpa only [Buffer.step, hu] using h
  | getOrElse k f => exact h.of_sameChecks (sameChecks_getOrElse b k f)
  | batchGetOrElse ks f => exact h.of_sameChecks (sameChecks_batchGetOrElse b ks f)
  | scanAndFetch r l u v f => exact h.of_sameChecks (sameChecks_scanAndFetch b r l u v f)
  | updateKeyFlags k ops =>
    refine h.of_sameChecks (sameChecks_updateKeyFlags b k _ ?_)
    intro op hop
    obtain ⟨u, -, rfl⟩ := List.mem_map.mp hop
    exact u.2
  | setAssertion k a =>
    refine h.of_sameChecks (sameChecks_updateKeyFlags b k _ ?_)
    cases a <;> simp

/-- A put over the existence check leaves an insertion that is still prewrite-only. -/
lemma FlagsMatch.not_step (h : b.FlagsMatch) {op : BufferOp}
    (hop : b.PutsOverCheck op) : ¬ (b.step op).FlagsMatch := by
  have hput : ∀ k v, b.IsCheck k → ¬ (b.put k v).FlagsMatch := by
    intro k v hcheck hmatch
    have hset : b.put k v = b.setEntry k (.insert v) := by
      simp only [Buffer.put, show b.entryMap[k]? = some .checkNotExist from hcheck]
    have hflag := (h k).mpr hcheck
    rw [hset] at hmatch
    have hnow := (hmatch k).mp hflag
    rw [IsCheck, entryMap_setEntry, if_pos rfl] at hnow
    simp at hnow
  cases op with
  | put k v => exact hput k v hop
  | mutate m =>
    cases m with
    | put k v => exact hput k v hop
    | delete k => exact absurd hop id
  | _ => exact absurd hop id

lemma flagsMatch_new (p : Bool) : (new p).FlagsMatch := by
  intro k
  simp [IsCheck, new, keyFlags]

/-! ## Whole histories -/

/-- **Along a history, every buffered write reaches the commit phase exactly as long as no
operation puts a value over an existence check.** -/
theorem commitsEveryWrite_iff (isPessimistic : Bool) (ops : List BufferOp) :
    (∀ done, done <+: ops → ((new isPessimistic).run done).CommitsEveryWrite) ↔
      ∀ done op, done ++ [op] <+: ops → ¬ ((new isPessimistic).run done).PutsOverCheck op := by
  constructor
  · intro h done op hdone hput
    have hbefore := (h done ((List.prefix_append done [op]).trans hdone)).1
    have hafter := (h (done ++ [op]) hdone).1
    rw [run_append_singleton] at hafter
    exact hbefore.not_step hput hafter
  · intro h done hdone
    apply FlagsMatch.commitsEveryWrite
    -- Induction on the history, last operation first: each one meets the step lemma.
    induction done using List.reverseRecOn with
    | nil => exact flagsMatch_new isPessimistic
    | append_singleton done op ih =>
      rw [run_append_singleton]
      exact (ih ((List.prefix_append done [op]).trans hdone)).step (h done op hdone)

/-- **Insert, delete, put**: the value is prewritten as an insertion, its key carries the
prewrite-only flag of the deletion, and the commit phase takes no key at all. -/
theorem insert_delete_put_not_committed :
    let b := (new false).run [.insert ⟨[107]⟩ [1], .delete ⟨[107]⟩, .put ⟨[107]⟩ [2]]
    b.toProtoMutations .off = [⟨.insert, ⟨[107]⟩, [2], .none⟩] ∧
      b.commitKeys (b.toProtoMutations .off) = [] ∧ ¬ b.CommitsEveryWrite := by
  refine ⟨by decide, by decide, fun h => ?_⟩
  have hkeys := h.2 .off
  revert hkeys
  decide

end Buffer

end TikvClient
