import TikvClient.Transaction.BufferLocks
import TikvClient.Transaction.Scenario

/-!
# Progress of a pipelined transaction

Every call that writes ends with `pipelined_maybe_flush`, so that a pipelined transaction does not
collect more than `min_flush_keys` mutations, and those of one call, before it flushes them.

**What a call writes.**  A pipelined transaction is optimistic, so a call changes the buffer key by
key (`Op.changes`) and then reaches the flush (`exec_run_of_reaches`).

**Starting a flush.**  `maybe_flush` starts one if it is due, and if the handle of the flush before
it is not there any more (`startsFlush_iff`).  A handle is only taken by who waits for the flush;
that it has finished is not looked at.  So at most one flush is started before the commit, and only
as long as no second one is due the mutations stay bounded.
-/

namespace TikvClient

open Proto Prog StateProg

/-! ## The primary -/

namespace Buffer

variable {b c : Buffer} {key : Key} {f : Buffer → Buffer}

/-- A buffer with a mutation has a primary. -/
def HasPrimary (b : Buffer) : Prop := ∀ k, b.IsMutated k → b.primaryKey ≠ none

lemma HasPrimary.readInto (hb : b.HasPrimary) (h : b.ReadInto c) : c.HasPrimary := by
  intro k hk
  rw [h.primaryKey]
  exact hb k (h.isMutated_iff.mp hk)

lemma HasPrimary.primaryKey_keyWrite (hb : b.HasPrimary) (hf : Transaction.KeyWrite key f) :
    (f b).primaryKey ≠ none := by
  have hor : (b.primaryKey <|> some key) ≠ none := by cases b.primaryKey <;> simp
  -- an entry that is overwritten in place is one of a mutated key
  have hmutated : ∀ e, b.entryMap[key]? = some e → (∀ v, e ≠ .cached v) → b.primaryKey ≠ none :=
    fun e he hcached => hb key ⟨e, he, hcached⟩
  cases hf with
  | put v =>
    show (b.put key v).primaryKey ≠ none
    unfold Buffer.put
    split
    next he => exact hmutated _ he (by simp)
    next he => exact hmutated _ he (by simp)
    · exact hor
  | insert v =>
    show (b.insert key v).primaryKey ≠ none
    unfold Buffer.insert
    split
    next he => exact hmutated _ he (by simp)
    · exact hor
  | delete =>
    show (b.delete key).primaryKey ≠ none
    unfold Buffer.delete
    split_ifs with hcheck
    · unfold deleteLeavesCheck at hcheck
      rcases he : b.entryMap[key]? with - | e
      · simp [he] at hcheck
      · refine hmutated e he ?_
        rintro v rfl
        simp [he] at hcheck
    · exact hor
  | lock =>
    show (b.lock key).primaryKey ≠ none
    unfold Buffer.lock
    dsimp only
    split <;> exact hor

end Buffer

namespace Transaction

/-! ## Calls that write -/

/-- A change of the buffer at a key. -/
abbrev KeyChange := Key × (Buffer → Buffer)

/-- The changes a call makes to an optimistic transaction before `pipelined_maybe_flush`; the other
calls do not reach it. -/
def Op.changes : Op → Option (List KeyChange)
  | .put key value => some [(key, fun b => b.put key value)]
  | .insert key value => some [(key, fun b => b.insert key value)]
  | .delete key => some [(key, fun b => b.delete key)]
  | .batchMutate mutations => some (mutations.map fun m => (m.key, fun b => b.mutate m))
  | .lockKeys keys _ => some (keys.map fun k => (k, fun b => b.lock k))
  | .getForUpdate key _ => some [(key, fun b => b.lock key)]
  | .batchGetForUpdate keys _ => some (keys.map fun k => (k, fun b => b.lock k))
  | _ => none

/-- What a call does after it. -/
def Op.afterFlush (fuel : ℕ) : Op → TxnM Unit
  | .getForUpdate key _ => do let _ ← Transaction.get fuel key
  | .batchGetForUpdate keys _ => do let _ ← Transaction.batchGet fuel keys
  | _ => pure ()

/-- The call is an insertion of a key that the buffer knows. -/
def Op.IsDuplicate (op : Op) (t : Transaction) : Prop :=
  ∃ key value, op = .insert key value ∧ (t.buffer.get key).isSome = true

def applyChange (t : Transaction) (c : KeyChange) : Transaction :=
  ({ t with buffer := c.2 t.buffer } : Transaction).recordKeyChange c.1

/-- **The call reaches `pipelined_maybe_flush`** in the state `t₁`. -/
structure Reaches (op : Op) (t : Transaction) (changes : List KeyChange) (t₁ : Transaction) :
    Prop where
  isOpen : t.IsOpen
  accepted : ¬ op.IsDuplicate t
  changes_eq : op.changes = some changes
  state : t₁ = changes.foldl applyChange t

section Changes

variable {t t₁ : Transaction} {op : Op} {changes : List KeyChange}

lemma exec_changeKey (t : Transaction) (key : Key) (f : Buffer → Buffer) :
    (changeKey key f).exec t = .ret (.ok (), t.applyChange (key, f)) := rfl

lemma exec_lockIfPessimistic (h : t.options.isPessimistic = false) (fuel : ℕ)
    (locks : List (Key × Assertion)) :
    (lockIfPessimistic fuel locks).exec t = .ret (.ok (), t) := by
  show (if t.options.isPessimistic then _ else pure () : TxnM Unit).exec t = _
  rw [h]
  rfl

lemma exec_mutateAll (mutations : List Mutation) :
    ∀ t, (mutateAll mutations).exec t = .ret (.ok (), (mutations.map fun m =>
      ((m.key, fun b => b.mutate m) : KeyChange)).foldl applyChange t) := by
  induction mutations with
  | nil => exact fun _ => rfl
  | cons m ms ih =>
    intro t
    rw [mutateAll, exec_bind, exec_changeKey]
    exact ih _

lemma exec_lockAll (keys : List Key) :
    ∀ t, (lockAll keys).exec t = .ret (.ok (), (keys.map fun k =>
      ((k, fun b => b.lock k) : KeyChange)).foldl applyChange t) := by
  induction keys with
  | nil => exact fun _ => rfl
  | cons k ks ih =>
    intro t
    rw [lockAll, exec_bind, exec_changeKey]
    exact ih _

variable {α β : Type} {m : TxnM α}

lemma exec_bind_of_ret {f : α → TxnM β} {a : α}
    (h : m.exec t = .ret (.ok a, t₁)) : (m >>= f).exec t = (f a).exec t₁ := by
  rw [exec_bind, h]
  rfl

lemma exec_bind_congr {m' : TxnM α} (h : m.exec t = m'.exec t₁) (f : α → TxnM β) :
    (m >>= f).exec t = (m' >>= f).exec t₁ := by
  rw [exec_bind, exec_bind, h]

lemma exec_lockKeys (hopt : t.options.isPessimistic = false) (hopen : t.IsOpen) (fuel : ℕ)
    (keys : List Key) (options : LockOptions) :
    (lockKeys fuel keys options).exec t = pipelinedMaybeFlush.exec ((keys.map fun k =>
      ((k, fun b => b.lock k) : KeyChange)).foldl applyChange t) := by
  have hkind : (lockByKind fuel keys options).exec t = (lockAll keys).exec t := by
    have hoptimistic : t.options.kind = .optimistic := by
      cases h : t.options.kind
      · rfl
      · simp [TransactionOptions.isPessimistic, h] at hopt
    rw [lockByKind, exec_get_bind, hoptimistic]
  rw [lockKeys, exec_guarded_of_isOpen hopen]
  exact exec_bind_of_ret (hkind.trans (exec_lockAll keys t))

/-- **A call that writes makes its changes and reaches the flush.** -/
lemma exec_run_of_reaches (h : Reaches op t changes t₁) (hopt : t.options.isPessimistic = false)
    (fuel : ℕ) :
    (op.run fuel).exec t = (pipelinedMaybeFlush >>= fun _ => op.afterFlush fuel).exec t₁ := by
  obtain ⟨hopen, haccepted, hchanges, rfl⟩ := h
  have hlock := fun locks => exec_lockIfPessimistic hopt fuel locks
  have hdone : ∀ s,
      (pipelinedMaybeFlush >>= fun _ => pure ()).exec s = pipelinedMaybeFlush.exec s :=
    fun s => by rw [bind_pure_unit]
  cases op with
  | put key value =>
    cases hchanges
    refine Eq.trans ?_ (hdone _).symm
    rw [Op.run, put, exec_guarded_of_isOpen hopen, exec_bind_of_ret (hlock _)]
    exact exec_bind_of_ret (exec_changeKey _ _ _)
  | insert key value =>
    cases hchanges
    refine Eq.trans ?_ (hdone _).symm
    have hnew : ¬ (t.buffer.get key).isSome = true := fun h => haccepted ⟨key, value, rfl, h⟩
    rw [Op.run, insert, exec_guarded_of_isOpen hopen]
    show (if (t.buffer.get key).isSome then throw .duplicateKeyInsertion else _ :
      TxnM Unit).exec t = _
    rw [if_neg hnew, exec_bind_of_ret (hlock _)]
    exact exec_bind_of_ret (exec_changeKey _ _ _)
  | delete key =>
    cases hchanges
    refine Eq.trans ?_ (hdone _).symm
    rw [Op.run, delete, exec_guarded_of_isOpen hopen, exec_bind_of_ret (hlock _)]
    exact exec_bind_of_ret (exec_changeKey _ _ _)
  | batchMutate mutations =>
    cases hchanges
    refine Eq.trans ?_ (hdone _).symm
    rw [Op.run, batchMutate, exec_guarded_of_isOpen hopen, exec_bind_of_ret (hlock _)]
    exact exec_bind_of_ret (exec_mutateAll _ _)
  | lockKeys keys options =>
    cases hchanges
    exact (exec_lockKeys hopt hopen fuel keys options).trans (hdone _).symm
  | getForUpdate key options =>
    cases hchanges
    have hlocked : (getForUpdate fuel key options).exec t =
        (lockKeys fuel [key] .default >>= fun _ => get fuel key).exec t := by
      rw [getForUpdate, exec_guarded_of_isOpen hopen]
      show (if !t.options.isPessimistic then _ else _ : TxnM _).exec t = _
      rw [hopt]
      rfl
    refine (exec_bind_congr hlocked _).trans ?_
    rw [LawfulMonad.bind_assoc]
    exact exec_bind_congr (exec_lockKeys hopt hopen fuel [key] .default) _
  | batchGetForUpdate keys options =>
    cases hchanges
    have hlocked : (batchGetForUpdate fuel keys options).exec t =
        (lockKeys fuel keys .default >>= fun _ => batchGet fuel keys).exec t := by
      rw [batchGetForUpdate, exec_guarded_of_isOpen hopen]
      show (if !t.options.isPessimistic then _ else _ : TxnM _).exec t = _
      rw [hopt]
      rfl
    refine (exec_bind_congr hlocked _).trans ?_
    rw [LawfulMonad.bind_assoc]
    exact exec_bind_congr (exec_lockKeys hopt hopen fuel keys .default) _
  | _ => cases hchanges

end Changes

/-! ## Starting a flush -/

/-- How many mutations are in no flush. -/
def unflushed (t : Transaction) : ℕ :=
  match t.pipelined with
  | some p => p.mutable.size
  | none => 0

/-- The handle of the last flush, until it is taken. -/
def flushHandle (t : Transaction) : Option ℕ := t.pipelined.bind (·.flushing)

/-- **A flush is due**: the primary is set, and there are enough mutations. -/
structure FlushDue (t : Transaction) (p : PipelinedTxnState) (primaryKey : Key) : Prop where
  pipelined : t.pipelined = some p
  primaryKey : t.buffer.primaryKey = some primaryKey
  enough : p.minFlushKeys ≤ p.mutable.size

/-- **A new flush is started**: `pipelined_maybe_flush` spawns a flush of the mutations that are in
none. -/
def StartsFlush (t : Transaction) (p : PipelinedTxnState) : Prop :=
  ∀ tr r t', Returns (pipelinedMaybeFlush.exec t) tr (r, t') →
    r = .ok () ∧ t'.unflushed = 0 ∧ ∃ request options handle,
      .answered (.spawn (.flush request options)) handle ∈ tr ∧
        request.mutations = p.mutable.values

section Flush

variable {t : Transaction} {p : PipelinedTxnState} {pk : Key}

lemma exec_maybeFlush (ctx : FlushContext) (p : PipelinedTxnState) :
    (PipelinedTxnState.maybeFlush ctx).exec p =
      (if p.flushing.isSome || p.mutable.size < p.minFlushKeys then pure ()
        else PipelinedTxnState.startFlush ctx : PipelinedTxnState.M Unit).exec p := rfl

/-- Without enough mutations, or with the handle of another flush, nothing happens. -/
lemma exec_maybeFlush_idle (h : p.flushing ≠ none ∨ p.mutable.size < p.minFlushKeys)
    (ctx : FlushContext) : (PipelinedTxnState.maybeFlush ctx).exec p = .ret (.ok (), p) := by
  have hidle : (p.flushing.isSome || decide (p.mutable.size < p.minFlushKeys)) = true := by
    rw [Bool.or_eq_true, decide_eq_true_eq, Option.isSome_iff_ne_none]
    exact h
  rw [exec_maybeFlush, if_pos hidle]
  rfl

lemma exec_maybeFlush_start (hflushing : p.flushing = none) (hpos : 0 < p.mutable.size)
    (henough : p.minFlushKeys ≤ p.mutable.size) (ctx : FlushContext) :
    ∃ minKey maxKey, (PipelinedTxnState.maybeFlush ctx).exec p =
      .call (.spawn (.flush (p.flushRequest ctx) ctx.retryOptions)) fun handle =>
        .ret (.ok (), { p.takeMutable minKey maxKey with flushing := some handle }) := by
  have hne : p.mutable ≠ ∅ := by
    rintro hempty
    rw [hempty, Std.ExtTreeMap.size_empty] at hpos
    omega
  obtain ⟨minKey, hminKey⟩ :=
    Option.isSome_iff_exists.mp (Std.ExtTreeMap.isSome_minKey?_iff_ne_empty.mpr hne)
  obtain ⟨maxKey, hmaxKey⟩ :=
    Option.isSome_iff_exists.mp (Std.ExtTreeMap.isSome_maxKey?_iff_ne_empty.mpr hne)
  have hdue : ¬ (p.flushing.isSome || decide (p.mutable.size < p.minFlushKeys)) = true := by
    simpa [hflushing] using henough
  have hwait : PipelinedTxnState.flushWait.exec p = .ret (.ok (), p) := by
    rw [PipelinedTxnState.flushWait, exec_bind, exec_get, ret_bind]
    dsimp only
    rw [hflushing]
    rfl
  refine ⟨minKey, maxKey, ?_⟩
  rw [exec_maybeFlush, if_neg hdue, PipelinedTxnState.startFlush, exec_bind, hwait, ret_bind]
  dsimp only
  rw [exec_bind, exec_get, ret_bind]
  dsimp only
  rw [hminKey, hmaxKey]
  dsimp only
  -- step by step: `rfl` would compute the new range and generation
  rw [exec_bind, exec_modify, ret_bind]
  dsimp only
  rw [exec_bind, exec_ofCall]
  rfl

/-- `pipelined_maybe_flush` is `maybe_flush`, if there is a primary. -/
lemma exec_pipelinedMaybeFlush (hp : t.pipelined = some p) (hpk : t.buffer.primaryKey = some pk) :
    pipelinedMaybeFlush.exec t = ((PipelinedTxnState.maybeFlush (t.flushContext pk)).exec p).bind
      fun r => .ret (r.1, { t with pipelined := some r.2 }) := by
  rw [pipelinedMaybeFlush, exec_bind, exec_get, ret_bind]
  dsimp only
  rw [hp, hpk]
  dsimp only
  rw [exec_onPipelined, hp]

lemma exec_pipelinedMaybeFlush_idle (hp : t.pipelined = some p)
    (h : ∀ pk, t.FlushDue p pk → p.flushing ≠ none) :
    pipelinedMaybeFlush.exec t = .ret (.ok (), t) := by
  cases hpk : t.buffer.primaryKey with
  | none =>
    rw [pipelinedMaybeFlush, exec_bind, exec_get, ret_bind]
    dsimp only
    rw [hp, hpk]
    rfl
  | some pk =>
    have hidle : p.flushing ≠ none ∨ p.mutable.size < p.minFlushKeys := by
      by_contra hdue
      push Not at hdue
      exact h pk ⟨hp, hpk, hdue.2⟩ hdue.1
    rw [exec_pipelinedMaybeFlush hp hpk, exec_maybeFlush_idle hidle, ret_bind, ← hp]

lemma exec_pipelinedMaybeFlush_start (h : t.FlushDue p pk) (hpos : 0 < p.mutable.size)
    (hflushing : p.flushing = none) :
    ∃ minKey maxKey, pipelinedMaybeFlush.exec t =
      .call (.spawn (.flush (p.flushRequest (t.flushContext pk)) t.options.retryOptions))
        fun handle => .ret (.ok (), { t with
          pipelined := some { p.takeMutable minKey maxKey with flushing := some handle } }) := by
  obtain ⟨minKey, maxKey, hexec⟩ :=
    exec_maybeFlush_start hflushing hpos h.enough (t.flushContext pk)
  refine ⟨minKey, maxKey, ?_⟩
  rw [exec_pipelinedMaybeFlush h.pipelined h.primaryKey, hexec, call_bind]
  simp only [ret_bind, flushContext]

lemma FlushDue.unflushed_eq (h : t.FlushDue p pk) : t.unflushed = p.mutable.size := by
  rw [unflushed, h.pipelined]

/-- **A due flush is started only if the handle of the one before it was taken.** -/
lemma startsFlush_iff (h : t.FlushDue p pk) (hpos : 0 < t.unflushed) :
    t.StartsFlush p ↔ t.flushHandle = none := by
  have hhandle : t.flushHandle = p.flushing := by rw [flushHandle, h.pipelined, Option.bind_some]
  rw [h.unflushed_eq] at hpos
  rw [hhandle]
  constructor
  · intro hstarts
    by_contra hflushing
    have hidle : pipelinedMaybeFlush.exec t = .ret (.ok (), t) := by
      exact exec_pipelinedMaybeFlush_idle h.pipelined fun _ _ => hflushing
    obtain ⟨-, -, request, options, handle, hmem, -⟩ := hstarts [] (.ok ()) t
      (hidle ▸ Steps.refl _)
    cases hmem
  · intro hflushing tr r t' hret
    obtain ⟨minKey, maxKey, hexec⟩ := exec_pipelinedMaybeFlush_start h hpos hflushing
    rw [hexec, returns_call_iff] at hret
    obtain ⟨handle, tr, rfl, hret⟩ := hret
    obtain ⟨rfl, heq⟩ := returns_ret_iff.mp hret
    cases heq
    exact ⟨rfl, Std.ExtTreeMap.size_empty, _, _, handle, List.mem_singleton_self _, rfl⟩

end Flush

/-! ## Runs -/

/-- **What holds between calls**, and with `n` more mutations within one: the transaction is
optimistic and pipelined, and less than `m + n` mutations are in no flush. -/
structure FlushedWithin (m n : ℕ) (t : Transaction) : Prop where
  optimistic : t.options.isPessimistic = false
  pipelined : ∃ p, t.pipelined = some p ∧ p.minFlushKeys = m ∧ p.mutable.size < m + n
  hasPrimary : t.buffer.HasPrimary

/-- The calls that read. -/
def Op.isRead : Op → Bool
  | .get _ | .getWithOptions _ _ | .keyExists _ => true
  | .batchGet _ | .batchGetWithOptions _ _ => true
  | .scan _ _ _ _ => true
  | _ => false

/-- **The calls of a run**: reads and writes; a write that reaches a flush that is due finds no
handle of another. -/
def FlushGuard (op : Op) (t : Transaction) (_ : Runtime) : Prop :=
  (op.isRead = true ∨ op.changes ≠ none) ∧
    ∀ changes t₁ p pk, Reaches op t changes t₁ → t₁.FlushDue p pk → t₁.flushHandle = none

/-- Every flush that was started has finished without an error. -/
def FlushesDone (rt : Runtime) : Prop :=
  ∀ x ∈ rt.running, ∀ request options, x.1 = .flush request options → x.2 = .ret (.ok ())

section Runs

variable {m n : ℕ} {t t₁ t' : Transaction} {op : Op} {changes : List KeyChange}

lemma FlushedWithin.unflushed_lt (h : FlushedWithin m n t) : t.unflushed < m + n := by
  obtain ⟨p, hp, -, hsize⟩ := h.pipelined
  rw [unflushed, hp]
  exact hsize

lemma keyWrite_of_changes (h : op.changes = some changes) : ∀ c ∈ changes, KeyWrite c.1 c.2 := by
  cases op with
  | put key value =>
    cases h
    exact List.forall_mem_singleton.mpr (.put value)
  | insert key value =>
    cases h
    exact List.forall_mem_singleton.mpr (.insert value)
  | delete key =>
    cases h
    exact List.forall_mem_singleton.mpr .delete
  | batchMutate mutations =>
    cases h
    refine List.forall_mem_map.mpr fun m _ => ?_
    cases m with
    | put key value => exact .put value
    | delete key => exact .delete
  | lockKeys | batchGetForUpdate =>
    cases h
    exact List.forall_mem_map.mpr fun k _ => .lock
  | getForUpdate key options =>
    cases h
    exact List.forall_mem_singleton.mpr .lock
  | _ => cases h

lemma FlushedWithin.applyChange (h : FlushedWithin m n t) {c : KeyChange} (hc : KeyWrite c.1 c.2) :
    FlushedWithin m (n + 1) (t.applyChange c) ∧ (t.applyChange c).buffer.primaryKey ≠ none ∧
      (t.applyChange c).flushHandle = t.flushHandle := by
  obtain ⟨p, hp, hmin, hsize⟩ := h.pipelined
  have hprimary := h.hasPrimary.primaryKey_keyWrite hc
  have hbuffer : (t.applyChange c).buffer = c.2 t.buffer := buffer_recordKeyChange _ _
  set q := p.recordMutation c.1
    ((c.2 t.buffer).mutationForKey c.1 t.options.assertionLevel) with hq
  have hstate : t.applyChange c = { t with buffer := c.2 t.buffer, pipelined := some q } := by
    rw [Transaction.applyChange, recordKeyChange]
    simp only [hp, hq]
  have hrecorded : q.minFlushKeys = p.minFlushKeys ∧ q.flushing = p.flushing ∧
      q.mutable.size ≤ p.mutable.size + 1 := by
    rw [hq, PipelinedTxnState.recordMutation.eq_def]
    split
    · exact ⟨rfl, rfl, Std.ExtTreeMap.size_insert_le⟩
    · exact ⟨rfl, rfl, Std.ExtTreeMap.size_erase_le.trans (Nat.le_succ _)⟩
  obtain ⟨hqmin, hqflushing, hqsize⟩ := hrecorded
  rw [hstate]
  refine ⟨⟨h.optimistic, ⟨q, rfl, hqmin.trans hmin, by omega⟩, fun _ _ => hprimary⟩, hprimary, ?_⟩
  rw [flushHandle, flushHandle, hp]
  exact hqflushing

/-- The changes of a call add at most as many mutations. -/
lemma FlushedWithin.foldl_applyChange (h : FlushedWithin m 0 t)
    (hchanges : ∀ c ∈ changes, KeyWrite c.1 c.2) :
    FlushedWithin m changes.length (changes.foldl Transaction.applyChange t) ∧
      (changes = [] ∨ (changes.foldl Transaction.applyChange t).buffer.primaryKey ≠ none) ∧
      (changes.foldl Transaction.applyChange t).flushHandle = t.flushHandle := by
  induction changes using List.reverseRecOn with
  | nil => exact ⟨h, .inl rfl, rfl⟩
  | append_singleton cs c ih =>
    obtain ⟨hcs, hc⟩ := List.forall_mem_append.mp hchanges
    obtain ⟨hwithin, -, hhandle⟩ := ih hcs
    obtain ⟨hnext, hprimary, hsame⟩ := hwithin.applyChange (hc c (List.mem_singleton_self c))
    rw [List.foldl_append, List.length_append]
    exact ⟨hnext, .inr hprimary, hsame.trans hhandle⟩

variable {tr : Trace} {r : Except Error Unit} {rt : Runtime}

/-- **At the flush**: less than `m` mutations are left in no flush, if it is not due or no handle is
in its way. -/
lemma FlushedWithin.flush (h : FlushedWithin m n t₁) (hm : 0 < m)
    (hprimary : t₁.buffer.primaryKey = none → n = 0)
    (hguard : ∀ p pk, t₁.FlushDue p pk → t₁.flushHandle = none)
    (hret : Returns (pipelinedMaybeFlush.exec t₁) tr (r, t')) :
    FlushedWithin m 0 t' := by
  obtain ⟨p, hp, hmin, hsize⟩ := h.pipelined
  have hidle : (∀ pk, t₁.FlushDue p pk → p.flushing ≠ none) → p.mutable.size < m →
      FlushedWithin m 0 t' := by
    intro hnot hless
    rw [exec_pipelinedMaybeFlush_idle hp hnot] at hret
    obtain ⟨-, heq⟩ := returns_ret_iff.mp hret
    cases heq
    exact ⟨h.optimistic, ⟨p, hp, hmin, hless⟩, h.hasPrimary⟩
  cases hpk : t₁.buffer.primaryKey with
  | none =>
    obtain rfl := hprimary hpk
    exact hidle (fun pk hdue => by rw [hdue.primaryKey] at hpk; cases hpk) hsize
  | some pk =>
    by_cases henough : p.minFlushKeys ≤ p.mutable.size
    · have hdue : t₁.FlushDue p pk := ⟨hp, hpk, henough⟩
      have hflushing : p.flushing = none := by
        simpa [flushHandle, hp] using hguard p pk hdue
      obtain ⟨minKey, maxKey, hexec⟩ := exec_pipelinedMaybeFlush_start hdue (by omega) hflushing
      rw [hexec, returns_call_iff] at hret
      obtain ⟨handle, tr, rfl, hret⟩ := hret
      obtain ⟨-, heq⟩ := returns_ret_iff.mp hret
      cases heq
      exact ⟨h.optimistic, ⟨_, rfl, hmin, Std.ExtTreeMap.size_empty.trans_lt hm⟩, h.hasPrimary⟩
    · exact hidle (fun pk hdue => absurd hdue.enough henough) (by omega)

/-- A read adds no mutations. -/
lemma triple_read {α : Type} {f : Transaction → Buffer → Async (Buffer × Except Error α)}
    (hf : ∀ t b, (f t b).Sat (fun _ => True) (fun _ _ => True) fun r => b.ReadInto r.1) :
    Triple (fun _ => True) (fun _ _ => True) (FlushedWithin m 0)
      (checkAllowOperation >>= fun _ => MonadState.get >>= fun t => readThrough (f t))
      fun _ => FlushedWithin m 0 := by
  refine guarded (Triple.get_bind fun t ht => ?_) fun _ _ ht => ht
  rintro _ rfl
  exact (hf _ _).bind fun r hr =>
    ⟨ht.1.optimistic, ht.1.pipelined, ht.1.hasPrimary.readInto hr⟩

lemma triple_getWithin (fuel : ℕ) (key : Key) :
    Triple (fun _ => True) (fun _ _ => True) (FlushedWithin m 0) (get fuel key)
      fun _ => FlushedWithin m 0 :=
  triple_read fun _ b => b.sat_getOrElse key (sat_true _)

lemma triple_batchGetWithin (fuel : ℕ) (keys : List Key) :
    Triple (fun _ => True) (fun _ _ => True) (FlushedWithin m 0) (batchGet fuel keys)
      fun _ => FlushedWithin m 0 :=
  triple_read fun _ b => b.sat_batchGetOrElse keys fun _ => sat_true _

lemma triple_readOp (hread : op.isRead = true) (fuel : ℕ) :
    Triple (fun _ => True) (fun _ _ => True) (FlushedWithin m 0) (op.run fuel)
      fun _ => FlushedWithin m 0 := by
  cases op with
  | get key => exact (triple_getWithin fuel key).discard
  | getWithOptions key needCommitTs =>
    exact (triple_read fun _ b => b.sat_getEntryOrElse key needCommitTs (sat_true _)).discard
  | keyExists key =>
    exact ((triple_getWithin fuel key).bind (fun _ => Triple.pure fun _ ht => ht)
      fun _ _ ht => ht).discard
  | batchGet keys => exact (triple_batchGetWithin fuel keys).discard
  | batchGetWithOptions keys needCommitTs =>
    exact (triple_read fun _ b =>
      b.sat_batchGetEntriesOrElse keys needCommitTs fun _ => sat_true _).discard
  | scan range limit keyOnly reverse =>
    exact (triple_read fun _ b => b.sat_scanAndFetch range limit _ reverse
      fun _ _ => sat_true _).discard
  | _ => cases hread

lemma triple_afterFlush (op : Op) (fuel : ℕ) :
    Triple (fun _ => True) (fun _ _ => True) (FlushedWithin m 0) (op.afterFlush fuel)
      fun _ => FlushedWithin m 0 := by
  cases op with
  | getForUpdate key options => exact (triple_getWithin fuel key).discard
  | batchGetForUpdate keys options => exact (triple_batchGetWithin fuel keys).discard
  | _ => exact fun _ ht => ht

lemma exec_run_of_not_isOpen (hopen : ¬ t.IsOpen) (hchanges : op.changes = some changes)
    (fuel : ℕ) :
    (op.run fuel).exec t = .ret (.error .operationAfterCommitError, t) := by
  cases op with
  | put | insert | delete | batchMutate | lockKeys => exact exec_guarded_of_not_isOpen hopen _
  | getForUpdate key options =>
    rw [Op.run, exec_bind, getForUpdate, exec_guarded_of_not_isOpen hopen]
    rfl
  | batchGetForUpdate keys options =>
    rw [Op.run, exec_bind, batchGetForUpdate, exec_guarded_of_not_isOpen hopen]
    rfl
  | _ => cases hchanges

lemma exec_run_of_isDuplicate (hopen : t.IsOpen) (h : op.IsDuplicate t) (fuel : ℕ) :
    (op.run fuel).exec t = .ret (.error .duplicateKeyInsertion, t) := by
  obtain ⟨key, value, rfl, hknown⟩ := h
  rw [Op.run, insert, exec_guarded_of_isOpen hopen, exec_bind]
  rw [exec_get, ret_bind]
  dsimp only
  rw [if_pos hknown]
  rfl

/-- **Every call keeps the bound.** -/
lemma FlushedWithin.call (h : FlushedWithin m 0 t) (hm : 0 < m) (hguard : FlushGuard op t rt)
    {fuel : ℕ} (hret : Returns ((op.run fuel).exec t) tr (r, t')) : FlushedWithin m 0 t' := by
  have hsame : ∀ e, (op.run fuel).exec t = .ret (.error e, t) → FlushedWithin m 0 t' := by
    intro e hexec
    rw [hexec] at hret
    obtain ⟨-, heq⟩ := returns_ret_iff.mp hret
    cases heq
    exact h
  cases hchanges : op.changes with
  | none =>
    have hread := hguard.1.resolve_right (not_not_intro hchanges)
    exact ((triple_readOp hread fuel).of_returns h hret fun e _ => by cases e <;> trivial).2
  | some changes =>
    by_cases hopen : t.IsOpen
    case neg => exact hsame _ (exec_run_of_not_isOpen hopen hchanges fuel)
    by_cases hdup : op.IsDuplicate t
    case pos => exact hsame _ (exec_run_of_isDuplicate hopen hdup fuel)
    have hreaches : Reaches op t changes _ := ⟨hopen, hdup, hchanges, rfl⟩
    obtain ⟨hwithin, hprimary, -⟩ := h.foldl_applyChange (keyWrite_of_changes hchanges)
    have hnone : (changes.foldl Transaction.applyChange t).buffer.primaryKey = none →
        changes.length = 0 := fun hpk =>
      List.length_eq_zero_iff.mpr (hprimary.resolve_right (not_not_intro hpk))
    have hdue := fun p pk => hguard.2 changes _ p pk hreaches
    rw [exec_run_of_reaches hreaches h.optimistic, returns_exec_bind_iff] at hret
    rcases hret with ⟨tr₁, tr₂, u, t₂, rfl, hflush, hafter⟩ | ⟨e, rfl, hflush⟩
    · have ht₂ := hwithin.flush hm hnone hdue hflush
      exact ((triple_afterFlush op fuel).of_returns ht₂ hafter fun e _ => by
        cases e <;> trivial).2
    · exact hwithin.flush hm hnone hdue hflush

/-- **The bound holds in every state of a run.** -/
lemma within_of_session {F : Request → Prop} {t₀ : Transaction} {rt₀ : Runtime}
    (h : Session F FlushGuard t₀ rt₀ t rt) (hm : 0 < m) (h₀ : FlushedWithin m 0 t₀) :
    FlushedWithin m 0 t := by
  induction h with
  | start => exact h₀
  | call _ hguard hcall ih =>
    obtain ⟨fuel, tr, hret, -⟩ := hcall
    exact ih.call hm hguard hret

lemma within_new {options : TransactionOptions} (hvalid : options.validate = .ok ())
    (hoptions : options.pipelined = some m) (timestamp : ℕ) (txnLatches : Bool) :
    0 < m ∧ FlushedWithin m 0 (Transaction.new timestamp options txnLatches) := by
  unfold TransactionOptions.validate at hvalid
  rw [hoptions] at hvalid
  dsimp only at hvalid
  split_ifs at hvalid with hpessimistic _ hzero
  have hm := Nat.pos_of_ne_zero hzero
  refine ⟨hm, Bool.eq_false_iff.mpr hpessimistic, ⟨.new m, ?_, rfl, ?_⟩, ?_⟩
  · rw [Transaction.new, hoptions]
    rfl
  · exact Std.ExtTreeMap.size_empty.trans_lt hm
  · rintro k ⟨e, he, -⟩
    simp [Transaction.new, Buffer.new] at he

end Runs

/-- **A pipelined transaction flushes again only when nothing was flushed before.**  Whatever was
called before, `pipelined_maybe_flush` with a flush due starts a new one if and only if there is no
handle.  In a run of reads and writes in which no call finds a handle at a flush that is due, the
next call that reaches it does so whenever all flushes before it have succeeded and there is no
handle; and there are less mutations in no flush than `min_flush_keys` and those of the call. -/
theorem flushes_again_iff {F : Request → Prop} {options : TransactionOptions} {m : ℕ}
    (hvalid : options.validate = .ok ()) (hoptions : options.pipelined = some m) (timestamp : ℕ)
    (txnLatches : Bool) (w : World) {t t₁ : Transaction} {rt : Runtime} {op : Op}
    {changes : List KeyChange}
    (hrun : Session F FlushGuard (Transaction.new timestamp options txnLatches) (.start w) t rt)
    (hreaches : Reaches op t changes t₁) :
    (∀ (t₂ : Transaction) p pk, t₂.FlushDue p pk → 0 < t₂.unflushed →
      (t₂.StartsFlush p ↔ t₂.flushHandle = none)) ∧
    ((∀ p pk, t₁.FlushDue p pk → FlushesDone rt → t₁.StartsFlush p) ↔
        (∀ p pk, t₁.FlushDue p pk → FlushesDone rt → t₁.flushHandle = none)) ∧
      t₁.unflushed < m + changes.length ∧ t.unflushed < m := by
  obtain ⟨hm, hnew⟩ := within_new hvalid hoptions timestamp txnLatches
  have hwithin := within_of_session hrun hm hnew
  obtain ⟨hchanged, -, -⟩ :=
    hwithin.foldl_applyChange (keyWrite_of_changes hreaches.changes_eq)
  rw [← hreaches.state] at hchanged
  have hpos : ∀ p pk, t₁.FlushDue p pk → 0 < t₁.unflushed := by
    intro p pk hdue
    obtain ⟨q, hq, hmin, -⟩ := hchanged.pipelined
    obtain rfl := Option.some.inj (hdue.pipelined.symm.trans hq)
    rw [hdue.unflushed_eq]
    exact (hmin ▸ hm).trans_le hdue.enough
  refine ⟨fun _ _ _ => startsFlush_iff, ?_, hchanged.unflushed_lt, hwithin.unflushed_lt⟩
  exact forall₂_congr fun p pk => forall₂_congr fun hdue _ => startsFlush_iff hdue (hpos p pk hdue)

/-- Flush every mutation at once. -/
def flushEach : TransactionOptions := { TransactionOptions.newOptimistic with pipelined := some 1 }

/-- The write of one key. -/
def putChange (k : Key) (v : Value) : KeyChange := (k, fun b => b.put k v)

lemma reaches_put {t : Transaction} (hopen : t.IsOpen) (k : Key) (v : Value) :
    Reaches (.put k v) t [putChange k v] (t.applyChange (putChange k v)) :=
  ⟨hopen, nofun, rfl, rfl⟩

/-- The pipelined state after the first write. -/
def afterFirstWrite : PipelinedTxnState :=
  (PipelinedTxnState.new 1).recordMutation ⟨[1]⟩ (some ⟨.put, ⟨[1]⟩, [1], .none⟩)

lemma flushDue_first_write :
    FlushDue ((Transaction.new 7 flushEach false).applyChange (putChange ⟨[1]⟩ [1])) afterFirstWrite
      ⟨[1]⟩ :=
  ⟨rfl, by decide, by decide⟩

/-- The first write is flushed. -/
theorem first_write_flushed :
    ∃ changes t₁ p pk, Reaches (.put ⟨[1]⟩ [1]) (Transaction.new 7 flushEach false) changes t₁ ∧
      t₁.FlushDue p pk ∧ t₁.StartsFlush p := by
  have hreaches := reaches_put (t := Transaction.new 7 flushEach false) (.inr rfl) ⟨[1]⟩ [1]
  have hiff := flushes_again_iff (F := fun _ => False) (rfl : flushEach.validate = .ok ())
    (rfl : flushEach.pipelined = some 1) 7 false emptyWorld .start hreaches
  refine ⟨_, _, _, _, hreaches, flushDue_first_write,
    hiff.2.1.mpr (fun _ _ _ _ => by decide) _ _ flushDue_first_write ?_⟩
  simp [FlushesDone, Runtime.start]

/-- The flush of the first write. -/
def firstFlush : Task :=
  .flush (afterFirstWrite.flushRequest ⟨7, ⟨[1]⟩, .off, flushEach.retryOptions⟩)
    flushEach.retryOptions

/-- The flush is started, and there is nothing else. -/
def firstFlushStarted : Runtime :=
  { Runtime.start emptyWorld with running := [(firstFlush, taskProgram 20 firstFlush)] }

/-- The task has finished without an error. -/
def finished : Task × Prog sig (Except Error Unit) → Bool
  | (_, .ret (.ok ())) => true
  | _ => false

lemma eq_of_finished {x : Task × Prog sig (Except Error Unit)} (h : finished x = true) :
    x.2 = .ret (.ok ()) := by
  obtain ⟨task, prog⟩ := x
  unfold finished at h
  split at h
  next heq => exact congrArg Prod.snd heq
  · cases h

lemma exists_flush_finished :
    ∃ rt, (runtime fun _ => False).concurrent.Run firstFlushStarted [] rt ∧ FlushesDone rt := by
  have hcheck : ((background ⟨.ok 8, fun _ => none⟩ 0 20 firstFlushStarted).any fun rt =>
      rt.running.all finished) = true := by
    decide +kernel
  cases hrt : background ⟨.ok 8, fun _ => none⟩ 0 20 firstFlushStarted with
  | none =>
    rw [hrt] at hcheck
    cases hcheck
  | some rt =>
    rw [hrt, Option.any_some] at hcheck
    refine ⟨rt, run_of_background _ hrt, fun x hx _ _ _ => eq_of_finished ?_⟩
    exact List.all_eq_true.mp hcheck x hx

/-- With the flush of the first write finished, the write of a second key starts none. -/
theorem second_write_not_flushed :
    ∃ t rt changes t₁ p pk, Session (fun _ => False) (fun _ _ _ => True)
        (Transaction.new 7 flushEach false) (.start emptyWorld) t rt ∧
      Reaches (.put ⟨[2]⟩ [2]) t changes t₁ ∧ t₁.FlushDue p pk ∧ FlushesDone rt ∧
        ¬ t₁.StartsFlush p := by
  have hreaches := reaches_put (t := Transaction.new 7 flushEach false) (.inr rfl) ⟨[1]⟩ [1]
  obtain ⟨minKey, maxKey, hexec⟩ :=
    exec_pipelinedMaybeFlush_start flushDue_first_write (by decide) rfl
  obtain ⟨rt, hrt, hdone⟩ := exists_flush_finished
  -- the state after the first write, with the handle of its flush
  set started : PipelinedTxnState :=
    { afterFirstWrite.takeMutable minKey maxKey with flushing := some 0 } with hstarted
  set t : Transaction := { Transaction.new 7 flushEach false with
    buffer := (Buffer.new false).put ⟨[1]⟩ [1]
    pipelined := some started } with ht
  have hcall : Calls (fun _ => False) (.put ⟨[1]⟩ [1]) (Transaction.new 7 flushEach false)
      (.start emptyWorld) (.ok ()) t firstFlushStarted := by
    refine ⟨9, [.answered (.spawn firstFlush) (0 : ℕ)], ?_, .answered ⟨rfl, 20, rfl⟩ (.refl _)⟩
    rw [exec_run_of_reaches hreaches rfl, exec_bind, hexec]
    exact Steps.call (S := sig) (c := .spawn firstFlush) (0 : ℕ) (Steps.refl _)
  have hmutation : (((Buffer.new false).put ⟨[1]⟩ [1]).put ⟨[2]⟩ [2]).mutationForKey ⟨[2]⟩ .off =
      some ⟨.put, ⟨[2]⟩, [2], .none⟩ := by
    decide
  set p : PipelinedTxnState :=
    started.recordMutation ⟨[2]⟩ (some ⟨.put, ⟨[2]⟩, [2], .none⟩) with hp
  have hone : 1 ≤ ((∅ : Std.ExtTreeMap Key Proto.Mutation).insert ⟨[2]⟩
      ⟨.put, ⟨[2]⟩, [2], .none⟩).size := by
    decide
  have hsize : p.minFlushKeys ≤ p.mutable.size := hone
  have hdue : FlushDue (t.applyChange (putChange ⟨[2]⟩ [2])) p ⟨[1]⟩ := by
    refine ⟨?_, rfl, hsize⟩
    rw [hp, ← hmutation]
    rfl
  refine ⟨t, rt, _, _, p, _, .call .start trivial (hcall.background hrt),
    reaches_put (.inr rfl) ⟨[2]⟩ [2], hdue, hdone, fun hstarts => ?_⟩
  have hhandle := (startsFlush_iff hdue (hdue.unflushed_eq ▸ hone)).mp hstarts
  cases hhandle

end Transaction

end TikvClient
