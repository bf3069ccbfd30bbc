import TikvClient.Server.Tikv
import TikvClient.Transaction.RequestLemmas
import TikvClient.Transaction.Transaction

/-!
# What the operations of a transaction may do

Everything that a transaction does before it is committed or rolled back is put together from a
few kinds of steps: reads that fill the cache, writes of a key that are recorded, flag updates,
pessimistic locks, heartbeats, and flushes in pipelined mode.  `Respects C A First Inv` lists
them once: which calls each may make, and that each keeps the property `Inv` of the transaction.

**The result** is `Respects.triple_op`: whatever respects these steps is respected by every
operation.  What is to be shown of whole histories is then shown step by step.  `OpSteps` takes a
pessimistic lock as one step, for properties that do not hold in the midst of it.

**First keys.**  A pessimistic lock request names the first of its keys as primary if there is no
primary yet; `First` are the keys that may be chosen so.
-/

namespace TikvClient

open Proto Prog StateProg

/-! ## Reads through the buffer -/

namespace Buffer

/-- The buffers that `b` becomes when reads are cached, with or without commit timestamps. -/
inductive ReadInto (b : Buffer) : Buffer → Prop where
  | refl : ReadInto b b
  | cache {c d : Buffer} {key : Key} {value : Option Value} : ReadInto b c →
      c.updateCache key value = .ok d → ReadInto b d
  | commitTs {c : Buffer} (ts : Std.ExtTreeMap Key ℕ) : ReadInto b c →
      ReadInto b { c with readCommitTs := ts }

variable {b c : Buffer}

lemma ReadInto.updateCaches (pairs : List (Key × Option Value)) (h : ReadInto b c) :
    ReadInto b (c.updateCaches pairs).1 := by
  induction pairs generalizing c with
  | nil => exact h
  | cons p rest ih =>
    unfold Buffer.updateCaches
    split
    next hd => exact ih (h.cache hd)
    · exact h

lemma ReadInto.updateReadCache {d : Buffer} {key : Key} {value : Option Value} {ts : ℕ}
    (h : ReadInto b c) (hd : c.updateReadCache key value ts = .ok d) : ReadInto b d := by
  unfold Buffer.updateReadCache at hd
  cases hc : c.updateCache key value with
  | error e =>
    rw [hc] at hd
    cases hd
  | ok c' =>
    rw [hc] at hd
    change (if _ then _ else _) = _ at hd
    split_ifs at hd <;> cases hd
    · exact (h.cache hc).commitTs _
    · exact (h.cache hc).commitTs _
    · exact h.cache hc

lemma ReadInto.updateReadCaches (entries : List (Key × ValueEntry)) (h : ReadInto b c) :
    ReadInto b (c.updateReadCaches entries).1 := by
  induction entries generalizing c with
  | nil => exact h
  | cons p rest ih =>
    unfold Buffer.updateReadCaches
    split
    next hd => exact ih (h.updateReadCache hd)
    · exact h

variable {C : Call → Prop} {A : Answers}

lemma sat_getOrElse (b : Buffer) (key : Key) {f : Key → Async (Except Error (Option Value))}
    (hf : (f key).Sat C A fun _ => True) :
    (b.getOrElse key f).Sat C A fun r => ReadInto b r.1 := by
  unfold getOrElse
  split
  · exact ReadInto.refl
  · refine hf.bind fun r _ => ?_
    cases r with
    | error e => exact ReadInto.refl
    | ok value =>
      dsimp only
      split
      next c hc => exact ReadInto.refl.cache hc
      · exact ReadInto.refl

lemma sat_batchGetOrElse (b : Buffer) (keys : List Key)
    {f : List Key → Async (Except Error (List KvPair))}
    (hf : ∀ keys, (f keys).Sat C A fun _ => True) :
    (b.batchGetOrElse keys f).Sat C A fun r => ReadInto b r.1 := by
  refine (hf _).bind fun r _ => ?_
  cases r with
  | error e => exact ReadInto.refl
  | ok fetched =>
    dsimp only
    have hread := ReadInto.refl.updateCaches (b := b) (fetched.map fun p => (p.key, some p.value))
    split
    all_goals
      next hc =>
        rw [hc] at hread
        exact hread

lemma sat_getEntryOrElse (b : Buffer) (key : Key) (needCommitTs : Bool)
    {f : Key → Async (Except Error (Option ValueEntry))} (hf : (f key).Sat C A fun _ => True) :
    (b.getEntryOrElse key needCommitTs f).Sat C A fun r => ReadInto b r.1 := by
  unfold getEntryOrElse
  split
  · exact ReadInto.refl
  · refine hf.bind fun r _ => ?_
    cases r with
    | error e => exact ReadInto.refl
    | ok entry =>
      dsimp only
      split
      next hc => exact ReadInto.refl.updateReadCache hc
      · exact ReadInto.refl

lemma sat_batchGetEntriesOrElse (b : Buffer) (keys : List Key) (needCommitTs : Bool)
    {f : List Key → Async (Except Error (List (Key × ValueEntry)))}
    (hf : ∀ keys, (f keys).Sat C A fun _ => True) :
    (b.batchGetEntriesOrElse keys needCommitTs f).Sat C A fun r => ReadInto b r.1 := by
  unfold batchGetEntriesOrElse
  dsimp only
  split_ifs
  · exact ReadInto.refl
  refine (hf _).bind fun r _ => ?_
  cases r with
  | error e => exact ReadInto.refl
  | ok fetched =>
    dsimp only
    have hread := ReadInto.refl.updateReadCaches (b := b) fetched
    split
    all_goals
      next hc =>
        rw [hc] at hread
        exact hread

lemma sat_scanAndFetch (b : Buffer) (range : BoundRange) (limit : ℕ) (updateCache reverse : Bool)
    {f : BoundRange → ℕ → Async (Except Error (List KvPair))}
    (hf : ∀ range limit, (f range limit).Sat C A fun _ => True) :
    (b.scanAndFetch range limit updateCache reverse f).Sat C A fun r => ReadInto b r.1 := by
  unfold scanAndFetch
  by_cases hinverted : (b.hasRoot && range.isInverted) = true
  · rw [if_pos hinverted]
    exact ReadInto.refl
  rw [if_neg hinverted]
  refine (hf _ _).bind fun r _ => ?_
  cases r with
  | error e => exact ReadInto.refl
  | ok fetched =>
    cases updateCache with
    | false => exact ReadInto.refl
    | true =>
      simp only [if_true]
      split <;> exact ReadInto.refl.updateCaches _

end Buffer

/-! ## The steps -/

namespace Transaction

/-- The transaction accepts operations. -/
def IsOpen (t : Transaction) : Prop := t.status = .readOnly ∨ t.status = .active

/-- The ways a key is changed in the buffer by a write. -/
inductive KeyWrite (key : Key) : (Buffer → Buffer) → Prop where
  | put (value : Value) : KeyWrite key fun b => b.put key value
  | insert (value : Value) : KeyWrite key fun b => b.insert key value
  | delete : KeyWrite key fun b => b.delete key
  | lock : KeyWrite key fun b => b.lock key

/-- **The steps the operations are made of**, apart from pessimistic locks: the calls of each are in
`C`, and each keeps `Inv`. -/
structure PlainSteps (C : Call → Prop) (A : Answers) (Inv : Transaction → Prop) : Prop where
  routing : Routing C
  getTimestamp : C .getTimestamp
  elapsed : C .elapsed
  resolving : ∀ version, Resolving C version
  reads : ∀ region r, r.txn = none → C (.rpc region r)
  read : ∀ {t b}, Inv t → t.IsOpen → t.buffer.ReadInto b → Inv { t with buffer := b }
  write : ∀ {t key f}, Inv t → t.IsOpen → KeyWrite key f →
    Inv (({ t with buffer := f t.buffer } : Transaction).recordKeyChange key)
  flags : ∀ {t} key ops, Inv t →
    Inv (({ t with buffer := t.buffer.updateKeyFlags key ops } : Transaction).recordKeyChange key)
  flush : ∀ {t pk}, Inv t → t.IsOpen → t.pipelined.isSome = true → t.buffer.primaryKey = some pk →
    ((onPipelined (PipelinedTxnState.maybeFlush (t.flushContext pk))).exec t).Sat C A
      fun r => Inv r.2
  sendsHeartBeat : ∀ {t pk}, Inv t → t.IsOpen → t.buffer.primaryKey = some pk → ∀ region ttl,
    C (.rpc region (.txnHeartBeat ⟨pk, t.timestamp, ttl⟩))

/-- **All the steps**, with those of a pessimistic lock. -/
structure Respects (C : Call → Prop) (A : Answers) (First : Key → Prop)
    (Inv : Transaction → Prop) : Prop extends PlainSteps C A Inv where
  spawnHeartbeat : ∀ {t pk}, Inv t → t.IsOpen → t.buffer.primaryKey = some pk →
    C (.spawn (.heartbeat t.timestamp pk t.options.retryOptions.regionBackoff))
  heartbeatStarted : ∀ {t}, Inv t → t.IsOpen → Inv { t with isHeartbeatStarted := true }
  sendsPessimisticLock : ∀ {t key}, Inv t → t.IsOpen → t.options.isPessimistic = true → First key →
    ∀ region r, r.startVersion = t.timestamp → r.primaryLock = t.buffer.primaryKey.getD key →
      C (.rpc region (.pessimisticLock r))
  pushForUpdateTs : ∀ {t} ts, Inv t → t.IsOpen → t.options.isPessimistic = true →
    Inv { t with options := t.options.pushForUpdateTs ts }
  acquire : ∀ {t key}, Inv t → t.IsOpen → t.options.isPessimistic = true → First key →
    Inv { t with buffer := t.buffer.primaryKeyOr key, hasPessimisticLock := true }
  lock : ∀ {t} key, Inv t → t.IsOpen → t.options.isPessimistic = true →
    Inv { t with buffer := t.buffer.lock key }
  sendsPessimisticRollback : ∀ {t}, Inv t → t.IsOpen → t.options.isPessimistic = true → ∀ region r,
    r.startVersion = t.timestamp → C (.rpc region (.pessimisticRollback r))
  unlock : ∀ {t} key, Inv t → t.IsOpen → t.options.isPessimistic = true →
    Inv { t with buffer := t.buffer.unlock key }

/-- **What the operations are put together from**, with a pessimistic lock as one step; `Locks` says
which locks may be asked for. -/
structure OpSteps (C : Call → Prop) (A : Answers)
    (Locks : List (Key × Assertion) → Transaction → Prop) (Inv : Transaction → Prop) : Prop
    extends PlainSteps C A Inv where
  pessimisticLock : ∀ fuel locks options,
    Triple C A (fun t => (Inv t ∧ t.IsOpen) ∧ Locks locks t)
      (Transaction.pessimisticLock fuel locks options) fun _ t => Inv t ∧ t.IsOpen

variable {α : Type} {t : Transaction} {C : Call → Prop} {A : Answers}

lemma exec_onPipelined (m : PipelinedTxnState.M α) (t : Transaction) :
    (onPipelined m).exec t = match t.pipelined with
      | none =>
        .ret (.error (.invalidPipelinedTransaction "pipelined transaction state is missing"), t)
      | some p => (m.exec p).bind fun r => .ret (r.1, { t with pipelined := some r.2 }) := rfl

variable {allowed : List TransactionStatus} {op : Op}

lemma exec_transitStatus_of_mem (h : t.status ∈ allowed) (next : TransactionStatus) :
    (transitStatus allowed next).exec t = .ret (.ok (), { t with status := next }) := by
  rw [transitStatus, exec_bind, exec_get, ret_bind]
  dsimp only
  rw [if_pos h]
  rfl

lemma exec_transitStatus_of_not_mem (h : t.status ∉ allowed) (next : TransactionStatus) :
    (transitStatus allowed next).exec t = .ret (.error .operationAfterCommitError, t) := by
  rw [transitStatus, exec_bind, exec_get, ret_bind]
  dsimp only
  rw [if_neg h]
  rfl

lemma exec_guarded_of_isOpen (h : t.IsOpen) (m : TxnM α) :
    (checkAllowOperation >>= fun _ => m).exec t = m.exec t := by
  have hcheck : checkAllowOperation.exec t = .ret (.ok (), t) := by
    rw [checkAllowOperation, exec_get_bind]
    rcases h with hst | hst <;> rw [hst] <;> rfl
  rw [exec_bind, hcheck]
  rfl

lemma exec_guarded_of_not_isOpen (h : ¬ t.IsOpen) (m : TxnM α) :
    (checkAllowOperation >>= fun _ => m).exec t = .ret (.error .operationAfterCommitError, t) := by
  have hcheck : checkAllowOperation.exec t = .ret (.error .operationAfterCommitError, t) := by
    rw [checkAllowOperation, exec_get_bind]
    cases hst : t.status
    case readOnly => exact absurd (.inl hst) h
    case active => exact absurd (.inr hst) h
    all_goals rfl
  rw [exec_bind, hcheck]
  rfl

/-- An operation that checks the status first runs in an open transaction. -/
lemma guarded {Inv : Transaction → Prop} {m : TxnM α} {Q : Except Error α → Transaction → Prop}
    (h : Triple C A (fun t => Inv t ∧ t.IsOpen) m Q) (herr : ∀ e t, Inv t → Q (.error e) t) :
    Triple C A Inv (checkAllowOperation >>= fun _ => m) Q := by
  intro t ht
  by_cases hopen : t.IsOpen
  · rw [exec_guarded_of_isOpen hopen]
    exact h t ⟨ht, hopen⟩
  · rw [exec_guarded_of_not_isOpen hopen]
    exact herr _ t ht

lemma PlainSteps.mayResolve {R Shard Resp : Type} {Inv : Transaction → Prop}
    (h : PlainSteps C A Inv) (d : Dispatch R Shard Resp) (P : R → Prop)
    (Answered : R → Resp → Prop) : MayResolve d C P Answered :=
  fun _ _ _ _ _ _ => h.resolving _

namespace OpSteps

variable {C : Call → Prop} {A : Answers}
  {Locks : List (Key × Assertion) → Transaction → Prop} {Inv : Transaction → Prop}
  (h : OpSteps C A Locks Inv)
include h

/-! ### Plans -/

variable {R Shard Resp : Type} {f : Buffer → Buffer}

/-- A plan that reads, whatever it makes of the results. -/
lemma sat_readPlan {I : Type} {d : Dispatch R Shard Resp} {items : R → List I}
    {Answered : R → Resp → Prop} {whole : Prop}
    (hsends : d.Sends C A items (fun _ => True) Answered whole) (fuel : ℕ)
    (retryOptions : RetryOptions) (r : R) {f : ShardResults R Resp → AsyncResult α}
    (hf : ∀ results, (f results).Sat C A fun _ => True) :
    ((executeShards d fuel retryOptions r).andThen f).Sat C A fun _ => True :=
  Sat.andThen (hsends.sat_executeShards h.routing h.getTimestamp (h.mayResolve _ _ _) fuel
    retryOptions (hsends.shards r trivial)) (fun results _ => hf results) fun _ _ => trivial

lemma sat_getPlan (fuel : ℕ) (retryOptions : RetryOptions) (r : GetRequest) :
    (getPlan fuel retryOptions r).Sat C A fun _ => True := by
  refine h.sat_readPlan (sends_get h.routing fun region r => h.reads region (.get r) rfl) fuel
    retryOptions r fun results => ?_
  split <;> exact trivial

lemma sat_batchGetPlan (fuel : ℕ) (retryOptions : RetryOptions) (r : BatchGetRequest) :
    (batchGetPlan fuel retryOptions r).Sat C A fun _ => True := by
  refine h.sat_readPlan (sends_batchGet h.routing fun region r => h.reads region (.batchGet r) rfl)
    fuel retryOptions r fun results => ?_
  split <;> exact trivial

lemma sat_scanPlan (fuel : ℕ) (retryOptions : RetryOptions) (r : ScanRequest) :
    (scanPlan fuel retryOptions r).Sat C A fun _ => True := by
  refine h.sat_readPlan (sends_scan h.routing fuel fun region r => h.reads region (.scan r) rfl)
    fuel retryOptions r fun results => ?_
  split <;> exact trivial

/-- The reads of the API: an open transaction, a plan that only reads, and the cache. -/
lemma triple_readThrough {f : Transaction → Buffer → Async (Buffer × Except Error α)}
    (hf : ∀ t b, (f t b).Sat C A fun r => b.ReadInto r.1) :
    Triple C A Inv (checkAllowOperation >>= fun _ => MonadState.get >>= fun t => readThrough (f t))
      fun _ => Inv := by
  refine guarded (Triple.get_bind fun t ht => ?_) fun _ _ ht => ht
  rintro _ rfl
  exact (hf _ _).bind fun r hr => h.read ht.1 ht.2 hr

lemma triple_get (fuel : ℕ) (key : Key) : Triple C A Inv (get fuel key) fun _ => Inv :=
  h.triple_readThrough fun _ b => b.sat_getOrElse key (h.sat_getPlan fuel _ _)

lemma triple_getWithOptions (fuel : ℕ) (key : Key) (needCommitTs : Bool) :
    Triple C A Inv (getWithOptions fuel key needCommitTs) fun _ => Inv :=
  h.triple_readThrough fun _ b => b.sat_getEntryOrElse key needCommitTs <|
    h.sat_readPlan (sends_get h.routing fun region r => h.reads region (.get r) rfl) fuel _ _
      fun _ => trivial

lemma triple_batchGetWithOptions (fuel : ℕ) (keys : List Key) (needCommitTs : Bool) :
    Triple C A Inv (batchGetWithOptions fuel keys needCommitTs) fun _ => Inv :=
  h.triple_readThrough fun _ b => b.sat_batchGetEntriesOrElse keys needCommitTs fun _ =>
    h.sat_readPlan (sends_batchGet h.routing fun region r => h.reads region (.batchGet r) rfl) fuel
      _ _ fun _ => trivial

lemma triple_keyExists (fuel : ℕ) (key : Key) :
    Triple C A Inv (keyExists fuel key) fun _ => Inv :=
  (h.triple_get fuel key).bind (fun _ => Triple.pure fun _ ht => ht) fun _ _ ht => ht

lemma triple_batchGet (fuel : ℕ) (keys : List Key) :
    Triple C A Inv (batchGet fuel keys) fun _ => Inv :=
  h.triple_readThrough fun _ b => b.sat_batchGetOrElse keys fun _ => h.sat_batchGetPlan fuel _ _

lemma triple_scanInner (fuel : ℕ) (range : BoundRange) (limit : ℕ) (keyOnly reverse : Bool) :
    Triple C A Inv (scanInner fuel range limit keyOnly reverse) fun _ => Inv :=
  h.triple_readThrough fun _ b =>
    b.sat_scanAndFetch range limit _ reverse fun _ _ => h.sat_scanPlan fuel _ _

/-! ### Writes and flushes -/

lemma triple_changeKey {key : Key} (hf : KeyWrite key f) :
    Triple C A (fun t => Inv t ∧ t.IsOpen) (changeKey key f) fun _ t => Inv t ∧ t.IsOpen := by
  intro t ht
  refine ⟨h.write ht.1 ht.2 hf, ?_⟩
  simp only [recordKeyChange]
  split <;> exact ht.2

lemma triple_changeFlags (key : Key) (ops : List FlagsOp) :
    Triple C A Inv (changeKey key fun b => b.updateKeyFlags key ops) fun _ => Inv :=
  fun _ ht => h.flags key ops ht

lemma triple_pipelinedMaybeFlush :
    Triple C A (fun t => Inv t ∧ t.IsOpen) pipelinedMaybeFlush fun _ => Inv := by
  refine Triple.get_bind fun t ht => ?_
  rintro _ rfl
  split
  next p pk hp hpk => exact h.flush ht.1 ht.2 (by simp [hp]) hpk
  · exact ht.1

lemma triple_mutateAll (mutations : List Mutation) :
    Triple C A (fun t => Inv t ∧ t.IsOpen) (mutateAll mutations)
      fun _ t => Inv t ∧ t.IsOpen := by
  induction mutations with
  | nil => exact Triple.pure fun _ ht => ht
  | cons m ms ih =>
    refine Triple.bind (h.triple_changeKey ?_) (fun _ => ih) fun _ _ ht => ht
    cases m with
    | put key value => exact .put value
    | delete key => exact .delete

lemma triple_lockAll (keys : List Key) :
    Triple C A (fun t => Inv t ∧ t.IsOpen) (lockAll keys) fun _ t => Inv t ∧ t.IsOpen := by
  induction keys with
  | nil => exact Triple.pure fun _ ht => ht
  | cons key keys ih => exact Triple.bind (h.triple_changeKey .lock) (fun _ => ih) fun _ _ ht => ht

/-! ### Heartbeats -/

lemma triple_sendHeartBeat (fuel : ℕ) : Triple C A Inv (sendHeartBeat fuel) fun _ => Inv := by
  refine guarded (Triple.get_bind fun t ht => ?_) fun _ _ ht => ht
  rintro t rfl
  split
  · exact ht.1
  next pk hpk =>
    rw [exec_bind]
    refine ⟨h.elapsed, fun (elapsedMs : ℕ) _ => ?_⟩
    have hsends := sends_txnHeartBeat (A := A) h.routing
      (I := fun r => ∃ ttl, r = ⟨pk, t.timestamp, ttl⟩) fun region r hr => by
        obtain ⟨ttl, rfl⟩ := hr
        exact h.sendsHeartBeat ht.1 ht.2 hpk region ttl
    have hplan := hsends.sat_executePlan h.routing h.getTimestamp (h.mayResolve _ _ _) fuel
      t.options.retryOptions (r := ⟨pk, t.timestamp, elapsedMs + maxTtl⟩) ⟨_, rfl⟩
    refine Triple.bind (P := (· = t)) (Q := fun _ => Inv) (R := fun _ => Inv)
      (Triple.ofProg hplan ?_) (fun leaves => ?_) (fun _ _ ht => ht) t rfl
    · rintro r _ rfl -
      exact ht.1
    · split
      · exact Triple.pure fun _ ht => ht
      · exact Triple.throw fun _ ht => ht

/-! ### The operations -/

/-- The transaction may ask for the locks, if it is pessimistic. -/
abbrev MayLock (Locks : List (Key × Assertion) → Transaction → Prop)
    (locks : List (Key × Assertion)) (t : Transaction) : Prop :=
  t.options.isPessimistic = true → Locks locks t

lemma triple_lockIfPessimistic (fuel : ℕ) (locks : List (Key × Assertion)) :
    Triple C A (fun t => (Inv t ∧ MayLock Locks locks t) ∧ t.IsOpen)
      (lockIfPessimistic fuel locks) fun _ t => Inv t ∧ t.IsOpen := by
  refine Triple.get_bind fun t ht => ?_
  split_ifs with hpess
  · refine Triple.bind ((h.pessimisticLock fuel locks .default).conseq ?_ fun _ _ hs => hs)
      (fun _ => Triple.pure fun _ hs => hs) fun _ _ hs => hs
    rintro _ rfl
    exact ⟨⟨ht.1.1, ht.2⟩, ht.1.2 hpess⟩
  · refine Triple.pure ?_
    rintro _ rfl
    exact ⟨ht.1.1, ht.2⟩

/-- A write: lock the key first if needed, change it, perhaps flush. -/
lemma triple_writeKey (fuel : ℕ) (key : Key) (assertion : Assertion) (hf : KeyWrite key f) :
    Triple C A (fun t => (Inv t ∧ MayLock Locks [(key, assertion)] t) ∧ t.IsOpen) (do
      lockIfPessimistic fuel [(key, assertion)]
      changeKey key f
      pipelinedMaybeFlush) fun _ => Inv :=
  Triple.bind (h.triple_lockIfPessimistic fuel _)
    (fun _ => Triple.bind (h.triple_changeKey hf) (fun _ => h.triple_pipelinedMaybeFlush)
      fun _ _ hs => hs.1) fun _ _ hs => hs.1

lemma triple_put (fuel : ℕ) (key : Key) (value : Value) :
    Triple C A (fun t => Inv t ∧ MayLock Locks [(key, .none)] t) (put fuel key value)
      fun _ => Inv :=
  guarded (h.triple_writeKey fuel key .none (.put value)) fun _ _ hs => hs.1

lemma triple_delete (fuel : ℕ) (key : Key) :
    Triple C A (fun t => Inv t ∧ MayLock Locks [(key, .none)] t) (delete fuel key)
      fun _ => Inv :=
  guarded (h.triple_writeKey fuel key .none .delete) fun _ _ hs => hs.1

lemma triple_insert (fuel : ℕ) (key : Key) (value : Value) :
    Triple C A (fun t => Inv t ∧ MayLock Locks [(key, .notExist)] t) (insert fuel key value)
      fun _ => Inv := by
  refine guarded (Triple.get_bind fun t ht => ?_) fun _ _ hs => hs.1
  split_ifs
  · refine Triple.throw ?_
    rintro _ rfl
    exact ht.1.1
  · refine (h.triple_writeKey fuel key .notExist (.insert value)).conseq ?_ fun _ _ hs => hs
    rintro _ rfl
    exact ht

lemma triple_batchMutate (fuel : ℕ) (mutations : List Mutation) :
    Triple C A (fun t => Inv t ∧ MayLock Locks (mutations.map fun m => (m.key, .none)) t)
      (batchMutate fuel mutations) fun _ => Inv :=
  guarded (Triple.bind (h.triple_lockIfPessimistic fuel _) (fun _ =>
    Triple.bind (h.triple_mutateAll mutations) (fun _ => h.triple_pipelinedMaybeFlush)
      fun _ _ hs => hs.1) fun _ _ hs => hs.1) fun _ _ hs => hs.1

lemma triple_lockKeys (fuel : ℕ) (keys : List Key) (options : LockOptions) :
    Triple C A (fun t => Inv t ∧ MayLock Locks (keys.map fun k => (k, .none)) t)
      (lockKeys fuel keys options) fun _ => Inv := by
  have hkind : Triple C A
      (fun t => (Inv t ∧ MayLock Locks (keys.map fun k => (k, .none)) t) ∧ t.IsOpen)
      (lockByKind fuel keys options) fun _ t => Inv t ∧ t.IsOpen := by
    refine Triple.get_bind fun t ht => ?_
    split
    · refine (h.triple_lockAll keys).conseq ?_ fun _ _ hs => hs
      rintro _ rfl
      exact ⟨ht.1.1, ht.2⟩
    next hkind =>
      refine Triple.bind ((h.pessimisticLock fuel _ options).conseq ?_ fun _ _ hs => hs)
        (fun _ => Triple.pure fun _ hs => hs) fun _ _ hs => hs
      rintro _ rfl
      exact ⟨⟨ht.1.1, ht.2⟩, ht.1.2 (by simp [TransactionOptions.isPessimistic, hkind])⟩
  exact guarded (Triple.bind hkind (fun _ => h.triple_pipelinedMaybeFlush) fun _ _ hs => hs.1)
    fun _ _ hs => hs.1

lemma triple_getForUpdate (fuel : ℕ) (key : Key) (options : LockOptions) :
    Triple C A (fun t => Inv t ∧ MayLock Locks [(key, .none)] t) (getForUpdate fuel key options)
      fun _ => Inv := by
  refine guarded (Triple.get_bind fun t ht => ?_) fun _ _ hs => hs.1
  split
  · refine Triple.bind ((h.triple_lockKeys fuel [key] .default).conseq ?_ fun _ _ hs => hs)
      (fun _ => h.triple_get fuel key) fun _ _ hs => hs
    rintro _ rfl
    exact ht.1
  next hpess =>
    refine Triple.bind ((h.pessimisticLock fuel _ _).conseq ?_ fun _ _ hs => hs)
      (fun _ => Triple.pure fun _ hs => hs.1) fun _ _ hs => hs.1
    rintro _ rfl
    exact ⟨⟨ht.1.1, ht.2⟩, ht.1.2 (by simpa using hpess)⟩

lemma triple_batchGetForUpdate (fuel : ℕ) (keys : List Key) (options : LockOptions) :
    Triple C A (fun t => Inv t ∧ MayLock Locks (keys.map fun k => (k, .none)) t)
      (batchGetForUpdate fuel keys options) fun _ => Inv := by
  refine guarded (Triple.get_bind fun t ht => ?_) fun _ _ hs => hs.1
  split
  · refine Triple.bind ((h.triple_lockKeys fuel keys .default).conseq ?_ fun _ _ hs => hs)
      (fun _ => h.triple_batchGet fuel keys) fun _ _ hs => hs
    rintro _ rfl
    exact ht.1
  next hpess =>
    refine (h.pessimisticLock fuel _ _).conseq ?_ fun _ _ hs => hs.1
    rintro _ rfl
    exact ⟨⟨ht.1.1, ht.2⟩, ht.1.2 (by simpa using hpess)⟩

end OpSteps

namespace Respects

variable {C : Call → Prop} {A : Answers} {First : Key → Prop}
  {Inv : Transaction → Prop} (h : Respects C A First Inv)
include h

lemma triple_startAutoHeartbeat {P : Transaction → Prop} (pk : Key)
    (hP : ∀ t, P t → P { t with isHeartbeatStarted := true }) :
    Triple C A (fun t => (Inv t ∧ t.IsOpen) ∧ t.buffer.primaryKey = some pk ∧ P t)
      (startAutoHeartbeat pk) fun _ t => (Inv t ∧ t.IsOpen) ∧ P t := by
  refine Triple.get_bind fun t ⟨ht, hpk, hPt⟩ => ?_
  rintro _ rfl
  split_ifs
  · exact ⟨ht, hPt⟩
  · rw [exec_bind]
    exact ⟨h.spawnHeartbeat ht.1 ht.2 hpk,
      fun _ _ => ⟨⟨h.heartbeatStarted ht.1 ht.2, ht.2⟩, hP _ hPt⟩⟩

/-! ### Pessimistic locks -/

/-- Requests of the transaction `t` that name `pk` as primary. -/
lemma sat_pessimisticLockPlan {key : Key} (hI : Inv t) (hopen : t.IsOpen)
    (hpess : t.options.isPessimistic = true) (hfirst : First key) (fuel : ℕ)
    (retryOptions : RetryOptions) {r : PessimisticLockRequest}
    (hstart : r.startVersion = t.timestamp)
    (hprimary : r.primaryLock = t.buffer.primaryKey.getD key) :
    (pessimisticLockPlan fuel retryOptions r).Sat C A fun _ => True := by
  have hsends := sends_pessimisticLock (A := A) h.routing
    (I := fun r => r.startVersion = t.timestamp ∧
      r.primaryLock = t.buffer.primaryKey.getD key) (fun _ _ hr _ _ => hr)
    fun region r hr => h.sendsPessimisticLock hI hopen hpess hfirst region r hr.1 hr.2
  have hcov := hsends.covering_resolveLock h.routing
    (fun _ _ _ _ => sat_resolveLocks h.routing h.getTimestamp fuel _
      fun _ _ _ _ _ => h.resolving _) fuel retryOptions.lockBackoff
  exact Sat.andThen (hcov.sat_retryMultiRegion true fuel retryOptions.regionBackoff
    (hsends.shards r ⟨hstart, hprimary⟩)) (fun _ _ => trivial) fun _ _ => trivial

/-- An open pessimistic transaction that satisfies `Inv`. -/
abbrev PessimisticInv (Inv : Transaction → Prop) (timestamp : ℕ) (t : Transaction) : Prop :=
  (Inv t ∧ t.IsOpen) ∧ t.options.isPessimistic = true ∧ t.timestamp = timestamp

omit h in
lemma isPessimistic_pushForUpdateTs (o : TransactionOptions) (ts : ℕ) :
    (o.pushForUpdateTs ts).isPessimistic = true := by
  unfold TransactionOptions.pushForUpdateTs TransactionOptions.isPessimistic
  cases o.kind <;> rfl

omit h in
lemma inv_foldl {step : Buffer → α → Buffer} {timestamp : ℕ}
    (hstep : ∀ t x, PessimisticInv Inv timestamp t → Inv { t with buffer := step t.buffer x })
    (xs : List α) :
    ∀ t, PessimisticInv Inv timestamp t →
      PessimisticInv Inv timestamp { t with buffer := xs.foldl step t.buffer } := by
  induction xs with
  | nil => exact fun t ht => ht
  | cons x xs ih => exact fun t ht => ih _ ⟨⟨hstep t x ht, ht.1.2⟩, ht.2⟩

lemma triple_pessimisticLockRollback (fuel : ℕ) (keys : List Key) (timestamp forUpdateTs : ℕ) :
    Triple C A (PessimisticInv Inv timestamp)
      (pessimisticLockRollback fuel keys timestamp forUpdateTs)
      fun _ t => Inv t ∧ t.IsOpen := by
  unfold pessimisticLockRollback
  split_ifs
  · exact Triple.pure fun _ ht => ht.1
  · refine Triple.get_bind fun t ht => ?_
    have hsends := sends_pessimisticRollback (A := A) h.routing
      (I := fun r => r.startVersion = t.timestamp) (fun _ _ hr _ _ => hr)
      fun region r hr => h.sendsPessimisticRollback ht.1.1 ht.1.2 ht.2.1 region r hr
    refine Triple.bind (Q := fun _ => PessimisticInv Inv timestamp)
      (Triple.ofProg (hsends.sat_executePlan h.routing h.getTimestamp (h.mayResolve _ _ _) fuel _
        ht.2.2.symm) ?_) (fun _ => ?_) fun _ _ ht => ht.1
    · rintro _ _ rfl -
      exact ht
    · refine Triple.modify fun t ht => ?_
      exact (inv_foldl (fun t key ht => h.unlock key ht.1.1 ht.1.2 ht.2.1) keys t ht).1

lemma triple_finishPessimisticLock {firstKey : Key} (hfirst : First firstKey)
    (locks : List (Key × Assertion)) (timestamp : ℕ) :
    Triple C A (PessimisticInv Inv timestamp) (finishPessimisticLock firstKey locks)
      fun _ t => Inv t ∧ t.IsOpen := by
  refine Triple.bind (Q := fun _ t => PessimisticInv Inv timestamp t ∧
      t.buffer.primaryKey.isSome = true) (Triple.modify fun t ht => ?_) (fun _ => ?_)
    fun _ _ ht => ht.1.1
  · refine ⟨⟨⟨h.acquire ht.1.1 ht.1.2 ht.2.1 hfirst, ht.1.2⟩, ht.2⟩, ?_⟩
    cases hpk : t.buffer.primaryKey <;> simp [Buffer.primaryKeyOr, hpk]
  · refine Triple.get_bind fun t ht => ?_
    obtain ⟨pk, hpk⟩ := Option.isSome_iff_exists.mp ht.2
    rw [hpk, Option.getD_some]
    refine Triple.bind ((h.triple_startAutoHeartbeat
      (P := fun t => t.options.isPessimistic = true ∧ t.timestamp = timestamp) pk
      fun _ hP => hP).conseq ?_ fun _ _ ht => ht) (fun _ => ?_) fun _ _ ht => ht.1
    · rintro _ rfl
      exact ⟨ht.1.1, hpk, ht.1.2⟩
    · refine Triple.modify fun t ht => ?_
      exact (inv_foldl (fun t lock ht => h.lock lock.1 ht.1.1 ht.1.2 ht.2.1) locks t ht).1

lemma triple_pessimisticLock (fuel : ℕ) {locks : List (Key × Assertion)}
    (hlocks : ∀ l ∈ locks.head?, First l.1) (options : LockOptions) :
    Triple C A (fun t => Inv t ∧ t.IsOpen) (pessimisticLock fuel locks options)
      fun _ t => Inv t ∧ t.IsOpen := by
  refine Triple.get_bind fun t ht => ?_
  have hkeep : ∀ s, s = t → Inv s ∧ s.IsOpen := by
    rintro _ rfl
    exact ht
  split
  · exact Triple.throw hkeep
  next hpess =>
  rw [Bool.not_eq_true, Bool.not_eq_false'] at hpess
  cases locks with
  | nil => exact Triple.pure hkeep
  | cons first rest =>
    obtain ⟨firstKey, assertion⟩ := first
    have hfirst : First firstKey := hlocks _ rfl
    dsimp only
    split_ifs
    · exact Triple.throw hkeep
    refine Triple.bind (Q := fun _ s => s = t)
      (Triple.ofProg (Async.sat_getTimestamp h.getTimestamp) fun _ _ hs _ => hs)
      (fun forUpdateTs => ?_) fun _ => hkeep
    refine Triple.bind (Q := fun _ => PessimisticInv Inv t.timestamp) (Triple.modify ?_)
      (fun _ => ?_) fun _ _ hs => hs.1
    · rintro _ rfl
      exact ⟨⟨h.pushForUpdateTs forUpdateTs ht.1 ht.2 hpess, ht.2⟩,
        isPessimistic_pushForUpdateTs _ _, rfl⟩
    refine Triple.bind (Q := fun _ => PessimisticInv Inv t.timestamp)
      (Triple.ofCall (h.sat_pessimisticLockPlan ht.1 ht.2 hpess hfirst fuel _ rfl rfl)
        fun _ _ hs _ => hs) (fun result => ?_) fun _ _ hs => hs.1
    split
    · exact Triple.bind (h.triple_finishPessimisticLock hfirst _ _)
        (fun _ => Triple.pure fun _ hs => hs) fun _ _ hs => hs
    · exact Triple.bind (h.triple_pessimisticLockRollback fuel _ _ _)
        (fun _ => Triple.throw fun _ hs => hs) fun _ _ hs => hs
    · exact Triple.throw fun _ hs => hs.1

lemma opSteps : OpSteps C A (fun locks _ => ∀ l ∈ locks.head?, First l.1) Inv where
  toPlainSteps := h.toPlainSteps
  pessimisticLock fuel _ options t ht := h.triple_pessimisticLock fuel ht.2 options t ht.1

end Respects

/-! ## The API -/

/-- **A call of the user**: the operations, and the two that end a transaction. -/
inductive Op where
  | get (key : Key)
  | getWithOptions (key : Key) (needCommitTs : Bool)
  | keyExists (key : Key)
  | batchGet (keys : List Key)
  | batchGetWithOptions (keys : List Key) (needCommitTs : Bool)
  | scan (range : BoundRange) (limit : ℕ) (keyOnly reverse : Bool)
  | getForUpdate (key : Key) (options : LockOptions)
  | batchGetForUpdate (keys : List Key) (options : LockOptions)
  | put (key : Key) (value : Value)
  | insert (key : Key) (value : Value)
  | delete (key : Key)
  | batchMutate (mutations : List Mutation)
  | lockKeys (keys : List Key) (options : LockOptions)
  | setKeyAssertion (key : Key) (assertion : Assertion)
  | updateKeyFlags (key : Key) (ops : List FlagsOp)
  | sendHeartBeat
  | commit
  | rollback

namespace Op

/-- The program of a call, whose value is not looked at. -/
def run (fuel : ℕ) : Op → TxnM Unit
  | .get key => do let _ ← Transaction.get fuel key
  | .getWithOptions key needCommitTs => do let _ ← Transaction.getWithOptions fuel key needCommitTs
  | .keyExists key => do let _ ← Transaction.keyExists fuel key
  | .batchGet keys => do let _ ← Transaction.batchGet fuel keys
  | .batchGetWithOptions keys needCommitTs => do
    let _ ← Transaction.batchGetWithOptions fuel keys needCommitTs
  | .scan range limit keyOnly reverse => do let _ ← scanInner fuel range limit keyOnly reverse
  | .getForUpdate key options => do let _ ← Transaction.getForUpdate fuel key options
  | .batchGetForUpdate keys options => do let _ ← Transaction.batchGetForUpdate fuel keys options
  | .put key value => Transaction.put fuel key value
  | .insert key value => Transaction.insert fuel key value
  | .delete key => Transaction.delete fuel key
  | .batchMutate mutations => Transaction.batchMutate fuel mutations
  | .lockKeys keys options => Transaction.lockKeys fuel keys options
  | .setKeyAssertion key assertion => Transaction.setKeyAssertion key assertion
  | .updateKeyFlags key ops => Transaction.updateKeyFlags key ops
  | .sendHeartBeat => do let _ ← Transaction.sendHeartBeat fuel
  | .commit => do let _ ← Transaction.commit fuel
  | .rollback => Transaction.rollback fuel

/-- The call ends the transaction. -/
def isFinal : Op → Bool
  | .commit => true
  | .rollback => true
  | _ => false

/-- The pessimistic locks the call asks for. -/
def locks : Op → List (Key × Assertion)
  | .getForUpdate key _ => [(key, .none)]
  | .batchGetForUpdate keys _ => keys.map fun k => (k, .none)
  | .put key _ => [(key, .none)]
  | .insert key _ => [(key, .notExist)]
  | .delete key => [(key, .none)]
  | .batchMutate mutations => mutations.map fun m => (m.key, .none)
  | .lockKeys keys _ => keys.map fun k => (k, .none)
  | _ => []

/-- The first of the keys the call locks. -/
def firstKey : Op → Option Key
  | .getForUpdate key _ => some key
  | .batchGetForUpdate keys _ => keys.head?
  | .put key _ => some key
  | .insert key _ => some key
  | .delete key => some key
  | .batchMutate mutations => mutations.head?.map (·.key)
  | .lockKeys keys _ => keys.head?
  | _ => none

end Op

lemma Op.firstKey_eq (op : Op) : op.firstKey = op.locks.head?.map Prod.fst := by
  cases op with
  | batchGetForUpdate keys | lockKeys keys => cases keys <;> rfl
  | batchMutate mutations => cases mutations <;> rfl
  | _ => rfl

/-- **Every operation keeps what its steps keep.** -/
theorem OpSteps.triple_op
    {Locks : List (Key × Assertion) → Transaction → Prop} {Inv : Transaction → Prop}
    (h : OpSteps C A Locks Inv) (hop : op.isFinal = false) (fuel : ℕ) :
    Triple C A (fun t => Inv t ∧ MayLock Locks op.locks t) (op.run fuel) fun _ => Inv := by
  have hread {α : Type} {m : TxnM α} {P : Transaction → Prop} (hm : Triple C A Inv m fun _ => Inv) :
      Triple C A (fun t => Inv t ∧ P t) (do let _ ← m) fun _ => Inv :=
    hm.discard.conseq (fun _ ht => ht.1) fun _ _ hs => hs
  cases op with
  | get key => exact hread (h.triple_get fuel key)
  | getWithOptions key needCommitTs => exact hread (h.triple_getWithOptions fuel key needCommitTs)
  | keyExists key => exact hread (h.triple_keyExists fuel key)
  | batchGet keys => exact hread (h.triple_batchGet fuel keys)
  | batchGetWithOptions keys needCommitTs =>
    exact hread (h.triple_batchGetWithOptions fuel keys needCommitTs)
  | scan range limit keyOnly reverse =>
    exact hread (h.triple_scanInner fuel range limit keyOnly reverse)
  | getForUpdate key options => exact (h.triple_getForUpdate fuel key options).discard
  | batchGetForUpdate keys options => exact (h.triple_batchGetForUpdate fuel keys options).discard
  | put key value => exact h.triple_put fuel key value
  | insert key value => exact h.triple_insert fuel key value
  | delete key => exact h.triple_delete fuel key
  | batchMutate mutations => exact h.triple_batchMutate fuel mutations
  | lockKeys keys options => exact h.triple_lockKeys fuel keys options
  | setKeyAssertion key assertion =>
    exact (h.triple_changeFlags key _).conseq (fun _ ht => ht.1) fun _ _ hs => hs
  | updateKeyFlags key ops =>
    exact (h.triple_changeFlags key ops).conseq (fun _ ht => ht.1) fun _ _ hs => hs
  | sendHeartBeat => exact hread (h.triple_sendHeartBeat fuel)
  | commit => cases hop
  | rollback => cases hop

/-- **Whatever the steps respect, every operation respects.** -/
theorem Respects.triple_op {First : Key → Prop}
    {Inv : Transaction → Prop} (h : Respects C A First Inv) (hop : op.isFinal = false)
    (hfirst : ∀ k ∈ op.firstKey, First k) (fuel : ℕ) :
    Triple C A Inv (op.run fuel) fun _ => Inv := by
  refine (h.opSteps.triple_op hop fuel).conseq (fun t ht => ⟨ht, fun _ l hl => ?_⟩) fun _ _ hs => hs
  refine hfirst l.1 ?_
  rw [op.firstKey_eq]
  exact Option.mem_map_of_mem _ hl

end Transaction

end TikvClient
