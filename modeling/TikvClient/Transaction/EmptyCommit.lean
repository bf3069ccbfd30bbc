import TikvClient.Transaction.BufferLocks
import TikvClient.Transaction.PessimisticLock

/-!
# Committing nothing

`commit` asserts that a buffer without mutations has no primary key.  The primary is set by the
first write or lock and never taken back; but `unlock` removes entries again, when a pessimistic
lock request fails for some shards and the locks of the others are undone.

**The invariant** (`PrimaryBacked`): there is no primary, or some key is mutated, by a write or a
lock.  Only `unlock` can end that a key is mutated, and only if the key is locked and not written.

**The result**: the assertion holds along every run in which no pessimistic lock request could undo
all there is (`SomeStays`).  Requests that fail leave a key out (`Parted`), so a request for keys
that are all mutated already cannot.
-/

namespace TikvClient

open Proto Prog StateProg

/-! ## The invariant -/

namespace Buffer

variable {b c : Buffer} {key : Key}

/-- **There is no primary, or some key is mutated.** -/
def PrimaryBacked (b : Buffer) : Prop := b.primaryKey = none ∨ ∃ k, b.IsMutated k

lemma PrimaryBacked.readInto (hb : b.PrimaryBacked) (h : b.ReadInto c) : c.PrimaryBacked :=
  hb.imp (fun hnone => h.primaryKey.trans hnone) fun ⟨k, hk⟩ => ⟨k, h.isMutated_iff.mpr hk⟩

lemma primaryBacked_keyWrite {f : Buffer → Buffer} (hf : Transaction.KeyWrite key f) (b : Buffer) :
    (f b).PrimaryBacked :=
  .inr ⟨key, (isMutated_keyWrite hf b).mpr (.inl rfl)⟩

lemma PrimaryBacked.updateKeyFlags (hb : b.PrimaryBacked) (key : Key) (ops : List FlagsOp) :
    (b.updateKeyFlags key ops).PrimaryBacked := hb

end Buffer

namespace Transaction

/-! ## Pessimistic locks -/

/-- **Something of the transaction stays when the locks are undone again**: all the keys are mutated
already, or there is a mutation that is a write or of another key. -/
def SomeStays (t : Transaction) (locks : List (Key × Assertion)) : Prop :=
  t.prewriteMutations ≠ [] →
    (∀ lock ∈ locks, ∃ m ∈ t.prewriteMutations, m.key = lock.1) ∨
      ∃ m ∈ t.prewriteMutations, m.op ≠ .lock ∨ ∀ lock ∈ locks, lock.1 ≠ m.key

/-- The error is not one of a pessimistic lock request. -/
def NoLockError (e : Error) : Prop := ∀ inner keys, e ≠ .pessimisticLockError inner keys

/-- PD answers a region with the key asked for, or an error that is none of a lock request. -/
def PdAnswers : Answers
  | .regionForKey k, ans =>
    (∀ region : Region, ans = .ok region → region.contains k = true) ∧ FailsIn NoLockError ans
  | _, _ => True

variable {tr : Trace} {fuel : ℕ} {t' t₀ : Transaction}

lemma looksUpRegions_of_pdAnswers (h : ∀ e ∈ tr, Event.Allowed PdAnswers e) : LooksUpRegions tr :=
  fun _ region hmem => (h _ hmem).1 region rfl

variable {t : Transaction} {locks : List (Key × Assertion)} {keys : List Key}

/-- A failed lock request undoes locks of requested keys, and not of all of them. -/
lemma primaryBacked_unlock (hb : t.buffer.PrimaryBacked) (hstays : t.SomeStays locks)
    (hkeys : keys ⊆ locks.map Prod.fst) (hleft : ∃ k ∈ locks.map Prod.fst, k ∉ keys) :
    (keys.foldl Buffer.unlock t.buffer).PrimaryBacked := by
  -- A mutated key that is not undone, or not a lock, stays mutated.
  have hstay : ∀ k, t.buffer.IsMutated k → k ∉ keys ∨ ¬ t.buffer.IsLocked k →
      (keys.foldl Buffer.unlock t.buffer).PrimaryBacked := fun k hk hnot =>
    .inr ⟨k, (Buffer.isMutated_congr (Buffer.entryMap_foldl_unlock hnot)).mpr hk⟩
  rcases hb with hnone | ⟨k, hk⟩
  · exact .inl (by rw [Buffer.primaryKey_foldl_unlock, hnone])
  have hsome : t.prewriteMutations ≠ [] := by
    obtain ⟨m, hm, -⟩ := (Buffer.isMutated_iff t.options.assertionLevel).mp hk
    exact List.ne_nil_of_mem hm
  rcases hstays hsome with hall | ⟨m, hm, hop | hother⟩
  · obtain ⟨k, hk, hnot⟩ := hleft
    obtain ⟨lock, hlock, rfl⟩ := List.mem_map.mp hk
    exact hstay lock.1 ((Buffer.isMutated_iff _).mpr (hall lock hlock)) (.inl hnot)
  · refine hstay m.key ((Buffer.isMutated_iff _).mpr ⟨m, hm, rfl⟩) (.inr fun hlocked => hop ?_)
    exact Buffer.op_of_isLocked (Buffer.mem_toProtoMutations.mp hm) hlocked
  · refine hstay m.key ((Buffer.isMutated_iff _).mpr ⟨m, hm, rfl⟩) (.inl fun hmem => ?_)
    obtain ⟨lock, hlock, heq⟩ := List.mem_map.mp (hkeys hmem)
    exact hother lock hlock heq

variable {inner : Error} {r : Except Error Unit} {op : Op} {Guard : Op → Transaction → Prop}

/-- Merging fails with the keys of the shards that succeeded only if a shard failed. -/
lemma exists_error_of_collectWithShard
    {results : ShardResults PessimisticLockRequest PessimisticLockResponse}
    (h : collectWithShard results = .error (.pessimisticLockError inner keys)) :
    ∃ e, .error e ∈ results := by
  by_contra hnone
  have hok : collectError results = .ok (okLeaves results) :=
    collectError_eq_ok_iff.mpr ⟨fun e he => hnone ⟨e, he⟩, rfl⟩
  rw [collectWithShard, hok] at h
  obtain ⟨message, hmessage⟩ := exists_of_pairsOfShards h
  cases hmessage

/-- The locks that are undone are those of some of the requested keys, and not of all. -/
lemma undone_of_mergeLocks {retryOptions : RetryOptions} {request : PessimisticLockRequest}
    {results : Except Error (ShardResults PessimisticLockRequest PessimisticLockResponse)}
    (hresults : Returns (lockResults fuel retryOptions request) tr results)
    (htr : ∀ e ∈ tr, Event.Allowed PdAnswers e)
    (hmerged : mergeLocks results = .error (.pessimisticLockError inner keys)) :
    keys ⊆ lockedKeys request ∧ ∃ k ∈ lockedKeys request, k ∉ keys := by
  cases results with
  | error e =>
    -- Only lookups fail the plan, and not with such an error.
    have hfails := (sat_lockResults_failsIn (N := NoLockError) (fun _ _ hans => hans.2)
      fuel _ _).of_returns hresults htr
    cases hmerged
    exact absurd rfl (hfails _ rfl inner keys)
  | ok results =>
    have hparted := parted_lockResults hresults (looksUpRegions_of_pdAnswers htr)
    obtain ⟨e, he⟩ := exists_error_of_collectWithShard hmerged
    obtain rfl := successKeys_eq hmerged
    exact ⟨hparted.okLeaves_subset, hparted.exists_not_mem_okLeaves he⟩

/-- **A pessimistic lock keeps the primary backed**, if something stays when it is undone. -/
lemma primaryBacked_of_lockCall {options : LockOptions} {r : Except Error (List KvPair)}
    (hcall : LockCall fuel t locks options tr r t')
    (htr : ∀ e ∈ tr, Event.Allowed PdAnswers e) (hb : t.buffer.PrimaryBacked) (hopen : t.IsOpen)
    (hstays : t.SomeStays locks) : t'.buffer.PrimaryBacked ∧ t'.IsOpen := by
  cases hcall with
  | refused | nothing | noTimestamp => exact ⟨hb, hopen⟩
  | @sent firstKey assertion rest forUpdateTs tr results tr' r t' hpess hlocks hresults hends =>
    generalize hmerged : mergeLocks results = merged at hends
    cases hends with
    | failed h => exact ⟨hb, hopen⟩
    | @undone inner keys tr' r t' hrun =>
      obtain ⟨-, -, -, rfl⟩ | ⟨res, -, ⟨e, -, -, rfl⟩ | ⟨leaves, -, -, rfl⟩⟩ :=
        pessimisticLockRollback_returns hrun
      · exact ⟨hb, hopen⟩
      · exact ⟨hb, hopen⟩
      · obtain ⟨hkeys, hleft⟩ := undone_of_mergeLocks hresults
          (fun e he => htr e (List.mem_cons_of_mem _ (List.mem_append_left _ he))) hmerged
        rw [lockedKeys_lockRequest] at hkeys hleft
        have hundone := primaryBacked_unlock hb hstays hkeys hleft
        exact ⟨hundone, hopen⟩
    | @locked pairs tr' t' hrun =>
      obtain ⟨-, -, hstatus, -, hbuffer⟩ := finishPessimisticLock_returns hrun
      refine ⟨.inr ⟨firstKey, ?_⟩, ?_⟩
      · rw [hbuffer, Buffer.isMutated_foldl_lock, map_fst_sentLocks, hlocks]
        exact .inl List.mem_cons_self
      · unfold IsOpen
        rw [hstatus]
        exact hopen

/-! ## The other steps -/

section Frame

variable {A : Answers} {b : Buffer} {α β : Type}

/-- The buffer is left as it is. -/
abbrev KeepsBuffer (A : Answers) (b : Buffer) (m : TxnM α) : Prop :=
  Triple (fun _ => True) A (fun t => t.buffer = b) m fun _ t => t.buffer = b

lemma keepsBuffer_pure (a : α) : KeepsBuffer A b (pure a) := Triple.pure fun _ ht => ht

lemma keepsBuffer_throw (e : Error) : KeepsBuffer A b (throw e : TxnM α) :=
  Triple.throw fun _ ht => ht

lemma keepsBuffer_ofProg (p : AsyncResult α) : KeepsBuffer A b (StateProg.ofProg p) :=
  Triple.ofProg (sat_true p) fun _ _ ht _ => ht

lemma keepsBuffer_ofCall (p : Async α) : KeepsBuffer A b (StateProg.ofCall p) :=
  Triple.ofCall (sat_true p) fun _ _ ht _ => ht

lemma keepsBuffer_modify {f : Transaction → Transaction} (hf : ∀ t, (f t).buffer = t.buffer) :
    KeepsBuffer A b (modify f) :=
  Triple.modify fun t ht => (hf t).trans ht

lemma KeepsBuffer.bind {m : TxnM α} {f : α → TxnM β} (hm : KeepsBuffer A b m)
    (hf : ∀ a, KeepsBuffer A b (f a)) : KeepsBuffer A b (m >>= f) :=
  Triple.bind hm hf fun _ _ ht => ht

lemma keepsBuffer_get_bind {f : Transaction → TxnM β} (hf : ∀ t, KeepsBuffer A b (f t)) :
    KeepsBuffer A b (MonadState.get >>= f) :=
  Triple.get_bind fun t ht => (hf t).conseq (fun _ hs => hs ▸ ht) fun _ _ hs => hs

lemma keepsBuffer_onPipelined (m : PipelinedTxnState.M α) : KeepsBuffer A b (onPipelined m) := by
  intro t ht
  rw [exec_onPipelined]
  split
  · exact ht
  · exact (sat_true _).bind fun _ _ => ht

lemma keepsBuffer_setStatus (status : TransactionStatus) : KeepsBuffer A b (setStatus status) :=
  keepsBuffer_modify fun _ => rfl

lemma keepsBuffer_transitStatus (allowed : List TransactionStatus) (next : TransactionStatus) :
    KeepsBuffer A b (transitStatus allowed next) := by
  refine keepsBuffer_get_bind fun t => ?_
  split_ifs
  · exact keepsBuffer_setStatus next
  · exact keepsBuffer_throw _

lemma keepsBuffer_startAutoHeartbeat (pk : Key) : KeepsBuffer A b (startAutoHeartbeat pk) := by
  refine keepsBuffer_get_bind fun t => ?_
  split_ifs
  · exact keepsBuffer_pure _
  · refine KeepsBuffer.bind (keepsBuffer_modify ?_) fun _ => ?_
    · exact fun _ => rfl
    · exact (keepsBuffer_ofCall _).bind fun _ => keepsBuffer_pure _

lemma keepsBuffer_acquireLatches : KeepsBuffer A b acquireLatches := by
  refine keepsBuffer_get_bind fun t => ?_
  split_ifs
  · exact keepsBuffer_pure _
  · refine (keepsBuffer_ofCall _).bind fun stale => ?_
    split_ifs
    · exact keepsBuffer_throw _
    · exact keepsBuffer_pure _

lemma keepsBuffer_spawnResolveFlushed (startTs commitTs : ℕ) (range : Option (Key × Key)) :
    KeepsBuffer A b (spawnResolveFlushed startTs commitTs range) := by
  cases range with
  | none => exact keepsBuffer_pure _
  | some range => exact (keepsBuffer_ofCall _).bind fun _ => keepsBuffer_pure _

lemma keepsBuffer_commitPipelined (fuel : ℕ) (pk : Key) :
    KeepsBuffer A b (commitPipelined fuel pk) := by
  refine keepsBuffer_get_bind fun t => ?_
  refine (keepsBuffer_onPipelined _).bind fun _ => keepsBuffer_get_bind fun t => ?_
  refine (keepsBuffer_ofProg _).bind fun commitVersion => (keepsBuffer_ofProg _).bind fun _ => ?_
  exact (keepsBuffer_spawnResolveFlushed _ _ _).bind fun _ => keepsBuffer_pure _

/-- **Committing leaves the buffer as it is.** -/
lemma keepsBuffer_commit (fuel : ℕ) : KeepsBuffer A b (commit fuel) := by
  refine (keepsBuffer_transitStatus _ _).bind fun _ => keepsBuffer_get_bind fun t => ?_
  split
  · split_ifs
    · exact keepsBuffer_pure _
    · exact keepsBuffer_throw _
  · dsimp only
    split_ifs
    · refine keepsBuffer_get_bind fun t => ?_
      split_ifs
      · refine (keepsBuffer_onPipelined _).bind fun _ => ?_
        exact (keepsBuffer_setStatus _).bind fun _ => keepsBuffer_pure _
      · refine (keepsBuffer_commitPipelined _ _).bind fun _ => ?_
        exact (keepsBuffer_setStatus _).bind fun _ => keepsBuffer_pure _
    · refine keepsBuffer_get_bind fun t => ?_
      split_ifs
      · refine (keepsBuffer_ofProg _).bind fun _ => ?_
        exact (keepsBuffer_setStatus _).bind fun _ => keepsBuffer_pure _
      · refine keepsBuffer_acquireLatches.bind fun _ => ?_
        refine (keepsBuffer_startAutoHeartbeat _).bind fun _ => ?_
        refine (keepsBuffer_ofProg _).bind fun _ => ?_
        exact (keepsBuffer_setStatus _).bind fun _ => keepsBuffer_pure _

/-- **Rolling back leaves the buffer as it is.** -/
lemma keepsBuffer_rollback (fuel : ℕ) : KeepsBuffer A b (rollback fuel) := by
  refine (keepsBuffer_transitStatus _ _).bind fun _ => keepsBuffer_get_bind fun t => ?_
  split_ifs
  · refine KeepsBuffer.bind (keepsBuffer_get_bind fun t => ?_) fun _ => keepsBuffer_setStatus _
    split
    · exact keepsBuffer_throw _
    · refine (keepsBuffer_ofCall _).bind fun _ => (keepsBuffer_ofCall _).bind fun _ => ?_
      refine KeepsBuffer.bind (keepsBuffer_modify ?_) fun _ => ?_
      · exact fun _ => rfl
      · exact keepsBuffer_spawnResolveFlushed _ _ _
  · exact keepsBuffer_setStatus _
  · exact (keepsBuffer_ofProg _).bind fun _ => keepsBuffer_setStatus _

end Frame

/-! ## Runs -/

/-- A pessimistic lock is the only step of the operations that takes mutations back. -/
lemma opSteps_primaryBacked :
    OpSteps (fun _ => True) PdAnswers (fun locks t => t.SomeStays locks)
      fun t => t.buffer.PrimaryBacked where
  routing := ⟨fun _ => trivial, fun _ => trivial, fun _ _ => trivial⟩
  getTimestamp := trivial
  elapsed := trivial
  resolving _ := ⟨fun _ _ => trivial, fun _ _ => trivial⟩
  reads _ _ _ := trivial
  read hb _ hread := hb.readInto hread
  write _ _ hf := by
    rw [buffer_recordKeyChange]
    exact Buffer.primaryBacked_keyWrite hf _
  flags key ops hb := by
    rw [buffer_recordKeyChange]
    exact hb.updateKeyFlags key ops
  flush {t _} hb _ _ _ :=
    ((keepsBuffer_onPipelined (A := PdAnswers) _) t rfl).post fun r hr => by rwa [hr]
  sendsHeartBeat _ _ _ _ _ := trivial
  pessimisticLock fuel locks options t ht :=
    sat_of_returns fun _ _ hrun htr =>
      primaryBacked_of_lockCall (lockCall_of_returns hrun) htr ht.1.1 ht.1.2 ht.2

/-- **The states of a transaction reached by calls of the user**, in any order and with any
outcomes; `Guard` says which calls are made in which states. -/
inductive Reached (Guard : Op → Transaction → Prop) (t₀ : Transaction) : Transaction → Prop where
  | new : Reached Guard t₀ t₀
  | call {t t' : Transaction} {op : Op} {fuel : ℕ} {tr : Trace} {r : Except Error Unit}
      (h : Reached Guard t₀ t) (hguard : Guard op t)
      (hrun : Returns ((op.run fuel).exec t) tr (r, t'))
      (hanswers : ∀ e ∈ tr, Event.Allowed PdAnswers e) : Reached Guard t₀ t'

lemma primaryBacked_call (hrun : Returns ((op.run fuel).exec t) tr (r, t'))
    (hanswers : ∀ e ∈ tr, Event.Allowed PdAnswers e)
    (hguard : t.options.isPessimistic = true → t.SomeStays op.locks) (hb : t.buffer.PrimaryBacked) :
    t'.buffer.PrimaryBacked := by
  have hkeep : KeepsBuffer PdAnswers t.buffer (op.run fuel) → t'.buffer.PrimaryBacked := by
    intro h
    rw [(h.of_returns rfl hrun hanswers).2]
    exact hb
  cases hop : op.isFinal with
  | false =>
    exact ((opSteps_primaryBacked.triple_op hop fuel).of_returns ⟨hb, hguard⟩ hrun hanswers).2
  | true =>
    cases op with
    | commit => exact hkeep ((keepsBuffer_commit fuel).bind fun _ => keepsBuffer_pure _)
    | rollback => exact hkeep (keepsBuffer_rollback fuel)
    | _ => cases hop

lemma Reached.primaryBacked
    (h : Reached (fun op t => t.options.isPessimistic = true → t.SomeStays op.locks) t₀ t)
    (h₀ : t₀.buffer.PrimaryBacked) : t.buffer.PrimaryBacked := by
  induction h with
  | new => exact h₀
  | call _ hguard hrun hanswers ih => exact primaryBacked_call hrun hanswers hguard ih

/-! ## Two runs -/

/-- Locks are taken in the first region and refused in the others. -/
def lockFirstRegion (region : Region) : (request : Request) → Except Error request.Response
  | .pessimisticLock _ =>
    (.ok (if region.verId.id = 1 then ⟨none, [], [], [], []⟩
      else ⟨none, [⟨none, .alreadyExist⟩], [], [], []⟩) : Except Error PessimisticLockResponse)
  | .pessimisticRollback _ => (.ok ⟨none, []⟩ : Except Error PessimisticRollbackResponse)
  | _ => .error .grpc

lemma pdAnswers_lockFirstRegion (c : Call) :
    PdAnswers c (fixedCluster twoRegions lockFirstRegion c) := by
  cases c with
  | regionForKey k =>
    obtain ⟨region, -, hroute, hk⟩ := routes_fixedCluster isPartition_twoRegions lockFirstRegion k
    rw [hroute]
    refine ⟨fun region' hregion => ?_, failsIn_ok region⟩
    cases hregion
    exact hk
  | _ => trivial

lemma Reached.eval (h : Reached Guard t₀ t) (hguard : Guard op t)
    (heval : ((op.run fuel).exec t).eval (fixedCluster twoRegions lockFirstRegion) =
      some (r, t')) : Reached Guard t₀ t' := by
  obtain ⟨tr, hrun, hans⟩ := exists_returns_of_eval heval
  refine h.call hguard hrun fun e he => ?_
  cases e with
  | answered c ans => exact hans _ he ▸ pdAnswers_lockFirstRegion c
  | dropped cs => trivial

/-- The state after locking the keys, as the two regions answer. -/
def afterLockKeys (keys : List Key) (t : Transaction) : Option Transaction :=
  ((((Op.lockKeys keys .default).run 20).exec t).eval
    (fixedCluster twoRegions lockFirstRegion)).map Prod.snd

lemma Reached.afterLockKeys
    (h : Reached Guard t₀ t) {keys : List Key} (hguard : Guard (.lockKeys keys .default) t)
    (hafter : afterLockKeys keys t = some t') : Reached Guard t₀ t' := by
  obtain ⟨⟨r, t'⟩, heval, rfl⟩ := Option.map_eq_some_iff.mp hafter
  exact h.eval hguard heval

/-- `commit` panics on an empty write set with a primary. -/
lemma commit_panics (hstatus : t.status = .active) (hempty : t.prewriteMutations = [])
    {k : Key} (hprimary : t.buffer.primaryKey = some k) :
    Returns ((commit fuel).exec t) [] (.error (.panicked "assertion failed: primary_key.is_none()"),
        { t with status := .startedCommit }) := by
  have hallowed : t.status ∈ [TransactionStatus.startedCommit, .active] := by simp [hstatus]
  have hsame : ({ t with status := .startedCommit } : Transaction).prewriteMutations = [] := hempty
  rw [commit, exec_bind, exec_transitStatus_of_mem hallowed, ret_bind]
  simp only [exec_bind, exec_get, ret_bind, hsame, hprimary]
  exact returns_ret_iff.mpr ⟨rfl, rfl⟩

/-- **A buffer without mutations has no primary key**, so that `commit` does not panic: in every
state reached by calls of the user none of which asks for pessimistic locks that could be all there
is to undo. -/
theorem primaryKey_none_of_no_mutations {timestamp : ℕ} {options : TransactionOptions}
    {txnLatches : Bool} {t : Transaction}
    (h : Reached (fun op t => t.options.isPessimistic = true → t.SomeStays op.locks)
      (Transaction.new timestamp options txnLatches) t)
    (hempty : t.prewriteMutations = []) : t.buffer.primaryKey = none := by
  rcases h.primaryBacked (.inl rfl) with hnone | ⟨k, hk⟩
  · exact hnone
  · obtain ⟨m, hm, -⟩ := (Buffer.isMutated_iff t.options.assertionLevel).mp hk
    rw [prewriteMutations] at hempty
    rw [hempty] at hm
    cases hm

/-- The locks of two keys are undone when one of them is refused. -/
theorem primaryKey_none_of_refused_lock :
    ∃ t, Reached (fun op t => t.options.isPessimistic = true → t.SomeStays op.locks)
        (Transaction.new 7 .newPessimistic false) t ∧
      t.prewriteMutations = [] ∧ t.buffer.primaryKey = none := by
  have hafter : ((afterLockKeys [⟨[1]⟩, ⟨[9]⟩] (Transaction.new 7 .newPessimistic false)).map
      prewriteMutations) = some [] := by decide
  obtain ⟨t, ht, hempty⟩ := Option.map_eq_some_iff.mp hafter
  have hstays : (Transaction.new 7 .newPessimistic false).SomeStays
      (Op.locks (.lockKeys [⟨[1]⟩, ⟨[9]⟩] .default)) := fun hsome => absurd (by decide) hsome
  have hreached : Reached (fun op t => t.options.isPessimistic = true → t.SomeStays op.locks)
      (Transaction.new 7 .newPessimistic false) t :=
    Reached.new.afterLockKeys (fun _ => hstays) ht
  exact ⟨t, hreached, hempty, primaryKey_none_of_no_mutations hreached hempty⟩

/-- A key is locked, and then requested again with one whose lock is refused: the first lock is
undone, but its key is still the primary, and `commit` panics. -/
theorem primary_without_mutations :
    ∃ t t', Reached (fun _ _ => True) (Transaction.new 7 .newPessimistic false) t ∧
      t.prewriteMutations = [] ∧ t.buffer.primaryKey = some ⟨[1]⟩ ∧
      Returns ((commit 20).exec t) []
        (.error (.panicked "assertion failed: primary_key.is_none()"), t') := by
  have hfinal : (((afterLockKeys [⟨[1]⟩] (Transaction.new 7 .newPessimistic false)).bind
      (afterLockKeys [⟨[1]⟩, ⟨[9]⟩])).map fun t =>
        (t.prewriteMutations, t.buffer.primaryKey, t.status)) =
      some ([], some ⟨[1]⟩, .active) := by decide
  obtain ⟨t, ht, hstate⟩ := Option.map_eq_some_iff.mp hfinal
  obtain ⟨t₁, ht₁, ht⟩ := Option.bind_eq_some_iff.mp ht
  obtain ⟨hempty, hprimary, hstatus⟩ : t.prewriteMutations = [] ∧
      t.buffer.primaryKey = some ⟨[1]⟩ ∧ t.status = .active := by simpa using hstate
  have hreached₁ : Reached (fun _ _ => True) _ t₁ := Reached.new.afterLockKeys trivial ht₁
  exact ⟨t, _, hreached₁.afterLockKeys trivial ht, hempty, hprimary,
    commit_panics hstatus hempty hprimary⟩

end Transaction

end TikvClient
