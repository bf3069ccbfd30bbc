import TikvClient.Request.KeyParts
import TikvClient.Request.PlanErrors
import TikvClient.Transaction.Sharding

/-!
# One call of `pessimistic_lock`

What a call of `pessimistic_lock` may do, step by step: it is refused, or it has no timestamp, or
its request is sent; then the plan returned its results, and either the keys are locked in the
buffer, or the locks of the shards that succeeded are undone, or nothing happens.

**The result** is `lockCall_of_returns`, from which everything about such a call follows; and
`parted_lockResults` says what the results of the shards stand for.
-/

namespace TikvClient

open Proto Prog StateProg

namespace Transaction

variable {fuel : ℕ} {t t' : Transaction} {locks : List (Key × Assertion)} {options : LockOptions}
  {tr : Trace}

/-! ## The request and the plan -/

/-- The locks as they are sent. -/
def sentLocks (t : Transaction) (locks : List (Key × Assertion)) : List (Key × Assertion) :=
  locks.map (inferAssertion t.buffer)

/-- The request of a call whose first key is `firstKey`. -/
def lockRequest (t : Transaction) (locks : List (Key × Assertion)) (options : LockOptions)
    (firstKey : Key) (forUpdateTs : ℕ) : PessimisticLockRequest :=
  newPessimisticLockRequest (t.sentLocks locks) (t.buffer.primaryKey.getD firstKey) t.timestamp
    maxTtl forUpdateTs (!t.hasPessimisticLock && (t.sentLocks locks).length = 1) options

def lockResults (fuel : ℕ) (retryOptions : RetryOptions) (request : PessimisticLockRequest) :
    AsyncResult (ShardResults PessimisticLockRequest PessimisticLockResponse) :=
  (Dispatch.pessimisticLock.resolveLock (resolveLocks fuel) fuel
    retryOptions.lockBackoff).retryMultiRegion true fuel request retryOptions.regionBackoff

/-- The transaction after its request was sent. -/
def afterRequest (t : Transaction) (forUpdateTs : ℕ) : Transaction :=
  { t with options := t.options.pushForUpdateTs forUpdateTs }

/-- What the results of the shards are merged to. -/
def mergeLocks : Except Error (ShardResults PessimisticLockRequest PessimisticLockResponse) →
    Except Error (List KvPair)
  | .ok results => collectWithShard results
  | .error e => .error e

/-- **What the call makes of the merged results.** -/
inductive LockEnds (fuel : ℕ) (t : Transaction) (locks : List (Key × Assertion)) (firstKey : Key)
    (forUpdateTs : ℕ) : Except Error (List KvPair) → Trace →
      Except Error (List KvPair) → Transaction → Prop where
  /-- An error without locks to undo. -/
  | failed {e} (h : ∀ inner keys, e ≠ .pessimisticLockError inner keys) :
      LockEnds fuel t locks firstKey forUpdateTs (.error e) [] (.error e)
        (t.afterRequest forUpdateTs)
  /-- The locks that were taken are undone, or that fails. -/
  | undone {inner keys tr r t'}
      (hrun : Returns ((pessimisticLockRollback fuel keys t.timestamp forUpdateTs).exec
        (t.afterRequest forUpdateTs)) tr (r, t')) :
      LockEnds fuel t locks firstKey forUpdateTs (.error (.pessimisticLockError inner keys)) tr
        (match r with
          | .ok _ => .error (.pessimisticLockError inner keys)
          | .error e => .error e) t'
  /-- The keys are locked. -/
  | locked {pairs tr t'}
      (hrun : Returns ((finishPessimisticLock firstKey (t.sentLocks locks)).exec
        (t.afterRequest forUpdateTs)) tr (.ok (), t')) :
      LockEnds fuel t locks firstKey forUpdateTs (.ok pairs) tr (.ok pairs) t'

/-- **A call of `pessimistic_lock`.** -/
inductive LockCall (fuel : ℕ) (t : Transaction) (locks : List (Key × Assertion))
    (options : LockOptions) : Trace → Except Error (List KvPair) → Transaction →
      Prop where
  /-- The options or the transaction do not allow it. -/
  | refused (e : Error) : LockCall fuel t locks options [] (.error e) t
  | nothing (h : locks = []) : LockCall fuel t locks options [] (.ok []) t
  | noTimestamp (e : Error) :
      LockCall fuel t locks options [.answered (S := sig) .getTimestamp (.error e)] (.error e) t
  /-- The request is sent. -/
  | sent {firstKey assertion rest forUpdateTs tr results tr' r t'}
      (hpess : t.options.isPessimistic = true) (hlocks : locks = (firstKey, assertion) :: rest)
      (hresults : Returns (lockResults fuel t.options.retryOptions
        (t.lockRequest locks options firstKey forUpdateTs)) tr results)
      (hends : LockEnds fuel t locks firstKey forUpdateTs (mergeLocks results) tr' r t') :
      LockCall fuel t locks options
        (.answered (S := sig) .getTimestamp (.ok forUpdateTs) :: (tr ++ tr')) r t'

/-! ## Every call is one of these -/

variable {r : Except Error Unit} {retryOptions : RetryOptions} {request : PessimisticLockRequest}

lemma startAutoHeartbeat_returns {pk : Key}
    (h : Returns ((startAutoHeartbeat pk).exec t) tr (r, t')) :
    r = .ok () ∧ (t' = t ∨ t' = { t with isHeartbeatStarted := true }) := by
  unfold startAutoHeartbeat at h
  rw [returns_get_bind_iff] at h
  split_ifs at h
  · obtain ⟨-, heq⟩ := returns_ret_iff.mp h
    cases heq
    exact ⟨rfl, .inl rfl⟩
  · rw [returns_modify_bind_iff] at h
    obtain ⟨tr₁, tr₂, i, t₁, rfl, hspawn, hret⟩ | ⟨e, rfl, herror⟩ := returns_exec_bind_iff.mp h
    · obtain ⟨rfl, -⟩ := returns_ofCall_iff.mp hspawn
      obtain ⟨-, heq⟩ := returns_ret_iff.mp hret
      cases heq
      exact ⟨rfl, .inr rfl⟩
    · obtain ⟨-, a, ha, -⟩ := returns_ofCall_iff.mp herror
      cases ha

/-- Locking the keys in the buffer does not fail. -/
lemma finishPessimisticLock_returns {firstKey : Key}
    (h : Returns ((finishPessimisticLock firstKey locks).exec t) tr (r, t')) :
    r = .ok () ∧ t'.options = t.options ∧ t'.status = t.status ∧ t'.timestamp = t.timestamp ∧
      t'.buffer = locks.foldl (fun b lock => b.lock lock.1) (t.buffer.primaryKeyOr firstKey) := by
  unfold finishPessimisticLock at h
  rw [returns_modify_bind_iff, returns_get_bind_iff] at h
  obtain ⟨tr₁, tr₂, _, t₁, rfl, hstart, hlock⟩ | ⟨e, rfl, herror⟩ := returns_exec_bind_iff.mp h
  · obtain ⟨-, ht₁⟩ := startAutoHeartbeat_returns hstart
    obtain ⟨-, heq⟩ := returns_ret_iff.mp hlock
    cases heq
    rcases ht₁ with rfl | rfl <;> exact ⟨rfl, rfl, rfl, rfl, rfl⟩
  · cases (startAutoHeartbeat_returns herror).1

variable {forUpdateTs : ℕ} {merged : Except Error (List KvPair)} {A : Answers}
  {results : ShardResults PessimisticLockRequest PessimisticLockResponse}

/-- Undoing locks: nothing to undo, a failure that changes nothing, or the keys are unlocked. -/
lemma pessimisticLockRollback_returns {keys : List Key} {startVersion : ℕ}
    (h : Returns ((pessimisticLockRollback fuel keys startVersion forUpdateTs).exec t) tr (r, t')) :
    (keys = [] ∧ tr = [] ∧ r = .ok () ∧ t' = t) ∨
      ∃ res, Returns (executePlan Dispatch.pessimisticRollback fuel t.options.retryOptions
        (newPessimisticRollbackRequest keys startVersion forUpdateTs)) tr res ∧
        ((∃ e, res = .error e ∧ r = .error e ∧ t' = t) ∨
          ∃ leaves, res = .ok leaves ∧ r = .ok () ∧
            t' = { t with buffer := keys.foldl Buffer.unlock t.buffer }) := by
  unfold pessimisticLockRollback at h
  split_ifs at h with hempty
  · obtain ⟨rfl, heq⟩ := returns_ret_iff.mp h
    cases heq
    exact .inl ⟨List.isEmpty_iff.mp hempty, rfl, rfl, rfl⟩
  · rw [returns_get_bind_iff] at h
    right
    obtain ⟨tr₁, tr₂, leaves, t₁, rfl, hplan, hunlock⟩ | ⟨e, rfl, herror⟩ :=
      returns_exec_bind_iff.mp h
    · obtain ⟨rfl, hplan⟩ := returns_ofProg_iff.mp hplan
      obtain ⟨rfl, heq⟩ := returns_ret_iff.mp hunlock
      cases heq
      rw [List.append_nil]
      exact ⟨_, hplan, .inr ⟨leaves, rfl, rfl, rfl⟩⟩
    · obtain ⟨rfl, hplan⟩ := returns_ofProg_iff.mp herror
      exact ⟨_, hplan, .inl ⟨e, rfl, rfl, rfl⟩⟩

lemma getTimestamp_returns {r : Except Error ℕ} (h : Returns Async.getTimestamp tr r) :
    tr = [.answered (S := sig) .getTimestamp r] := by
  obtain ⟨ans, tr', rfl, hret⟩ := returns_call_iff.mp h
  obtain ⟨rfl, rfl⟩ := returns_ret_iff.mp hret
  rfl

lemma pessimisticLockPlan_returns
    (h : Returns (pessimisticLockPlan fuel retryOptions request) tr merged) :
    ∃ results, Returns (lockResults fuel retryOptions request) tr results ∧
      merged = mergeLocks results := by
  obtain ⟨tr₁, tr₂, results, rfl, hresults, hret⟩ | ⟨e, rfl, herror⟩ := returns_andThen_iff.mp h
  · obtain ⟨rfl, rfl⟩ := returns_ret_iff.mp hret
    rw [List.append_nil]
    exact ⟨_, hresults, rfl⟩
  · exact ⟨_, herror, rfl⟩

lemma lockEnds_of_returns {firstKey : Key} {r : Except Error (List KvPair)}
    (h : Returns ((match merged with
      | .ok pairs => do
        finishPessimisticLock firstKey (t.sentLocks locks)
        pure pairs
      | .error (.pessimisticLockError inner successKeys) => do
        pessimisticLockRollback fuel successKeys t.timestamp forUpdateTs
        throw (.pessimisticLockError inner successKeys)
      | .error e => throw e : TxnM (List KvPair)).exec (t.afterRequest forUpdateTs)) tr (r, t')) :
    LockEnds fuel t locks firstKey forUpdateTs merged tr r t' := by
  split at h
  next pairs =>
    obtain ⟨tr₁, tr₂, _, t₁, rfl, hfinish, hret⟩ | ⟨e, rfl, herror⟩ := returns_exec_bind_iff.mp h
    · obtain ⟨rfl, heq⟩ := returns_ret_iff.mp hret
      cases heq
      rw [List.append_nil]
      exact .locked hfinish
    · cases (finishPessimisticLock_returns herror).1
  next inner successKeys =>
    obtain ⟨tr₁, tr₂, _, t₁, rfl, hundo, hret⟩ | ⟨e, rfl, herror⟩ := returns_exec_bind_iff.mp h
    · obtain ⟨rfl, heq⟩ := returns_ret_iff.mp hret
      cases heq
      rw [List.append_nil]
      exact .undone hundo
    · exact .undone herror
  next e hnot =>
    obtain ⟨rfl, heq⟩ := returns_ret_iff.mp h
    cases heq
    exact .failed hnot

/-- **Every call of `pessimistic_lock` is one of these.** -/
theorem lockCall_of_returns {r : Except Error (List KvPair)}
    (h : Returns ((pessimisticLock fuel locks options).exec t) tr (r, t')) :
    LockCall fuel t locks options tr r t' := by
  unfold pessimisticLock at h
  rw [returns_get_bind_iff] at h
  split at h
  · obtain ⟨rfl, heq⟩ := returns_ret_iff.mp h
    cases heq
    exact .refused _
  next hpess =>
  cases locks with
  | nil =>
    obtain ⟨rfl, heq⟩ := returns_ret_iff.mp h
    cases heq
    exact .nothing rfl
  | cons first rest =>
    obtain ⟨firstKey, assertion⟩ := first
    dsimp only at h
    split_ifs at h
    · obtain ⟨rfl, heq⟩ := returns_ret_iff.mp h
      cases heq
      exact .refused _
    obtain ⟨tr₁, tr₂, forUpdateTs, t₁, rfl, hasked, hrest⟩ | ⟨e, rfl, herror⟩ :=
      returns_exec_bind_iff.mp h
    · obtain ⟨rfl, hts⟩ := returns_ofProg_iff.mp hasked
      obtain rfl := getTimestamp_returns hts
      rw [returns_modify_bind_iff] at hrest
      obtain ⟨tr₃, tr₄, merged, t₂, rfl, hsent, hend⟩ | ⟨e, rfl, herror⟩ :=
        returns_exec_bind_iff.mp hrest
      · obtain ⟨rfl, _, hmerged, hplan⟩ := returns_ofCall_iff.mp hsent
        cases hmerged
        obtain ⟨results, hresults, rfl⟩ := pessimisticLockPlan_returns hplan
        show LockCall fuel t₁ _ options (_ :: (tr₃ ++ tr₄)) r t'
        exact .sent (by simpa using hpess) rfl hresults (lockEnds_of_returns hend)
      · obtain ⟨-, a, ha, -⟩ := returns_ofCall_iff.mp herror
        cases ha
    · obtain ⟨rfl, hts⟩ := returns_ofProg_iff.mp herror
      obtain rfl := getTimestamp_returns hts
      exact .noTimestamp e

/-! ## The results of the shards -/

@[simp] lemma map_fst_sentLocks (t : Transaction) (locks : List (Key × Assertion)) :
    (t.sentLocks locks).map Prod.fst = locks.map Prod.fst := by
  rw [sentLocks, List.map_map]
  refine List.map_congr_left fun lock _ => ?_
  simp only [Function.comp_apply, inferAssertion]
  split_ifs <;> rfl

def lockedKeys (r : PessimisticLockRequest) : List Key := r.mutations.map (·.key)

lemma lockedKeys_lockRequest (t : Transaction) (locks : List (Key × Assertion))
    (options : LockOptions) (firstKey : Key) (forUpdateTs : ℕ) :
    lockedKeys (t.lockRequest locks options firstKey forUpdateTs) = locks.map Prod.fst := by
  rw [← map_fst_sentLocks t locks, lockedKeys, lockRequest, newPessimisticLockRequest, List.map_map]
  rfl

lemma sat_shards_pessimisticLock_ne_nil {C : Call → Prop} (hC : Routing C)
    (r : PessimisticLockRequest) :
    (Dispatch.pessimisticLock.plan.shards r).Sat C A fun res => ∀ ss, res = .ok ss →
      ∀ s ∈ ss, lockedKeys (Dispatch.pessimisticLock.plan.applyShard r s.1) ≠ [] := by
  refine (sat_shardsByRegion hC Proto.Mutation.key _).post fun res hres ss hss s hs => ?_
  have hne := (hres ss hss).nonempty s hs
  simpa [lockedKeys, Dispatch.plan, Dispatch.pessimisticLock] using hne

/-- **The results of a lock request stand for parts of its keys.** -/
theorem parted_lockResults (h : Returns (lockResults fuel retryOptions request) tr (.ok results))
    (htr : LooksUpRegions tr) : Parted lockedKeys request results := by
  have hplan : KeyPlan _ InItsRegion (InTrace tr) lockedKeys List.Disjoint True :=
    (keyPlan_pessimisticLock htr).resolveLock fuel retryOptions.lockBackoff
  have hsat := hplan.sat_retryMultiRegion_parted routing_inItsRegion
    (sat_shards_pessimisticLock_ne_nil routing_inItsRegion) true fuel request
    retryOptions.regionBackoff
  exact hsat.of_returns_inTrace h results rfl

/-- The response to the request is in the trace. -/
def AnsweredIn (tr : Trace) (r : PessimisticLockRequest)
    (resp : PessimisticLockResponse) : Prop :=
  ∃ region, .answered (S := sig) (.rpc region (.pessimisticLock r)) (.ok resp) ∈ tr

/-- **The leaves of a lock request are its accepted shards**: they differ from it in the mutations
only, were answered without errors, and without failed shards they have all its mutations. -/
theorem leaves_lockResults (h : Returns (lockResults fuel retryOptions request) tr (.ok results)) :
    ShardedPlan.Leaves (·.mutations) (fun r => ∃ ms, r = { request with mutations := ms })
      (Dispatch.pessimisticLock.Done (AnsweredIn tr)) True request results := by
  have hrouting : Routing fun _ => True := ⟨fun _ => trivial, fun _ => trivial, fun _ _ => trivial⟩
  have hsends := sends_pessimisticLock (C := fun _ => True) (A := InTrace tr) hrouting
    (I := fun r => ∃ ms, r = { request with mutations := ms })
    (fun _ part hr _ _ => hr.elim fun _ hr => ⟨part, by rw [hr]⟩) fun _ _ _ => trivial
  have hcov := hsends.covering_resolveLock hrouting
    (fun _ resp _ _ => sat_true (resolveLocks fuel (Dispatch.pessimisticLock.locks resp))) fuel
    retryOptions.lockBackoff
  have hsat := hcov.sat_retryMultiRegion true fuel retryOptions.regionBackoff
    (hsends.shards request ⟨_, rfl⟩)
  exact (hsat.of_returns h (allowed_inTrace tr)) results rfl

lemma sat_lockResults_failsIn {N : Error → Prop}
    (hA : ∀ key ans, A (.regionForKey key) ans → FailsIn N ans) (fuel : ℕ)
    (retryOptions : RetryOptions) (request : PessimisticLockRequest) :
    (lockResults fuel retryOptions request).Sat (fun _ => True) A (FailsIn N) :=
  ShardedPlan.sat_retryMultiRegion_preserved
    (sat_regionStreamForKeys_errors (fun _ => trivial) hA _ _) fuel _

end Transaction

end TikvClient
