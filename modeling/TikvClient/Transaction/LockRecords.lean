import TikvClient.Transaction.BufferLocks
import TikvClient.Transaction.PessimisticLock

/-!
# The locks a buffer records

When `pessimistic_lock` succeeds, all keys it asked for are locked in the buffer and will be
prewritten with the operation `Lock`.  TiKV need not have locked all of them: with
`lock_only_if_exists` it locks no key that does not exist, and in force-lock mode it has a result
for each key, which may be `LockResultFailed`.  The pairs the results are merged to do not tell
these keys from the others.

**Reports** (`reportsLocked`): what a response says about the lock of the key at an index.

**The result**: the recorded locks are those TiKV reported if, and only if, the keys it did not
report as locked were written before.
-/

namespace TikvClient

open Proto Prog

namespace Transaction

/-! ## Reports -/

/-- The response says that the key at index `i` does not exist.  A result in force-lock mode does if
it was asked for, or if there was a conflict; an empty value by itself does not. -/
def reportsNotFound (options : LockOptions) (resp : PessimisticLockResponse) (i : ℕ) : Bool :=
  match resp.results[i]? with
  | some result => !result.existence && (options.returnValues || options.checkExistence ||
      result.resultType = .lockResultLockedWithConflict)
  | none => resp.notFounds[i]? = some true

/-- The response says that the key at index `i` is locked. -/
def reportsLocked (options : LockOptions) (resp : PessimisticLockResponse) (i : ℕ) : Bool :=
  resp.results[i]?.all (fun result => result.resultType ≠ .lockResultFailed) &&
    !(options.lockOnlyIfExists && reportsNotFound options resp i)

/-- The accepted responses of the shards of a call. -/
abbrev LockLeaves := List (PessimisticLockRequest × PessimisticLockResponse)

/-- TiKV reported the key as locked. -/
def ReportedLocked (options : LockOptions) (leaves : LockLeaves) (k : Key) : Prop :=
  ∃ leaf ∈ leaves, ∃ i m, leaf.1.mutations[i]? = some m ∧ m.key = k ∧
    reportsLocked options leaf.2 i = true

/-- **The leaves are the responses of a call** with this trace and these pairs: each was answered to
a request of the call, together they are for the requested keys, and the pairs are what they are
merged to. -/
structure ResponsesOf (locks : List (Key × Assertion)) (tr : Trace) (pairs : List KvPair)
    (leaves : LockLeaves) : Prop where
  answered : ∀ leaf ∈ leaves, AnsweredIn tr leaf.1 leaf.2 ∧ leaf.2.errors = [] ∧
    leaf.2.regionError = none
  keys : (leaves.flatMap fun leaf => lockedKeys leaf.1).Perm (locks.map Prod.fst)
  merged : pairsOfShards leaves = .ok pairs

variable {fuel : ℕ} {t t' : Transaction} {locks : List (Key × Assertion)} {options : LockOptions}
  {tr : Trace} {pairs : List KvPair}

lemma exists_of_mergeLocks
    {results : Except Error (ShardResults PessimisticLockRequest PessimisticLockResponse)}
    (h : mergeLocks results = .ok pairs) :
    ∃ shards, results = .ok shards ∧ AllOk shards ∧
      pairsOfShards (okLeaves shards) = .ok pairs := by
  cases results with
  | error e => cases h
  | ok shards =>
    rw [mergeLocks, collectWithShard] at h
    split at h
    next leaves hleaves =>
      obtain ⟨hok, rfl⟩ := collectError_eq_ok_iff.mp hleaves
      exact ⟨shards, rfl, hok, h⟩
    · cases h

/-- A call that succeeded: its responses, and the buffer with all its keys locked. -/
lemma exists_responses (hcall : LockCall fuel t locks options tr (.ok pairs) t') :
    (∃ leaves, ResponsesOf locks tr pairs leaves) ∧
      ∀ k ∈ locks.map Prod.fst, t'.buffer.IsLocked k ↔ ¬ t.buffer.IsWritten k := by
  generalize hr : (.ok pairs : Except Error (List KvPair)) = r at hcall
  cases hcall with
  | refused e => cases hr
  | noTimestamp e => cases hr
  | nothing h =>
    cases hr
    subst h
    exact ⟨⟨[], ⟨by simp, by simp, rfl⟩⟩, by simp⟩
  | @sent firstKey assertion rest forUpdateTs tr results tr' r t' hpess hlocks hresults hends =>
    generalize hmerged : mergeLocks results = merged at hends
    cases hends with
    | failed h => cases hr
    | @undone inner keys tr' r t' hrun => cases r <;> cases hr
    | @locked pairs tr' t' hrun =>
      cases hr
      obtain ⟨shards, rfl, hok, hpairs⟩ := exists_of_mergeLocks hmerged
      have hleaves := leaves_lockResults hresults
      refine ⟨⟨okLeaves shards, ⟨fun leaf hleaf => ?_, ?_, hpairs⟩⟩, fun k hk => ?_⟩
      · obtain ⟨-, ⟨region, hmem⟩, herrors, hregion⟩ := hleaves.done leaf hleaf
        exact ⟨⟨region, List.mem_cons_of_mem _ (List.mem_append_left _ hmem)⟩, herrors, hregion⟩
      · have hkeys := (hleaves.part.perm ⟨hok, trivial⟩).map Proto.Mutation.key
        rw [List.map_flatMap] at hkeys
        rw [← lockedKeys_lockRequest t locks options firstKey forUpdateTs]
        exact hkeys
      · obtain ⟨-, -, -, -, hbuffer⟩ := finishPessimisticLock_returns hrun
        rw [hbuffer, Buffer.isLocked_foldl_lock, map_fst_sentLocks]
        have hwritten : (t.buffer.primaryKeyOr firstKey).IsWritten k ↔ t.buffer.IsWritten k :=
          Iff.rfl
        have hlocked : (t.buffer.primaryKeyOr firstKey).IsLocked k → ¬ t.buffer.IsWritten k :=
          fun hlocked hwritten => hwritten.2 hlocked
        rw [afterRequest]
        tauto

/-! ## Two regions that answer lock requests -/

/-- Lock requests are answered by the function. -/
def serveLocks (answer : PessimisticLockRequest → PessimisticLockResponse) (_ : Region) :
    (request : Request) → Except Error request.Response
  | .pessimisticLock r => (.ok (answer r) : Except Error PessimisticLockResponse)
  | _ => .error .grpc

/-- A call for one key of a new transaction that succeeds, with the mutations after it. -/
def locksOneKey (options : LockOptions)
    (answer : PessimisticLockRequest → PessimisticLockResponse) :
    Option (Option (List KvPair) × List Proto.Mutation) :=
  (((pessimisticLock 20 [(⟨[1]⟩, .none)] options).exec
    (Transaction.new 7 .newPessimistic false)).eval
      (fixedCluster twoRegions (serveLocks answer))).map fun r =>
    (r.1.toOption, r.2.prewriteMutations)

variable {answer : PessimisticLockRequest → PessimisticLockResponse}

/-- The run of such a call, all of whose responses are those of the function. -/
lemma exists_run_of_locksOneKey {mutations : List Proto.Mutation}
    (h : locksOneKey options answer = some (some pairs, mutations)) :
    ∃ tr t', Returns ((pessimisticLock 20 [(⟨[1]⟩, .none)] options).exec
        (Transaction.new 7 .newPessimistic false)) tr (.ok pairs, t') ∧
      t'.prewriteMutations = mutations ∧ ∀ r resp, AnsweredIn tr r resp → resp = answer r := by
  obtain ⟨⟨r, t'⟩, heval, hr⟩ := Option.map_eq_some_iff.mp h
  obtain ⟨hpairs, hmutations⟩ := Prod.mk.inj hr
  obtain ⟨tr, hrun, hans⟩ := exists_returns_of_eval heval
  cases r with
  | error e => cases hpairs
  | ok pairs' =>
    cases hpairs
    refine ⟨tr, t', hrun, hmutations, fun r resp ⟨region, hmem⟩ => ?_⟩
    have hresp := hans _ hmem
    cases hresp
    rfl

/-- **The buffer records the locks TiKV reported if and only if** the keys it did not report as
locked were written before the call. -/
theorem records_reported_locks_iff
    (hrun : Returns ((pessimisticLock fuel locks options).exec t) tr (.ok pairs, t')) :
    (∃ leaves, ResponsesOf locks tr pairs leaves) ∧
      ∀ leaves, ResponsesOf locks tr pairs leaves →
        ((∀ k ∈ locks.map Prod.fst, t'.buffer.IsLocked k → ReportedLocked options leaves k) ↔
          ∀ k ∈ locks.map Prod.fst, ¬ ReportedLocked options leaves k → t.buffer.IsWritten k) := by
  obtain ⟨hresponses, hlocked⟩ := exists_responses (lockCall_of_returns hrun)
  refine ⟨hresponses, fun leaves _ => forall₂_congr fun k hk => ?_⟩
  rw [hlocked k hk]
  tauto

/-- A key that TiKV locked is recorded. -/
theorem records_reported_lock_of_one_key :
    ∃ tr t', Returns ((pessimisticLock 20 [(⟨[1]⟩, .none)] .default).exec
        (Transaction.new 7 .newPessimistic false)) tr (.ok [], t') ∧
      t'.prewriteMutations = [⟨.lock, ⟨[1]⟩, [], .none⟩] ∧
      (∃ leaves, ResponsesOf [(⟨[1]⟩, .none)] tr [] leaves) ∧
      ∀ leaves, ResponsesOf [(⟨[1]⟩, .none)] tr [] leaves →
        ((∀ k ∈ [(⟨[1]⟩, Assertion.none)].map Prod.fst, t'.buffer.IsLocked k →
            ReportedLocked .default leaves k) ↔
          ∀ k ∈ [(⟨[1]⟩, Assertion.none)].map Prod.fst, ¬ ReportedLocked .default leaves k →
            (Transaction.new 7 .newPessimistic false).buffer.IsWritten k) := by
  have hlocks : locksOneKey .default (fun _ => ⟨none, [], [], [], []⟩) =
      some (some [], [⟨.lock, ⟨[1]⟩, [], .none⟩]) := by decide
  obtain ⟨tr, t', hrun, hmutations, -⟩ := exists_run_of_locksOneKey hlocks
  exact ⟨tr, t', hrun, hmutations, records_reported_locks_iff hrun⟩

/-- A call of a new transaction succeeds and its key is recorded, although TiKV did not report it as
locked. -/
def RecordsUnreported (options : LockOptions) : Prop :=
  ∃ tr t', Returns ((pessimisticLock 20 [(⟨[1]⟩, .none)] options).exec
      (Transaction.new 7 .newPessimistic false)) tr (.ok [], t') ∧
    t'.buffer.IsLocked ⟨[1]⟩ ∧ t'.prewriteMutations = [⟨.lock, ⟨[1]⟩, [], .none⟩] ∧
    (∃ leaves, ResponsesOf [(⟨[1]⟩, .none)] tr [] leaves) ∧
    ∀ leaves, ResponsesOf [(⟨[1]⟩, .none)] tr [] leaves → ¬ ReportedLocked options leaves ⟨[1]⟩

lemma recordsUnreported_of_answer
    (h : locksOneKey options answer = some (some [], [⟨.lock, ⟨[1]⟩, [], .none⟩]))
    (hanswer : ∀ r i m, r.mutations[i]? = some m → reportsLocked options (answer r) i = false) :
    RecordsUnreported options := by
  obtain ⟨tr, t', hrun, hmutations, hans⟩ := exists_run_of_locksOneKey h
  obtain ⟨hresponses, hlocked⟩ := exists_responses (lockCall_of_returns hrun)
  refine ⟨tr, t', hrun, (hlocked ⟨[1]⟩ (by simp)).mpr ?_, hmutations, hresponses, ?_⟩
  · rintro ⟨⟨e, he, -⟩, -⟩
    simp [Transaction.new, Buffer.new] at he
  · rintro leaves hleaves ⟨leaf, hleaf, i, m, hm, -, hreport⟩
    rw [hans leaf.1 leaf.2 (hleaves.answered leaf hleaf).1, hanswer leaf.1 i m hm] at hreport
    cases hreport

def allNotFound (r : PessimisticLockRequest) : PessimisticLockResponse :=
  ⟨none, [], [], [], List.replicate r.mutations.length true⟩

/-- No key is locked, in force-lock mode. -/
def allFailed (r : PessimisticLockRequest) : PessimisticLockResponse :=
  ⟨none, [], List.replicate r.mutations.length ⟨.lockResultFailed, [], false⟩, [], []⟩

/-- Keys that do not exist are recorded with `lock_only_if_exists`, and so are keys with the result
`LockResultFailed` in force-lock mode. -/
theorem unreported_locks_recorded :
    RecordsUnreported
        { LockOptions.default with checkExistence := true, lockOnlyIfExists := true } ∧
      RecordsUnreported { LockOptions.default with wakeUpMode := .forceLock } := by
  constructor
  · have hlocks : locksOneKey { LockOptions.default with
        checkExistence := true, lockOnlyIfExists := true } allNotFound =
        some (some [], [⟨.lock, ⟨[1]⟩, [], .none⟩]) := by decide
    refine recordsUnreported_of_answer hlocks fun r i m hm => ?_
    obtain ⟨hi, -⟩ := List.getElem?_eq_some_iff.mp hm
    simp [reportsLocked, reportsNotFound, allNotFound, hi]
  · have hlocks : locksOneKey { LockOptions.default with wakeUpMode := .forceLock } allFailed =
        some (some [], [⟨.lock, ⟨[1]⟩, [], .none⟩]) := by decide
    refine recordsUnreported_of_answer hlocks fun r i m hm => ?_
    obtain ⟨hi, -⟩ := List.getElem?_eq_some_iff.mp hm
    simp [reportsLocked, allFailed, hi]

end Transaction

end TikvClient
