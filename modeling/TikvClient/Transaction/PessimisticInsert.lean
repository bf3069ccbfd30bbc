import TikvClient.Transaction.BufferLocks
import TikvClient.Transaction.PessimisticLock

/-!
# Inserting in a pessimistic transaction

Whether a key exists is checked twice when a pessimistic transaction inserts it: in the buffer,
which knows the operations of the transaction, and by TiKV when the key is locked, which knows the
committed value only.  The second check fails for a key that was committed by others and deleted by
the transaction itself.

**The environment** (`LockAnswers S`): PD and TiKV answer without failures, and a lock request that
asserts that a key does not exist is refused exactly if it does in the committed data `S`.

**The invariant** (`KeyState`) of the operations on one key: the entry of the key stands for what
the transaction sees, and committing makes it visible.

**The result**: insertions succeed exactly where the transaction does not see the key if, and only
if, none of them is called when the transaction has deleted a committed key.
-/

namespace TikvClient

open Proto Prog StateProg

namespace Transaction

variable {S : Snapshot} {k : Key} {t t' : Transaction} {fuel : ℕ}

/-! ## The environment -/

/-- A lock on the key with this assertion is refused. -/
def IsRefused (S : Snapshot) (k : Key) (assertion : Assertion) : Prop :=
  assertion = .notExist ∧ S[k]?.isSome = true

instance (S : Snapshot) (k : Key) (assertion : Assertion) : Decidable (IsRefused S k assertion) :=
  inferInstanceAs (Decidable (_ ∧ _))

/-- **PD and TiKV answer without failures**, and a key that is asserted not to exist is locked
unless it exists in `S`. -/
def LockAnswers (S : Snapshot) : Answers
  | .regionForKey k, ans => ∃ region : Region, ans = .ok region ∧ region.contains k = true ∧
      region.leader ≠ none
  | .mapRegionToStore _, ans => ans = .ok ()
  | .getTimestamp, ans => ∃ ts, ans = .ok ts
  | .rpc _ (.pessimisticLock r), ans => ∃ resp : PessimisticLockResponse, ans = .ok resp ∧
      resp.regionError = none ∧
      (resp.errors = if ∃ m ∈ r.mutations, IsRefused S m.key m.assertion
        then [⟨none, .alreadyExist⟩] else []) ∧
      ∃ pairs, pairsOfShard r.mutations resp = .ok pairs
  | _, _ => True

def serveInserts (S : Snapshot) (_ : Region) :
    (request : Request) → Except Error request.Response
  | .pessimisticLock r =>
    (.ok ⟨none, if ∃ m ∈ r.mutations, IsRefused S m.key m.assertion
      then [⟨none, .alreadyExist⟩] else [], [], [], []⟩ : Except Error PessimisticLockResponse)
  | _ => .error .grpc

lemma exists_lockAnswer (S : Snapshot) (c : Call) : ∃ ans, LockAnswers S c ans := by
  refine ⟨fixedCluster twoRegions (serveInserts S) c, ?_⟩
  cases c with
  | regionForKey k =>
    obtain ⟨region, hmem, hroute, hk⟩ :=
      routes_fixedCluster isPartition_twoRegions (serveInserts S) k
    have hleaders : ∀ region ∈ twoRegions, region.leader ≠ none := by decide
    exact ⟨region, hroute, hk, hleaders region hmem⟩
  | mapRegionToStore region => rfl
  | getTimestamp => exact ⟨0, rfl⟩
  | rpc region request =>
    cases request with
    | pessimisticLock r =>
      refine ⟨_, rfl, rfl, rfl, ?_⟩
      simp [pairsOfShard]
    | _ => trivial
  | _ => trivial

/-! ## Locking one key -/

lemma mutations_lockRequest_one (hpresume : (t.buffer.keyFlags k).hasPresumeKeyNotExists = false)
    (assertion : Assertion) (options : LockOptions) (forUpdateTs : ℕ) :
    (t.lockRequest [(k, assertion)] options k forUpdateTs).mutations =
      [⟨.pessimisticLock, k, [], assertion⟩] := by
  simp [lockRequest, newPessimisticLockRequest, sentLocks, inferAssertion, hpresume]

lemma ends_shardsByRegion_one (m : Proto.Mutation) :
    Ends (LockAnswers S) (fun res => ∃ region : Region, res = .ok [([m], region)] ∧
      region.leader ≠ none) 1 (shardsByRegion Proto.Mutation.key [m]) :=
  ends_regionStreamForKeys_one Proto.Mutation.key m fun _ ⟨region, heq, _, hleader⟩ =>
    ⟨region, heq, hleader⟩

/-- The response to a lock request: no locks of others are in the way. -/
lemma ends_sendLock (region : Region) (request : PessimisticLockRequest)
    (resolve : Resolver) (hfuel : 0 < fuel) (backoff : Backoff) :
    Ends (LockAnswers S) (fun res => ∃ resp : PessimisticLockResponse, res = .ok resp ∧
      resp.regionError = none ∧
      (resp.errors = if ∃ m ∈ request.mutations, IsRefused S m.key m.assertion
        then [⟨none, .alreadyExist⟩] else []) ∧
      ∃ pairs, pairsOfShard request.mutations resp = .ok pairs) 1
      ((Dispatch.pessimisticLock.resolveLock resolve fuel backoff).execute region request) := by
  obtain ⟨fuel, rfl⟩ : ∃ n, fuel = n + 1 := ⟨fuel - 1, by omega⟩
  refine Ends.andThen (e := 0) (ends_ask (S := sig) (Call.rpc region (.pessimisticLock request)))
    (fun resp hresp => ?_) fun x hx => ?_
  · obtain ⟨resp', heq, hregion, herrors, hpairs⟩ := hresp
    cases heq
    have hlocks : Dispatch.pessimisticLock.locks resp = [] := by
      show locksOf resp.errors = []
      rw [herrors]
      split_ifs <;> rfl
    unfold resolveLockLoop
    rw [hlocks]
    exact ends_ret ⟨resp, rfl, hregion, herrors, hpairs⟩
  · obtain ⟨resp', heq, -⟩ := hx
    cases heq

variable {request : PessimisticLockRequest} {m : Proto.Mutation}

/-- The results of a request for one key: its response, or that it is refused. -/
lemma ends_lockResults
    (hrequest : request.mutations = [m]) (retryOptions : RetryOptions) (hfuel : 4 ≤ fuel) :
    Ends (LockAnswers S) (fun res => ∃ resp pairs, pairsOfShard [m] resp = .ok pairs ∧
      res = .ok [if IsRefused S m.key m.assertion
        then .error (.multipleKeyErrors [.keyError ⟨none, .alreadyExist⟩])
        else .ok (request, resp)]) 7 (lockResults fuel retryOptions request) := by
  let plan := Dispatch.pessimisticLock.resolveLock (resolveLocks fuel) fuel retryOptions.lockBackoff
  have hshard : { request with mutations := [m] } = request := by rw [← hrequest]
  have hshards : Ends (LockAnswers S) (fun res => ∃ region : Region, res = .ok [([m], region)] ∧
      region.leader ≠ none) 1 (plan.shards request) := by
    show Ends _ _ _ (shardsByRegion Proto.Mutation.key request.mutations)
    rw [hrequest]
    exact ends_shardsByRegion_one m
  have hexecute : ∀ region, Ends (LockAnswers S) (fun res => ∃ resp, res = .ok resp ∧
      plan.regionError resp = none ∧ (resp.errors = if IsRefused S m.key m.assertion
        then [⟨none, .alreadyExist⟩] else []) ∧ ∃ pairs, pairsOfShard [m] resp = .ok pairs) 1
      (plan.execute region (plan.applyStore 0 (plan.applyShard request [m]))) := by
    intro region
    show Ends _ _ _ (plan.execute region { request with mutations := [m] })
    rw [hshard]
    have hsend := ends_sendLock (S := S) region request (resolveLocks fuel)
      (show 0 < fuel by omega) retryOptions.lockBackoff
    refine hsend.mono (Nat.le_refl 1) ?_
    rintro res ⟨resp, rfl, hregion, herrors, hpairs⟩
    refine ⟨resp, rfl, hregion, ?_, hrequest ▸ hpairs⟩
    rw [herrors]
    simp only [hrequest, List.mem_singleton, exists_eq_left]
  have hplan := ShardedPlan.ends_retryMultiRegion_one hshards (fun _ _ hans => hans) hexecute
    (show 1 + 2 < fuel by omega) true retryOptions.regionBackoff
  refine hplan.mono (Nat.le_refl 7) ?_
  rintro res ⟨resp, ⟨herrors, pairs, hpairs⟩, rfl⟩
  refine ⟨resp, pairs, hpairs, ?_⟩
  have hkey : plan.keyErrors resp = Error.extractErrors resp.errors := rfl
  rw [ShardedPlan.resultOf, hkey, herrors]
  split_ifs with hrefused
  · rfl
  · show _ = Except.ok [Except.ok (request, resp)]
    rw [← hshard]
    rfl

/-- The lock of a key is taken and the buffer changed, or it is refused and nothing happens. -/
structure AfterLock (S : Snapshot) (k : Key) (assertion : Assertion) (change : Buffer → Buffer)
    (t : Transaction) (isOk : Bool) (t' : Transaction) : Prop where
  isOk : isOk = true ↔ ¬ IsRefused S k assertion
  buffer : t'.buffer = if IsRefused S k assertion then t.buffer else change t.buffer
  status : t'.status = t.status
  pipelined : t'.pipelined = t.pipelined
  isPessimistic : t'.options.isPessimistic = true

lemma ends_finishPessimisticLock (locks : List (Key × Assertion)) :
    Ends (LockAnswers S) (fun r => r.1 = .ok () ∧ r.2.status = t.status ∧
      r.2.pipelined = t.pipelined ∧ r.2.options = t.options ∧
      r.2.buffer = locks.foldl (fun b lock => b.lock lock.1) (t.buffer.primaryKeyOr k)) 1
      ((finishPessimisticLock k locks).exec t) := by
  refine ends_exec_modify_bind (ends_exec_get_bind ?_)
  refine ends_exec_bind (d := 1) (e := 0) (Q := fun r => r.1 = .ok () ∧ r.2.status = t.status ∧
    r.2.pipelined = t.pipelined ∧ r.2.options = t.options ∧
    r.2.buffer = t.buffer.primaryKeyOr k) ?_ (fun _ t' ht' => ?_) fun _ _ ht' => ?_
  · refine ends_exec_get_bind ?_
    split_ifs
    · exact ends_ret ⟨rfl, rfl, rfl, rfl, rfl⟩
    · exact ends_call (d := 0) fun _ _ => ends_ret ⟨rfl, rfl, rfl, rfl, rfl⟩
  · obtain ⟨-, hstatus, hpipelined, hoptions, hbuffer⟩ := ht'
    refine ends_ret ⟨rfl, hstatus, hpipelined, hoptions, ?_⟩
    rw [← hbuffer]
  · cases ht'.1

lemma lock_primaryKeyOr (b : Buffer) (k : Key) : (b.primaryKeyOr k).lock k = b.lock k := by
  have h : (b.primaryKeyOr k).primaryKeyOr k = b.primaryKeyOr k := by
    unfold Buffer.primaryKeyOr
    cases b.primaryKey <;> rfl
  unfold Buffer.lock
  rw [h]

/-- The merged result of a request for one key. -/
lemma ends_pessimisticLockPlan
    (hrequest : request.mutations = [m]) (retryOptions : RetryOptions) (hfuel : 4 ≤ fuel) :
    Ends (LockAnswers S) (fun merged =>
      (¬ IsRefused S m.key m.assertion ∧ ∃ pairs, merged = .ok pairs) ∨
        IsRefused S m.key m.assertion ∧ ∃ inner, merged = .error (.pessimisticLockError inner [])) 7
      (pessimisticLockPlan fuel retryOptions request) := by
  refine (ends_lockResults hrequest retryOptions hfuel).andThen (e := 0)
    (fun results hresults => ?_) fun x hx => ?_
  · obtain ⟨resp, pairs, hpairs, heq⟩ := hresults
    cases heq
    split_ifs with hrefused
    · exact ends_ret (.inr ⟨hrefused, _, rfl⟩)
    · refine ends_ret (.inl ⟨hrefused, pairs ++ [], ?_⟩)
      simp only [collectWithShard, collectError, pairsOfShards, hrequest, hpairs]
  · obtain ⟨resp, pairs, -, heq⟩ := hx
    cases heq

/-- **Locking one key** ends, with the key locked in the buffer unless it is refused. -/
lemma ends_pessimisticLock (hpess : t.options.isPessimistic = true)
    (hpresume : (t.buffer.keyFlags k).hasPresumeKeyNotExists = false) (assertion : Assertion)
    (hfuel : 4 ≤ fuel) :
    Ends (LockAnswers S) (fun r => AfterLock S k assertion (fun b => b.lock k) t r.1.isOk r.2) 9
      ((pessimisticLock fuel [(k, assertion)] .default).exec t) := by
  refine ends_exec_get_bind ?_
  simp only [hpess, Bool.not_true, Bool.false_eq_true, if_false]
  refine ends_exec_bind (d := 1) (e := 8) (ends_exec_ofProg (ends_ask (S := sig) Call.getTimestamp))
    (fun forUpdateTs s hs => ?_) fun x s hs => ?_
  · obtain rfl : s = t := hs.2
    refine ends_exec_modify_bind ?_
    have hplan := ends_pessimisticLockPlan (S := S)
      (mutations_lockRequest_one hpresume assertion .default forUpdateTs) s.options.retryOptions
      hfuel
    have hpessimistic := Respects.isPessimistic_pushForUpdateTs s.options forUpdateTs
    refine ends_exec_bind (d := 7) (e := 1) (ends_exec_ofCall hplan) (fun merged s' hs' => ?_)
      fun x s' hs' => ?_
    · obtain ⟨⟨merged, hmerged, heq⟩, rfl⟩ := hs'
      cases heq
      rcases hmerged with ⟨hrefused, pairs, rfl⟩ | ⟨hrefused, inner, rfl⟩
      · refine ends_exec_bind (d := 1) (e := 0) (ends_finishPessimisticLock _) (fun _ t' ht' => ?_)
          fun _ _ ht' => ?_
        · obtain ⟨-, hstatus, hpipelined, hoptions, hbuffer⟩ := ht'
          refine ends_ret ⟨⟨fun _ => hrefused, fun _ => rfl⟩, ?_, hstatus, hpipelined, ?_⟩
          · have hkey : (inferAssertion s.buffer (k, assertion)).1 = k := by
              unfold inferAssertion
              split_ifs <;> rfl
            rw [hbuffer, if_neg hrefused]
            show (s.buffer.primaryKeyOr k).lock (inferAssertion s.buffer (k, assertion)).1 = _
            rw [hkey, lock_primaryKeyOr]
          · rw [hoptions]
            exact hpessimistic
        · cases ht'.1
      · refine ends_ret ⟨⟨fun h => ?_, fun h => absurd hrefused h⟩, ?_, rfl, rfl, hpessimistic⟩
        · cases h
        · rw [if_pos hrefused]
    · obtain ⟨⟨_, -, heq⟩, -⟩ := hs'
      cases heq
  · obtain ⟨ts, hts⟩ := hs.1
    cases hts

/-- Locking a key and changing it in the buffer. -/
lemma ends_lockAndChange (hpess : t.options.isPessimistic = true) (hpipelined : t.pipelined = none)
    (hpresume : (t.buffer.keyFlags k).hasPresumeKeyNotExists = false) (assertion : Assertion)
    (change : Buffer → Buffer) (hfuel : 4 ≤ fuel) :
    Ends (LockAnswers S)
      (fun r => AfterLock S k assertion (fun b => change (b.lock k)) t r.1.isOk r.2) 9
      ((do
        lockIfPessimistic fuel [(k, assertion)]
        changeKey k change
        pipelinedMaybeFlush : TxnM Unit).exec t) := by
  have hlock : Ends (LockAnswers S)
      (fun r => AfterLock S k assertion (fun b => b.lock k) t r.1.isOk r.2) 9
      ((lockIfPessimistic fuel [(k, assertion)]).exec t) := by
    refine ends_exec_get_bind ?_
    rw [if_pos hpess]
    refine ends_exec_bind (d := 9) (e := 0) (ends_pessimisticLock hpess hpresume assertion hfuel)
      (fun _ _ h => ends_ret h) fun _ _ h => h
  refine ends_exec_bind (d := 9) (e := 0) hlock (fun _ s hs => ?_) fun _ s hs => ?_
  · -- Without the pipelined mode, nothing else happens to the transaction.
    have hnone : s.pipelined = none := hs.pipelined.trans hpipelined
    have hgranted : ¬ IsRefused S k assertion := hs.isOk.1 rfl
    refine ends_exec_bind (d := 0) (e := 0)
      (Q := fun r => r = (.ok (), { s with buffer := change s.buffer })) ?_ (fun _ s' hs' => ?_)
      fun _ _ hs' => ?_
    · refine ends_exec_modify_bind (ends_ret ?_)
      simp only [recordKeyChange, hnone]
    · cases hs'
      refine ends_exec_get_bind ?_
      simp only [hnone]
      refine ends_ret ⟨hs.isOk, ?_, hs.status, hpipelined.symm, hs.isPessimistic⟩
      have hbuffer := hs.buffer
      rw [if_neg hgranted] at hbuffer ⊢
      rw [hbuffer]
    · cases hs'
  · have hrefused : IsRefused S k assertion := by
      by_contra h
      cases hs.isOk.2 h
    have hbuffer := hs.buffer
    rw [if_pos hrefused] at hbuffer
    exact ⟨hs.isOk, by rw [if_pos hrefused, hbuffer], hs.status, hs.pipelined, hs.isPessimistic⟩

/-! ## The operations on a key -/

/-- The operations that write a key. -/
inductive WriteOp where
  | put (value : Value)
  | insert (value : Value)
  | delete

/-- The call of the operation. -/
def WriteOp.run (fuel : ℕ) (k : Key) : WriteOp → TxnM Unit
  | .put value => Transaction.put fuel k value
  | .insert value => Transaction.insert fuel k value
  | .delete => Transaction.delete fuel k

/-- What the transaction has written after an operation that succeeded, or not. -/
def afterWrite (own : Option (Option Value)) : WriteOp × Bool → Option (Option Value)
  | (.put value, true) => some (some value)
  | (.insert value, true) => some (some value)
  | (.delete, true) => some none
  | (_, false) => own

/-- What the transaction has written, if anything: `some none` is a deletion. -/
def ownWrite (hist : List (WriteOp × Bool)) : Option (Option Value) := hist.foldl afterWrite none

/-- **The own view of the transaction**: the committed value, overlaid with its successful
operations. -/
def ownView (committed : Option Value) (hist : List (WriteOp × Bool)) : Option Value :=
  (ownWrite hist).getD committed

def HoldsWrite (e : Option BufferEntry) : Prop := ∃ entry, e = some entry ∧ entry.isWrite = true

/-- **The state of a key** whose committed value is that of `S`, and which the transaction has
written as `own` says. -/
structure KeyState (S : Snapshot) (k : Key) (own : Option (Option Value)) (t : Transaction) :
    Prop where
  isOpen : t.IsOpen
  isPessimistic : t.options.isPessimistic = true
  bufferIsPessimistic : t.buffer.isPessimistic = true
  pipelined : t.pipelined = none
  presume : (t.buffer.keyFlags k).hasPresumeKeyNotExists = false
  notPrewriteOnly : (t.buffer.keyFlags k).hasPrewriteOnly = false
  written : own.isSome = true → HoldsWrite t.buffer.entryMap[k]?
  simulates : Simulates S[k]? t.buffer.entryMap[k]? (some (own.getD S[k]?))

/-- The operation succeeds.  An insertion does if neither the transaction nor TiKV sees the key. -/
def IsAccepted (committed : Option Value) (own : Option (Option Value)) : WriteOp → Prop
  | .insert _ => own.getD committed = none ∧ committed = none
  | _ => True

/-! ### The entry of the key -/

section Entry

variable {c w : Option Value} {e : Option BufferEntry}

lemma simulates_lock (h : Simulates c e (some w)) :
    Simulates c (entryAfter true e .lock) (some w) := by
  rcases e with - | entry
  · exact h
  · cases entry <;> exact h

lemma simulates_put (h : Simulates c e (some w)) (v : Value) :
    Simulates c (entryAfter true e (.put v)) (some (some v)) := by
  rcases e with - | entry
  · rfl
  · cases entry with
    | insert | checkNotExist =>
      have hc : c.isSome = false := by
        by_contra hc
        simp [Simulates, hc] at h
      simp [Simulates, entryAfter, hc]
    | _ => rfl

lemma simulates_insert (hc : c = none) (e : Option BufferEntry) (v : Value) :
    Simulates c (entryAfter true e (.insert v)) (some (some v)) := by
  subst hc
  rcases e with - | entry
  · rfl
  · cases entry <;> rfl

lemma entryAfter_delete (e : Option BufferEntry) : entryAfter true e .delete = some .del := by
  rcases e with - | entry
  · rfl
  · cases entry <;> rfl

lemma holdsWrite_entryAfter {op : KeyOp} {v : Value} (hop : op = .put v ∨ op = .insert v)
    (e : Option BufferEntry) : HoldsWrite (entryAfter true e op) := by
  rcases hop with rfl | rfl
  all_goals
    rcases e with - | entry
    · exact ⟨_, rfl, rfl⟩
    · cases entry <;> exact ⟨_, rfl, rfl⟩

/-- **A write that is not prewrite-only is committed.** -/
lemma mem_commitKeys_of_holdsWrite {b : Buffer} (hw : HoldsWrite b.entryMap[k]?)
    (hflag : (b.keyFlags k).hasPrewriteOnly = false) (level : AssertionLevel) :
    k ∈ b.commitKeys (b.toProtoMutations level) := by
  obtain ⟨entry, hentry, hwrite⟩ := hw
  obtain ⟨m, hm⟩ : ∃ m, b.lowerEntry level k entry = some m := by
    cases entry <;> first | exact ⟨_, rfl⟩ | cases hwrite
  have hkey := Buffer.lowerEntry_key hm
  have hop : m.op ≠ .checkNotExists := by
    rcases Buffer.lowerEntry_op hm with ⟨rfl, -⟩ | ⟨-, hop⟩
    · cases hwrite
    · intro heq
      simp [heq] at hop
  refine List.mem_map.mpr ⟨m, List.mem_filter.mpr ⟨List.mem_filterMap.mpr
    ⟨(k, entry), Std.ExtTreeMap.mem_toList_iff_getElem?_eq_some.mpr hentry, hm⟩, ?_⟩, hkey⟩
  simp [hop, hkey, hflag]

end Entry

/-! ### The prewrite-only flag of the key -/

section PrewriteOnly

variable {b : Buffer} (h : (b.keyFlags k).hasPrewriteOnly = false)

lemma notPrewriteOnly_insertEntry {entry : BufferEntry} (hw : entry.isWrite = true) :
    ((b.insertEntry k entry).keyFlags k).hasPrewriteOnly = false := by
  simp [Buffer.hasPrewriteOnly_insertEntry b k k entry hw]

/-- A pessimistic deletion never leaves an existence check. -/
lemma notPrewriteOnly_delete (hpess : b.isPessimistic = true) :
    ((b.delete k).keyFlags k).hasPrewriteOnly = false := by
  have hcheck : b.deleteLeavesCheck k = false := by simp [Buffer.deleteLeavesCheck, hpess]
  rw [Buffer.delete, hcheck]
  exact notPrewriteOnly_insertEntry rfl

include h

lemma notPrewriteOnly_put (v : Value) : ((b.put k v).keyFlags k).hasPrewriteOnly = false := by
  unfold Buffer.put
  split
  · exact h
  · exact h
  · exact notPrewriteOnly_insertEntry rfl

lemma notPrewriteOnly_insert (v : Value) :
    ((b.insert k v).keyFlags k).hasPrewriteOnly = false := by
  unfold Buffer.insert
  split
  · exact h
  · exact notPrewriteOnly_insertEntry rfl

lemma notPrewriteOnly_lock : ((b.lock k).keyFlags k).hasPrewriteOnly = false := by
  unfold Buffer.lock
  dsimp only
  split <;> exact h

end PrewriteOnly

namespace KeyState

variable {own : Option (Option Value)}

lemma get_isSome (h : KeyState S k own t) (hget : (t.buffer.get k).isSome = true) :
    (own.getD S[k]?).isSome = true := by
  rw [← Buffer.view_of_simulates h.simulates, Buffer.view]
  rw [Buffer.get] at hget
  cases hval : t.buffer.getFromMutations k with
  | determined v => simpa [hval] using hget
  | undetermined => simp [hval] at hget

/-- A key that the transaction sees and the buffer does not know is committed. -/
lemma committed_isSome (h : KeyState S k own t) (hget : (t.buffer.get k).isSome = false)
    (hview : (own.getD S[k]?).isSome = true) : S[k]?.isSome = true := by
  rw [← Buffer.view_of_simulates h.simulates, Buffer.view] at hview
  rw [Buffer.get] at hget
  cases hval : t.buffer.getFromMutations k with
  | determined v => simp_all
  | undetermined => simpa [hval] using hview

variable {change : Buffer → Buffer} {assertion : Assertion} {isOk : Bool}

/-- **The transaction after a write of the key**: the key is locked, then changed. -/
lemma afterLock {own' : Option (Option Value)} (h : KeyState S k own t)
    (ht : AfterLock S k assertion (fun b => change (b.lock k)) t isOk t')
    (hgranted : ¬ IsRefused S k assertion)
    (hpess : ∀ b : Buffer, (change b).isPessimistic = b.isPessimistic)
    (hflags : ∀ b : Buffer, ((change b).keyFlags k).hasPresumeKeyNotExists =
      (b.keyFlags k).hasPresumeKeyNotExists)
    (hcommits : ∀ b : Buffer, b.isPessimistic = true → (b.keyFlags k).hasPrewriteOnly = false →
      ((change b).keyFlags k).hasPrewriteOnly = false)
    (op : KeyOp) (hwrites : ∀ e, HoldsWrite (entryAfter true e op))
    (hentry : ∀ b : Buffer, b.isPessimistic = true →
      (b.keyFlags k).hasPresumeKeyNotExists = false →
      (change b).entryMap[k]? = entryAfter true b.entryMap[k]? op)
    (hsim : ∀ e, Simulates S[k]? e (some (own.getD S[k]?)) →
      Simulates S[k]? (entryAfter true e op) (some (own'.getD S[k]?))) :
    KeyState S k own' t' := by
  have hbuffer : t'.buffer = change (t.buffer.lock k) := by rw [ht.buffer, if_neg hgranted]
  have hlocked : (t.buffer.lock k).isPessimistic = true :=
    (Buffer.isPessimistic_lock _ k).trans h.bufferIsPessimistic
  have hpresume : ((t.buffer.lock k).keyFlags k).hasPresumeKeyNotExists = false :=
    (Buffer.presumed_lock _ k k).trans h.presume
  have hentry' : t'.buffer.entryMap[k]? =
      entryAfter true (entryAfter true t.buffer.entryMap[k]? .lock) op := by
    rw [hbuffer, hentry _ hlocked hpresume, Buffer.entryMap_lock, if_pos rfl, h.bufferIsPessimistic]
  refine ⟨?_, ht.isPessimistic, ?_, ht.pipelined.trans h.pipelined, ?_, ?_, fun _ => ?_, ?_⟩
  · rw [IsOpen, ht.status]
    exact h.isOpen
  · rw [hbuffer, hpess, hlocked]
  · rw [hbuffer, hflags, hpresume]
  · rw [hbuffer]
    exact hcommits _ hlocked (notPrewriteOnly_lock h.notPrewriteOnly)
  · rw [hentry']
    exact hwrites _
  · rw [hentry']
    exact hsim _ (simulates_lock h.simulates)

lemma of_refused (h : KeyState S k own t) (ht : AfterLock S k assertion change t isOk t')
    (hrefused : IsRefused S k assertion) : KeyState S k own t' := by
  have hbuffer : t'.buffer = t.buffer := by rw [ht.buffer, if_pos hrefused]
  refine ⟨?_, ht.isPessimistic, ?_, ht.pipelined.trans h.pipelined, ?_, ?_, ?_, ?_⟩
  · rw [IsOpen, ht.status]
    exact h.isOpen
  all_goals rw [hbuffer]
  · exact h.bufferIsPessimistic
  · exact h.presume
  · exact h.notPrewriteOnly
  · exact h.written
  · exact h.simulates

/-- **One operation**: it ends, succeeds if it is accepted, and the state follows. -/
theorem ends_run (h : KeyState S k own t) (op : WriteOp) (hfuel : 4 ≤ fuel) :
    Ends (LockAnswers S) (fun r => (r.1.isOk = true ↔ IsAccepted S[k]? own op) ∧
      KeyState S k (afterWrite own (op, r.1.isOk)) r.2) 9 ((op.run fuel k).exec t) := by
  have hcheck : ∀ (m : TxnM Unit) {Q : Except Error Unit × Transaction → Prop},
      Ends (LockAnswers S) Q 9 (m.exec t) →
      Ends (LockAnswers S) Q 9 ((checkAllowOperation >>= fun _ => m).exec t) := by
    intro m Q hm
    rwa [exec_guarded_of_isOpen h.isOpen]
  have hnone : ¬ IsRefused S k .none := fun hrefused => by cases hrefused.1
  cases op with
  | put v =>
    refine hcheck _ ((ends_lockAndChange h.isPessimistic h.pipelined h.presume .none _ hfuel).mono
      (Nat.le_refl 9) fun r hr => ?_)
    have hok := hr.isOk.2 hnone
    rw [hok]
    refine ⟨⟨fun _ => trivial, fun _ => rfl⟩, h.afterLock hr hnone
      (fun b => Buffer.isPessimistic_put b k v) (fun b => Buffer.presumed_put b k k v)
      (fun b _ hb => notPrewriteOnly_put hb v) (.put v) (holdsWrite_entryAfter (.inl rfl))
      (fun b hb _ => ?_) fun e he => simulates_put he v⟩
    rw [Buffer.entryMap_put, if_pos rfl, hb]
  | delete =>
    refine hcheck _ ((ends_lockAndChange h.isPessimistic h.pipelined h.presume .none _ hfuel).mono
      (Nat.le_refl 9) fun r hr => ?_)
    have hok := hr.isOk.2 hnone
    rw [hok]
    refine ⟨⟨fun _ => trivial, fun _ => rfl⟩, h.afterLock hr hnone
      (fun b => Buffer.isPessimistic_delete b k) (fun b => Buffer.presumed_delete b k k)
      (fun b hb _ => notPrewriteOnly_delete hb) .delete (fun e => ⟨.del, entryAfter_delete e, rfl⟩)
      (fun b hb hpresume => ?_) fun e _ => ?_⟩
    · rw [Buffer.entryMap_delete hpresume, if_pos rfl, hb]
    · rw [entryAfter_delete]
      rfl
  | insert v =>
    refine hcheck _ (ends_exec_get_bind ?_)
    split_ifs with hget
    · -- The buffer knows the key.
      have hview := h.get_isSome hget
      refine ends_ret ⟨⟨(nomatch ·), fun haccepted => ?_⟩, h⟩
      rw [haccepted.1] at hview
      cases hview
    · refine (ends_lockAndChange h.isPessimistic h.pipelined h.presume .notExist _ hfuel).mono
        (Nat.le_refl 9) fun r hr => ?_
      by_cases hrefused : IsRefused S k .notExist
      · have hok : r.1.isOk = false := by
          by_contra hok
          exact hr.isOk.1 (by simpa using hok) hrefused
        rw [hok]
        refine ⟨⟨(nomatch ·), fun haccepted => ?_⟩, h.of_refused hr hrefused⟩
        have hcommitted := hrefused.2
        rw [haccepted.2] at hcommitted
        cases hcommitted
      · have hcommitted : S[k]? = none := by
          by_contra hc
          exact hrefused ⟨rfl, Option.isSome_iff_ne_none.mpr hc⟩
        have hview : own.getD S[k]? = none := by
          by_contra hview
          have hsome := h.committed_isSome (by simpa using hget)
            (Option.isSome_iff_ne_none.mpr hview)
          rw [hcommitted] at hsome
          cases hsome
        rw [hr.isOk.2 hrefused]
        refine ⟨⟨fun _ => ⟨hview, hcommitted⟩, fun _ => rfl⟩, h.afterLock hr hrefused
          (fun b => Buffer.isPessimistic_insert b k v) (fun b => Buffer.presumed_insert b k k v)
          (fun b _ hb => notPrewriteOnly_insert hb v) (.insert v) (holdsWrite_entryAfter (.inr rfl))
          (fun b hb _ => ?_) fun e _ => simulates_insert hcommitted e v⟩
        rw [Buffer.entryMap_insert, if_pos rfl, hb]

/-- A new transaction has written nothing. -/
lemma new (S : Snapshot) (k : Key) (timestamp : ℕ) (options : TransactionOptions)
    (txnLatches : Bool) (hpess : options.isPessimistic = true)
    (hpipelined : options.pipelined = none) :
    KeyState S k none (Transaction.new timestamp options txnLatches) where
  isOpen := by
    unfold IsOpen Transaction.new
    dsimp only
    split_ifs <;> simp
  isPessimistic := hpess
  bufferIsPessimistic := hpess
  pipelined := by simp [Transaction.new, hpipelined]
  presume := (Buffer.plain_new _).noPresume k
  notPrewriteOnly := by simp [Transaction.new, Buffer.new, Buffer.keyFlags]
  written := (nomatch ·)
  simulates := by simp [Transaction.new, Buffer.new, Simulates]

end KeyState

/-! ## Histories -/

/-- **A history of operations on the key**: the operations that have returned and whether they
succeeded. -/
inductive WriteRun (S : Snapshot) (k : Key) (fuel : ℕ) (t₀ : Transaction) :
    List (WriteOp × Bool) → Transaction → Prop where
  | nil : WriteRun S k fuel t₀ [] t₀
  | snoc {hist : List (WriteOp × Bool)} {t t' : Transaction} {op : WriteOp} {r : Except Error Unit}
      {tr : Trace} (h : WriteRun S k fuel t₀ hist t)
      (hrun : Returns ((op.run fuel k).exec t) tr (r, t'))
      (hallowed : ∀ e ∈ tr, Event.Allowed (LockAnswers S) e) :
      WriteRun S k fuel t₀ (hist ++ [(op, r.isOk)]) t'

variable {t₀ : Transaction} {hist : List (WriteOp × Bool)}

lemma ownWrite_snoc (hist : List (WriteOp × Bool)) (x : WriteOp × Bool) :
    ownWrite (hist ++ [x]) = afterWrite (ownWrite hist) x := by
  simp [ownWrite, List.foldl_append]

/-- **Whole histories**: the state of the key is what the history says, and every operation
succeeded where it is accepted. -/
lemma WriteRun.keyState (h : WriteRun S k fuel t₀ hist t) (h₀ : KeyState S k none t₀)
    (hfuel : 4 ≤ fuel) : KeyState S k (ownWrite hist) t ∧ ∀ pre op isOk,
      pre ++ [(op, isOk)] <+: hist → (isOk = true ↔ IsAccepted S[k]? (ownWrite pre) op) := by
  induction h with
  | nil => exact ⟨h₀, fun pre op isOk hpre => by simp at hpre⟩
  | snoc h hrun hallowed ih =>
    obtain ⟨hstate, hinserts⟩ := ih
    obtain ⟨hok, hnext⟩ := (hstate.ends_run _ hfuel).of_returns hrun hallowed
    refine ⟨ownWrite_snoc _ _ ▸ hnext, fun pre op isOk hpre => ?_⟩
    rcases List.prefix_concat_iff.mp hpre with heq | hpre
    · obtain ⟨hhist, hlast⟩ := List.append_inj' heq rfl
      cases hlast
      rw [hhist]
      exact hok
    · exact hinserts pre op isOk hpre

/-- Every history goes on with any operation. -/
lemma WriteRun.exists_snoc (h : WriteRun S k fuel t₀ hist t) (h₀ : KeyState S k none t₀)
    (hfuel : 4 ≤ fuel) (op : WriteOp) : ∃ isOk t',
      WriteRun S k fuel t₀ (hist ++ [(op, isOk)]) t' ∧
        (isOk = true ↔ IsAccepted S[k]? (ownWrite hist) op) := by
  obtain ⟨hstate, -⟩ := h.keyState h₀ hfuel
  obtain ⟨tr, ⟨r, t'⟩, hrun, hallowed, hok, -⟩ :=
    (hstate.ends_run op hfuel).exists_returns (exists_lockAnswer S)
  exact ⟨r.isOk, t', h.snoc hrun hallowed, hok⟩

/-- Every insertion succeeded exactly if the transaction did not see the key. -/
def InsertsRespectView (committed : Option Value) (hist : List (WriteOp × Bool)) : Prop :=
  ∀ pre v isOk, pre ++ [(.insert v, isOk)] <+: hist → (isOk = true ↔ ownView committed pre = none)

/-- No insertion is called when the transaction has deleted a key that has a committed value. -/
def NoInsertOverDelete (committed : Option Value) (hist : List (WriteOp × Bool)) : Prop :=
  ∀ pre v isOk, pre ++ [(.insert v, isOk)] <+: hist →
    ¬ (ownWrite pre = some none ∧ committed.isSome = true)

/-- An insertion where the transaction does not see the key is accepted if TiKV does not see it
either. -/
lemma accepted_iff_of_view {committed : Option Value} {own : Option (Option Value)} {v : Value} :
    (IsAccepted committed own (.insert v) ↔ own.getD committed = none) ↔
      ¬ (own = some none ∧ committed.isSome = true) := by
  cases committed <;> rcases own with - | - | w <;> simp [IsAccepted]

/-- **Insertions respect the view of the transaction if, and only if, none is called over its own
deletion of a committed key.**  Every operation ends, and what is committed in the end is the
view: the mutation of the key makes it so, and a key that was written is one of those the commit
phase takes. -/
theorem inserts_respect_view_iff (h₀ : KeyState S k none t₀) (hfuel : 4 ≤ fuel)
    (hrun : WriteRun S k fuel t₀ hist t) :
    (InsertsRespectView S[k]? hist ↔ NoInsertOverDelete S[k]? hist) ∧
      (∀ level, t.buffer.commitOutcome level k S[k]? = some (ownView S[k]? hist)) ∧
      ((ownWrite hist).isSome = true → k ∈ t.commitKeys) ∧
      ∀ op : WriteOp, Ends (LockAnswers S) (fun _ => True) 9 ((op.run fuel k).exec t) := by
  obtain ⟨hstate, hinserts⟩ := hrun.keyState h₀ hfuel
  refine ⟨?_, fun level => Buffer.commitOutcome_of_simulates hstate.presume hstate.simulates level,
    fun hown => mem_commitKeys_of_holdsWrite (hstate.written hown) hstate.notPrewriteOnly _,
    fun op => (hstate.ends_run op hfuel).mono (Nat.le_refl 9) fun _ _ => trivial⟩
  refine forall_congr' fun pre => forall_congr' fun v => forall_congr' fun isOk =>
    forall_congr' fun hpre => ?_
  rw [hinserts pre _ isOk hpre]
  exact accepted_iff_of_view

/-- An absent key is deleted and then inserted. -/
theorem insert_after_delete_of_absent_key :
    ∃ t, WriteRun ∅ ⟨[107]⟩ 4 (Transaction.new 7 .newPessimistic false)
        [(.delete, true), (.insert [2], true)] t ∧
      InsertsRespectView none [(.delete, true), (.insert [2], true)] ∧
      (∀ level, t.buffer.commitOutcome level ⟨[107]⟩ none = some (some [2])) ∧
      ⟨[107]⟩ ∈ t.commitKeys := by
  have habsent : (∅ : Snapshot)[(⟨[107]⟩ : Key)]? = none := by simp
  have h₀ := KeyState.new ∅ ⟨[107]⟩ 7 .newPessimistic false rfl rfl
  obtain ⟨isOk, t₁, hrun₁, hok⟩ := WriteRun.nil.exists_snoc h₀ (Nat.le_refl 4) .delete
  obtain rfl : isOk = true := hok.2 trivial
  obtain ⟨isOk, t, hrun, hok⟩ := hrun₁.exists_snoc h₀ (Nat.le_refl 4) (.insert [2])
  obtain rfl : isOk = true := hok.2 ⟨rfl, habsent⟩
  obtain ⟨hiff, hcommit, hkeys, -⟩ := inserts_respect_view_iff h₀ (Nat.le_refl 4) hrun
  rw [habsent] at hiff hcommit
  exact ⟨t, hrun, hiff.2 (fun _ _ _ _ h => nomatch h.2), hcommit, hkeys rfl⟩

def oneCommitted : Snapshot := (∅ : Snapshot).insert ⟨[107]⟩ [1]

/-- A committed key is deleted and then inserted: the insertion fails although the transaction does
not see the key. -/
theorem insert_after_delete_fails :
    ∃ t, WriteRun oneCommitted ⟨[107]⟩ 4 (Transaction.new 7 .newPessimistic false)
        [(.delete, true), (.insert [2], false)] t ∧
      ownView oneCommitted[(⟨[107]⟩ : Key)]? [(.delete, true)] = none := by
  have hcommitted : oneCommitted[(⟨[107]⟩ : Key)]? = some [1] := by simp [oneCommitted]
  have h₀ := KeyState.new oneCommitted ⟨[107]⟩ 7 .newPessimistic false rfl rfl
  obtain ⟨isOk, t₁, hrun₁, hok⟩ := WriteRun.nil.exists_snoc h₀ (Nat.le_refl 4) .delete
  obtain rfl : isOk = true := hok.2 trivial
  obtain ⟨isOk, t, hrun, hok⟩ := hrun₁.exists_snoc h₀ (Nat.le_refl 4) (.insert [2])
  cases isOk with
  | false => exact ⟨t, hrun, rfl⟩
  | true =>
    have haccepted := (hok.1 rfl).2
    rw [hcommitted] at haccepted
    cases haccepted

end Transaction

end TikvClient
