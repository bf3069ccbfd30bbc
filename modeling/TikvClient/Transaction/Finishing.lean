import TikvClient.Transaction.Operations

/-!
# What ending a transaction may do

`commit` and `rollback` change nothing of a transaction but its status, and send requests that
name its start version and the primary chosen.  As for the operations, the calls are listed once
(`CommitCalls`, `CommitRespects`), and the `sat` and `triple` lemmas say that there are no others.
-/

namespace TikvClient

open Proto Prog StateProg

variable {C : Call → Prop} {A : Answers}

/-! ## The committer -/

/-- **The calls of a two-phase commit** with the primary `pk`. -/
structure CommitCalls (C : Call → Prop) (c : Committer) (pk : Key) : Prop where
  routing : Routing C
  getTimestamp : C .getTimestamp
  commitWaitTimedOut : C .commitWaitTimedOut
  elapsed : C .elapsed
  resolving : ∀ version, Resolving C version
  prewrite : ∀ region r, r.startVersion = c.startVersion → r.primaryLock = pk →
    (∀ m ∈ r.mutations, m ∈ c.prewriteMutations) → C (.rpc region (.prewrite r))
  commit : ∀ region r, r.startVersion = c.startVersion → r.primaryKey = some pk →
    (∀ k ∈ r.keys, k = pk) → C (.rpc region (.commit r))
  spawnSecondary : ∀ c' commitTs, c'.startVersion = c.startVersion →
    C (.spawn (.commitSecondary c' commitTs))

lemma sat_fetchCommitTimestamp (hts : C .getTimestamp) (htimeout : C .commitWaitTimedOut)
    (options : TransactionOptions) (fuel : ℕ) :
    (fetchCommitTimestamp options fuel).Sat C A fun _ => True := by
  induction fuel with
  | zero => exact sat_stuck
  | succ fuel ih =>
    refine Sat.andThen (Async.sat_getTimestamp hts) (fun ts _ => ?_) fun _ _ => trivial
    split
    · exact trivial
    · split_ifs
      · exact trivial
      · refine ⟨htimeout, fun (timedOut : Bool) _ => ?_⟩
        cases timedOut with
        | true => exact trivial
        | false => exact ih

namespace Committer

lemma prewriteRequest_fields (c : Committer) (pk : Key) (ms : ℕ) :
    (c.prewriteRequest pk ms).startVersion = c.startVersion ∧
      (c.prewriteRequest pk ms).primaryLock = pk ∧
      (c.prewriteRequest pk ms).mutations = c.prewriteMutations := by
  unfold prewriteRequest
  cases c.options.kind <;> exact ⟨rfl, rfl, rfl⟩

lemma prewriteFinish_committer {c c' : Committer} {responses : List PrewriteResponse}
    {ts : Option ℕ} (h : c.prewriteFinish responses = .ok (ts, c')) :
    ∃ options, c' = { c with options := options } := by
  have haggregate : ∀ {o : TransactionOptions} {rs : List PrewriteResponse},
      ({ c with options := o } : Committer).aggregateResponses rs = .ok (ts, c') →
      ∃ options, c' = { c with options := options } := by
    intro o rs h
    unfold aggregateResponses at h
    split_ifs at h
    cases h
    exact ⟨_, rfl⟩
  unfold prewriteFinish at h
  split at h
  · split_ifs at h
    · cases h
      exact ⟨c.options, rfl⟩
    · exact haggregate h
  · exact haggregate (o := c.options) h

end Committer

namespace CommitCalls

variable {c : Committer} {pk : Key} (h : CommitCalls C c pk)
include h

lemma sat_prewriteAll (fuel ms : ℕ) :
    (c.prewriteAll fuel (c.prewriteRequest pk ms)).Sat C A fun _ => True := by
  have hsends := sends_prewrite (A := A) h.routing
    (I := fun r => r.startVersion = c.startVersion ∧ r.primaryLock = pk ∧
      ∀ m ∈ r.mutations, m ∈ c.prewriteMutations)
    (fun r s hr hs => ⟨hr.1, hr.2.1, fun m hm =>
      hr.2.2 m ((perm_sortByKey _ _).mem_iff.mp (hs.isInfix.subset hm))⟩)
    (fun _ _ hr => hr) fun region r hr => h.prewrite region r hr.1 hr.2.1 hr.2.2
  obtain ⟨hstart, hprimary, hmutations⟩ := c.prewriteRequest_fields pk ms
  exact Sat.andThen (hsends.sat_executeShards h.routing h.getTimestamp
    (fun _ _ _ _ _ _ => h.resolving _) fuel _
    (hsends.shards _ ⟨hstart, hprimary, fun m hm => hmutations ▸ hm⟩)) (fun _ _ => trivial)
    fun _ _ => trivial

lemma sat_prewrite (hpk : c.primaryKey = some pk) (fuel : ℕ) :
    (c.prewrite fuel).Sat C A fun res => ∀ ts c', res = .ok (ts, c') →
      ∃ options, c' = { c with options := options } := by
  unfold Committer.prewrite
  split
  · exact fun _ _ h => by cases h
  next pk' hpk' =>
    obtain rfl : pk' = pk := Option.some.inj (hpk'.symm.trans hpk)
    refine ⟨h.elapsed, fun ms _ => (h.sat_prewriteAll fuel ms).bind fun res _ => ?_⟩
    cases res with
    | error e => exact fun _ _ h => by cases h
    | ok leaves => exact fun ts c' h => Committer.prewriteFinish_committer h

lemma sat_commitPlan (fuel : ℕ) (retryOptions : RetryOptions) (commitVersion : ℕ) :
    (executePlan Dispatch.commit fuel retryOptions
      (newCommitRequestWithPrimaryKey [pk] (some pk) c.startVersion commitVersion)).Sat C A
      fun _ => True := by
  have hsends := sends_commit (A := A) h.routing
    (I := fun r => r.startVersion = c.startVersion ∧ r.primaryKey = some pk ∧
      ∀ k ∈ r.keys, k = pk)
    (fun _ _ hr _ hpart => ⟨hr.1, hr.2.1, fun k hk => hr.2.2 k (hpart k hk)⟩)
    fun region r hr => h.commit region r hr.1 hr.2.1 hr.2.2
  exact (hsends.sat_executePlan h.routing h.getTimestamp (fun _ _ _ _ _ _ => h.resolving _) fuel _
    ⟨rfl, rfl, fun k hk => List.mem_singleton.mp hk⟩).post fun _ _ => trivial

lemma sat_commitPrimaryChecked (hpk : c.primaryKey = some pk) (options : TransactionOptions)
    (fuel : ℕ) :
    (({ c with options := options } : Committer).commitPrimaryChecked fuel).Sat C A
      fun _ => True := by
  refine Sat.bind (Q := fun _ => True) ?_ fun res _ => ?_
  · refine (sat_fetchCommitTimestamp h.getTimestamp h.commitWaitTimedOut options fuel).bind
      fun res _ => ?_
    cases res with
    | error e => exact trivial
    | ok commitVersion =>
      have hplan := h.sat_commitPlan (A := A) fuel options.retryOptions commitVersion
      simp only [hpk, Option.toList_some]
      refine hplan.bind fun res _ => ?_
      cases res <;> exact trivial
  · rcases res with ⟨e, undetermined⟩ | commitTs
    · dsimp only
      split_ifs <;> exact trivial
    · exact trivial

/-- **`Committer::commit` makes only these calls.** -/
theorem sat_commit (hpk : c.primaryKey = some pk) (fuel : ℕ) :
    (c.commit fuel).Sat C A fun _ => True := by
  refine Sat.andThen (h.sat_prewrite hpk fuel) (fun r hr => ?_) fun _ _ => trivial
  obtain ⟨options, hc'⟩ := hr r.1 r.2 rfl
  have hfinish : ∀ options commitTs,
      (({ c with options := options } : Committer).finishCommit commitTs).Sat C A fun _ => True :=
    fun options commitTs => ⟨h.spawnSecondary _ _ rfl, fun _ _ => trivial⟩
  have hsecond : ∀ options : TransactionOptions,
      ((({ c with options := options } : Committer).commitPrimaryChecked fuel).andThen fun commitTs =>
        ({ c with options := options } : Committer).finishCommit commitTs).Sat C A fun _ => True :=
    fun options => Sat.andThen (h.sat_commitPrimaryChecked hpk options fuel)
      (fun commitTs _ => hfinish options commitTs) fun _ _ => trivial
  rw [hc']
  unfold Committer.commitAfterPrewrite
  split_ifs
  · exact trivial
  · split
    · exact hfinish _ _
    · exact hsecond _
  · exact hsecond _

end CommitCalls

/-! ## The transaction -/

namespace Transaction

/-- The calls of `commit` in two phases, with the primary `pk`. -/
structure CommitRespects (C : Call → Prop) (t : Transaction) (pk : Key) : Prop where
  calls : CommitCalls C (t.committer (some pk)) pk
  latch : C (.latch t.timestamp t.commitKeys)
  spawnHeartbeat : C (.spawn (.heartbeat t.timestamp pk t.options.retryOptions.regionBackoff))

/-- Nothing but the status and the heartbeat flag of the transaction changed. -/
structure SameData (t t' : Transaction) : Prop where
  timestamp : t'.timestamp = t.timestamp
  buffer : t'.buffer = t.buffer
  options : t'.options = t.options
  pipelined : t'.pipelined = t.pipelined
  hasPessimisticLock : t'.hasPessimisticLock = t.hasPessimisticLock

lemma SameData.refl (t : Transaction) : SameData t t := ⟨rfl, rfl, rfl, rfl, rfl⟩

/-- The transaction `t` after it was ended, or tried to be. -/
def Ended (t t' : Transaction) : Prop := SameData t t' ∧ ¬ t'.IsOpen

lemma Ended.setStatus {t t' : Transaction} (h : Ended t t') {status : TransactionStatus}
    (hstatus : status ≠ .readOnly ∧ status ≠ .active) :
    Ended t { t' with status := status } := by
  refine ⟨⟨h.1.timestamp, h.1.buffer, h.1.options, h.1.pipelined, h.1.hasPessimisticLock⟩, ?_⟩
  rintro (hst | hst)
  · exact hstatus.1 hst
  · exact hstatus.2 hst

variable {t₀ t : Transaction} {pk : Key}

lemma triple_setStatus_pure {α : Type} {status : TransactionStatus} (a : α)
    (hstatus : status ≠ .readOnly ∧ status ≠ .active) :
    Triple C A (Ended t₀) (do
      setStatus status
      pure a : TxnM α) fun _ => Ended t₀ :=
  fun _ ht => ht.setStatus hstatus

lemma triple_acquireLatches (hC : C (.latch t.timestamp t.commitKeys)) (ht : Ended t₀ t) :
    Triple C A (· = t) acquireLatches fun r t' => Ended t₀ t' ∧ ∀ u, r = .ok u → t' = t := by
  refine Triple.get_bind fun s hs => ?_
  subst hs
  split_ifs
  · exact Triple.pure fun _ hs => ⟨hs ▸ ht, fun _ _ => hs⟩
  · refine Triple.bind (Q := fun _ t' => t' = s)
      (Triple.ofCall (sat_ask (S := sig) hC |>.post fun _ _ => trivial) fun _ _ hs _ => hs)
      (fun stale => ?_) fun _ _ hs => ⟨hs ▸ ht, fun _ h => by cases h⟩
    split_ifs
    · exact Triple.throw fun _ hs => ⟨hs ▸ ht, fun _ h => by cases h⟩
    · exact Triple.pure fun _ hs => ⟨hs ▸ ht, fun _ _ => hs⟩

lemma triple_startAutoHeartbeat
    (hC : C (.spawn (.heartbeat t.timestamp pk t.options.retryOptions.regionBackoff)))
    (ht : Ended t₀ t) :
    Triple C A (· = t) (startAutoHeartbeat pk) fun _ => Ended t₀ := by
  refine Triple.get_bind fun s hs => ?_
  subst hs
  split_ifs
  · exact Triple.pure fun _ hs => hs ▸ ht
  · rintro _ rfl
    rw [exec_bind]
    exact ⟨hC, fun _ _ => ⟨⟨ht.1.timestamp, ht.1.buffer, ht.1.options, ht.1.pipelined,
      ht.1.hasPessimisticLock⟩, ht.2⟩⟩

/-- A program of the committer and the status after it. -/
lemma triple_ofProg_setStatus {α β : Type} {p : AsyncResult α} (hp : p.Sat C A fun _ => True)
    {status : TransactionStatus} (f : α → β)
    (hstatus : status ≠ .readOnly ∧ status ≠ .active) :
    Triple C A (Ended t₀) (do
      let a ← StateProg.ofProg p
      setStatus status
      pure (f a) : TxnM β) fun _ => Ended t₀ :=
  Triple.bind (Triple.ofProg hp fun _ _ hs _ => hs)
    (fun a => triple_setStatus_pure (f a) hstatus) fun _ _ hs => hs

/-- **The two-phase branch of `commit`.** -/
lemma triple_commitTwoPhase (h : CommitRespects C t pk) (ht : Ended t₀ t) (fuel : ℕ) :
    Triple C A (· = t) (commitTwoPhase fuel pk) fun _ => Ended t₀ := by
  refine Triple.get_bind fun s hs => ?_
  subst hs
  have hkeep : ∀ s', s' = s → Ended t₀ s' := fun s' hs => hs ▸ ht
  split_ifs
  · exact (triple_ofProg_setStatus ((h.calls.sat_prewrite rfl fuel).post fun _ _ => trivial)
      (fun _ => none) (by simp)).conseq hkeep fun _ _ hs => hs
  · refine Triple.bind (triple_acquireLatches h.latch ht) (fun u => ?_) fun _ _ hs => hs.1
    refine Triple.bind ((triple_startAutoHeartbeat h.spawnHeartbeat ht).conseq
      (fun s' hs' => hs'.2 u rfl) fun _ _ hs => hs) (fun _ => ?_) fun _ _ hs => hs
    exact triple_ofProg_setStatus (h.calls.sat_commit rfl fuel) id (by simp)

/-- The primary `commit` works with. -/
def chosenPrimary (t : Transaction) : Option Key :=
  t.prewriteMutations.head?.map fun first => t.commitPrimaryKey.getD first.key

/-- The first step of `commit` and `rollback`: on the way to an end, or refused. -/
lemma triple_transitStatus (allowed : List TransactionStatus) (next : TransactionStatus) :
    Triple C A (· = t) (transitStatus allowed next) fun r t' =>
      (∀ e, r = .error e → t' = t ∧ t.status ∉ allowed) ∧
        ∀ u, r = .ok u → t' = { t with status := next } ∧ t.status ∈ allowed := by
  rintro s rfl
  by_cases hallowed : s.status ∈ allowed
  · rw [exec_transitStatus_of_mem hallowed]
    exact ⟨fun _ h => (by cases h), fun _ _ => ⟨rfl, hallowed⟩⟩
  · rw [exec_transitStatus_of_not_mem hallowed]
    exact ⟨fun _ _ => ⟨rfl, hallowed⟩, fun _ h => by cases h⟩

lemma ended_transit (t : Transaction) {next : TransactionStatus}
    (hnext : next ≠ .readOnly ∧ next ≠ .active) : Ended t { t with status := next } := by
  refine ⟨⟨rfl, rfl, rfl, rfl, rfl⟩, ?_⟩
  rintro (hst | hst)
  · exact hnext.1 hst
  · exact hnext.2 hst

/-- `commit` may be called: for the first time, or again. -/
def CanCommit (t : Transaction) : Prop := t.status ∈ [TransactionStatus.startedCommit, .active]

/-- **`commit` of a transaction that is not pipelined**: refused, or on the way to an end. -/
theorem triple_commit (hnp : t.options.isPipelined = false)
    (h : t.CanCommit → ∀ pk ∈ t.chosenPrimary, CommitRespects C t pk) (fuel : ℕ) :
    Triple C A (· = t) (commit fuel) fun _ t' =>
      (t' = t ∧ ¬ t.CanCommit) ∨ (Ended t t' ∧ t.CanCommit) := by
  refine Triple.bind (triple_transitStatus _ _) (fun u => ?_)
    fun e _ hs => .inl (hs.1 e rfl)
  refine Triple.get_bind fun s hs => ?_
  obtain ⟨rfl, hcan⟩ := hs.2 u rfl
  have hended : Ended t { t with status := .startedCommit } := ended_transit t (by simp)
  split
  · split_ifs
    · exact Triple.pure fun _ hs => .inr ⟨hs ▸ hended, hcan⟩
    · exact Triple.throw fun _ hs => .inr ⟨hs ▸ hended, hcan⟩
  next first rest hmutations =>
    have hpk : t.commitPrimaryKey.getD first.key ∈ t.chosenPrimary := by
      have hmutations : t.prewriteMutations = first :: rest := hmutations
      simp [chosenPrimary, hmutations]
    have hr := h hcan _ hpk
    have hcalls : CommitRespects C { t with status := .startedCommit }
        (t.commitPrimaryKey.getD first.key) := ⟨hr.calls, hr.latch, hr.spawnHeartbeat⟩
    simp only [hnp, Bool.false_eq_true, if_false]
    exact (triple_commitTwoPhase hcalls hended fuel).conseq (fun _ hs => hs)
      fun _ _ hs => .inr ⟨hs, hcan⟩

/-! ### Rollback -/

/-- The calls of `rollback`. -/
structure RollbackRespects (C : Call → Prop) (t : Transaction) : Prop where
  routing : Routing C
  getTimestamp : C .getTimestamp
  resolving : ∀ version, Resolving C version
  batchRollback : ∀ region r, r.startVersion = t.timestamp → C (.rpc region (.batchRollback r))
  pessimisticRollback : ∀ region r, r.startVersion = t.timestamp →
    C (.rpc region (.pessimisticRollback r))

/-- The rollback of a key was answered without an error. -/
def RollbackAnswered (A : Answers) (timestamp : ℕ) (key : Key) : Prop :=
  ∃ region r, ∃ resp : BatchRollbackResponse,
    A (.rpc region (.batchRollback r)) (.ok resp) ∧ r.startVersion = timestamp ∧ key ∈ r.keys ∧
      resp.error = none ∧ resp.regionError = none

lemma RollbackRespects.sat_rollback (h : RollbackRespects C t) (fuel : ℕ) :
    ((t.committer t.buffer.primaryKey).rollback fuel).Sat C A fun res => res = .ok () →
      t.options.kind = .optimistic → ∀ k ∈ t.commitKeys, RollbackAnswered A t.timestamp k := by
  unfold Committer.rollback
  split_ifs with hempty
  · intro _ _ k hk
    rw [List.isEmpty_iff] at hempty
    rw [show t.commitKeys = [] from hempty] at hk
    cases hk
  · split
    · have hsends := sends_batchRollback (A := A) h.routing
        (I := fun r => r.startVersion = t.timestamp) (fun _ _ hr _ _ => hr) h.batchRollback
      refine Sat.andThen (hsends.sat_executePlan h.routing h.getTimestamp
        (fun _ _ _ _ _ _ => h.resolving _) fuel _ rfl) (fun leaves hleaves _ _ k hk => ?_)
        fun _ _ h => by cases h
      have hcov := hleaves leaves rfl
      obtain ⟨⟨r, resp⟩, hleaf, hkr⟩ :=
        List.mem_flatMap.mp ((hcov.part.perm trivial).mem_iff.mpr hk)
      obtain ⟨hstart, ⟨region, hanswer⟩, herr, hregion⟩ := hcov.done _ hleaf
      refine ⟨region, r, resp, hanswer, hstart, hkr, ?_, hregion⟩
      cases herror : resp.error with
      | none => rfl
      | some e =>
        simp [Dispatch.batchRollback, herror] at herr
    next forUpdateTs hkind =>
      have hsends := sends_pessimisticRollback (A := A) h.routing
        (I := fun r => r.startVersion = t.timestamp) (fun _ _ hr _ _ => hr) h.pessimisticRollback
      refine Sat.andThen (hsends.sat_executePlan h.routing h.getTimestamp
        (fun _ _ _ _ _ _ => h.resolving _) fuel _ rfl) (fun leaves _ _ hopt => ?_)
        fun _ _ h => by cases h
      rw [show t.options.kind = _ from hkind] at hopt
      cases hopt

/-- **`rollback` of a transaction that is not pipelined.** -/
theorem triple_rollback (hnp : t.options.isPipelined = false) (h : RollbackRespects C t)
    (fuel : ℕ) :
    Triple C A (· = t) (rollback fuel) fun r t' => (t' = t ∨ Ended t t') ∧
      (r = .ok () → t.options.kind = .optimistic →
        ∀ k ∈ t.commitKeys, RollbackAnswered A t.timestamp k) := by
  refine Triple.bind (triple_transitStatus _ _) (fun u => ?_)
    fun e _ hs => ⟨.inl (hs.1 e rfl).1, fun h => by cases h⟩
  refine Triple.get_bind fun s hs => ?_
  obtain ⟨rfl, -⟩ := hs.2 u rfl
  have hended : Ended t { t with status := .startedRollback } := ended_transit t (by simp)
  simp only [hnp, Bool.false_eq_true, if_false]
  split_ifs with hempty
  · rintro _ rfl
    refine ⟨.inr (hended.setStatus (by simp)), fun _ _ k hk => ?_⟩
    rw [List.isEmpty_iff] at hempty
    rw [show t.commitKeys = [] from hempty] at hk
    cases hk
  · have hcalls : RollbackRespects C { t with status := .startedRollback } :=
      ⟨h.routing, h.getTimestamp, h.resolving, h.batchRollback, h.pessimisticRollback⟩
    refine Triple.bind (Q := fun r t' => Ended t t' ∧ (r = .ok () →
      t.options.kind = .optimistic → ∀ k ∈ t.commitKeys, RollbackAnswered A t.timestamp k))
      (Triple.ofProg (hcalls.sat_rollback fuel) ?_) (fun u => ?_) fun _ _ hs => ⟨.inr hs.1, hs.2⟩
    · rintro r _ rfl hr
      exact ⟨hended, hr⟩
    · rintro s hs
      exact ⟨.inr (hs.1.setStatus (by simp)), fun _ => hs.2 rfl⟩

end Transaction

end TikvClient
