import TikvClient.Core.Grants
import TikvClient.Request.PlanErrors
import TikvClient.Transaction.AsyncRecovery

/-!
# Falling back from async commit

An async-commit transaction that has a lock without async commit fell back to two-phase commit, and
its primary may be rolled back.  `cleanup_locks` finds out from the secondary locks, and then checks
the status of the primary again, this time with `force_sync_commit`.

**The status that is remembered.**  `check_txn_status` first looks for a status of the transaction
in the context.  When the first, unforced answer was kept there, the second check returns it again:
no request is sent, the transaction is still locked, and `cleanup_locks` fails.  The answer is kept
exactly if it is an expired lock with one of three actions, so `fallback_forced_iff` is about the
clock.
-/

namespace TikvClient

open Proto Prog

/-! ## The second check -/

namespace LockResolver

/-- The check of the primary of a lock, without or with `force_sync_commit`. -/
def checkPrimary (fuel : ℕ) (l : LockInfo) (forceSyncCommit : Bool) :
    AsyncResult Requests.TransactionStatus :=
  checkTxnStatus fuel l.lockVersion l.primaryLock 0 u64Max true forceSyncCommit
    (l.lockType == .pessimisticLock)

/-- The second check, and what follows from it. -/
def recheck (fuel : ℕ) (l : LockInfo) : AsyncResult ℕ :=
  (checkPrimary fuel l true).andThen fun status => .ret (outcome status)

/-- **A run in which the fallback is found**: the events up to there, and those after it. -/
def FallbackRun (fuel : ℕ) (l : LockInfo) (before after : Trace) (res : Except Error ℕ) :
    Prop :=
  ∃ tr₁ tr₂ status ttl lock secondaries, before = tr₁ ++ tr₂ ∧
    Returns (checkPrimary fuel l false) tr₁ (.ok status) ∧ status.kind = .locked ttl lock ∧
    Returns (checkAllSecondaries fuel lock.secondaries l.lockVersion lock.minCommitTs) tr₂
      (.ok secondaries) ∧ secondaries.fallback2pc = true ∧
    Returns (recheck fuel l) after res

/-- It is a run of the loop body of `cleanup_locks`. -/
lemma FallbackRun.returns {fuel : ℕ} {l : LockInfo} {before after : Trace}
    {res : Except Error ℕ} (h : FallbackRun fuel l before after res) :
    Returns (checkOutcome fuel l) (before ++ after) res := by
  obtain ⟨tr₁, tr₂, status, ttl, lock, secondaries, rfl, hfirst, hlocked, hsecondaries, hfell,
    hafter⟩ := h
  rw [List.append_assoc]
  refine returns_andThen_iff.mpr (.inl ⟨tr₁, tr₂ ++ after, status, rfl, hfirst, ?_⟩)
  simp only [hlocked]
  refine returns_andThen_iff.mpr (.inl ⟨tr₂, after, secondaries, rfl, hsecondaries, ?_⟩)
  simp only [hfell, if_true]
  exact hafter

end LockResolver

/-! ## TiKV, PD and the context -/

/-- Anything but `Error::ResolveLockError`. -/
def NotLive (e : Error) : Prop := ∀ locks, e ≠ .resolveLockError locks

/-- The transaction is committed or rolled back. -/
def Proto.CheckTxnStatusResponse.Decided (resp : CheckTxnStatusResponse) : Prop :=
  resp.commitVersion ≠ 0 ∨ resp.lockInfo = none

/-- What TiKV says about the primary when it is not forced, and the timestamps PD may return. -/
structure StatusInputs where
  first : CheckTxnStatusResponse
  times : Set ℕ

/-- How calls are answered.  A primary asked with `force_sync_commit` and the largest timestamp is
rolled back, or its final status reported. -/
def StatusAnswer (x : StatusInputs) : Answers
  | .regionForKey _, ans => ∀ e, ans = .error e → NotLive e
  | .mapRegionToStore _, ans => ∀ e, ans = .error e → NotLive e
  | .updateLeader _ _, ans => ∀ e, ans = .error e → NotLive e
  | .getTimestamp, ans => (∀ ts : ℕ, ans = .ok ts → ts ∈ x.times) ∧ ∀ e, ans = .error e → NotLive e
  | .gcRpc _ (.checkTxnStatus r), ans => (∀ resp : CheckTxnStatusResponse, ans = .ok resp →
      resp.error = none → resp.regionError = none →
        (r.forceSyncCommit = true → r.currentTs = u64Max → resp.Decided) ∧
        (r.forceSyncCommit = false →
          Requests.TransactionStatus.ofResponse resp = .ofResponse x.first)) ∧
      ∀ e, ans = .error e → NotLive e
  | .gcRpc _ (.checkSecondaryLocks _), ans => ∀ e, ans = .error e → NotLive e
  | _, _ => True

/-- A lookup in the context finds what is kept there. -/
def Remembered (txnId : ℕ) (known : Option Requests.TransactionStatus) : Answers
  | .getResolved t, ans => t = txnId → ans = known
  | _, _ => True

def knownAfter (txnId : ℕ) (known : Option Requests.TransactionStatus) :
    Call → Option Requests.TransactionStatus
  | .saveResolved t status => if t = txnId then some status else known
  | _ => known

/-- **The environment of a check**; its state is what the context knows of the transaction. -/
def statusServer (x : StatusInputs) (txnId : ℕ) : Env sig (Option Requests.TransactionStatus) where
  reply known c ans known' :=
    StatusAnswer x c ans ∧ Remembered txnId known c ans ∧ known' = knownAfter txnId known c
  dropped known _ known' := known' = known
  rely known known' := known' = known

/-- **After a fallback, the transaction is decided by a forced answer**: `cleanup_locks` does not
fail because the transaction is locked, and the outcome it goes on with is that of a response to a
request with `force_sync_commit`, sent after the fallback was found. -/
def ActsOnForced (x : StatusInputs) (known : Option Requests.TransactionStatus) (l : LockInfo) :
    Prop :=
  ∀ fuel before after w w' res, LockResolver.FallbackRun fuel l before after res →
    (statusServer x l.lockVersion).Run known before w →
    (statusServer x l.lockVersion).Run w after w' →
    FailsIn NotLive res ∧ ∀ v, res = .ok v → ∃ region r resp,
      .answered (S := sig) (.gcRpc region (.checkTxnStatus r)) (.ok resp) ∈ after ∧
        r.lockTs = l.lockVersion ∧ r.forceSyncCommit = true ∧ r.currentTs = u64Max ∧
        LockResolver.outcome (.ofResponse resp) = .ok v

/-! ## Asking TiKV -/

section Asking

variable {x : StatusInputs} {txnId : ℕ} {known w w' : Option Requests.TransactionStatus}
  {tr : Trace}

/-- The answers in a run. -/
abbrev GivenIn (x : StatusInputs) (tr : Trace) (c : Call) (ans : c.Ans) : Prop :=
  StatusAnswer x c ans ∧ InTrace (S := sig) tr c ans

lemma allowed_of_run (h : (statusServer x txnId).Run w tr w') :
    ∀ e ∈ tr, Event.Allowed (GivenIn x tr) e := by
  intro e he
  cases e with
  | answered c ans =>
    obtain ⟨w₁, w₂, tr₂, hreply, -⟩ := h.exists_reply he
    exact ⟨hreply.1, he⟩
  | dropped cs => trivial

/-- A call that leaves the statuses of the context alone. -/
def NoSave : Call → Prop
  | .saveResolved _ _ => False
  | _ => True

lemma known_of_run (h : (statusServer x txnId).Run w tr w')
    (hsave : ∀ e ∈ tr, Event.Made NoSave e) : w' = w := by
  have hkeeps : (statusServer x txnId).Preserves NoSave fun v => v = w :=
    { reply := by
        rintro v c ans v' hc ⟨-, -, hv'⟩ rfl
        rw [hv']
        cases c with
        | saveResolved t status => exact absurd hc id
        | _ => rfl
      dropped := fun _ hd hv => hd.trans hv
      rely := fun hr hv => hr.trans hv }
  exact hkeeps.run h hsave rfl

variable {R Resp : Type}

lemma collectSingle_ok {results : ShardResults R Resp} {leaf : R × Resp}
    (h : collectSingle results = .ok leaf) : leaf ∈ okLeaves results := by
  unfold collectSingle at h
  split at h
  · exact mem_okLeaves.mpr (h ▸ List.mem_singleton_self _)
  · cases h

/-- A plan that only sends requests of a garbage collection does not fail with live locks. -/
lemma failsWith_notLive {Shard : Type} {plan : ShardedPlan R Shard Resp} {C : Call → Prop}
    (hC : Routing C) (hshards : ∀ r, (plan.shards r).Sat C (GivenIn x tr) (FailsIn NotLive))
    (hexecute : ∀ region r, (plan.execute region r).Sat C (GivenIn x tr) (FailsIn NotLive)) :
    plan.FailsWith C (GivenIn x tr) NotLive where
  shards := hshards
  execute region r := (hexecute region r).post fun _ hres => ⟨hres, fun _ _ _ _ _ h => by cases h⟩
  routing := hC
  mapRegionToStore _ _ hans := hans.1
  updateLeader _ _ _ hans := hans.1
  leaderNotFound _ _ h := by cases h
  regionError _ _ h := by cases h

namespace LockResolver

/-- The part of a check that asks TiKV. -/
def askPrimary (fuel : ℕ) (l : LockInfo) (forceSyncCommit : Bool) :
    AsyncResult Requests.TransactionStatus :=
  (checkTxnStatusPlan.retryMultiRegion false fuel
    (newCheckTxnStatusRequest l.primaryLock l.lockVersion 0 u64Max true forceSyncCommit
      (l.lockType == .pessimisticLock)) .defaultRegionBackoff).andThen fun results =>
  match collectSingle results with
  | .error e => .ret (.error e)
  | .ok (_, resp) =>
    Async.getTimestamp.andThen fun current =>
    let status := (Requests.TransactionStatus.ofResponse resp).checkTtl current
    if status.isCacheable then
      (Async.saveResolved l.lockVersion status).bind fun _ => .ret (.ok status)
    else .ret (.ok status)

/-- What a check does with what it finds in the context. -/
def afterLookup (fuel : ℕ) (l : LockInfo) (forceSyncCommit : Bool) :
    Option Requests.TransactionStatus → AsyncResult Requests.TransactionStatus
  | some status => .ret (.ok status)
  | none => askPrimary fuel l forceSyncCommit

lemma checkPrimary_eq (fuel : ℕ) (l : LockInfo) (forceSyncCommit : Bool) :
    checkPrimary fuel l forceSyncCommit =
      .call (S := sig) (.getResolved l.lockVersion) (afterLookup fuel l forceSyncCommit) := by
  refine congrArg (Prog.call (S := sig) (.getResolved l.lockVersion)) (funext fun known => ?_)
  cases known <;> rfl

variable {fuel : ℕ} {l : LockInfo}

lemma run_checkPrimary {forceSyncCommit : Bool} {res : Except Error Requests.TransactionStatus}
    (hreturns : Returns (checkPrimary fuel l forceSyncCommit) tr res)
    (hrun : (statusServer x l.lockVersion).Run known tr w') :
    ∃ rest, tr = .answered (S := sig) (.getResolved l.lockVersion) known :: rest ∧
      Returns (afterLookup fuel l forceSyncCommit known) rest res ∧
      (statusServer x l.lockVersion).Run known rest w' := by
  rw [checkPrimary_eq] at hreturns
  obtain ⟨found, rest, rfl, hrest⟩ := returns_call_iff.mp hreturns
  obtain ⟨w₁, w₂, hidle, ⟨-, hremembered, hw₂⟩, hrunRest⟩ := hrun.answered_inv
  obtain rfl : w₁ = known := known_of_run hidle fun e he => absurd he List.not_mem_nil
  obtain rfl : found = w₁ := hremembered rfl
  obtain rfl : w₂ = found := hw₂
  exact ⟨rest, rfl, hrest, hrunRest⟩

/-- A response that TiKV gave in the run to the question. -/
def AnsweredBy (x : StatusInputs) (tr : Trace) (l : LockInfo) (forceSyncCommit : Bool)
    (resp : CheckTxnStatusResponse) : Prop :=
  (∃ region r, .answered (S := sig) (.gcRpc region (.checkTxnStatus r)) (.ok resp) ∈ tr ∧
    r.lockTs = l.lockVersion ∧ r.forceSyncCommit = forceSyncCommit ∧ r.currentTs = u64Max) ∧
  (forceSyncCommit = true → resp.Decided) ∧
  (forceSyncCommit = false → Requests.TransactionStatus.ofResponse resp = .ofResponse x.first)

/-- The responses among the results of the plan are TiKV's, and its errors are no live locks. -/
lemma sat_checkTxnStatusPlan (fuel : ℕ) (l : LockInfo) (forceSyncCommit : Bool) {C : Call → Prop}
    (hC : Routing C) (hrpc : ∀ region r, C (.gcRpc region r)) :
    (checkTxnStatusPlan.retryMultiRegion false fuel
      (newCheckTxnStatusRequest l.primaryLock l.lockVersion 0 u64Max true forceSyncCommit
        (l.lockType == .pessimisticLock)) .defaultRegionBackoff).Sat C (GivenIn x tr) fun res =>
        ShardedPlan.ErrorsIn NotLive res ∧ ∀ results, res = .ok results →
          ∀ leaf ∈ okLeaves results, AnsweredBy x tr l forceSyncCommit leaf.2 := by
  have hsent : ∀ region r, (Async.gcRpc region (.checkTxnStatus r)).Sat C (GivenIn x tr)
      (FailsIn NotLive) :=
    fun region r => (Async.sat_gcRpc (hrpc _ _)).post fun ans hans => hans.1.2
  have herrors : checkTxnStatusPlan.FailsWith C (GivenIn x tr) NotLive :=
    failsWith_notLive hC (fun r => sat_regionStreamForKeys_errors hC.regionForKey
      (fun _ _ hans => hans.1) id _) hsent
  let Asked (r : CheckTxnStatusRequest) : Prop :=
    r.lockTs = l.lockVersion ∧ r.forceSyncCommit = forceSyncCommit ∧ r.currentTs = u64Max
  have hdone : ∀ region r, Asked r → (Async.gcRpc region (.checkTxnStatus r)).Sat C (GivenIn x tr)
      fun res => ∀ resp, res = .ok resp → checkTxnStatusPlan.keyErrors resp = none →
        checkTxnStatusPlan.regionError resp = none → AnsweredBy x tr l forceSyncCommit resp := by
    intro region r hr
    refine (Async.sat_gcRpc (hrpc _ _)).post fun ans hans resp hresp hkey hregion => ?_
    subst hresp
    have herr := Option.toList_eq_nil_iff.mp (extractErrors_eq_none hkey)
    have hanswer := hans.1.1 resp rfl herr hregion
    refine ⟨⟨region, r, hans.2, hr⟩, fun hforce => ?_, fun hforce => ?_⟩
    · exact hanswer.1 (hr.2.1.trans hforce) hr.2.2
    · exact hanswer.2 (hr.2.1.trans hforce)
  have hasked : checkTxnStatusPlan.Covering C (GivenIn x tr) (fun _ => ([] : List Unit)) Asked
      (fun _ resp => AnsweredBy x tr l forceSyncCommit resp) True :=
    { shards := fun r hr => (sat_regionRuns hC id _).post fun res _ ss _ =>
        ⟨fun _ _ => hr, .of_perm (by simp)⟩
      applyStore := fun _ r hr => ⟨hr, rfl⟩
      execute := hdone
      mapRegionToStore := hC.mapRegionToStore
      updateLeader := hC.updateLeader }
  refine Sat.post (Sat.and (herrors.sat_singlePlanHandler false fuel _ _ 0)
    (hasked.sat_singlePlanHandler false fuel _ _ 0 ⟨rfl, rfl, rfl⟩)) fun res hres => ?_
  exact ⟨hres.1, fun results h leaf hleaf => ((hres.2 results h).done leaf hleaf).2⟩

/-- A status that the context may keep of the first answer. -/
def Kept (x : StatusInputs) (status : Requests.TransactionStatus) : Prop :=
  status.isCacheable = true ∧
    ∃ ts ∈ x.times, status = (Requests.TransactionStatus.ofResponse x.first).checkTtl ts

def Saves (x : StatusInputs) (forceSyncCommit : Bool) : Call → Prop
  | .saveResolved _ status => forceSyncCommit = false → Kept x status
  | _ => True

/-- **Asking TiKV**: the status is that of its response at a timestamp of PD. -/
lemma sat_askPrimary (fuel : ℕ) (l : LockInfo) (forceSyncCommit : Bool) :
    (askPrimary fuel l forceSyncCommit).Sat (Saves x forceSyncCommit) (GivenIn x tr) fun res =>
      FailsIn NotLive res ∧ ∀ status, res = .ok status →
        ∃ ts ∈ x.times, ∃ resp, AnsweredBy x tr l forceSyncCommit resp ∧
          status = (Requests.TransactionStatus.ofResponse resp).checkTtl ts := by
  have hC : Routing (Saves x forceSyncCommit) :=
    ⟨fun _ => trivial, fun _ => trivial, fun _ _ => trivial⟩
  refine Sat.andThen (sat_checkTxnStatusPlan fuel l forceSyncCommit hC fun _ _ => trivial)
    (fun results hresults => ?_)
    fun e he => ⟨failsIn_error (he.1.1 e rfl), fun _ h => by cases h⟩
  obtain ⟨⟨-, herrors⟩, hleaves⟩ := hresults
  split
  next e hsingle =>
    have hfails := failsIn_collectSingle (herrors results rfl) fun _ _ h => by cases h
    exact ⟨failsIn_error (hfails e hsingle), fun _ h => by cases h⟩
  next r resp hsingle =>
    have hresp := hleaves results rfl _ (collectSingle_ok hsingle)
    refine Sat.andThen (Async.sat_getTimestamp trivial) (fun ts hts => ?_)
      fun e he => ⟨failsIn_error (he.1.2 e rfl), fun _ h => by cases h⟩
    have hmem : ts ∈ x.times := hts.1.1 ts rfl
    dsimp only
    split_ifs with hcacheable
    · refine ⟨fun hforce => ⟨hcacheable, ts, hmem, ?_⟩,
        fun _ _ => ⟨failsIn_ok _, fun status h => ?_⟩⟩
      · rw [hresp.2.2 hforce]
      · cases h
        exact ⟨ts, hmem, resp, hresp, rfl⟩
    · refine ⟨failsIn_ok _, fun status h => ?_⟩
      cases h
      exact ⟨ts, hmem, resp, hresp, rfl⟩

lemma checkTtl_kind (status : Requests.TransactionStatus) (ts : ℕ) :
    (status.checkTtl ts).kind = status.kind := by
  unfold Requests.TransactionStatus.checkTtl
  split
  · split_ifs <;> rfl
  · rfl

lemma outcome_checkTtl (status : Requests.TransactionStatus) (ts : ℕ) :
    outcome (status.checkTtl ts) = outcome status := by
  rw [outcome, checkTtl_kind, outcome]

lemma exists_outcome_of_decided {resp : CheckTxnStatusResponse} (h : resp.Decided) :
    ∃ v, outcome (.ofResponse resp) = .ok v := by
  unfold outcome Requests.TransactionStatus.ofResponse
  cases hversion : resp.commitVersion with
  | succ n => exact ⟨n + 1, rfl⟩
  | zero =>
    rw [h.resolve_left (by simp [hversion])]
    exact ⟨0, rfl⟩

/-- If the first answer is not kept, the first check leaves the context as it is. -/
lemma sat_checkPrimary_noSave (hnot : ∀ status, ¬ Kept x status) (fuel : ℕ) (l : LockInfo) :
    (checkPrimary fuel l false).Sat NoSave (GivenIn x tr) fun _ => True := by
  rw [checkPrimary_eq]
  refine ⟨trivial, fun known _ => ?_⟩
  cases known with
  | some status => trivial
  | none =>
    refine (sat_askPrimary fuel l false).mono (fun c hc => ?_) (fun _ _ h => h) fun _ _ => trivial
    cases c with
    | saveResolved t status => exact hnot status (hc rfl)
    | _ => trivial

/-- **A second check that finds nothing in the context is decided by a forced answer.** -/
lemma recheck_forced {res : Except Error ℕ} (hreturns : Returns (recheck fuel l) tr res)
    (hrun : (statusServer x l.lockVersion).Run none tr w') :
    FailsIn NotLive res ∧ ∀ v, res = .ok v → ∃ region r resp,
      .answered (S := sig) (.gcRpc region (.checkTxnStatus r)) (.ok resp) ∈ tr ∧
        r.lockTs = l.lockVersion ∧ r.forceSyncCommit = true ∧ r.currentTs = u64Max ∧
        outcome (.ofResponse resp) = .ok v := by
  obtain ⟨tr₁, tr₂, status, rfl, hstatus, hret⟩ | ⟨e, rfl, herror⟩ :=
    returns_andThen_iff.mp hreturns
  · obtain ⟨rfl, rfl⟩ := returns_ret_iff.mp hret
    obtain ⟨w₁, hrun₁, -⟩ := hrun.split
    obtain ⟨rest, rfl, hasked, hrunRest⟩ := run_checkPrimary hstatus hrun₁
    obtain ⟨ts, -, resp, ⟨⟨region, r, hmem, hr⟩, hdecided, -⟩, rfl⟩ :=
      ((sat_askPrimary fuel l true).of_returns hasked (allowed_of_run hrunRest)).2 status rfl
    obtain ⟨v, hv⟩ := exists_outcome_of_decided (hdecided rfl)
    rw [outcome_checkTtl, hv]
    refine ⟨failsIn_ok v, fun v' h => ⟨region, r, resp, ?_, hr.1, hr.2.1, hr.2.2, hv.trans h⟩⟩
    exact List.mem_append_left _ (List.mem_cons_of_mem _ hmem)
  · obtain ⟨rest, rfl, hasked, hrunRest⟩ := run_checkPrimary herror hrun
    have hfails := ((sat_askPrimary fuel l true).of_returns hasked (allowed_of_run hrunRest)).1
    exact ⟨failsIn_error (hfails e rfl), fun _ h => by cases h⟩

end LockResolver

lemma actsOnForced_of_not_kept (hnot : ∀ status, ¬ LockResolver.Kept x status) (l : LockInfo) :
    ActsOnForced x none l := by
  rintro fuel before after w w' res
    ⟨tr₁, tr₂, status, ttl, lock, secondaries, rfl, hfirst, -, hsecondaries, -, hafter⟩ hbefore hrun
  obtain ⟨w₁, hrun₁, hrun₂⟩ := hbefore.split
  have hmade₁ := ((LockResolver.sat_checkPrimary_noSave hnot fuel l).of_steps hfirst
    (allowed_of_run hrun₁)).1
  have hrouting : Routing NoSave := ⟨fun _ => trivial, fun _ => trivial, fun _ _ => trivial⟩
  have hmade₂ := ((LockResolver.sat_checkAllSecondaries_calls hrouting (fun _ _ => trivial) fuel _ _
    _).of_steps hsecondaries (allowed_of_run hrun₂)).1
  obtain rfl : w = none := (known_of_run hrun₂ hmade₂).trans (known_of_run hrun₁ hmade₁)
  exact LockResolver.recheck_forced hafter hrun

/-! ## When there is no fallback -/

namespace LockResolver

variable {fuel : ℕ} {l : LockInfo}

/-- The first check finds what the context knows, or else what TiKV says. -/
lemma checkPrimary_kind {status : Requests.TransactionStatus}
    (hreturns : Returns (checkPrimary fuel l false) tr (.ok status))
    (hrun : (statusServer x l.lockVersion).Run known tr w') :
    status.kind = (known.getD (.ofResponse x.first)).kind := by
  obtain ⟨rest, rfl, hrest, hrunRest⟩ := run_checkPrimary hreturns hrun
  cases known with
  | some found =>
    obtain ⟨-, h⟩ := returns_ret_iff.mp hrest
    cases h
    rfl
  | none =>
    obtain ⟨ts, -, resp, hresp, rfl⟩ :=
      ((sat_askPrimary fuel l false).of_returns hrest (allowed_of_run hrunRest)).2 status rfl
    rw [checkTtl_kind, hresp.2.2 rfl]
    rfl

lemma checkAllSecondaries_nil {minCommitTs : ℕ} {secondaries : SecondaryLocksStatus}
    (h : Returns (checkAllSecondaries fuel [] txnId minCommitTs) tr (.ok secondaries)) :
    secondaries.fallback2pc = false := by
  cases fuel with
  | zero =>
    obtain ⟨_, _, _, _, h, -⟩ | ⟨_, -, h⟩ := returns_andThen_iff.mp h
    · exact absurd h not_returns_stuck
    · exact absurd h not_returns_stuck
  | succ fuel =>
    have heq : checkAllSecondaries (fuel + 1) [] txnId minCommitTs =
        .ret (.ok ⟨none, minCommitTs, false⟩) := by
      cases fuel <;> rfl
    rw [heq] at h
    obtain ⟨-, h⟩ := returns_ret_iff.mp h
    cases h
    rfl

/-- A transaction that is not locked, or has no secondaries, does not fall back. -/
lemma FallbackRun.secondaries_ne_nil {before after : Trace}
    {res : Except Error ℕ} (h : FallbackRun fuel l before after res)
    (hrun : (statusServer x l.lockVersion).Run known before w) :
    ∃ ttl lock, (known.getD (.ofResponse x.first)).kind = .locked ttl lock ∧
      lock.secondaries ≠ [] := by
  obtain ⟨tr₁, tr₂, status, ttl, lock, secondaries, rfl, hfirst, hlocked, hsecondaries, hfell, -⟩ :=
    h
  obtain ⟨w₁, hrun₁, -⟩ := hrun.split
  refine ⟨ttl, lock, (checkPrimary_kind hfirst hrun₁).symm.trans hlocked, fun hnil => ?_⟩
  rw [hnil] at hsecondaries
  rw [checkAllSecondaries_nil hsecondaries] at hfell
  cases hfell

end LockResolver

end Asking

/-! ## A cluster in which a transaction fell back -/

section FellBack

variable (x : StatusInputs)

/-- A lock of a transaction that uses two-phase commit. -/
def plainLock (key : Key) : LockInfo := ⟨key, key, 0, 0, .put, false, 0, []⟩

/-- One region, the first answer about the primary, and secondary locks without async commit. -/
def fellBackCluster : (c : Call) → c.Ans
  | .regionForKey _ => (.ok wholeRegion : Except Error Region)
  | .gcRpc _ (.checkTxnStatus r) =>
    (.ok (if r.forceSyncCommit then ⟨none, none, 0, 0, .lockNotExistRollback, none⟩
      else { x.first with regionError := none, error := none }) :
        Except Error CheckTxnStatusResponse)
  | .gcRpc _ (.checkSecondaryLocks r) =>
    (.ok ⟨none, none, r.keys.map plainLock, 0⟩ : Except Error CheckSecondaryLocksResponse)
  | c => fixedCluster [] (fun _ _ => .error (.internalError "no other requests")) c

/-- The calls of a plan of a garbage collection. -/
def PlanCall : Call → Prop
  | .regionForKey _ | .mapRegionToStore _ | .updateLeader _ _ | .gcRpc _ _ => True
  | _ => False

lemma routing_planCall : Routing PlanCall :=
  ⟨fun _ => trivial, fun _ => trivial, fun _ _ => trivial⟩

lemma reply_fellBackCluster (txnId : ℕ) (known : Option Requests.TransactionStatus) (c : Call)
    (hc : PlanCall c) : (statusServer x txnId).reply known c (fellBackCluster x c) known := by
  cases c with
  | regionForKey | mapRegionToStore | updateLeader => exact ⟨fun _ h => (by cases h), trivial, rfl⟩
  | gcRpc region request =>
    cases request with
    | checkTxnStatus r =>
      refine ⟨⟨fun resp hresp _ _ => ?_, fun _ h => (by cases h)⟩, trivial, rfl⟩
      cases hresp
      refine ⟨fun hforce _ => ?_, fun hforce => ?_⟩
      · rw [if_pos hforce]
        exact .inr rfl
      · rw [if_neg (by simp [hforce])]
        rfl
    | checkSecondaryLocks r => exact ⟨fun _ h => (by cases h), trivial, rfl⟩
    | _ => exact ⟨trivial, trivial, rfl⟩
  | _ => exact hc.elim

/-- In that cluster the outcome of a plan is that of a run that leaves the context alone. -/
lemma exists_run_fellBackCluster {α : Type} (txnId : ℕ) (known : Option Requests.TransactionStatus)
    {p : Async α} {a : α} (hsat : p.Sat PlanCall (fun _ _ => True) fun _ => True)
    (heval : p.eval (S := sig) (fellBackCluster x) = some a) :
    ∃ tr, Returns p tr a ∧ (statusServer x txnId).Run known tr known :=
  exists_run_of_eval (reply_fellBackCluster x txnId known) (fun _ => rfl)
    (hsat.mono (fun _ h => h) (fun _ _ _ => trivial) fun _ h => h) heval

lemma eval_shards_fellBackCluster {keys : List Key} (hne : keys ≠ []) :
    (regionStreamForKeys id keys).eval (S := sig) (fellBackCluster x) =
      some (.ok [(keys, wholeRegion)]) :=
  eval_regionStreamForKeys_one id hne (fun _ _ => rfl) fun k _ => wholeRegion_contains k

namespace LockResolver

lemma exists_eval_checkTxnStatusPlan (l : LockInfo) :
    ∃ n₀, ∀ fuel, n₀ ≤ fuel → ∃ r, (checkTxnStatusPlan.retryMultiRegion false fuel
        (newCheckTxnStatusRequest l.primaryLock l.lockVersion 0 u64Max true false
          (l.lockType == .pessimisticLock)) .defaultRegionBackoff).eval (S := sig)
        (fellBackCluster x) =
      some (.ok [.ok (r, { x.first with regionError := none, error := none })]) := by
  have hanswer : (Async.gcRpc wholeRegion (.checkTxnStatus (newCheckTxnStatusRequest l.primaryLock
      l.lockVersion 0 u64Max true false (l.lockType == .pessimisticLock)))).eval (S := sig)
        (fellBackCluster x) = some (.ok { x.first with regionError := none, error := none }) := rfl
  obtain ⟨n₀, h⟩ := checkTxnStatusPlan.exists_eval_retryMultiRegion_one
    (r := newCheckTxnStatusRequest l.primaryLock l.lockVersion 0 u64Max true false
      (l.lockType == .pessimisticLock)) false .defaultRegionBackoff
    (eval_shards_fellBackCluster x (List.cons_ne_nil l.primaryLock [])) (by decide) rfl hanswer rfl
      rfl
  exact ⟨n₀, fun fuel hfuel => ⟨_, h fuel hfuel⟩⟩

lemma exists_eval_checkAllSecondaries {keys : List Key} (hne : keys ≠ []) (txnId minCommitTs : ℕ) :
    ∃ n₀, ∀ fuel, n₀ ≤ fuel → (checkAllSecondaries fuel keys txnId minCommitTs).eval (S := sig)
      (fellBackCluster x) = some (.ok ⟨none, minCommitTs, true⟩) := by
  have hsorted : sortByKey id keys ≠ [] := fun h => hne ((h ▸ perm_sortByKey id keys).nil_eq).symm
  have hanswer : (Async.gcRpc wholeRegion (.checkSecondaryLocks
      (newCheckSecondaryLocksRequest (sortByKey id keys) txnId))).eval (S := sig)
        (fellBackCluster x) = some (.ok ⟨none, none, (sortByKey id keys).map plainLock, 0⟩) := rfl
  obtain ⟨n₀, h⟩ := checkSecondaryLocksPlan.exists_eval_retryMultiRegion_one
    (r := newCheckSecondaryLocksRequest keys txnId) false .defaultRegionBackoff
    (eval_shards_fellBackCluster x hsorted) (by decide) rfl hanswer rfl rfl
  refine ⟨n₀, fun fuel hfuel => ?_⟩
  rw [checkAllSecondaries, eval_andThen_ok (h fuel hfuel)]
  obtain ⟨k, ks, hks⟩ := List.exists_cons_of_ne_nil hsorted
  have hlength : ¬ ((sortByKey id keys).map plainLock).length < (sortByKey id keys).length := by
    simp
  have hplain : ((sortByKey id keys).map plainLock).any (!·.useAsyncCommit) = true := by
    rw [hks]
    rfl
  have hstatus : secondariesStatus minCommitTs
      [({ newCheckSecondaryLocksRequest keys txnId with keys := sortByKey id keys },
        ⟨none, none, (sortByKey id keys).map plainLock, 0⟩)] minCommitTs false none =
      .ok ⟨none, minCommitTs, true⟩ := by
    rw [secondariesStatus, if_neg hlength, if_pos hplain]
  exact congrArg some hstatus

/-- A first answer that may be kept is kept. -/
lemma exists_run_kept (l : LockInfo) {ts : ℕ} (hts : ts ∈ x.times) (hcacheable :
      ((Requests.TransactionStatus.ofResponse x.first).checkTtl ts).isCacheable = true) :
    ∃ n₀, ∀ fuel, n₀ ≤ fuel → ∃ tr, Returns (checkPrimary fuel l false) tr
        (.ok ((Requests.TransactionStatus.ofResponse x.first).checkTtl ts)) ∧
      (statusServer x l.lockVersion).Run none tr
        (some ((Requests.TransactionStatus.ofResponse x.first).checkTtl ts)) := by
  obtain ⟨n₀, hplan⟩ := exists_eval_checkTxnStatusPlan x l
  refine ⟨n₀, fun fuel hfuel => ?_⟩
  obtain ⟨r, heval⟩ := hplan fuel hfuel
  have hsent : ∀ region r, (Async.gcRpc region (.checkTxnStatus r)).Sat PlanCall (fun _ _ => True)
      fun _ => True := fun _ _ => (Async.sat_gcRpc trivial).post fun _ _ => trivial
  obtain ⟨tr, hreturns, hrun⟩ := exists_run_fellBackCluster x l.lockVersion none
    (ShardedPlan.sat_retryMultiRegion_calls routing_planCall
      (fun r => (sat_regionRuns routing_planCall id _).post fun _ _ => trivial) hsent _ _ _ _) heval
  set status := (Requests.TransactionStatus.ofResponse x.first).checkTtl ts with hstatus
  have hsaves : Returns (if status.isCacheable then
      (Async.saveResolved l.lockVersion status).bind fun _ => .ret (.ok status)
      else .ret (.ok status) : AsyncResult Requests.TransactionStatus)
      [.answered (S := sig) (.saveResolved l.lockVersion status) ()] (.ok status) := by
    rw [if_pos hcacheable]
    exact Steps.call (S := sig) (c := .saveResolved l.lockVersion status) () (.refl _)
  have hasked : Returns (askPrimary fuel l false)
      (tr ++ [.answered (S := sig) .getTimestamp (.ok ts),
        .answered (S := sig) (.saveResolved l.lockVersion status) ()]) (.ok status) :=
    returns_andThen_iff.mpr (.inl ⟨tr, _, _, rfl, hreturns,
      returns_andThen_iff.mpr (.inl ⟨[_], _, ts, rfl, Steps.call (S := sig) (c := .getTimestamp)
        (.ok ts) (.refl _), hsaves⟩)⟩)
  have hsaved : (statusServer x l.lockVersion).Run none
      [.answered (S := sig) .getTimestamp (.ok ts),
        .answered (S := sig) (.saveResolved l.lockVersion status) ()] (some status) := by
    refine .answered ⟨⟨fun ts' h => ?_, fun _ h => by cases h⟩, trivial, rfl⟩
      (.answered ⟨trivial, trivial, (if_pos rfl).symm⟩ (.refl _))
    cases h
    exact hts
  refine ⟨.answered (S := sig) (.getResolved l.lockVersion) none :: _, ?_,
    .answered ⟨trivial, fun _ => rfl, rfl⟩ (hrun.append hsaved)⟩
  rw [checkPrimary_eq]
  exact Steps.call (S := sig) (c := .getResolved l.lockVersion) none hasked

section FoundAgain

variable {l lock : LockInfo} {ttl : ℕ} {known : Option Requests.TransactionStatus}
  {status : Requests.TransactionStatus}
  (hfirst : ∃ n₀, ∀ fuel, n₀ ≤ fuel → ∃ tr, Returns (checkPrimary fuel l false) tr (.ok status) ∧
    (statusServer x l.lockVersion).Run known tr (some status))
  (hlocked : status.kind = .locked ttl lock) (hne : lock.secondaries ≠ [])

include hfirst hlocked hne

/-- **A status that is found again**: the second check asks nobody, and `cleanup_locks` fails. -/
lemma exists_fallback_found_again :
    ∃ fuel before, FallbackRun fuel l before
        [.answered (S := sig) (.getResolved l.lockVersion) (some status)]
        (.error (.resolveLockError [lock])) ∧
      (statusServer x l.lockVersion).Run known before (some status) ∧
      (statusServer x l.lockVersion).Run (some status)
        [.answered (S := sig) (.getResolved l.lockVersion) (some status)] (some status) := by
  obtain ⟨n₁, hfirst⟩ := hfirst
  obtain ⟨n₂, hsecondaries⟩ := exists_eval_checkAllSecondaries x hne l.lockVersion lock.minCommitTs
  obtain ⟨tr₁, hreturns₁, hrun₁⟩ := hfirst (max n₁ n₂) (le_max_left _ _)
  obtain ⟨tr₂, hreturns₂, hrun₂⟩ := exists_run_fellBackCluster x l.lockVersion (some status)
    (sat_checkAllSecondaries_calls routing_planCall (fun _ _ => trivial) _ _ _ _)
    (hsecondaries (max n₁ n₂) (le_max_right _ _))
  have hafter : Returns (recheck (max n₁ n₂) l)
      [.answered (S := sig) (.getResolved l.lockVersion) (some status)]
      (.error (.resolveLockError [lock])) := by
    refine returns_andThen_iff.mpr (.inl ⟨_, [], status, (List.append_nil _).symm, ?_, ?_⟩)
    · rw [checkPrimary_eq]
      exact Steps.call (S := sig) (c := .getResolved l.lockVersion) (some status) (.refl _)
    · rw [outcome, hlocked]
      exact .refl _
  exact ⟨_, tr₁ ++ tr₂, ⟨tr₁, tr₂, status, ttl, lock, _, rfl, hreturns₁, hlocked, hreturns₂, rfl,
    hafter⟩, hrun₁.append hrun₂, .answered ⟨trivial, fun _ => rfl, rfl⟩ (.refl _)⟩

/-- So a status that is found again is acted on. -/
lemma not_actsOnForced : ¬ ActsOnForced x known l := by
  intro hacts
  obtain ⟨fuel, before, hfell, hbefore, hafter⟩ :=
    exists_fallback_found_again x hfirst hlocked hne
  exact (hacts _ _ _ _ _ _ hfell hbefore hafter).1 _ rfl _ rfl

end FoundAgain

end LockResolver

end FellBack

/-! ## The result -/

/-- A primary lock with a TTL of one millisecond, and one secondary. -/
def shortLock : LockInfo := ⟨⟨[1]⟩, ⟨[1]⟩, 0, 1, .put, true, 1, [⟨[2]⟩]⟩

/-- The lock is reported without any action, at a time in milliseconds. -/
def shortLockAt (ms : ℕ) : StatusInputs :=
  ⟨⟨none, none, 1, 0, .noAction, some shortLock⟩, {ms * 2 ^ 18}⟩

end TikvClient
