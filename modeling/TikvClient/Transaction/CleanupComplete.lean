import TikvClient.Request.RangeTally
import TikvClient.Server.LockTable
import TikvClient.Transaction.Cleanup
import TikvClient.Transaction.RequestLemmas

/-!
# Cleaning up skips no lock

`TransactionClient::cleanup_locks` against a server with locks: when it succeeds, no lock of the
range at or below the safepoint is left, and `gc` publishes the safepoint only then.

**Looking back.**  The proof fixes the locks `T` that are left in the end.  Every batch that was
scanned had a predecessor of each of them (`Lists`), every transaction that was resolved in a region
has none there (`Clean`), and the client remembers a region as cleaned only for such
transactions.  That last part is a promise of the client and an assumption of its later steps, at
once (`Grants.sat`).

**Batches.**  `Progress` is what the loop over the batches keeps: nothing is left before the start
of the next batch.
-/

namespace TikvClient

open Proto Prog

/-! ## Locks that are left -/

/-- **Nothing is left** of the locks of a range at or below the safepoint, or of those of async
commits among them. -/
def NoneLeft (table : LockTable) (range : BoundRange) (safepoint : ℕ) (asyncCommitOnly : Bool) :
    Prop :=
  ∀ k l, table.lockAt k = some l → range.contains k = true → l.lockVersion ≤ safepoint →
    asyncCommitOnly = true ∧ l.useAsyncCommit = false

/-! ## Assumptions and promises -/

section Proof

variable (layout : RegionVerId → Key × Key) (safepoint : ℕ) (T : LockTable)

/-- In this version of a region, no lock of the transaction is left. -/
def Clean (txnId : ℕ) (region : RegionVerId) : Prop :=
  txnId ≤ safepoint → ∀ k l, T.lockAt k = some l → InRange (layout region) k → l.lockVersion ≠ txnId

/-- The locks of a scan, as seen from the end: each lock that is left had a predecessor, which was
scanned or is behind the scanned ones. -/
structure Lists (region : Region) (r : ScanLockRequest) (locks : List LockInfo) : Prop where
  sorted : locks.Pairwise fun l l' => l.key < l'.key
  wanted : ∀ l ∈ locks, r.Wants region l
  complete : ∀ k l, T.lockAt k = some l → l.lockVersion ≤ safepoint → l.lockVersion ≤ r.maxVersion →
    region.contains k = true → InRange (r.startKey, r.endKey) k →
    ∃ l₀, l₀.lockVersion = l.lockVersion ∧ (l.useAsyncCommit = true → l₀.useAsyncCommit = true) ∧
      (l₀ ∈ locks ∨ r.limit ≠ 0 ∧ locks.length = r.limit ∧ ∀ l' ∈ locks, l'.key < k)

/-- What the client may assume of the answers. -/
def LeftAnswer : Answers
  | .regionForKey k, ans => ∀ region : Region, ans = .ok region →
      region.contains k = true ∧ LaidOut layout region
  | .gcRpc region (.scanLock r), ans => ∀ resp : ScanLockResponse, ans = .ok resp →
      resp.error = none → resp.regionError = none → Lists safepoint T region r resp.locks
  | .gcRpc region (.batchResolveLock r), ans => ∀ resp : ResolveLockResponse, ans = .ok resp →
      resp.error = none → resp.regionError = none → LaidOut layout region →
        ∀ info ∈ r.txnInfos, Clean layout safepoint T info.txn region.verId
  | .isRegionCleaned txnId region, ans => ans = true → Clean layout safepoint T txnId region
  | _, _ => True

/-- What the client promises of its calls; `Z` is what it knows when it publishes the safepoint. -/
def LeftCall (Z : Prop) : Call → Prop
  | .saveCleanedRegion txnId region => Clean layout safepoint T txnId region
  | .updateSafepoint s => s = safepoint ∧ Z
  | _ => True

variable {layout safepoint T} {Z : Prop}

lemma routing_leftCall : Routing (LeftCall layout safepoint T Z) :=
  ⟨fun _ => trivial, fun _ => trivial, fun _ _ => trivial⟩

lemma Lists.of_scansLocks {table : LockTable} {region : Region} {r : ScanLockRequest}
    {locks : List LockInfo} (hscan : ScansLocks table region r locks)
    (hlater : table.Shrinks safepoint T) : Lists safepoint T region r locks := by
  refine ⟨hscan.sorted, fun l hl => (hscan.wanted l hl).2, ?_⟩
  intro k l hl hversion hmax hk hin
  obtain ⟨l₀, hl₀, heq, hasync⟩ := hlater k l hl hversion
  have hkey := table.key_eq k l₀ hl₀
  exact ⟨l₀, heq, hasync, hscan.first k l₀ hl₀ ⟨hkey ▸ hk, hkey ▸ hin, heq ▸ hmax⟩⟩

/-- A transaction that was resolved, as seen from the end. -/
lemma clean_of_resolved {table : LockTable} {region : Region} {txnId : ℕ}
    (hregion : LaidOut layout region) (hlater : table.Shrinks safepoint T)
    (h : ∀ k l, table.lockAt k = some l → region.contains k = true → l.lockVersion ≠ txnId) :
    Clean layout safepoint T txnId region.verId := by
  intro hversion k l hl hk heq
  obtain ⟨l₀, hl₀, heq₀, -⟩ := hlater k l hl (heq ▸ hversion)
  rw [hregion] at hk
  exact h k l₀ hl₀ (Region.contains_iff_inRange.mpr hk) (heq₀.trans heq)

/-- **The server grants the assumptions** to a client that keeps its promises. -/
lemma grants_lockServer (w : GcWorld) :
    (lockServer layout safepoint).Grants (LeftCall layout safepoint w.locks Z)
      (LeftAnswer layout safepoint w.locks)
      (fun w' => ∀ x ∈ w'.cleaned, Clean layout safepoint w.locks x.1 x.2) w where
  reply := by
    rintro w₁ c ans w₂ tr hw₁ hc ⟨hshrinks, hcleaned, hans⟩ hrun
    have hlater := shrinks_of_run hrun
    constructor
    · cases c with
      | regionForKey k => exact hans
      | gcRpc region request =>
        cases request with
        | scanLock r =>
          exact fun resp hresp herr hregion =>
            .of_scansLocks (hans resp hresp herr hregion) (hshrinks.trans hlater)
        | batchResolveLock r =>
          exact fun resp hresp herr hregion hlaid info hinfo =>
            clean_of_resolved hlaid hlater (hans resp hresp herr hregion info hinfo)
        | _ => exact trivial
      | isRegionCleaned txnId region =>
        intro htrue
        have hmem : decide ((txnId, region) ∈ w₁.cleaned) = true := hans.symm.trans htrue
        exact hw₁ _ (of_decide_eq_true hmem)
      | _ => exact trivial
    · intro x hx
      rw [hcleaned] at hx
      cases c with
      | saveCleanedRegion txnId region =>
        rcases List.mem_cons.mp hx with rfl | hx
        · exact hc
        · exact hw₁ x hx
      | _ => exact hw₁ x hx
  dropped := by
    rintro w₁ cs w₂ hw₁ hcs ⟨-, hcleaned⟩ x hx
    rcases hcleaned x hx with hold | hnew
    · exact hw₁ x hold
    · exact hcs _ hnew
  rely := by
    rintro w₁ w₂ hw₁ ⟨-, hcleaned⟩ x hx
    rw [hcleaned] at hx
    exact hw₁ x hx

/-! ## Resolving a batch -/

namespace LockResolver

lemma sat_checkTxnStatus (fuel txnId : ℕ) (primary : Key) (callerStartTs currentTs : ℕ)
    (rollbackIfNotExist forceSyncCommit resolvingPessimisticLock : Bool) :
    (checkTxnStatus fuel txnId primary callerStartTs currentTs rollbackIfNotExist forceSyncCommit
      resolvingPessimisticLock).Sat (LeftCall layout safepoint T Z) (LeftAnswer layout safepoint T)
      fun _ => True := by
  refine ⟨trivial, fun known _ => ?_⟩
  cases known with
  | some status => trivial
  | none =>
    refine Sat.andThen (ShardedPlan.sat_retryMultiRegion_calls routing_leftCall
      (fun r => (sat_regionRuns routing_leftCall id [r.primaryKey]).post fun _ _ => trivial)
      (fun region r => (Async.sat_gcRpc trivial).post fun _ _ => trivial) _ _ _ _)
      (fun results _ => ?_) fun _ _ => trivial
    split
    · trivial
    · refine Sat.andThen (Async.sat_getTimestamp trivial) (fun current _ => ?_) fun _ _ => trivial
      dsimp only
      split_ifs
      · exact ⟨trivial, fun _ _ => trivial⟩
      · trivial

lemma sat_checkAllSecondaries (fuel : ℕ) (keys : List Key) (txnId primaryMinCommitTs : ℕ) :
    (checkAllSecondaries fuel keys txnId primaryMinCommitTs).Sat (LeftCall layout safepoint T Z)
      (LeftAnswer layout safepoint T) fun _ => True := by
  refine Sat.andThen (ShardedPlan.sat_retryMultiRegion_calls routing_leftCall
    (fun r => (sat_shardsByRegion routing_leftCall id r.keys).post fun _ _ => trivial)
    (fun region r => (Async.sat_gcRpc trivial).post fun _ _ => trivial) _ _ _ _)
    (fun results _ => ?_) fun _ _ => trivial
  split
  · trivial
  · trivial

lemma sat_checkOutcome (fuel : ℕ) (l : LockInfo) :
    (checkOutcome fuel l).Sat (LeftCall layout safepoint T Z) (LeftAnswer layout safepoint T)
      fun _ => True := by
  refine Sat.andThen (sat_checkTxnStatus _ _ _ _ _ _ _ _) (fun status _ => ?_) fun _ _ => trivial
  split
  · refine Sat.andThen (sat_checkAllSecondaries _ _ _ _) (fun secondaryStatus _ => ?_)
      fun _ _ => trivial
    split_ifs
    · exact Sat.andThen (sat_checkTxnStatus _ _ _ _ _ _ _ _) (fun _ _ => trivial) fun _ _ => trivial
    · trivial
  · trivial

/-- **Every lock is accounted for**: its transaction has an outcome, or is resolved in the region.
-/
lemma sat_checkOutcomes (fuel : ℕ) (region : RegionVerId) (locks : List LockInfo) :
    ∀ txnInfos, (checkOutcomes fuel region locks txnInfos).Sat (LeftCall layout safepoint T Z)
      (LeftAnswer layout safepoint T) fun res => ∀ found, res = .ok found →
        txnInfos ⊆ found ∧ ∀ l ∈ locks,
          (∃ info ∈ found, info.txn = l.lockVersion) ∨
            Clean layout safepoint T l.lockVersion region := by
  induction locks with
  | nil =>
    rintro txnInfos found h
    cases h
    exact ⟨List.Subset.refl _, fun l hl => absurd hl List.not_mem_nil⟩
  | cons l locks ih =>
    intro txnInfos
    unfold checkOutcomes
    -- With the rest of the locks accounted for, `l` remains.
    have hcons : ∀ infos, txnInfos ⊆ infos →
        (∀ found, infos ⊆ found → (∃ info ∈ found, info.txn = l.lockVersion) ∨
          Clean layout safepoint T l.lockVersion region) →
        (checkOutcomes fuel region locks infos).Sat (LeftCall layout safepoint T Z)
          (LeftAnswer layout safepoint T) fun res => ∀ found, res = .ok found →
            txnInfos ⊆ found ∧ ∀ l' ∈ l :: locks,
              (∃ info ∈ found, info.txn = l'.lockVersion) ∨
                Clean layout safepoint T l'.lockVersion region := by
      intro infos hsub hl
      refine (ih infos).post fun res hres found hfound => ?_
      obtain ⟨hkept, hrest⟩ := hres found hfound
      exact ⟨List.Subset.trans hsub hkept, List.forall_mem_cons.mpr ⟨hl found hkept, hrest⟩⟩
    split_ifs with hknown
    · obtain ⟨info, hinfo, heq⟩ := List.any_eq_true.mp hknown
      exact hcons txnInfos (List.Subset.refl _) fun found hkept =>
        .inl ⟨info, hkept hinfo, beq_iff_eq.mp heq⟩
    · refine ⟨trivial, fun cleaned hcleaned => ?_⟩
      cases cleaned with
      | true => exact hcons txnInfos (List.Subset.refl _) fun _ _ => .inr (hcleaned rfl)
      | false =>
        refine Sat.andThen (sat_checkOutcome fuel l) (fun status _ => ?_)
          fun _ _ _ h => by cases h
        exact hcons _ (List.subset_append_left _ _) fun found hkept =>
          .inl ⟨_, hkept (List.mem_append_right _ List.mem_cons_self), rfl⟩

lemma sat_hashMapEntries {α : Type} {C : Call → Prop} {A : Answers}
    (entries : List α) : (hashMapEntries entries).Sat C A fun listed => listed.Perm entries :=
  fun i => List.mem_permutations'.mp (List.get_mem _ i)

lemma sat_saveCleanedRegions {C : Call → Prop} {A : Answers}
    (region : RegionVerId) (txnIds : List ℕ) (h : ∀ t ∈ txnIds, C (.saveCleanedRegion t region)) :
    (saveCleanedRegions region txnIds).Sat C A fun _ => True := by
  induction txnIds with
  | nil => trivial
  | cons t rest ih =>
    obtain ⟨ht, hrest⟩ := List.forall_mem_cons.mp h
    exact ⟨ht, fun _ _ => ih hrest⟩

/-- A region that is returned has none of the transactions left. -/
lemma sat_batchResolveLocks {region : Region} (hregion : LaidOut layout region)
    (txnInfos : List TxnInfo) :
    (batchResolveLocks region txnInfos).Sat (LeftCall layout safepoint T Z)
      (LeftAnswer layout safepoint T) fun res => ∀ cleaned, res = .ok cleaned →
        cleaned = region.verId ∧
          ∀ info ∈ txnInfos, Clean layout safepoint T info.txn region.verId := by
  refine Sat.andThen (Async.sat_gcRpc trivial) (fun resp hresp => ?_) fun _ _ _ h => by cases h
  split
  · rintro _ h
    cases h
  · rintro _ h
    cases h
  next herr hregionError =>
    rintro _ h
    cases h
    exact ⟨rfl, hresp resp rfl herr hregionError hregion⟩

/-- **A batch that is cleaned up leaves none of its transactions in the region.** -/
theorem sat_cleanupLocks (fuel : ℕ) {region : Region} (hregion : LaidOut layout region)
    (locks : List LockInfo) :
    (cleanupLocks fuel region locks).Sat (LeftCall layout safepoint T Z)
      (LeftAnswer layout safepoint T) fun res => res = .ok () →
        ∀ l ∈ locks, Clean layout safepoint T l.lockVersion region.verId := by
  unfold cleanupLocks
  split_ifs with hempty
  · rw [List.isEmpty_iff.mp hempty]
    exact fun _ l hl => absurd hl List.not_mem_nil
  refine Sat.andThen (sat_checkOutcomes fuel region.verId locks []) (fun txnInfos hinfos => ?_)
    fun _ _ h => by cases h
  have haccounted := (hinfos txnInfos rfl).2
  refine (sat_hashMapEntries txnInfos).bind fun listed hperm => ?_
  refine Sat.andThen (sat_batchResolveLocks hregion listed) (fun cleaned hcleaned => ?_)
    fun _ _ h => by cases h
  obtain ⟨rfl, hclean⟩ := hcleaned cleaned rfl
  refine Sat.bind (sat_saveCleanedRegions _ _ ?_) fun _ _ _ l hl => ?_
  · rw [List.forall_mem_map]
    exact hclean
  · rcases haccounted l hl with ⟨info, hinfo, heq⟩ | halready
    · rw [← heq]
      exact hclean info (hperm.mem_iff.mpr hinfo)
    · exact halready

end LockResolver

/-! ## The batches of a shard -/

namespace CleanupLocks

variable (safepoint T) (options : ResolveLocksOptions)

/-- Nothing is left at the key. -/
def DoneAt (k : Key) : Prop :=
  ∀ l, T.lockAt k = some l → l.lockVersion ≤ safepoint →
    options.asyncCommitOnly = true ∧ l.useAsyncCommit = false

/-- **What the loop over the batches of a shard keeps**: the range before the next batch is done. -/
structure Progress (r inner : ScanLockRequest) : Prop where
  endKey : inner.endKey = r.endKey
  maxVersion : inner.maxVersion = safepoint
  limit : inner.limit = options.batchSize
  startKey : r.startKey ≤ inner.startKey
  done : ∀ k, InRange (r.startKey, r.endKey) k → k < inner.startKey → DoneAt safepoint T options k

variable {safepoint T options} {r inner : ScanLockRequest} {region : Region}
  {locks : List LockInfo}

/-- The batch is resolved: of what is to be cleaned up, nothing is left in the region. -/
def Resolved (layout : RegionVerId → Key × Key) (safepoint : ℕ) (T : LockTable)
    (options : ResolveLocksOptions) (region : Region) (locks : List LockInfo) : Prop :=
  ∀ l ∈ locks, (options.asyncCommitOnly = true → l.useAsyncCommit = true) →
    Clean layout safepoint T l.lockVersion region.verId

variable {resp : ScanLockResponse}

lemma exists_of_nextStart {startKey : Key} (h : nextStart region inner resp = some startKey) :
    ∃ last ∈ resp.locks, startKey = last.key.nextKey := by
  rw [nextStart, Option.filter_eq_some_iff, Option.filter_eq_some_iff, ScanLockResponse.hasNextBatch,
    Option.map_eq_some_iff] at h
  obtain ⟨⟨⟨last, hlast, rfl⟩, -⟩, -⟩ := h
  exact ⟨last, List.mem_of_getLast? hlast, rfl⟩

lemma nextStart_eq_some (hne : resp.locks ≠ [])
    (hcontains : region.contains (resp.locks.getLast hne).key.nextKey = true)
    (hend : inner.endKey.isEmpty = true ∨ (resp.locks.getLast hne).key.nextKey < inner.endKey) :
    nextStart region inner resp = some (resp.locks.getLast hne).key.nextKey := by
  rw [nextStart, Option.filter_eq_some_iff, Option.filter_eq_some_iff, ScanLockResponse.hasNextBatch,
    List.getLast?_eq_some_getLast hne]
  refine ⟨⟨rfl, hcontains⟩, ?_⟩
  rw [Bool.or_eq_true, decide_eq_true_eq]
  exact hend

section Batch

variable (hregion : LaidOut layout region)
  (hat : ∀ k, InRange (r.startKey, r.endKey) k → region.contains k = true)
  (hp : Progress safepoint T options r inner) (hlists : Lists safepoint T region inner locks)
  (hresolved : Resolved layout safepoint T options region locks)
include hregion hat hp hlists hresolved

variable {k : Key}

lemma doneAt_of_not_behind (hk : InRange (r.startKey, r.endKey) k)
    (hbehind : ¬ (inner.limit ≠ 0 ∧ locks.length = inner.limit ∧ ∀ l ∈ locks, l.key < k)) :
    DoneAt safepoint T options k := by
  rcases lt_or_ge k inner.startKey with hbefore | hfrom
  · exact hp.done k hk hbefore
  intro l hl hversion
  have hcontains := hat k hk
  have hin : InRange (inner.startKey, inner.endKey) k := ⟨hfrom, hp.endKey ▸ hk.2⟩
  obtain ⟨l₀, heq, hasync, hmem | hcut⟩ :=
    hlists.complete k l hl hversion (hp.maxVersion ▸ hversion) hcontains hin
  · -- The predecessor was scanned; had it been kept, the lock would be gone.
    by_contra hleft
    have hkept : options.asyncCommitOnly = true → l₀.useAsyncCommit = true := by
      intro honly
      cases hl₁ : l.useAsyncCommit with
      | true => exact hasync hl₁
      | false => exact absurd ⟨honly, hl₁⟩ hleft
    have hclean := hresolved l₀ hmem hkept (heq ▸ hversion) k l hl
    rw [hregion] at hclean
    exact hclean (Region.contains_iff_inRange.mp hcontains) heq.symm
  · exact absurd hcut hbehind

lemma doneAt_of_le_last {last : LockInfo} (hlast : last ∈ locks)
    (hk : InRange (r.startKey, r.endKey) k) (hle : k ≤ last.key) : DoneAt safepoint T options k :=
  doneAt_of_not_behind hregion hat hp hlists hresolved hk fun hcut =>
    absurd (hcut.2.2 last hlast) hle.not_gt

lemma Progress.nextBatch {last : LockInfo} (hlast : last ∈ locks) :
    Progress safepoint T options r (inner.nextBatch last.key.nextKey) where
  endKey := hp.endKey
  maxVersion := hp.maxVersion
  limit := hp.limit
  startKey := (hp.startKey.trans (hlists.wanted last hlast).2.1.1).trans (Key.lt_nextKey _).le
  done _ hk hlt :=
    doneAt_of_le_last hregion hat hp hlists hresolved hlast hk ((Key.lt_nextKey_iff _ _).mp hlt)

/-- **If there is no next batch, the shard is done.** -/
lemma doneAt_of_no_next {resp : ScanLockResponse} (hlocks : resp.locks = locks) (hne : locks ≠ [])
    (hnone : (if locks.length < options.batchSize then none else nextStart region inner resp) = none)
    (hk : InRange (r.startKey, r.endKey) k) : DoneAt safepoint T options k := by
  split_ifs at hnone with hshort
  · -- the batch was not cut off
    refine doneAt_of_not_behind hregion hat hp hlists hresolved hk fun hcut => ?_
    have := hp.limit
    omega
  · -- behind the last lock there is nothing of the range in the region
    have hlast := List.getLast_mem hne
    refine doneAt_of_le_last hregion hat hp hlists hresolved hlast hk ?_
    by_contra hlt
    have hnext : (locks.getLast hne).key.nextKey ≤ k :=
      (Key.nextKey_le_iff _ _).mpr (not_le.mp hlt)
    have hcontains : region.contains (locks.getLast hne).key.nextKey = true := by
      have hfirst := Region.contains_iff_inRange.mp (hlists.wanted _ hlast).1
      have hbehind := Region.contains_iff_inRange.mp (hat k hk)
      exact Region.contains_iff_inRange.mpr (hfirst.between hbehind (Key.lt_nextKey _).le hnext)
    have hend : inner.endKey.isEmpty = true ∨ (locks.getLast hne).key.nextKey < inner.endKey := by
      rw [hp.endKey]
      exact hk.2.symm.imp_right hnext.trans_lt
    subst hlocks
    rw [nextStart_eq_some hne hcontains hend] at hnone
    cases hnone

end Batch

/-- The result of a shard says that it is done, if it has no errors. -/
def ShardDone (safepoint : ℕ) (T : LockTable) (options : ResolveLocksOptions) (r : ScanLockRequest)
    (res : Except Error CleanupLocksResult) : Prop :=
  ∀ result, res = .ok result → result.keyError = none → result.regionError = none →
    ∀ k, InRange (r.startKey, r.endKey) k → DoneAt safepoint T options k

lemma shardDone_error (e : Error) : ShardDone safepoint T options r (.error e) :=
  fun _ h => by cases h

lemma shardDone_extracted (n : ℕ) (errors : List Error) :
    ShardDone safepoint T options r (extracted n errors) := by
  unfold extracted
  split
  · exact shardDone_error _
  · rintro _ h _ hregionError
    cases h
    cases hregionError
  · rintro _ h hkeyError
    cases h
    cases hkeyError

lemma mem_toResolve {l : LockInfo} (hl : l ∈ locks)
    (hkept : options.asyncCommitOnly = true → l.useAsyncCommit = true) :
    l ∈ toResolve options locks := by
  unfold toResolve
  split_ifs with honly
  · exact List.mem_filter.mpr ⟨hl, hkept honly⟩
  · exact hl

/-- After a batch that is resolved, the shard goes on or is done. -/
lemma sat_advance (hregion : LaidOut layout region)
    (hat : ∀ k, InRange (r.startKey, r.endKey) k → region.contains k = true)
    (hp : Progress safepoint T options r inner)
    (hlists : Lists safepoint T region inner resp.locks) (hne : resp.locks ≠ [])
    (hresolved : Resolved layout safepoint T options region resp.locks)
    {scan : ScanLockRequest → AsyncResult CleanupLocksResult} {C : Call → Prop}
    {A : Answers} (hscan : ∀ inner, Progress safepoint T options r inner →
      (scan inner).Sat C A (ShardDone safepoint T options r)) (n : ℕ) :
    (advance (if resp.locks.length < options.batchSize then none else nextStart region inner resp)
      inner n scan).Sat C A (ShardDone safepoint T options r) := by
  unfold advance
  split
  next startKey hnext =>
    split_ifs at hnext
    obtain ⟨last, hlast, rfl⟩ := exists_of_nextStart hnext
    exact hscan _ (Progress.nextBatch hregion hat hp hlists hresolved hlast)
  next hnone =>
    exact fun _ _ _ _ k hk => doneAt_of_no_next hregion hat hp hlists hresolved rfl hne hnone hk

/-- **A shard whose result has no errors is done.** -/
theorem sat_scanLoop (hregion : LaidOut layout region)
    (hat : ∀ k, InRange (r.startKey, r.endKey) k → region.contains k = true)
    (resolverFuel fuel : ℕ) :
    ∀ inner backoff n, Progress safepoint T options r inner →
      (scanLoop options resolverFuel region fuel inner backoff n).Sat (LeftCall layout safepoint T Z)
        (LeftAnswer layout safepoint T) (ShardDone safepoint T options r) := by
  induction fuel with
  | zero => exact fun _ _ _ _ => sat_stuck
  | succ fuel ih =>
    intro inner backoff n hp
    unfold scanLoop
    refine Sat.andThen (Async.sat_gcRpc trivial) (fun resp hresp => ?_)
      fun e _ => shardDone_error e
    split
    · rintro _ h hkeyError
      cases h
      cases hkeyError
    · rintro _ h _ hregionError
      cases h
      cases hregionError
    next hkeyErrors hregionError =>
    have herr := extractErrors_eq_none hkeyErrors
    have hlists := hresp resp rfl (Option.toList_eq_nil_iff.mp herr) hregionError
    by_cases hempty : resp.locks.isEmpty = true
    · rw [if_pos hempty]
      have hnil := List.isEmpty_iff.mp hempty
      rw [hnil] at hlists
      refine fun _ _ _ _ k hk => doneAt_of_not_behind hregion hat hp hlists
        (fun l hl => absurd hl List.not_mem_nil) hk ?_
      rintro ⟨hlimit, hlength, -⟩
      exact hlimit hlength.symm
    rw [if_neg hempty]
    dsimp only
    have hne : resp.locks ≠ [] := fun hnil => hempty (List.isEmpty_iff.mpr hnil)
    by_cases hnone : (toResolve options resp.locks).isEmpty = true
    · rw [if_pos hnone]
      refine sat_advance hregion hat hp hlists hne (fun l hl hkept => ?_)
        (fun inner hp => ih inner backoff n hp) n
      have hmem := mem_toResolve hl hkept
      rw [List.isEmpty_iff.mp hnone] at hmem
      cases hmem
    rw [if_neg hnone]
    refine (LockResolver.sat_cleanupLocks resolverFuel hregion _).bind fun res hres => ?_
    split
    · exact sat_advance hregion hat hp hlists hne
        (fun l hl hkept => hres rfl l (mem_toResolve hl hkept))
        (fun inner hp => ih inner backoff _ hp) _
    · split
      · exact ih inner _ n hp
      · exact shardDone_error _
    · exact shardDone_extracted n _
    · exact shardDone_error _

/-! ## The whole range -/

/-- The shards are cut from a range, and keep the safepoint and the batch size. -/
lemma rangePlan (fuel : ℕ) :
    RangePlan (plan options fuel) (fun r => (r.startKey, r.endKey))
      (fun r => r.maxVersion = safepoint ∧ r.limit = options.batchSize) fuel where
  shards _ _ := rfl
  range_applyShard _ _ := rfl
  inv_applyShard _ _ hr _ := hr
  applyStore _ _ := rfl

lemma found_leftAnswer : Found (LeftAnswer layout safepoint T) (LaidOut layout) where
  contains _ r h := (h r rfl).1
  known _ r h := (h r rfl).2
  withLeader _ _ h := h

end CleanupLocks

namespace TransactionClient

/-- **`cleanup_locks` succeeds only if nothing is left.** -/
theorem sat_cleanupLocks (client : TransactionClient) (fuel : ℕ) (range : BoundRange)
    (options : ResolveLocksOptions) :
    (client.cleanupLocks fuel range safepoint options).Sat (LeftCall layout safepoint T Z)
      (LeftAnswer layout safepoint T) fun res => ∀ result, res = .ok result →
        NoneLeft T (range.encodeKeyspace client.keyspace .txn) safepoint options.asyncCommitOnly := by
  have hplan : RangePlan (CleanupLocks.plan options fuel) (fun r => (r.startKey, r.endKey))
      (fun r => r.maxVersion = safepoint ∧ r.limit = options.batchSize) fuel :=
    CleanupLocks.rangePlan fuel
  have hcalls : Routing (LeftCall layout safepoint T Z) := routing_leftCall
  have hfound : Found (LeftAnswer layout safepoint T) (LaidOut layout) :=
    CleanupLocks.found_leftAnswer
  have hshards := hplan.sat_retryMultiRegion_found hcalls hfound
    (P := CleanupLocks.DoneAt safepoint T options)
    (fun region r hat hregion hr => CleanupLocks.sat_scanLoop (Z := Z) hregion hat fuel fuel r _ 0
      ⟨rfl, hr.1, hr.2, le_rfl, fun k hk hlt => absurd hk.1 hlt.not_ge⟩)
    false fuel (r := newScanLockRequest (range.encodeKeyspace client.keyspace .txn) safepoint
      options.batchSize) ⟨rfl, rfl⟩ .defaultRegionBackoff
  refine Sat.andThen hshards (fun results hresults => ?_) fun _ _ _ h => by cases h
  intro result hresult k l hl hk hversion
  have hin := (BoundRange.contains_encodeKeyspace_iff_inRange range client.keyspace .txn k).mp hk
  cases hextract : extractError results with
  | error e =>
    rw [hextract] at hresult
    cases hresult
  | ok leaves =>
    have hok := (extractError_eq_ok_iff.mp hextract).1
    exact hresults results rfl hok k hin l hl hversion

/-- `gc` publishes the safepoint once nothing is left. -/
lemma sat_gc (client : TransactionClient) (fuel : ℕ) :
    (client.gc fuel safepoint).Sat (LeftCall layout safepoint T (NoneLeft T
      ((⟨.unbounded, .unbounded⟩ : BoundRange).encodeKeyspace client.keyspace .txn) safepoint false))
      (LeftAnswer layout safepoint T) fun _ => True :=
  Sat.andThen (client.sat_cleanupLocks fuel _ .default)
    (fun result hresult => ⟨⟨rfl, hresult result rfl⟩, fun _ _ => trivial⟩) fun _ _ => trivial

end TransactionClient

end Proof

/-! ## Whole runs of cleaning up -/

section Runs

variable {layout : RegionVerId → Key × Key} {safepoint : ℕ} {w w' : GcWorld} {tr : Trace}

/-- A program that keeps its promises up to some point keeps them from there on. -/
lemma sat_of_run {Z : Prop} {α : Type} {p q : Async α} {P : α → Prop} (hstart : w.cleaned = [])
    (hrun : (lockServer layout safepoint).Run w tr w') (hsteps : Steps p tr q)
    (hsat : p.Sat (LeftCall layout safepoint w'.locks Z) (LeftAnswer layout safepoint w'.locks) P) :
    q.Sat (LeftCall layout safepoint w'.locks Z) (LeftAnswer layout safepoint w'.locks) P :=
  (grants_lockServer w').sat hsteps hrun
    (fun x hx => by rw [hstart] at hx; cases hx) hsat

/-- **Cleaning up skips nothing**: when `cleanup_locks` succeeds, no lock that it is to resolve is
left in the range, and when `gc` publishes the safepoint, no lock at or below it is left at all. -/
theorem cleanup_skips_nothing (client : TransactionClient) (fuel : ℕ) (hstart : w.cleaned = [])
    (hrun : (lockServer layout safepoint).Run w tr w') :
    (∀ range options result,
      Returns (client.cleanupLocks fuel range safepoint options) tr (.ok result) →
        NoneLeft w'.locks (range.encodeKeyspace client.keyspace .txn) safepoint
          options.asyncCommitOnly) ∧
      ∀ published k, Steps (client.gc fuel safepoint) tr
          (.call (S := sig) (.updateSafepoint published) k) →
        published = safepoint ∧ NoneLeft w'.locks
          ((⟨.unbounded, .unbounded⟩ : BoundRange).encodeKeyspace client.keyspace .txn)
          safepoint false := by
  constructor
  · intro range options result hreturns
    have hsat := sat_of_run hstart hrun hreturns
      (client.sat_cleanupLocks (Z := True) fuel range options)
    exact hsat result rfl
  · intro published k hsteps
    exact (sat_of_run hstart hrun hsteps (client.sat_gc fuel)).1

end Runs

/-! ### One lock -/

/-- The lock of a transaction that started at 5. -/
def oneLock : LockInfo := ⟨⟨[1]⟩, ⟨[1]⟩, 5, 3000, .put, false, 0, []⟩

/-- A server with this lock, or without locks. -/
def oneLockTable (locked : Bool) : LockTable where
  lockAt k := if locked = true ∧ k = ⟨[1]⟩ then some oneLock else none
  key_eq k l hl := by
    split_ifs at hl with hk
    cases hl
    exact hk.2.symm

/-- Whether there is the lock, and the regions that are cleaned. -/
def oneLockWorld (s : Bool × List (ℕ × RegionVerId)) : GcWorld := ⟨oneLockTable s.1, s.2⟩

/-- It rolls the transaction back during a garbage collection at the safepoint 9. -/
def oneLockOracle : Oracle sig (Bool × List (ℕ × RegionVerId)) where
  answer s
    | .regionForKey _ => some (.ok wholeRegion, s)
    | .mapRegionToStore _ => some (.ok (), s)
    | .getTimestamp => some (.ok 100, s)
    | .isRegionCleaned txnId region => some (s.2.contains (txnId, region), s)
    | .saveCleanedRegion txnId region => some ((), (s.1, (txnId, region) :: s.2))
    | .getResolved _ => some (none, s)
    | .saveResolved _ _ => some ((), s)
    | .gcRpc _ (.checkTxnStatus _) =>
      some (.ok ⟨none, none, 0, 0, .ttlExpireRollback, none⟩, s)
    | .gcRpc region (.scanLock r) =>
      if s.1 = true ∧ region = wholeRegion ∧ r = ⟨.empty, .empty, 9, 1024⟩ then
        some (.ok ⟨none, none, [oneLock]⟩, s)
      else none
    | .gcRpc _ (.batchResolveLock _) => some (.ok ⟨none, none⟩, (false, s.2))
    | _ => none
  pick _ := Oracle.first
  drop s _ := s

lemma shrinks_oneLockTable (locked : Bool) (safepoint : ℕ) :
    (oneLockTable locked).Shrinks safepoint (oneLockTable false) :=
  fun _ _ hl => by cases hl

lemma scansLocks_oneLock :
    ScansLocks (oneLockTable true) wholeRegion ⟨.empty, .empty, 9, 1024⟩ [oneLock] where
  sorted := List.pairwise_singleton _ _
  wanted l hl := by
    rw [List.mem_singleton] at hl
    subst hl
    exact ⟨rfl, wholeRegion_contains _, ⟨Key.empty_le _, .inr rfl⟩, by decide⟩
  limited := .inr (by decide)
  first k l hl _ := by
    left
    replace hl : (if true = true ∧ k = ⟨[1]⟩ then some oneLock else none) = some l := hl
    split_ifs at hl
    cases hl
    exact List.mem_singleton_self _

lemma oneLockOracle_refines :
    oneLockOracle.Refines ((lockServer (fun _ => (.empty, .empty)) 9).comap oneLockWorld) where
  answer := by
    rintro s c ans s' hans
    have hsame : (oneLockWorld s).locks.Shrinks 9 (oneLockWorld s).locks := .refl _
    cases c with
    | regionForKey k =>
      cases hans
      refine ⟨hsame, rfl, ?_⟩
      rintro _ h
      cases h
      exact ⟨wholeRegion_contains k, rfl⟩
    | mapRegionToStore | getTimestamp | saveCleanedRegion | getResolved | saveResolved =>
      cases hans; exact ⟨hsame, rfl, trivial⟩
    | isRegionCleaned _ _ => cases hans; exact ⟨hsame, rfl, List.contains_eq_mem _ _⟩
    | gcRpc region request =>
      cases request with
      | checkTxnStatus _ => cases hans; exact ⟨hsame, rfl, trivial⟩
      | batchResolveLock _ =>
        cases hans
        exact ⟨shrinks_oneLockTable _ _, rfl, fun _ _ _ _ _ _ _ _ hl => by cases hl⟩
      | scanLock r =>
        replace hans : (if s.1 = true ∧ region = wholeRegion ∧ r = ⟨.empty, .empty, 9, 1024⟩ then
          some (.ok ⟨none, none, [oneLock]⟩, s) else none) = some (ans, s') := hans
        split_ifs at hans with hs
        obtain ⟨hlocked, rfl, rfl⟩ := hs
        cases hans
        refine ⟨hsame, rfl, ?_⟩
        rintro _ h - -
        cases h
        rw [oneLockWorld, hlocked]
        exact scansLocks_oneLock
      | _ => cases hans
    | _ => cases hans
  drop s cs := ⟨.refl _, fun x hx => .inl hx⟩

/-- The transaction is resolved, and no lock is left. -/
theorem cleanup_of_one_lock :
    ∃ w' tr result, (lockServer (fun _ => (.empty, .empty)) 9).Run (oneLockWorld (true, [])) tr w' ∧
      Returns ((⟨.disable⟩ : TransactionClient).cleanupLocks 20 ⟨.unbounded, .unbounded⟩ 9 .default) tr
        (.ok result) ∧
      (oneLockWorld (true, [])).locks.lockAt ⟨[1]⟩ = some oneLock ∧
      NoneLeft w'.locks ((⟨.unbounded, .unbounded⟩ : BoundRange).encodeKeyspace .disable .txn) 9
        false := by
  have hruns : (((⟨.disable⟩ : TransactionClient).cleanupLocks 20 ⟨.unbounded, .unbounded⟩ 9
      .default).simulate oneLockOracle (true, [])).any (fun run => run.2.1.toBool) = true := by decide
  obtain ⟨tr, res, s', hsim, hok⟩ := exists_returns_of_simulate hruns
  have hrun := (run_of_simulate oneLockOracle_refines hsim).of_comap
  cases res with
  | error e => cases hok
  | ok result =>
    have hreturns := returns_of_simulate hsim
    exact ⟨_, tr, result, hrun, hreturns, rfl,
      (cleanup_skips_nothing ⟨.disable⟩ 20 rfl hrun).1 _ .default result hreturns⟩

end TikvClient
