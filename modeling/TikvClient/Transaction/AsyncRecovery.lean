import TikvClient.Transaction.Cleanup
import TikvClient.Transaction.RequestLemmas

/-!
# Recovering async commits

An async-commit transaction is decided by its secondary locks.  `check_all_secondaries` goes through
the responses of the regions, with a running maximum, a flag for missing locks and the commit
timestamp that a missing lock determines.

**The order does not matter.**  Whatever the order of the responses, the result is the one that the
comment in the source describes (`recovered`): the transaction fell back to two-phase commit, or the
commit timestamp reported with the missing locks decides, or the largest `min_commit_ts` does.
-/

namespace TikvClient

open Proto Prog

/-- `ResponseWithShard`: a response and the keys it is about. -/
abbrev CheckedShard := CheckSecondaryLocksRequest × CheckSecondaryLocksResponse

namespace CheckedShard

/-- There are fewer locks than keys. -/
def missing (x : CheckedShard) : Bool := decide (x.2.locks.length < x.1.keys.length)

/-- All locks are there, one of which is not of an async commit. -/
def fellBack (x : CheckedShard) : Bool := !x.missing && x.2.locks.any (!·.useAsyncCommit)

end CheckedShard

/-- **What the locks of a transaction say**: it fell back, or a missing lock decides, or the largest
`min_commit_ts`. -/
def recovered (primaryMinCommitTs commitTs : ℕ) (responses : List CheckedShard) :
    SecondaryLocksStatus :=
  if responses.any CheckedShard.fellBack then ⟨none, primaryMinCommitTs, true⟩
  else if responses.any CheckedShard.missing then
    ⟨if commitTs = 0 then none else some commitTs, commitTs, false⟩
  else
    ⟨none,
      ((responses.flatMap fun x => x.2.locks).map (·.minCommitTs)).foldl max primaryMinCommitTs,
      false⟩

/-- **The responses are of one state of TiKV**, in which the missing locks were committed at
`commitTs`, or rolled back if it is 0. -/
structure OfOneState (primaryMinCommitTs commitTs : ℕ) (responses : List CheckedShard) : Prop where
  reported : ∀ x ∈ responses, x.missing = true → x.2.commitTs = commitTs
  primary : commitTs = 0 ∨ primaryMinCommitTs ≤ commitTs
  locks : commitTs = 0 ∨ ∀ x ∈ responses, ∀ l ∈ x.2.locks, l.minCommitTs ≤ commitTs

section Loop

variable {primaryMinCommitTs commitTs : ℕ} {responses : List CheckedShard}

lemma OfOneState.perm {responses' : List CheckedShard} (h : responses'.Perm responses)
    (hstate : OfOneState primaryMinCommitTs commitTs responses) :
    OfOneState primaryMinCommitTs commitTs responses' where
  reported x hx := hstate.reported x (h.mem_iff.mp hx)
  primary := hstate.primary
  locks := hstate.locks.imp_right fun hle x hx => hle x (h.mem_iff.mp hx)

lemma recovered_perm {responses' : List CheckedShard} (h : responses'.Perm responses) :
    recovered primaryMinCommitTs commitTs responses' =
      recovered primaryMinCommitTs commitTs responses := by
  have hlocks := (h.flatMap_right fun x => x.2.locks).map (·.minCommitTs)
  rw [recovered, recovered, h.any_eq, h.any_eq, hlocks.foldl_eq]

/-- Once a lock is missing, only a fallback changes the result. -/
lemma secondariesStatus_missing (minCommitTs : ℕ)
    (hreported : ∀ x ∈ responses, x.missing = true → x.2.commitTs = commitTs) :
    secondariesStatus primaryMinCommitTs responses minCommitTs true (some commitTs) =
      .ok (if responses.any CheckedShard.fellBack then ⟨none, primaryMinCommitTs, true⟩
        else ⟨if commitTs = 0 then none else some commitTs, commitTs, false⟩) := by
  induction responses with
  | nil => rfl
  | cons x rest ih =>
    obtain ⟨hx, hrest⟩ := List.forall_mem_cons.mp hreported
    obtain ⟨shard, resp⟩ := x
    rw [secondariesStatus]
    by_cases hmissing : resp.locks.length < shard.keys.length
    · have hm : CheckedShard.missing (shard, resp) = true := decide_eq_true hmissing
      have hcommit : commitTs = resp.commitTs := (hx hm).symm
      simp only [if_pos hmissing, if_pos hcommit, ih hrest, List.any_cons, CheckedShard.fellBack,
        hm, Bool.not_true, Bool.false_and, Bool.false_or]
    · have hm : CheckedShard.missing (shard, resp) = false := decide_eq_false hmissing
      simp only [if_neg hmissing, if_true, ih hrest, List.any_cons, CheckedShard.fellBack, hm,
        Bool.not_false, Bool.true_and]
      cases resp.locks.any (!·.useAsyncCommit) with
      | true => rfl
      | false => rfl

/-- A running maximum stays at or below a bound of all that it is taken of. -/
lemma foldl_max_le {bound : ℕ} (locks : List LockInfo) :
    ∀ m, m ≤ bound → (∀ l ∈ locks, l.minCommitTs ≤ bound) →
      locks.foldl (fun ts lock => max ts lock.minCommitTs) m ≤ bound := by
  induction locks with
  | nil => exact fun m hm _ => hm
  | cons l rest ih =>
    intro m hm hlocks
    obtain ⟨hl, hrest⟩ := List.forall_mem_cons.mp hlocks
    exact ih (max m l.minCommitTs) (max_le hm hl) hrest

/-- **The loop computes what the locks say**, from any running maximum. -/
lemma secondariesStatus_eq (hreported : ∀ x ∈ responses, x.missing = true → x.2.commitTs = commitTs)
    (hlocks : commitTs = 0 ∨ ∀ x ∈ responses, ∀ l ∈ x.2.locks, l.minCommitTs ≤ commitTs) :
    ∀ minCommitTs, (commitTs = 0 ∨ minCommitTs ≤ commitTs) →
      secondariesStatus primaryMinCommitTs responses minCommitTs false none =
        .ok (if responses.any CheckedShard.fellBack then ⟨none, primaryMinCommitTs, true⟩
          else if responses.any CheckedShard.missing then
            ⟨if commitTs = 0 then none else some commitTs, commitTs, false⟩
          else ⟨none, ((responses.flatMap fun x => x.2.locks).map (·.minCommitTs)).foldl max
            minCommitTs, false⟩) := by
  induction responses with
  | nil => exact fun _ _ => rfl
  | cons x rest ih =>
    intro minCommitTs hbound
    obtain ⟨hx, hrest⟩ := List.forall_mem_cons.mp hreported
    have hlocksRest := hlocks.imp_right fun h => (List.forall_mem_cons.mp h).2
    obtain ⟨shard, resp⟩ := x
    rw [secondariesStatus]
    by_cases hmissing : resp.locks.length < shard.keys.length
    · -- The first missing lock: its commit timestamp is not below the maximum so far.
      have hm : CheckedShard.missing (shard, resp) = true := decide_eq_true hmissing
      have hcommit : resp.commitTs = commitTs := hx hm
      have hnot : ¬ (commitTs ≠ 0 ∧ commitTs < minCommitTs) := by omega
      simp only [if_pos hmissing, hcommit, if_neg hnot, secondariesStatus_missing _ hrest,
        List.any_cons, CheckedShard.fellBack, hm, Bool.not_true, Bool.false_and, Bool.false_or,
        Bool.true_or, if_true]
    · have hm : CheckedShard.missing (shard, resp) = false := decide_eq_false hmissing
      simp only [if_neg hmissing, List.any_cons, CheckedShard.fellBack, hm, Bool.not_false,
        Bool.true_and, Bool.false_or]
      cases resp.locks.any (!·.useAsyncCommit) with
      | true => rfl
      | false =>
        have hnext : commitTs = 0 ∨ resp.locks.foldl (fun ts lock => max ts lock.minCommitTs)
            minCommitTs ≤ commitTs := by
          rcases hlocks with h | h
          · exact .inl h
          · rcases hbound with hb | hb
            · exact .inl hb
            · exact .inr (foldl_max_le _ _ hb (h _ List.mem_cons_self))
        simp only [Bool.false_eq_true, if_false, ih hrest hlocksRest _ hnext, Bool.false_or,
          List.flatMap_cons, List.map_append, List.foldl_append, List.foldl_map]

end Loop

/-- The calls of `check_all_secondaries` are those of its plan. -/
lemma LockResolver.sat_checkAllSecondaries_calls {C : Call → Prop} {A : Answers}
    (hC : Routing C) (hrpc : ∀ region r, C (.gcRpc region r)) (fuel : ℕ) (keys : List Key)
    (txnId primaryMinCommitTs : ℕ) :
    (checkAllSecondaries fuel keys txnId primaryMinCommitTs).Sat C A fun _ => True := by
  refine Sat.andThen (ShardedPlan.sat_retryMultiRegion_calls hC
    (fun r => (sat_shardsByRegion hC id r.keys).post fun _ _ => trivial)
    (fun region r => (Async.sat_gcRpc (hrpc _ _)).post fun _ _ => trivial) _ _ _ _)
    (fun results _ => ?_) fun _ _ => trivial
  split
  · trivial
  · trivial

/-- **Async-commit recovery does not depend on the order of the responses**: for responses of one
state of TiKV, in any order, it succeeds with what the locks say. -/
theorem recovery_decides (primaryMinCommitTs commitTs : ℕ)
    {responses responses' : List CheckedShard}
    (hstate : OfOneState primaryMinCommitTs commitTs responses)
    (hperm : responses'.Perm responses) :
    secondariesStatus primaryMinCommitTs responses' primaryMinCommitTs false none =
        .ok (recovered primaryMinCommitTs commitTs responses) ∧
      ∀ fuel keys txnId tr results,
        Returns (checkSecondaryLocksPlan.retryMultiRegion false fuel
          (newCheckSecondaryLocksRequest keys txnId) .defaultRegionBackoff) tr (.ok results) →
        extractError results = .ok responses' →
        Returns (LockResolver.checkAllSecondaries fuel keys txnId primaryMinCommitTs) tr
          (.ok (recovered primaryMinCommitTs commitTs responses)) := by
  have hstate' := hstate.perm hperm
  have hloop : secondariesStatus primaryMinCommitTs responses' primaryMinCommitTs false none =
      .ok (recovered primaryMinCommitTs commitTs responses) := by
    rw [← recovered_perm hperm]
    exact secondariesStatus_eq hstate'.reported hstate'.locks _ hstate'.primary
  refine ⟨hloop, fun fuel keys txnId tr results hreturns hresults => ?_⟩
  refine returns_andThen_iff.mpr (.inl ⟨tr, [], results, (List.append_nil tr).symm, hreturns, ?_⟩)
  simp only [hresults, hloop]
  exact Steps.refl _

/-- One region still has the lock of the second secondary, another one lacks that of the first: they
were committed at 12. -/
theorem recovery_of_two_regions :
    secondariesStatus 10
        [(⟨[⟨[2]⟩], 5⟩, ⟨none, none, [⟨⟨[2]⟩, ⟨[1]⟩, 5, 3000, .put, true, 11, []⟩], 0⟩),
        (⟨[⟨[3]⟩], 5⟩, ⟨none, none, [], 12⟩)] 10 false none = .ok ⟨some 12, 12, false⟩ :=
  (recovery_decides 10 12 ⟨by decide, by decide, by decide⟩ (List.Perm.refl _)).1

end TikvClient
