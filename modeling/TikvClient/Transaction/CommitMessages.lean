import TikvClient.Request.Messages
import TikvClient.Request.RangeShard
import TikvClient.Transaction.AsyncCommit
import TikvClient.Transaction.BufferLemmas
import TikvClient.Transaction.Finishing

/-!
# The commit messages of a transaction

A commit in two phases sends one commit request for its primary and then, from a task, one for the
other keys; with async commit the task sends one for all the keys.  Which of them it is depends on
flags that the prewrite and the commit change on the way, when they fall back.

**A plan that meets no error** sends the keys of its request once (`sent_executePlan`), whatever the
layout of the regions is.  It loses the keys whose lookup fails, and succeeds without them.

**The second phase.**  `SecondPhase` is what a successful commit leaves when it does not end in 1PC:
the primary is one of the commit keys, it is committed before the task is spawned unless the locks
are async-commit locks, and together the commit and its task send every key once, if no lookup fails
(`commit_messages_exact`).  If that of the primary fails, the commit succeeds and nothing is
committed (`lost_primary_not_committed`).
-/

namespace TikvClient

open Proto Prog StateProg

/-! ## Commit requests -/

def asCommit : Call → Option CommitRequest
  | .rpc _ (.commit r) => some r
  | _ => none

/-- A task that commits the secondaries, with the commit timestamp. -/
def asSecondary : Call → Option (Committer × ℕ)
  | .spawn (.commitSecondary c commitTs) => some (c, commitTs)
  | _ => none

def commitRequests (tr : Trace) : List CommitRequest := messages asCommit tr

def CommitSucceeds : Event sig → Prop
  | .answered (.rpc _ (.commit _)) ans =>
    ∃ resp : CommitResponse, ans = .ok resp ∧ resp.error = none ∧ resp.regionError = none
  | _ => True

/-- No commit request fails, and no lookup. -/
def CommitsFine (e : Event sig) : Prop := CommitSucceeds e ∧ LookupsSucceed [e]

/-- The request for some of the keys. -/
def SameCommit (request r : CommitRequest) : Prop := ∃ keys, r = { request with keys := keys }

@[simp] lemma commitRequests_append (tr tr' : Trace) :
    commitRequests (tr ++ tr') = commitRequests tr ++ commitRequests tr' :=
  messages_append _ tr tr'

/-- Calls that are no commit requests. -/
abbrev NoCommit (c : Call) : Prop := asCommit c = none

lemma routing_noCommit : Routing NoCommit := ⟨fun _ => rfl, fun _ => rfl, fun _ _ => rfl⟩

lemma commitRequests_eq_nil {α : Type} {Q : α → Prop} {p : Async α} {tr : Trace} {a : α}
    (h : p.Sat NoCommit (fun _ _ => True) Q) (hrun : Returns p tr a) : commitRequests tr = [] :=
  messages_eq_nil (forall_callsOf h hrun)

/-! ## Plans that meet no error -/

section Plan

variable {tr : Trace} {fuel : ℕ}

/-- A request that succeeds reports no locks, and is sent once. -/
lemma returns_resolveLock_commit {resolve : Resolver} {backoff : Backoff} {region : Region}
    {r : CommitRequest} {res : Except Error CommitResponse}
    (hrun : Returns ((Dispatch.commit.resolveLock resolve fuel backoff).execute region r) tr res)
    (hfine : ∀ e ∈ tr, CommitsFine e) :
    commitRequests tr = [r] ∧
      ∃ resp, res = .ok resp ∧ resp.error = none ∧ resp.regionError = none := by
  obtain ⟨tr₁, tr₂, resp, rfl, hrpc, hloop⟩ | ⟨e, -, hrpc⟩ := returns_andThen_iff.mp hrun
  · obtain rfl := returns_ask_iff.mp hrpc
    obtain ⟨⟨_, heq, herror, hregion⟩, -⟩ := hfine _ (List.mem_append_left _ List.mem_cons_self)
    cases heq
    cases fuel with
    | zero => exact absurd hloop not_returns_stuck
    | succ fuel =>
      have hnone : Dispatch.commit.locks resp = [] := by
        simp [Dispatch.commit, herror, locksOf]
      rw [resolveLockLoop, hnone] at hloop
      obtain ⟨rfl, rfl⟩ := returns_ret_iff.mp hloop
      exact ⟨rfl, resp, rfl, herror, hregion⟩
  · obtain rfl := returns_ask_iff.mp hrpc
    obtain ⟨⟨_, heq, -⟩, -⟩ := hfine _ List.mem_cons_self
    cases heq

lemma sendsOnce_commit (resolve : Resolver) (fuel : ℕ) (backoff : Backoff)
    (request : CommitRequest) :
    (Dispatch.commit.resolveLock resolve fuel backoff).SendsOnce asCommit CommitsFine
      CommitRequest.keys (SameCommit request) where
  shards := by
    rintro _ tr ss ⟨keys, rfl⟩ hrun hfine
    have hsat : ∀ A, _ := fun A => sat_shardsByBatch (A := A) routing_noCommit id Key.len keys
    have hsharding := (hsat _).of_returns_inTrace hrun ss rfl
    refine ⟨commitRequests_eq_nil (hsat _) hrun, fun s _ => ⟨s.1, rfl⟩, hsharding.part.perm ?_⟩
    exact fun k e hmem => (hfine _ hmem).2 k e (List.mem_singleton_self _)
  applyStore := fun _ _ hr => ⟨hr, rfl⟩
  execute := by
    intro region r tr res hrun hfine
    obtain ⟨hsent, resp, rfl, herror, hregion⟩ := returns_resolveLock_commit hrun hfine
    refine ⟨hsent, resp, rfl, ?_, hregion⟩
    simp [Dispatch.resolveLock, Dispatch.plan, Dispatch.commit, herror, Error.extractErrors]
  mapRegionToStore _ := rfl

/-- **A commit plan that meets no error** sends every key of its request once. -/
theorem sent_executePlan {retryOptions : RetryOptions} {request : CommitRequest} {leaves}
    (hrun : Returns (executePlan Dispatch.commit fuel retryOptions request) tr (.ok leaves))
    (hfine : ∀ e ∈ tr, CommitsFine e) :
    ShardedPlan.Sent asCommit CommitRequest.keys (SameCommit request) request tr := by
  obtain ⟨tr₁, tr₂, results, rfl, hshards, hextract⟩ | ⟨e, he, -⟩ := returns_andThen_iff.mp hrun
  · obtain ⟨rfl, -⟩ := returns_ret_iff.mp hextract
    rw [List.append_nil] at hfine ⊢
    exact (sendsOnce_commit _ _ _ request).of_returns fuel request _ 0 tr₁ results
      ⟨request.keys, rfl⟩ hshards hfine
  · cases he

end Plan

/-! ## The phases of a commit -/

namespace Committer

variable {c : Committer} {pk : Key} {tr : Trace} {fuel ts : ℕ}

/-- The commit of the primary sends it once, with the timestamp it returns. -/
lemma sent_commitPrimaryChecked (hpk : c.primaryKey = some pk)
    (hrun : Returns (c.commitPrimaryChecked fuel) tr (.ok ts))
    (hfine : ∀ e ∈ tr, CommitsFine e) :
    ShardedPlan.Sent asCommit CommitRequest.keys
      (SameCommit (newCommitRequestWithPrimaryKey [pk] (some pk) c.startVersion ts))
      (newCommitRequestWithPrimaryKey [pk] (some pk) c.startVersion ts) tr := by
  obtain ⟨tr₁, tr₂, leaves, rfl, hfetch, hplan⟩ := returns_commitPrimaryChecked_ok hrun
  rw [hpk, Option.toList_some] at hplan
  refine (sent_executePlan hplan fun e he => hfine e (List.mem_append_right _ he)).append_left ?_
  exact commitRequests_eq_nil (sat_fetchCommitTimestamp (C := NoCommit) rfl rfl c.options fuel)
    hfetch

/-- The keys that the task commits. -/
def secondaryKeys (c : Committer) (pk : Key) : List Key :=
  if c.options.asyncCommit then c.commitKeys else c.commitKeys.filter (· ≠ pk)

/-- The task sends its keys once, with the timestamp it was given. -/
lemma sent_commitSecondary (hpk : c.primaryKey = some pk) (hmem : pk ∈ c.commitKeys)
    (hrun : Returns (c.commitSecondary fuel ts) tr (.ok ()))
    (hfine : ∀ e ∈ tr, CommitsFine e) :
    ShardedPlan.Sent asCommit CommitRequest.keys
      (SameCommit (newCommitRequest (c.secondaryKeys pk) c.startVersion ts))
      (newCommitRequest (c.secondaryKeys pk) c.startVersion ts) tr := by
  have hplan : ∀ keys, Returns ((executePlan Dispatch.commit fuel c.options.retryOptions
        (newCommitRequest keys c.startVersion ts)).andThen fun _ => .ret (.ok ())) tr (.ok ()) →
      ShardedPlan.Sent asCommit CommitRequest.keys
        (SameCommit (newCommitRequest keys c.startVersion ts))
        (newCommitRequest keys c.startVersion ts) tr := by
    intro keys hrun
    obtain ⟨tr₁, tr₂, leaves, rfl, hplan, hret⟩ | ⟨e, he, -⟩ := returns_andThen_iff.mp hrun
    · obtain ⟨rfl, -⟩ := returns_ret_iff.mp hret
      rw [List.append_nil] at hfine ⊢
      exact sent_executePlan hplan hfine
    · cases he
  unfold commitSecondary commitSecondaryRequest at hrun
  unfold secondaryKeys
  by_cases hasync : c.options.asyncCommit = true
  · rw [if_pos hasync] at hrun ⊢
    exact hplan _ hrun
  · rw [if_neg hasync] at hrun ⊢
    by_cases hone : c.commitKeys.length = 1
    · -- the primary is the only key, and nothing is left
      rw [if_pos hone] at hrun
      obtain ⟨rfl, -⟩ := returns_ret_iff.mp hrun
      obtain ⟨k, hk⟩ := List.length_eq_one_iff.mp hone
      rw [hk, List.mem_singleton] at hmem
      rw [hk, hmem]
      exact ⟨fun m hm => absurd hm List.not_mem_nil, by simp [messages, callsOf, newCommitRequest]⟩
    · rw [if_neg hone] at hrun
      have hfilter : (c.commitKeys.filter fun k => c.primaryKey ≠ some k) =
          c.commitKeys.filter (· ≠ pk) := by
        refine List.filter_congr fun k _ => ?_
        rw [hpk]
        simp [eq_comm]
      rw [hfilter] at hrun
      exact hplan _ hrun

end Committer

/-- **What a commit leaves that goes into the second phase**: its last step is to spawn the task
that commits the rest of the keys. -/
structure SecondPhase (keys : List Key) (startVersion : ℕ) (pk : Key) (task : Committer)
    (commitTs : ℕ) (tr : Trace) : Prop where
  primary : pk ∈ keys
  /-- The commit itself commits no other key. -/
  primaryOnly : ∀ r ∈ commitRequests tr, ∀ k ∈ r.keys, k = pk
  /-- Unless the locks are async-commit locks, the primary is committed when the task is spawned,
  and there is no such task before. -/
  spawned : ∃ tr₁ handle, tr = tr₁ ++ [.answered (.spawn (.commitSecondary task commitTs)) handle] ∧
    messages asSecondary tr₁ = [] ∧
    (task.options.asyncCommit = false → CommitSent pk tr₁)
  /-- Together with the task, every key is sent once, with the commit timestamp. -/
  exact : ∀ fuel tr₂, Returns (task.commitSecondary fuel commitTs) tr₂ (.ok ()) →
    (∀ e ∈ tr ++ tr₂, CommitsFine e) →
    ((commitRequests (tr ++ tr₂)).flatMap (·.keys)).Perm keys ∧
      ∀ r ∈ commitRequests (tr ++ tr₂), r.startVersion = startVersion ∧ r.commitVersion = commitTs

/-- **The commit ends in 1PC**: TiKV has committed it with the prewrite, and no commit is sent. -/
structure EndsInOnePc (commitTs : ℕ) (tr : Trace) : Prop where
  answered : ∃ region r, ∃ resp : PrewriteResponse,
    Event.answered (S := sig) (.rpc region (.prewrite r)) (.ok resp) ∈ tr ∧
      resp.onePcCommitTs = commitTs
  commitTs_ne_zero : commitTs ≠ 0
  no_request : commitRequests tr = []
  no_task : messages asSecondary tr = []

/-- **Only async commit skips the commit of the primary**: it was asked for, and the commit
timestamp is the one that a prewrite was answered with. -/
def DecidedByPrewrite (c task : Committer) (commitTs : ℕ) (tr : Trace) : Prop :=
  task.options.asyncCommit = true → c.options.asyncCommit = true ∧
    ∃ region r, ∃ resp : PrewriteResponse,
      Event.answered (S := sig) (.rpc region (.prewrite r)) (.ok resp) ∈ tr ∧
        resp.minCommitTs = commitTs

lemma DecidedByPrewrite.append_left {c task : Committer} {commitTs : ℕ} {tr : Trace}
    (h : DecidedByPrewrite c task commitTs tr) (tr₀ : Trace) :
    DecidedByPrewrite c task commitTs (tr₀ ++ tr) := by
  intro hasync
  obtain ⟨hoption, region, r, resp, hmem, hts⟩ := h hasync
  exact ⟨hoption, region, r, resp, List.mem_append_right _ hmem, hts⟩

/-- What happens before the second phase. -/
def Preparing (call : Call) : Prop := asCommit call = none ∧ asSecondary call = none

/-- Calls that commit the primary only. -/
def PrimaryCall (pk : Key) (call : Call) : Prop :=
  (∀ r ∈ asCommit call, ∀ k ∈ r.keys, k = pk) ∧ asSecondary call = none

lemma Preparing.primaryCall {call : Call} (h : Preparing call) (pk : Key) : PrimaryCall pk call :=
  ⟨fun r hr => (by rw [h.1] at hr; cases hr), h.2⟩

section Phases

variable {keys : List Key} {startVersion commitTs : ℕ} {pk : Key} {task : Committer}
  {tr tr₀ : Trace}

lemma messages_of_preparing (h : ∀ c ∈ callsOf tr, Preparing c) :
    commitRequests tr = [] ∧ messages asSecondary tr = [] :=
  ⟨messages_eq_nil fun c hc => (h c hc).1, messages_eq_nil fun c hc => (h c hc).2⟩

lemma SecondPhase.append_left (h : SecondPhase keys startVersion pk task commitTs tr)
    (hpre : ∀ c ∈ callsOf tr₀, Preparing c) :
    SecondPhase keys startVersion pk task commitTs (tr₀ ++ tr) where
  primary := h.primary
  primaryOnly := by
    rw [commitRequests_append, (messages_of_preparing hpre).1]
    exact h.primaryOnly
  spawned := by
    obtain ⟨tr₁, handle, rfl, htask, hsent⟩ := h.spawned
    refine ⟨tr₀ ++ tr₁, handle, (List.append_assoc _ _ _).symm, ?_,
      fun hplain => (hsent hplain).mono (List.subset_append_right tr₀ tr₁)⟩
    rw [messages_append, (messages_of_preparing hpre).2, htask, List.append_nil]
  exact := by
    intro fuel tr₂ hrun hfine
    rw [List.append_assoc, commitRequests_append, (messages_of_preparing hpre).1]
    refine h.exact fuel tr₂ hrun fun e he => hfine e ?_
    rw [List.append_assoc]
    exact List.mem_append_right _ he

lemma EndsInOnePc.append_left (h : EndsInOnePc commitTs tr)
    (hpre : ∀ c ∈ callsOf tr₀, Preparing c) : EndsInOnePc commitTs (tr₀ ++ tr) where
  answered := by
    obtain ⟨region, r, resp, hmem, hts⟩ := h.answered
    exact ⟨region, r, resp, List.mem_append_right _ hmem, hts⟩
  commitTs_ne_zero := h.commitTs_ne_zero
  no_request := by
    rw [commitRequests_append, (messages_of_preparing hpre).1, h.no_request, List.append_nil]
  no_task := by
    rw [messages_append, (messages_of_preparing hpre).2, h.no_task, List.append_nil]

end Phases

namespace Committer

variable {c : Committer} {pk : Key} {tr : Trace} {fuel ts : ℕ} {v : Option ℕ}

lemma routing_preparing : Routing Preparing :=
  ⟨fun _ => ⟨rfl, rfl⟩, fun _ => ⟨rfl, rfl⟩, fun _ _ => ⟨rfl, rfl⟩⟩

lemma resolving_preparing (version : ℕ) : Resolving Preparing version :=
  ⟨fun _ _ => ⟨rfl, rfl⟩, fun _ _ => ⟨rfl, rfl⟩⟩

lemma sat_commitPlan_primaryCall (fuel : ℕ) (retryOptions : RetryOptions) {request : CommitRequest}
    (h : ∀ k ∈ request.keys, k = pk) :
    (executePlan Dispatch.commit fuel retryOptions request).Sat (PrimaryCall pk) (fun _ _ => True)
      fun _ => True := by
  have hrouting : Routing (PrimaryCall pk) := routing_preparing.mono fun _ h => h.primaryCall pk
  have hsends : Dispatch.commit.Sends (PrimaryCall pk) (fun _ _ => True) (·.keys)
      (fun r => ∀ k ∈ r.keys, k = pk) _ _ :=
    sends_commit hrouting (fun _ _ hr _ hpart k hk => hr k (hpart k hk))
      fun _ _ hr => ⟨fun _ hr' => Option.some.inj hr' ▸ hr, rfl⟩
  have hresolving : ∀ version, Resolving (PrimaryCall pk) version := fun version =>
    (resolving_preparing version).mono fun _ h => h.primaryCall pk
  exact (hsends.sat_executePlan hrouting (Preparing.primaryCall ⟨rfl, rfl⟩ pk)
    (fun _ _ _ _ l _ => hresolving l.lockVersion) fuel retryOptions h).post fun _ _ => trivial

lemma primaryCall_of_commitPrimaryChecked (hpk : c.primaryKey = some pk)
    (hrun : Returns (c.commitPrimaryChecked fuel) tr (.ok ts)) :
    ∀ call ∈ callsOf tr, PrimaryCall pk call := by
  obtain ⟨tr₁, tr₂, leaves, rfl, hfetch, hplan⟩ := returns_commitPrimaryChecked_ok hrun
  rw [hpk, Option.toList_some] at hplan
  have hsat : (fetchCommitTimestamp c.options fuel).Sat (PrimaryCall pk) (fun _ _ => True)
      fun _ => True :=
    sat_fetchCommitTimestamp (Preparing.primaryCall ⟨rfl, rfl⟩ pk)
      (Preparing.primaryCall ⟨rfl, rfl⟩ pk) c.options fuel
  rw [callsOf_append, List.forall_mem_append]
  refine ⟨forall_callsOf hsat hfetch, forall_callsOf (sat_commitPlan_primaryCall fuel _ ?_) hplan⟩
  exact fun k hk => List.mem_singleton.mp hk

lemma returns_finishCommit_ok (hrun : Returns (c.finishCommit ts) tr (.ok v)) :
    v = some ts ∧ ∃ handle, tr = [.answered (.spawn (.commitSecondary c ts)) handle] := by
  obtain ⟨tr₁, tr₂, handle, rfl, hspawn, hret⟩ := returns_bind_iff.mp hrun
  obtain rfl := returns_ask_iff.mp hspawn
  obtain ⟨rfl, hv⟩ := returns_ret_iff.mp hret
  exact ⟨Except.ok.inj hv, handle, rfl⟩

lemma secondPhase_of_async (hpk : c.primaryKey = some pk) (hmem : pk ∈ c.commitKeys)
    (hasync : c.options.asyncCommit = true) (hrun : Returns (c.finishCommit ts) tr (.ok v)) :
    v = some ts ∧ SecondPhase c.commitKeys c.startVersion pk c ts tr := by
  obtain ⟨hv, handle, rfl⟩ := returns_finishCommit_ok hrun
  refine ⟨hv, hmem, fun r hr => absurd hr List.not_mem_nil, ⟨[], handle, rfl, rfl, ?_⟩,
    fun fuel tr₂ htask hfine => ?_⟩
  · rw [hasync]
    exact Bool.noConfusion
  · have hsent := sent_commitSecondary hpk hmem htask fun e he =>
      hfine e (List.mem_append_right _ he)
    rw [secondaryKeys, if_pos hasync] at hsent
    refine ⟨hsent.perm, fun r hr => ?_⟩
    obtain ⟨keys, rfl⟩ := hsent.inv r hr
    exact ⟨rfl, rfl⟩

/-- In two phases the task commits the keys besides the primary. -/
lemma secondPhase_of_primary (hpk : c.primaryKey = some pk) (hmem : pk ∈ c.commitKeys)
    (hnodup : c.commitKeys.Nodup) (hasync : c.options.asyncCommit = false)
    (hrun : Returns ((c.commitPrimaryChecked fuel).andThen fun commitTs => c.finishCommit commitTs)
      tr (.ok v)) (hfound : LookupsSucceed tr) :
    ∃ commitTs, v = some commitTs ∧ SecondPhase c.commitKeys c.startVersion pk c commitTs tr := by
  obtain ⟨tr₁, tr₂, commitTs, rfl, hprimary, hfinish⟩ | ⟨e, he, -⟩ := returns_andThen_iff.mp hrun
  · obtain ⟨hv, handle, rfl⟩ := returns_finishCommit_ok hfinish
    have hcalls := primaryCall_of_commitPrimaryChecked hpk hprimary
    have hnone : commitRequests [.answered (.spawn (.commitSecondary c commitTs)) handle] = [] :=
      rfl
    refine ⟨commitTs, hv, hmem, fun r hr => ?_, ⟨tr₁, handle, rfl,
      messages_eq_nil fun call hcall => (hcalls call hcall).2,
      fun _ => commitSent_of_commitPrimaryChecked hpk hprimary
        (hfound.mono (List.subset_append_left _ _))⟩, fun fuel tr₂ htask hfine => ?_⟩
    · rw [commitRequests_append, hnone, List.append_nil] at hr
      obtain ⟨call, hcall, hcommit⟩ := List.mem_filterMap.mp hr
      exact (hcalls call hcall).1 r hcommit
    · have hfirst := sent_commitPrimaryChecked hpk hprimary fun e he =>
        hfine e (List.mem_append_left _ (List.mem_append_left _ he))
      have hsecond := sent_commitSecondary hpk hmem htask fun e he =>
        hfine e (List.mem_append_right _ he)
      rw [secondaryKeys, if_neg (by simp [hasync])] at hsecond
      rw [commitRequests_append, commitRequests_append, hnone, List.append_nil,
        List.flatMap_append, List.forall_mem_append]
      refine ⟨(hfirst.perm.append hsecond.perm).trans ?_, fun r hr => ?_, fun r hr => ?_⟩
      · -- the primary, and the keys that are not the primary
        have hnodup' : (pk :: c.commitKeys.filter (· ≠ pk)).Nodup :=
          List.nodup_cons.mpr ⟨by simp, hnodup.filter _⟩
        refine (List.perm_ext_iff_of_nodup hnodup' hnodup).mpr fun k => ?_
        by_cases hk : k = pk
        · simp [hk, hmem]
        · simp [hk]
      · obtain ⟨keys, rfl⟩ := hfirst.inv r hr
        exact ⟨rfl, rfl⟩
      · obtain ⟨keys, rfl⟩ := hsecond.inv r hr
        exact ⟨rfl, rfl⟩
  · cases he

/-- What `commit` does after a prewrite that has not committed by 1PC. -/
lemma secondPhase_of_commitAfterPrewrite {minCommitTs : Option ℕ} (hpk : c.primaryKey = some pk)
    (hmem : pk ∈ c.commitKeys) (hnodup : c.commitKeys.Nodup) (hpc : c.options.tryOnePc = false)
    (hrun : Returns (c.commitAfterPrewrite fuel minCommitTs) tr (.ok v))
    (hfound : LookupsSucceed tr) :
    ∃ commitTs task, v = some commitTs ∧
      SecondPhase c.commitKeys c.startVersion pk task commitTs tr ∧
      (task.options.asyncCommit = true →
        c.options.asyncCommit = true ∧ minCommitTs = some commitTs) := by
  unfold commitAfterPrewrite at hrun
  rw [if_neg (by simp [hpc])] at hrun
  split_ifs at hrun with hasync
  · cases minCommitTs with
    | some ts =>
      obtain ⟨hv, hphase⟩ := secondPhase_of_async hpk hmem hasync hrun
      exact ⟨ts, c, hv, hphase, fun _ => ⟨hasync, rfl⟩⟩
    | none =>
      obtain ⟨commitTs, hv, hphase⟩ := secondPhase_of_primary
        (c := { c with options := { c.options with asyncCommit := false } }) hpk hmem hnodup rfl
        hrun hfound
      exact ⟨commitTs, _, hv, hphase, fun hasync => Bool.noConfusion hasync⟩
  · obtain ⟨commitTs, hv, hphase⟩ :=
      secondPhase_of_primary hpk hmem hnodup (by simpa using hasync) hrun hfound
    exact ⟨commitTs, c, hv, hphase, fun hasync' => absurd hasync' hasync⟩

lemma preparing_of_prewriteAnswered {responses : List PrewriteResponse}
    (h : c.PrewriteAnswered fuel tr responses) : ∀ call ∈ callsOf tr, Preparing call := by
  obtain ⟨pk, ms, tr', leaves, -, rfl, hall, -⟩ := h
  have hsat : (c.prewriteAll fuel (c.prewriteRequest pk ms)).Sat Preparing (fun _ _ => True)
      fun _ => True :=
    sat_prewriteAll_calls routing_preparing ⟨rfl, rfl⟩ resolving_preparing
      (fun _ _ => ⟨rfl, rfl⟩) fuel c _
  exact List.forall_mem_cons.mpr ⟨⟨rfl, rfl⟩, forall_callsOf hsat hall⟩

lemma answered_of_prewriteAnswered {responses : List PrewriteResponse}
    (h : c.PrewriteAnswered fuel tr responses) {resp : PrewriteResponse}
    (hresp : resp ∈ responses) :
    ∃ region r, Event.answered (S := sig) (.rpc region (.prewrite r)) (.ok resp) ∈ tr := by
  obtain ⟨pk, ms, tr', leaves, -, rfl, hall, rfl⟩ := h
  have hsends : Dispatch.prewrite.Sends (fun _ => True) (InTrace (S := sig) tr') (·.mutations)
      (fun _ => True) _ _ :=
    sends_prewrite routing_true (fun _ _ _ _ => trivial) (fun _ _ _ => trivial) fun _ _ _ => trivial
  have hsat := hsends.sat_executeShards routing_true trivial
    (fun _ _ _ _ l _ => resolving_true l.lockVersion) fuel c.options.retryOptions
    (hsends.shards (c.prewriteRequest pk ms) trivial)
  obtain ⟨tr₁, tr₂, results, rfl, hshards, hcollect⟩ | ⟨e, he, -⟩ := returns_andThen_iff.mp hall
  · obtain ⟨rfl, hleaves⟩ := returns_ret_iff.mp hcollect
    rw [List.append_nil] at hsat
    obtain ⟨-, rfl⟩ := collectError_eq_ok_iff.mp hleaves.symm
    obtain ⟨leaf, hleaf, rfl⟩ := List.mem_map.mp hresp
    obtain ⟨-, ⟨region, hmem⟩, -⟩ := (hsat.of_returns_inTrace hshards results rfl).done leaf hleaf
    rw [List.append_nil]
    exact ⟨region, leaf.1, List.mem_cons_of_mem _ hmem⟩
  · cases he

/-- **The messages of a successful commit.** -/
lemma phases_of_commit (hpk : c.primaryKey = some pk) (hmem : pk ∈ c.commitKeys)
    (hnodup : c.commitKeys.Nodup) (hrun : Returns (c.commit fuel) tr (.ok v))
    (hfound : LookupsSucceed tr) :
    ∃ commitTs, v = some commitTs ∧ (EndsInOnePc commitTs tr ∨
      ∃ task, SecondPhase c.commitKeys c.startVersion pk task commitTs tr ∧
        DecidedByPrewrite c task commitTs tr) := by
  obtain ⟨responses, tr₁, tr₂, rfl, hanswered, hrest⟩ := returns_commit_ok_iff.mp hrun
  have hpre := preparing_of_prewriteAnswered hanswered
  replace hfound := hfound.mono (List.subset_append_right tr₁ tr₂)
  unfold commitFrom at hrest
  split at hrest
  · cases (returns_ret_iff.mp hrest).2
  next minCommitTs c' hfinish =>
    cases prewriteOutcome_of_ok hfinish with
    | @onePc r hpc hr hts =>
      unfold commitAfterPrewrite at hrest
      rw [if_pos hpc] at hrest
      obtain ⟨rfl, hv⟩ := returns_ret_iff.mp hrest
      refine ⟨r.onePcCommitTs, Except.ok.inj hv, .inl ?_⟩
      obtain ⟨region, request, hmem⟩ :=
        answered_of_prewriteAnswered hanswered (hr ▸ List.mem_singleton_self r)
      obtain ⟨hcommits, htasks⟩ := messages_of_preparing hpre
      rw [List.append_nil]
      exact ⟨⟨region, request, r, hmem, rfl⟩, hts, hcommits, htasks⟩
    | fellBack =>
      obtain ⟨commitTs, task, hv, hphase, hasync⟩ := secondPhase_of_commitAfterPrewrite
        (c := { c with options := { c.options with asyncCommit := false, tryOnePc := false } })
        hpk hmem hnodup rfl hrest hfound
      refine ⟨commitTs, hv, .inr ⟨task, hphase.append_left hpre, fun htask => ?_⟩⟩
      cases (hasync htask).1
    | aggregated =>
      obtain ⟨commitTs, task, hv, hphase, hasync⟩ := secondPhase_of_commitAfterPrewrite
        (c := { c with options := { c.options with tryOnePc := false } })
        hpk hmem hnodup rfl hrest hfound
      refine ⟨commitTs, hv, .inr ⟨task, hphase.append_left hpre, fun htask => ?_⟩⟩
      obtain ⟨hoption, hts⟩ := hasync htask
      have hne : maxMinCommitTs responses ≠ 0 := by
        intro hzero
        rw [tryFromVersion, if_pos hzero] at hts
        cases hts
      rw [tryFromVersion, if_neg hne] at hts
      obtain ⟨resp, hresp, hmax⟩ := exists_mem_maxMinCommitTs hne
      obtain ⟨region, request, hmem⟩ := answered_of_prewriteAnswered hanswered hresp
      exact ⟨hoption, region, request, resp, List.mem_append_left _ hmem,
        hmax.trans (Option.some.inj hts)⟩

end Committer

/-! ## The transaction -/

namespace Transaction

variable {t t' : Transaction} {tr : Trace} {fuel : ℕ} {v : Option ℕ}

lemma commitKeys_nodup (t : Transaction) : t.commitKeys.Nodup := by
  have hpairwise := Buffer.pairwise_toProtoMutations (b := t.buffer) t.options.assertionLevel
  have hkeys : t.commitKeys.Pairwise (· < ·) := by
    rw [commitKeys, Buffer.commitKeys, List.pairwise_map]
    exact hpairwise.filter _
  exact hkeys.imp ne_of_lt

lemma exists_commitPrimaryKey (hkeys : t.commitKeys ≠ []) :
    ∃ pk ∈ t.commitKeys, t.commitPrimaryKey = some pk := by
  obtain ⟨k, rest, hcons⟩ := List.exists_cons_of_ne_nil hkeys
  rw [commitPrimaryKey, if_neg (by simp [hkeys])]
  cases hfilter : t.buffer.primaryKey.filter fun pk => pk ∈ t.commitKeys with
  | some pk =>
    obtain ⟨-, hmem⟩ := Option.filter_eq_some_iff.mp hfilter
    exact ⟨pk, by simpa using hmem, rfl⟩
  | none =>
    refine ⟨k, by simp [hcons], ?_⟩
    rw [hcons]
    rfl

/-- Before its committer runs, a commit takes the latches and starts the heartbeat. -/
lemma returns_commitTwoPhase {pk : Key} (hkeys : t.commitKeys ≠ []) (hclosed : ¬ t.IsOpen)
    (hrun : Returns ((commitTwoPhase fuel pk).exec t) tr (.ok v, t')) :
    ∃ tr₀ tr₁, tr = tr₀ ++ tr₁ ∧ (∀ c ∈ callsOf tr₀, Preparing c) ∧
      Returns ((t.committer (some pk)).commit fuel) tr₁ (.ok v) := by
  have hended : Ended t t := ⟨SameData.refl t, hclosed⟩
  have htwo := returns_get_bind_iff.mp hrun
  rw [if_neg (by simp [hkeys])] at htwo
  obtain ⟨tr₁, tr₂, u, t₁, rfl, hlatch, hrest⟩ | ⟨e, he, -⟩ := returns_exec_bind_iff.mp htwo
  · obtain ⟨tr₃, tr₄, _, t₂, rfl, hbeat, hrest'⟩ | ⟨e, he, -⟩ := returns_exec_bind_iff.mp hrest
    · obtain ⟨tr₅, tr₆, w, t₃, rfl, hcommit, hend⟩ | ⟨e, he, -⟩ := returns_exec_bind_iff.mp hrest'
      · obtain ⟨-, hcommit⟩ := returns_ofProg_iff.mp hcommit
        obtain ⟨rfl, heq⟩ := returns_ret_iff.mp hend
        cases heq
        have hlatches : Triple Preparing (fun _ _ => True) (· = t) acquireLatches _ :=
          triple_acquireLatches ⟨rfl, rfl⟩ hended
        obtain ⟨hmade, -, hsame⟩ := hlatches.of_returns rfl hlatch fun e _ => by cases e <;> trivial
        obtain rfl := hsame u rfl
        have hheartbeat : Triple Preparing (fun _ _ => True) (· = t₁) (startAutoHeartbeat pk) _ :=
          triple_startAutoHeartbeat ⟨rfl, rfl⟩ hended
        obtain ⟨hmade', -⟩ := hheartbeat.of_returns rfl hbeat fun e _ => by cases e <;> trivial
        refine ⟨tr₁ ++ tr₃, tr₅, by simp, ?_, hcommit⟩
        rw [callsOf_append, List.forall_mem_append]
        exact ⟨forall_callsOf_of_made hmade, forall_callsOf_of_made hmade'⟩
      · cases he
    · cases he
  · cases he

/-- **A commit that succeeds ends with the commit of its committer.** -/
lemma returns_commit_of_commitKeys (hnp : t.options.isPipelined = false) (hkeys : t.commitKeys ≠ [])
    (hrun : Returns ((commit fuel).exec t) tr (.ok v, t')) :
    ∃ pk tr₀ tr₁, pk ∈ t.commitKeys ∧ tr = tr₀ ++ tr₁ ∧ (∀ c ∈ callsOf tr₀, Preparing c) ∧
      Returns ((t.committer (some pk)).commit fuel) tr₁ (.ok v) := by
  by_cases hstatus : t.status ∈ [TransactionStatus.startedCommit, .active]
  · rw [commit, exec_bind, exec_transitStatus_of_mem hstatus, ret_bind] at hrun
    have hbranch := returns_get_bind_iff.mp hrun
    split at hbranch
    next hnil =>
      refine absurd ?_ hkeys
      have hnil : t.prewriteMutations = [] := hnil
      rw [commitKeys, hnil]
      rfl
    next first rest hmutations =>
      obtain ⟨pk, hmem, hpk⟩ := exists_commitPrimaryKey hkeys
      dsimp only at hbranch
      rw [if_neg (by simp [hnp])] at hbranch
      have hchosen : ({ t with status := .startedCommit } : Transaction).commitPrimaryKey = some pk :=
        hpk
      rw [hchosen] at hbranch
      obtain ⟨tr₀, tr₁, htr, hpre, hcommit⟩ := returns_commitTwoPhase
        (t := { t with status := .startedCommit }) hkeys (by rintro (h | h) <;> cases h) hbranch
      exact ⟨pk, tr₀, tr₁, hmem, htr, hpre, hcommit⟩
  · rw [commit, exec_bind, exec_transitStatus_of_not_mem hstatus, ret_bind] at hrun
    cases (returns_ret_iff.mp hrun).2

/-- **The messages of a commit cover its commit keys exactly**: it ends in 1PC, or goes into the
second phase. -/
def MessagesExact (t : Transaction) (commitTs : ℕ) (tr : Trace) : Prop :=
  EndsInOnePc commitTs tr ∨
    ∃ pk task, SecondPhase t.commitKeys t.timestamp pk task commitTs tr ∧
      DecidedByPrewrite (t.committer (some pk)) task commitTs tr

/-- **The commit messages of a transaction cover its commit keys exactly, if no lookup fails.**  A
successful commit that is not pipelined and has commit keys ends in 1PC, or goes into the second
phase: its primary is one of the commit keys, and the commit requests of the commit and of the task
it spawns have every commit key once and no other key, with the commit timestamp that is returned,
if they all succeed.  Unless it was decided by the prewrite, with async commit, the primary is
committed before the task is spawned. -/
theorem commit_messages_exact (hnp : t.options.isPipelined = false) (hkeys : t.commitKeys ≠ [])
    (hrun : Returns ((commit fuel).exec t) tr (.ok v, t')) (hfound : LookupsSucceed tr) :
    ∃ commitTs, v = some commitTs ∧ t.commitKeys.Nodup ∧ t.MessagesExact commitTs tr := by
  obtain ⟨pk, tr₀, tr₁, hmem, rfl, hpre, hcommit⟩ := returns_commit_of_commitKeys hnp hkeys hrun
  have hnodup := t.commitKeys_nodup
  obtain ⟨commitTs, hv, hphases⟩ := Committer.phases_of_commit (c := t.committer (some pk)) rfl hmem
    hnodup hcommit (hfound.mono (List.subset_append_right tr₀ tr₁))
  refine ⟨commitTs, hv, hnodup, ?_⟩
  rcases hphases with hone | ⟨task, hsecond, hdecided⟩
  · exact .inl (hone.append_left hpre)
  · exact .inr ⟨pk, task, hsecond.append_left hpre, hdecided.append_left tr₀⟩

/-- Regions that accept prewrites and commits. -/
def acceptWrites (_ : Region) : (request : Request) → Except Error request.Response
  | .prewrite _ => .ok ⟨none, [], 0, 0⟩
  | .commit _ => .ok ⟨none, none, 0⟩
  | _ => .error (.internalError "no other requests")

/-- A transaction that writes one key of each of two regions. -/
def twoRegionWrites : Transaction :=
  { Transaction.new 7 .newOptimistic false with
    buffer := ((Buffer.new false).put ⟨[1]⟩ [1]).put ⟨[9]⟩ [9] }

/-- Its commit goes through both phases. -/
theorem two_region_commit_messages :
    ∃ tr v t' commitTs, Returns ((commit 9).exec twoRegionWrites) tr (.ok v, t') ∧
      v = some commitTs ∧ twoRegionWrites.MessagesExact commitTs tr := by
  have hcheck : ((((commit 9).exec twoRegionWrites).eval
      (fixedCluster twoRegions acceptWrites)).any fun r => r.1.toBool) = true := by
    decide +kernel
  have hcommitKeys : twoRegionWrites.commitKeys ≠ [] := by decide
  rcases heval : ((commit 9).exec twoRegionWrites).eval (fixedCluster twoRegions acceptWrites) with
    - | ⟨e | v, t'⟩
  · rw [heval] at hcheck
    cases hcheck
  · rw [heval] at hcheck
    cases hcheck
  · obtain ⟨tr, hrun, hans⟩ := exists_returns_of_eval heval
    have hfound : LookupsSucceed tr := fun k e hmem => by
      obtain ⟨region, -, hregion, -⟩ := routes_fixedCluster isPartition_twoRegions acceptWrites k
      cases (hans _ hmem).trans hregion
    obtain ⟨commitTs, hv, -, hexact⟩ := commit_messages_exact rfl hcommitKeys hrun hfound
    exact ⟨tr, v, t', commitTs, hrun, hv, hexact⟩

/-! ## A lookup that fails -/

/-- A cluster where lookups fail once a region was found. -/
def losesRegions : Oracle sig Bool where
  answer lost
    | .regionForKey key =>
      some (if lost then .error .grpc else fixedCluster twoRegions acceptWrites (.regionForKey key),
        true)
    | c => some (fixedCluster twoRegions acceptWrites c, lost)
  pick _ := Oracle.first
  drop lost _ := lost

def oneWrite : Transaction :=
  { Transaction.new 7 .newOptimistic false with buffer := (Buffer.new false).put ⟨[1]⟩ [1] }

/-- **A commit whose primary is not found**: it succeeds and spawns its task, and the primary is
never sent. -/
theorem lost_primary_not_committed :
    ∃ tr commitTs t', Returns ((commit 9).exec oneWrite) tr (.ok (some commitTs), t') ∧
      commitRequests tr = [] ∧ ¬ oneWrite.MessagesExact commitTs tr := by
  have hcheck : (((commit 9).exec oneWrite).simulate losesRegions false).any (fun run =>
      run.2.1.1.toOption = some (some 0) && commitRequests run.1 = [] &&
      (messages asSecondary run.1).map (fun m => m.1.options.asyncCommit) = [false]) = true := by
    decide +kernel
  obtain ⟨tr, ⟨res, t'⟩, lost, hsim, hrun⟩ := exists_returns_of_simulate hcheck
  simp only [Bool.and_eq_true, decide_eq_true_eq] at hrun
  obtain ⟨⟨hres, hnone⟩, htasks⟩ := hrun
  obtain ⟨v, rfl⟩ : ∃ v, res = .ok v := by
    cases res with
    | error e => cases hres
    | ok v => exact ⟨v, rfl⟩
  cases Option.some.inj hres
  refine ⟨tr, 0, t', returns_of_simulate hsim, hnone, ?_⟩
  rintro (hone | ⟨pk, task, hphase, -⟩)
  · rw [hone.no_task] at htasks
    cases htasks
  · -- the only task expects the primary to be committed
    obtain ⟨tr₁, handle, rfl, hfirst, hsent⟩ := hphase.spawned
    rw [messages_append, hfirst] at htasks
    obtain ⟨region, request, resp, hmem, -⟩ := hsent (List.cons.inj htasks).1
    have hcommit : request ∈ commitRequests tr₁ :=
      List.mem_filterMap.mpr ⟨_, List.mem_flatMap.mpr ⟨_, hmem, List.mem_singleton_self _⟩, rfl⟩
    rw [commitRequests_append, List.append_eq_nil_iff] at hnone
    rw [hnone.1] at hcommit
    cases hcommit

end Transaction

end TikvClient
