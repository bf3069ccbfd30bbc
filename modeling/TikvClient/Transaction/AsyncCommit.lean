import TikvClient.Transaction.Committer
import TikvClient.Transaction.RequestLemmas

/-!
# Async commit: when success is durable

With async commit, `Committer::commit` may report success right after the prewrite: the
transaction is then committed *by* its locks, provided that every one of them is an
async-commit lock.  TiKV can decline, request by request, by answering `min_commit_ts = 0`:
the locks of that request are plain ones, and the transaction is committed only once its
primary is.

**What the code decides from** is the largest `min_commit_ts` over all responses.  A zero is
seen only when all of them are zero; mixed responses make the commit report success although
some locks are plain.  And the commit of the primary may succeed without being sent, if the lookup
of its region fails.  `asyncCommit_durable_iff` says exactly that, and
`mixed_responses_not_durable` is the smallest such run.
-/

namespace TikvClient

open Proto Prog

/-- A commit request for `key` was answered without an error somewhere in the run. -/
def CommitSent (key : Key) (tr : Trace) : Prop :=
  ∃ region request, ∃ resp : CommitResponse,
    Event.answered (S := sig) (.rpc region (.commit request)) (.ok resp) ∈ tr ∧
      key ∈ request.keys ∧ resp.error = none ∧ resp.regionError = none

variable {tr : Trace}

lemma CommitSent.mono {key : Key} {tr' : Trace} (h : CommitSent key tr)
    (hsub : tr ⊆ tr') : CommitSent key tr' := by
  obtain ⟨region, request, resp, hmem, hrest⟩ := h
  exact ⟨region, request, resp, hsub hmem, hrest⟩

/-! ## A commit plan that succeeds has sent its commits -/

lemma resolving_true (version : ℕ) : Resolving (fun _ => True) version :=
  ⟨fun _ _ => trivial, fun _ _ => trivial⟩

/-- **Success of a commit plan means that every key of the request was committed**, if no lookup
failed. -/
theorem commitSent_of_executePlan {fuel : ℕ} {retryOptions : RetryOptions}
    {request : CommitRequest} {leaves}
    (h : Returns (executePlan Dispatch.commit fuel retryOptions request) tr (.ok leaves))
    (hfound : LookupsSucceed tr) {k : Key} (hk : k ∈ request.keys) : CommitSent k tr := by
  have hsends : Dispatch.commit.Sends (fun _ => True) (InTrace (S := sig) tr) (·.keys)
      (fun _ => True) _ _ :=
    sends_commit routing_true (fun _ _ _ _ _ => trivial) fun _ _ _ => trivial
  have hsat := hsends.sat_executePlan routing_true trivial
    (fun _ _ _ _ l _ => resolving_true l.lockVersion) fuel retryOptions (r := request) trivial
  have hcov := hsat.of_returns_inTrace h leaves rfl
  obtain ⟨x, hx, hkx⟩ := List.mem_flatMap.mp ((hcov.part.perm hfound.finds).mem_iff.mpr hk)
  obtain ⟨-, ⟨region, hmem⟩, herr, hregion⟩ := hcov.done x hx
  exact ⟨region, x.1, x.2, hmem, hkx, by simpa [Dispatch.commit] using herr, hregion⟩

namespace Committer

variable {fuel : ℕ} {c : Committer} {tr : Trace} {pk : Key} {v : Option ℕ}
  {responses : List PrewriteResponse}
  {ts : ℕ} {c' : Committer} {r s : PrewriteResponse}

/-- A commit of the primary that succeeds: the timestamp is fetched, then the primary is committed
with it. -/
lemma returns_commitPrimaryChecked_ok (h : Returns (c.commitPrimaryChecked fuel) tr (.ok ts)) :
    ∃ tr₁ tr₂ leaves, tr = tr₁ ++ tr₂ ∧
      Returns (fetchCommitTimestamp c.options fuel) tr₁ (.ok ts) ∧
      Returns (executePlan Dispatch.commit fuel c.options.retryOptions
        (newCommitRequestWithPrimaryKey c.primaryKey.toList c.primaryKey c.startVersion ts)) tr₂
        (.ok leaves) := by
  obtain ⟨tr₁, tr₂, r, rfl, hprimary, hfinish⟩ := returns_bind_iff.mp h
  cases r with
  | error e =>
    obtain ⟨e, undetermined⟩ := e
    cases undetermined <;> simp at hfinish
  | ok commitTs =>
    obtain ⟨rfl, hts⟩ := returns_ret_iff.mp hfinish
    cases hts
    obtain ⟨tr₃, tr₄, r, rfl, hfetch, hcommit⟩ := returns_bind_iff.mp hprimary
    cases r with
    | error e => simp at hcommit
    | ok commitVersion =>
      obtain ⟨tr₅, tr₆, r, rfl, hplan, hend⟩ := returns_bind_iff.mp hcommit
      cases r with
      | error e => simp at hend
      | ok leaves =>
        obtain ⟨rfl, hts⟩ := returns_ret_iff.mp hend
        cases hts
        exact ⟨tr₃, tr₅, leaves, by simp, hfetch, hplan⟩

lemma commitSent_of_commitPrimaryChecked (hpk : c.primaryKey = some pk)
    (h : Returns (c.commitPrimaryChecked fuel) tr (.ok ts)) (hfound : LookupsSucceed tr) :
    CommitSent pk tr := by
  obtain ⟨tr₁, tr₂, leaves, rfl, -, hplan⟩ := returns_commitPrimaryChecked_ok h
  have hsub := List.subset_append_right tr₁ tr₂
  refine (commitSent_of_executePlan hplan (hfound.mono hsub) ?_).mono hsub
  simp [newCommitRequestWithPrimaryKey, newCommitRequest, hpk]

lemma commitSent_of_secondPhase (hpk : c.primaryKey = some pk)
    (h : Returns ((c.commitPrimaryChecked fuel).andThen fun commitTs => c.finishCommit commitTs)
      tr (.ok v)) (hfound : LookupsSucceed tr) : CommitSent pk tr := by
  rcases returns_andThen_iff.mp h with ⟨tr₁, tr₂, ts, rfl, hprimary, -⟩ | ⟨e, he, -⟩
  · have hsub := List.subset_append_left tr₁ tr₂
    exact (commitSent_of_commitPrimaryChecked hpk hprimary (hfound.mono hsub)).mono hsub
  · cases he

/-- **A failed lookup of the primary is not noticed**: the commit of the primary succeeds, and
nothing is sent. -/
lemma returns_commitPrimaryChecked_unsent (hpk : c.primaryKey = some pk) (e : Error) (fuel : ℕ) :
    ∃ ts, Returns (c.commitPrimaryChecked (fuel + 1))
      [.answered (S := sig) .getTimestamp (.ok ts),
        .answered (S := sig) (.regionForKey pk) (.error e)] (.ok ts) := by
  obtain ⟨ts, hfetch⟩ : ∃ ts, Returns (fetchCommitTimestamp c.options (fuel + 1))
      [.answered (S := sig) .getTimestamp (.ok ts)] (.ok ts) := by
    unfold fetchCommitTimestamp
    cases c.options.commitWaitUntilTso with
    | none => exact ⟨0, Steps.call (S := sig) (c := .getTimestamp) (.ok 0) (.refl _)⟩
    | some wait =>
      refine ⟨wait, Steps.call (S := sig) (c := .getTimestamp) (.ok wait) ?_⟩
      show Returns (if wait ≥ wait then ret (Except.ok wait) else _) [] _
      rw [if_pos le_rfl]
      exact .refl _
  -- the plan finds no shards, and so there is nothing that could fail
  have hplan : Returns (executePlan Dispatch.commit (fuel + 1) c.options.retryOptions
      (newCommitRequestWithPrimaryKey c.primaryKey.toList c.primaryKey c.startVersion ts))
      [.answered (S := sig) (.regionForKey pk) (.error e)] (.ok []) := by
    rw [hpk]
    cases fuel <;> exact Steps.call (S := sig) (c := .regionForKey pk) (.error e) (.refl _)
  refine ⟨ts, returns_bind_iff.mpr ⟨_, [], .ok ts, (List.append_nil _).symm, ?_, .refl _⟩⟩
  refine returns_bind_iff.mpr ⟨_, _, .ok ts, rfl, hfetch, ?_⟩
  exact returns_bind_iff.mpr ⟨_, [], .ok [], (List.append_nil _).symm, hplan, .refl _⟩

/-! ## What the responses decide -/

/-- The rest of `commit` once the prewrite requests are answered. -/
def commitFrom (fuel : ℕ) (c : Committer) (responses : List PrewriteResponse) :
    AsyncResult (Option ℕ) :=
  match c.prewriteFinish responses with
  | .error e => .ret (.error e)
  | .ok (minCommitTs, c) => c.commitAfterPrewrite fuel minCommitTs

/-- The events `tr` are a prewrite of the mutations, split in some way over requests that were
answered, without errors, by `responses`. -/
def PrewriteAnswered (fuel : ℕ) (c : Committer) (tr : Trace)
    (responses : List PrewriteResponse) : Prop :=
  ∃ pk elapsedMs tr' leaves, c.primaryKey = some pk ∧
    tr = Event.answered (S := sig) .elapsed elapsedMs :: tr' ∧
    Returns (c.prewriteAll fuel (c.prewriteRequest pk elapsedMs)) tr' (.ok leaves) ∧
    leaves.map Prod.snd = responses

/-- **The successful runs of `commit`**: prewrites that are answered, and the rest. -/
theorem returns_commit_ok_iff :
    Returns (c.commit fuel) tr (.ok v) ↔ ∃ responses tr₁ tr₂, tr = tr₁ ++ tr₂ ∧
      c.PrewriteAnswered fuel tr₁ responses ∧
      Returns (c.commitFrom fuel responses) tr₂ (.ok v) := by
  have hfrom : ∀ responses tr₂, Returns (c.commitFrom fuel responses) tr₂ (.ok v) ↔
      ∃ r, c.prewriteFinish responses = .ok r ∧
        Returns (r.2.commitAfterPrewrite fuel r.1) tr₂ (.ok v) := by
    intro responses tr₂
    unfold commitFrom
    cases hfin : prewriteFinish c responses with
    | error e => simp
    | ok r => simp
  constructor
  · intro h
    obtain ⟨tr₁, tr₂, r, rfl, hpre, hafter⟩ :=
      (returns_andThen_iff.mp h).resolve_right (by rintro ⟨e, he, -⟩; cases he)
    unfold prewrite at hpre
    split at hpre
    · simp at hpre
    next pk hpk =>
      rw [Async.elapsed_bind] at hpre
      obtain ⟨ms, tr', rfl, hplan⟩ := returns_call_iff.mp hpre
      obtain ⟨tr₃, tr₄, res, rfl, hall, hfin⟩ := returns_bind_iff.mp hplan
      cases res with
      | error e => simp at hfin
      | ok leaves =>
        obtain ⟨rfl, hres⟩ := returns_ret_iff.mp hfin
        rw [List.append_nil]
        exact ⟨leaves.map Prod.snd, _, tr₂, rfl, ⟨pk, ms, tr₃, leaves, hpk, rfl, hall, rfl⟩,
          (hfrom _ _).mpr ⟨r, hres.symm, hafter⟩⟩
  · rintro ⟨_, tr₁, tr₂, rfl, ⟨pk, ms, tr', leaves, hpk, rfl, hall, rfl⟩, hrest⟩
    obtain ⟨r, hfin, hafter⟩ := (hfrom _ _).mp hrest
    refine returns_andThen_iff.mpr (.inl ⟨_, tr₂, r, rfl, ?_, hafter⟩)
    simp only [prewrite, hpk, Async.elapsed_bind]
    refine returns_call_iff.mpr ⟨ms, tr', rfl, ?_⟩
    refine returns_bind_iff.mpr ⟨tr', [], .ok leaves, by simp, hall, ?_⟩
    exact returns_ret_iff.mpr ⟨rfl, hfin.symm⟩

lemma aggregateResponses_ok
    {minCommitTs : Option ℕ} (h : c.aggregateResponses responses = .ok (minCommitTs, c')) :
    (∀ r ∈ responses, r.onePcCommitTs = 0) ∧
      minCommitTs = tryFromVersion (maxMinCommitTs responses) ∧
      c' = { c with options := { c.options with tryOnePc := false } } := by
  unfold aggregateResponses at h
  split_ifs at h with hall
  cases h
  exact ⟨fun r hr => by simpa using List.all_eq_true.mp hall r hr, rfl, rfl⟩

/-- **The three ways a prewrite can succeed**: committed by 1PC, fallen back from a single 1PC
request, or decided by the largest `min_commit_ts`. -/
inductive PrewriteOutcome (c : Committer) (responses : List PrewriteResponse) :
    Option ℕ → Committer → Prop where
  | onePc {r : PrewriteResponse} (hpc : c.options.tryOnePc = true) (hr : responses = [r])
      (hts : r.onePcCommitTs ≠ 0) : PrewriteOutcome c responses (some r.onePcCommitTs) c
  | fellBack {r : PrewriteResponse} (hpc : c.options.tryOnePc = true) (hr : responses = [r])
      (hone : r.onePcCommitTs = 0) (hmin : r.minCommitTs = 0) :
      PrewriteOutcome c responses none
        { c with options := { c.options with asyncCommit := false, tryOnePc := false } }
  | aggregated (hone : ∀ r ∈ responses, r.onePcCommitTs = 0) :
      PrewriteOutcome c responses (tryFromVersion (maxMinCommitTs responses))
        { c with options := { c.options with tryOnePc := false } }

lemma prewriteOutcome_of_ok
    {minCommitTs : Option ℕ} (h : c.prewriteFinish responses = .ok (minCommitTs, c')) :
    c.PrewriteOutcome responses minCommitTs c' := by
  unfold prewriteFinish at h
  split at h
  next response hpc =>
    split_ifs at h with hone hmin
    · rw [tryFromVersion, if_neg hone] at h
      cases h
      exact .onePc hpc rfl hone
    · obtain ⟨-, rfl, rfl⟩ := aggregateResponses_ok h
      rw [ne_eq, not_not] at hone hmin
      have hnone : tryFromVersion (maxMinCommitTs [response]) = none := by
        rw [tryFromVersion, if_pos]
        simpa [maxMinCommitTs] using hmin
      rw [hnone]
      exact .fellBack hpc rfl hone hmin
  next =>
    obtain ⟨hzero, rfl, rfl⟩ := aggregateResponses_ok h
    exact .aggregated hzero

lemma foldl_max_eq_zero_iff {xs : List ℕ} :
    ∀ a, xs.foldl max a = 0 ↔ a = 0 ∧ ∀ x ∈ xs, x = 0 := by
  induction xs with
  | nil => simp
  | cons x xs ih =>
    intro a
    rw [List.foldl_cons, ih, Nat.max_eq_zero_iff, List.forall_mem_cons, and_assoc]

/-- **The maximum is zero only if every response declined.** -/
lemma maxMinCommitTs_eq_zero_iff :
    maxMinCommitTs responses = 0 ↔ ∀ r ∈ responses, r.minCommitTs = 0 := by
  rw [maxMinCommitTs, foldl_max_eq_zero_iff]
  simp

lemma exists_mem_maxMinCommitTs (h : maxMinCommitTs responses ≠ 0) :
    ∃ r ∈ responses, r.minCommitTs = maxMinCommitTs responses := by
  have hmem : ∀ (xs : List ℕ) a, xs.foldl max a = a ∨ xs.foldl max a ∈ xs := by
    intro xs
    induction xs with
    | nil => exact fun a => .inl rfl
    | cons x xs ih =>
      intro a
      rw [List.foldl_cons]
      rcases ih (max a x) with heq | hmem
      · rcases max_choice a x with hmax | hmax
        · exact .inl (heq.trans hmax)
        · refine .inr ?_
          rw [heq, hmax]
          exact List.mem_cons_self
      · exact .inr (List.mem_cons_of_mem _ hmem)
  rcases hmem (responses.map (·.minCommitTs)) 0 with hzero | hmax
  · exact absurd hzero h
  · exact List.mem_map.mp hmax

/-! ## Durability -/

/-- The locks of the request were written as plain ones: it was not committed at once, and
async commit was declined. -/
def WrotePlainLocks (r : PrewriteResponse) : Prop :=
  r.onePcCommitTs = 0 ∧ r.minCommitTs = 0

/-- **Success without a commit of the primary is durable**: whenever `commit`, its prewrites
answered by `responses` and the rest of its run as in `Rest`, succeeds and has not committed the
primary, every lock written is an async-commit lock. -/
def AsyncDurable (Rest : Trace → Prop) (c : Committer)
    (responses : List PrewriteResponse) : Prop :=
  ∀ fuel tr₁ tr₂ ts pk, c.primaryKey = some pk → c.PrewriteAnswered fuel tr₁ responses →
    Returns (c.commitFrom fuel responses) tr₂ (.ok (some ts)) → Rest tr₂ →
      ¬ CommitSent pk (tr₁ ++ tr₂) → ∀ r ∈ responses, ¬ WrotePlainLocks r

/-- The calls of a prewrite. -/
lemma sat_prewriteAll_calls {C : Call → Prop} {A : Answers} (hC : Routing C)
    (hts : C .getTimestamp) (hresolving : ∀ version, Resolving C version)
    (hprewrite : ∀ region r, C (.rpc region (.prewrite r))) (fuel : ℕ) (c : Committer)
    (request : PrewriteRequest) : (c.prewriteAll fuel request).Sat C A fun _ => True := by
  have hsends : Dispatch.prewrite.Sends C A (·.mutations) (fun _ => True) _ _ :=
    sends_prewrite hC (fun _ _ _ _ => trivial) (fun _ _ _ => trivial)
      fun region r _ => hprewrite region r
  exact Sat.andThen (hsends.sat_executeShards hC hts (fun _ _ _ _ l _ => hresolving l.lockVersion)
    fuel _ (hsends.shards _ trivial)) (fun _ _ => trivial) fun _ _ => trivial

/-- A prewrite sends no commit request. -/
lemma not_commitSent_of_prewriteAnswered (h : c.PrewriteAnswered fuel tr responses) (k : Key) :
    ¬ CommitSent k tr := by
  obtain ⟨pk, ms, tr', leaves, -, rfl, hall, -⟩ := h
  let C : Call → Prop := fun c => ∀ region r, c ≠ .rpc region (.commit r)
  have hrouting : Routing C :=
    ⟨fun _ _ _ => by simp, fun _ _ _ => by simp, fun _ _ _ _ => by simp⟩
  have hsat : (c.prewriteAll fuel (c.prewriteRequest pk ms)).Sat C (fun _ _ => True)
      fun _ => True :=
    sat_prewriteAll_calls hrouting (fun _ _ => by simp)
      (fun _ => ⟨fun _ _ _ _ => by simp, fun _ _ _ _ => by simp⟩) (fun _ _ _ _ => by simp) fuel c _
  have hmade := (hsat.of_steps hall fun e _ => by cases e <;> trivial).1
  rintro ⟨region, request, resp, hmem, -⟩
  rcases List.mem_cons.mp hmem with heq | hmem
  · cases heq
  · exact hmade _ hmem region request rfl

/-- When some responses declined and others did not, `commit` succeeds right after the
prewrite. -/
lemma returns_commitFrom_of_mixed (hasync : c.options.asyncCommit = true)
    (hpc : ∀ r ∈ responses, r.onePcCommitTs = 0) (hr : r ∈ responses)
    (hr0 : r.minCommitTs = 0) (hs : s ∈ responses) (hs0 : s.minCommitTs ≠ 0) :
    ∃ task, Returns (c.commitFrom fuel responses)
      [Event.answered (S := sig) (.spawn task) (0 : ℕ)]
      (.ok (some (maxMinCommitTs responses))) := by
  have hmax : maxMinCommitTs responses ≠ 0 := fun h =>
    hs0 (maxMinCommitTs_eq_zero_iff.mp h s hs)
  obtain ⟨c', hagg, hpc', hasync'⟩ : ∃ c', c.aggregateResponses responses =
      .ok (some (maxMinCommitTs responses), c') ∧ c'.options.tryOnePc = false ∧
        c'.options.asyncCommit = true := by
    refine ⟨{ c with options := { c.options with tryOnePc := false } }, ?_, rfl, hasync⟩
    rw [aggregateResponses, if_pos (by simpa using hpc), tryFromVersion, if_neg hmax]
  have hfin : c.prewriteFinish responses = c.aggregateResponses responses := by
    unfold prewriteFinish
    split
    next response _ =>
      -- a single response cannot both decline and not decline
      obtain rfl := List.mem_singleton.mp hr
      obtain rfl := List.mem_singleton.mp hs
      exact absurd hr0 hs0
    next => rfl
  refine ⟨.commitSecondary c' (maxMinCommitTs responses), ?_⟩
  rw [commitFrom, hfin, hagg]
  simp only [commitAfterPrewrite, hpc', hasync', finishCommit]
  exact returns_call_iff.mpr ⟨(0 : ℕ), [], rfl, returns_ret_iff.mpr ⟨rfl, rfl⟩⟩

/-- Without a timestamp from the prewrite, `commit` goes on with the primary. -/
lemma commitAfterPrewrite_none (fuel : ℕ) (hpc : c.options.tryOnePc = false) :
    ∃ c' : Committer, c'.primaryKey = c.primaryKey ∧ c.commitAfterPrewrite fuel none =
      (c'.commitPrimaryChecked fuel).andThen fun commitTs => c'.finishCommit commitTs := by
  rw [commitAfterPrewrite, if_neg (by simp [hpc])]
  split_ifs
  · exact ⟨{ c with options := { c.options with asyncCommit := false } }, rfl, rfl⟩
  · exact ⟨c, rfl, rfl⟩

/-- When all of them declined, the rest of `commit` is the commit of the primary. -/
lemma commitFrom_of_declined (c : Committer) (fuel : ℕ)
    (hpc : ∀ r ∈ responses, r.onePcCommitTs = 0)
    (hmin : ∀ r ∈ responses, r.minCommitTs = 0) :
    ∃ c' : Committer, c'.primaryKey = c.primaryKey ∧ c.commitFrom fuel responses =
      (c'.commitPrimaryChecked fuel).andThen fun commitTs => c'.finishCommit commitTs := by
  -- whether it has fallen back from 1PC or not, the responses are aggregated
  obtain ⟨c₀, hprimary, hfinish⟩ : ∃ c₀ : Committer, c₀.primaryKey = c.primaryKey ∧
      c.prewriteFinish responses = c₀.aggregateResponses responses := by
    unfold prewriteFinish
    split
    next r _ =>
      refine ⟨{ c with options := { c.options with asyncCommit := false } }, rfl, ?_⟩
      rw [if_neg (by simp [hpc]), if_neg (by simp [hmin])]
    next => exact ⟨c, rfl, rfl⟩
  rw [aggregateResponses, if_pos (by simpa using hpc), maxMinCommitTs_eq_zero_iff.mpr hmin]
    at hfinish
  rw [commitFrom, hfinish]
  obtain ⟨c', hprimary', hcommit⟩ := commitAfterPrewrite_none
    (c := { c₀ with options := { c₀.options with tryOnePc := false } }) fuel rfl
  exact ⟨c', hprimary'.trans hprimary, hcommit⟩

/-- A success that rests on plain locks is not durable, if nothing committed the primary. -/
lemma not_asyncDurable_of_unsent {Rest : Trace → Prop} {tr₂ : Trace}
    (hanswered : c.PrewriteAnswered fuel tr responses)
    (hrun : Returns (c.commitFrom fuel responses) tr₂ (.ok (some ts))) (hrest : Rest tr₂)
    (hunsent : ∀ k, ¬ CommitSent k tr₂) (hr : r ∈ responses) (hplain : WrotePlainLocks r) :
    ¬ c.AsyncDurable Rest responses := by
  intro hdurable
  obtain ⟨pk, -, -, -, hpk, -⟩ := id hanswered
  refine hdurable fuel _ _ _ pk hpk hanswered hrun hrest ?_ r hr hplain
  rintro ⟨region, request, resp, hmem, hsent⟩
  rcases List.mem_append.mp hmem with hmem | hmem
  · exact not_commitSent_of_prewriteAnswered hanswered pk ⟨region, request, resp, hmem, hsent⟩
  · exact hunsent pk ⟨region, request, resp, hmem, hsent⟩

/-- Mixed responses are enough for that. -/
lemma not_asyncDurable_of_mixed {Rest : Trace → Prop}
    (hrest : ∀ task, Rest [.answered (.spawn task) (0 : ℕ)])
    (hasync : c.options.asyncCommit = true) (hanswered : c.PrewriteAnswered fuel tr responses)
    (hpc : ∀ r ∈ responses, r.onePcCommitTs = 0) (hr : r ∈ responses)
    (hr0 : r.minCommitTs = 0) (hs : s ∈ responses) (hs0 : s.minCommitTs ≠ 0) :
    ¬ c.AsyncDurable Rest responses := by
  obtain ⟨task, hrun⟩ := returns_commitFrom_of_mixed hasync hpc hr hr0 hs hs0
  refine not_asyncDurable_of_unsent hanswered hrun (hrest task) ?_ hr ⟨hpc r hr, hr0⟩
  rintro k ⟨region, request, resp, hmem, -⟩
  cases List.mem_singleton.mp hmem

/-- Without a region for the primary, so are responses that all declined. -/
lemma not_asyncDurable_of_declined (hanswered : c.PrewriteAnswered fuel tr responses)
    (hpc : ∀ r ∈ responses, r.onePcCommitTs = 0) (hmin : ∀ r ∈ responses, r.minCommitTs = 0)
    (hr : r ∈ responses) : ¬ c.AsyncDurable (fun _ => True) responses := by
  obtain ⟨c', hprimary, hcommit⟩ := commitFrom_of_declined c fuel hpc hmin
  obtain ⟨pk, ms, tr', leaves, hpk, -, hall, -⟩ := id hanswered
  cases fuel with
  | zero =>
    obtain ⟨_, _, _, -, hstuck, -⟩ := returns_bind_iff.mp hall
    exact absurd hstuck not_returns_stuck
  | succ fuel =>
    obtain ⟨ts, hunsent⟩ :=
      returns_commitPrimaryChecked_unsent (hprimary.trans hpk) .grpc fuel
    have hfinish : Returns (c'.finishCommit ts)
        [.answered (S := sig) (.spawn (.commitSecondary c' ts)) (0 : ℕ)] (.ok (some ts)) :=
      Steps.call (S := sig) (c := .spawn (.commitSecondary c' ts)) (0 : ℕ) (.refl _)
    have hrun : Returns (c.commitFrom (fuel + 1) responses) _ (.ok (some ts)) :=
      hcommit ▸ returns_andThen_iff.mpr (.inl ⟨_, _, ts, rfl, hunsent, hfinish⟩)
    refine not_asyncDurable_of_unsent hanswered hrun trivial ?_ hr ⟨hpc r hr, hmin r hr⟩
    rintro k ⟨region, request, resp, hmem, -⟩
    simp only [List.cons_append, List.nil_append, List.mem_cons, List.not_mem_nil, or_false] at hmem
    rcases hmem with h | h | h <;> cases h

/-- What was committed by 1PC wrote no plain locks, if `commit` succeeds. -/
lemma not_wrotePlainLocks_of_onePc (hpc : ∃ s ∈ responses, s.onePcCommitTs ≠ 0)
    (hrun : Returns (c.commitFrom fuel responses) tr (.ok v)) (hr : r ∈ responses) :
    ¬ WrotePlainLocks r := by
  obtain ⟨s, hs, hspc⟩ := hpc
  unfold commitFrom at hrun
  split at hrun
  · simp at hrun
  next minCommitTs c' hfin =>
    cases prewriteOutcome_of_ok hfin with
    | onePc _ hresp hone =>
      rw [hresp, List.mem_singleton] at hr
      exact fun hplain => absurd hplain.1 (hr ▸ hone)
    | fellBack _ hresp hone =>
      rw [hresp, List.mem_singleton] at hs
      exact absurd hone (hs ▸ hspc)
    | aggregated hzero => exact absurd (hzero s hs) hspc

/-- **When an async-commit success is durable**: exactly if no response declined async commit, or
one of them committed by 1PC; if the region of the primary is found, also if all of them declined.
Any mixture makes `commit` report a success that rests on plain locks. -/
theorem asyncCommit_durable_iff (c : Committer) (responses : List PrewriteResponse)
    (hasync : c.options.asyncCommit = true)
    (hanswered : ∃ fuel tr, c.PrewriteAnswered fuel tr responses) :
    (c.AsyncDurable (fun _ => True) responses ↔
      (∀ r ∈ responses, r.minCommitTs ≠ 0) ∨ ∃ r ∈ responses, r.onePcCommitTs ≠ 0) ∧
    (c.AsyncDurable LookupsSucceed responses ↔
      (∀ r ∈ responses, r.minCommitTs = 0) ∨ (∀ r ∈ responses, r.minCommitTs ≠ 0) ∨
        ∃ r ∈ responses, r.onePcCommitTs ≠ 0) := by
  obtain ⟨fuel, tr, hanswered⟩ := hanswered
  refine ⟨⟨fun hdurable => ?_, ?_⟩, ⟨fun hdurable => ?_, ?_⟩⟩
  · by_contra! hplain
    obtain ⟨⟨r, hr, hr0⟩, hpc⟩ := hplain
    by_cases hall : ∀ s ∈ responses, s.minCommitTs = 0
    · exact not_asyncDurable_of_declined hanswered hpc hall hr hdurable
    · obtain ⟨s, hs, hs0⟩ := not_forall₂.mp hall
      exact not_asyncDurable_of_mixed (fun _ => trivial) hasync hanswered hpc hr hr0 hs hs0 hdurable
  · rintro hcond fuel tr₁ tr₂ ts pk - - hrun - - r hr hplain
    rcases hcond with hnone | hpc
    · exact hnone r hr hplain.2
    · exact not_wrotePlainLocks_of_onePc hpc hrun hr hplain
  · by_contra! hmixed
    obtain ⟨⟨s, hs, hs0⟩, ⟨r, hr, hr0⟩, hpc⟩ := hmixed
    refine not_asyncDurable_of_mixed (fun task k e hmem => ?_) hasync hanswered hpc hr hr0 hs hs0
      hdurable
    cases List.mem_singleton.mp hmem
  · rintro hcond fuel tr₁ tr₂ ts pk hpk - hrun hfound hsent r hr hplain
    rcases hcond with hall | hnone | hpc
    · by_cases hpc : ∃ r ∈ responses, r.onePcCommitTs ≠ 0
      · exact not_wrotePlainLocks_of_onePc hpc hrun hr hplain
      · -- The rest of the run commits the primary.
        push Not at hpc
        obtain ⟨c', hprimary, hcommit⟩ := commitFrom_of_declined c fuel hpc hall
        rw [hcommit] at hrun
        exact hsent ((commitSent_of_secondPhase (hprimary.trans hpk) hrun hfound).mono
          (List.subset_append_right _ _))
    · exact hnone r hr hplain.2
    · exact not_wrotePlainLocks_of_onePc hpc hrun hr hplain

/-! ## Two regions -/

section TwoRegions

/-- Two regions, split at the key `[2]`. -/
def twoRegions (key : Key) : Region :=
  if key < ⟨[2]⟩ then ⟨⟨1, 1, 1⟩, .empty, ⟨[2]⟩, some 1⟩ else ⟨⟨2, 1, 1⟩, ⟨[2]⟩, .empty, some 2⟩

/-- Stores that answer the prewrite requests to the two regions by `r₁` and `r₂`. -/
def twoRegionStores (r₁ r₂ : PrewriteResponse) : Oracle sig Unit where
  answer _
    | .regionForKey key => some (.ok (twoRegions key), ())
    | .mapRegionToStore _ => some (.ok (), ())
    | .rpc region (.prewrite _) => some (.ok (if region.verId.id = 1 then r₁ else r₂), ())
    | _ => none
  pick _ := Oracle.first
  drop _ _ := ()

lemma prewriteAnswered_of_simulate (fuel : ℕ) (o : Oracle sig Unit)
    (responses : List PrewriteResponse) (hpk : c.primaryKey = some pk)
    (h : ((c.prewriteAll fuel (c.prewriteRequest pk 0)).simulate o ()).any (fun run =>
      match run.2.1 with
      | .ok leaves => leaves.map Prod.snd = responses
      | .error _ => false) = true) :
    ∃ fuel tr, c.PrewriteAnswered fuel tr responses := by
  obtain ⟨tr, res, w, hsim, hcheck⟩ := exists_returns_of_simulate h
  cases res with
  | error e => cases hcheck
  | ok leaves =>
    exact ⟨fuel, _, pk, (0 : ℕ), tr, leaves, hpk, rfl, returns_of_simulate hsim,
      by simpa using hcheck⟩

/-- An async-commit transaction that puts one key in each region. -/
def twoRegionCommitter : Committer where
  primaryKey := some ⟨[1]⟩
  prewriteMutations := [⟨.put, ⟨[1]⟩, [7], .none⟩, ⟨.put, ⟨[2]⟩, [8], .none⟩]
  commitKeys := [⟨[1]⟩, ⟨[2]⟩]
  startVersion := 10
  options := { TransactionOptions.newOptimistic with asyncCommit := true }
  writeSize := 4

/-- The first region accepts async commit, the second declines: `commit` succeeds, and the lock
in the second region is a plain one. -/
theorem mixed_responses_not_durable :
    twoRegionCommitter.options.asyncCommit = true ∧
      ¬ twoRegionCommitter.AsyncDurable LookupsSucceed [⟨none, [], 11, 0⟩, ⟨none, [], 0, 0⟩] := by
  obtain ⟨fuel, tr, hanswered⟩ := prewriteAnswered_of_simulate 9 (c := twoRegionCommitter)
    (twoRegionStores ⟨none, [], 11, 0⟩ ⟨none, [], 0, 0⟩) [⟨none, [], 11, 0⟩, ⟨none, [], 0, 0⟩] rfl
    (by decide)
  refine ⟨rfl, not_asyncDurable_of_mixed (fun task k e hmem => ?_) rfl hanswered (by simp)
    (r := ⟨none, [], 0, 0⟩) (by simp) rfl (s := ⟨none, [], 11, 0⟩) (by simp) (by simp)⟩
  cases List.mem_singleton.mp hmem

/-- Both regions accept: the same success is durable. -/
theorem uniform_responses_durable :
    twoRegionCommitter.AsyncDurable (fun _ => True) [⟨none, [], 11, 0⟩, ⟨none, [], 12, 0⟩] :=
  (asyncCommit_durable_iff _ _ rfl (prewriteAnswered_of_simulate 9
    (twoRegionStores ⟨none, [], 11, 0⟩ ⟨none, [], 12, 0⟩) _ rfl (by decide))).1.mpr
    (.inl (by simp))

end TwoRegions

end Committer

end TikvClient
