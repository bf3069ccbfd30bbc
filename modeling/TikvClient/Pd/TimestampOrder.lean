import TikvClient.Pd.Timestamp

/-!
# The timestamps that are handed out

PD answers a request for `n` timestamps by the last of them, and `allocate_timestamps` counts back
from it.  The requests of a batch are known to `run_tso` only as a group in the pending queue, so
the timestamps are right if the groups, the requests PD has seen and the responses correspond to
each other one by one.

**The assumption about PD** (`PdAnswers`): responses come in the order of the requests, and the
timestamps of each are later than all before.

**The invariant** (`Accounts`): the requests that were taken from the channel are those of the
batches and those in the hands of `poll_next`; the batches are those that were answered and the
pending groups; and the counts on the wire are those of the groups.

**The result**: in every state that is reached, the requests of the handled responses have received
one timestamp each, later and later in the order in which they were taken from the channel.  A
response that has arrived is handled in every fair execution.
-/

namespace TikvClient

namespace Tso

open Machine

variable {s s' : State} {a : Action}

/-! ## The assumption -/

/-- **PD allocates timestamps** that are not negative and later than those of the earlier
answers. -/
structure AllocatesAfter (earlier : List TsoResponse) (resp : TsoResponse) (tail : Timestamp) :
    Prop where
  timestamp : resp.timestamp = some tail
  nonneg : 0 ≤ tail.logical - resp.count + 1
  later : ∀ r ∈ earlier, ∀ t, r.timestamp = some t →
    t.Before ⟨tail.physical, tail.logical - resp.count + 1, tail.suffixBits⟩

/-- A response answers the oldest request that PD has not answered. -/
def PdAnswers (s : State) : Action → Prop
  | .respond resp => ∃ rest tail, s.unanswered = resp.count :: rest ∧
      AllocatesAfter s.answers resp tail
  | _ => True

/-! ## The invariant -/

/-- The requests `poll_next` has taken and not yet put into a group. -/
def StreamPhase.inHand : StreamPhase → List TimestampRequest
  | .collecting requests => requests
  | _ => []

/-- The count of the request that is about to be sent. -/
def StreamPhase.toSend : StreamPhase → List ℕ
  | .returning (.ready (some req)) => [req.count]
  | _ => []

/-- The response that has arrived and is not yet handled. -/
def RunTsoPhase.response : RunTsoPhase → Option TsoResponse
  | .locking resp => some resp
  | .queued resp => some resp
  | _ => none

/-- The timestamp is one of those PD has allocated for the batch of its request. -/
def InInterval (s : State) (d : Delivery) : Prop :=
  ∃ resp tail batch, s.answers[d.batch]? = some resp ∧ s.batches[d.batch]? = some batch ∧
    d.request ∈ batch ∧ resp.count = batch.length ∧ resp.timestamp = some tail ∧
    d.timestamp.physical = tail.physical ∧ tail.logical - resp.count < d.timestamp.logical ∧
    d.timestamp.logical ≤ tail.logical

/-- **The accounts of the requests.** -/
structure Accounts (s : State) : Prop where
  calls : s.taken ++ s.channel = List.range s.calls
  taken : s.batches.flatten ++ s.stream.inHand = s.taken
  groups : s.batches.drop s.answers.length = s.pending.map (·.requests)
  answered : s.answers.length ≤ s.batches.length
  counts : CountsMatch s
  wire : s.pending.map (·.tsoRequest.count) =
    s.runTso.response.toList.map (·.count) ++ (s.unanswered ++ s.stream.toSend)
  arrived : ∀ resp, s.runTso.response = some resp → ∃ tail, AllocatesAfter s.answers resp tail
  delivered : s.received.map (·.request) = (s.batches.take s.answers.length).flatten
  interval : ∀ d ∈ s.received, InInterval s d
  increasing : (s.received.map (·.timestamp)).Pairwise Timestamp.Before
  noFailure : s.runTso.hasFailed = false

namespace Accounts

lemma init (clusterId : ℕ) : Accounts (State.init clusterId) where
  calls := rfl
  taken := rfl
  groups := rfl
  answered := le_rfl
  counts := fun _ h => nomatch h
  wire := rfl
  arrived := fun _ h => nomatch h
  delivered := rfl
  interval := fun _ h => nomatch h
  increasing := List.Pairwise.nil
  noFailure := rfl

lemma inInterval_of_batch {d : Delivery} {batch : List TimestampRequest} (h : InInterval s d)
    (hanswers : s'.answers = s.answers) (hbatches : s'.batches = s.batches ++ [batch]) :
    InInterval s' d := by
  obtain ⟨resp, tail, b, hresp, hb, hrest⟩ := h
  refine ⟨resp, tail, b, hanswers ▸ hresp, ?_, hrest⟩
  rw [hbatches, List.getElem?_append_left (List.getElem?_eq_some_iff.mp hb).1]
  exact hb

lemma of_streamMove (hs : Accounts s) (h : StreamMove s s') : Accounts s' := by
  have htaken := hs.taken
  have hwire := hs.wire
  cases h with
  | take hphase hlength hchannel =>
    rw [hphase] at htaken hwire
    refine { hs with calls := ?_, taken := ?_, wire := hwire }
    · rw [List.append_assoc, ← hs.calls, hchannel]
      rfl
    · show s.batches.flatten ++ (_ ++ [_]) = s.taken ++ [_]
      rw [← List.append_assoc]
      exact congrArg (· ++ _) htaken
  | batch hphase hne hw =>
    rw [hphase] at htaken hwire
    refine { hs with
      taken := ?_, groups := ?_, answered := ?_, counts := ?_, wire := ?_, delivered := ?_,
      interval := fun d hd => inInterval_of_batch (hs.interval d hd) rfl rfl }
    · simpa [StreamPhase.inHand] using htaken
    · simp [List.drop_append_of_le_length hs.answered, hs.groups]
    · have hle := hs.answered
      simp only [List.length_append, List.length_singleton]
      omega
    · intro group hgroup
      rcases List.mem_append.mp hgroup with hgroup | hgroup
      · exact hs.counts group hgroup
      · rw [List.mem_singleton.mp hgroup]
        rfl
    · rw [List.map_append, hwire]
      simp [StreamPhase.toSend]
    · rw [List.take_append_of_le_length hs.answered]
      exact hs.delivered
  | leave hphase =>
    rename_i out
    rw [hphase] at htaken hwire
    rcases out with (- | req) | -
    · exact { hs with taken := htaken, wire := hwire }
    · refine { hs with taken := htaken, wire := ?_ }
      simpa [State.returnFromPoll, StreamPhase.toSend] using hwire
    · exact { hs with taken := htaken, wire := hwire }
  | register hphase =>
    rcases hphase with hphase | hphase <;> rw [hphase] at htaken hwire <;>
      exact { hs with taken := htaken, wire := hwire }
  | poll hphase | acquire hphase hfree | wait hphase hbusy | yield hphase
  | nothing hphase hw hreason | ended hphase hchannel hclosed =>
    rw [hphase] at htaken hwire
    exact { hs with taken := htaken, wire := hwire }

lemma fits (hs : Accounts s) {resp : TsoResponse} (hresp : s.runTso.response = some resp) :
    ∃ tail group rest, AllocatesAfter s.answers resp tail ∧
      Fits resp s.pending tail group rest := by
  obtain ⟨tail, hafter⟩ := hs.arrived resp hresp
  have hwire := hs.wire
  rw [hresp] at hwire
  cases hpending : s.pending with
  | nil => simp [hpending] at hwire
  | cons group rest =>
    simp only [hpending, List.map_cons, Option.toList_some, List.map_nil, List.cons_append,
      List.nil_append, List.cons.injEq] at hwire
    refine ⟨tail, group, rest, hafter, hafter.timestamp, rfl, hwire.1.symm, ?_⟩
    have hnonneg := hafter.nonneg
    omega

/-- Timestamps of an earlier interval come first. -/
lemma before_of_later {d x tail : Timestamp} {earlier : List TsoResponse} {resp r : TsoResponse}
    {t : Timestamp} (h : AllocatesAfter earlier resp tail) (hr : r ∈ earlier)
    (ht : r.timestamp = some t) (hd : d.physical = t.physical) (hd' : d.logical ≤ t.logical)
    (hx : x.physical = tail.physical) (hx' : tail.logical - resp.count < x.logical) :
    d.Before x := by
  have hlater := h.later r hr t ht
  simp only [Timestamp.Before] at hlater ⊢
  omega

/-- **A response is handled**: the requests of the oldest group receive their timestamps. -/
lemma of_allocate (hs : Accounts s) {resp : TsoResponse} (hphase : s.runTso = .queued resp) :
    Accounts { s with
      pending := (allocateTimestamps resp s.pending).pending
      runTso := .releasing (allocateTimestamps resp s.pending).result
      answers := s.answers ++ [resp]
      received := s.received ++ (allocateTimestamps resp s.pending).sent.map fun x =>
        ⟨x.1, x.2, s.answers.length⟩ } := by
  have hresp : s.runTso.response = some resp := by rw [hphase]; rfl
  obtain ⟨tail, group, rest, hafter, hfits⟩ := hs.fits hresp
  have hmem : group ∈ s.pending := by rw [hfits.pending]; exact List.mem_cons_self
  have hcount := hs.counts group hmem
  obtain ⟨hok, hrest, hsent, hrequests⟩ := allocateTimestamps_of_fits hfits hcount
  have hgroups := hs.groups
  rw [hfits.pending, List.map_cons] at hgroups
  -- The group is the first batch that was not answered.
  have hbatch : s.batches[s.answers.length]? = some group.requests := by
    have h0 := congrArg (·[0]?) hgroups
    simpa using h0
  have hdrop : s.batches.drop (s.answers.length + 1) = rest.map (·.requests) := by
    have htail := congrArg List.tail hgroups
    simpa using htail
  have hlength : s.answers.length + 1 ≤ s.batches.length :=
    (List.getElem?_eq_some_iff.mp hbatch).1
  have hwire := hs.wire
  rw [hfits.pending, hresp] at hwire
  have hold : ∀ d, InInterval s d → ∀ s', s'.answers = s.answers ++ [resp] →
      s'.batches = s.batches → InInterval s' d := by
    rintro d ⟨resp', tail', batch, hresp', hrest'⟩ s' hanswers hbatches
    refine ⟨resp', tail', batch, ?_, hbatches ▸ hrest'⟩
    rw [hanswers, List.getElem?_append_left (List.getElem?_eq_some_iff.mp hresp').1]
    exact hresp'
  refine { hs with
    groups := ?_, answered := ?_, counts := ?_, wire := ?_, arrived := (fun _ h => nomatch h),
    delivered := ?_, interval := ?_, increasing := ?_, noFailure := ?_ }
  · simpa [hrest] using hdrop
  · simpa using hlength
  · exact fun g hg => hs.counts g (pending_allocateTimestamps_subset _ _ hg)
  · simp only [List.map_cons, Option.toList_some, List.map_nil, List.singleton_append,
      List.cons.injEq] at hwire
    simpa [hrest, RunTsoPhase.response] using hwire.2
  · rw [List.map_append, hs.delivered, List.length_append, List.length_singleton,
      List.take_add_one, hbatch, List.map_map, List.flatten_append, Option.toList_some,
      List.flatten_singleton]
    exact congrArg _ hrequests
  · intro d hd
    rcases List.mem_append.mp hd with hd | hd
    · exact hold d (hs.interval d hd) _ rfl rfl
    · obtain ⟨x, hx, rfl⟩ := List.mem_map.mp hd
      have hrequest : x.1 ∈ group.requests := hrequests ▸ List.mem_map_of_mem hx
      rw [hsent] at hx
      obtain ⟨hphysical, hlow, hhigh⟩ := mem_sendTimestamps hx
      exact ⟨resp, tail, group.requests, by simp, hbatch, hrequest, hfits.count.trans hcount,
        hfits.timestamp, hphysical, hlow, hhigh⟩
  · rw [List.map_append, List.map_map, List.pairwise_append]
    refine ⟨hs.increasing, ?_, ?_⟩
    · rw [hsent]
      exact pairwise_sendTimestamps tail resp.count group.requests
    · intro d hd x hx
      obtain ⟨delivery, hdelivery, rfl⟩ := List.mem_map.mp hd
      obtain ⟨y, hy, rfl⟩ := List.mem_map.mp hx
      rw [hsent] at hy
      obtain ⟨hphysical, hlow, -⟩ := mem_sendTimestamps hy
      obtain ⟨r, t, -, hr, -, -, -, ht, hd, -, hd'⟩ := hs.interval delivery hdelivery
      exact before_of_later hafter (List.mem_of_getElem? hr) ht hd hd' hphysical hlow
  · rw [hok]
    rfl

lemma of_runTsoMove (hs : Accounts s) (h : RunTsoMove s s') : Accounts s' := by
  have hwire := hs.wire
  have harrived := hs.arrived
  have hfailed := hs.noFailure
  cases h with
  | lock hphase =>
    rw [hphase] at hwire harrived
    exact { hs with wire := hwire, arrived := harrived, noFailure := rfl }
  | allocate hphase hholds => exact hs.of_allocate hphase
  | release hphase =>
    rename_i result
    rw [hphase] at hwire hfailed
    cases result with
    | ok _ => exact { hs with wire := hwire, arrived := (fun _ h => nomatch h), noFailure := rfl }
    | error e => cases hfailed
  | wake hphase =>
    rw [hphase] at hwire
    exact { hs with wire := hwire, arrived := (fun _ h => nomatch h), noFailure := rfl }

lemma of_otherMove (hs : Accounts s) (h : OtherMove s a s') (hallowed : PdAnswers s a) :
    Accounts s' := by
  have hwire := hs.wire
  cases h with
  | call hopen =>
    refine { hs with calls := ?_ }
    rw [List.range_succ, ← hs.calls, List.append_assoc]
  | respond hphase =>
    obtain ⟨rest, tail, hunanswered, hafter⟩ := hallowed
    rw [hphase] at hwire
    refine { hs with wire := ?_, arrived := ?_, noFailure := rfl }
    · rw [hwire, hunanswered]
      rfl
    · intro resp hresp
      cases hresp
      exact ⟨tail, hafter⟩
  | hangUp hphase =>
    rw [hphase] at hwire
    exact { hs with wire := hwire, arrived := (fun _ h => nomatch h), noFailure := rfl }
  | close | wake | nudge => exact { hs with }

/-- **One step.** -/
theorem step (hs : Accounts s) (hallowed : PdAnswers s a) (h : Tso.step s a = some s') :
    Accounts s' := by
  obtain hmove | ⟨-, hmove⟩ | hmove := step_cases h
  · exact hs.of_streamMove hmove
  · exact hs.of_runTsoMove hmove
  · exact hs.of_otherMove hmove hallowed

/-- **Whole runs.** -/
theorem of_reach {clusterId : ℕ} (h : Reach Tso.step PdAnswers (State.init clusterId) s) :
    Accounts s :=
  h.invariant (init clusterId) fun _ _ _ hs hallowed hstep => hs.step hallowed hstep

end Accounts

/-! ## Progress -/

/-- What the others do while `run_tso` handles a response. -/
lemma runTso_eq_of_ne (h : step s a = some s') (ha : a ≠ .runTso) (hw : s.runTso ≠ .waiting) :
    s'.runTso = s.runTso ∧ s'.answers = s.answers := by
  obtain hmove | ⟨ha', -⟩ | hmove := step_cases h
  · cases hmove with
    | leave hphase =>
      rename_i out
      rcases out with (- | req) | - <;> exact ⟨rfl, rfl⟩
    | _ => exact ⟨rfl, rfl⟩
  · exact absurd ha' ha
  · cases hmove with
    | respond hphase | hangUp hphase => exact absurd hphase hw
    | _ => exact ⟨rfl, rfl⟩

/-- `run_tso` keeps the mutex while the others move. -/
lemma holder_eq_of_ne (h : step s a = some s') (ha : a ≠ .runTso)
    (hholder : s.mutex.holder = some .runTso) : s'.mutex.holder = some .runTso := by
  obtain hmove | ⟨ha', -⟩ | hmove := step_cases h
  · cases hmove with
    | acquire | wait => exact FairMutex.holder_lock_of_holder hholder
    | leave hphase =>
      have hleave : (s.mutex.leave .stream).holder = some .runTso :=
        FairMutex.holder_leave_of_ne hholder (by decide)
      rename_i out
      rcases out with (- | req) | - <;> exact hleave
    | _ => exact hholder
  · exact absurd ha' ha
  · cases hmove <;> exact hholder

/-- How far `poll_next` is from returning. -/
def StreamPhase.stepsLeft : StreamPhase → ℕ
  | .collecting requests => 3 + (maxBatchSize - requests.length)
  | .registering => 2
  | .contended => 2
  | .returning _ => 1
  | _ => 0

/-- When the stream leaves, `run_tso` is next. -/
lemma holder_leave_stream (hs : Guarded s) (hrun : s.runTso.isPastLock = true)
    (hholder : s.mutex.holder = some .stream) :
    (s.mutex.leave .stream).holder = some .runTso :=
  FairMutex.holder_leave_of_mem hholder (hs.runTso.mpr hrun) (by decide)
    fun p => by cases p <;> simp

/-- The stream comes closer to returning with every step, and then hands over the mutex. -/
lemma streamMove_stepsLeft (hs : Guarded s) (hrun : s.runTso.isPastLock = true)
    (hholder : s.mutex.holder = some .stream) (h : StreamMove s s') :
    s'.mutex.holder = some .runTso ∨
      s'.mutex.holder = some .stream ∧ s'.stream.stepsLeft < s.stream.stepsLeft := by
  have hpast := hs.stream (FairMutex.mem_of_holder hholder)
  cases h with
  | leave hphase =>
    left
    have hleave := holder_leave_stream hs hrun hholder
    rename_i out
    rcases out with (- | req) | - <;> exact hleave
  | poll hphase | acquire hphase hfree | wait hphase hbusy | yield hphase =>
    rw [hphase] at hpast
    cases hpast
  | register hphase =>
    refine .inr ⟨hholder, ?_⟩
    rcases hphase with hphase | hphase <;> rw [hphase] <;> exact Nat.lt_succ_self 1
  | take hphase hlength hchannel =>
    refine .inr ⟨hholder, ?_⟩
    rw [hphase]
    simp only [StreamPhase.stepsLeft, List.length_append, List.length_singleton]
    omega
  | nothing hphase hw hreason | batch hphase hne hw | ended hphase hchannel hclosed =>
    refine .inr ⟨hholder, ?_⟩
    rw [hphase]
    simp only [StreamPhase.stepsLeft]
    omega

/-- One step while `run_tso` waits for the stream to leave. -/
lemma step_of_stream_holds {resp : TsoResponse} (hs : Guarded s)
    (hphase : s.runTso = .queued resp) (hholder : s.mutex.holder = some .stream)
    (h : step s a = some s') :
    s'.runTso = .queued resp ∧ s'.answers = s.answers ∧
      (s'.mutex.holder = some .runTso ∨ s'.mutex.holder = some .stream ∧
        (s'.stream.stepsLeft < s.stream.stepsLeft ∨
          s'.stream = s.stream ∧ a ≠ .stream ∧ a ≠ .budget)) := by
  have hne : a ≠ .runTso := by
    rintro rfl
    have hmove := runTsoMove_of_runTsoStep h
    cases hmove with
    | allocate hphase' hholds => cases hholder.symm.trans hholds
    | lock hphase' | release hphase' | wake hphase' => cases hphase.symm.trans hphase'
  obtain ⟨hrunTso, heq⟩ := runTso_eq_of_ne h hne (by simp [hphase])
  refine ⟨hrunTso.trans hphase, heq, ?_⟩
  obtain hmove | ⟨ha, -⟩ | hmove := step_cases h
  · have hleft := streamMove_stepsLeft hs (by rw [hphase]; rfl) hholder hmove
    exact hleft.imp_right fun h => ⟨h.1, .inl h.2⟩
  · exact absurd ha hne
  · cases hmove <;> exact .inr ⟨hholder, .inr ⟨rfl, by simp, by simp⟩⟩

lemma streamStep_isSome (h : s.stream.isPastLock = true) : (streamStep s).isSome = true := by
  unfold streamStep
  cases hphase : s.stream with
  | idle | locking | finished =>
    rw [hphase] at h
    cases h
  | _ => rfl

section Fair

variable {clusterId : ℕ} {e : Execution Tso.step (State.init clusterId)} {n : ℕ}
  {resp : TsoResponse} {answers : List TsoResponse}

lemma guarded_state (e : Execution Tso.step (State.init clusterId)) (n : ℕ) :
    Guarded (e.state n) := by
  exact (e.reach n).invariant (guarded_init clusterId) fun _ _ _ hs _ hstep =>
    guarded_step hs hstep

/-- Once it holds the mutex, `run_tso` handles the response. -/
lemma handled_of_holder (hrun : e.Fair (· = .runTso)) (hphase : (e.state n).runTso = .queued resp)
    (hanswers : (e.state n).answers = answers)
    (hholder : (e.state n).mutex.holder = some .runTso) :
    ∃ m, n ≤ m ∧ (e.state m).answers = answers ++ [resp] := by
  refine hrun.leads_to (fun _ => 0) (P := fun s => s.runTso = .queued resp ∧
    s.answers = answers ∧ s.mutex.holder = some .runTso)
    (Q := fun s => s.answers = answers ++ [resp])
    (fun k hk => ?_) (fun k a hact ha hk => ?_) (fun k a hact ha hk => ?_)
    ⟨hphase, hanswers, hholder⟩
  · refine ⟨.runTso, rfl, ?_⟩
    simp [Tso.step, runTsoStep, hk.1, hk.2.2]
  · left
    have hstep := e.act k a hact
    rw [ha] at hstep
    have hmove := runTsoMove_of_runTsoStep hstep
    rw [← hk.2.1]
    generalize e.state (k + 1) = s' at hmove ⊢
    cases hmove with
    | allocate hphase' _ =>
      obtain rfl : resp = _ := RunTsoPhase.queued.inj (hk.1.symm.trans hphase')
      rfl
    | lock hphase' | release hphase' | wake hphase' => cases hk.1.symm.trans hphase'
  · right
    have hstep := e.act k a hact
    obtain ⟨hrunTso, heq⟩ := runTso_eq_of_ne hstep ha (by simp [hk.1])
    exact ⟨⟨hrunTso.trans hk.1, heq.trans hk.2.1, holder_eq_of_ne hstep ha hk.2.2⟩, le_rfl⟩

/-- `run_tso` is handed the mutex by the stream. -/
lemma holder_of_queued (hstream : e.Fair fun a => a = .stream ∨ a = .budget)
    (hphase : (e.state n).runTso = .queued resp) (hanswers : (e.state n).answers = answers) :
    ∃ m, n ≤ m ∧ (e.state m).runTso = .queued resp ∧ (e.state m).answers = answers ∧
      (e.state m).mutex.holder = some .runTso := by
  have hmem : Party.runTso ∈ (e.state n).mutex.line :=
    (guarded_state e n).runTso.mpr (by rw [hphase]; rfl)
  obtain ⟨p, rest, hline⟩ := List.exists_cons_of_ne_nil (List.ne_nil_of_mem hmem)
  have hholder : (e.state n).mutex.holder = some p := by rw [FairMutex.holder, hline]; rfl
  cases p with
  | runTso => exact ⟨n, le_rfl, hphase, hanswers, hholder⟩
  | stream =>
    refine hstream.leads_to (fun s => s.stream.stepsLeft)
      (P := fun s => s.runTso = .queued resp ∧ s.answers = answers ∧
        s.mutex.holder = some .stream)
      (Q := fun s => s.runTso = .queued resp ∧ s.answers = answers ∧
        s.mutex.holder = some .runTso)
      (fun k hk => ?_) (fun k a hact ha hk => ?_) (fun k a hact ha hk => ?_)
      ⟨hphase, hanswers, hholder⟩
    · exact ⟨.stream, .inl rfl, streamStep_isSome
        ((guarded_state e k).stream (FairMutex.mem_of_holder hk.2.2))⟩
    · obtain ⟨hrunTso, heq, hmutex⟩ :=
        step_of_stream_holds (guarded_state e k) hk.1 hk.2.2 (e.act k a hact)
      rcases hmutex with h | ⟨h, hlt | ⟨-, hne, hne'⟩⟩
      · exact .inl ⟨hrunTso, heq.trans hk.2.1, h⟩
      · exact .inr ⟨⟨hrunTso, heq.trans hk.2.1, h⟩, hlt⟩
      · exact absurd ha (not_or.mpr ⟨hne, hne'⟩)
    · obtain ⟨hrunTso, heq, hmutex⟩ :=
        step_of_stream_holds (guarded_state e k) hk.1 hk.2.2 (e.act k a hact)
      rcases hmutex with h | ⟨h, hlt | ⟨hsame, -⟩⟩
      · exact .inl ⟨hrunTso, heq.trans hk.2.1, h⟩
      · exact .inr ⟨⟨hrunTso, heq.trans hk.2.1, h⟩, hlt.le⟩
      · exact .inr ⟨⟨hrunTso, heq.trans hk.2.1, h⟩, by rw [hsame]⟩

/-- `run_tso` gets in line. -/
lemma queued_of_locking (hrun : e.Fair (· = .runTso)) (hphase : (e.state n).runTso = .locking resp)
    (hanswers : (e.state n).answers = answers) :
    ∃ m, n ≤ m ∧ (e.state m).runTso = .queued resp ∧ (e.state m).answers = answers := by
  refine hrun.leads_to (fun _ => 0) (P := fun s => s.runTso = .locking resp ∧ s.answers = answers)
    (Q := fun s => s.runTso = .queued resp ∧ s.answers = answers)
    (fun k hk => ?_) (fun k a hact ha hk => ?_) (fun k a hact ha hk => ?_) ⟨hphase, hanswers⟩
  · refine ⟨.runTso, rfl, ?_⟩
    simp [Tso.step, runTsoStep, hk.1]
  · left
    have hstep := e.act k a hact
    rw [ha] at hstep
    have hmove := runTsoMove_of_runTsoStep hstep
    generalize e.state (k + 1) = s' at hmove ⊢
    cases hmove with
    | lock hphase' =>
      obtain rfl : resp = _ := RunTsoPhase.locking.inj (hk.1.symm.trans hphase')
      exact ⟨rfl, hk.2⟩
    | allocate hphase' _ | release hphase' | wake hphase' => cases hk.1.symm.trans hphase'
  · obtain ⟨hrunTso, heq⟩ := runTso_eq_of_ne (e.act k a hact) ha (by simp [hk.1])
    exact .inr ⟨⟨hrunTso.trans hk.1, heq.trans hk.2⟩, le_rfl⟩

/-- **A response that has arrived is handled.** -/
theorem handled_of_response (hstream : e.Fair fun a => a = .stream ∨ a = .budget)
    (hrun : e.Fair (· = .runTso)) (hresp : (e.state n).runTso.response = some resp) :
    ∃ m, n ≤ m ∧ (e.state m).answers = (e.state n).answers ++ [resp] := by
  have hqueued : ∃ m, n ≤ m ∧ (e.state m).runTso = .queued resp ∧
      (e.state m).answers = (e.state n).answers := by
    cases hphase : (e.state n).runTso with
    | locking r =>
      rw [hphase] at hresp
      cases hresp
      exact queued_of_locking hrun hphase rfl
    | queued r =>
      rw [hphase] at hresp
      cases hresp
      exact ⟨n, le_rfl, hphase, rfl⟩
    | _ =>
      rw [hphase] at hresp
      cases hresp
  obtain ⟨m, hnm, hphase, hanswers⟩ := hqueued
  obtain ⟨m', hm', hphase', hanswers', hholder⟩ := holder_of_queued hstream hphase hanswers
  obtain ⟨k, hk, hhandled⟩ := handled_of_holder hrun hphase' hanswers' hholder
  exact ⟨k, hnm.trans (hm'.trans hk), hhandled⟩

end Fair

/-! ## The result -/

/-- **The timestamps that were handed out** so far. -/
structure HandsOut (s : State) : Prop where
  /-- The requests of the handled responses have received timestamps, and no others. -/
  delivered : s.received.map (·.request) = (s.batches.take s.answers.length).flatten
  once : (s.received.map (·.request)).Nodup
  inOrder : s.received.map (·.request) <+: s.taken
  increasing : (s.received.map (·.timestamp)).Pairwise Timestamp.Before
  distinct : (s.received.map (·.timestamp)).Nodup
  interval : ∀ d ∈ s.received, InInterval s d
  noFailure : s.runTso.hasFailed = false

lemma Timestamp.Before.ne {t u : Timestamp} (h : t.Before u) : t ≠ u := by
  rintro rfl
  simp [Timestamp.Before] at h

lemma Accounts.handsOut (hs : Accounts s) : HandsOut s := by
  have horder : s.received.map (·.request) <+: s.taken := by
    rw [hs.delivered, ← hs.taken]
    refine List.IsPrefix.trans ?_ (List.prefix_append _ _)
    refine ⟨(s.batches.drop s.answers.length).flatten, ?_⟩
    rw [← List.flatten_append, List.take_append_drop]
  have htaken : s.taken.Nodup := by
    have hrange := List.nodup_range (n := s.calls)
    rw [← hs.calls] at hrange
    exact (List.nodup_append.mp hrange).1
  exact
    { delivered := hs.delivered
      once := htaken.sublist horder.sublist
      inOrder := horder
      increasing := hs.increasing
      distinct := hs.increasing.imp Timestamp.Before.ne
      interval := hs.interval
      noFailure := hs.noFailure }

/-- **Timestamps are unique and ordered**, in every interleaving; and a response that has arrived is
handled. -/
theorem timestamps_unique_and_ordered (clusterId : ℕ) :
    (∀ s, Reach step PdAnswers (State.init clusterId) s → HandsOut s) ∧
      ∀ e : Execution step (State.init clusterId),
        e.Fair (fun a => a = .stream ∨ a = .budget) → e.Fair (· = .runTso) →
        ∀ n resp, (e.state n).runTso.response = some resp →
          ∃ m, n ≤ m ∧ (e.state m).answers = (e.state n).answers ++ [resp] :=
  ⟨fun _ h => (Accounts.of_reach h).handsOut,
    fun _ hstream hrun _ _ hresp => handled_of_response hstream hrun hresp⟩

/-- Two calls, and the request PD is sent for them. -/
def twoCalls : List Action :=
  [.call, .call, .stream, .stream, .stream, .stream, .stream, .stream]

/-- PD answers, `run_tso` hands out the timestamps, and the stream goes to sleep. -/
def twoAnswers : List Action :=
  .respond ⟨2, some ⟨100, 7, 0⟩⟩ :: [.runTso, .runTso, .runTso, .runTso] ++
    [.stream, .stream, .stream, .stream, .stream]

lemma reach_twoAnswers {s : State} (h : run step (twoCalls ++ twoAnswers) (State.init 1) = some s) :
    Reach step PdAnswers (State.init 1) s := by
  have hcalls : ((run step twoCalls (State.init 1)).map fun s => (s.unanswered, s.answers)) =
      some ([2], []) := by decide
  obtain ⟨s₁, hrun₁, hs₁⟩ := Option.map_eq_some_iff.mp hcalls
  obtain ⟨hunanswered, hanswers⟩ := Prod.mk.inj hs₁
  have hpd : PdAnswers s₁ (.respond ⟨2, some ⟨100, 7, 0⟩⟩) := by
    refine ⟨[], ⟨100, 7, 0⟩, hunanswered, rfl, by decide, ?_⟩
    simp [hanswers]
  rw [run_append, hrun₁, Option.bind_some] at h
  obtain ⟨s₂, hact, hrest⟩ := Option.bind_eq_some_iff.mp h
  have hreach : Reach step PdAnswers (State.init 1) s₁ :=
    Reach.refl.run hrun₁ (by simp [twoCalls, PdAnswers])
  exact (hreach.act _ hpd hact).run hrest (by simp [PdAnswers])

/-- After its last step in this run, `run_tso` waits for another response. -/
lemma runTso_rests_twoAnswers {e : Execution step (State.init 1)}
    (hstate : ∀ n, run step ((twoCalls ++ twoAnswers).take n) (State.init 1) = some (e.state n))
    {n : ℕ} (hn : 12 < n) : ¬ Enabled step (· = .runTso) (e.state n) := by
  have hrest : ∀ i ∈ List.range 6, ((run step ((twoCalls ++ twoAnswers).take (13 + i))
      (State.init 1)).map fun s => (step s .runTso).isSome) = some false := by decide
  have htake : (twoCalls ++ twoAnswers).take n =
      (twoCalls ++ twoAnswers).take (13 + min (n - 13) 5) := by
    by_cases hlong : 18 ≤ n
    · rw [List.take_of_length_le (by simpa [twoCalls, twoAnswers] using hlong),
        List.take_of_length_le (by simp [twoCalls, twoAnswers]; omega)]
    · congr 1
      omega
  have hnone := hrest (min (n - 13) 5) (List.mem_range.mpr (by omega))
  rw [← htake, hstate n] at hnone
  rintro ⟨a, rfl, ha⟩
  rw [Option.map_some, ha] at hnone
  cases hnone

/-- Two calls are answered by one response. -/
theorem timestamps_of_two_calls :
    (∃ s, Reach step PdAnswers (State.init 1) s ∧ HandsOut s ∧
      s.received = [⟨0, ⟨100, 6, 0⟩, 0⟩, ⟨1, ⟨100, 7, 0⟩, 0⟩]) ∧
    ∃ e : Execution step (State.init 1), e.Fair (fun a => a = .stream ∨ a = .budget) ∧
      e.Fair (· = .runTso) ∧ ∃ n resp m, (e.state n).runTso.response = some resp ∧
        n ≤ m ∧ (e.state m).answers = (e.state n).answers ++ [resp] := by
  have hall : (run step (twoCalls ++ twoAnswers) (State.init 1)).map (fun s =>
      (s.received, (step s .stream).isSome, (step s .budget).isSome)) =
      some ([⟨0, ⟨100, 6, 0⟩, 0⟩, ⟨1, ⟨100, 7, 0⟩, 0⟩], false, false) := by decide
  obtain ⟨s, hrun, hs⟩ := Option.map_eq_some_iff.mp hall
  simp only [Prod.mk.injEq] at hs
  obtain ⟨hreceived, hstream, hbudget⟩ := hs
  have hreach := reach_twoAnswers hrun
  obtain ⟨e, haction, hstate, hend⟩ := exists_execution hrun
  have hfair : e.Fair fun a => a = .stream ∨ a = .budget := by
    refine Execution.fair_of_last (k := 17) (haction 17) (.inl rfl) fun n hn => ?_
    rw [hend n hn]
    rintro ⟨a, rfl | rfl, ha⟩
    · exact absurd ha (by simp [hstream])
    · exact absurd ha (by simp [hbudget])
  have hfair' : e.Fair (· = .runTso) :=
    Execution.fair_of_last (k := 12) (haction 12) rfl fun n hn => runTso_rests_twoAnswers hstate hn
  have harrived : ((run step ((twoCalls ++ twoAnswers).take 9) (State.init 1)).map
      fun s => s.runTso.response) = some (some ⟨2, some ⟨100, 7, 0⟩⟩) := by decide
  rw [hstate 9, Option.map_some] at harrived
  obtain ⟨m, hm⟩ :=
    (timestamps_unique_and_ordered 1).2 e hfair hfair' 9 _ (Option.some.inj harrived)
  exact ⟨⟨s, hreach, (timestamps_unique_and_ordered 1).1 s hreach, hreceived⟩, e, hfair, hfair',
    9, _, m, Option.some.inj harrived, hm⟩

/-- The requests that were answered, of the pending groups, in the hands of `poll_next` and in the
channel. -/
def State.requests (s : State) : List TimestampRequest :=
  s.received.map (·.request) ++ (s.pending.map (·.requests)).flatten ++ s.stream.inHand ++ s.channel

/-- **No request is lost or served twice, and none overtakes another.** -/
theorem requests_conserved {clusterId : ℕ} (h : Reach step PdAnswers (State.init clusterId) s) :
    s.requests = List.range s.calls := by
  have hs := Accounts.of_reach h
  rw [State.requests, hs.delivered, ← hs.groups, ← List.flatten_append, List.take_append_drop,
    hs.taken, hs.calls]

theorem requests_of_two_calls_conserved :
    ∃ s, Reach step PdAnswers (State.init 1) s ∧ s.received ≠ [] ∧
      s.requests = List.range s.calls := by
  have hall : (run step (twoCalls ++ twoAnswers) (State.init 1)).any (·.received ≠ []) = true := by
    decide
  obtain ⟨s, hrun, hs⟩ := (Option.any_eq_true _ _).mp hall
  have hreach := reach_twoAnswers hrun
  exact ⟨s, hreach, of_decide_eq_true hs, requests_conserved hreach⟩

end Tso

end TikvClient
