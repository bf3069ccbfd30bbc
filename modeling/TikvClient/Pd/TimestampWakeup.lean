import TikvClient.Pd.Timestamp

/-!
# The stream is woken when there is work

`poll_next` returns `Pending` for three reasons: the mutex of the pending queue is held by
`run_tso`, the queue is full, or the channel is empty.  For each of them something has to wake the
stream: in the first two cases `run_tso`, after it has handled a response, and in the last case the
channel.

**The invariant** (`Wakeful`): while the stream sleeps it is registered with the channel, which is
empty or about to wake it, or it is registered in `self_waker` and `run_tso` is on its way to wake
it, or the queue is full.

**The result**: the stream does not sleep over work as long as the responses of PD fit the pending
queue.  When `allocate_timestamps` fails, `run_tso` returns between the guard and the waking: a
stream that found the mutex held by it is never woken.
-/

namespace TikvClient

namespace Tso

open Machine

variable {s s' : State} {a : Action}

/-! ## The property -/

/-- `poll_next` is being executed. -/
def StreamPhase.isRunning : StreamPhase → Bool
  | .idle => false
  | .finished => false
  | _ => true

/-- **`run_tso` is on its way to wake the stream.** -/
def WakesSoon (s : State) : Prop :=
  (∃ resp, s.runTso = .queued resp ∧ s.mutex.holder = some .runTso) ∨
    s.runTso = .releasing (.ok ()) ∨ s.runTso = .waking

/-- **The stream does not sleep over work**: it runs, or is scheduled, or a caller or `run_tso` is
about to wake it. -/
def AwakeIfWork (s : State) : Prop :=
  s.channel ≠ [] → s.pending.length < maxPendingCount →
    s.stream.isRunning = true ∨ s.notified = true ∨ (s.channelWaker = true ∧ 0 < s.wakes) ∨
      (s.selfWaker = true ∧ WakesSoon s)

/-- The response that is handled next fits the pending queue. -/
def ResponseFits (s : State) : Action → Prop
  | .runTso => ∀ resp, s.runTso = .queued resp → s.mutex.holder = some .runTso →
      ∃ tail group rest, Fits resp s.pending tail group rest
  | _ => True

/-! ## The invariant -/

/-- The stream will be woken, unless there is nothing to do. -/
def WillWake (s : State) : Prop :=
  s.channelWaker = true ∨ s.selfWaker = true ∧
    (s.mutex.holder = some .runTso ∨ s.runTso = .waking ∨ maxPendingCount ≤ s.pending.length)

/-- Why the stream may sleep, or go to sleep. -/
def MaySleep (s : State) : Prop :=
  match s.stream with
  | .idle => WillWake s
  | .returning .pending => WillWake s
  | .contended => s.mutex.holder = some .runTso ∧ Party.stream ∈ s.mutex.line
  | .registering => s.channelWaker = true ∨ maxPendingCount ≤ s.pending.length
  | _ => True

/-- The stream has seen the end of the channel. -/
def StreamPhase.hasEnded : StreamPhase → Bool
  | .returning (.ready none) => true
  | .finished => true
  | _ => false

structure Wakeful (s : State) : Prop where
  guarded : Guarded s
  counts : CountsMatch s
  channel : s.channelWaker = true → s.channel = [] ∨ 0 < s.wakes
  ended : s.stream.hasEnded = true → s.closed = true ∧ s.channel = []
  noFailure : s.runTso.hasFailed = false
  maySleep : s.notified = false → MaySleep s

namespace Wakeful

lemma init (clusterId : ℕ) : Wakeful (State.init clusterId) where
  guarded := guarded_init clusterId
  counts := fun _ h => nomatch h
  channel := (nomatch ·)
  ended := (nomatch ·)
  noFailure := rfl
  maySleep := (nomatch ·)

lemma channel_of_register (hs : Wakeful s) {w : Bool} (hw : w = true → s.channel = [])
    (h : (s.channelWaker || w) = true) : s.channel = [] ∨ 0 < s.wakes := by
  rcases Bool.or_eq_true_iff.mp h with h | h
  · exact hs.channel h
  · exact .inl (hw h)

lemma of_streamMove (hs : Wakeful s) (h : StreamMove s s') (hguarded : Guarded s')
    (hcounts : CountsMatch s') : Wakeful s' := by
  have hsleep := hs.maySleep
  cases h with
  | poll | acquire =>
    exact ⟨hguarded, hcounts, hs.channel, (fun h => by cases h), hs.noFailure, fun _ => trivial⟩
  | wait hphase hbusy =>
    refine ⟨hguarded, hcounts, hs.channel, (fun h => by cases h), hs.noFailure, fun _ => ⟨?_, ?_⟩⟩
    · -- The stream is not in line, so the other party is.
      obtain ⟨p, rest, hline⟩ := List.exists_cons_of_ne_nil hbusy
      have hp : s.mutex.holder = some p := by rw [FairMutex.holder, hline]; rfl
      cases p with
      | runTso => exact FairMutex.holder_lock_of_holder hp
      | stream =>
        have hpast := hs.guarded.stream (FairMutex.mem_of_holder hp)
        rw [hphase] at hpast
        cases hpast
    · exact FairMutex.mem_line_lock.mpr (.inr rfl)
  | yield hphase =>
    exact ⟨hguarded, hcounts, hs.channel, (fun h => by cases h), hs.noFailure, fun h => by cases h⟩
  | register hphase =>
    refine ⟨hguarded, hcounts, hs.channel, (fun h => by cases h), hs.noFailure, fun hn => ?_⟩
    have hreason := hsleep hn
    rcases hphase with hphase | hphase <;> simp only [MaySleep, hphase] at hreason
    · exact .inr ⟨rfl, .inl hreason.1⟩
    · exact hreason.imp_right fun hfull => ⟨rfl, .inr (.inr hfull)⟩
  | take hphase hlength hchannel =>
    refine ⟨hguarded, hcounts, fun hw => ?_, (fun h => by cases h), hs.noFailure, fun _ => trivial⟩
    exact .inr ((hs.channel hw).resolve_left (by simp [hchannel]))
  | nothing hphase hw hreason =>
    refine ⟨hguarded, hcounts, hs.channel_of_register hw, (fun h => by cases h), hs.noFailure,
      fun hn => ?_⟩
    obtain ⟨-, hn⟩ := Bool.or_eq_false_iff.mp hn
    rcases hreason with hwaker | hbudget | hfull
    · exact .inl (Bool.or_eq_true_iff.mpr (.inr hwaker))
    · exact absurd hbudget (by simp [hn])
    · exact .inr hfull
  | batch hphase hne hw =>
    exact ⟨hguarded, hcounts, hs.channel_of_register hw, (fun h => by cases h), hs.noFailure,
      fun _ => trivial⟩
  | ended hphase hchannel hclosed =>
    exact ⟨hguarded, hcounts, hs.channel, fun _ => ⟨hclosed, hchannel⟩, hs.noFailure,
      fun _ => trivial⟩
  | leave hphase =>
    rename_i out
    rcases out with (- | req) | -
    · exact ⟨hguarded, hcounts, hs.channel, fun _ => hs.ended (by rw [hphase]; rfl),
        hs.noFailure, fun _ => trivial⟩
    · exact ⟨hguarded, hcounts, hs.channel, (fun h => by cases h), hs.noFailure,
        fun h => by cases h⟩
    · refine ⟨hguarded, hcounts, hs.channel, (fun h => by cases h), hs.noFailure, fun hn => ?_⟩
      have hreason := hsleep hn
      simp only [MaySleep, hphase] at hreason
      refine hreason.imp_right fun hwhy => hwhy.imp_right (Or.imp_left fun hholder => ?_)
      exact FairMutex.holder_leave_of_ne hholder (by decide)

/-- A step that leaves alone what the stream sleeps on. -/
lemma maySleep_of_eq (h : MaySleep s) (hstream : s'.stream = s.stream)
    (hchannel : s'.channelWaker = s.channelWaker)
    (hwake : WillWake s → WillWake s')
    (hholder : s.stream = .contended → s.mutex.holder = some .runTso →
      Party.stream ∈ s.mutex.line →
      s'.mutex.holder = some .runTso ∧ Party.stream ∈ s'.mutex.line)
    (hfull : s.stream = .registering → maxPendingCount ≤ s.pending.length →
      maxPendingCount ≤ s'.pending.length) : MaySleep s' := by
  unfold MaySleep at h ⊢
  rw [hstream]
  split at h
  · exact hwake h
  · exact hwake h
  next hphase => exact hholder hphase h.1 h.2
  next hphase => exact h.imp (hchannel.trans ·) (hfull hphase)
  · trivial

lemma of_runTsoMove (hs : Wakeful s) (hallowed : ResponseFits s .runTso) (h : RunTsoMove s s')
    (hguarded : Guarded s') (hcounts : CountsMatch s') : Wakeful s' := by
  have hfailed := hs.noFailure
  cases h with
  | lock hphase =>
    refine ⟨hguarded, hcounts, hs.channel, hs.ended, rfl, fun hn =>
      maySleep_of_eq (hs.maySleep hn) rfl rfl ?_ (fun _ hholder hmem => ?_) fun _ => id⟩
    · refine Or.imp_right fun ⟨hself, hwhy⟩ => ⟨hself, ?_⟩
      rcases hwhy with hholder | hwaking | hfull
      · exact .inl (FairMutex.holder_lock_of_holder hholder)
      · cases hphase.symm.trans hwaking
      · exact .inr (.inr hfull)
    · exact ⟨FairMutex.holder_lock_of_holder hholder, FairMutex.mem_line_lock.mpr (.inl hmem)⟩
  | allocate hphase hholds =>
    obtain ⟨tail, group, rest, hfits⟩ := hallowed _ hphase hholds
    have hmem : group ∈ s.pending := by rw [hfits.pending]; exact List.mem_cons_self
    obtain ⟨hok, -⟩ := allocateTimestamps_of_fits hfits (hs.counts group hmem)
    refine ⟨hguarded, hcounts, hs.channel, hs.ended, by rw [hok]; rfl, fun hn =>
      maySleep_of_eq (hs.maySleep hn) rfl rfl ?_ (fun _ hholder hmem => ⟨hholder, hmem⟩)
        fun hreg _ => ?_⟩
    · exact Or.imp_right fun ⟨hself, _⟩ => ⟨hself, .inl hholds⟩
    · -- The stream holds the mutex while it looks at the queue.
      have hguard := hs.guarded.guard (by rw [hreg]; rfl)
      cases hholds.symm.trans hguard
  | release hphase =>
    rename_i result
    rw [hphase] at hfailed
    cases result with
    | error e => cases hfailed
    | ok _ =>
      refine ⟨hguarded, hcounts, hs.channel, hs.ended, rfl, fun hn => ?_⟩
      obtain ⟨hn, hnext⟩ := Bool.or_eq_false_iff.mp hn
      refine maySleep_of_eq (hs.maySleep hn) rfl rfl ?_ (fun _ hholder hmem => ?_) fun _ => id
      · exact Or.imp_right fun ⟨hself, _⟩ => ⟨hself, .inr (.inl rfl)⟩
      · -- The stream is next in line, and was woken by the mutex.
        have hstream := FairMutex.holder_leave_of_mem hholder hmem (by decide)
          fun p => by cases p <;> simp
        exact absurd hstream (of_decide_eq_false hnext)
  | wake hphase =>
    refine ⟨hguarded, hcounts, hs.channel, hs.ended, rfl, fun hn => ?_⟩
    obtain ⟨hn, hself⟩ := Bool.or_eq_false_iff.mp hn
    refine maySleep_of_eq (hs.maySleep hn) rfl rfl ?_ (fun _ hholder hmem => ⟨hholder, hmem⟩)
      fun _ => id
    refine fun hwill => .inl (hwill.resolve_right fun ⟨hself', _⟩ => ?_)
    rw [hself] at hself'
    cases hself'

lemma of_otherMove (hs : Wakeful s) (h : OtherMove s a s') (hguarded : Guarded s')
    (hcounts : CountsMatch s') : Wakeful s' := by
  cases h with
  | call hopen =>
    refine ⟨hguarded, hcounts, fun _ => .inr (Nat.succ_pos _), fun hended => ?_, hs.noFailure,
      hs.maySleep⟩
    have hclosed := (hs.ended hended).1
    rw [hopen] at hclosed
    cases hclosed
  | close =>
    exact ⟨hguarded, hcounts, fun _ => .inr (Nat.succ_pos _),
      fun hended => ⟨rfl, (hs.ended hended).2⟩, hs.noFailure, hs.maySleep⟩
  | wake =>
    refine ⟨hguarded, hcounts, (nomatch ·), hs.ended, hs.noFailure, fun hn => ?_⟩
    obtain ⟨hn, hchannel⟩ := Bool.or_eq_false_iff.mp hn
    refine maySleep_of_eq (hs.maySleep hn) rfl hchannel.symm ?_
      (fun _ hholder hmem => ⟨hholder, hmem⟩) fun _ => id
    exact fun hwill => .inr (hwill.resolve_left (by simp [hchannel]))
  | nudge => exact ⟨hguarded, hcounts, hs.channel, hs.ended, hs.noFailure, (nomatch ·)⟩
  | respond hphase | hangUp hphase =>
    refine ⟨hguarded, hcounts, hs.channel, hs.ended, rfl, fun hn =>
      maySleep_of_eq (hs.maySleep hn) rfl rfl ?_ (fun _ hholder hmem => ⟨hholder, hmem⟩)
        fun _ => id⟩
    refine Or.imp_right fun ⟨hself, hwhy⟩ => ⟨hself, ?_⟩
    rcases hwhy with hholder | hwaking | hfull
    · exact .inl hholder
    · cases hphase.symm.trans hwaking
    · exact .inr (.inr hfull)

/-- **One step.** -/
theorem step (hs : Wakeful s) (hallowed : ResponseFits s a) (h : Tso.step s a = some s') :
    Wakeful s' := by
  have hguarded := guarded_step hs.guarded h
  have hcounts := countsMatch_step hs.counts h
  obtain hmove | ⟨rfl, hmove⟩ | hmove := step_cases h
  · exact hs.of_streamMove hmove hguarded hcounts
  · exact hs.of_runTsoMove hallowed hmove hguarded hcounts
  · exact hs.of_otherMove hmove hguarded hcounts

/-- Whoever holds the mutex for `run_tso` is about to wake the stream. -/
lemma wakesSoon_of_holder (hs : Wakeful s) (hholder : s.mutex.holder = some .runTso) :
    WakesSoon s := by
  have hpast := hs.guarded.runTso.mp (FairMutex.mem_of_holder hholder)
  have hfailed := hs.noFailure
  cases hphase : s.runTso with
  | queued resp => exact .inl ⟨resp, hphase, hholder⟩
  | releasing result =>
    rw [hphase] at hfailed
    cases result with
    | ok _ => exact .inr (.inl hphase)
    | error e => cases hfailed
  | _ =>
    rw [hphase] at hpast
    cases hpast

lemma awakeIfWork (hs : Wakeful s) : AwakeIfWork s := by
  intro hwork hroom
  by_cases hrunning : s.stream.isRunning = true
  · exact .inl hrunning
  by_cases hn : s.notified = true
  · exact .inr (.inl hn)
  have hreason := hs.maySleep (Bool.eq_false_iff.mpr hn)
  cases hphase : s.stream with
  | idle =>
    simp only [MaySleep, hphase] at hreason
    rcases hreason with hchannel | ⟨hself, hholder | hwaking | hfull⟩
    · exact .inr (.inr (.inl ⟨hchannel, (hs.channel hchannel).resolve_left hwork⟩))
    · exact .inr (.inr (.inr ⟨hself, hs.wakesSoon_of_holder hholder⟩))
    · exact .inr (.inr (.inr ⟨hself, .inr (.inr hwaking)⟩))
    · exact absurd hfull (not_le.mpr hroom)
  | finished => exact absurd (hs.ended (by rw [hphase]; rfl)).2 hwork
  | _ => exact absurd (by rw [hphase]; rfl) hrunning

end Wakeful

/-! ## The result -/

/-- **No wakeup is lost** in a run whose responses fit the pending queue. -/
theorem awake_if_work_of_responses_fit {clusterId : ℕ}
    (h : Reach step ResponseFits (State.init clusterId) s) : AwakeIfWork s :=
  (h.invariant (Wakeful.init clusterId) fun _ _ _ hs hallowed hstep =>
    hs.step hallowed hstep).awakeIfWork

/-- The stream goes to sleep on the channel; a response arrives; a call wakes the stream. -/
def callDuringResponse (resp : TsoResponse) : List Action :=
  [.stream, .stream, .stream, .stream, .stream, .respond resp, .call, .wake]

/-- `run_tso` locks the queue, and the stream finds it locked. -/
def contention : List Action := [.stream, .stream, .stream, .stream]

/-- The stream sleeps while `run_tso`, which will wake it, holds the mutex. -/
theorem awake_if_work_while_contended :
    ∃ s, Reach step ResponseFits (State.init 1) s ∧ s.channel = [0] ∧ s.stream = .idle ∧
      s.notified = false ∧ AwakeIfWork s := by
  let resp : TsoResponse := ⟨1, some ⟨100, 7, 0⟩⟩
  have hcall : ((run step (callDuringResponse resp) (State.init 1)).map
      fun s => (s.runTso.isPastLock)) = some false := by decide
  have hall : ((run step (callDuringResponse resp ++ .runTso :: contention) (State.init 1)).map
      fun s => (s.channel, s.stream, s.notified)) = some ([0], .idle, false) := by decide
  obtain ⟨s₁, hrun₁, hpast⟩ := Option.map_eq_some_iff.mp hcall
  obtain ⟨s₃, hrun₃, hs₃⟩ := Option.map_eq_some_iff.mp hall
  simp only [Prod.mk.injEq] at hs₃
  have hfits : ResponseFits s₁ .runTso := by
    intro resp hphase
    rw [hphase] at hpast
    cases hpast
  rw [run_append, hrun₁, Option.bind_some, run] at hrun₃
  obtain ⟨s₂, hact, hrest⟩ := Option.bind_eq_some_iff.mp hrun₃
  have hreach₁ : Reach step ResponseFits (State.init 1) s₁ :=
    Reach.refl.run hrun₁ (by simp [callDuringResponse, ResponseFits])
  have hreach := (hreach₁.act .runTso hfits hact).run hrest (by simp [contention, ResponseFits])
  exact ⟨s₃, hreach, hs₃.1, hs₃.2.1, hs₃.2.2, awake_if_work_of_responses_fit hreach⟩

/-- **A wakeup is lost.**  A response without a timestamp makes `run_tso` fail while the stream
waits for it: the stream sleeps, though there is a request in the channel and no pending group. -/
theorem stream_sleeps_over_work :
    ∃ s, Reach step (fun _ _ => True) (State.init 1) s ∧ s.channel = [0] ∧ s.pending = [] ∧
      s.runTso.hasFailed = true ∧ ¬ AwakeIfWork s := by
  have hall : ((run step (callDuringResponse ⟨1, none⟩ ++ .runTso :: contention ++
      [.runTso, .runTso]) (State.init 1)).map fun s => (s.channel, s.pending, s.stream,
        s.notified, s.channelWaker, s.runTso.hasFailed)) =
      some ([0], [], .idle, false, false, true) := by decide
  obtain ⟨s, hrun, hs⟩ := Option.map_eq_some_iff.mp hall
  simp only [Prod.mk.injEq] at hs
  obtain ⟨hchannel, hpending, hstream, hnotified, hwaker, hfailed⟩ := hs
  refine ⟨s, reach_of_run hrun, hchannel, hpending, hfailed, fun hawake => ?_⟩
  have hsoon : ¬ WakesSoon s := by
    rintro (⟨resp, hphase, -⟩ | hphase | hphase) <;> rw [hphase] at hfailed <;> cases hfailed
  have hroom : s.pending.length < maxPendingCount := by
    rw [hpending]
    decide
  rcases hawake (by simp [hchannel]) hroom with h | h | h | h
  · rw [hstream] at h
    cases h
  · rw [hnotified] at h
    cases h
  · rw [hwaker] at h
    cases h.1
  · exact hsoon h.2

end Tso

end TikvClient
