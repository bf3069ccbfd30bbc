import Mathlib.Tactic.Linarith
import TikvClient.Common.Errors
import TikvClient.Core.FairMutex
import TikvClient.Core.Machine

/-!
# The timestamp oracle

Calls of `get_timestamp` put their requests into a channel.  Two tasks serve them.  The *stream* of
requests to PD (`TsoRequestStream::poll_next`) takes requests from the channel in batches, asks PD
for as many timestamps at once, and keeps the batch as a group in the pending queue.  `run_tso`
receives the responses of PD and hands out the timestamps to the requests of the oldest group.

**What the tasks share** is the pending queue, behind a fair mutex whose lock future is dropped when
`poll_next` returns, and an `AtomicWaker` (`selfWaker`) by which `run_tso` wakes the stream.  The
stream is also woken by the mutex, when it is handed over, and by the channel, when a request is put
into it.

**The machine.**  A step is one access to what is shared.  The last fields of a state are no part of
the program: they record the order in which the requests are taken, the batches, the responses that
were handled and the timestamps that were sent, for the statements about whole runs.
-/

namespace TikvClient

namespace Tso

/-- `MAX_BATCH_SIZE`, also the capacity of the channel. -/
def maxBatchSize : ℕ := 64

def maxPendingCount : ℕ := 1 <<< 16

/-- `pdpb::Timestamp`; the parts are an `i64`, an `i64` and a `u32`. -/
structure Timestamp where
  physical : ℤ
  logical : ℤ
  suffixBits : ℕ
deriving DecidableEq

/-- `a` comes before `b`. -/
def Timestamp.Before (a b : Timestamp) : Prop :=
  a.physical < b.physical ∨ a.physical = b.physical ∧ a.logical < b.logical

/-- `TimestampRequest`, the sending half of a oneshot channel, as the number of the call. -/
abbrev TimestampRequest := ℕ

structure RequestHeader where
  clusterId : ℕ
  senderId : ℕ
  callerId : String
  callerComponent : String
deriving DecidableEq

structure TsoRequest where
  header : RequestHeader
  count : ℕ
  dcLocation : String
deriving DecidableEq

structure TsoResponse where
  count : ℕ
  timestamp : Option Timestamp
deriving DecidableEq

structure RequestGroup where
  tsoRequest : TsoRequest
  requests : List TimestampRequest
deriving DecidableEq

/-! ## Batches and allocation -/

/-- The request for a batch. -/
def newTsoRequest (clusterId : ℕ) (requests : List TimestampRequest) : TsoRequest where
  header := ⟨clusterId, 0, "", ""⟩
  count := requests.length
  dcLocation := ""

/-- What `allocate_timestamps` does: the groups that are left, the timestamps that are sent, and the
result. -/
structure Allocation where
  pending : List RequestGroup
  sent : List (TimestampRequest × Timestamp)
  result : Except Error Unit

/-- The loop over the requests of a group.  Arithmetic that leaves the range of its type panics. -/
def sendTimestamps (tail : Timestamp) :
    ℕ → List TimestampRequest → List (TimestampRequest × Timestamp) × Except Error Unit
  | _, [] => ([], .ok ())
  | 0, _ :: _ => ([], .error (.panicked "attempt to subtract with overflow"))
  | offset + 1, request :: requests =>
    if tail.logical - offset < -2 ^ 63 then
      ([], .error (.panicked "attempt to subtract with overflow"))
    else
      let rest := sendTimestamps tail offset requests
      ((request, ⟨tail.physical, tail.logical - offset, tail.suffixBits⟩) :: rest.1, rest.2)

def allocateTimestamps (resp : TsoResponse) (pending : List RequestGroup) : Allocation :=
  match resp.timestamp with
  | none => ⟨pending, [], .error (.internalError "No timestamp in TsoResponse")⟩
  | some tail =>
    match pending with
    | group :: pending =>
      if group.tsoRequest.count ≠ resp.count then
        ⟨pending, [], .error (.internalError
          "PD gives different number of timestamps than expected")⟩
      else
        let sent := sendTimestamps tail resp.count group.requests
        ⟨pending, sent.1, sent.2⟩
    | [] => ⟨[], [], .error (.internalError "PD gives more TsoResponse than expected")⟩

/-- **A response fits the pending queue**: it carries a timestamp, and its count is that of the
oldest group. -/
structure Fits (resp : TsoResponse) (pending : List RequestGroup) (tail : Timestamp)
    (group : RequestGroup) (rest : List RequestGroup) : Prop where
  timestamp : resp.timestamp = some tail
  pending : pending = group :: rest
  count : resp.count = group.tsoRequest.count
  inRange : -2 ^ 63 ≤ tail.logical - resp.count

section Allocate

variable {tail : Timestamp} {requests : List TimestampRequest} {offset : ℕ}

/-- With an offset for each request, the loop sends one timestamp to each. -/
lemma sendTimestamps_ok (h : offset = requests.length) (hrange : -2 ^ 63 ≤ tail.logical - offset) :
    (sendTimestamps tail offset requests).2 = .ok () ∧
      (sendTimestamps tail offset requests).1.map Prod.fst = requests := by
  induction requests generalizing offset with
  | nil => simp [sendTimestamps]
  | cons request requests ih =>
    obtain rfl : offset = requests.length + 1 := h
    have hin : ¬ tail.logical - requests.length < -2 ^ 63 := by push_cast at hrange; omega
    obtain ⟨hok, hmap⟩ := ih rfl (by push_cast at hrange; omega)
    simp only [sendTimestamps, if_neg hin, List.map_cons, hmap, and_true]
    exact hok

lemma mem_sendTimestamps {x : TimestampRequest × Timestamp}
    (hx : x ∈ (sendTimestamps tail offset requests).1) :
    x.2.physical = tail.physical ∧ tail.logical - offset < x.2.logical ∧
      x.2.logical ≤ tail.logical := by
  induction requests generalizing offset with
  | nil => simp [sendTimestamps] at hx
  | cons request requests ih =>
    cases offset with
    | zero => simp [sendTimestamps] at hx
    | succ offset =>
      rw [sendTimestamps] at hx
      split_ifs at hx
      · simp at hx
      · rcases List.mem_cons.mp hx with rfl | hx
        · refine ⟨rfl, ?_, ?_⟩ <;> push_cast <;> omega
        · obtain ⟨hphysical, hlow, hhigh⟩ := ih hx
          refine ⟨hphysical, ?_, hhigh⟩
          push_cast
          omega

lemma pairwise_sendTimestamps (tail : Timestamp) (offset : ℕ) (requests : List TimestampRequest) :
    ((sendTimestamps tail offset requests).1.map Prod.snd).Pairwise Timestamp.Before := by
  induction requests generalizing offset with
  | nil => simp [sendTimestamps]
  | cons request requests ih =>
    cases offset with
    | zero => simp [sendTimestamps]
    | succ offset =>
      rw [sendTimestamps]
      split_ifs
      · simp
      · rw [List.map_cons, List.pairwise_cons]
        refine ⟨fun ts hts => ?_, ih offset⟩
        obtain ⟨x, hx, rfl⟩ := List.mem_map.mp hts
        obtain ⟨hphysical, hlow, -⟩ := mem_sendTimestamps hx
        exact .inr ⟨hphysical.symm, hlow⟩

/-- **A response that fits is handled**: every request of the oldest group is sent a timestamp. -/
lemma allocateTimestamps_of_fits {resp : TsoResponse} {pending rest : List RequestGroup}
    {group : RequestGroup} (h : Fits resp pending tail group rest)
    (hcount : group.tsoRequest.count = group.requests.length) :
    (allocateTimestamps resp pending).result = .ok () ∧
      (allocateTimestamps resp pending).pending = rest ∧
      (allocateTimestamps resp pending).sent =
        (sendTimestamps tail resp.count group.requests).1 ∧
      (allocateTimestamps resp pending).sent.map Prod.fst = group.requests := by
  obtain ⟨hok, hmap⟩ := sendTimestamps_ok (h.count.trans hcount) h.inRange
  simp only [allocateTimestamps, h.timestamp, h.pending, h.count, ne_eq, not_true_eq_false,
    if_false, true_and]
  rw [← h.count]
  exact ⟨hok, hmap⟩

end Allocate

/-! ## The state -/

/-- Who uses the pending queue. -/
inductive Party where
  | stream
  | runTso
deriving DecidableEq

inductive Poll (α : Type) where
  | ready (value : α)
  | pending
deriving DecidableEq

/-- Where `poll_next` is. -/
inductive StreamPhase where
  /-- Not being polled. -/
  | idle
  /-- About to poll the lock future. -/
  | locking
  /-- The lock future is pending; about to register the waker. -/
  | contended
  /-- In the loop, with the requests taken so far. -/
  | collecting (requests : List TimestampRequest)
  /-- Nothing was taken; about to register the waker. -/
  | registering
  /-- About to return, which drops the lock future or the guard. -/
  | returning (out : Poll (Option TsoRequest))
  /-- The stream has ended. -/
  | finished
deriving DecidableEq

/-- Where `run_tso` is. -/
inductive RunTsoPhase where
  /-- Waiting for a response. -/
  | waiting
  /-- About to poll the lock future. -/
  | locking (resp : TsoResponse)
  /-- The lock future has been polled: the guard is there as soon as the mutex is held. -/
  | queued (resp : TsoResponse)
  /-- `allocate_timestamps` has returned; about to drop the guard. -/
  | releasing (result : Except Error Unit)
  /-- About to wake the stream. -/
  | waking
  | stopped (result : Except Error Unit)

/-- `run_tso` has failed, or is about to. -/
def RunTsoPhase.hasFailed : RunTsoPhase → Bool
  | .releasing (.error _) => true
  | .stopped (.error _) => true
  | _ => false

/-- A timestamp that was sent, and the number of the response it comes from. -/
structure Delivery where
  request : TimestampRequest
  timestamp : Timestamp
  batch : ℕ
deriving DecidableEq

/-- **The state of the oracle.** -/
structure State where
  clusterId : ℕ
  channel : List TimestampRequest
  /-- All sending halves of the channel are dropped. -/
  closed : Bool
  /-- Callers that have put a request into the channel, or closed it, and are about to wake the
  stream. -/
  wakes : ℕ
  mutex : FairMutex Party
  pending : List RequestGroup
  stream : StreamPhase
  /-- The task that polls the stream is scheduled. -/
  notified : Bool
  /-- The waker of the stream is registered with the channel. -/
  channelWaker : Bool
  /-- The waker of the stream is registered in `self_waker`. -/
  selfWaker : Bool
  runTso : RunTsoPhase
  /-- The number of calls so far. -/
  calls : ℕ
  /-- The counts of the requests that were sent to PD and not answered. -/
  unanswered : List ℕ
  taken : List TimestampRequest
  batches : List (List TimestampRequest)
  answers : List TsoResponse
  received : List Delivery

/-- The oracle after `new`: the stream is about to be polled for the first time. -/
def State.init (clusterId : ℕ) : State where
  clusterId := clusterId
  channel := []
  closed := false
  wakes := 0
  mutex := .free
  pending := []
  stream := .idle
  notified := true
  channelWaker := false
  selfWaker := false
  runTso := .waiting
  calls := 0
  unanswered := []
  taken := []
  batches := []
  answers := []
  received := []

/-! ## Steps -/

inductive Action where
  /-- A caller puts its request into the channel. -/
  | call
  /-- The last sending half is dropped. -/
  | close
  /-- A caller wakes the stream through the channel. -/
  | wake
  /-- Something else wakes the task that polls the stream. -/
  | nudge
  /-- The next step of `poll_next`. -/
  | stream
  /-- The same when the task has used up its budget: the future that is polled is pending, and the
  task is scheduled again. -/
  | budget
  /-- A response arrives. -/
  | respond (resp : TsoResponse)
  /-- The responses end, or fail. -/
  | hangUp
  /-- The next step of `run_tso`. -/
  | runTso

/-- After the loop: the batch becomes a group, or there is none. -/
def State.finishBatch (s : State) (requests : List TimestampRequest) : State :=
  if requests = [] then { s with stream := .registering }
  else
    let req := newTsoRequest s.clusterId requests
    { s with
      pending := s.pending ++ [⟨req, requests⟩]
      stream := .returning (.ready (some req))
      batches := s.batches ++ [requests] }

/-- One round of the loop: `poll_recv` gives a request, or says that the channel is closed, or
registers the waker. -/
def State.collect (s : State) (requests : List TimestampRequest) : State :=
  if requests.length < maxBatchSize ∧ s.pending.length < maxPendingCount then
    match s.channel with
    | request :: channel =>
      { s with
        channel := channel
        stream := .collecting (requests ++ [request])
        taken := s.taken ++ [request] }
    | [] =>
      if s.closed then
        if requests = [] then { s with stream := .returning (.ready none) }
        else s.finishBatch requests
      else { s with channelWaker := true }.finishBatch requests
  else s.finishBatch requests

/-- `poll_next` returns.  After an item the stream is polled again. -/
def State.returnFromPoll (s : State) : Poll (Option TsoRequest) → State
  | .pending => { s with mutex := s.mutex.leave .stream, stream := .idle }
  | .ready none => { s with mutex := s.mutex.leave .stream, stream := .finished }
  | .ready (some req) =>
    { s with
      mutex := s.mutex.leave .stream
      stream := .idle
      notified := true
      unanswered := s.unanswered ++ [req.count] }

def streamStep (s : State) : Option State :=
  match s.stream with
  | .idle => if s.notified then some { s with stream := .locking, notified := false } else none
  | .locking =>
    some { s with
      mutex := s.mutex.lock .stream
      stream := if s.mutex.line = [] then .collecting [] else .contended }
  | .contended => some { s with selfWaker := true, stream := .returning .pending }
  | .collecting requests => some (s.collect requests)
  | .registering => some { s with selfWaker := true, stream := .returning .pending }
  | .returning out => some (s.returnFromPoll out)
  | .finished => none

def budgetStep (s : State) : Option State :=
  match s.stream with
  | .locking => some { s with stream := .contended, notified := true }
  | .collecting requests =>
    if requests.length < maxBatchSize ∧ s.pending.length < maxPendingCount then
      some ({ s with notified := true }.finishBatch requests)
    else none
  | _ => none

/-- What follows the block with the guard: an error of `allocate_timestamps` is returned. -/
def afterRelease : Except Error Unit → RunTsoPhase
  | .ok () => .waking
  | .error e => .stopped (.error e)

def runTsoStep (s : State) : Option State :=
  match s.runTso with
  | .waiting => none
  | .locking resp => some { s with mutex := s.mutex.lock .runTso, runTso := .queued resp }
  | .queued resp =>
    if s.mutex.holder = some .runTso then
      let allocation := allocateTimestamps resp s.pending
      some { s with
        pending := allocation.pending
        runTso := .releasing allocation.result
        answers := s.answers ++ [resp]
        received := s.received ++
          allocation.sent.map fun x => ⟨x.1, x.2, s.answers.length⟩ }
    else none
  | .releasing result =>
    -- The mutex wakes the stream if it is next in line.
    some { s with
      mutex := s.mutex.leave .runTso
      notified := s.notified || decide ((s.mutex.leave .runTso).holder = some .stream)
      runTso := afterRelease result }
  | .waking =>
    some { s with
      selfWaker := false
      notified := s.notified || s.selfWaker
      runTso := .waiting }
  | .stopped _ => none

/-- **One step.** -/
def step (s : State) : Action → Option State
  | .call =>
    if s.closed = false ∧ s.channel.length < maxBatchSize then
      some { s with
        channel := s.channel ++ [s.calls]
        wakes := s.wakes + 1
        calls := s.calls + 1 }
    else none
  | .close => if s.closed then none else some { s with closed := true, wakes := s.wakes + 1 }
  | .wake =>
    if 0 < s.wakes then
      some { s with
        wakes := s.wakes - 1
        channelWaker := false
        notified := s.notified || s.channelWaker }
    else none
  | .nudge => some { s with notified := true }
  | .stream => streamStep s
  | .budget => budgetStep s
  | .respond resp =>
    match s.runTso with
    | .waiting => some { s with runTso := .locking resp, unanswered := s.unanswered.tail }
    | _ => none
  | .hangUp =>
    match s.runTso with
    | .waiting => some { s with runTso := .stopped (.ok ()) }
    | _ => none
  | .runTso => runTsoStep s

/-! ## What a step can do -/

/-- The steps of the stream.  `w` says that the waker is registered with the channel, and `n` that
the task is scheduled because its budget is used up. -/
inductive StreamMove (s : State) : State → Prop where
  | poll (hphase : s.stream = .idle) :
      StreamMove s { s with stream := .locking, notified := false }
  | acquire (hphase : s.stream = .locking) (hfree : s.mutex.line = []) :
      StreamMove s { s with mutex := s.mutex.lock .stream, stream := .collecting [] }
  | wait (hphase : s.stream = .locking) (hbusy : s.mutex.line ≠ []) :
      StreamMove s { s with mutex := s.mutex.lock .stream, stream := .contended }
  | yield (hphase : s.stream = .locking) :
      StreamMove s { s with stream := .contended, notified := true }
  | register (hphase : s.stream = .contended ∨ s.stream = .registering) :
      StreamMove s { s with selfWaker := true, stream := .returning .pending }
  | take {requests : List TimestampRequest} {request : TimestampRequest}
      {channel : List TimestampRequest} (hphase : s.stream = .collecting requests)
      (hlength : requests.length < maxBatchSize) (hchannel : s.channel = request :: channel) :
      StreamMove s { s with
        channel := channel
        stream := .collecting (requests ++ [request])
        taken := s.taken ++ [request] }
  | nothing {w n : Bool} (hphase : s.stream = .collecting []) (hw : w = true → s.channel = [])
      (hreason : w = true ∨ n = true ∨ maxPendingCount ≤ s.pending.length) :
      StreamMove s { s with
        channelWaker := s.channelWaker || w
        notified := s.notified || n
        stream := .registering }
  | batch {requests : List TimestampRequest} {w n : Bool}
      (hphase : s.stream = .collecting requests) (hne : requests ≠ [])
      (hw : w = true → s.channel = []) :
      StreamMove s { s with
        channelWaker := s.channelWaker || w
        notified := s.notified || n
        pending := s.pending ++ [⟨newTsoRequest s.clusterId requests, requests⟩]
        stream := .returning (.ready (some (newTsoRequest s.clusterId requests)))
        batches := s.batches ++ [requests] }
  | ended (hphase : s.stream = .collecting []) (hchannel : s.channel = [])
      (hclosed : s.closed = true) : StreamMove s { s with stream := .returning (.ready none) }
  | leave {out : Poll (Option TsoRequest)} (hphase : s.stream = .returning out) :
      StreamMove s (s.returnFromPoll out)

variable {s s' : State} {a : Action}

/-- The end of the loop. -/
lemma streamMove_finishBatch {requests : List TimestampRequest} (w n : Bool)
    (hphase : s.stream = .collecting requests) (hw : w = true → s.channel = [])
    (hreason : requests = [] → w = true ∨ n = true ∨ maxPendingCount ≤ s.pending.length) :
    StreamMove s ({ s with
      channelWaker := s.channelWaker || w
      notified := s.notified || n }.finishBatch requests) := by
  unfold State.finishBatch
  split_ifs with hempty
  · subst hempty
    exact .nothing hphase hw (hreason rfl)
  · exact .batch hphase hempty hw

lemma streamMove_collect {requests : List TimestampRequest}
    (hphase : s.stream = .collecting requests) : StreamMove s (s.collect requests) := by
  have hfinish := streamMove_finishBatch false false hphase (nomatch ·)
  simp only [Bool.or_false] at hfinish
  unfold State.collect
  by_cases hloop : requests.length < maxBatchSize ∧ s.pending.length < maxPendingCount
  · rw [if_pos hloop]
    split
    next request channel hchannel => exact .take hphase hloop.1 hchannel
    next hchannel =>
      split_ifs with hclosed hempty
      · subst hempty
        exact .ended hphase hchannel hclosed
      · exact hfinish fun hnil => absurd hnil hempty
      · have hmove := streamMove_finishBatch true false hphase (fun _ => hchannel)
          fun _ => .inl rfl
        simpa using hmove
  · rw [if_neg hloop]
    refine hfinish fun hnil => .inr (.inr (not_lt.mp fun hlt => hloop ⟨?_, hlt⟩))
    rw [hnil]
    decide

lemma streamMove_of_streamStep (h : streamStep s = some s') : StreamMove s s' := by
  unfold streamStep at h
  split at h
  next hphase =>
    split_ifs at h
    cases h
    exact .poll hphase
  next hphase =>
    cases h
    by_cases hfree : s.mutex.line = []
    · rw [if_pos hfree]
      exact .acquire hphase hfree
    · rw [if_neg hfree]
      exact .wait hphase hfree
  next hphase =>
    cases h
    exact .register (.inl hphase)
  next requests hphase =>
    cases h
    exact streamMove_collect hphase
  next hphase =>
    cases h
    exact .register (.inr hphase)
  next out hphase =>
    cases h
    exact .leave hphase
  next => cases h

lemma streamMove_of_budgetStep (h : budgetStep s = some s') : StreamMove s s' := by
  unfold budgetStep at h
  split at h
  next hphase =>
    cases h
    exact .yield hphase
  next requests hphase =>
    split_ifs at h
    cases h
    have hmove := streamMove_finishBatch false true hphase (nomatch ·) fun _ => .inr (.inl rfl)
    simpa using hmove
  next => cases h

/-- The steps of `run_tso`. -/
inductive RunTsoMove (s : State) : State → Prop where
  | lock {resp : TsoResponse} (hphase : s.runTso = .locking resp) :
      RunTsoMove s { s with mutex := s.mutex.lock .runTso, runTso := .queued resp }
  | allocate {resp : TsoResponse} (hphase : s.runTso = .queued resp)
      (hholds : s.mutex.holder = some .runTso) :
      RunTsoMove s { s with
        pending := (allocateTimestamps resp s.pending).pending
        runTso := .releasing (allocateTimestamps resp s.pending).result
        answers := s.answers ++ [resp]
        received := s.received ++ (allocateTimestamps resp s.pending).sent.map fun x =>
          ⟨x.1, x.2, s.answers.length⟩ }
  | release {result : Except Error Unit} (hphase : s.runTso = .releasing result) :
      RunTsoMove s { s with
        mutex := s.mutex.leave .runTso
        notified := s.notified || decide ((s.mutex.leave .runTso).holder = some .stream)
        runTso := afterRelease result }
  | wake (hphase : s.runTso = .waking) :
      RunTsoMove s { s with
        selfWaker := false
        notified := s.notified || s.selfWaker
        runTso := .waiting }

lemma runTsoMove_of_runTsoStep (h : runTsoStep s = some s') : RunTsoMove s s' := by
  unfold runTsoStep at h
  split at h
  next => cases h
  next resp hphase =>
    cases h
    exact .lock hphase
  next resp hphase =>
    split_ifs at h with hholds
    cases h
    exact .allocate hphase hholds
  next result hphase =>
    cases h
    exact .release hphase
  next hphase =>
    cases h
    exact .wake hphase
  next => cases h

/-- **The steps of the callers, of PD and of the network.** -/
inductive OtherMove (s : State) : Action → State → Prop where
  | call (hopen : s.closed = false) :
      OtherMove s .call { s with
        channel := s.channel ++ [s.calls]
        wakes := s.wakes + 1
        calls := s.calls + 1 }
  | close : OtherMove s .close { s with closed := true, wakes := s.wakes + 1 }
  | wake : OtherMove s .wake { s with
      wakes := s.wakes - 1
      channelWaker := false
      notified := s.notified || s.channelWaker }
  | nudge : OtherMove s .nudge { s with notified := true }
  | respond {resp : TsoResponse} (hphase : s.runTso = .waiting) :
      OtherMove s (.respond resp)
        { s with runTso := .locking resp, unanswered := s.unanswered.tail }
  | hangUp (hphase : s.runTso = .waiting) :
      OtherMove s .hangUp { s with runTso := .stopped (.ok ()) }

/-- **What a step can do.** -/
theorem step_cases (h : step s a = some s') :
    StreamMove s s' ∨ a = .runTso ∧ RunTsoMove s s' ∨ OtherMove s a s' := by
  cases a with
  | stream => exact .inl (streamMove_of_streamStep h)
  | budget => exact .inl (streamMove_of_budgetStep h)
  | runTso => exact .inr (.inl ⟨rfl, runTsoMove_of_runTsoStep h⟩)
  | call =>
    simp only [step] at h
    split_ifs at h with hopen
    cases h
    exact .inr (.inr (.call hopen.1))
  | close =>
    simp only [step] at h
    split_ifs at h
    cases h
    exact .inr (.inr .close)
  | wake =>
    simp only [step] at h
    split_ifs at h
    cases h
    exact .inr (.inr .wake)
  | nudge =>
    cases h
    exact .inr (.inr .nudge)
  | respond resp =>
    cases hphase : s.runTso with
    | waiting =>
      simp only [step, hphase] at h
      cases h
      exact .inr (.inr (.respond hphase))
    | _ => simp [step, hphase] at h
  | hangUp =>
    cases hphase : s.runTso with
    | waiting =>
      simp only [step, hphase] at h
      cases h
      exact .inr (.inr (.hangUp hphase))
    | _ => simp [step, hphase] at h

/-! ## Groups -/

/-- The count of a group is the number of its requests. -/
def CountsMatch (s : State) : Prop :=
  ∀ group ∈ s.pending, group.tsoRequest.count = group.requests.length

lemma pending_allocateTimestamps_subset (resp : TsoResponse) (pending : List RequestGroup) :
    (allocateTimestamps resp pending).pending ⊆ pending := by
  unfold allocateTimestamps
  cases resp.timestamp with
  | none => exact List.Subset.refl _
  | some tail =>
    cases pending with
    | nil => exact List.Subset.refl _
    | cons group pending =>
      dsimp only
      split_ifs
      · exact List.subset_cons_self _ _
      · exact List.subset_cons_self _ _

lemma countsMatch_step (hs : CountsMatch s) (h : step s a = some s') : CountsMatch s' := by
  obtain hmove | ⟨-, hmove⟩ | hmove := step_cases h
  · cases hmove with
    | batch hphase hne hw =>
      intro group hgroup
      rcases List.mem_append.mp hgroup with hgroup | hgroup
      · exact hs group hgroup
      · rw [List.mem_singleton.mp hgroup]
        rfl
    | leave hphase => cases ‹Poll _› with
      | pending => exact hs
      | ready item => cases item <;> exact hs
    | _ => exact hs
  · cases hmove with
    | allocate hphase hholds =>
      exact fun group hgroup => hs group (pending_allocateTimestamps_subset _ _ hgroup)
    | _ => exact hs
  · cases hmove <;> exact hs

/-! ## The mutex -/

/-- The lock future has been polled. -/
def StreamPhase.isPastLock : StreamPhase → Bool
  | .idle => false
  | .locking => false
  | .finished => false
  | _ => true

/-- `poll_next` uses the pending queue. -/
def StreamPhase.usesPending : StreamPhase → Bool
  | .collecting _ => true
  | .registering => true
  | _ => false

/-- The lock future has been polled, and the guard has not been dropped. -/
def RunTsoPhase.isPastLock : RunTsoPhase → Bool
  | .queued _ => true
  | .releasing _ => true
  | _ => false

/-- **Who stands in line** for the pending queue. -/
structure Guarded (s : State) : Prop where
  stream : Party.stream ∈ s.mutex.line → s.stream.isPastLock = true
  guard : s.stream.usesPending = true → s.mutex.holder = some .stream
  runTso : Party.runTso ∈ s.mutex.line ↔ s.runTso.isPastLock = true

lemma guarded_init (clusterId : ℕ) : Guarded (State.init clusterId) where
  stream h := by simp [State.init, FairMutex.free] at h
  guard h := by simp [State.init, StreamPhase.usesPending] at h
  runTso := by simp [State.init, FairMutex.free, RunTsoPhase.isPastLock]

lemma isPastLock_afterRelease (result : Except Error Unit) :
    (afterRelease result).isPastLock = false := by
  cases result <;> rfl

lemma guarded_streamMove (hs : Guarded s) (h : StreamMove s s') : Guarded s' := by
  cases h with
  | poll hphase =>
    refine ⟨fun hmem => ?_, (nomatch ·), hs.runTso⟩
    have hpast := hs.stream hmem
    rw [hphase] at hpast
    cases hpast
  | acquire hphase hfree =>
    refine ⟨fun _ => rfl, fun _ => FairMutex.holder_lock_of_free hfree, ?_⟩
    simpa [FairMutex.mem_line_lock] using hs.runTso
  | wait hphase hbusy =>
    refine ⟨fun _ => rfl, (nomatch ·), ?_⟩
    simpa [FairMutex.mem_line_lock] using hs.runTso
  | yield | register | batch | ended => exact ⟨fun _ => rfl, (nomatch ·), hs.runTso⟩
  | take hphase | nothing hphase =>
    exact ⟨fun _ => rfl, fun _ => hs.guard (by rw [hphase]; rfl), hs.runTso⟩
  | leave hphase =>
    rename_i out
    have hline : ∀ mutex, mutex = s.mutex.leave .stream → Party.stream ∉ mutex.line ∧
        (Party.runTso ∈ mutex.line ↔ s.runTso.isPastLock = true) := by
      rintro mutex rfl
      simpa [FairMutex.mem_line_leave] using hs.runTso
    obtain ⟨hstream, hrun⟩ := hline _ rfl
    rcases out with (- | req) | -
    · exact ⟨fun h => absurd h hstream, (nomatch ·), hrun⟩
    · exact ⟨fun h => absurd h hstream, (nomatch ·), hrun⟩
    · exact ⟨fun h => absurd h hstream, (nomatch ·), hrun⟩

lemma guarded_runTsoMove (hs : Guarded s) (h : RunTsoMove s s') : Guarded s' := by
  cases h with
  | lock hphase =>
    refine ⟨fun hmem => hs.stream ?_, fun huses =>
      FairMutex.holder_lock_of_holder (hs.guard huses), ?_⟩
    · simpa [FairMutex.mem_line_lock] using hmem
    · simp [FairMutex.mem_line_lock, RunTsoPhase.isPastLock]
  | allocate hphase | wake hphase =>
    refine ⟨hs.stream, hs.guard, ?_⟩
    simpa [hphase, RunTsoPhase.isPastLock] using hs.runTso
  | release hphase =>
    refine ⟨fun hmem => hs.stream (FairMutex.mem_line_leave.mp hmem).2, fun huses =>
      FairMutex.holder_leave_of_ne (hs.guard huses) (by decide), ?_⟩
    simp [FairMutex.mem_line_leave, isPastLock_afterRelease]

theorem guarded_step (hs : Guarded s) (h : step s a = some s') :
    Guarded s' := by
  obtain hmove | ⟨-, hmove⟩ | hmove := step_cases h
  · exact guarded_streamMove hs hmove
  · exact guarded_runTsoMove hs hmove
  · cases hmove with
    | respond hphase | hangUp hphase =>
      have hrun := hs.runTso
      rw [hphase] at hrun
      exact ⟨hs.stream, hs.guard, hrun⟩
    | _ => exact ⟨hs.stream, hs.guard, hs.runTso⟩

end Tso

end TikvClient
