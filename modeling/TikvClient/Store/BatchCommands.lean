import Mathlib.Data.List.Nodup
import TikvClient.Common.Errors
import TikvClient.Core.Machine

/-!
# Batched commands

A store connection carries the requests of all callers on one bidirectional stream.  `dispatch`
gives its request an id, puts the sending half of a oneshot channel into the in-flight table, hands
the request to the send loop and waits.  The send loop connects a stream when it has none, and again
when sending on it fails.  Every stream has a receive loop, which routes responses by their ids and,
when the stream ends, fails the requests in the table.

**Who moves.**  Any number of calls, the send loop, and one receive loop for each stream that was
ever connected; the table is shared by all of them.  A step is one access to the table or to a
channel, with what the task does until the next one.

**What is recorded.**  Calls and streams are numbered.  The number of the call in an entry of the
table stands for the oneshot channel; `sentOn` and `completed` are no part of the program.
-/

namespace TikvClient

namespace BatchCommands

variable {α : Type}

/-! ## Responses -/

inductive BatchCommandKind where
  | rawGet | rawBatchGet | rawPut | rawBatchPut | rawDelete | rawBatchDelete | rawScan
  | rawBatchScan | rawDeleteRange | rawCoprocessor
  | get | scan | prewrite | commit | cleanup | batchGet | batchRollback | pessimisticRollback
  | resolveLock | scanLock | flush | bufferBatchGet | pessimisticLock | txnHeartBeat
  | checkTxnStatus | checkSecondaryLocks | gc | deleteRange | broadcastTxnStatus
  | getHealthFeedback
deriving DecidableEq

/-- The name in debug output. -/
def BatchCommandKind.name : BatchCommandKind → String
  | .rawGet => "RawGet"
  | .rawBatchGet => "RawBatchGet"
  | .rawPut => "RawPut"
  | .rawBatchPut => "RawBatchPut"
  | .rawDelete => "RawDelete"
  | .rawBatchDelete => "RawBatchDelete"
  | .rawScan => "RawScan"
  | .rawBatchScan => "RawBatchScan"
  | .rawDeleteRange => "RawDeleteRange"
  | .rawCoprocessor => "RawCoprocessor"
  | .get => "Get"
  | .scan => "Scan"
  | .prewrite => "Prewrite"
  | .commit => "Commit"
  | .cleanup => "Cleanup"
  | .batchGet => "BatchGet"
  | .batchRollback => "BatchRollback"
  | .pessimisticRollback => "PessimisticRollback"
  | .resolveLock => "ResolveLock"
  | .scanLock => "ScanLock"
  | .flush => "Flush"
  | .bufferBatchGet => "BufferBatchGet"
  | .pessimisticLock => "PessimisticLock"
  | .txnHeartBeat => "TxnHeartBeat"
  | .checkTxnStatus => "CheckTxnStatus"
  | .checkSecondaryLocks => "CheckSecondaryLocks"
  | .gc => "Gc"
  | .deleteRange => "DeleteRange"
  | .broadcastTxnStatus => "BroadcastTxnStatus"
  | .getHealthFeedback => "GetHealthFeedback"

/-- A response: its command, `none` for one this client does not use, and what it carries. -/
structure Response (α : Type) where
  cmd : Option (Option BatchCommandKind × α)

def decodeResponse (kind : BatchCommandKind) (response : Response α) : Except Error α :=
  match response.cmd with
  | none => .error (.internalError "batch response missing cmd")
  | some (cmd, value) =>
    if cmd = some kind then .ok value
    else .error (.internalError ("batch response mismatch: expected=" ++ kind.name))

inductive StatusCode where
  | unavailable
  | deadlineExceeded
  | other (code : ℕ)
deriving DecidableEq

/-- A gRPC status; callers get it as an `Error::GrpcAPI`. -/
structure Status where
  code : StatusCode
  message : String
deriving DecidableEq

/-! ## The state -/

/-- **What is sent to a call** through its oneshot channel. -/
inductive Answer (α : Type) where
  /-- A decoded response that carried the id. -/
  | response (requestId : ℕ) (result : Except Error α)
  /-- No stream could be connected. -/
  | connectFailed (status : Status)
  /-- The receive loop of the stream has failed the request. -/
  | streamError (stream : ℕ) (status : Status)

/-- Why `dispatch` returns without an answer. -/
inductive GiveUp where
  | timeout
  /-- The send loop has terminated. -/
  | terminated

def GiveUp.status : GiveUp → Status
  | .timeout => ⟨.deadlineExceeded, "batch commands request timeout"⟩
  | .terminated => ⟨.unavailable, "batch commands send loop terminated"⟩

/-- How `dispatch` returns. -/
inductive Completion (α : Type) where
  | answered (answer : Answer α)
  /-- The sending half of the channel was dropped. -/
  | canceled
  | gaveUp (reason : GiveUp)

/-- What the caller gets. -/
def Completion.result : Completion α → Except Error α
  | .answered (.response _ result) => result
  | .answered (.connectFailed _) => .error .grpcAPI
  | .answered (.streamError _ _) => .error .grpcAPI
  | .canceled => .error (.other 0)
  | .gaveUp _ => .error .grpcAPI

/-- Where `dispatch` is. -/
inductive DispatchPhase (α : Type) where
  | notCalled
  /-- About to put its entry into the table. -/
  | inserting
  /-- Handing the request to the send loop. -/
  | sending
  | waiting
  /-- About to remove its entry from the table, and to return. -/
  | removing (reason : GiveUp)
  | returned (completion : Completion α)
  /-- The caller has dropped the future. -/
  | dropped

structure Dispatch (α : Type) where
  requestId : ℕ
  kind : BatchCommandKind
  phase : DispatchPhase α
  answer : Option (Answer α)
  /-- The stream the request was sent on. -/
  sentOn : Option ℕ

/-- An entry of the table; the channel is that of the call. -/
structure Inflight where
  kind : BatchCommandKind
  call : ℕ

structure Outbound where
  requestId : ℕ
  call : ℕ

/-- Where the receive loop of a stream is. -/
inductive RecvPhase (α : Type) where
  | reading
  /-- In the loop over the responses of a message. -/
  | handling (responses : List (ℕ × Response α))
  /-- About to fail the requests in the table. -/
  | failing (status : Status)
  | finished

structure BatchStream (α : Type) where
  /-- The stream has ended. -/
  ended : Bool
  /-- The transport has dropped the receiving half of `request_tx`. -/
  requestsClosed : Bool
  recv : RecvPhase α

/-- Where the send loop is. -/
inductive SendLoop where
  | waiting
  | holding (outbound : Outbound)
  | terminated

/-- **The state of a client.** -/
structure State (α : Type) where
  nextRequestId : ℕ
  inflight : List (ℕ × Inflight)
  outbound : List Outbound
  sendLoop : SendLoop
  connection : Option ℕ
  connects : ℕ
  streams : ℕ → BatchStream α
  calls : ℕ
  dispatches : ℕ → Dispatch α
  completed : List (ℕ × Completion α)

/-- A client after `new`. -/
def State.init : State α where
  nextRequestId := 1
  inflight := []
  outbound := []
  sendLoop := .waiting
  connection := none
  connects := 0
  streams := fun _ => ⟨false, false, .reading⟩
  calls := 0
  dispatches := fun _ => ⟨0, .rawGet, .notCalled, none, none⟩
  completed := []

namespace State

variable (s : State α)

/-- Change what is known of a call. -/
def setDispatch (d : ℕ) (dispatch : Dispatch α) : State α :=
  { s with dispatches := Function.update s.dispatches d dispatch }

def setPhase (d : ℕ) (phase : DispatchPhase α) : State α :=
  s.setDispatch d { s.dispatches d with phase := phase }

def setStream (k : ℕ) (stream : BatchStream α) : State α :=
  { s with streams := Function.update s.streams k stream }

def setRecv (k : ℕ) (recv : RecvPhase α) : State α :=
  s.setStream k { s.streams k with recv := recv }

/-- `guard.insert`: an entry with the same id is replaced. -/
def insertInflight (id : ℕ) (entry : Inflight) : State α :=
  { s with inflight := (id, entry) :: s.inflight.filter fun x => x.1 ≠ id }

/-- `guard.remove`. -/
def removeInflight (id : ℕ) : State α :=
  { s with inflight := s.inflight.filter fun x => x.1 ≠ id }

/-- `resp_tx.send`. -/
def sendAnswer (d : ℕ) (answer : Answer α) : State α :=
  s.setDispatch d { s.dispatches d with answer := some answer }

/-- Remove the entry of an id, if there is one, and answer its call. -/
def answerInflight (id : ℕ) (answer : Inflight → Answer α) : State α :=
  match s.inflight.find? fun x => x.1 = id with
  | none => s
  | some x => (s.removeInflight id).sendAnswer x.2.call (answer x.2)

/-- Answer the calls of all entries. -/
def answerAll (entries : List (ℕ × Inflight)) (answer : Answer α) : State α :=
  entries.foldl (fun s x => s.sendAnswer x.2.call answer) s

/-- `dispatch` returns. -/
def returnFrom (d : ℕ) (completion : Completion α) : State α :=
  { s.setPhase d (.returned completion) with completed := s.completed ++ [(d, completion)] }

end State

/-! ## Steps -/

inductive Action (α : Type) where
  /-- `dispatch` is called, and takes an id. -/
  | call (kind : BatchCommandKind)
  | insert (d : ℕ)
  | enqueue (d : ℕ)
  | enqueueFails (d : ℕ)
  /-- The timeout passes before an answer. -/
  | timeout (d : ℕ)
  | remove (d : ℕ)
  /-- The oneshot channel is ready. -/
  | finish (d : ℕ)
  /-- The caller drops the future. -/
  | drop (d : ℕ)
  /-- The send loop receives a request. -/
  | receive
  /-- The send loop connects a stream. -/
  | connect
  | connectFails (status : Status)
  | send
  | sendFails
  | terminate
  /-- A stream ends. -/
  | endStream (k : ℕ)
  /-- The transport drops the requests of a stream that has ended. -/
  | closeRequests (k : ℕ)
  /-- A receive loop gets a message. -/
  | message (k : ℕ) (requestIds : List ℕ) (responses : List (Response α))
  | respond (k : ℕ)
  /-- A receive loop sees the end of its stream: `Ok(None)`, or `Err(status)`. -/
  | endOfStream (k : ℕ) (status : Option Status)
  | failAll (k : ℕ)

def dispatchStep (s : State α) (d : ℕ) : Action α → Option (State α)
  | .insert _ =>
    match (s.dispatches d).phase with
    | .inserting =>
      some ((s.insertInflight (s.dispatches d).requestId
        ⟨(s.dispatches d).kind, d⟩).setPhase d .sending)
    | _ => none
  | .enqueue _ =>
    match (s.dispatches d).phase, s.sendLoop with
    | .sending, .terminated => none
    | .sending, _ =>
      if s.outbound.length < 1024 then
        some ({ s with
          outbound := s.outbound ++ [(⟨(s.dispatches d).requestId, d⟩ : Outbound)] }.setPhase
            d .waiting)
      else none
    | _, _ => none
  | .enqueueFails _ =>
    match (s.dispatches d).phase, s.sendLoop with
    | .sending, .terminated => some (s.setPhase d (.removing .terminated))
    | _, _ => none
  | .timeout _ =>
    match (s.dispatches d).phase, (s.dispatches d).answer with
    | .waiting, none => some (s.setPhase d (.removing .timeout))
    | _, _ => none
  | .remove _ =>
    match (s.dispatches d).phase with
    | .removing reason =>
      some ((s.removeInflight (s.dispatches d).requestId).returnFrom d (.gaveUp reason))
    | _ => none
  | .finish _ =>
    match (s.dispatches d).phase, (s.dispatches d).answer with
    | .waiting, some answer => some (s.returnFrom d (.answered answer))
    | .waiting, none =>
      if s.inflight.all fun x => x.2.call ≠ d then some (s.returnFrom d .canceled) else none
    | _, _ => none
  | .drop _ =>
    match (s.dispatches d).phase with
    | .notCalled => none
    | .returned _ => none
    | _ => some (s.setPhase d .dropped)
  | _ => none

def sendLoopStep (s : State α) : Action α → Option (State α)
  | .receive =>
    match s.sendLoop, s.outbound with
    | .waiting, o :: outbound => some { s with sendLoop := .holding o, outbound := outbound }
    | _, _ => none
  | .connect =>
    match s.sendLoop, s.connection with
    | .holding _, none =>
      some { s.setStream s.connects ⟨false, false, .reading⟩ with
        connection := some s.connects
        connects := s.connects + 1 }
    | _, _ => none
  | .connectFails status =>
    match s.sendLoop, s.connection with
    | .holding o, none =>
      some { s.answerInflight o.requestId fun _ => .connectFailed status with
        sendLoop := .waiting }
    | _, _ => none
  | .send =>
    match s.sendLoop, s.connection with
    | .holding o, some k =>
      if (s.streams k).requestsClosed then none
      else some { s.setDispatch o.call { s.dispatches o.call with sentOn := some k } with
        sendLoop := .waiting }
    | _, _ => none
  | .sendFails =>
    match s.sendLoop, s.connection with
    | .holding _, some k =>
      if (s.streams k).requestsClosed then some { s with connection := none } else none
    | _, _ => none
  | .terminate =>
    match s.sendLoop with
    | .waiting => some { s with sendLoop := .terminated }
    | _ => none
  | _ => none

/-- The steps of a stream and of its receive loop. -/
def streamStep (s : State α) (k : ℕ) : Action α → Option (State α)
  | .endStream _ => some (s.setStream k { s.streams k with ended := true })
  | .closeRequests _ =>
    if (s.streams k).ended then some (s.setStream k { s.streams k with requestsClosed := true })
    else none
  | .message _ requestIds responses =>
    match (s.streams k).recv with
    | .reading => some (s.setRecv k (.handling (requestIds.zip responses)))
    | _ => none
  | .respond _ =>
    match (s.streams k).recv with
    | .handling [] => some (s.setRecv k .reading)
    | .handling ((id, response) :: rest) =>
      some ((s.answerInflight id fun entry =>
        .response id (decodeResponse entry.kind response)).setRecv k (.handling rest))
    | _ => none
  | .endOfStream _ status =>
    match (s.streams k).recv with
    | .reading =>
      if (s.streams k).ended then
        some (s.setRecv k (.failing
          (status.getD ⟨.unavailable, "batch commands stream closed"⟩)))
      else none
    | _ => none
  | .failAll _ =>
    match (s.streams k).recv with
    | .failing status =>
      some (({ s with inflight := [] }.answerAll s.inflight
        (.streamError k status)).setRecv k .finished)
    | _ => none
  | _ => none

/-- **One step.** -/
def step (s : State α) (a : Action α) : Option (State α) :=
  match a with
  | .call kind =>
    some { s.setDispatch s.calls ⟨s.nextRequestId, kind, .inserting, none, none⟩ with
      calls := s.calls + 1
      nextRequestId := (s.nextRequestId + 1) % 2 ^ 64 }
  | .insert d | .enqueue d | .enqueueFails d | .timeout d | .remove d | .finish d | .drop d =>
    if d < s.calls then dispatchStep s d a else none
  | .receive | .connect | .connectFails _ | .send | .sendFails | .terminate => sendLoopStep s a
  | .endStream k | .closeRequests k | .message k _ _ | .respond k | .endOfStream k _
  | .failAll k => if k < s.connects then streamStep s k a else none

/-! ## What a step can do -/

/-- **The moves.** -/
inductive Move (s : State α) : Action α → State α → Prop where
  | call {a : Action α} (kind : BatchCommandKind) :
      Move s a { s.setDispatch s.calls ⟨s.nextRequestId, kind, .inserting, none, none⟩ with
        calls := s.calls + 1
        nextRequestId := (s.nextRequestId + 1) % 2 ^ 64 }
  | insert {a : Action α} {d : ℕ} (hd : d < s.calls)
      (hphase : (s.dispatches d).phase = .inserting) :
      Move s a ((s.insertInflight (s.dispatches d).requestId
        ⟨(s.dispatches d).kind, d⟩).setPhase d .sending)
  | enqueue {a : Action α} {d : ℕ} (hd : d < s.calls)
      (hphase : (s.dispatches d).phase = .sending) :
      Move s a ({ s with
        outbound := s.outbound ++ [(⟨(s.dispatches d).requestId, d⟩ : Outbound)] }.setPhase
          d .waiting)
  | giveUp {a : Action α} {d : ℕ} {reason : GiveUp} (hd : d < s.calls)
      (hphase : (s.dispatches d).phase = .sending ∨ (s.dispatches d).phase = .waiting) :
      Move s a (s.setPhase d (.removing reason))
  | remove {a : Action α} {d : ℕ} {reason : GiveUp} (hd : d < s.calls)
      (hphase : (s.dispatches d).phase = .removing reason) :
      Move s a ((s.removeInflight (s.dispatches d).requestId).returnFrom d (.gaveUp reason))
  | finish {a : Action α} {d : ℕ} {completion : Completion α} (hd : d < s.calls)
      (hphase : (s.dispatches d).phase = .waiting)
      (hanswer : ∀ answer, completion = .answered answer →
        (s.dispatches d).answer = some answer) :
      Move s a (s.returnFrom d completion)
  | drop {a : Action α} {d : ℕ} (hd : d < s.calls)
      (hphase : ∀ completion, (s.dispatches d).phase ≠ .returned completion) :
      Move s a (s.setPhase d .dropped)
  | receive {a : Action α} {o : Outbound} {outbound : List Outbound}
      (hloop : s.sendLoop = .waiting) (houtbound : s.outbound = o :: outbound) :
      Move s a { s with sendLoop := .holding o, outbound := outbound }
  | connect {a : Action α} {o : Outbound} (hloop : s.sendLoop = .holding o)
      (hconnection : s.connection = none) :
      Move s a { s.setStream s.connects ⟨false, false, .reading⟩ with
        connection := some s.connects
        connects := s.connects + 1 }
  | connectFails {a : Action α} {o : Outbound} {status : Status}
      (hloop : s.sendLoop = .holding o) :
      Move s a { s.answerInflight o.requestId fun _ => .connectFailed status with
        sendLoop := .waiting }
  | send {a : Action α} {o : Outbound} {k : ℕ} (hloop : s.sendLoop = .holding o)
      (hconnection : s.connection = some k) :
      Move s a { s.setDispatch o.call { s.dispatches o.call with sentOn := some k } with
        sendLoop := .waiting }
  | sendFails {a : Action α} {o : Outbound} {k : ℕ} (hloop : s.sendLoop = .holding o)
      (hconnection : s.connection = some k) (hclosed : (s.streams k).requestsClosed = true) :
      Move s a { s with connection := none }
  | terminate {a : Action α} (hloop : s.sendLoop = .waiting) :
      Move s a { s with sendLoop := .terminated }
  | endStream {a : Action α} {k : ℕ} (hk : k < s.connects) :
      Move s a (s.setStream k { s.streams k with ended := true })
  | closeRequests {a : Action α} {k : ℕ} (hk : k < s.connects)
      (hended : (s.streams k).ended = true) :
      Move s a (s.setStream k { s.streams k with requestsClosed := true })
  | read {a : Action α} {k : ℕ} {recv : RecvPhase α} (hk : k < s.connects)
      (hrecv : ∀ status, recv = .failing status → (s.streams k).ended = true) :
      Move s a (s.setRecv k recv)
  | respond {a : Action α} {k id : ℕ} {response : Response α} {rest : List (ℕ × Response α)}
      (hk : k < s.connects) :
      Move s a ((s.answerInflight id fun entry =>
        .response id (decodeResponse entry.kind response)).setRecv k (.handling rest))
  | failAll {k : ℕ} {status : Status} (hk : k < s.connects)
      (hrecv : (s.streams k).recv = .failing status) :
      Move s (.failAll k) (({ s with inflight := [] }.answerAll s.inflight
        (.streamError k status)).setRecv k .finished)

variable {s s' : State α} {a : Action α}

lemma move_of_dispatchStep {d : ℕ} (hd : d < s.calls)
    (h : dispatchStep s d a = some s') : Move s a s' := by
  unfold dispatchStep at h
  split at h
  · split at h
    next hphase =>
      cases h
      exact .insert hd hphase
    next => cases h
  · split at h
    next => cases h
    next hphase _ =>
      split_ifs at h
      cases h
      exact .enqueue hd hphase
    next => cases h
  · split at h
    next hphase _ =>
      cases h
      exact .giveUp hd (.inl hphase)
    next => cases h
  · split at h
    next hphase _ =>
      cases h
      exact .giveUp hd (.inr hphase)
    next => cases h
  · split at h
    next reason hphase =>
      cases h
      exact .remove hd hphase
    next => cases h
  · split at h
    next answer hphase hanswer =>
      cases h
      refine .finish hd hphase fun answer' heq => ?_
      cases heq
      exact hanswer
    next hphase _ =>
      split_ifs at h
      cases h
      exact .finish hd hphase (by simp)
    next => cases h
  · split at h
    next => cases h
    next => cases h
    next hreturned =>
      cases h
      exact .drop hd hreturned
  · cases h

lemma move_of_sendLoopStep (h : sendLoopStep s a = some s') :
    Move s a s' := by
  unfold sendLoopStep at h
  split at h
  · split at h
    next o outbound hloop houtbound =>
      cases h
      exact .receive hloop houtbound
    next => cases h
  · split at h
    next o hloop hconnection =>
      cases h
      exact .connect hloop hconnection
    next => cases h
  · split at h
    next o hloop hconnection =>
      cases h
      exact .connectFails hloop
    next => cases h
  · split at h
    next o k hloop hconnection =>
      split_ifs at h
      cases h
      exact .send hloop hconnection
    next => cases h
  · split at h
    next o k hloop hconnection =>
      split_ifs at h with hclosed
      cases h
      exact .sendFails hloop hconnection hclosed
    next => cases h
  · split at h
    next hloop =>
      cases h
      exact .terminate hloop
    next => cases h
  · cases h

lemma move_of_streamStep {k : ℕ} (hk : k < s.connects)
    (ha : ∀ j, a = .failAll j → j = k) (h : streamStep s k a = some s') : Move s a s' := by
  unfold streamStep at h
  split at h
  · cases h
    exact .endStream hk
  · split_ifs at h with hended
    cases h
    exact .closeRequests hk hended
  · split at h
    next =>
      cases h
      exact .read hk (by simp)
    next => cases h
  · split at h
    next =>
      cases h
      exact .read hk (by simp)
    next id response rest _ =>
      cases h
      exact .respond hk
    next => cases h
  · split at h
    next =>
      split_ifs at h with hended
      cases h
      exact .read hk fun _ _ => hended
    next => cases h
  · split at h
    next status hrecv =>
      cases h
      obtain rfl := ha _ rfl
      exact .failAll hk hrecv
    next => cases h
  · cases h

/-- **What a step can do.** -/
theorem move_of_step (h : step s a = some s') : Move s a s' := by
  unfold step at h
  split at h
  · cases h
    exact .call _
  all_goals
    first
    | exact move_of_sendLoopStep h
    | (split_ifs at h with hlt
       first
       | exact move_of_dispatchStep hlt h
       | exact move_of_streamStep hlt (by simp) h)

end BatchCommands

end TikvClient
