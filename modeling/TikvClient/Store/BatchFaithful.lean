import TikvClient.Store.BatchCommands

/-!
# Batched commands are answered by their own stream

Responses are routed by their ids, so a call can only be answered by a response that carried its id.
The end of a stream, however, fails whatever is in the table.

**What always holds** (`OwnIds`): a call returns at most once, and a response it returns carried its
id.

**When streams end** (`OldStreamsEnded`, `Unsent`): the send loop connects a stream only after the
requests of the last one were dropped, so every stream but the last has ended; and a request is sent
on at most one stream.

**The result**: a call that fails with the error of a stream was sent on one that has ended, as long
as a receive loop fails the table only before a newer stream is connected and after all requests in
the table were sent.  Otherwise it also fails requests of the newer stream, and requests that were
not sent yet.
-/

namespace TikvClient

namespace BatchCommands

open Machine

variable {α : Type} {s s' : State α} {a : Action α}

/-! ## The parts of the state -/

section Fields

variable (s : State α) (d k id : ℕ)

@[simp] lemma dispatches_setDispatch (x : Dispatch α) (d' : ℕ) :
    (s.setDispatch d x).dispatches d' = if d' = d then x else s.dispatches d' :=
  Function.update_apply _ _ _ _

@[simp] lemma dispatches_setPhase (phase : DispatchPhase α) (d' : ℕ) :
    (s.setPhase d phase).dispatches d' =
      if d' = d then { s.dispatches d with phase := phase } else s.dispatches d' :=
  Function.update_apply _ _ _ _

@[simp] lemma streams_setStream (x : BatchStream α) (k' : ℕ) :
    (s.setStream k x).streams k' = if k' = k then x else s.streams k' :=
  Function.update_apply _ _ _ _

@[simp] lemma streams_setRecv (recv : RecvPhase α) (k' : ℕ) :
    (s.setRecv k recv).streams k' =
      if k' = k then { s.streams k with recv := recv } else s.streams k' :=
  Function.update_apply _ _ _ _

lemma answerAll_eq (entries : List (ℕ × Inflight)) (answer : Answer α) :
    s.answerAll entries answer = { s with
      dispatches := fun d =>
        if d ∈ entries.map (·.2.call) then { s.dispatches d with answer := some answer }
        else s.dispatches d } := by
  induction entries generalizing s with
  | nil => simp [State.answerAll]
  | cons x entries ih =>
    show (s.sendAnswer x.2.call answer).answerAll entries answer = _
    rw [ih]
    simp only [State.sendAnswer, State.setDispatch, List.map_cons, List.mem_cons,
      Function.update_apply]
    congr 1
    funext d
    by_cases hd : d = x.2.call
    · subst hd
      simp
    · simp only [if_neg hd]
      by_cases hmem : d ∈ entries.map (·.2.call)
      · rw [if_pos hmem, if_pos (Or.inr hmem)]
      · rw [if_neg hmem, if_neg (not_or.mpr ⟨hd, hmem⟩)]

/-- Answering the entry of an id: nothing happens, or the entry is removed. -/
lemma answerInflight_cases (answer : Inflight → Answer α) :
    s.answerInflight id answer = s ∨ ∃ entry, (id, entry) ∈ s.inflight ∧
      s.answerInflight id answer = (s.removeInflight id).sendAnswer entry.call (answer entry) := by
  unfold State.answerInflight
  cases hfind : s.inflight.find? fun x => x.1 = id with
  | none => exact .inl rfl
  | some x =>
    obtain ⟨id', entry⟩ := x
    obtain rfl : id' = id := by simpa using List.find?_some hfind
    exact .inr ⟨entry, List.mem_of_find?_eq_some hfind, rfl⟩

/-- What answering does not touch. -/
structure SameBut (s s' : State α) : Prop where
  streams : s'.streams = s.streams
  connection : s'.connection = s.connection
  connects : s'.connects = s.connects
  sendLoop : s'.sendLoop = s.sendLoop
  outbound : s'.outbound = s.outbound
  calls : s'.calls = s.calls
  completed : s'.completed = s.completed
  phase : ∀ d, (s'.dispatches d).phase = (s.dispatches d).phase
  sentOn : ∀ d, (s'.dispatches d).sentOn = (s.dispatches d).sentOn

lemma sameBut_answerInflight (answer : Inflight → Answer α) :
    SameBut s (s.answerInflight id answer) := by
  rcases answerInflight_cases s id answer with heq | ⟨entry, -, heq⟩
  · rw [heq]
    exact ⟨rfl, rfl, rfl, rfl, rfl, rfl, rfl, fun _ => rfl, fun _ => rfl⟩
  · rw [heq]
    refine ⟨rfl, rfl, rfl, rfl, rfl, rfl, rfl, fun d => ?_, fun d => ?_⟩ <;>
      simp only [State.sendAnswer, dispatches_setDispatch] <;> split_ifs with h <;>
      first | (rw [h]; rfl) | rfl

lemma sameBut_answerAll (answer : Answer α) :
    SameBut s ({ s with inflight := [] }.answerAll s.inflight answer) := by
  rw [answerAll_eq]
  refine ⟨rfl, rfl, rfl, rfl, rfl, rfl, rfl, fun d => ?_, fun d => ?_⟩ <;> dsimp only <;>
    split_ifs <;> rfl

end Fields

/-! ## Ids -/

/-- **Calls return once, and with a response to their own id.** -/
structure OwnIds (s : State α) : Prop where
  inflight : ∀ x ∈ s.inflight, x.2.call < s.calls ∧ (s.dispatches x.2.call).requestId = x.1
  answered : ∀ d < s.calls, ∀ id r, (s.dispatches d).answer = some (.response id r) →
    (s.dispatches d).requestId = id
  completed : ∀ x ∈ s.completed, x.1 < s.calls ∧ (s.dispatches x.1).phase = .returned x.2 ∧
    ∀ id r, x.2 = .answered (.response id r) → (s.dispatches x.1).requestId = id
  once : (s.completed.map Prod.fst).Nodup

namespace OwnIds

lemma init : OwnIds (State.init : State α) where
  inflight := fun _ h => nomatch h
  answered := fun _ h => absurd h (Nat.not_lt_zero _)
  completed := fun _ h => nomatch h
  once := List.nodup_nil

/-- A step that keeps the ids, answers the calls of their own ids only, and undoes no return. -/
lemma frame (hs : OwnIds s) (hcalls : s'.calls = s.calls) (hcompleted : s'.completed = s.completed)
    (hid : ∀ d, (s'.dispatches d).requestId = (s.dispatches d).requestId)
    (hreturned : ∀ d c, (s.dispatches d).phase = .returned c →
      (s'.dispatches d).phase = .returned c)
    (hinflight : ∀ x ∈ s'.inflight, x.2.call < s.calls ∧
      (s.dispatches x.2.call).requestId = x.1)
    (hanswer : ∀ d < s.calls, ∀ id r, (s'.dispatches d).answer = some (.response id r) →
      (s.dispatches d).requestId = id) : OwnIds s' where
  inflight x hx := by
    rw [hcalls, hid]
    exact hinflight x hx
  answered d hd id r h := by
    rw [hcalls] at hd
    rw [hid]
    exact hanswer d hd id r h
  completed x hx := by
    rw [hcompleted] at hx
    obtain ⟨hlt, hphase, hown⟩ := hs.completed x hx
    rw [hcalls, hid]
    exact ⟨hlt, hreturned _ _ hphase, hown⟩
  once := by
    rw [hcompleted]
    exact hs.once

variable {d : ℕ}

lemma setPhase (hs : OwnIds s) {phase : DispatchPhase α}
    (hphase : ∀ c, (s.dispatches d).phase ≠ .returned c) : OwnIds (s.setPhase d phase) := by
  refine hs.frame rfl rfl (fun d' => ?_) (fun d' c hc => ?_) hs.inflight fun d' hd' id r h => ?_
  · rw [dispatches_setPhase]
    split_ifs with h
    · rw [h]
    · rfl
  · rw [dispatches_setPhase]
    split_ifs with h
    · exact absurd (h ▸ hc) (hphase c)
    · exact hc
  · rw [dispatches_setPhase] at h
    split_ifs at h with heq
    · exact hs.answered d' hd' id r (by rw [heq]; exact h)
    · exact hs.answered d' hd' id r h

lemma returnFrom (hs : OwnIds s) {c : Completion α} (hd : d < s.calls)
    (hphase : ∀ c, (s.dispatches d).phase ≠ .returned c)
    (hown : ∀ id r, c = .answered (.response id r) → (s.dispatches d).requestId = id) :
    OwnIds (s.returnFrom d c) := by
  have hset : OwnIds (s.setPhase d (.returned c)) := hs.setPhase hphase
  refine ⟨hset.inflight, hset.answered, fun x hx => ?_, ?_⟩
  · rcases List.mem_append.mp hx with hx | hx
    · exact hset.completed x hx
    · rw [List.mem_singleton.mp hx]
      refine ⟨hd, ?_, fun id r hr => ?_⟩
      · show ((s.setPhase d (.returned c)).dispatches d).phase = _
        simp
      · show ((s.setPhase d (.returned c)).dispatches d).requestId = _
        simpa using hown id r hr
  · show ((s.completed ++ [(d, c)]).map Prod.fst).Nodup
    rw [List.map_append, List.nodup_append]
    refine ⟨hs.once, List.nodup_singleton _, ?_⟩
    rintro d' hd' _ hmem rfl
    obtain rfl := List.mem_singleton.mp hmem
    obtain ⟨x, hx, rfl⟩ := List.mem_map.mp hd'
    exact hphase _ (hs.completed x hx).2.1

lemma answerInflight (hs : OwnIds s) {id : ℕ} {answer : Inflight → Answer α}
    (hown : ∀ entry id' r, answer entry = .response id' r → id' = id) :
    OwnIds (s.answerInflight id answer) := by
  rcases answerInflight_cases s id answer with heq | ⟨entry, hmem, heq⟩
  · rw [heq]
    exact hs
  · rw [heq]
    refine hs.frame rfl rfl (fun d => ?_) (fun d c hc => ?_) (fun x hx => ?_) fun d hd id' r h => ?_
    · simp only [State.sendAnswer, dispatches_setDispatch]
      split_ifs with h
      · rw [h]
        rfl
      · rfl
    · simp only [State.sendAnswer, dispatches_setDispatch]
      split_ifs with h
      · rw [← h]
        exact hc
      · exact hc
    · exact hs.inflight x (List.mem_of_mem_filter hx)
    · simp only [State.sendAnswer, dispatches_setDispatch] at h
      split_ifs at h with heq
      · rw [hown entry id' r (Option.some.inj h), heq]
        exact (hs.inflight _ hmem).2
      · exact hs.answered d hd id' r h

/-- The calls of all entries are answered, by something other than a response. -/
lemma answerAll (hs : OwnIds s) {answer : Answer α} (hown : ∀ id r, answer ≠ .response id r) :
    OwnIds ({ s with inflight := [] }.answerAll s.inflight answer) := by
  rw [answerAll_eq]
  refine hs.frame rfl rfl (fun d => ?_) (fun d c hc => ?_) (fun x hx => nomatch hx)
    fun d hd id' r h => ?_
  · dsimp only
    split_ifs <;> rfl
  · dsimp only
    split_ifs <;> exact hc
  · dsimp only at h
    split_ifs at h
    · exact absurd (Option.some.inj h) (hown id' r)
    · exact hs.answered d hd id' r h

lemma call (hs : OwnIds s) (kind : BatchCommandKind) (next : ℕ) :
    OwnIds { s.setDispatch s.calls ⟨s.nextRequestId, kind, .inserting, none, none⟩ with
      calls := s.calls + 1
      nextRequestId := next } := by
  have hold : ∀ d < s.calls, (s.setDispatch s.calls
      ⟨s.nextRequestId, kind, .inserting, none, none⟩).dispatches d = s.dispatches d := by
    intro d hd
    rw [dispatches_setDispatch, if_neg (by omega)]
  refine ⟨fun x hx => ?_, fun d hd id r h => ?_, fun x hx => ?_, hs.once⟩
  · obtain ⟨hlt, hid⟩ := hs.inflight x hx
    exact ⟨Nat.lt_succ_of_lt hlt, (congrArg Dispatch.requestId (hold _ hlt)).trans hid⟩
  · rcases Nat.lt_succ_iff_lt_or_eq.mp hd with hlt | rfl
    · simp only [hold d hlt] at h ⊢
      exact hs.answered d hlt id r h
    · simp at h
  · obtain ⟨hlt, hphase, hown⟩ := hs.completed x hx
    simp only [hold _ hlt]
    exact ⟨Nat.lt_succ_of_lt hlt, hphase, hown⟩

lemma insertInflight (hs : OwnIds s) (hd : d < s.calls) (kind : BatchCommandKind) :
    OwnIds (s.insertInflight (s.dispatches d).requestId ⟨kind, d⟩) := by
  refine hs.frame rfl rfl (fun _ => rfl) (fun _ _ h => h) (fun x hx => ?_) hs.answered
  rcases List.mem_cons.mp hx with rfl | hx
  · exact ⟨hd, rfl⟩
  · exact hs.inflight x (List.mem_of_mem_filter hx)

theorem move (hs : OwnIds s) (h : Move s a s') : OwnIds s' := by
  cases h with
  | call kind => exact hs.call kind _
  | insert hd hphase =>
    exact (hs.insertInflight hd _).setPhase fun c hc => by cases hphase.symm.trans hc
  | enqueue hd hphase =>
    refine OwnIds.setPhase ?_ fun c hc => by cases hphase.symm.trans hc
    exact hs.frame rfl rfl (fun _ => rfl) (fun _ _ h => h) hs.inflight hs.answered
  | giveUp hd hphase =>
    refine hs.setPhase fun c hc => ?_
    rcases hphase with h | h <;> cases h.symm.trans hc
  | remove hd hphase =>
    refine OwnIds.returnFrom ?_ hd (fun c hc => by cases hphase.symm.trans hc)
      fun id r hr => nomatch hr
    exact hs.frame rfl rfl (fun _ => rfl) (fun _ _ h => h)
      (fun x hx => hs.inflight x (List.mem_of_mem_filter hx)) hs.answered
  | finish hd hphase hanswer =>
    refine hs.returnFrom hd (fun c hc => by cases hphase.symm.trans hc) fun id r hr => ?_
    exact hs.answered _ hd id r (hanswer _ hr)
  | drop hd hphase => exact hs.setPhase hphase
  | send hloop hconnection =>
    refine hs.frame rfl rfl (fun d => ?_) (fun d c hc => ?_) hs.inflight fun d hd id r h => ?_
    · simp only [dispatches_setDispatch]
      split_ifs with h
      · rw [h]
      · rfl
    · simp only [dispatches_setDispatch]
      split_ifs with h
      · rw [← h]
        exact hc
      · exact hc
    · simp only [dispatches_setDispatch] at h
      split_ifs at h with heq
      · rw [← heq] at h
        exact hs.answered d hd id r h
      · exact hs.answered d hd id r h
  | connectFails hloop =>
    rename_i o status
    have hanswered : OwnIds (s.answerInflight o.requestId fun _ => .connectFailed status) :=
      hs.answerInflight (by simp)
    exact hanswered.frame rfl rfl (fun _ => rfl) (fun _ _ h => h) hanswered.inflight
      hanswered.answered
  | respond hk =>
    rename_i k id response rest
    have hanswered : OwnIds (s.answerInflight id fun entry =>
        .response id (decodeResponse entry.kind response)) :=
      hs.answerInflight fun entry id' r h => (Answer.response.inj h).1.symm
    exact hanswered.frame rfl rfl (fun _ => rfl) (fun _ _ h => h) hanswered.inflight
      hanswered.answered
  | failAll hk hrecv =>
    rename_i k status
    have herror : ∀ id (r : Except Error α), Answer.streamError k status ≠ .response id r := by
      simp
    have hanswered := hs.answerAll herror
    exact hanswered.frame rfl rfl (fun _ => rfl) (fun _ _ h => h) hanswered.inflight
      hanswered.answered
  | receive hloop houtbound | connect hloop hconnection | sendFails hloop hconnection hclosed
  | terminate hloop | endStream hk | closeRequests hk hended | read hk hrecv =>
    exact hs.frame rfl rfl (fun _ => rfl) (fun _ _ h => h) hs.inflight hs.answered

end OwnIds

/-! ## Streams -/

/-- **Every stream but the one in use has ended.** -/
structure OldStreamsEnded (s : State α) : Prop where
  ended : ∀ k < s.connects, (s.streams k).ended = true ∨ s.connection = some k
  last : ∀ k, s.connection = some k → k + 1 = s.connects
  failing : ∀ k < s.connects, ∀ status, (s.streams k).recv = .failing status →
    (s.streams k).ended = true
  closed : ∀ k < s.connects, (s.streams k).requestsClosed = true → (s.streams k).ended = true

namespace OldStreamsEnded

lemma init : OldStreamsEnded (State.init : State α) where
  ended := fun _ h => absurd h (Nat.not_lt_zero _)
  last := fun _ h => nomatch h
  failing := fun _ h => absurd h (Nat.not_lt_zero _)
  closed := fun _ h => absurd h (Nat.not_lt_zero _)

lemma of_eq (hs : OldStreamsEnded s) (hstreams : s'.streams = s.streams)
    (hconnection : s'.connection = s.connection) (hconnects : s'.connects = s.connects) :
    OldStreamsEnded s' := by
  constructor
  · rw [hstreams, hconnection, hconnects]
    exact hs.ended
  · rw [hconnection, hconnects]
    exact hs.last
  · rw [hstreams, hconnects]
    exact hs.failing
  · rw [hstreams, hconnects]
    exact hs.closed

/-- One stream moves on, and has not gone back on its end. -/
lemma setStream (hs : OldStreamsEnded s) {k : ℕ} {stream : BatchStream α}
    (hended : (s.streams k).ended = true → stream.ended = true)
    (hfailing : ∀ status, stream.recv = .failing status → stream.ended = true)
    (hclosed : stream.requestsClosed = true → stream.ended = true) :
    OldStreamsEnded (s.setStream k stream) := by
  refine ⟨fun j hj => ?_, hs.last, fun j hj status => ?_, fun j hj => ?_⟩ <;>
    rw [streams_setStream] <;> split_ifs with h
  · rw [h] at hj ⊢
    exact (hs.ended k hj).imp_left hended
  · exact hs.ended j hj
  · exact hfailing status
  · exact hs.failing j hj status
  · exact hclosed
  · exact hs.closed j hj

lemma connect (hs : OldStreamsEnded s) (hconnection : s.connection = none) :
    OldStreamsEnded { s.setStream s.connects ⟨false, false, .reading⟩ with
      connection := some s.connects
      connects := s.connects + 1 } := by
  have hold : ∀ k < s.connects, (s.setStream s.connects
      (⟨false, false, .reading⟩ : BatchStream α)).streams k = s.streams k := by
    intro k hk
    rw [streams_setStream, if_neg (by omega)]
  refine ⟨fun k hk => ?_, fun k hk => ?_, fun k hk status h => ?_, fun k hk h => ?_⟩
  · rcases Nat.lt_succ_iff_lt_or_eq.mp hk with hlt | rfl
    · left
      simp only [hold k hlt]
      exact (hs.ended k hlt).resolve_right (by simp [hconnection])
    · exact .inr rfl
  · rw [← Option.some.inj hk]
  · rcases Nat.lt_succ_iff_lt_or_eq.mp hk with hlt | rfl
    · simp only [hold k hlt] at h ⊢
      exact hs.failing k hlt status h
    · simp at h
  · rcases Nat.lt_succ_iff_lt_or_eq.mp hk with hlt | rfl
    · simp only [hold k hlt] at h ⊢
      exact hs.closed k hlt h
    · simp at h

theorem move (hs : OldStreamsEnded s) (h : Move s a s') : OldStreamsEnded s' := by
  cases h with
  | connect hloop hconnection => exact hs.connect hconnection
  | sendFails hloop hconnection hclosed =>
    rename_i o k
    refine ⟨fun j hj => .inl ?_, by simp, hs.failing, hs.closed⟩
    rcases hs.ended j hj with h | h
    · exact h
    · -- The transport drops the requests of a stream only when it has ended.
      obtain rfl := Option.some.inj (h.symm.trans hconnection)
      exact hs.closed j hj hclosed
  | endStream hk => exact hs.setStream (fun _ => rfl) (fun _ _ => rfl) fun _ => rfl
  | closeRequests hk hended =>
    exact hs.setStream id (fun status => hs.failing _ hk status) fun _ => hended
  | read hk hrecv => exact hs.setStream id hrecv (hs.closed _ hk)
  | connectFails hloop =>
    rename_i o status
    have hsame := sameBut_answerInflight s o.requestId fun _ => .connectFailed status
    exact hs.of_eq hsame.streams hsame.connection hsame.connects
  | respond hk =>
    rename_i k id response rest
    have hsame := sameBut_answerInflight s id fun entry =>
      .response id (decodeResponse entry.kind response)
    have hs' := hs.of_eq hsame.streams hsame.connection hsame.connects
    refine hs'.setStream (fun h => h) (fun status h => nomatch h) ?_
    exact hs'.closed k (hsame.connects.symm ▸ hk)
  | failAll hk hrecv =>
    rename_i k status
    have hsame := sameBut_answerAll s (.streamError k status)
    have hs' := hs.of_eq hsame.streams hsame.connection hsame.connects
    refine hs'.setStream (fun h => h) (fun status h => nomatch h) ?_
    exact hs'.closed k (hsame.connects.symm ▸ hk)
  | call kind | insert hd hphase | enqueue hd hphase | giveUp hd hphase | remove hd hphase
  | finish hd hphase hanswer | drop hd hphase | receive hloop houtbound
  | send hloop hconnection | terminate hloop => exact hs.of_eq rfl rfl rfl

end OldStreamsEnded

/-! ## Requests on their way -/

/-- The calls whose requests are on the way to a stream. -/
def queued (s : State α) : List ℕ :=
  (match s.sendLoop with
    | .holding o => [o.call]
    | _ => []) ++ s.outbound.map (·.call)

/-- The request was not yet handed to the send loop. -/
def DispatchPhase.isEarly : DispatchPhase α → Bool
  | .notCalled => true
  | .inserting => true
  | .sending => true
  | _ => false

/-- **A request is sent at most once.** -/
structure Unsent (s : State α) : Prop where
  nodup : (queued s).Nodup
  queued : ∀ d ∈ queued s, d < s.calls ∧ (s.dispatches d).phase.isEarly = false ∧
    (s.dispatches d).sentOn = none
  early : ∀ d < s.calls, (s.dispatches d).phase.isEarly = true → (s.dispatches d).sentOn = none
  sent : ∀ d < s.calls, ∀ k, (s.dispatches d).sentOn = some k → k < s.connects

namespace Unsent

lemma init : Unsent (State.init : State α) where
  nodup := List.nodup_nil
  queued := fun _ h => nomatch h
  early := fun _ h => absurd h (Nat.not_lt_zero _)
  sent := fun _ h => absurd h (Nat.not_lt_zero _)

/-- A step that sends nothing and hands no new request to the send loop. -/
lemma frame (hs : Unsent s) (hqueue : (BatchCommands.queued s').Sublist (BatchCommands.queued s))
    (hcalls : s'.calls = s.calls) (hconnects : s.connects ≤ s'.connects)
    (hsent : ∀ d, (s'.dispatches d).sentOn = (s.dispatches d).sentOn)
    (hearly : ∀ d, (s'.dispatches d).phase.isEarly = true →
      (s.dispatches d).phase.isEarly = true) : Unsent s' where
  nodup := hs.nodup.sublist hqueue
  queued d hd := by
    obtain ⟨hlt, hphase, hnone⟩ := hs.queued d (hqueue.subset hd)
    refine ⟨hcalls ▸ hlt, Bool.eq_false_iff.mpr fun h => ?_, (hsent d).trans hnone⟩
    rw [hearly d h] at hphase
    cases hphase
  early d hd h := by
    rw [hsent]
    exact hs.early d (hcalls ▸ hd) (hearly d h)
  sent d hd k h := by
    rw [hsent] at h
    exact (hs.sent d (hcalls ▸ hd) k h).trans_le hconnects

lemma setPhase (hs : Unsent s) {d : ℕ} {phase : DispatchPhase α}
    (hphase : phase.isEarly = true → (s.dispatches d).phase.isEarly = true) :
    Unsent (s.setPhase d phase) := by
  refine hs.frame (List.Sublist.refl _) rfl le_rfl (fun d' => ?_) fun d' h => ?_
  · rw [dispatches_setPhase]
    split_ifs with heq
    · rw [heq]
    · rfl
  · rw [dispatches_setPhase] at h
    split_ifs at h with heq
    · rw [heq]
      exact hphase h
    · exact h

lemma returnFrom (hs : Unsent s) (d : ℕ) (c : Completion α) : Unsent (s.returnFrom d c) := by
  have hset : Unsent (s.setPhase d (.returned c)) := hs.setPhase (nomatch ·)
  exact hset.frame (List.Sublist.refl _) rfl le_rfl (fun _ => rfl) fun _ h => h

lemma of_same (hs : Unsent s) (h : SameBut s s') : Unsent s' := by
  refine hs.frame ?_ h.calls h.connects.ge h.sentOn fun d hd => (h.phase d) ▸ hd
  unfold BatchCommands.queued
  rw [h.sendLoop, h.outbound]

lemma call (hs : Unsent s) (kind : BatchCommandKind) (next : ℕ) :
    Unsent { s.setDispatch s.calls ⟨s.nextRequestId, kind, .inserting, none, none⟩ with
      calls := s.calls + 1
      nextRequestId := next } := by
  have hold : ∀ d < s.calls, (s.setDispatch s.calls
      ⟨s.nextRequestId, kind, .inserting, none, none⟩).dispatches d = s.dispatches d := by
    intro d hd
    rw [dispatches_setDispatch, if_neg (by omega)]
  refine ⟨hs.nodup, fun d hd => ?_, fun d hd h => ?_, fun d hd k h => ?_⟩
  · obtain ⟨hlt, hphase, hnone⟩ := hs.queued d hd
    simp only [hold d hlt]
    exact ⟨Nat.lt_succ_of_lt hlt, hphase, hnone⟩
  · rcases Nat.lt_succ_iff_lt_or_eq.mp hd with hlt | rfl
    · simp only [hold d hlt] at h ⊢
      exact hs.early d hlt h
    · simp
  · rcases Nat.lt_succ_iff_lt_or_eq.mp hd with hlt | rfl
    · simp only [hold d hlt] at h
      exact hs.sent d hlt k h
    · simp at h

lemma enqueue (hs : Unsent s) {d id : ℕ} (hd : d < s.calls)
    (hphase : (s.dispatches d).phase = .sending) :
    Unsent ({ s with outbound := s.outbound ++ [(⟨id, d⟩ : Outbound)] }.setPhase d .waiting) := by
  have hearly : (s.dispatches d).phase.isEarly = true := by rw [hphase]; rfl
  have hqueue : BatchCommands.queued ({ s with
      outbound := s.outbound ++ [(⟨id, d⟩ : Outbound)] }.setPhase d .waiting) =
      BatchCommands.queued s ++ [d] := by
    simp [BatchCommands.queued, State.setPhase, State.setDispatch]
  have hset : Unsent (s.setPhase d .waiting) := hs.setPhase (nomatch ·)
  refine ⟨?_, fun d' hd' => ?_, hset.early, hset.sent⟩
  · rw [hqueue, List.nodup_append]
    refine ⟨hs.nodup, List.nodup_singleton d, ?_⟩
    rintro d' hd' _ hmem rfl
    obtain rfl := List.mem_singleton.mp hmem
    have hfalse := (hs.queued d' hd').2.1
    rw [hearly] at hfalse
    cases hfalse
  · rw [hqueue] at hd'
    rcases List.mem_append.mp hd' with hd' | hd'
    · exact hset.queued d' hd'
    · rw [List.mem_singleton.mp hd']
      refine ⟨hd, ?_, ?_⟩
      · show ((s.setPhase d .waiting).dispatches d).phase.isEarly = false
        rw [dispatches_setPhase, if_pos rfl]
        rfl
      · show ((s.setPhase d .waiting).dispatches d).sentOn = none
        rw [dispatches_setPhase, if_pos rfl]
        exact hs.early d hd hearly

lemma send (hs : Unsent s) {o : Outbound} {k : ℕ} (hloop : s.sendLoop = .holding o)
    (hk : k < s.connects) :
    Unsent { s.setDispatch o.call { s.dispatches o.call with sentOn := some k } with
      sendLoop := .waiting } := by
  have hqueue : BatchCommands.queued s = o.call :: s.outbound.map (·.call) := by
    simp [BatchCommands.queued, hloop]
  have hnodup := hs.nodup
  rw [hqueue, List.nodup_cons] at hnodup
  have hphase : ∀ d, ((s.setDispatch o.call
      { s.dispatches o.call with sentOn := some k }).dispatches d).phase =
      (s.dispatches d).phase := by
    intro d
    rw [dispatches_setDispatch]
    split_ifs with h
    · rw [h]
    · rfl
  refine ⟨hnodup.2, fun d hd => ?_, fun d hd h => ?_, fun d hd j h => ?_⟩
  · have hne : d ≠ o.call := fun h => hnodup.1 (h ▸ hd)
    simp only [dispatches_setDispatch, if_neg hne]
    exact hs.queued d (by rw [hqueue]; exact List.mem_cons_of_mem _ hd)
  · simp only [hphase] at h
    have hne : d ≠ o.call := by
      rintro rfl
      have hfalse := (hs.queued o.call (by rw [hqueue]; exact List.mem_cons_self)).2.1
      rw [h] at hfalse
      cases hfalse
    simp only [dispatches_setDispatch, if_neg hne]
    exact hs.early d hd h
  · simp only [dispatches_setDispatch] at h
    split_ifs at h
    · rw [← Option.some.inj h]
      exact hk
    · exact hs.sent d hd j h

theorem move (hs : Unsent s) (hold : OldStreamsEnded s) (h : Move s a s') : Unsent s' := by
  cases h with
  | call kind => exact hs.call kind _
  | insert hd hphase =>
    refine Unsent.setPhase (s := s.insertInflight _ _) ?_ fun _ => ?_
    · exact hs.frame (List.Sublist.refl _) rfl le_rfl (fun _ => rfl) fun _ h => h
    · show (s.dispatches _).phase.isEarly = true
      rw [hphase]
      rfl
  | enqueue hd hphase => exact hs.enqueue hd hphase
  | giveUp | drop => exact hs.setPhase (nomatch ·)
  | remove hd hphase =>
    refine Unsent.returnFrom (s := s.removeInflight _) ?_ _ _
    exact hs.frame (List.Sublist.refl _) rfl le_rfl (fun _ => rfl) fun _ h => h
  | finish hd hphase hanswer => exact hs.returnFrom _ _
  | receive hloop houtbound =>
    refine hs.frame ?_ rfl le_rfl (fun _ => rfl) fun _ h => h
    simp [BatchCommands.queued, hloop, houtbound]
  | send hloop hconnection =>
    have hlast := hold.last _ hconnection
    exact hs.send hloop (by omega)
  | connectFails hloop =>
    rename_i o status
    have hsame := hs.of_same (sameBut_answerInflight s o.requestId fun _ => .connectFailed status)
    refine hsame.frame ?_ rfl le_rfl (fun _ => rfl) fun _ h => h
    exact List.sublist_append_right _ _
  | respond hk =>
    exact (hs.of_same (sameBut_answerInflight s _ _)).frame (List.Sublist.refl _) rfl le_rfl
      (fun _ => rfl) fun _ h => h
  | failAll hk hrecv =>
    exact (hs.of_same (sameBut_answerAll s _)).frame (List.Sublist.refl _) rfl le_rfl
      (fun _ => rfl) fun _ h => h
  | terminate hloop =>
    refine hs.frame ?_ rfl le_rfl (fun _ => rfl) fun _ h => h
    exact List.sublist_append_right _ _
  | connect hloop hconnection =>
    exact hs.frame (List.Sublist.refl _) rfl (Nat.le_succ _) (fun _ => rfl) fun _ h => h
  | sendFails hloop hconnection hclosed | endStream hk | closeRequests hk hended
  | read hk hrecv => exact hs.frame (List.Sublist.refl _) rfl le_rfl (fun _ => rfl) fun _ h => h

end Unsent

/-! ## Errors of streams -/

/-- **A receive loop fails the table in time**: no newer stream is connected, and all requests in
the table were sent. -/
def FailsInTime (s : State α) : Action α → Prop
  | .failAll k => k + 1 = s.connects ∧ ∀ x ∈ s.inflight, (s.dispatches x.2.call).sentOn ≠ none
  | _ => True

/-- The request of the call was sent on a stream no newer than this one, which has ended. -/
def SentOnEnded (s : State α) (k d : ℕ) : Prop :=
  ∃ j ≤ k, (s.dispatches d).sentOn = some j ∧ (s.streams j).ended = true

variable {d k : ℕ}

lemma sentOn_of_move (hu : Unsent s) (h : Move s a s') (hd : d < s.calls)
    (hsent : (s.dispatches d).sentOn = some k) : (s'.dispatches d).sentOn = some k := by
  have hset : ∀ d' phase, ((s.setPhase d' phase).dispatches d).sentOn = some k := by
    intro d' phase
    rw [dispatches_setPhase]
    split_ifs with heq
    · rw [← heq]
      exact hsent
    · exact hsent
  cases h with
  | call kind =>
    simp only [dispatches_setDispatch, if_neg (Nat.ne_of_lt hd)]
    exact hsent
  | insert hd hphase | enqueue hd hphase | giveUp hd hphase | drop hd hphase
  | remove hd hphase | finish hd hphase hanswer => exact hset _ _
  | send hloop hconnection =>
    rename_i o j
    have hne : d ≠ o.call := by
      rintro rfl
      have hnone := (hu.queued o.call (by simp [queued, hloop])).2.2
      rw [hsent] at hnone
      cases hnone
    simp only [dispatches_setDispatch, if_neg hne]
    exact hsent
  | connectFails | respond => exact ((sameBut_answerInflight s _ _).sentOn d).trans hsent
  | failAll hk hrecv => exact ((sameBut_answerAll s _).sentOn d).trans hsent
  | receive hloop houtbound | connect hloop hconnection | sendFails hloop hconnection hclosed
  | terminate hloop | endStream hk | closeRequests hk hended | read hk hrecv => exact hsent

lemma ended_of_move (h : Move s a s') (hk : k < s.connects)
    (hended : (s.streams k).ended = true) : (s'.streams k).ended = true := by
  have hset : ∀ (t : State α) j recv, t.streams = s.streams →
      ((t.setRecv j recv).streams k).ended = true := by
    intro t j recv heq
    rw [streams_setRecv, heq]
    split_ifs with h
    · rw [← h]
      exact hended
    · exact hended
  cases h with
  | connect hloop hconnection =>
    simp only [streams_setStream, if_neg (Nat.ne_of_lt hk)]
    exact hended
  | endStream hj =>
    rw [streams_setStream]
    split_ifs
    · rfl
    · exact hended
  | closeRequests hj hended' =>
    rw [streams_setStream]
    split_ifs
    · exact hended'
    · exact hended
  | read hj hrecv => exact hset s _ _ rfl
  | respond hj => exact hset _ _ _ (sameBut_answerInflight s _ _).streams
  | failAll hj hrecv => exact hset _ _ _ (sameBut_answerAll s _).streams
  | connectFails hloop =>
    rename_i o status
    have hsame := sameBut_answerInflight s o.requestId fun _ => .connectFailed status
    dsimp only
    rw [hsame.streams]
    exact hended
  | call kind | insert hd hphase | enqueue hd hphase | giveUp hd hphase | drop hd hphase
  | remove hd hphase | finish hd hphase hanswer | send hloop hconnection
  | receive hloop houtbound | sendFails hloop hconnection hclosed | terminate hloop => exact hended

lemma SentOnEnded.move (hu : Unsent s) (h : Move s a s') (hd : d < s.calls)
    (hended : SentOnEnded s k d) : SentOnEnded s' k d := by
  obtain ⟨j, hle, hsent, hj⟩ := hended
  exact ⟨j, hle, sentOn_of_move hu h hd hsent, ended_of_move h (hu.sent d hd j hsent) hj⟩

/-- Answering an id with something other than the error of a stream. -/
lemma answer_of_answerInflight {id : ℕ} {status : Status} {answer : Inflight → Answer α}
    (hother : ∀ entry, answer entry ≠ .streamError k status)
    (h : ((s.answerInflight id answer).dispatches d).answer = some (.streamError k status)) :
    (s.dispatches d).answer = some (.streamError k status) := by
  rcases answerInflight_cases s id answer with heq | ⟨entry, -, heq⟩
  · rwa [heq] at h
  · rw [heq] at h
    simp only [State.sendAnswer, dispatches_setDispatch] at h
    split_ifs at h
    · exact absurd (Option.some.inj h) (hother entry)
    · exact h

/-- Where the error of a stream comes from. -/
lemma answer_of_move (h : Move s a s') {status : Status} (hd : d < s'.calls)
    (hanswer : (s'.dispatches d).answer = some (.streamError k status)) :
    d < s.calls ∧ (s.dispatches d).answer = some (.streamError k status) ∨
      a = .failAll k ∧ k < s.connects ∧ (s.streams k).recv = .failing status ∧
        ∃ x ∈ s.inflight, x.2.call = d := by
  have hset : ∀ {d' phase}, ((s.setPhase d' phase).dispatches d).answer =
      some (.streamError k status) → (s.dispatches d).answer = some (.streamError k status) := by
    intro d' phase h
    rw [dispatches_setPhase] at h
    split_ifs at h with heq
    · rw [heq]
      exact h
    · exact h
  cases h with
  | call kind =>
    simp only [dispatches_setDispatch] at hanswer
    split_ifs at hanswer with heq
    have hlt : d < s.calls + 1 := hd
    exact .inl ⟨by omega, hanswer⟩
  | insert hd' hphase | enqueue hd' hphase | giveUp hd' hphase | drop hd' hphase
  | remove hd' hphase | finish hd' hphase hanswer' => exact .inl ⟨hd, hset hanswer⟩
  | send hloop hconnection =>
    simp only [dispatches_setDispatch] at hanswer
    split_ifs at hanswer with heq
    · exact .inl ⟨hd, by rw [heq]; exact hanswer⟩
    · exact .inl ⟨hd, hanswer⟩
  | connectFails hloop =>
    rename_i o st
    have hsame := sameBut_answerInflight s o.requestId fun _ => .connectFailed st
    exact .inl ⟨hsame.calls ▸ hd, answer_of_answerInflight (by simp) hanswer⟩
  | respond hk =>
    rename_i j id response rest
    have hsame := sameBut_answerInflight s id fun entry =>
      .response id (decodeResponse entry.kind response)
    exact .inl ⟨hsame.calls ▸ hd, answer_of_answerInflight (by simp) hanswer⟩
  | failAll hk hrecv =>
    rename_i j st
    rw [answerAll_eq] at hanswer hd
    have hanswer : (if d ∈ s.inflight.map (·.2.call)
        then { s.dispatches d with answer := some (.streamError j st) }
        else s.dispatches d).answer = some (.streamError k status) := hanswer
    split_ifs at hanswer with hmem
    · cases Option.some.inj hanswer
      obtain ⟨x, hx, hcall⟩ := List.mem_map.mp hmem
      exact .inr ⟨rfl, hk, hrecv, x, hx, hcall⟩
    · exact .inl ⟨hd, hanswer⟩
  | receive hloop houtbound | connect hloop hconnection | sendFails hloop hconnection hclosed
  | terminate hloop | endStream hk | closeRequests hk hended | read hk hrecv =>
    exact .inl ⟨hd, hanswer⟩

lemma completed_of_move (h : Move s a s') {x : ℕ × Completion α} (hx : x ∈ s'.completed) :
    x ∈ s.completed ∨ x.1 < s.calls ∧ ∀ answer, x.2 = .answered answer →
      (s.dispatches x.1).answer = some answer := by
  cases h with
  | remove hd hphase =>
    rcases List.mem_append.mp hx with hx | hx
    · exact .inl hx
    · rw [List.mem_singleton.mp hx]
      exact .inr ⟨hd, fun answer h => nomatch h⟩
  | finish hd hphase hanswer =>
    rcases List.mem_append.mp hx with hx | hx
    · exact .inl hx
    · rw [List.mem_singleton.mp hx]
      exact .inr ⟨hd, hanswer⟩
  | connectFails hloop =>
    rename_i o status
    have hsame := sameBut_answerInflight s o.requestId fun _ => .connectFailed status
    exact .inl (hsame.completed ▸ hx)
  | respond hk => exact .inl ((sameBut_answerInflight s _ _).completed ▸ hx)
  | failAll hk hrecv => exact .inl ((sameBut_answerAll s _).completed ▸ hx)
  | call kind | insert hd hphase | enqueue hd hphase | giveUp hd hphase | drop hd hphase
  | receive hloop houtbound | connect hloop hconnection | send hloop hconnection
  | sendFails hloop hconnection hclosed | terminate hloop | endStream hk
  | closeRequests hk hended | read hk hrecv => exact .inl hx

/-- **Calls that fail with the error of a stream** were sent on one that has ended. -/
structure OwnStreams (s : State α) : Prop where
  answered : ∀ d < s.calls, ∀ k status,
    (s.dispatches d).answer = some (.streamError k status) → SentOnEnded s k d
  completed : ∀ x ∈ s.completed, ∀ k status, x.2 = .answered (.streamError k status) →
    SentOnEnded s k x.1

lemma OwnStreams.init : OwnStreams (State.init : State α) where
  answered := fun _ h => absurd h (Nat.not_lt_zero _)
  completed := fun _ h => nomatch h

theorem OwnStreams.move (hs : OwnStreams s) (hids : OwnIds s) (hu : Unsent s)
    (hold : OldStreamsEnded s) (hallowed : FailsInTime s a) (h : Move s a s') : OwnStreams s' := by
  refine ⟨fun d hd k status hanswer => ?_, fun x hx k status hc => ?_⟩
  · rcases answer_of_move h hd hanswer with ⟨hlt, hanswer⟩ | ⟨rfl, hk, hrecv, x, hx, rfl⟩
    · exact (hs.answered d hlt k status hanswer).move hu h hlt
    · -- The request was sent, on this stream or an older one.
      obtain ⟨hnewest, hsent⟩ := hallowed
      have hlt := (hids.inflight x hx).1
      obtain ⟨j, hj⟩ := Option.ne_none_iff_exists'.mp (hsent x hx)
      have hjlt := hu.sent _ hlt j hj
      refine SentOnEnded.move hu h hlt ⟨j, by omega, hj, ?_⟩
      rcases hold.ended j hjlt with hended | hconnection
      · exact hended
      · have hlast := hold.last j hconnection
        obtain rfl : j = k := by omega
        exact hold.failing j hjlt status hrecv
  · rcases completed_of_move h hx with hx | ⟨hlt, hanswer⟩
    · exact (hs.completed x hx k status hc).move hu h (hids.completed x hx).1
    · exact (hs.answered _ hlt k status (hanswer _ hc)).move hu h hlt

/-! ## Runs -/

/-- The stream whose error a call returns. -/
def Completion.failedBy : Completion α → Option ℕ
  | .answered (.streamError k _) => some k
  | _ => none

lemma eq_of_failedBy {c : Completion α} (h : c.failedBy = some k) :
    ∃ status, c = .answered (.streamError k status) := by
  unfold Completion.failedBy at h
  split at h
  · cases h
    exact ⟨_, rfl⟩
  · cases h

/-- **Multiplexing is faithful**: a call returns at most once, a response it returns carried its id,
and if it returns the error of a stream, then its request was sent on that stream or an older one,
which has ended. -/
structure Faithful (s : State α) : Prop where
  once : (s.completed.map Prod.fst).Nodup
  ownResponse : ∀ x ∈ s.completed, ∀ id r, x.2 = .answered (.response id r) →
    (s.dispatches x.1).requestId = id
  ownStream : ∀ x ∈ s.completed, ∀ k, x.2.failedBy = some k → SentOnEnded s k x.1

/-- **Calls fail with the errors of their own streams** as long as receive loops fail the table in
time. -/
theorem faithful_of_fails_in_time (h : Reach step FailsInTime (State.init : State α) s) :
    Faithful s := by
  have hinv : OwnIds s ∧ OldStreamsEnded s ∧ Unsent s ∧ OwnStreams s := by
    refine h.invariant (I := fun s => OwnIds s ∧ OldStreamsEnded s ∧ Unsent s ∧ OwnStreams s)
      ⟨OwnIds.init, OldStreamsEnded.init, Unsent.init, OwnStreams.init⟩ ?_
    rintro s a s' ⟨hids, hold, hunsent, hown⟩ hallowed hstep
    have hmove := move_of_step hstep
    exact ⟨hids.move hmove, hold.move hmove, hunsent.move hold hmove,
      hown.move hids hunsent hold hallowed hmove⟩
  obtain ⟨hids, -, -, hown⟩ := hinv
  refine ⟨hids.once, fun x hx => (hids.completed x hx).2.2, fun x hx k hfailed => ?_⟩
  obtain ⟨status, hc⟩ := eq_of_failedBy hfailed
  exact hown.completed x hx k status hc

/-- A call whose request is sent on a new stream. -/
def sendOnNewStream (d : ℕ) : List (Action Unit) :=
  [.call .rawGet, .insert d, .enqueue d, .receive, .connect, .send]

/-- A request is sent, its stream ends, and the receive loop fails it. -/
theorem faithful_when_stream_ends :
    ∃ s : State Unit, Reach step FailsInTime State.init s ∧
      (s.completed.map fun x => (x.1, x.2.failedBy)) = [(0, some 0)] ∧ Faithful s := by
  let before := sendOnNewStream 0 ++ [.endStream 0, .endOfStream 0 none]
  have hbefore : ((run step before State.init).map fun s =>
      (s.connects, s.inflight.map fun x => (s.dispatches x.2.call).sentOn)) =
        some (1, [some 0]) := by decide
  have hafter : ((run step (before ++ [.failAll 0, .finish 0]) State.init).map fun s =>
      s.completed.map fun x => (x.1, x.2.failedBy)) = some [(0, some 0)] := by decide
  obtain ⟨s₁, hrun₁, hs₁⟩ := Option.map_eq_some_iff.mp hbefore
  obtain ⟨s₂, hrun₂, hs₂⟩ := Option.map_eq_some_iff.mp hafter
  simp only [Prod.mk.injEq] at hs₁
  have hintime : FailsInTime s₁ (.failAll 0) := by
    refine ⟨by rw [hs₁.1], fun x hx hnone => ?_⟩
    have hmem := List.mem_map_of_mem hx (f := fun x => (s₁.dispatches x.2.call).sentOn)
    rw [hs₁.2, hnone] at hmem
    simp at hmem
  have hreach₁ : Reach step FailsInTime State.init s₁ :=
    Reach.run .refl hrun₁ (by simp [before, sendOnNewStream, FailsInTime])
  rw [run_append, hrun₁, Option.bind_some, run] at hrun₂
  obtain ⟨s, hfail, hfinish⟩ := Option.bind_eq_some_iff.mp hrun₂
  have hreach₂ := (hreach₁.act _ hintime hfail).run hfinish (by simp [FailsInTime])
  exact ⟨s₂, hreach₂, hs₂, faithful_of_fails_in_time hreach₂⟩

/-- The receive loop of a stream runs late: the call whose request was sent on the next stream,
which has not ended, fails with the error of the old one. -/
theorem old_stream_fails_request_of_new :
    ∃ s : State Unit, Reach step (fun _ _ => True) State.init s ∧
      (s.completed.map fun x => (x.1, x.2.failedBy)) = [(1, some 0)] ∧
      (s.dispatches 1).sentOn = some 1 ∧ (s.streams 1).ended = false ∧ ¬ Faithful s := by
  let actions := sendOnNewStream 0 ++ [.endStream 0, .closeRequests 0, .endOfStream 0 none] ++
    [.call .rawGet, .insert 1, .enqueue 1, .receive, .sendFails, .connect, .send] ++
    [.failAll 0, .finish 1]
  have hall : ((run step actions State.init).map fun s =>
      ((s.completed.map fun x => (x.1, x.2.failedBy)), (s.dispatches 1).sentOn,
        (s.streams 1).ended)) = some ([(1, some 0)], some 1, false) := by decide
  obtain ⟨s, hrun, hs⟩ := Option.map_eq_some_iff.mp hall
  simp only [Prod.mk.injEq] at hs
  obtain ⟨hcompleted, hsent, hended⟩ := hs
  refine ⟨s, reach_of_run hrun, hcompleted, hsent, hended, fun hfaithful => ?_⟩
  obtain ⟨x, hx, heq⟩ : ∃ x ∈ s.completed, (x.1, x.2.failedBy) = (1, some 0) :=
    List.mem_map.mp (by rw [hcompleted]; exact List.mem_singleton_self _)
  obtain ⟨hcall, hfailed⟩ := Prod.mk.inj heq
  obtain ⟨j, -, hj, hendedj⟩ := hfaithful.ownStream x hx 0 hfailed
  rw [hcall, hsent] at hj
  cases hj
  rw [hended] at hendedj
  cases hendedj

/-- **However streams break**, a call returns at most once, and a value only if a response with its
id carried it; a request is handed to one stream at most; and at most one stream is open. -/
theorem multiplexing_safe (e : Execution step (State.init : State α)) (m : ℕ) :
    ((e.state m).completed.map Prod.fst).Nodup ∧
      (∀ x ∈ (e.state m).completed, ∀ value, x.2.result = .ok value →
        x.2 = .answered (.response ((e.state m).dispatches x.1).requestId (.ok value))) ∧
      (queued (e.state m)).Nodup ∧
      (∀ d ∈ queued (e.state m), ((e.state m).dispatches d).sentOn = none) ∧
      {k | k < (e.state m).connects ∧ ((e.state m).streams k).ended = false}.Subsingleton := by
  have hreach := e.reach m
  generalize e.state m = s at hreach ⊢
  obtain ⟨hids, hold, hunsent⟩ : OwnIds s ∧ OldStreamsEnded s ∧ Unsent s := by
    refine hreach.invariant (I := fun s => OwnIds s ∧ OldStreamsEnded s ∧ Unsent s)
      ⟨.init, .init, .init⟩ ?_
    rintro s a s' ⟨hids, hold, hunsent⟩ - hstep
    have hmove := move_of_step hstep
    exact ⟨hids.move hmove, hold.move hmove, hunsent.move hold hmove⟩
  refine ⟨hids.once, ?_, hunsent.nodup, fun d hd => (hunsent.queued d hd).2.2, ?_⟩
  · rintro ⟨d, c⟩ hx value hvalue
    rcases c with (⟨id, r⟩ | _ | _) | _ | _ <;> cases hvalue
    rw [(hids.completed _ hx).2.2 id _ rfl]
  · rintro k ⟨hk, hopen⟩ j ⟨hj, hopen'⟩
    have hlast := hold.last k ((hold.ended k hk).resolve_left (by simp [hopen]))
    have hlast' := hold.last j ((hold.ended j hj).resolve_left (by simp [hopen']))
    omega

end BatchCommands

end TikvClient
