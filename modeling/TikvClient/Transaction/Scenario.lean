import TikvClient.Transaction.Session

/-!
# Executing a session

A server that executes every request it can, behind one region that serves all keys, is an
`Oracle`: with it a session can be computed.  `Faults` say where the computation leaves the
straight path: what PD answers, and which attempts the network loses.

`play` computes a session call by call, and what it computes is one (`session_of_play`).
-/

namespace TikvClient

open Proto Prog

/-! ## The server -/

instance decidableAccepts (s : Tikv) :
    (r : Request) → (resp : r.Response) → Decidable (Accepts s r resp)
  | .prewrite _, (_ : PrewriteResponse) => inferInstanceAs (Decidable (_ ∧ _))
  | .flush r, _ => inferInstanceAs (Decidable (∀ m ∈ r.mutations, _))
  | .pessimisticLock r, _ => inferInstanceAs (Decidable (∀ m ∈ r.mutations, _))
  | .commit r, _ => inferInstanceAs (Decidable (∀ k ∈ r.keys, _))
  | .batchRollback r, _ => inferInstanceAs (Decidable (∀ k ∈ r.keys, _))
  | .txnHeartBeat _, _ => inferInstanceAs (Decidable (_ = true))
  | .cleanup _, (_ : CleanupResponse) => inferInstanceAs (Decidable (_ = _))
  | .pessimisticRollback _, _ => isTrue trivial
  | .resolveLock _, _ => isTrue trivial
  | .get _, _ => isTrue trivial
  | .batchGet _, _ => isTrue trivial
  | .scan _, _ => isTrue trivial

/-- The answer to a request that is executed in the state `s`; nothing is read. -/
def responseTo (s : Tikv) : (r : Request) → r.Response
  | .get _ => (⟨none, none, [], true, 0⟩ : GetResponse)
  | .batchGet _ => (⟨none, none, []⟩ : BatchGetResponse)
  | .scan _ => (⟨none, none, []⟩ : ScanResponse)
  | .prewrite _ => (⟨none, [], 0, 0⟩ : PrewriteResponse)
  | .flush _ => (⟨none, []⟩ : FlushResponse)
  | .commit r => (⟨none, none, r.commitVersion⟩ : CommitResponse)
  | .batchRollback _ => (⟨none, none⟩ : BatchRollbackResponse)
  | .pessimisticRollback _ => (⟨none, []⟩ : PessimisticRollbackResponse)
  | .pessimisticLock _ => (⟨none, [], [], [], []⟩ : PessimisticLockResponse)
  | .txnHeartBeat r => (⟨none, none, r.adviseLockTtl⟩ : TxnHeartBeatResponse)
  | .cleanup r => (⟨none, none, (s r.key r.startVersion).commitVersion⟩ : CleanupResponse)
  | .resolveLock _ => (⟨none, none⟩ : ResolveLockResponse)

lemma isError_responseTo (s : Tikv) (r : Request) : r.isError (responseTo s r) = false := by
  cases r <;> rfl

lemma exec_responseTo {s : Tikv} {r : Request} (region : Region)
    (h : Accepts s r (responseTo s r)) :
    Exec s region r (responseTo s r) (s.effect region r (responseTo s r)) := by
  unfold Exec
  rw [if_neg (by simp [isError_responseTo])]
  exact ⟨h, rfl⟩

/-! ## The oracle -/

/-- Where a computation leaves the straight path. -/
structure Faults where
  /-- What PD answers to a request for a timestamp. -/
  timestamp : Except Error ℕ
  /-- The error of an attempt whose request is lost, or late. -/
  lost : Request → Option Error

/-- **The executing environment.** -/
def Runtime.oracle (faults : Faults) : Oracle sig Runtime where
  answer rt
    | .regionForKey _ => some (.ok wholeRegion, rt)
    | .mapRegionToStore _ => some (.ok (), rt)
    | .updateLeader _ _ => some (.ok (), rt)
    | .getTimestamp => some (faults.timestamp, rt)
    | .rpc region r =>
      match faults.lost r with
      | some e =>
        some (.error e, rt.answered
          { rt.state.world with inflight := (region, r) :: rt.state.world.inflight } r (.error e))
      | none =>
        let resp := responseTo rt.tikv r
        if Accepts rt.tikv r resp then
          some (.ok resp, rt.answered
            { rt.state.world with tikv := rt.tikv.effect region r resp } r (.ok resp))
        else none
    | .elapsed => some ((0 : ℕ), rt)
    | .commitWaitTimedOut => some (true, rt)
    | .latch _ _ => some (false, rt)
    | .loadStatus => some (.active, rt)
    | .spawn task =>
      some (rt.running.length,
        { rt with running := rt.running ++ [(task, Transaction.taskProgram 20 task)] })
    | .await _ => none
    | .cancel => some ((), { rt with state := { rt.state with cancelled := true } })
    | .isCancelled => some (rt.state.cancelled, rt)
    | .isNotified => some (false, rt)
    -- a transaction makes no other calls
    | .regionForId _ => none
    | .rawRpc _ _ => none
    | .gcRpc _ _ => none
    | .getResolved _ => none
    | .saveResolved _ _ => none
    | .isRegionCleaned _ _ => none
    | .saveCleanedRegion _ _ => none
    | .updateSafepoint _ => none
  pick _ := Oracle.first
  drop rt cs := rt.dropped cs

lemma Runtime.oracle_refines (faults : Faults) (F : Request → Prop) :
    (Runtime.oracle faults).Refines (runtime F).concurrent where
  answer := by
    intro rt c ans rt' h
    show Runtime.reply rt c ans rt'
    cases c with
    | rpc region r =>
      simp only [Runtime.oracle] at h
      split at h
      · cases h
        exact ⟨_, .inr rfl, rfl⟩
      · split_ifs at h with haccepts
        cases h
        exact ⟨_, ⟨_, exec_responseTo region haccepts, rfl⟩, rfl⟩
    | spawn task =>
      cases h
      exact ⟨rfl, 20, rfl⟩
    | await i => cases h
    | isCancelled =>
      cases h
      exact ⟨rfl, rfl⟩
    | isNotified =>
      cases h
      exact ⟨fun h => (by cases h), rfl⟩
    | _ => cases h <;> rfl
  drop _ _ := rfl

/-! ## Playing a session -/

/-- A server without any data. -/
def emptyWorld : World := ⟨fun _ _ => .absent, []⟩

/-- Compute the calls one after another, and how each ends. -/
def play (fuel : ℕ) :
    List (Faults × Transaction.Op) → Transaction → Runtime →
      Option (List (Except Error Unit) × Transaction × Runtime)
  | [], t, rt => some ([], t, rt)
  | (faults, op) :: rest, t, rt =>
    match ((op.run fuel).exec t).simulate (Runtime.oracle faults) rt with
    | none => none
    | some (_, (r, t'), rt') =>
      match play fuel rest t' rt' with
      | none => none
      | some (rs, t'', rt'') => some (r :: rs, t'', rt'')

variable {faults : Faults} {op : Transaction.Op} {fuel : ℕ}
  {r : Except Error Unit} {t t' : Transaction} {rt rt' : Runtime}

lemma calls_of_simulate (F : Request → Prop) {tr : Trace}
    (h : ((op.run fuel).exec t).simulate (Runtime.oracle faults) rt = some (tr, (r, t'), rt')) :
    Calls F op t rt r t' rt' :=
  ⟨fuel, tr, returns_of_simulate h, run_of_simulate (Runtime.oracle_refines faults F) h⟩

/-- **What is computed is a session.** -/
theorem session_of_play (F : Request → Prop) (steps : List (Faults × Transaction.Op)) :
    ∀ {t₀ t t' : Transaction} {rt₀ rt rt' : Runtime} {rs : List (Except Error Unit)},
      Session F (fun _ _ _ => True) t₀ rt₀ t rt → play fuel steps t rt = some (rs, t', rt') →
        Session F (fun _ _ _ => True) t₀ rt₀ t' rt' := by
  induction steps with
  | nil =>
    intro _ _ _ _ _ _ _ hsession h
    cases h
    exact hsession
  | cons step rest ih =>
    intro _ _ _ _ _ _ _ hsession h
    obtain ⟨faults, op⟩ := step
    rw [play] at h
    split at h
    · cases h
    next hsim =>
      split at h
      · cases h
      next hplay =>
        cases h
        exact ih (.call hsession trivial (calls_of_simulate F hsim)) hplay

/-- The `i`-th task makes steps in the background, until it has returned. -/
def background (faults : Faults) (i : ℕ) : ℕ → Runtime → Option Runtime
  | 0, rt => some rt
  | steps + 1, rt =>
    match rt.running[i]? with
    | some (_, .call c k) =>
      match (Runtime.oracle faults).answer rt c with
      | some (ans, rt') => background faults i steps (rt'.advance i (k ans))
      | none => none
    | some (_, .pick (n + 1) k) => background faults i steps (rt.advance i (k ⟨0, n.succ_pos⟩))
    | some (_, .drop cs k) => background faults i steps ((rt.dropped cs).advance i k)
    | _ => some rt

/-- **What is computed happens while the user does nothing.** -/
theorem run_of_background (F : Request → Prop) {i : ℕ} :
    ∀ {steps : ℕ} {rt rt' : Runtime}, background faults i steps rt = some rt' →
      (runtime F).concurrent.Run rt [] rt' := by
  intro steps
  induction steps with
  | zero =>
    intro rt rt' h
    cases h
    exact .refl rt
  | succ steps ih =>
    intro rt rt' h
    rw [background] at h
    split at h
    next c k hi =>
      split at h
      next ans rt₁ hans =>
        exact .rely (.inr (.call hi ((Runtime.oracle_refines faults F).answer hans))) (ih h)
      · cases h
    next hi => exact .rely (.inr (.pick hi 0)) (ih h)
    next hi => exact .rely (.inr (.drop hi rfl)) (ih h)
    · cases h
      exact .refl rt

lemma Calls.background {F : Request → Prop} {rt'' : Runtime} (h : Calls F op t rt r t' rt')
    (hrest : (runtime F).concurrent.Run rt' [] rt'') : Calls F op t rt r t' rt'' := by
  obtain ⟨fuel, tr, hret, hrun⟩ := h
  exact ⟨fuel, tr, hret, by simpa using hrun.append hrest⟩

/-- Compute a session and one more call, and check how it ends. -/
def playThen (fuel : ℕ) (steps : List (Faults × Transaction.Op)) (faults : Faults)
    (op : Transaction.Op) (t : Transaction) (rt : Runtime)
    (check : Transaction → Runtime → Except Error Unit → Transaction → Runtime → Bool) : Bool :=
  (play fuel steps t rt).any fun p =>
    (((op.run fuel).exec p.2.1).simulate (Runtime.oracle faults) p.2.2).any fun q =>
      check p.2.1 p.2.2 q.2.1.1 q.2.1.2 q.2.2

theorem exists_call_of_playThen (F : Request → Prop) {steps : List (Faults × Transaction.Op)}
    {t₀ : Transaction} {rt₀ : Runtime}
    {check : Transaction → Runtime → Except Error Unit → Transaction → Runtime → Bool}
    (h : playThen fuel steps faults op t₀ rt₀ check = true) :
    ∃ t rt r t' rt', Session F (fun _ _ _ => True) t₀ rt₀ t rt ∧ Calls F op t rt r t' rt' ∧
      check t rt r t' rt' = true := by
  unfold playThen at h
  cases hplay : play fuel steps t₀ rt₀ with
  | none =>
    rw [hplay] at h
    cases h
  | some p =>
    obtain ⟨rs, t, rt⟩ := p
    rw [hplay, Option.any_some] at h
    cases hsim : ((op.run fuel).exec t).simulate (Runtime.oracle faults) rt with
    | none =>
      rw [hsim] at h
      cases h
    | some q =>
      obtain ⟨tr, ⟨r, t'⟩, rt'⟩ := q
      rw [hsim] at h
      exact ⟨t, rt, r, t', rt', session_of_play F steps .start hplay,
        calls_of_simulate F hsim, h⟩

end TikvClient
