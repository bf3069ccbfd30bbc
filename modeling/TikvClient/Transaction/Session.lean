import TikvClient.Core.Pool
import TikvClient.Transaction.Operations

/-!
# A transaction in use

A `Session` is a user who calls the operations of a transaction one after another, each to its
end, while the tasks it started run in the background, other clients send requests, and the
network delivers what is in flight.

**The runtime** is what the transaction's programs run in: the server and the network, the
cancellation flag, the requests sent so far, and the pool of its tasks.  A task that is awaited
gives its result to the waiter; joining it may fail as well.

**Reasoning.**  A property of the server that the requests allowed keep is an invariant of a
session (`keeps_server`); which requests are sent is what `Transaction.Respects` and the `sat`
lemmas of the tasks are about.
-/

namespace TikvClient

open Proto Prog

/-! ## The runtime -/

/-- **What is outside the client.** -/
structure Outside where
  world : World
  cancelled : Bool
  /-- The requests of the client that were answered or given up, and whether they succeeded. -/
  sent : List (Request × Bool)

/-- **The outside and the background tasks.** -/
abbrev Runtime := Pool sig Outside Task (Except Error Unit)

/-- The attempt was answered without an error. -/
def succeeded (r : Request) : Except Error r.Response → Bool
  | .ok resp => !r.isError resp
  | .error _ => false

namespace Runtime

abbrev tikv (rt : Runtime) : Tikv := rt.state.world.tikv

/-- A runtime without tasks. -/
def start (w : World) : Runtime := ⟨⟨w, false, []⟩, []⟩

/-- The attempt `r` was answered. -/
def answered (rt : Runtime) (w : World) (r : Request) (ans : Except Error r.Response) : Runtime :=
  { rt with
    state := { rt.state with world := w, sent := rt.state.sent ++ [(r, succeeded r ans)] } }

/-- The calls `cs` were given up: their requests are in flight. -/
def dropped (rt : Runtime) (cs : List Call) : Runtime :=
  { rt with
    state := { rt.state with
      world := { rt.state.world with inflight := rpcsOf cs ++ rt.state.world.inflight }
      sent := rt.state.sent ++ (rpcsOf cs).map fun x => (x.2, false) } }

/-- How a call may be answered. -/
def reply (rt : Runtime) : (c : Call) → c.Ans → Runtime → Prop
  | .rpc region r, ans, rt' =>
    ∃ w, networkReply rt.state.world (.rpc region r) ans w ∧ rt' = rt.answered w r ans
  | .spawn task, i, rt' =>
    i = rt.running.length ∧
      ∃ fuel, rt' = { rt with running := rt.running ++ [(task, Transaction.taskProgram fuel task)] }
  | .await i, ans, rt' =>
    rt' = rt ∧ ((∃ task, rt.running[i]? = some (task, .ret ans)) ∨ ∃ e, ans = .error e)
  | .cancel, _, rt' => rt' = { rt with state := { rt.state with cancelled := true } }
  | .isCancelled, b, rt' => b = rt.state.cancelled ∧ rt' = rt
  | .isNotified, b, rt' => (b = true → rt.state.cancelled = true) ∧ rt' = rt
  | _, _, rt' => rt' = rt

variable {rt rt' : Runtime} {c : Call} {ans : c.Ans}

lemma reply_world (h : rt.reply c ans rt') :
    networkReply rt.state.world c ans rt'.state.world := by
  cases c with
  | rpc region r =>
    obtain ⟨w, hw, rfl⟩ := h
    exact hw
  | spawn task =>
    obtain ⟨-, fuel, rfl⟩ := h
    rfl
  | cancel =>
    obtain rfl := h
    rfl
  | await i => exact congrArg (·.state.world) h.1
  | isCancelled | isNotified => exact congrArg (·.state.world) h.2
  | _ => exact congrArg (·.state.world) h

lemma reply_running (h : rt.reply c ans rt') :
    rt'.running = rt.running ∨ ∃ task fuel, c = .spawn task ∧
      rt'.running = rt.running ++ [(task, Transaction.taskProgram fuel task)] := by
  cases c with
  | rpc region r =>
    obtain ⟨w, -, rfl⟩ := h
    exact .inl rfl
  | spawn task =>
    obtain ⟨-, fuel, rfl⟩ := h
    exact .inr ⟨task, fuel, rfl, rfl⟩
  | cancel =>
    obtain rfl := h
    exact .inl rfl
  | await i => exact .inl (congrArg Pool.running h.1)
  | isCancelled | isNotified => exact .inl (congrArg Pool.running h.2)
  | _ => exact .inl (congrArg Pool.running h)

end Runtime

/-- The runtime of a client, among clients that send requests in `F`. -/
def runtime (F : Request → Prop) : Env sig Runtime where
  reply := Runtime.reply
  dropped rt cs rt' := rt' = rt.dropped cs
  rely rt rt' :=
    ∃ w, Executes (fun region r => (region, r) ∈ rt.state.world.inflight ∨ F r) rt.state.world w ∧
      rt' = { rt with state := { rt.state with world := w } }

/-! ## Sessions -/

/-- What others send about the transaction `t`: they may only resolve its locks. -/
def Foreign (t : ℕ) (r : Request) : Prop :=
  r.txn = some t → (∃ c, r = .cleanup c) ∨ ∃ c, r = .resolveLock c

/-- Nothing is known of the transaction `t` yet. -/
structure World.Fresh (w : World) (t : ℕ) : Prop where
  absent : ∀ key, w.tikv key t = .absent
  inflight : ∀ x ∈ w.inflight, Foreign t x.2

/-- One call of the user, from the state before it to the state after it. -/
def Calls (F : Request → Prop) (op : Transaction.Op) (t : Transaction) (rt : Runtime)
    (r : Except Error Unit) (t' : Transaction) (rt' : Runtime) : Prop :=
  ∃ fuel tr, Returns ((op.run fuel).exec t) tr (r, t') ∧ (runtime F).concurrent.Run rt tr rt'

/-- **The states a session can reach** from `t₀` and `rt₀`, when each call is made in a state that
satisfies `Guard`. -/
inductive Session (F : Request → Prop) (Guard : Transaction.Op → Transaction → Runtime → Prop)
    (t₀ : Transaction) (rt₀ : Runtime) : Transaction → Runtime → Prop where
  | start : Session F Guard t₀ rt₀ t₀ rt₀
  | call {t t' : Transaction} {rt rt' : Runtime} {op : Transaction.Op} {r : Except Error Unit}
      (h : Session F Guard t₀ rt₀ t rt) (hguard : Guard op t rt)
      (hcall : Calls F op t rt r t' rt') : Session F Guard t₀ rt₀ t' rt'

/-! ## Invariants of the server -/

/-- The tasks that a program with calls in `D` may spawn only make calls in `C`. -/
def SpawnSat (D C : Call → Prop) : Prop :=
  ∀ task, D (.spawn task) → ∀ fuel,
    (Transaction.taskProgram fuel task).Sat C (fun _ _ => True) fun _ => True

section Invariant

variable {F G : Request → Prop} {I : Tikv → Prop} {C D : Call → Prop} {rt rt' : Runtime}

lemma Runtime.allSat_reply (hspawn : SpawnSat D C) {c : Call} {ans : c.Ans} (hc : D c)
    (h : rt.reply c ans rt') (hrt : rt.AllSat C) : rt'.AllSat C := by
  intro x hx
  rcases reply_running h with heq | ⟨task, fuel, rfl, heq⟩
  · exact hrt x (heq ▸ hx)
  · rw [heq] at hx
    rcases List.mem_append.mp hx with hx | hx
    · exact hrt x hx
    · rw [List.mem_singleton.mp hx]
      exact hspawn task hc fuel

lemma keeps_server (hCD : ∀ c, C c → D c) (hD : ∀ c, D c → c.Sends G) (hspawn : SpawnSat D C)
    (hF : ∀ r, F r → G r) (hkeep : Keeps I G) :
    Pool.Keeps (runtime F) C D fun rt => rt.state.world.Inv I G where
  subset := hCD
  reply hc h hJ hs := ⟨hJ.reply hkeep (hD _ hc) (Runtime.reply_world h),
    Runtime.allSat_reply hspawn hc h hs⟩
  dropped := by
    rintro rt cs _ hcs rfl hJ hs
    exact ⟨hJ.dropped fun c hc => hD c (hcs c hc), hs⟩
  rely := by
    rintro rt _ ⟨w, hexec, rfl⟩ hJ hs
    exact ⟨hJ.executes hkeep hF hexec, hs⟩
  advance _ _ _ hJ := hJ
  pick _ hJ := hJ
  drop _ _ _ hJ := hJ

/-- Tombstones stay. -/
lemma Runtime.rolledback_of_run {tr : Trace} {key : Key} {t : ℕ}
    (h : (runtime F).concurrent.Run rt tr rt') (hrt : rt.tikv key t = .rolledback) :
    rt'.tikv key t = .rolledback :=
  ((keeps_server (C := fun _ => True) (D := fun _ => True) (G := fun _ => True)
    (I := fun s => s key t = .rolledback) (fun _ _ => trivial)
    (fun c _ => by cases c <;> trivial) (fun _ _ _ => sat_true _) (fun _ _ => trivial)
    fun _ hexec hs => hexec.rolledback hs).preserves.run h
    (fun e _ => by cases e <;> simp [Event.Made])
    ⟨⟨hrt, fun _ _ => trivial⟩, fun _ _ => sat_true _⟩).1.tikv

end Invariant

/-! ## What the tasks send -/

section Tasks

variable {C : Call → Prop} {A : Answers}

lemma sat_heartbeatTask (hC : Routing C) (hstatus : C .loadStatus) (helapsed : C .elapsed)
    {startTs : ℕ} {pk : Key}
    (hrpc : ∀ region ttl, C (.rpc region (.txnHeartBeat ⟨pk, startTs, ttl⟩)))
    (regionBackoff : Backoff) (fuel : ℕ) :
    (Transaction.heartbeatTask startTs pk regionBackoff fuel).Sat C A fun _ => True := by
  induction fuel with
  | zero => exact sat_stuck
  | succ fuel ih =>
    refine ⟨hstatus, fun status _ => ?_⟩
    have hsends := sends_txnHeartBeat (A := A) hC
      (I := fun r => ∃ ttl, r = ⟨pk, startTs, ttl⟩) fun region r hr => by
        obtain ⟨ttl, rfl⟩ := hr
        exact hrpc region ttl
    cases status
    case rolledback | committed | dropped => exact trivial
    all_goals
      refine ⟨helapsed, fun elapsedMs _ => ?_⟩
      refine ((hsends.covering hC).sat_retryMultiRegion false fuel regionBackoff
        (hsends.shards _ ⟨_, rfl⟩)).bind fun results _ => ?_
      cases results with
      | error e =>
        dsimp only
        split_ifs <;> exact trivial
      | ok results =>
        dsimp only
        split
        · exact ih
        · split_ifs <;> exact trivial

lemma sat_commitSecondary (hC : Routing C) (hts : C .getTimestamp)
    (hresolving : ∀ version, Resolving C version) (c : Committer) {commitVersion : ℕ}
    (hrpc : ∀ region r, r.startVersion = c.startVersion → r.commitVersion = commitVersion →
      r.primaryKey = none → C (.rpc region (.commit r))) (fuel : ℕ) :
    (c.commitSecondary fuel commitVersion).Sat C A fun _ => True := by
  have hsends := sends_commit (A := A) hC
    (I := fun r => r.startVersion = c.startVersion ∧ r.commitVersion = commitVersion ∧
      r.primaryKey = none) (fun _ _ hr _ _ => hr)
    fun region r hr => hrpc region r hr.1 hr.2.1 hr.2.2
  unfold Committer.commitSecondary
  split
  · exact trivial
  next request hrequest =>
    have hr : request.startVersion = c.startVersion ∧ request.commitVersion = commitVersion ∧
        request.primaryKey = none := by
      unfold Committer.commitSecondaryRequest at hrequest
      split_ifs at hrequest <;> cases hrequest <;> exact ⟨rfl, rfl, rfl⟩
    exact Sat.andThen (hsends.sat_executePlan hC hts (fun _ _ _ _ _ _ => hresolving _) fuel _ hr)
      (fun _ _ => trivial) fun _ _ => trivial

lemma sat_storesOfRange (hC : Routing C) (endKey : Key) (fuel : ℕ) :
    ∀ key, (PipelinedTxnState.storesOfRange endKey fuel key).Sat C A fun _ => True := by
  induction fuel with
  | zero => exact fun _ => sat_stuck
  | succ fuel ih =>
    intro key
    unfold PipelinedTxnState.storesOfRange
    split_ifs
    · exact trivial
    · refine Sat.andThen (Async.sat_regionForKey (hC.regionForKey _)) (fun region _ => ?_)
        fun _ _ => trivial
      refine Sat.andThen (Async.sat_mapRegionToStore (hC.mapRegionToStore _)) (fun _ _ => ?_)
        fun _ _ => trivial
      split_ifs
      · exact trivial
      · exact Sat.andThen (ih _) (fun _ _ => trivial) fun _ _ => trivial

lemma sat_resolveFlushedLocks (hC : Routing C) {startTs commitTs : ℕ}
    (hrpc : ∀ region, C (.rpc region (.resolveLock ⟨startTs, commitTs⟩))) (range : Key × Key)
    (fuel : ℕ) :
    (PipelinedTxnState.resolveFlushedLocks fuel startTs commitTs range).Sat C A fun _ => True := by
  refine Sat.andThen (sat_storesOfRange hC _ fuel _) (fun regions _ => ?_) fun _ _ => trivial
  have hregion : ∀ region, (PipelinedTxnState.resolveFlushedRegion startTs commitTs region).Sat C A
      fun _ => True := by
    intro region
    refine Sat.andThen (Async.sat_rpc (hrpc region)) (fun resp _ => ?_) fun _ _ => trivial
    split <;> exact trivial
  have hjoin := @Sat.join sig _ _ Region C A (fun e => some [.error e]) (fun _ _ => True) fuel
    (regions.map fun region =>
      (region, PipelinedTxnState.resolveFlushedRegion startTs commitTs region)) [] ?_
  · rw [List.map_map, List.map_map] at hjoin
    refine Sat.andThen hjoin (fun results _ => ?_) fun _ _ => trivial
    split <;> exact trivial
  · intro j hj
    obtain ⟨region, -, rfl⟩ := List.mem_map.mp hj
    exact hregion region

end Tasks

end TikvClient
