import TikvClient.Core.Env
import TikvClient.Request.Client

/-!
# The server

What is assumed of TiKV and the network.  None of this is translated from the client: it is
the documented behaviour of the requests, as far as the client's guarantees depend on it.

**State.**  For each key and each transaction (its start version) TiKV keeps one record: a
lock, a commit, a rollback tombstone, or nothing.  Every request acts record by record
(`recordStep`), and only on the records of the transaction it names, so all that is proved of
the server is proved of one record.  A commit and a tombstone never change again.

**Errors.**  A response with an error leaves the state as it is, and TiKV may answer any request
with one: conflicts between transactions are errors of this kind.

**The network** may fail an attempt and still deliver it: the request is then *in flight*, and
may be executed at any later moment.
-/

namespace TikvClient

open Proto

/-! ## Records -/

/-- What a lock is for: a pessimistic lock, or the prewritten mutation. -/
inductive LockKind where
  | pessimistic
  | prewrite (op : Op) (value : Value) (useAsyncCommit : Bool)
deriving DecidableEq

structure ServerLock where
  primary : Key
  ttl : ℕ
  kind : LockKind
  secondaries : List Key
deriving DecidableEq

/-- **The record of a transaction at a key.** -/
inductive TxnRecord where
  | absent
  | locked (lock : ServerLock)
  | committed (commitTs : ℕ) (op : Op) (value : Value)
  | rolledback
deriving DecidableEq

namespace TxnRecord

def isPrewritten : TxnRecord → Bool
  | .locked ⟨_, _, .prewrite _ _ _, _⟩ => true
  | _ => false

def isLocked : TxnRecord → Bool
  | .locked _ => true
  | _ => false

def isCommitted : TxnRecord → Bool
  | .committed _ _ _ => true
  | _ => false

/-- A prewritten lock or a commit: the write is visible, or may become so. -/
def isWritten (r : TxnRecord) : Bool := r.isPrewritten || r.isCommitted

/-- The version a record was committed at, 0 if it was not. -/
def commitVersion : TxnRecord → ℕ
  | .committed commitTs _ _ => commitTs
  | _ => 0

/-- Write a prewritten lock, unless the transaction is already decided at the key or holds such
a lock. -/
def prewrite (lock : ServerLock) : TxnRecord → TxnRecord
  | .absent => .locked lock
  | .locked ⟨primary, ttl, .prewrite op value useAsync, secondaries⟩ =>
    .locked ⟨primary, ttl, .prewrite op value useAsync, secondaries⟩
  | .locked ⟨_, _, .pessimistic, _⟩ => .locked lock
  | .committed commitTs op value => .committed commitTs op value
  | .rolledback => .rolledback

/-- Replace the lock of an earlier flush. -/
def flush (lock : ServerLock) : TxnRecord → TxnRecord
  | .absent => .locked lock
  | .locked _ => .locked lock
  | .committed commitTs op value => .committed commitTs op value
  | .rolledback => .rolledback

/-- Commit a mutation at once. -/
def commitAtOnce (commitTs : ℕ) (m : Proto.Mutation) : TxnRecord → TxnRecord
  | .absent => .committed commitTs m.op m.value
  | .locked ⟨_, _, .pessimistic, _⟩ => .committed commitTs m.op m.value
  | r => r

def lockPessimistic (lock : ServerLock) : TxnRecord → TxnRecord
  | .absent => .locked lock
  | r => r

/-- Turn a prewritten lock into a commit. -/
def commit (commitTs : ℕ) : TxnRecord → TxnRecord
  | .locked ⟨_, _, .prewrite op value _, _⟩ => .committed commitTs op value
  | r => r

/-- Roll back, leaving a tombstone. -/
def rollback : TxnRecord → TxnRecord
  | .committed commitTs op value => .committed commitTs op value
  | _ => .rolledback

/-- Roll back a lock, if there is one. -/
def rollbackLock : TxnRecord → TxnRecord
  | .locked _ => .rolledback
  | r => r

/-- Remove a pessimistic lock. -/
def unlockPessimistic : TxnRecord → TxnRecord
  | .locked ⟨_, _, .pessimistic, _⟩ => .absent
  | r => r

/-- Raise the TTL of a lock. -/
def extendTtl (ttl : ℕ) : TxnRecord → TxnRecord
  | .locked lock => .locked { lock with ttl := max lock.ttl ttl }
  | r => r

end TxnRecord

/-- **The state of TiKV.** -/
abbrev Tikv := Key → ℕ → TxnRecord

/-! ## Requests -/

/-- The transaction a request acts on; reads act on none. -/
def Proto.Request.txn : Request → Option ℕ
  | .get _ => none
  | .batchGet _ => none
  | .scan _ => none
  | .prewrite r => some r.startVersion
  | .flush r => some r.startTs
  | .commit r => some r.startVersion
  | .batchRollback r => some r.startVersion
  | .pessimisticRollback r => some r.startVersion
  | .pessimisticLock r => some r.startVersion
  | .txnHeartBeat r => some r.startVersion
  | .cleanup r => some r.startVersion
  | .resolveLock r => some r.startVersion

/-- Whether the response reports an error. -/
def Proto.Request.isError : (r : Request) → r.Response → Bool
  | .get _, (resp : GetResponse) => resp.error.isSome || resp.regionError.isSome
  | .batchGet _, (resp : BatchGetResponse) => resp.error.isSome || resp.regionError.isSome
  | .scan _, (resp : ScanResponse) => resp.error.isSome || resp.regionError.isSome
  | .prewrite _, (resp : PrewriteResponse) => !resp.errors.isEmpty || resp.regionError.isSome
  | .flush _, (resp : FlushResponse) => !resp.errors.isEmpty || resp.regionError.isSome
  | .commit _, (resp : CommitResponse) => resp.error.isSome || resp.regionError.isSome
  | .batchRollback _, (resp : BatchRollbackResponse) =>
    resp.error.isSome || resp.regionError.isSome
  | .pessimisticRollback _, (resp : PessimisticRollbackResponse) =>
    !resp.errors.isEmpty || resp.regionError.isSome
  | .pessimisticLock _, (resp : PessimisticLockResponse) =>
    !resp.errors.isEmpty || resp.regionError.isSome
  | .txnHeartBeat _, (resp : TxnHeartBeatResponse) => resp.error.isSome || resp.regionError.isSome
  | .cleanup _, (resp : CleanupResponse) => resp.error.isSome || resp.regionError.isSome
  | .resolveLock _, (resp : ResolveLockResponse) => resp.error.isSome || resp.regionError.isSome

/-- The keys at which a request writes its mutations. -/
def Proto.Request.WritesAt : Request → Key → Prop
  | .prewrite r, key => ∃ m ∈ r.mutations, m.key = key ∧ m.op.writesLock = true
  | .flush r, key => ∃ m ∈ r.mutations, m.key = key ∧ m.op.writesLock = true
  | _, _ => False

/-- The mutation of a request at a key, if it writes a lock there. -/
def lockingMutation (mutations : List Proto.Mutation) (key : Key) : Option Proto.Mutation :=
  mutations.find? fun m => m.key = key && m.op.writesLock

/-- The lock a prewrite request writes; async commit is declined by `min_commit_ts = 0`. -/
def prewriteLock (r : PrewriteRequest) (resp : PrewriteResponse) (m : Proto.Mutation) :
    ServerLock :=
  ⟨r.primaryLock, r.lockTtl, .prewrite m.op m.value (r.useAsyncCommit && resp.minCommitTs ≠ 0),
    r.secondaries⟩

/-- **What a successful request does to the record of its transaction at a key.** -/
def recordStep (region : Region) : (r : Request) → r.Response → Key → TxnRecord → TxnRecord
  | .prewrite r, (resp : PrewriteResponse), key, record =>
    match lockingMutation r.mutations key with
    | none => record
    | some m =>
      if resp.onePcCommitTs ≠ 0 then record.commitAtOnce resp.onePcCommitTs m
      else record.prewrite (prewriteLock r resp m)
  | .flush r, _, key, record =>
    match lockingMutation r.mutations key with
    | none => record
    | some m => record.flush ⟨r.primaryKey, r.lockTtl, .prewrite m.op m.value false, []⟩
  | .commit r, _, key, record =>
    if key ∈ r.keys then record.commit r.commitVersion else record
  | .batchRollback r, _, key, record => if key ∈ r.keys then record.rollback else record
  | .pessimisticRollback r, _, key, record =>
    if key ∈ r.keys then record.unlockPessimistic else record
  | .pessimisticLock r, _, key, record =>
    if key ∈ r.mutations.map (·.key) then
      record.lockPessimistic ⟨r.primaryLock, r.lockTtl, .pessimistic, []⟩
    else record
  | .txnHeartBeat r, _, key, record =>
    if key = r.primaryLock then record.extendTtl r.adviseLockTtl else record
  -- `current_ts = 0`: neither the TTL nor the kind of the lock matters
  | .cleanup r, _, key, record => if key = r.key then record.rollback else record
  | .resolveLock r, _, key, record =>
    if !region.contains key then record
    else if r.commitVersion = 0 then record.rollbackLock
    else record.commit r.commitVersion
  | .get _, _, _, record => record
  | .batchGet _, _, _, record => record
  | .scan _, _, _, record => record

/-- **When TiKV can execute a request without an error**, and what its response then says. -/
def Accepts (s : Tikv) : (r : Request) → r.Response → Prop
  | .prewrite r, (resp : PrewriteResponse) =>
    (∀ m ∈ r.mutations, m.op.writesLock = true → s m.key r.startVersion ≠ .rolledback) ∧
      (resp.onePcCommitTs ≠ 0 → r.tryOnePc = true)
  | .flush r, _ =>
    ∀ m ∈ r.mutations, m.op.writesLock = true → s m.key r.startTs ≠ .rolledback
  | .pessimisticLock r, _ => ∀ m ∈ r.mutations, s m.key r.startVersion ≠ .rolledback
  | .commit r, _ => ∀ k ∈ r.keys, (s k r.startVersion).isPrewritten = true ∨
      (s k r.startVersion).isCommitted = true
  | .batchRollback r, _ => ∀ k ∈ r.keys, (s k r.startVersion).isCommitted = false
  | .txnHeartBeat r, _ => (s r.primaryLock r.startVersion).isLocked = true
  | .cleanup r, (resp : CleanupResponse) =>
    resp.commitVersion = (s r.key r.startVersion).commitVersion
  | .pessimisticRollback _, _ => True
  | .resolveLock _, _ => True
  | .get _, _ => True
  | .batchGet _, _ => True
  | .scan _, _ => True

/-- The state after a successful request: only the records of its transaction change. -/
def Tikv.effect (s : Tikv) (region : Region) (r : Request) (resp : r.Response) : Tikv :=
  fun key t => if r.txn = some t then recordStep region r resp key (s key t) else s key t

/-- **One execution of a request.** -/
def Exec (s : Tikv) (region : Region) (r : Request) (resp : r.Response) (s' : Tikv) : Prop :=
  if r.isError resp then s' = s else Accepts s r resp ∧ s' = s.effect region r resp

section Exec

variable {s s' : Tikv} {region : Region} {r : Request} {resp : r.Response} {key : Key} {t : ℕ}

/-- A tombstone stays. -/
lemma recordStep_rolledback : recordStep region r resp key .rolledback = .rolledback := by
  cases r <;> simp only [recordStep] <;> (repeat' split) <;> rfl

lemma mem_of_lockingMutation {mutations : List Proto.Mutation} {m : Proto.Mutation}
    (h : lockingMutation mutations key = some m) :
    ∃ m ∈ mutations, m.key = key ∧ m.op.writesLock = true := by
  have hm := List.find?_some h
  rw [Bool.and_eq_true, decide_eq_true_eq] at hm
  exact ⟨m, List.mem_of_find?_eq_some h, hm⟩

/-- Only a prewrite or a flush with a mutation of the key makes a record written. -/
lemma recordStep_isWritten {record : TxnRecord}
    (h : (recordStep region r resp key record).isWritten = true) :
    record.isWritten = true ∨ r.WritesAt key := by
  by_contra hnot
  rw [not_or] at hnot
  obtain ⟨hrecord, hwrites⟩ := hnot
  cases r with
  | prewrite | flush =>
    simp only [recordStep] at h
    split at h
    · exact hrecord h
    next m hm => exact hwrites (mem_of_lockingMutation hm)
  | _ =>
    simp only [recordStep] at h
    repeat' split at h
    all_goals first
      | exact hrecord h
      | (rcases record with _ | ⟨_, _, _ | _, _⟩ | _ | _ <;> cases h <;> exact hrecord rfl)

/-- What happens to one record: nothing, or one step of a request of its transaction. -/
lemma Exec.record (h : Exec s region r resp s') (key : Key) (t : ℕ) :
    s' key t = s key t ∨
      (r.txn = some t ∧ r.isError resp = false ∧ Accepts s r resp ∧
        s' key t = recordStep region r resp key (s key t)) := by
  unfold Exec at h
  split_ifs at h with herr
  · exact .inl (congrFun (congrFun h key) t)
  · obtain ⟨haccepts, rfl⟩ := h
    by_cases ht : r.txn = some t
    · exact .inr ⟨ht, by simpa using herr, haccepts, if_pos ht⟩
    · exact .inl (if_neg ht)

lemma Exec.rolledback (h : Exec s region r resp s') (hs : s key t = .rolledback) :
    s' key t = .rolledback := by
  rcases h.record key t with heq | ⟨-, -, -, heq⟩
  · rw [heq, hs]
  · rw [heq, hs, recordStep_rolledback]

lemma Exec.batchRollback {r : BatchRollbackRequest} {resp : BatchRollbackResponse}
    (h : Exec s region (.batchRollback r) resp s') (herror : resp.error = none)
    (hregion : resp.regionError = none) (hkey : key ∈ r.keys) :
    s' key r.startVersion = .rolledback := by
  have hok : Request.isError (.batchRollback r) resp = false := by
    simp [Request.isError, herror, hregion]
  unfold Exec at h
  rw [if_neg (by simp [hok])] at h
  obtain ⟨haccepts, rfl⟩ := h
  have hnot := haccepts key hkey
  simp only [Tikv.effect, Request.txn, if_true, recordStep, if_pos hkey]
  cases hrec : s key r.startVersion with
  | committed commitTs op value =>
    rw [hrec] at hnot
    cases hnot
  | _ => rfl

end Exec

/-! ## The network -/

/-- **The server and the requests in flight.** -/
structure World where
  tikv : Tikv
  inflight : List (Region × Request)

/-- The requests among some calls. -/
def rpcsOf (calls : List Call) : List (Region × Request) :=
  calls.filterMap fun
    | .rpc region r => some (region, r)
    | _ => none

/-- How a call may be answered: an attempt that fails may be in flight. -/
def networkReply (w : World) : (c : Call) → c.Ans → World → Prop
  | .rpc region r, .ok resp, w' => ∃ s, Exec w.tikv region r resp s ∧ w' = { w with tikv := s }
  | .rpc region r, .error _, w' => w' = w ∨ w' = { w with inflight := (region, r) :: w.inflight }
  | _, _, w' => w' = w

/-- Requests in `R` may be executed. -/
def Executes (R : Region → Request → Prop) (w w' : World) : Prop :=
  ∃ region r, ∃ resp : r.Response, ∃ s,
    R region r ∧ Exec w.tikv region r resp s ∧ w' = { w with tikv := s }

/-- **The network**, among clients that send requests in `F`. -/
def network (F : Request → Prop) : Env sig World where
  reply := networkReply
  dropped w cs w' := w' = { w with inflight := rpcsOf cs ++ w.inflight }
  rely w w' := Executes (fun region r => (region, r) ∈ w.inflight ∨ F r) w w'

/-- A call that is not a request in `G` breaks it. -/
def Call.Sends (G : Request → Prop) : Call → Prop
  | .rpc _ r => G r
  | _ => True

/-- A property `I` of the server's state, with only requests in `G` in flight. -/
structure World.Inv (I : Tikv → Prop) (G : Request → Prop) (w : World) : Prop where
  tikv : I w.tikv
  inflight : ∀ x ∈ w.inflight, G x.2

/-- The requests in `G` keep `I`. -/
def Keeps (I : Tikv → Prop) (G : Request → Prop) : Prop :=
  ∀ {s s' : Tikv} {region : Region} {r : Request} {resp : r.Response},
    G r → Exec s region r resp s' → I s → I s'

section Invariant

variable {F G : Request → Prop} {I : Tikv → Prop} {w w' : World}

lemma World.Inv.reply (h : w.Inv I G) (hkeep : Keeps I G) {c : Call} {ans : c.Ans}
    (hc : c.Sends G) (hreply : networkReply w c ans w') : w'.Inv I G := by
  cases c with
  | rpc region r =>
    cases ans with
    | ok resp =>
      obtain ⟨s, hexec, rfl⟩ := hreply
      exact ⟨hkeep hc hexec h.tikv, h.inflight⟩
    | error e =>
      rcases hreply with rfl | rfl
      · exact h
      · exact ⟨h.tikv, List.forall_mem_cons.mpr ⟨hc, h.inflight⟩⟩
  | _ =>
    obtain rfl : w' = w := hreply
    exact h

lemma mem_rpcsOf {cs : List Call} {x : Region × Request} (h : x ∈ rpcsOf cs) :
    .rpc x.1 x.2 ∈ cs := by
  obtain ⟨c, hc, hcx⟩ := List.mem_filterMap.mp h
  cases c with
  | rpc region r =>
    cases hcx
    exact hc
  | _ => cases hcx

lemma World.Inv.dropped (h : w.Inv I G) {cs : List Call} (hcs : ∀ c ∈ cs, c.Sends G) :
    World.Inv I G { w with inflight := rpcsOf cs ++ w.inflight } := by
  refine ⟨h.tikv, fun x hx => ?_⟩
  rcases List.mem_append.mp hx with hx | hx
  · exact hcs _ (mem_rpcsOf hx)
  · exact h.inflight x hx

lemma World.Inv.executes (h : w.Inv I G) (hkeep : Keeps I G) (hF : ∀ r, F r → G r)
    (hexec : Executes (fun region r => (region, r) ∈ w.inflight ∨ F r) w w') : w'.Inv I G := by
  obtain ⟨region, r, resp, s, hr, hexec, rfl⟩ := hexec
  refine ⟨hkeep ?_ hexec h.tikv, h.inflight⟩
  rcases hr with hmem | hF'
  · exact h.inflight _ hmem
  · exact hF r hF'

/-- **Invariants of the server**: a property of its state that the requests in `G` keep, when
only such requests are in flight, sent by others, and made by the program. -/
theorem network_preserves (hF : ∀ r, F r → G r) (hkeep : Keeps I G) :
    (network F).Preserves (Call.Sends G) (World.Inv I G) where
  reply hc hreply hw := hw.reply hkeep hc hreply
  dropped := by
    rintro w cs _ hcs rfl hw
    exact hw.dropped hcs
  rely hrely hw := hw.executes hkeep hF hrely

end Invariant

end TikvClient
