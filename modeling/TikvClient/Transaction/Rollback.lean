import TikvClient.Transaction.BufferLemmas
import TikvClient.Transaction.Finishing
import TikvClient.Transaction.Scenario

/-!
# When a rollback is final

After `rollback` has returned `Ok`, nothing of the transaction should be left that could still
become visible.  What a rollback sends depends on the kind of the transaction only: an
optimistic one rolls its commit keys back, a pessimistic one removes its pessimistic locks.
What it should undo depends on how far a `commit` before it got.

**The invariant** of a session: the keys at which the transaction is written on the server, or may
still be by a request in flight, are keys its buffer writes; and there are none before `commit`.

**The result**: a rollback is final if the transaction is optimistic and commits all it writes, or
if nothing of it has been prewritten.
-/

namespace TikvClient

open Proto Prog

/-! ## Where a transaction is written -/

/-- The transaction `t` is written at most at the keys in `L`. -/
def WrittenWithin (t : ℕ) (L : Key → Prop) (s : Tikv) : Prop :=
  ∀ key, (s key t).isWritten = true → L key

/-- The request writes the transaction `t` at most at the keys in `L`. -/
def Within (t : ℕ) (L : Key → Prop) (r : Request) : Prop :=
  r.txn = some t → ∀ key, r.WritesAt key → L key

lemma keeps_writtenWithin (t : ℕ) (L : Key → Prop) : Keeps (WrittenWithin t L) (Within t L) := by
  intro s s' region r resp hr hexec hs key hkey
  rcases hexec.record key t with heq | ⟨htxn, -, -, heq⟩
  · exact hs key (heq ▸ hkey)
  · rw [heq] at hkey
    rcases recordStep_isWritten hkey with hbefore | hwrites
    · exact hs key hbefore
    · exact hr htxn key hwrites

lemma within_of_foreign {t : ℕ} {r : Request} (h : Foreign t r) (L : Key → Prop) :
    Within t L r := by
  intro ht key hwrites
  rcases h ht with ⟨c, rfl⟩ | ⟨c, rfl⟩ <;> cases hwrites

/-- The calls of a transaction `t` that is not pipelined, when it writes keys in `L`. -/
def Writing (t : ℕ) (L : Key → Prop) : Call → Prop
  | .rpc _ r => Within t L r
  | .spawn (.flush _ _) => False
  | _ => True

section Writing

variable {t : ℕ} {L L' : Key → Prop}

lemma Writing.mono (hL : ∀ key, L key → L' key) : ∀ c, Writing t L c → Writing t L' c := by
  intro c hc
  cases c with
  | rpc region r => exact fun ht key hkey => hL key (hc ht key hkey)
  | spawn task => cases task <;> exact hc
  | _ => exact hc

lemma Writing.sends (c : Call) (h : Writing t L c) : c.Sends (Within t L) := by
  cases c with
  | rpc region r => exact h
  | _ => trivial

lemma routing_writing : Routing (Writing t L) :=
  ⟨fun _ => trivial, fun _ => trivial, fun _ _ => trivial⟩

lemma resolving_writing (version : ℕ) : Resolving (Writing t L) version :=
  ⟨fun _ _ _ _ h => False.elim h, fun _ _ _ _ h => False.elim h⟩

/-- The tasks of such a transaction write nothing. -/
lemma spawnSat_writing : SpawnSat (Writing t L) (Writing t fun _ => False) := by
  intro task htask fuel
  cases task with
  | flush request retryOptions => exact absurd htask id
  | heartbeat startTs pk regionBackoff =>
    exact sat_heartbeatTask routing_writing trivial trivial (fun _ _ _ _ h => False.elim h)
      regionBackoff fuel
  | commitSecondary c commitVersion =>
    exact sat_commitSecondary routing_writing trivial resolving_writing c
      (fun _ _ _ _ _ _ _ h => False.elim h) fuel
  | resolveFlushedLocks startTs commitTs range =>
    exact sat_resolveFlushedLocks routing_writing (fun _ _ _ h => False.elim h) range fuel

lemma inv_mono {w : World} (hL : ∀ key, L key → L' key)
    (h : w.Inv (WrittenWithin t L) (Within t L)) : w.Inv (WrittenWithin t L') (Within t L') :=
  ⟨fun key hkey => hL key (h.tikv key hkey),
    fun x hx ht key hkey => hL key (h.inflight x hx ht key hkey)⟩

/-- What the transaction may have written stays within `L` along a run. -/
lemma writtenWithin_of_run {rt rt' : Runtime} {tr : Trace}
    (h : (runtime (Foreign t)).concurrent.Run rt tr rt')
    (hmade : ∀ e ∈ tr, Event.Made (S := sig) (Writing t L) e)
    (hw : rt.state.world.Inv (WrittenWithin t L) (Within t L))
    (hs : rt.AllSat (Writing t fun _ => False)) :
    rt'.state.world.Inv (WrittenWithin t L) (Within t L) ∧
      rt'.AllSat (Writing t fun _ => False) :=
  (keeps_server (Writing.mono fun _ h => h.elim) Writing.sends spawnSat_writing
    (fun _ hr => within_of_foreign hr L) (keeps_writtenWithin t L)).preserves.run h hmade ⟨hw, hs⟩

end Writing

/-! ## The invariant of a session -/

namespace Transaction

/-- The buffer writes the key: its entry is more than a cached read or an existence check. -/
def Writes (t : Transaction) (key : Key) : Prop :=
  ∃ entry, t.buffer.entryMap[key]? = some entry ∧ entry.setsPrimary = true

/-- The key may be written on the server: nothing is before `commit`. -/
def MayHold (t : Transaction) (key : Key) : Prop := ¬ t.IsOpen ∧ t.Writes key

/-- **The invariant**: the transaction is written, or on the way to be, at most at the keys it may
hold; its tasks write nothing. -/
structure Contained (timestamp : ℕ) (t : Transaction) (rt : Runtime) : Prop where
  timestamp_eq : t.timestamp = timestamp
  not_pipelined : t.pipelined = none ∧ t.options.isPipelined = false
  world : rt.state.world.Inv (WrittenWithin timestamp t.MayHold) (Within timestamp t.MayHold)
  tasks : rt.AllSat (Writing timestamp fun _ => False)

variable {timestamp : ℕ} {t t' : Transaction} {rt rt' : Runtime}
  {options : TransactionOptions} {w : World} {m : Proto.Mutation} {r : Except Error Unit}

lemma contained_new (timestamp : ℕ) (txnLatches : Bool)
    (hnp : options.pipelined = none) (hw : w.Fresh timestamp) :
    (new timestamp options txnLatches).Contained timestamp (Runtime.start w) where
  timestamp_eq := rfl
  not_pipelined := by simp [new, hnp, TransactionOptions.isPipelined]
  world := by
    refine ⟨fun key hkey => ?_, fun x hx => within_of_foreign (hw.inflight x hx) _⟩
    rw [show (Runtime.start w).state.world.tikv key timestamp = .absent from hw.absent key] at hkey
    cases hkey
  tasks := fun x hx => absurd hx List.not_mem_nil

/-- The keys a transaction may hold are a matter of its status and its entries. -/
lemma mayHold_congr (hstatus : t'.status = t.status)
    (hentries : t'.buffer.entryMap = t.buffer.entryMap) : t'.MayHold = t.MayHold := by
  funext key
  simp only [MayHold, IsOpen, Writes, hstatus, hentries]

lemma Contained.mono (h : t.Contained timestamp rt) (htimestamp : t'.timestamp = t.timestamp)
    (hnp : t'.pipelined = t.pipelined ∧ t'.options.isPipelined = t.options.isPipelined)
    (hhold : ∀ key, t.MayHold key → t'.MayHold key) : t'.Contained timestamp rt where
  timestamp_eq := htimestamp.trans h.timestamp_eq
  not_pipelined := ⟨hnp.1.trans h.not_pipelined.1, hnp.2.trans h.not_pipelined.2⟩
  world := inv_mono hhold h.world
  tasks := h.tasks

variable {tr : Trace} {L : Key → Prop}

lemma Contained.of_run (h : t.Contained timestamp rt)
    (hrun : (runtime (Foreign timestamp)).concurrent.Run rt tr rt')
    (hmade : ∀ e ∈ tr, Event.Made (S := sig) (Writing timestamp t.MayHold) e) :
    t.Contained timestamp rt' := by
  obtain ⟨hw, hs⟩ := writtenWithin_of_run hrun hmade h.world h.tasks
  exact ⟨h.timestamp_eq, h.not_pipelined, hw, hs⟩

/-- What an operation keeps, for the invariant: the status, and the entries once it is not open. -/
structure Stays (t t' : Transaction) : Prop where
  timestamp : t'.timestamp = t.timestamp
  status : t'.status = t.status
  pipelined : t'.pipelined = t.pipelined
  isPipelined : t'.options.isPipelined = t.options.isPipelined
  entries : ¬ t.IsOpen → t'.buffer.entryMap = t.buffer.entryMap

lemma Stays.isOpen (h : Stays t t') (hopen : t'.IsOpen) : t.IsOpen := by
  rwa [IsOpen, h.status] at hopen

lemma Stays.mayHold (h : Stays t t') : t'.MayHold = t.MayHold := by
  by_cases hopen : t.IsOpen
  · have hopen' : t'.IsOpen := by rwa [IsOpen, h.status]
    funext key
    simp [MayHold, hopen, hopen']
  · exact mayHold_congr h.status (h.entries hopen)

lemma within_of_not_writes {r : Request} (h : ∀ key, ¬ r.WritesAt key) :
    Within timestamp L r :=
  fun _ key hkey => absurd hkey (h key)

/-- **The operations write nothing on the server.** -/
lemma respects_stays {A : Answers} (hnp : t.pipelined = none) :
    Respects (Writing timestamp L) A (fun _ => True) (Stays t) where
  routing := routing_writing
  getTimestamp := trivial
  elapsed := trivial
  resolving := resolving_writing
  reads region r hr ht := absurd (hr.symm.trans ht) (by simp)
  read h hopen _ := { h with entries := fun hnot => absurd (h.isOpen hopen) hnot }
  write {s key f} h hopen _ := by
    have hnone : s.pipelined = none := h.pipelined.trans hnp
    simp only [recordKeyChange, hnone]
    exact { h with pipelined := hnp.symm, entries := fun hnot => absurd (h.isOpen hopen) hnot }
  flags {s} key ops h := by
    have hnone : s.pipelined = none := h.pipelined.trans hnp
    simp only [recordKeyChange, hnone]
    exact { h with pipelined := hnp.symm }
  flush {s pk} h _ hsome _ := by
    rw [h.pipelined, hnp] at hsome
    cases hsome
  sendsHeartBeat _ _ _ _ _ := within_of_not_writes fun _ h => h
  spawnHeartbeat _ _ _ := trivial
  heartbeatStarted h _ := { h with }
  sendsPessimisticLock _ _ _ _ _ _ _ _ := within_of_not_writes fun _ h => h
  pushForUpdateTs {s} ts h hopen _ := by
    refine { h with isPipelined := Eq.trans ?_ h.isPipelined }
    unfold TransactionOptions.pushForUpdateTs
    cases s.options.kind <;> rfl
  acquire h hopen _ _ := { h with entries := fun hnot => absurd (h.isOpen hopen) hnot }
  lock _ h hopen _ := { h with entries := fun hnot => absurd (h.isOpen hopen) hnot }
  sendsPessimisticRollback _ _ _ _ _ _ := within_of_not_writes fun _ h => h
  unlock _ h hopen _ := { h with entries := fun hnot => absurd (h.isOpen hopen) hnot }

lemma Stays.refl (t : Transaction) : Stays t t := ⟨rfl, rfl, rfl, rfl, fun _ => rfl⟩

/-- What `commit` may write: what it may hold already, and all its keys if it may go on. -/
def CommitWrites (t : Transaction) (key : Key) : Prop :=
  t.MayHold key ∨ (t.CanCommit ∧ t.Writes key)

/-- A lock-writing mutation of the transaction is at a key its buffer writes. -/
lemma writes_of_mutation (hm : m ∈ t.prewriteMutations)
    (hop : m.op.writesLock = true) : t.Writes m.key := by
  obtain ⟨⟨key, entry⟩, he, hlower⟩ := List.mem_filterMap.mp hm
  have hkey : m.key = key := Buffer.lowerEntry_key hlower
  refine ⟨entry, ?_, ?_⟩
  · rw [hkey]
    exact Std.ExtTreeMap.mem_toList_iff_getElem?_eq_some.mp he
  · rcases Buffer.lowerEntry_op hlower with ⟨-, hcheck⟩ | ⟨hne, -⟩
    · rw [hcheck] at hop
      cases hop
    · cases entry with
      | cached v => simp [Buffer.lowerEntry, BufferEntry.toProtoWithKey] at hlower
      | checkNotExist => exact absurd rfl hne
      | _ => rfl

lemma commitRespects_writing (hcan : t.CanCommit) (pk : Key) :
    CommitRespects (Writing timestamp t.CommitWrites) t pk where
  calls :=
    { routing := routing_writing
      getTimestamp := trivial
      commitWaitTimedOut := trivial
      elapsed := trivial
      resolving := resolving_writing
      prewrite := fun region r _ _ hr _ key hkey => by
        obtain ⟨m, hm, rfl, hop⟩ := hkey
        exact .inr ⟨hcan, writes_of_mutation (hr m hm) hop⟩
      commit := fun _ _ _ _ _ => within_of_not_writes fun _ h => h
      spawnSecondary := fun _ _ _ => trivial }
  latch := trivial
  spawnHeartbeat := trivial

lemma rollbackRespects_writing : RollbackRespects (Writing timestamp L) t where
  routing := routing_writing
  getTimestamp := trivial
  resolving := resolving_writing
  batchRollback _ _ _ := within_of_not_writes fun _ h => h
  pessimisticRollback _ _ _ := within_of_not_writes fun _ h => h

lemma Ended.mayHold (h : Ended t t') {key : Key} (hkey : t.Writes key) : t'.MayHold key :=
  ⟨h.2, by rwa [Writes, h.1.buffer]⟩

lemma Contained.of_ended (h : t.Contained timestamp rt) (hended : Ended t t') :
    t'.Contained timestamp rt :=
  h.mono hended.1.timestamp ⟨hended.1.pipelined, congrArg _ hended.1.options⟩
    fun _ hkey => hended.mayHold hkey.2

lemma Contained.commit (h : t.Contained timestamp rt) {fuel : ℕ}
    (hreturns : Returns ((Op.commit.run fuel).exec t) tr (r, t'))
    (hrun : (runtime (Foreign timestamp)).concurrent.Run rt tr rt') :
    t'.Contained timestamp rt' := by
  have htriple := triple_commit (C := Writing timestamp t.CommitWrites) (A := fun _ _ => True)
    h.not_pipelined.2 (fun hcan pk _ => commitRespects_writing hcan pk) fuel
  obtain ⟨hmade, hpost⟩ := htriple.discard.of_returns rfl hreturns
    fun e _ => by cases e <;> trivial
  obtain ⟨hw, hs⟩ := writtenWithin_of_run hrun hmade (inv_mono (fun _ => .inl) h.world) h.tasks
  rcases hpost with ⟨rfl, hnot⟩ | ⟨hended, -⟩
  · exact ⟨h.timestamp_eq, h.not_pipelined,
      inv_mono (fun _ hkey => hkey.resolve_right fun hcan => hnot hcan.1) hw, hs⟩
  · refine ⟨hended.1.timestamp.trans h.timestamp_eq, ?_, inv_mono (fun key hkey => ?_) hw, hs⟩
    · rw [hended.1.pipelined, hended.1.options]
      exact h.not_pipelined
    · exact hended.mayHold (hkey.elim And.right And.right)

/-- **One call keeps the invariant.** -/
theorem Contained.call (h : t.Contained timestamp rt) {op : Op}
    (hcall : Calls (Foreign timestamp) op t rt r t' rt') : t'.Contained timestamp rt' := by
  obtain ⟨fuel, tr, hreturns, hrun⟩ := hcall
  by_cases hfinal : op.isFinal = true
  · cases op with
    | commit => exact h.commit hreturns hrun
    | rollback =>
      obtain ⟨hmade, hpost, -⟩ := (triple_rollback (C := Writing timestamp t.MayHold)
        (A := fun _ _ => True) h.not_pipelined.2 rollbackRespects_writing fuel).of_returns rfl
        hreturns fun e _ => by cases e <;> trivial
      rcases hpost with rfl | hended
      · exact h.of_run hrun hmade
      · exact (h.of_run hrun hmade).of_ended hended
    | _ => cases hfinal
  · obtain ⟨hmade, hstays⟩ := ((respects_stays (A := fun _ _ => True) h.not_pipelined.1).triple_op
      (Bool.eq_false_iff.mpr hfinal) (fun _ _ => trivial) fuel).of_returns (Stays.refl t) hreturns
      fun e _ => by cases e <;> trivial
    refine (h.of_run hrun hmade).mono hstays.timestamp ⟨hstays.pipelined, hstays.isPipelined⟩ ?_
    rw [hstays.mayHold]
    exact fun _ hkey => hkey

/-- **The invariant holds in every state of a session.** -/
theorem contained_of_session {txnLatches : Bool}
    (hnp : options.pipelined = none) (hw : w.Fresh timestamp)
    {Guard : Op → Transaction → Runtime → Prop}
    (h : Session (Foreign timestamp) Guard (new timestamp options txnLatches) (Runtime.start w)
      t rt) : t.Contained timestamp rt := by
  induction h with
  | start => exact contained_new timestamp txnLatches hnp hw
  | call _ _ hcall ih => exact ih.call hcall

/-! ## Rollbacks -/

/-- **Nothing of the buffered mutations is committed or prewritten, now or later.** -/
def UndoneForGood (t : Transaction) (rt : Runtime) : Prop :=
  ∀ rt' : Runtime, (runtime (Foreign t.timestamp)).concurrent.Run rt [] rt' →
    ∀ m ∈ t.prewriteMutations, (rt'.tikv m.key t.timestamp).isCommitted = false ∧
      (rt'.tikv m.key t.timestamp).isPrewritten = false

/-- What a rollback sends reaches all that is written: the transaction is optimistic and commits
all its writes, or nothing is written or on the way. -/
def RollbackReaches (t : Transaction) (w : World) : Prop :=
  (t.options.kind = .optimistic ∧
    ∀ m ∈ t.prewriteMutations, m.op.writesLock = true → m.key ∈ t.commitKeys) ∨
  w.Inv (WrittenWithin t.timestamp fun _ => False) (Within t.timestamp fun _ => False)

lemma isWritten_eq_false {record : TxnRecord} (h : record.isWritten ≠ true) :
    record.isCommitted = false ∧ record.isPrewritten = false := by
  rw [← Bool.eq_false_iff, TxnRecord.isWritten, Bool.or_eq_false_iff] at h
  exact h.symm

lemma not_writes_of_check (hm : m ∈ t.prewriteMutations)
    (hop : ¬ m.op.writesLock = true) : ¬ t.Writes m.key := by
  rintro ⟨entry, hentry, hsets⟩
  obtain ⟨⟨key, entry'⟩, he, hlower⟩ := List.mem_filterMap.mp hm
  rw [Buffer.lowerEntry_key hlower, Std.ExtTreeMap.mem_toList_iff_getElem?_eq_some.mp he] at hentry
  cases hentry
  rcases Buffer.lowerEntry_op hlower with ⟨rfl, -⟩ | ⟨-, hwrite⟩
  · cases hsets
  · refine hop ?_
    simp only [List.mem_cons, List.not_mem_nil, or_false] at hwrite
    rcases hwrite with h | h | h | h <;> rw [h] <;> rfl

lemma rolledback_of_answered {key : Key} {F : Request → Prop}
    (hrun : (runtime F).concurrent.Run rt tr rt')
    (h : RollbackAnswered (InTrace (S := sig) tr) timestamp key) :
    rt'.tikv key timestamp = .rolledback := by
  obtain ⟨region, r, resp, hmem, rfl, hkey, herror, hregion⟩ := h
  obtain ⟨rt₁, rt₂, tr₂, hreply, hrest⟩ := hrun.exists_reply hmem
  have hreply : Runtime.reply rt₁ (.rpc region (.batchRollback r)) (.ok resp) rt₂ := hreply
  obtain ⟨s, hexec, hw⟩ := Runtime.reply_world hreply
  refine Runtime.rolledback_of_run hrest ?_
  rw [Runtime.tikv, hw]
  exact hexec.batchRollback herror hregion hkey

/-- **A rollback that returns `Ok` is final**, after any history of calls, if it reaches what the
transaction has written. -/
theorem rollback_final (timestamp : ℕ) (options : TransactionOptions) (txnLatches : Bool)
    (w : World) (t t' : Transaction) (rt rt' : Runtime) (hnp : options.pipelined = none)
    (hw : w.Fresh timestamp)
    (hsession : Session (Foreign timestamp) (fun _ _ _ => True)
      (new timestamp options txnLatches) (Runtime.start w) t rt)
    (hreaches : t.RollbackReaches rt.state.world)
    (hcall : Calls (Foreign timestamp) .rollback t rt (.ok ()) t' rt') : t'.UndoneForGood rt' := by
  have hcontained := contained_of_session hnp hw hsession
  have hcontained' := hcontained.call hcall
  obtain ⟨fuel, tr, hreturns, hrun⟩ := hcall
  obtain ⟨hmade, hdata, hanswered⟩ := (triple_rollback (C := Writing timestamp fun _ => False)
    (A := InTrace (S := sig) tr) hcontained.not_pipelined.2 rollbackRespects_writing fuel).of_returns
    rfl hreturns (allowed_inTrace tr)
  have hmutations : t'.prewriteMutations = t.prewriteMutations := by
    rcases hdata with rfl | hended
    · rfl
    · rw [prewriteMutations, prewriteMutations, hended.1.buffer, hended.1.options]
  obtain rfl := hcontained.timestamp_eq
  rw [UndoneForGood, hcontained'.timestamp_eq, hmutations]
  intro rt'' hlater m hm
  apply isWritten_eq_false
  rcases hreaches with ⟨hkind, hcommits⟩ | hnothing
  · by_cases hop : m.op.writesLock = true
    · have hkey := hanswered rfl hkind m.key (hcommits m hm hop)
      rw [Runtime.rolledback_of_run hlater (rolledback_of_answered hrun hkey)]
      exact Bool.false_ne_true
    · intro hwritten
      -- Existence checks leave nothing on the server.
      have hhold := (hcontained'.of_run hlater fun e he => by cases he).world.tikv m.key hwritten
      exact not_writes_of_check (hmutations ▸ hm) hop hhold.2
  · obtain ⟨hw₁, hs₁⟩ := writtenWithin_of_run hrun hmade hnothing hcontained.tasks
    obtain ⟨hw₂, -⟩ := writtenWithin_of_run hlater (fun e he => by cases he) hw₁ hs₁
    exact fun hwritten => hw₂.tikv m.key hwritten

/-- PD is up, and then down: the commit fails between its two phases. -/
def failedCommit : List (Faults × Op) :=
  [(⟨.ok 20, fun _ => none⟩, .put ⟨[1]⟩ [7]), (⟨.error (.other 0), fun _ => none⟩, .commit)]

/-- **A pessimistic transaction** leaves its prewritten lock behind: the rollback removes
pessimistic locks only. -/
theorem pessimistic_rollback_leaves_lock :
    ∃ t rt t' rt', Session (Foreign 10) (fun _ _ _ => True)
        (new 10 TransactionOptions.newPessimistic false) (Runtime.start emptyWorld) t rt ∧
      Calls (Foreign 10) .rollback t rt (.ok ()) t' rt' ∧ ¬ t'.UndoneForGood rt' := by
  obtain ⟨t, rt, r, t', rt', hsession, hcall, hcheck⟩ := exists_call_of_playThen (Foreign 10)
    (show playThen 9 failedCommit ⟨.ok 30, fun _ => none⟩ .rollback
      (new 10 TransactionOptions.newPessimistic false) (Runtime.start emptyWorld)
      (fun _ _ r t' rt' => r.isOk && t'.prewriteMutations.any (fun m => m.key = ⟨[1]⟩) &&
        t'.timestamp = 10 && (rt'.tikv ⟨[1]⟩ 10).isPrewritten) = true by decide)
  simp only [Bool.and_eq_true, List.any_eq_true, decide_eq_true_eq] at hcheck
  obtain ⟨⟨⟨hok, m, hm, hkey⟩, htimestamp⟩, hlocked⟩ := hcheck
  cases r with
  | error e => cases hok
  | ok u =>
    refine ⟨t, rt, t', rt', hsession, hcall, fun hundone => ?_⟩
    have hclean := (hundone rt' (.refl rt') m hm).2
    rw [htimestamp, hkey, hlocked] at hclean
    cases hclean

/-- The same history of an optimistic transaction is undone. -/
theorem optimistic_rollback_undone :
    ∃ t rt t' rt', Session (Foreign 10) (fun _ _ _ => True)
        (new 10 TransactionOptions.newOptimistic false) (Runtime.start emptyWorld) t rt ∧
      Calls (Foreign 10) .rollback t rt (.ok ()) t' rt' ∧ t'.prewriteMutations ≠ [] ∧
      t'.UndoneForGood rt' := by
  obtain ⟨t, rt, r, t', rt', hsession, hcall, hcheck⟩ := exists_call_of_playThen (Foreign 10)
    (show playThen 9 failedCommit ⟨.ok 30, fun _ => none⟩ .rollback
      (new 10 TransactionOptions.newOptimistic false) (Runtime.start emptyWorld)
      (fun t _ r t' _ => r.isOk && !t'.prewriteMutations.isEmpty && t.options.kind = .optimistic &&
        t.prewriteMutations.all fun m => m.key ∈ t.commitKeys) = true by decide)
  simp only [Bool.and_eq_true, List.all_eq_true, decide_eq_true_eq, Bool.not_eq_true',
    List.isEmpty_eq_false_iff] at hcheck
  obtain ⟨⟨⟨hok, hne⟩, hkind⟩, hkeys⟩ := hcheck
  cases r with
  | error e => cases hok
  | ok u =>
    refine ⟨t, rt, t', rt', hsession, hcall, hne, ?_⟩
    exact rollback_final 10 _ false emptyWorld t t' rt rt' rfl
      ⟨fun _ => rfl, fun _ h => by cases h⟩ hsession (.inl ⟨hkind, fun m hm _ => hkeys m hm⟩) hcall

/-! ## Whole sessions -/

/-- **A transaction is written at keys of its buffer only, and nowhere before `commit`**: whatever
calls of it failed, whatever its tasks, the network and others do then. -/
theorem written_at_buffered_keys {txnLatches : Bool} {key : Key} (hnp : options.pipelined = none)
    (hw : w.Fresh timestamp) (hsession : Session (Foreign timestamp) (fun _ _ _ => True)
      (new timestamp options txnLatches) (.start w) t rt)
    (hlater : (runtime (Foreign timestamp)).concurrent.Run rt [] rt')
    (hwritten : (rt'.tikv key timestamp).isWritten = true) : ¬ t.IsOpen ∧ t.Writes key := by
  have hcontained := (contained_of_session hnp hw hsession).of_run hlater (fun e he => by cases he)
  exact hcontained.world.tikv key hwritten

/-- The commit that fails between its phases has written the key that was put. -/
theorem failed_commit_written_at_put :
    ∃ t rt, Session (Foreign 10) (fun _ _ _ => True) (new 10 .newOptimistic false)
        (.start emptyWorld) t rt ∧
      (rt.tikv ⟨[1]⟩ 10).isWritten = true ∧ ¬ t.IsOpen ∧ t.Writes ⟨[1]⟩ := by
  have hplay : (play 9 failedCommit (new 10 .newOptimistic false) (.start emptyWorld)).any
      (fun p => (p.2.2.tikv ⟨[1]⟩ 10).isWritten) = true := by decide
  obtain ⟨⟨_, t, rt⟩, hplay, hwritten⟩ := (Option.any_eq_true _ _).mp hplay
  have hsession := session_of_play (Foreign 10) failedCommit .start hplay
  exact ⟨t, rt, hsession, hwritten, written_at_buffered_keys rfl
    ⟨fun _ => rfl, fun _ h => by cases h⟩ hsession (.refl rt) hwritten⟩

end Transaction

end TikvClient
