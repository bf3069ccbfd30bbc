import TikvClient.Server.Tikv
import TikvClient.Transaction.RequestLemmas

/-!
# What a reader does to the transactions whose locks it meets

`resolve_locks` decides from the lock it *met*: when that lock's own TTL has passed, it sends
`Cleanup` for the transaction's primary with `current_ts = 0`, which rolls the transaction back
whatever the primary lock says.  So neither of two things protects a transaction: that the
primary's TTL is being extended by heartbeats, which do not reach the secondaries, nor that it
is an async-commit transaction all of whose locks are written, which is already committed.

**The result** is one: `resolve_locks` can roll a transaction back exactly if one of its locks in
the list is expired at the timestamp fetched.  It is stated for the two kinds of transactions
that should have been safe.
-/

namespace TikvClient

open Proto Prog

/-! ## Requests that roll back -/

/-- The requests that may roll back the transaction `t`. -/
def RollsBack (t : ℕ) : Request → Prop
  | .batchRollback r => r.startVersion = t
  | .cleanup r => r.startVersion = t
  | .resolveLock r => r.startVersion = t ∧ r.commitVersion = 0
  | _ => False

lemma TxnRecord.commit_ne_rolledback {record : TxnRecord} {commitTs : ℕ}
    (h : record ≠ .rolledback) : record.commit commitTs ≠ .rolledback := by
  rcases record with _ | ⟨_, _, _ | _, _⟩ | _ | _ <;>
    first | exact absurd rfl h | exact TxnRecord.noConfusion

variable {region : Region} {r : Request} {resp : r.Response} {t ts : ℕ} {w : World}

lemma recordStep_ne_rolledback {key : Key}
    {record : TxnRecord} (hr : ¬ RollsBack t r) (ht : r.txn = some t)
    (h : record ≠ .rolledback) : recordStep region r resp key record ≠ .rolledback := by
  cases r with
  | batchRollback | cleanup => exact absurd (Option.some.inj ht) hr
  | resolveLock r =>
    have hcommit : r.commitVersion ≠ 0 := fun h => hr ⟨Option.some.inj ht, h⟩
    simp only [recordStep, if_neg hcommit]
    split
    · exact h
    · exact TxnRecord.commit_ne_rolledback h
  | _ =>
    simp only [recordStep]
    repeat' split
    all_goals first
      | exact h
      | (rcases record with _ | ⟨_, _, _ | _, _⟩ | _ | _ <;>
          first | exact absurd rfl h | exact TxnRecord.noConfusion)

lemma Exec.not_rolledback {s s' : Tikv}
    {key : Key} (hr : ¬ RollsBack t r) (h : Exec s region r resp s')
    (hs : s key t ≠ .rolledback) : s' key t ≠ .rolledback := by
  rcases h.record key t with heq | ⟨ht, -, -, heq⟩
  · rwa [heq]
  · rw [heq]
    exact recordStep_ne_rolledback hr ht hs

/-! ## Safety -/

/-- **An execution of `resolve_locks` that fetches `ts` does not roll `t` back**, when nobody
else does: no record of the transaction becomes a tombstone. -/
def ResolveSafe (locks : List LockInfo) (ts t : ℕ) (w : World) : Prop :=
  ∀ fuel tr p w',
    Steps (resolveLocks fuel locks) (.answered (S := sig) .getTimestamp (.ok ts) :: tr) p →
    (network fun r => ¬ RollsBack t r).Run w
    (.answered (S := sig) .getTimestamp (.ok ts) :: tr) w' →
      ∀ key, w.tikv key t ≠ .rolledback → w'.tikv key t ≠ .rolledback

/-- What `resolve_locks` does once it has the timestamp. -/
def resolveAt (fuel ts : ℕ) (locks : List LockInfo) : AsyncResult (List LockInfo) :=
  (resolveExpired fuel (locks.filter fun l => isExpired ts l) ∅ ∅).andThen fun _ =>
  .ret (.ok (locks.filter fun l => !isExpired ts l))

lemma steps_resolveLocks_iff {fuel : ℕ} {locks : List LockInfo} {tr : Trace}
    {p : AsyncResult (List LockInfo)} :
    Steps (resolveLocks fuel locks) (.answered (S := sig) .getTimestamp (.ok ts) :: tr) p ↔
      Steps (resolveAt fuel ts locks) tr p := by
  constructor
  · intro h
    cases h with
    | call ans h => exact h
  · exact fun h => Steps.call (S := sig) (c := .getTimestamp) (.ok ts) h

lemma resolveSafe_of_not_expired {locks : List LockInfo}
    (hinflight : ∀ x ∈ w.inflight, ¬ RollsBack t x.2)
    (h : ∀ l ∈ locks, l.lockVersion = t → isExpired ts l = false) : ResolveSafe locks ts t w := by
  intro fuel tr p w' hsteps hrun key hkey
  rw [steps_resolveLocks_iff] at hsteps
  have hrouting : Routing (Call.Sends fun r => ¬ RollsBack t r) :=
    ⟨fun _ => trivial, fun _ => trivial, fun _ _ => trivial⟩
  -- Only the expired locks are worked on, and none of them is of `t`.
  have hexpired : ∀ l ∈ locks.filter fun l => isExpired ts l,
      Resolving (Call.Sends fun r => ¬ RollsBack t r) l.lockVersion := by
    intro l hl
    obtain ⟨hmem, hexp⟩ := List.mem_filter.mp hl
    have hne : l.lockVersion ≠ t := by
      intro heq
      rw [h l hmem heq] at hexp
      cases hexp
    exact ⟨fun _ _ => hne, fun _ _ h => hne h.1⟩
  have hsat : (resolveAt fuel ts locks).Sat (Call.Sends fun r => ¬ RollsBack t r)
      (fun _ _ => True) fun _ => True :=
    Sat.andThen (sat_resolveExpired hrouting fuel _ hexpired ∅ ∅) (fun _ _ => trivial)
      fun _ _ => trivial
  have hmade := (hsat.of_steps hsteps fun e _ => by cases e <;> trivial).1
  exact ((network_preserves (I := fun s => s key t ≠ .rolledback) (fun _ hr => hr)
    fun hr hexec hs => hexec.not_rolledback hr hs).run hrun
    (List.forall_mem_cons.mpr ⟨trivial, hmade⟩) ⟨hkey, hinflight⟩).tikv

/-! ## A run that resolves the locks one by one

Where one region serves all keys and answers every request, `resolve_locks` works through its
list.  What it does for one transaction leaves the others as they are. -/

section Path

variable {F : Request → Prop} {w : World}

/-- An executed cleanup: the record of its key is rolled back. -/
lemma exec_cleanup (s : Tikv) (key : Key) (version : ℕ) :
    Exec s wholeRegion (.cleanup ⟨key, version⟩)
      (⟨none, none, (s key version).commitVersion⟩ : CleanupResponse)
      (s.effect wholeRegion (.cleanup ⟨key, version⟩)
        (⟨none, none, (s key version).commitVersion⟩ : CleanupResponse)) :=
  ⟨rfl, rfl⟩

lemma exec_resolveLock (s : Tikv) (version commitVersion : ℕ) :
    Exec s wholeRegion (.resolveLock ⟨version, commitVersion⟩) (⟨none, none⟩ : ResolveLockResponse)
      (s.effect wholeRegion (.resolveLock ⟨version, commitVersion⟩)
        (⟨none, none⟩ : ResolveLockResponse)) :=
  ⟨trivial, rfl⟩

lemma reaches_cleanup (fuel : ℕ) (key : Key) (version : ℕ) :
    (network F).Reaches (cleanup (fuel + 5) key version) w
      (.ret (.ok (w.tikv key version).commitVersion))
      { w with
        tikv := w.tikv.effect wholeRegion (.cleanup ⟨key, version⟩)
          (⟨none, none, (w.tikv key version).commitVersion⟩ : CleanupResponse) } := by
  refine .call (.ok wholeRegion) rfl ?_
  refine .pick 0 (.call (.ok ()) rfl ?_)
  refine .pick 0 (.call (.ok ⟨none, none, (w.tikv key version).commitVersion⟩)
    ⟨_, exec_cleanup w.tikv key version, rfl⟩ ?_)
  exact .pick 0 (.refl _ _ _)

lemma reaches_resolveLockWithRetry (key : Key) (version commitVersion : ℕ) :
    (network F).Reaches (resolveLockWithRetry key version commitVersion) w
      (.ret (.ok wholeRegion.verId))
      { w with
        tikv := w.tikv.effect wholeRegion (.resolveLock ⟨version, commitVersion⟩)
          (⟨none, none⟩ : ResolveLockResponse) } := by
  refine .call (.ok wholeRegion) rfl (.call (.ok ()) rfl ?_)
  exact .call (.ok ⟨none, none⟩) ⟨_, exec_resolveLock w.tikv version commitVersion, rfl⟩
    (.refl _ _ _)

/-- The records of the transaction `t` are the same. -/
def SameRecords (t : ℕ) (w w' : World) : Prop := ∀ key, w'.tikv key t = w.tikv key t

variable {t : ℕ}

lemma reaches_commitVersionOf (fuel : ℕ) (cvs : Std.ExtTreeMap ℕ ℕ) (lock : LockInfo)
    (ht : lock.lockVersion ≠ t) :
    ∃ commitVersion w', (network F).Reaches (commitVersionOf (fuel + 5) cvs lock) w
      (.ret (.ok commitVersion)) w' ∧ SameRecords t w w' := by
  unfold commitVersionOf
  split
  next commitVersion _ => exact ⟨commitVersion, w, .refl _ _ _, fun _ => rfl⟩
  · exact ⟨_, _, reaches_cleanup fuel _ _, fun key => if_neg (by simpa [Request.txn] using ht)⟩

/-- The first lock, when its transaction has no clean region yet. -/
lemma reaches_resolveExpired_dirty (fuel : ℕ) (lock : LockInfo) (rest : List LockInfo)
    (cvs : Std.ExtTreeMap ℕ ℕ) (clean : Std.ExtTreeMap ℕ (List RegionVerId))
    (hclean : wholeRegion.verId ∉ clean.getD lock.lockVersion []) :
    (network F).Reaches (resolveExpired fuel (lock :: rest) cvs clean) w
      ((commitVersionOf fuel cvs lock).andThen fun commitVersion =>
        (resolveLockWithRetry lock.key lock.lockVersion commitVersion).andThen fun cleaned =>
        resolveExpired fuel rest (cvs.insert lock.lockVersion commitVersion)
          (clean.insert lock.lockVersion (cleaned :: clean.getD lock.lockVersion []))) w := by
  refine .call (.ok wholeRegion) rfl ?_
  show (network F).Reaches (if _ then _ else _) _ _ _
  rw [if_neg hclean]
  exact .refl _ _ _

/-- The locks of other transactions are passed. -/
lemma reaches_resolveExpired_cons (fuel : ℕ) (lock : LockInfo) (rest : List LockInfo)
    (cvs : Std.ExtTreeMap ℕ ℕ) (clean : Std.ExtTreeMap ℕ (List RegionVerId))
    (ht : lock.lockVersion ≠ t) :
    ∃ cvs' clean' w', (network F).Reaches (resolveExpired (fuel + 5) (lock :: rest) cvs clean) w
        (resolveExpired (fuel + 5) rest cvs' clean') w' ∧
      cvs'[t]? = cvs[t]? ∧ clean'.getD t [] = clean.getD t [] ∧ SameRecords t w w' := by
  by_cases hclean : wholeRegion.verId ∈ clean.getD lock.lockVersion []
  · refine ⟨cvs, clean, w, .call (.ok wholeRegion) rfl ?_, rfl, rfl, fun _ => rfl⟩
    show (network F).Reaches (if _ then _ else _) _ _ _
    rw [if_pos hclean]
    exact .refl _ _ _
  · obtain ⟨commitVersion, w₁, hreach, hsame⟩ :=
      reaches_commitVersionOf (F := F) (w := w) fuel cvs lock ht
    have hresolve := reaches_resolveLockWithRetry (F := F) (w := w₁) lock.key lock.lockVersion
      commitVersion
    refine ⟨_, _, _, (reaches_resolveExpired_dirty _ lock rest cvs clean hclean).trans
      (.bind hreach (.bind hresolve (.refl _ _ _))), ?_, ?_, fun key => ?_⟩
    · rw [Std.ExtTreeMap.getElem?_insert, if_neg (by simpa using ht)]
    · rw [Std.ExtTreeMap.getD_insert, if_neg (by simpa using ht)]
    · exact (if_neg (by simpa [Request.txn] using ht)).trans (hsame key)

lemma reaches_resolveExpired_append (fuel : ℕ) (before rest : List LockInfo)
    (ht : ∀ l ∈ before, l.lockVersion ≠ t) :
    ∀ w (cvs : Std.ExtTreeMap ℕ ℕ) (clean : Std.ExtTreeMap ℕ (List RegionVerId)),
      ∃ cvs' clean' w', (network F).Reaches (resolveExpired (fuel + 5) (before ++ rest) cvs clean) w
          (resolveExpired (fuel + 5) rest cvs' clean') w' ∧
        cvs'[t]? = cvs[t]? ∧ clean'.getD t [] = clean.getD t [] ∧ SameRecords t w w' := by
  induction before with
  | nil => exact fun w cvs clean => ⟨cvs, clean, w, .refl _ _ _, rfl, rfl, fun _ => rfl⟩
  | cons lock before ih =>
    intro w cvs clean
    rw [List.forall_mem_cons] at ht
    obtain ⟨cvs₁, clean₁, w₁, h₁, hcvs₁, hclean₁, hw₁⟩ :=
      reaches_resolveExpired_cons (F := F) (w := w) fuel lock (before ++ rest) cvs clean ht.1
    obtain ⟨cvs₂, clean₂, w₂, h₂, hcvs₂, hclean₂, hw₂⟩ := ih ht.2 w₁ cvs₁ clean₁
    exact ⟨cvs₂, clean₂, w₂, h₁.trans h₂, hcvs₂.trans hcvs₁, hclean₂.trans hclean₁,
      fun key => (hw₂ key).trans (hw₁ key)⟩

/-- The first lock of a transaction not met before: its primary is rolled back. -/
lemma reaches_rolledback (fuel : ℕ) (lock : LockInfo) (rest : List LockInfo)
    (cvs : Std.ExtTreeMap ℕ ℕ) (clean : Std.ExtTreeMap ℕ (List RegionVerId))
    (hcvs : cvs[lock.lockVersion]? = none) (hclean : clean.getD lock.lockVersion [] = [])
    (hlock : (w.tikv lock.primaryLock lock.lockVersion).isLocked = true) :
    ∃ p w', (network F).Reaches (resolveExpired (fuel + 5) (lock :: rest) cvs clean) w p w' ∧
      w'.tikv lock.primaryLock lock.lockVersion = .rolledback := by
  have hversion : commitVersionOf (fuel + 5) cvs lock =
      cleanup (fuel + 5) lock.primaryLock lock.lockVersion := by
    rw [commitVersionOf, hcvs]
  have hcleanup := reaches_cleanup (F := F) (w := w) fuel lock.primaryLock lock.lockVersion
  rw [← hversion] at hcleanup
  refine ⟨_, _, (reaches_resolveExpired_dirty _ lock rest cvs clean (by simp [hclean])).trans
    (.bind hcleanup (.refl _ _ _)), ?_⟩
  · cases hrec : w.tikv lock.primaryLock lock.lockVersion with
    | locked l => simp [Tikv.effect, Request.txn, recordStep, hrec, TxnRecord.rollback]
    | _ =>
      rw [hrec] at hlock
      cases hlock

end Path

/-- **A transaction with a locked primary is safe exactly if none of its locks is expired**: one
is enough to roll it back, since the cleanup of the primary it names asks for nothing else. -/
theorem resolveSafe_iff {locks : List LockInfo} (pk : Key) (hpk : (w.tikv pk t).isLocked = true)
    (hnamed : ∀ l ∈ locks, l.lockVersion = t → l.primaryLock = pk)
    (hinflight : ∀ x ∈ w.inflight, ¬ RollsBack t x.2) :
    ResolveSafe locks ts t w ↔ ∀ l ∈ locks, l.lockVersion = t → isExpired ts l = false := by
  refine ⟨fun hsafe l hl hlt => ?_, resolveSafe_of_not_expired hinflight⟩
  by_contra hexp
  rw [Bool.not_eq_false] at hexp
  have hmem : l ∈ locks.filter fun l => isExpired ts l := List.mem_filter.mpr ⟨hl, hexp⟩
  -- The first expired lock of `t`, with the locks of other transactions before it.
  obtain ⟨first, hfind⟩ : ∃ first,
      (locks.filter fun l => isExpired ts l).find? (fun l => l.lockVersion = t) = some first :=
    Option.isSome_iff_exists.mp (List.find?_isSome.mpr ⟨l, hmem, by simpa using hlt⟩)
  obtain ⟨hfirst, before, after, hsplit, hbefore⟩ := List.find?_eq_some_iff_append.mp hfind
  have hfirst_mem : first ∈ locks := (List.mem_filter.mp (List.mem_of_find?_eq_some hfind)).1
  obtain rfl : first.lockVersion = t := by simpa using hfirst
  have hprimary : first.primaryLock = pk := hnamed first hfirst_mem rfl
  obtain ⟨cvs, clean, w₁, hpassed, hcvs, hclean, hsame⟩ :=
    reaches_resolveExpired_append (F := fun r => ¬ RollsBack first.lockVersion r) 0 before
      (first :: after) (fun l hl => by simpa using hbefore l hl) w ∅ ∅
  obtain ⟨p, w', hreach, hrolled⟩ := reaches_rolledback 0 first after cvs clean
    (hcvs.trans (by simp)) (hclean.trans (by simp)) (by rw [hsame, hprimary]; exact hpk)
  rw [← hsplit] at hpassed
  obtain ⟨tr, hsteps, hrun⟩ := hpassed.trans hreach
  refine hsafe 5 tr _ w' (steps_resolveLocks_iff.mpr (hsteps.bind_left _)) (.answered rfl hrun)
    pk ?_ (hprimary ▸ hrolled)
  intro hnone
  rw [hnone] at hpk
  cases hpk

/-! ## Transactions that should be safe -/

/-- An async-commit transaction all of whose locks are present: it is committed. -/
def AsyncCommitted (s : Tikv) (t : ℕ) (pk : Key) : Prop :=
  ∃ ttl op value secondaries,
    s pk t = .locked ⟨pk, ttl, .prewrite op value true, secondaries⟩ ∧
      ∀ k ∈ secondaries, (s k t).isPrewritten = true

/-- A transaction whose primary lock has not expired at `ts`. -/
def PrimaryAlive (s : Tikv) (t : ℕ) (pk : Key) (ts : ℕ) : Prop :=
  ∃ lock, s pk t = .locked lock ∧ (physical ts : ℤ) - physical t < lock.ttl

/-- **A committed async-commit transaction is safe from a reader** exactly if none of the locks
of it that the reader met is expired. -/
theorem asyncCommitted_resolveSafe_iff (locks : List LockInfo) (ts t : ℕ) (pk : Key) (w : World)
    (hcommitted : AsyncCommitted w.tikv t pk)
    (hnamed : ∀ l ∈ locks, l.lockVersion = t → l.primaryLock = pk)
    (hinflight : ∀ x ∈ w.inflight, ¬ RollsBack t x.2) :
    ResolveSafe locks ts t w ↔ ∀ l ∈ locks, l.lockVersion = t → isExpired ts l = false := by
  obtain ⟨ttl, op, value, secondaries, hpk, -⟩ := hcommitted
  exact resolveSafe_iff pk (by rw [hpk]; rfl) hnamed hinflight

/-- **A transaction with a live primary lock is safe from a reader** exactly if none of the locks
of it that the reader met is expired: the TTL of the primary does not help. -/
theorem primaryAlive_resolveSafe_iff (locks : List LockInfo) (ts t : ℕ) (pk : Key) (w : World)
    (halive : PrimaryAlive w.tikv t pk ts)
    (hnamed : ∀ l ∈ locks, l.lockVersion = t → l.primaryLock = pk)
    (hinflight : ∀ x ∈ w.inflight, ¬ RollsBack t x.2) :
    ResolveSafe locks ts t w ↔ ∀ l ∈ locks, l.lockVersion = t → isExpired ts l = false := by
  obtain ⟨lock, hpk, -⟩ := halive
  exact resolveSafe_iff pk (by rw [hpk]; rfl) hnamed hinflight

/-- A server on which the transaction that started at 10 has locked its primary `[1]`, with a TTL
that heartbeats have extended, and its secondary `[2]`. -/
def heartbeatedWorld (useAsyncCommit : Bool) : World where
  tikv key t :=
    if t = 10 then
      if key = ⟨[1]⟩ then
        .locked ⟨⟨[1]⟩, 20000, .prewrite .put [7] useAsyncCommit, [⟨[2]⟩]⟩
      else if key = ⟨[2]⟩ then .locked ⟨⟨[1]⟩, 3000, .prewrite .put [8] useAsyncCommit, []⟩
      else .absent
    else .absent
  inflight := []

/-- The secondary lock, as a reader meets it. -/
def metSecondary (useAsyncCommit : Bool) : LockInfo :=
  ⟨⟨[2]⟩, ⟨[1]⟩, 10, 3000, .put, useAsyncCommit, 0, []⟩

/-- A timestamp `ms` milliseconds after the epoch. -/
def timestampAt (ms : ℕ) : ℕ := ms * 2 ^ 18

/-- Five seconds on, a reader of the secondary undoes the acknowledged commit. -/
theorem reader_undoes_asyncCommit :
    AsyncCommitted (heartbeatedWorld true).tikv 10 ⟨[1]⟩ ∧
      ¬ ResolveSafe [metSecondary true] (timestampAt 5000) 10 (heartbeatedWorld true) :=
  ⟨⟨20000, .put, [7], [⟨[2]⟩], rfl, by decide⟩,
    (resolveSafe_iff ⟨[1]⟩ rfl (by decide) (by simp [heartbeatedWorld])).not.mpr (by decide)⟩

/-- Two seconds on, it does not. -/
theorem reader_keeps_asyncCommit :
    ResolveSafe [metSecondary true] (timestampAt 2000) 10 (heartbeatedWorld true) :=
  (asyncCommitted_resolveSafe_iff _ _ 10 ⟨[1]⟩ _ ⟨20000, .put, [7], [⟨[2]⟩], rfl, by decide⟩
    (by decide) (by simp [heartbeatedWorld])).mpr (by decide)

/-- Five seconds on, a reader of the secondary kills the transaction, whose primary lock lives
for another fifteen. -/
theorem reader_kills_live_transaction :
    PrimaryAlive (heartbeatedWorld false).tikv 10 ⟨[1]⟩ (timestampAt 5000) ∧
      ¬ ResolveSafe [metSecondary false] (timestampAt 5000) 10 (heartbeatedWorld false) :=
  ⟨⟨_, rfl, by decide⟩,
    (resolveSafe_iff ⟨[1]⟩ rfl (by decide) (by simp [heartbeatedWorld])).not.mpr (by decide)⟩

/-- Two seconds on, it does not. -/
theorem reader_keeps_live_transaction :
    ResolveSafe [metSecondary false] (timestampAt 2000) 10 (heartbeatedWorld false) :=
  (primaryAlive_resolveSafe_iff _ _ 10 ⟨[1]⟩ _ ⟨_, rfl, by decide⟩ (by decide)
    (by simp [heartbeatedWorld])).mpr (by decide)

end TikvClient
