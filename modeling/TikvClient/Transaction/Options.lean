import TikvClient.Common.Errors

/-!
# Timestamps, backoffs, transaction options

The numeric and configuration data of a transaction.  A timestamp is its `version` (the `u64`
PD encodes it as); sums on versions saturate at `u64::MAX` as the code writes them.

A `Backoff` is kept as what decides *whether* a request is retried — its kind and its attempt
counters.  How long a retry sleeps is left out.
-/

namespace TikvClient

open Proto

/-! ## Timestamps -/

/-- `u64::MAX`. -/
def u64Max : ℕ := 2 ^ 64 - 1

def saturatingAdd (a b : ℕ) : ℕ := min (a + b) u64Max

def saturatingMul (a b : ℕ) : ℕ := min (a * b) u64Max

/-- `a + b` in a `u64`.  With overflow checks, a sum that does not fit is a panic. -/
def addU64 (a b : ℕ) : Except Error ℕ :=
  if a + b ≤ u64Max then .ok (a + b) else .error (.panicked "attempt to add with overflow")

lemma addU64_of_le {a b : ℕ} (h : a + b ≤ u64Max) : addU64 a b = .ok (a + b) := if_pos h

/-- The physical part of a version, in milliseconds. -/
def physical (version : ℕ) : ℕ := version / 2 ^ 18

/-- `x as i64` for an unsigned `x`. -/
def asI64 (x : ℕ) : ℤ := Int.bmod x (2 ^ 64)

/-- `Timestamp::try_from_version`: the version 0 is no timestamp. -/
def tryFromVersion (version : ℕ) : Option ℕ :=
  if version = 0 then none else some version

/-! ## Backoffs -/

/-- **How often an operation may be retried.** -/
structure Backoff where
  /-- `BackoffKind::None`: never back off. -/
  isNone : Bool
  currentAttempts : ℕ
  maxAttempts : ℕ
deriving DecidableEq, Inhabited

namespace Backoff

def noBackoff : Backoff := ⟨true, 0, 0⟩

/-- A backoff that allows `attempts` retries, whatever its delays. -/
def attempts (attempts : ℕ) : Backoff := ⟨false, 0, attempts⟩

def defaultRegionBackoff : Backoff := attempts 10
def optimisticBackoff : Backoff := attempts 10
def pessimisticBackoff : Backoff := attempts 10

/-- `next_delay_duration`: the backoff after taking one more attempt, if there is one. -/
def nextDelay (b : Backoff) : Option Backoff :=
  if b.currentAttempts ≥ b.maxAttempts then none
  else if b.isNone then none
  else some { b with currentAttempts := b.currentAttempts + 1 }

end Backoff

/-! ## Options -/

/-- Optimistic, or pessimistic with its `for_update_ts`. -/
inductive TransactionKind where
  | optimistic
  | pessimistic (forUpdateTs : ℕ)
deriving DecidableEq, Inhabited

structure RetryOptions where
  regionBackoff : Backoff
  lockBackoff : Backoff
deriving DecidableEq, Inhabited

/-- **Options for configuring a transaction**, as far as the write path reads them. -/
structure TransactionOptions where
  kind : TransactionKind
  tryOnePc : Bool
  asyncCommit : Bool
  readOnly : Bool
  retryOptions : RetryOptions
  assertionLevel : AssertionLevel
  /-- In milliseconds. -/
  maxCommitTsSafeWindow : ℕ
  commitWaitUntilTso : Option ℕ
  /-- `HeartbeatOption::is_auto_heartbeat`. -/
  autoHeartbeat : Bool
  /-- The `min_flush_keys` of the pipelined protocol, when it is enabled. -/
  pipelined : Option ℕ
deriving DecidableEq, Inhabited

namespace TransactionOptions

def newOptimistic : TransactionOptions where
  kind := .optimistic
  tryOnePc := false
  asyncCommit := false
  readOnly := false
  retryOptions := ⟨.defaultRegionBackoff, .optimisticBackoff⟩
  assertionLevel := .off
  maxCommitTsSafeWindow := 2000
  commitWaitUntilTso := none
  autoHeartbeat := true
  pipelined := none

def newPessimistic : TransactionOptions :=
  { newOptimistic with
    kind := .pessimistic 0
    retryOptions := ⟨.defaultRegionBackoff, .pessimisticBackoff⟩ }

def isPessimistic (o : TransactionOptions) : Bool :=
  match o.kind with
  | .pessimistic _ => true
  | .optimistic => false

def isPipelined (o : TransactionOptions) : Bool := o.pipelined.isSome

def pushForUpdateTs (o : TransactionOptions) (ts : ℕ) : TransactionOptions :=
  match o.kind with
  | .optimistic => { o with kind := .pessimistic ts }
  | .pessimistic old => { o with kind := .pessimistic (max old ts) }

/-- The checks `validate` makes on the modelled options. -/
def validate (o : TransactionOptions) : Except Error Unit :=
  match o.pipelined with
  | none => .ok ()
  | some minFlushKeys =>
    if o.isPessimistic then
      .error (.invalidPipelinedTransaction
        "pipelined transactions are only supported for optimistic transactions")
    else if o.tryOnePc || o.asyncCommit then
      .error (.invalidPipelinedTransaction
        "pipelined transactions cannot enable 1PC or async-commit")
    else if minFlushKeys = 0 then
      .error (.invalidPipelinedTransaction "min_flush_keys must be > 0")
    else .ok ()

end TransactionOptions

inductive TransactionStatus where
  | readOnly
  | active
  | committed
  | startedCommit
  | rolledback
  | startedRollback
  | dropped
deriving DecidableEq, Inhabited

/-! ## The committer's record -/

/-- **What the two-phase commit of a transaction works on.**  `undetermined` is a local of
`commit_primary_checked` here, since nothing else reads it. -/
structure Committer where
  primaryKey : Option Key
  prewriteMutations : List Proto.Mutation
  commitKeys : List Key
  startVersion : ℕ
  options : TransactionOptions
  writeSize : ℕ
deriving DecidableEq, Inhabited

end TikvClient
