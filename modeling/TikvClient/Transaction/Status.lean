import TikvClient.Transaction.Options

/-!
# The status of a transaction that is checked

What `CheckTxnStatus` says about the transaction of a lock (`requests::TransactionStatus`), and when
the answer may be kept for the other locks of the transaction.
-/

namespace TikvClient.Requests

open Proto

inductive TransactionStatusKind where
  | committed (commitTs : ℕ)
  | rolledBack
  | locked (ttl : ℕ) (lock : LockInfo)
deriving DecidableEq

/-- The kind of a status, from the commit version, the TTL and the lock of the response. -/
def TransactionStatusKind.of : ℕ → ℕ → Option LockInfo → TransactionStatusKind
  | commitVersion + 1, _, _ => .committed (commitVersion + 1)
  | 0, ttl, some lock => .locked ttl lock
  | 0, _, none => .rolledBack

structure TransactionStatus where
  kind : TransactionStatusKind
  action : Action
  /-- Available only when the kind is `locked`. -/
  isExpired : Bool
deriving DecidableEq

namespace TransactionStatus

def ofResponse (resp : CheckTxnStatusResponse) : TransactionStatus where
  kind := .of resp.commitVersion resp.lockTtl resp.lockInfo
  action := resp.action
  isExpired := false

def checkTtl (status : TransactionStatus) (current : ℕ) : TransactionStatus :=
  match status.kind with
  | .locked ttl lock =>
    if (physical current : ℤ) - physical lock.lockVersion ≥ asI64 ttl then
      { status with isExpired := true }
    else status
  | _ => status

/-- Whether the status is certain. -/
def isCacheable (status : TransactionStatus) : Bool :=
  match status.kind with
  | .rolledBack => true
  | .committed _ => true
  | .locked _ _ =>
    status.isExpired &&
      status.action ∈ [Action.noAction, .lockNotExistRollback, .ttlExpireRollback]

end TransactionStatus

end TikvClient.Requests
