import TikvClient.Core.Grants
import TikvClient.Request.RangeShard

/-!
# A server with locks

The server as a garbage collection sees it: the locks it holds, and what it answers to requests for
locks and to requests that resolve transactions.

**Time.**  Locks at or below the safepoint may go away at any moment, and may change without
becoming those of another transaction or of an async commit; none appear.  Whatever happens to newer
locks is left open, and so is what a request does whose response is an error or is lost.

**Regions.**  The layout may change all the time; what stays is that a version of a region is a
certain range of keys (`layout`).

**The context.**  The regions in which a transaction was resolved are remembered by the client in a
`ResolveLocksContext`, which is part of the state.
-/

namespace TikvClient

open Proto

/-! ## Locks -/

/-- **The locks of the server**, at most one for a key. -/
structure LockTable where
  lockAt : Key → Option LockInfo
  key_eq : ∀ k l, lockAt k = some l → l.key = k

/-- No locks at or below the safepoint appear. -/
def LockTable.Shrinks (safepoint : ℕ) (table table' : LockTable) : Prop :=
  ∀ k l, table'.lockAt k = some l → l.lockVersion ≤ safepoint →
    ∃ l₀, table.lockAt k = some l₀ ∧ l₀.lockVersion = l.lockVersion ∧
      (l.useAsyncCommit = true → l₀.useAsyncCommit = true)

/-- The lock is one that the request is about. -/
def Proto.ScanLockRequest.Wants (r : ScanLockRequest) (region : Region) (l : LockInfo) : Prop :=
  region.contains l.key = true ∧ InRange (r.startKey, r.endKey) l.key ∧ l.lockVersion ≤ r.maxVersion

/-- **`ScanLock` returns the first `limit` locks** of the range in the region, in the order of their
keys; all of them if the limit is 0. -/
structure ScansLocks (table : LockTable) (region : Region) (r : ScanLockRequest)
    (locks : List LockInfo) : Prop where
  sorted : locks.Pairwise fun l l' => l.key < l'.key
  wanted : ∀ l ∈ locks, table.lockAt l.key = some l ∧ r.Wants region l
  limited : r.limit = 0 ∨ locks.length ≤ r.limit
  first : ∀ k l, table.lockAt k = some l → r.Wants region l →
    l ∈ locks ∨ r.limit ≠ 0 ∧ locks.length = r.limit ∧ ∀ l' ∈ locks, l'.key < k

/-! ## The server -/

structure GcWorld where
  locks : LockTable
  /-- The regions in which a transaction is resolved. -/
  cleaned : List (ℕ × RegionVerId)

/-- A region as the layout has it. -/
def LaidOut (layout : RegionVerId → Key × Key) (region : Region) : Prop :=
  layout region.verId = (region.startKey, region.endKey)

/-- How a call may be answered, from one state to the next. -/
def LockAnswer (layout : RegionVerId → Key × Key) (w w' : GcWorld) : Answers
  | .regionForKey k, ans => ∀ region : Region, ans = .ok region →
      region.contains k = true ∧ LaidOut layout region
  | .gcRpc region (.scanLock r), ans => ∀ resp : ScanLockResponse, ans = .ok resp →
      resp.error = none → resp.regionError = none → ScansLocks w.locks region r resp.locks
  | .gcRpc region (.batchResolveLock r), ans => ∀ resp : ResolveLockResponse, ans = .ok resp →
      resp.error = none → resp.regionError = none → ∀ info ∈ r.txnInfos,
        ∀ k l, w'.locks.lockAt k = some l → region.contains k = true → l.lockVersion ≠ info.txn
  | .isRegionCleaned txnId region, ans => ans = decide ((txnId, region) ∈ w.cleaned)
  | _, _ => True

/-- What a call leaves in the context. -/
def cleanedAfter (cleaned : List (ℕ × RegionVerId)) : Call → List (ℕ × RegionVerId)
  | .saveCleanedRegion txnId region => (txnId, region) :: cleaned
  | _ => cleaned

/-- **The environment of a garbage collection** at a safepoint. -/
def lockServer (layout : RegionVerId → Key × Key) (safepoint : ℕ) : Env sig GcWorld where
  reply w c ans w' := w.locks.Shrinks safepoint w'.locks ∧ w'.cleaned = cleanedAfter w.cleaned c ∧
    LockAnswer layout w w' c ans
  dropped w cs w' := w.locks.Shrinks safepoint w'.locks ∧
    ∀ x ∈ w'.cleaned, x ∈ w.cleaned ∨ .saveCleanedRegion x.1 x.2 ∈ cs
  rely w w' := w.locks.Shrinks safepoint w'.locks ∧ w'.cleaned = w.cleaned

/-! ## Runs -/

variable {layout : RegionVerId → Key × Key} {safepoint : ℕ}

lemma LockTable.Shrinks.refl (table : LockTable) : table.Shrinks safepoint table :=
  fun _ l hl _ => ⟨l, hl, rfl, id⟩

lemma LockTable.Shrinks.trans {t₁ t₂ t₃ : LockTable} (h : t₁.Shrinks safepoint t₂)
    (h' : t₂.Shrinks safepoint t₃) : t₁.Shrinks safepoint t₃ := by
  intro k l hl hversion
  obtain ⟨l₂, hl₂, heq₂, hasync₂⟩ := h' k l hl hversion
  obtain ⟨l₁, hl₁, heq₁, hasync₁⟩ := h k l₂ hl₂ (heq₂ ▸ hversion)
  exact ⟨l₁, hl₁, heq₁.trans heq₂, fun hasync => hasync₁ (hasync₂ hasync)⟩

lemma shrinks_of_run {w w' : GcWorld} {tr : Trace}
    (h : (lockServer layout safepoint).Run w tr w') : w.locks.Shrinks safepoint w'.locks := by
  induction h with
  | refl w => exact .refl w.locks
  | rely hm _ ih | answered hm _ ih | dropped hm _ ih => exact hm.1.trans ih

end TikvClient
