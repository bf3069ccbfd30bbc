import TikvClient.Common.Errors
import TikvClient.Transaction.KeyFlags
import Mathlib.Order.Bounds.Defs

/-!
# The transaction buffer

`Buffer` is the caching layer of a transaction: per key it remembers what has been read
(`cached`, `locked`) or written (`put`, `del`, `insert`, `checkNotExist`), the key's flags and
the commit timestamp of a cached read.  The two tables — entries and flags — are *separate*
maps, updated by different branches of `put`, `insert` and `delete`: some go through
`insertEntry`, some overwrite the occupied entry in place.

**Reads are parametric in the fetch.**  `getOrElse`, `batchGetOrElse` and `scanAndFetch` take
the action that asks TiKV, in any monad, as the code takes a closure that returns a future.
-/

namespace TikvClient

open Proto

/-- A mutation of the user-facing API (`batch_mutate`). -/
inductive Mutation where
  | put (key : Key) (value : Value)
  | delete (key : Key)
deriving DecidableEq

/-- The key a user-facing mutation is about. -/
def Mutation.key : Mutation → Key
  | .put key _ => key
  | .delete key => key

/-- The state of a key in the buffer. -/
inductive BufferEntry where
  /-- Read from the server and not locked; `none` means there is no entry. -/
  | cached (value : Option Value)
  /-- Locked; the outer option says whether a read value is known. -/
  | locked (value : Option (Option Value))
  | put (value : Value)
  | del
  | insert (value : Value)
  | checkNotExist
deriving DecidableEq, Inhabited

/-- The value of a key as known by the buffer. -/
inductive MutationValue where
  | determined (value : Option Value)
  | undetermined
deriving DecidableEq

namespace BufferEntry

/-- The mutation an entry is lowered to; a cached read is not written. -/
def toProtoWithKey (key : Key) : BufferEntry → Option Proto.Mutation
  | .cached _ => none
  | .put v => some ⟨.put, key, v, .none⟩
  | .del => some ⟨.del, key, [], .none⟩
  | .locked _ => some ⟨.lock, key, [], .none⟩
  | .insert v => some ⟨.insert, key, v, .none⟩
  | .checkNotExist => some ⟨.checkNotExists, key, [], .none⟩

def getValue : BufferEntry → MutationValue
  | .cached v => .determined v
  | .put v => .determined (some v)
  | .del => .determined none
  | .locked none => .undetermined
  | .locked (some v) => .determined v
  | .insert v => .determined (some v)
  | .checkNotExist => .determined none

/-- The entries `insert_entry` may take as the transaction's primary key. -/
def setsPrimary : BufferEntry → Bool
  | .cached _ => false
  | .checkNotExist => false
  | _ => true

/-- The entries that are writes: `insert_entry` clears `PREWRITE_ONLY` for them. -/
def isWrite : BufferEntry → Bool
  | .put _ => true
  | .del => true
  | .insert _ => true
  | _ => false

end BufferEntry

/-- A value with its commit timestamp; 0 is unknown. -/
structure ValueEntry where
  value : Value
  commitTs : ℕ
deriving DecidableEq

/-- What the buffer knows of a key; `Local` is `written`. -/
inductive ReadValueState where
  | written (value : Option Value)
  | cached (value : Option Value)
  | undetermined
deriving DecidableEq

/-- **A caching layer which buffers reads and writes in a transaction.** -/
structure Buffer where
  primaryKey : Option Key
  entryMap : Std.ExtTreeMap Key BufferEntry
  /-- Whether an entry was removed from `entryMap`. -/
  entryRemoved : Bool
  keyFlagMap : Std.ExtTreeMap Key KeyFlags
  readCommitTs : Std.ExtTreeMap Key ℕ
  isPessimistic : Bool

namespace Buffer

def new (isPessimistic : Bool) : Buffer :=
  ⟨none, ∅, false, ∅, ∅, isPessimistic⟩

/-- Set the primary key if it is not set. -/
def primaryKeyOr (b : Buffer) (key : Key) : Buffer :=
  { b with primaryKey := b.primaryKey <|> some key }

def getFromMutations (b : Buffer) (key : Key) : MutationValue :=
  match b.entryMap[key]? with
  | some entry => entry.getValue
  | none => .undetermined

/-- The value of a key, `none` when the buffer does not know one. -/
def get (b : Buffer) (key : Key) : Option Value :=
  match b.getFromMutations key with
  | .determined value => value
  | .undetermined => none

/-! ## Flags -/

/-- The flags of a key; a key without a record has none. -/
def keyFlags (b : Buffer) (key : Key) : KeyFlags :=
  b.keyFlagMap.getD key KeyFlags.default

/-- Apply flag operations to a key, keeping no record for the default flags. -/
def updateKeyFlags (b : Buffer) (key : Key) (ops : List FlagsOp) : Buffer :=
  let next := ops.foldl KeyFlags.apply (b.keyFlags key)
  { b with
    keyFlagMap :=
      if next = KeyFlags.default then b.keyFlagMap.erase key
      else b.keyFlagMap.insert key next }

def setAssertion (b : Buffer) (key : Key) (assertion : Assertion) : Buffer :=
  b.updateKeyFlags key
    [match assertion with
      | .exist => .setAssertExist
      | .notExist => .setAssertNotExist
      | .none => .setAssertNone]

def assertionForKey (b : Buffer) (key : Key) : Assertion :=
  if (b.keyFlags key).hasAssertExist then .exist
  else if (b.keyFlags key).hasAssertNotExist then .notExist
  else .none

/-! ## Writes and locks -/

def insertEntry (b : Buffer) (key : Key) (entry : BufferEntry) : Buffer :=
  let b := if entry.setsPrimary then b.primaryKeyOr key else b
  let b := if entry.isWrite then b.updateKeyFlags key [.delPrewriteOnly] else b
  { b with entryMap := b.entryMap.insert key entry }

/-- Lock the given key if necessary: mutated keys need no lock, read ones do. -/
def lock (b : Buffer) (key : Key) : Buffer :=
  let b := b.primaryKeyOr key
  match b.entryMap[key]? with
  | none => { b with entryMap := b.entryMap.insert key (.locked none) }
  | some (.cached v) => { b with entryMap := b.entryMap.insert key (.locked (some v)) }
  | some _ => b

def unlock (b : Buffer) (key : Key) : Buffer :=
  match b.entryMap[key]? with
  | some (.locked (some v)) => { b with entryMap := b.entryMap.insert key (.cached v) }
  | some (.locked none) => { b with entryMap := b.entryMap.erase key, entryRemoved := true }
  | _ => b

/-- Put a value into the buffer.  An entry that already asserts absence stays an insertion,
and is overwritten in place: `insertEntry` does not run. -/
def put (b : Buffer) (key : Key) (value : Value) : Buffer :=
  match b.entryMap[key]? with
  | some (.insert _) => { b with entryMap := b.entryMap.insert key (.insert value) }
  | some .checkNotExist => { b with entryMap := b.entryMap.insert key (.insert value) }
  | _ => b.insertEntry key (.put value)

/-- Mark a value as an insertion; inserting over a deletion is a plain put, in place. -/
def insert (b : Buffer) (key : Key) (value : Value) : Buffer :=
  match b.entryMap[key]? with
  | some .del => { b with entryMap := b.entryMap.insert key (.put value) }
  | _ => b.insertEntry key (.insert value)

/-- Whether deleting over this entry only leaves the check that the key does not exist. -/
def deleteLeavesCheck (b : Buffer) (key : Key) : Bool :=
  !b.isPessimistic &&
    match b.entryMap[key]? with
    | some (.insert _) => true
    | some .checkNotExist => true
    | some (.put _) => (b.keyFlags key).hasPresumeKeyNotExists
    | _ => false

def delete (b : Buffer) (key : Key) : Buffer :=
  if b.deleteLeavesCheck key then
    { b with entryMap := b.entryMap.insert key .checkNotExist }.updateKeyFlags key
      [.setPrewriteOnly]
  else
    b.insertEntry key .del

def mutate (b : Buffer) : Mutation → Buffer
  | .put key value => b.put key value
  | .delete key => b.delete key

/-! ## The read cache -/

/-- The name `update_cache` gives an entry in its mismatch error. -/
def cacheMismatch (entryName : String) (key : Key) : Error :=
  .internalError s!"buffer cache mismatch (entry={entryName}, key_len={key.len})"

/-- Remember a value read from TiKV; a value that contradicts the entry is an error and
changes nothing. -/
def updateCache (b : Buffer) (key : Key) (value : Option Value) : Except Error Buffer :=
  match b.entryMap[key]? with
  | some (.locked none) =>
    .ok { b with entryMap := b.entryMap.insert key (.locked (some value)) }
  | none => .ok { b with entryMap := b.entryMap.insert key (.cached value) }
  | some (.cached v) => if value = v then .ok b else .error (cacheMismatch "cached" key)
  | some (.locked (some v)) =>
    if value = v then .ok b else .error (cacheMismatch "cached" key)
  | some (.put v) => if value = some v then .ok b else .error (cacheMismatch "put" key)
  | some .del => if value = none then .ok b else .error (cacheMismatch "del" key)
  | some (.insert v) => if value = some v then .ok b else .error (cacheMismatch "insert" key)
  | some .checkNotExist =>
    if value = none then .ok b else .error (cacheMismatch "check_not_exist" key)

/-- `update_cache` for each pair in turn; the pairs before the first mismatch stay cached. -/
def updateCaches (b : Buffer) : List (Key × Option Value) → Buffer × Except Error Unit
  | [] => (b, .ok ())
  | (key, value) :: rest =>
    match b.updateCache key value with
    | .ok b => b.updateCaches rest
    | .error e => (b, .error e)

def updateReadCache (b : Buffer) (key : Key) (value : Option Value) (commitTs : ℕ) :
    Except Error Buffer := do
  let b ← b.updateCache key value
  if value.isNone then
    return { b with readCommitTs := b.readCommitTs.erase key }
  else if commitTs ≠ 0 then
    return { b with readCommitTs := b.readCommitTs.insert key commitTs }
  else
    return b

/-- `update_read_cache` for each entry in turn. -/
def updateReadCaches (b : Buffer) : List (Key × ValueEntry) → Buffer × Except Error Unit
  | [] => (b, .ok ())
  | (key, entry) :: rest =>
    match b.updateReadCache key (some entry.value) entry.commitTs with
    | .ok b => b.updateReadCaches rest
    | .error e => (b, .error e)

def readValueState (b : Buffer) (key : Key) : ReadValueState :=
  match b.entryMap[key]? with
  | some (.put v) | some (.insert v) => .written (some v)
  | some .del | some .checkNotExist => .written none
  | some (.cached v) | some (.locked (some v)) => .cached v
  | some (.locked none) | none => .undetermined

/-- What a read with options finds in the buffer, if it need not fetch: mutations have no commit
timestamp, and a value that was cached without one is fetched again if it is asked for. -/
def knownEntry (b : Buffer) (key : Key) (needCommitTs : Bool) : Option (Option ValueEntry) :=
  match b.readValueState key with
  | .written value => some (value.map (⟨·, 0⟩))
  | .cached none => some none
  | .cached (some value) =>
    if !needCommitTs then some (some ⟨value, 0⟩)
    else (b.readCommitTs[key]?.filter (· ≠ 0)).map fun commitTs => some ⟨value, commitTs⟩
  | .undetermined => none

section Fetching

variable {m : Type → Type} [Monad m]

/-- A value from the buffer, or else from `f`, whose answer is cached. -/
def getOrElse (b : Buffer) (key : Key) (f : Key → m (Except Error (Option Value))) :
    m (Buffer × Except Error (Option Value)) :=
  match b.getFromMutations key with
  | .determined value => pure (b, .ok value)
  | .undetermined => do
    match ← f key with
    | .error e => return (b, .error e)
    | .ok value =>
      match b.updateCache key value with
      | .ok b => return (b, .ok value)
      | .error e => return (b, .error e)

/-- Values from the buffer for the keys it knows, from `f` for all the others. -/
def batchGetOrElse (b : Buffer) (keys : List Key)
    (f : List Key → m (Except Error (List KvPair))) : m (Buffer × Except Error (List KvPair)) := do
  let undeterminedKeys := keys.filter fun k => b.getFromMutations k = .undetermined
  let cachedResults := keys.filterMap fun k =>
    match b.getFromMutations k with
    | .determined (some v) => some ⟨k, v⟩
    | _ => none
  match ← f undeterminedKeys with
  | .error e => return (b, .error e)
  | .ok fetched =>
    match b.updateCaches (fetched.map fun p => (p.key, some p.value)) with
    | (b, .error e) => return (b, .error e)
    | (b, .ok _) => return (b, .ok (cachedResults ++ fetched))

/-- `get_or_else` for reads with options, which cache the commit timestamp too. -/
def getEntryOrElse (b : Buffer) (key : Key) (needCommitTs : Bool)
    (f : Key → m (Except Error (Option ValueEntry))) :
    m (Buffer × Except Error (Option ValueEntry)) :=
  match b.knownEntry key needCommitTs with
  | some entry => pure (b, .ok entry)
  | none => do
    match ← f key with
    | .error e => return (b, .error e)
    | .ok entry =>
      match b.updateReadCache key (entry.map (·.value)) (entry.elim 0 (·.commitTs)) with
      | .ok b => return (b, .ok entry)
      | .error e => return (b, .error e)

/-- The same for many keys; without a key to fetch, nothing is sent. -/
def batchGetEntriesOrElse (b : Buffer) (keys : List Key) (needCommitTs : Bool)
    (f : List Key → m (Except Error (List (Key × ValueEntry)))) :
    m (Buffer × Except Error (Std.ExtTreeMap Key ValueEntry)) := do
  let remoteKeys := keys.filter fun k => (b.knownEntry k needCommitTs).isNone
  let out : Std.ExtTreeMap Key ValueEntry := keys.foldl (fun out k =>
    match b.knownEntry k needCommitTs with
    | some (some entry) => out.insert k entry
    | _ => out) ∅
  if remoteKeys.isEmpty then
    return (b, .ok out)
  match ← f remoteKeys with
  | .error e => return (b, .error e)
  | .ok fetched =>
    match b.updateReadCaches fetched with
    | (b, .error e) => return (b, .error e)
    | (b, .ok _) => return (b, .ok (fetched.foldl (fun out p => out.insert p.1 p.2) out))

/-- The entries of a range as local puts and deletions override the fetched pairs. -/
def overlay (b : Buffer) (range : BoundRange) (fetched : List KvPair) :
    Std.ExtTreeMap Key Value :=
  let base : Std.ExtTreeMap Key Value := fetched.foldl (fun r p => r.insert p.key p.value) ∅
  (b.entryMap.toList.filter fun e => range.contains e.1).foldl
    (fun r e =>
      match e.2 with
      | .put v => r.insert e.1 v
      | .del => r.erase e.1
      | _ => r)
    base

/-- The map has had an entry: its tree has a root, even if it is empty now. -/
def hasRoot (b : Buffer) : Bool := b.entryRemoved || !b.entryMap.isEmpty

/-- Entries of a range fetched by `f` and combined with the local mutations. -/
def scanAndFetch (b : Buffer) (range : BoundRange) (limit : ℕ) (updateCache reverse : Bool)
    (f : BoundRange → ℕ → m (Except Error (List KvPair))) :
    m (Buffer × Except Error (List KvPair)) := do
  -- `self.entry_map.range(range.clone())`, which takes any range while the tree has no root
  if b.hasRoot && range.isInverted then
    return (b, .error (.panicked "range start is greater than range end in BTreeMap"))
  let deletedCount := (b.entryMap.toList.filter fun e =>
    range.contains e.1 && e.2 == .del).length
  -- `limit.saturating_add(deleted_count)` over `u32`
  let redundantLimit := min (limit + min deletedCount (2 ^ 32 - 1)) (2 ^ 32 - 1)
  match ← f range redundantLimit with
  | .error e => return (b, .error e)
  | .ok fetched =>
    let results := (b.overlay range fetched).toList
    let (b, cached) :=
      if updateCache then b.updateCaches (results.map fun e => (e.1, some e.2))
      else (b, .ok ())
    match cached with
    | .error e => return (b, .error e)
    | .ok _ =>
      let pairs := results.map fun e => (⟨e.1, e.2⟩ : KvPair)
      return (b, .ok ((if reverse then pairs.reverse else pairs).take limit))

end Fetching

/-! ## Lowering to mutations -/

/-- Lower one entry: a put on a key presumed absent becomes an insertion, and the assertion is
filled in unless assertions are off. -/
def lowerEntry (b : Buffer) (level : AssertionLevel) (key : Key) (entry : BufferEntry) :
    Option Proto.Mutation :=
  (entry.toProtoWithKey key).map fun pb =>
    let pb :=
      if pb.op = .put && (b.keyFlags key).hasPresumeKeyNotExists then { pb with op := .insert }
      else pb
    if level ≠ .off then { pb with assertion := b.assertionForKey key } else pb

/-- The buffered mutations, in key order. -/
def toProtoMutations (b : Buffer) (level : AssertionLevel) : List Proto.Mutation :=
  b.entryMap.toList.filterMap fun e => b.lowerEntry level e.1 e.2

/-- The mutation of one key. -/
def mutationForKey (b : Buffer) (key : Key) (level : AssertionLevel) : Option Proto.Mutation :=
  b.entryMap[key]?.bind fun entry => b.lowerEntry level key entry

/-- The number of bytes written. -/
def getWriteSize (b : Buffer) : ℕ :=
  (b.entryMap.toList.map fun e =>
    match e.2 with
    | .put v => v.length + e.1.len
    | .insert v => v.length + e.1.len
    | .del => e.1.len
    | _ => 0).sum

/-- The keys of the commit phase, as `commit` and `rollback` compute them from the lowered
mutations: no existence checks and no prewrite-only keys. -/
def commitKeys (b : Buffer) (mutations : List Proto.Mutation) : List Key :=
  (mutations.filter fun m =>
    m.op ≠ .checkNotExists && !(b.keyFlags m.key).hasPrewriteOnly).map (·.key)

end Buffer

end TikvClient
