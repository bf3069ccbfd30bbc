import TikvClient.Kv.Key

/-!
# Messages exchanged with TiKV

The part of the `kvrpcpb` and `errorpb` messages the clients read or write.
Timestamps, versions and TTLs are `ℕ` here: the client only compares them, adds to them with
saturation, and cuts them at the physical part (see `Common.Timestamp`).

**What is left out.**  Contexts, resource-control and tracing fields, and the fields no
modelled function looks at.  A `KeyError` is kept as the lock it may carry and the kind of the
remaining error; a region error as the case `handle_region_error` distinguishes.
-/

namespace TikvClient.Proto

/-! ## Mutations -/

/-- What a mutation does to its key. -/
inductive Op where
  | put
  | del
  | lock
  | insert
  | checkNotExists
  | pessimisticLock
deriving DecidableEq

/-- The existence a mutation asserts of its key. -/
inductive Assertion where
  | none
  | exist
  | notExist
deriving DecidableEq

/-- How strictly TiKV checks assertions. -/
inductive AssertionLevel where
  | off
  | fast
  | strict
deriving DecidableEq, Inhabited

/-- **A mutation** as it is sent to TiKV. -/
structure Mutation where
  op : Op
  key : Key
  value : Value
  assertion : Assertion
deriving DecidableEq

/-- The operations that leave a lock on their key (all but the pure existence check). -/
def Op.writesLock : Op → Bool
  | .checkNotExists => false
  | _ => true

/-! ## Errors inside responses -/

/-- A lock of another transaction, as a response reports it. -/
structure LockInfo where
  key : Key
  primaryLock : Key
  lockVersion : ℕ
  lockTtl : ℕ
  lockType : Op
  useAsyncCommit : Bool
  minCommitTs : ℕ
  secondaries : List Key
deriving DecidableEq

/-- The part of a `KeyError` other than the lock it may carry. -/
inductive KeyErrorKind where
  | writeConflict
  | deadlock
  | alreadyExist
  | assertionFailed
  | retryable
  | abort
  | commitTsTooLarge
  | txnNotFound
  | other
deriving DecidableEq

/-- An error TiKV reports about one key. -/
structure KeyError where
  locked : Option LockInfo
  kind : KeyErrorKind
deriving DecidableEq

/-- The region errors `handle_region_error` tells apart. -/
inductive RegionError where
  | notLeader (leader : Option ℕ)
  | storeNotMatch
  | epochNotMatch (currentRegions : List (ℕ × Option (ℕ × ℕ)))
  | regionNotFound
  | keyNotInRegion
  | staleCommand
  | serverIsBusy
  | maxTimestampNotSynced
  | readIndexNotReady
  | proposalInMergingMode
  | raftEntryTooLarge
  | dataIsNotReady
  | unknown
  /-- An error with a message only, as the client makes it. -/
  | withMessage (message : String)
deriving DecidableEq

/-! ## Requests -/

structure GetRequest where
  key : Key
  version : ℕ
  needCommitTs : Bool
deriving DecidableEq

structure BatchGetRequest where
  keys : List Key
  version : ℕ
  needCommitTs : Bool
deriving DecidableEq

/-- In a reverse scan the range is `[end_key, start_key)`. -/
structure ScanRequest where
  startKey : Key
  endKey : Key
  limit : ℕ
  keyOnly : Bool
  version : ℕ
  reverse : Bool
deriving DecidableEq

structure PrewriteRequest where
  mutations : List Mutation
  primaryLock : Key
  startVersion : ℕ
  lockTtl : ℕ
  forUpdateTs : ℕ
  /-- `pessimistic_actions`: one `DoPessimisticCheck` per mutation of the whole request. -/
  pessimisticChecks : ℕ
  txnSize : ℕ
  useAsyncCommit : Bool
  secondaries : List Key
  tryOnePc : Bool
  minCommitTs : ℕ
  maxCommitTs : ℕ
  assertionLevel : AssertionLevel
deriving DecidableEq

structure FlushRequest where
  mutations : List Mutation
  primaryKey : Key
  startTs : ℕ
  minCommitTs : ℕ
  generation : ℕ
  lockTtl : ℕ
  assertionLevel : AssertionLevel
deriving DecidableEq

structure CommitRequest where
  keys : List Key
  startVersion : ℕ
  commitVersion : ℕ
  /-- The proto field is empty when the client does not set it. -/
  primaryKey : Option Key
deriving DecidableEq

structure BatchRollbackRequest where
  keys : List Key
  startVersion : ℕ
deriving DecidableEq

structure PessimisticRollbackRequest where
  keys : List Key
  startVersion : ℕ
  forUpdateTs : ℕ
deriving DecidableEq

/-- How a pessimistic lock request queues on the server. -/
inductive WakeUpMode where
  | normal
  | forceLock
deriving DecidableEq

structure PessimisticLockRequest where
  mutations : List Mutation
  primaryLock : Key
  startVersion : ℕ
  lockTtl : ℕ
  forUpdateTs : ℕ
  isFirstLock : Bool
  waitTimeout : ℤ
  returnValues : Bool
  checkExistence : Bool
  lockOnlyIfExists : Bool
  wakeUpMode : WakeUpMode
  minCommitTs : ℕ
deriving DecidableEq

structure TxnHeartBeatRequest where
  primaryLock : Key
  startVersion : ℕ
  adviseLockTtl : ℕ
deriving DecidableEq

/-- `current_ts` is left at its default 0 by the client. -/
structure CleanupRequest where
  key : Key
  startVersion : ℕ
deriving DecidableEq

structure ResolveLockRequest where
  startVersion : ℕ
  commitVersion : ℕ
deriving DecidableEq

/-! ## Responses

Each response carries its region error and key errors; the other fields are the payload. -/

structure GetResponse where
  regionError : Option RegionError
  error : Option KeyError
  value : Value
  notFound : Bool
  commitTs : ℕ
deriving DecidableEq

/-- A pair of a read response: a value, or an error about its key. -/
structure PairResult where
  error : Option KeyError
  key : Key
  value : Value
  commitTs : ℕ
deriving DecidableEq

structure BatchGetResponse where
  regionError : Option RegionError
  error : Option KeyError
  pairs : List PairResult
deriving DecidableEq

structure ScanResponse where
  regionError : Option RegionError
  error : Option KeyError
  pairs : List PairResult
deriving DecidableEq

structure PrewriteResponse where
  regionError : Option RegionError
  errors : List KeyError
  minCommitTs : ℕ
  onePcCommitTs : ℕ
deriving DecidableEq

structure FlushResponse where
  regionError : Option RegionError
  errors : List KeyError
deriving DecidableEq

structure CommitResponse where
  regionError : Option RegionError
  error : Option KeyError
  commitVersion : ℕ
deriving DecidableEq

structure BatchRollbackResponse where
  regionError : Option RegionError
  error : Option KeyError
deriving DecidableEq

structure PessimisticRollbackResponse where
  regionError : Option RegionError
  errors : List KeyError
deriving DecidableEq

/-- What TiKV says about one key of a pessimistic lock request in force-lock mode. -/
inductive PessimisticLockKeyResultType where
  | lockResultNormal
  | lockResultLockedWithConflict
  | lockResultFailed
deriving DecidableEq

structure PessimisticLockKeyResult where
  resultType : PessimisticLockKeyResultType
  value : Value
  existence : Bool
deriving DecidableEq

structure PessimisticLockResponse where
  regionError : Option RegionError
  errors : List KeyError
  results : List PessimisticLockKeyResult
  values : List Value
  notFounds : List Bool
deriving DecidableEq

structure TxnHeartBeatResponse where
  regionError : Option RegionError
  error : Option KeyError
  lockTtl : ℕ
deriving DecidableEq

structure CleanupResponse where
  regionError : Option RegionError
  error : Option KeyError
  commitVersion : ℕ
deriving DecidableEq

structure ResolveLockResponse where
  regionError : Option RegionError
  error : Option KeyError
deriving DecidableEq

/-! ## The requests of the protocol, in one type -/

/-- **A request** the client sends to the store of a region. -/
inductive Request where
  | get (r : GetRequest)
  | batchGet (r : BatchGetRequest)
  | scan (r : ScanRequest)
  | prewrite (r : PrewriteRequest)
  | flush (r : FlushRequest)
  | commit (r : CommitRequest)
  | batchRollback (r : BatchRollbackRequest)
  | pessimisticRollback (r : PessimisticRollbackRequest)
  | pessimisticLock (r : PessimisticLockRequest)
  | txnHeartBeat (r : TxnHeartBeatRequest)
  | cleanup (r : CleanupRequest)
  | resolveLock (r : ResolveLockRequest)
deriving DecidableEq

/-- The response type of each request. -/
def Request.Response : Request → Type
  | .get _ => GetResponse
  | .batchGet _ => BatchGetResponse
  | .scan _ => ScanResponse
  | .prewrite _ => PrewriteResponse
  | .flush _ => FlushResponse
  | .commit _ => CommitResponse
  | .batchRollback _ => BatchRollbackResponse
  | .pessimisticRollback _ => PessimisticRollbackResponse
  | .pessimisticLock _ => PessimisticLockResponse
  | .txnHeartBeat _ => TxnHeartBeatResponse
  | .cleanup _ => CleanupResponse
  | .resolveLock _ => ResolveLockResponse

/-! ## The requests of the raw client -/

/-- `RawGetRequest` and `RawGetKeyTtlRequest`. -/
structure RawGetRequest where
  key : Key
  cf : String
deriving DecidableEq

structure RawGetResponse where
  regionError : Option RegionError
  error : String
  value : Value
  notFound : Bool
deriving DecidableEq

structure RawGetKeyTtlResponse where
  regionError : Option RegionError
  error : String
  ttl : ℕ
  notFound : Bool
deriving DecidableEq

structure RawBatchGetRequest where
  keys : List Key
  cf : String
deriving DecidableEq

structure RawBatchGetResponse where
  regionError : Option RegionError
  pairs : List PairResult
deriving DecidableEq

structure RawPutRequest where
  key : Key
  value : Value
  cf : String
  ttl : ℕ
  forCas : Bool
deriving DecidableEq

structure RawBatchPutRequest where
  pairs : List KvPair
  cf : String
  forCas : Bool
  ttls : List ℕ
deriving DecidableEq

structure RawDeleteRequest where
  key : Key
  cf : String
  forCas : Bool
deriving DecidableEq

structure RawBatchDeleteRequest where
  keys : List Key
  cf : String
  forCas : Bool
deriving DecidableEq

/-- The responses to `RawPut`, `RawBatchPut`, `RawDelete` and `RawBatchDelete`. -/
structure RawWriteResponse where
  regionError : Option RegionError
  error : String
deriving DecidableEq

structure RawCasRequest where
  key : Key
  value : Value
  previousNotExist : Bool
  previousValue : Value
  cf : String
deriving DecidableEq

structure RawCasResponse where
  regionError : Option RegionError
  error : String
  succeed : Bool
  previousNotExist : Bool
  previousValue : Value
deriving DecidableEq

structure RawScanRequest where
  startKey : Key
  endKey : Key
  limit : ℕ
  keyOnly : Bool
  reverse : Bool
  cf : String
deriving DecidableEq

structure RawScanResponse where
  regionError : Option RegionError
  kvs : List KvPair
deriving DecidableEq

structure RawDeleteRangeRequest where
  startKey : Key
  endKey : Key
  cf : String
deriving DecidableEq

structure RawDeleteRangeResponse where
  regionError : Option RegionError
  error : String
deriving DecidableEq

structure KeyRange where
  startKey : Key
  endKey : Key
deriving DecidableEq

inductive ChecksumAlgorithm where
  | crc64Xor
deriving DecidableEq

structure RawChecksumRequest where
  algorithm : ChecksumAlgorithm
  ranges : List KeyRange
deriving DecidableEq

structure RawChecksumResponse where
  regionError : Option RegionError
  error : String
  checksum : UInt64
  totalKvs : ℕ
  totalBytes : ℕ
deriving DecidableEq

/-- **A request of the raw client.** -/
inductive RawRequest where
  | get (r : RawGetRequest)
  | getKeyTtl (r : RawGetRequest)
  | batchGet (r : RawBatchGetRequest)
  | put (r : RawPutRequest)
  | batchPut (r : RawBatchPutRequest)
  | delete (r : RawDeleteRequest)
  | batchDelete (r : RawBatchDeleteRequest)
  | cas (r : RawCasRequest)
  | scan (r : RawScanRequest)
  | deleteRange (r : RawDeleteRangeRequest)
  | checksum (r : RawChecksumRequest)
deriving DecidableEq

def RawRequest.Response : RawRequest → Type
  | .get _ => RawGetResponse
  | .getKeyTtl _ => RawGetKeyTtlResponse
  | .batchGet _ => RawBatchGetResponse
  | .put _ | .batchPut _ | .delete _ | .batchDelete _ => RawWriteResponse
  | .cas _ => RawCasResponse
  | .scan _ => RawScanResponse
  | .deleteRange _ => RawDeleteRangeResponse
  | .checksum _ => RawChecksumResponse

/-! ## The requests of a garbage collection -/

structure ScanLockRequest where
  startKey : Key
  endKey : Key
  maxVersion : ℕ
  /-- 0 is no limit. -/
  limit : ℕ
deriving DecidableEq

structure ScanLockResponse where
  regionError : Option RegionError
  error : Option KeyError
  locks : List LockInfo
deriving DecidableEq

structure CheckTxnStatusRequest where
  primaryKey : Key
  lockTs : ℕ
  callerStartTs : ℕ
  currentTs : ℕ
  rollbackIfNotExist : Bool
  forceSyncCommit : Bool
  resolvingPessimisticLock : Bool
deriving DecidableEq

/-- What `CheckTxnStatus` did to the transaction. -/
inductive Action where
  | noAction
  | ttlExpireRollback
  | lockNotExistRollback
  | minCommitTsPushed
  | ttlExpirePessimisticRollback
  | lockNotExistDoNothing
deriving DecidableEq

structure CheckTxnStatusResponse where
  regionError : Option RegionError
  error : Option KeyError
  lockTtl : ℕ
  commitVersion : ℕ
  action : Action
  lockInfo : Option LockInfo
deriving DecidableEq

structure CheckSecondaryLocksRequest where
  keys : List Key
  startVersion : ℕ
deriving DecidableEq

structure CheckSecondaryLocksResponse where
  regionError : Option RegionError
  error : Option KeyError
  locks : List LockInfo
  commitTs : ℕ
deriving DecidableEq

/-- The outcome of a transaction: its commit version, or 0 if it is rolled back. -/
structure TxnInfo where
  txn : ℕ
  status : ℕ
deriving DecidableEq

/-- A `ResolveLockRequest` of which only `txn_infos` is set. -/
structure BatchResolveLockRequest where
  txnInfos : List TxnInfo
deriving DecidableEq

/-- **A request of a garbage collection.** -/
inductive GcRequest where
  | scanLock (r : ScanLockRequest)
  | checkTxnStatus (r : CheckTxnStatusRequest)
  | checkSecondaryLocks (r : CheckSecondaryLocksRequest)
  | batchResolveLock (r : BatchResolveLockRequest)
deriving DecidableEq

def GcRequest.Response : GcRequest → Type
  | .scanLock _ => ScanLockResponse
  | .checkTxnStatus _ => CheckTxnStatusResponse
  | .checkSecondaryLocks _ => CheckSecondaryLocksResponse
  | .batchResolveLock _ => ResolveLockResponse

end TikvClient.Proto
