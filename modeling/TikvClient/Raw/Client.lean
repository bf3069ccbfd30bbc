import TikvClient.Kv.Keyspace
import TikvClient.Request.Plan

/-!
# The raw client

The operations of `RawClient` over ranges of keys: `delete_range`, `checksum` and the scans; and the
plans of the requests for keys.

**Two ways over the regions.**  Deleting and checksumming are plans: the range is sharded and the
shards are sent concurrently.  A scan is a loop of the client: it asks the region of the current
key, goes on with the end key of that region, and stops when the limit or the end of the range is
reached.

**Integers.**  The limit of a scan is a `u32`; the number of pairs of a response is subtracted from
it and an underflow panics, as it does with overflow checks.
-/

namespace TikvClient

open Proto

/-! ## Requests -/

inductive ColumnFamily where
  | default
  | lock
  | write
deriving DecidableEq

/-- The name a request carries. -/
def ColumnFamily.name : ColumnFamily → String
  | .default => "default"
  | .lock => "lock"
  | .write => "write"

def maybeSetCf (cf : Option ColumnFamily) : String :=
  match cf with
  | some cf => cf.name
  | none => ""

def newRawDeleteRangeRequest (range : BoundRange) (cf : Option ColumnFamily) :
    RawDeleteRangeRequest where
  startKey := range.intoKeys.1
  endKey := range.intoKeys.2.getD .empty
  cf := maybeSetCf cf

/-- `KeyRange::from(range)`. -/
def Proto.KeyRange.ofBoundRange (range : BoundRange) : KeyRange :=
  ⟨range.intoKeys.1, range.intoKeys.2.getD .empty⟩

def newRawChecksumRequest (range : BoundRange) : RawChecksumRequest :=
  ⟨.crc64Xor, [.ofBoundRange range]⟩

/-- In a reverse scan the keys change places. -/
def newRawScanRequest (range : BoundRange) (limit : ℕ) (keyOnly reverse : Bool)
    (cf : Option ColumnFamily) : RawScanRequest :=
  let startKey := range.intoKeys.1
  let endKey := range.intoKeys.2.getD .empty
  if reverse then ⟨endKey, startKey, limit, keyOnly, reverse, maybeSetCf cf⟩
  else ⟨startKey, endKey, limit, keyOnly, reverse, maybeSetCf cf⟩

/-! ## Plans -/

/-- The errors of a response that reports one as text (`has_str_error!`). -/
def strErrors (error : String) : Option (List Error) :=
  if error.isEmpty then none else some [.kvError error]

/-- Requests for one key (`shardable_key!`), whose error is a text. -/
def rawKeyPlan {R Resp : Type} (keyOf : R → Key) (withKey : R → Key → R)
    (send : Region → R → AsyncResult Resp) (error : Resp → String)
    (regionError : Resp → Option RegionError) : ShardedPlan R (List Key) Resp where
  shards r := regionStreamForKeys id [keyOf r]
  applyShard r shard := withKey r (shard.getLast?.getD .empty)
  applyStore _ r := r
  execute := send
  keyErrors resp := strErrors (error resp)
  regionError := regionError

def rawGetPlan : ShardedPlan RawGetRequest (List Key) RawGetResponse :=
  rawKeyPlan (·.key) (fun r key => { r with key }) (fun region r => Async.rawRpc region (.get r))
    (·.error) (·.regionError)

def rawGetKeyTtlPlan : ShardedPlan RawGetRequest (List Key) RawGetKeyTtlResponse :=
  rawKeyPlan (·.key) (fun r key => { r with key })
    (fun region r => Async.rawRpc region (.getKeyTtl r)) (·.error) (·.regionError)

def rawPutPlan : ShardedPlan RawPutRequest (List Key) RawWriteResponse :=
  rawKeyPlan (·.key) (fun r key => { r with key }) (fun region r => Async.rawRpc region (.put r))
    (·.error) (·.regionError)

def rawDeletePlan : ShardedPlan RawDeleteRequest (List Key) RawWriteResponse :=
  rawKeyPlan (·.key) (fun r key => { r with key }) (fun region r => Async.rawRpc region (.delete r))
    (·.error) (·.regionError)

def rawCasPlan : ShardedPlan RawCasRequest (List Key) RawCasResponse :=
  rawKeyPlan (·.key) (fun r key => { r with key }) (fun region r => Async.rawRpc region (.cas r))
    (·.error) (·.regionError)

def rawBatchGetPlan : ShardedPlan RawBatchGetRequest (List Key) RawBatchGetResponse where
  shards r := shardsByRegion id r.keys
  applyShard r shard := { r with keys := shard }
  applyStore _ r := r
  execute region r := Async.rawRpc region (.batchGet r)
  keyErrors resp := Error.extractErrors (resp.pairs.filterMap (·.error))
  regionError := RawBatchGetResponse.regionError

def rawKvRequestBatchSize : ℕ := 16 * 1024

/-- The pairs are sharded with their times to live. -/
def rawBatchPutPlan : ShardedPlan RawBatchPutRequest (List (KvPair × ℕ)) RawWriteResponse where
  shards r := batchedShards (·.1.key) (fun kv => kv.1.key.len + kv.1.value.length)
    (fun _ batch => batch) rawKvRequestBatchSize (r.pairs.zip r.ttls)
  applyShard r shard := { r with pairs := shard.unzip.1, ttls := shard.unzip.2 }
  applyStore _ r := r
  execute region r := Async.rawRpc region (.batchPut r)
  keyErrors resp := strErrors resp.error
  regionError := RawWriteResponse.regionError

def rawBatchDeletePlan : ShardedPlan RawBatchDeleteRequest (List Key) RawWriteResponse where
  shards r := batchedShards id Key.len (fun _ batch => batch) rawKvRequestBatchSize r.keys
  applyShard r shard := { r with keys := shard }
  applyStore _ r := r
  execute region r := Async.rawRpc region (.batchDelete r)
  keyErrors resp := strErrors resp.error
  regionError := RawWriteResponse.regionError

/-- `RawDeleteRangeRequest` is a forward range request (`shardable_range!`). -/
def rawDeleteRangePlan (fuel : ℕ) :
    ShardedPlan RawDeleteRangeRequest (Key × Key) RawDeleteRangeResponse where
  shards r := regionStreamForRange fuel (r.startKey, r.endKey)
  applyShard r shard := { r with startKey := shard.1, endKey := shard.2 }
  applyStore _ r := r
  execute region r := Async.rawRpc region (.deleteRange r)
  keyErrors resp := strErrors resp.error
  regionError := RawDeleteRangeResponse.regionError

/-- Only the first range of a `RawChecksumRequest` is sharded. -/
def rawChecksumPlan (fuel : ℕ) :
    ShardedPlan RawChecksumRequest (Key × Key) RawChecksumResponse where
  shards r :=
    match r.ranges with
    | [] => .ret (.ok [])
    | range :: _ => regionStreamForRange fuel (range.startKey, range.endKey)
  applyShard r shard := { r with ranges := [⟨shard.1, shard.2⟩] }
  applyStore _ r := r
  execute region r := Async.rawRpc region (.checksum r)
  keyErrors resp := strErrors resp.error
  regionError := RawChecksumResponse.regionError

/-- The result of `checksum`. -/
structure RawChecksum where
  crc64Xor : UInt64
  totalKvs : ℕ
  totalBytes : ℕ
deriving DecidableEq

namespace RawChecksum

def zero : RawChecksum := ⟨0, 0, 0⟩

def add (sum : RawChecksum) (resp : RawChecksumResponse) : RawChecksum where
  crc64Xor := sum.crc64Xor ^^^ resp.checksum
  totalKvs := saturatingAdd sum.totalKvs resp.totalKvs
  totalBytes := saturatingAdd sum.totalBytes resp.totalBytes

/-- `Collect`, of responses without errors. -/
def merge (leaves : List (RawChecksumRequest × RawChecksumResponse)) : RawChecksum :=
  leaves.foldl (fun sum leaf => sum.add leaf.2) zero

end RawChecksum

/-! ## The client -/

structure RawClient where
  cf : Option ColumnFamily
  backoff : Backoff
  atomic : Bool
  keyspace : Keyspace
deriving DecidableEq

def maxRawKvScanLimit : ℕ := 10240

namespace RawClient

/-- A range that ends before it starts, by its keys. -/
def isInverted (keys : Key × Option Key) : Bool :=
  match keys.2 with
  | some endKey => decide (endKey ≤ keys.1)
  | none => false

def deleteRange (client : RawClient) (fuel : ℕ) (range : BoundRange) : AsyncResult Unit :=
  if client.atomic then .ret (.error .unsupportedMode)
  else
    let range := range.encodeKeyspace client.keyspace .raw
    if isInverted range.intoKeys then .ret (.ok ())
    else
      ((rawDeleteRangePlan fuel).retryMultiRegion false fuel
        (newRawDeleteRangeRequest range client.cf) client.backoff).andThen fun results =>
      .ret ((extractError results).map fun _ => ())

def checksum (client : RawClient) (fuel : ℕ) (range : BoundRange) : AsyncResult RawChecksum :=
  let range := range.encodeKeyspace client.keyspace .raw
  if isInverted range.intoKeys then .ret (.ok .zero)
  else
    ((rawChecksumPlan fuel).retryMultiRegion false fuel (newRawChecksumRequest range)
      client.backoff).andThen fun results =>
    .ret ((collectError results).map RawChecksum.merge)

/-! ### Scans -/

/-- What one step of a scan asks for (`ScanInnerArgs`, without the backoff). -/
structure ScanArgs where
  startKey : Key
  endKey : Option Key
  limit : ℕ
  keyOnly : Bool
  reverse : Bool
deriving DecidableEq

/-- `retryable_scan`: the answer of the region of the start key, and the end key of that region. -/
def retryableScan (client : RawClient) (args : ScanArgs) :
    ℕ → Backoff → AsyncResult (Option RawScanResponse × Key)
  | 0, _ => .stuck
  | fuel + 1, backoff =>
    (Async.regionForKey args.startKey).andThen fun region =>
    -- `store_for_id`
    (Async.regionForId region.verId.id).andThen fun store =>
    (Async.mapRegionToStore store).andThen fun _ =>
    (Async.rawRpc store (.scan (newRawScanRequest (.ofKeysOption (args.startKey, args.endKey))
      args.limit args.keyOnly args.reverse client.cf))).andThen fun (resp : RawScanResponse) =>
    match resp.regionError with
    | none => .ret (.ok (some resp, region.endKey))
    | some e =>
      (handleRegionError e store).andThen fun status =>
      if status then retryableScan client args fuel backoff
      else
        match backoff.nextDelay with
        | some backoff => retryableScan client args fuel backoff
        | none => .ret (.error (.regionError e))

/-- The loop of `scan_inner`, with what it still may return and what it has found. -/
def scanLoop (client : RawClient) (endKey : Option Key) (keyOnly reverse : Bool)
    (retryFuel : ℕ) : ℕ → Key → ℕ → List KvPair → AsyncResult (List KvPair)
  | 0, _, _, _ => .stuck
  | fuel + 1, currentKey, currentLimit, result =>
    if currentLimit = 0 then .ret (.ok result)
    else
      (client.retryableScan ⟨currentKey, endKey, currentLimit, keyOnly, reverse⟩ retryFuel
        client.backoff).andThen fun (res, nextKey) =>
      let kvs := (res.map RawScanResponse.kvs).getD []
      -- `current_limit -= kvs.len() as u32`
      if currentLimit < kvs.length % 2 ^ 32 then
        .ret (.error (.panicked "attempt to subtract with overflow"))
      else
        let currentLimit := currentLimit - kvs.length % 2 ^ 32
        let result := result ++ kvs
        if endKey.any (· ≤ nextKey) then .ret (.ok result)
        else client.scanLoop endKey keyOnly reverse retryFuel fuel nextKey currentLimit result

/-- `truncate_keyspace` of a pair. -/
def truncatePair (keyspace : Keyspace) (pair : KvPair) : KvPair :=
  { pair with key := pair.key.truncateKeyspace keyspace }

def scanInner (client : RawClient) (fuel : ℕ) (range : BoundRange) (limit : ℕ)
    (keyOnly reverse : Bool) : AsyncResult (List KvPair) :=
  if maxRawKvScanLimit < limit then
    .ret (.error (.maxScanLimitExceeded limit maxRawKvScanLimit))
  else
    let keys := (range.encodeKeyspace client.keyspace .raw).intoKeys
    (client.scanLoop keys.2 keyOnly reverse fuel fuel keys.1 limit []).andThen fun result =>
    .ret (.ok ((result.take limit).map (truncatePair client.keyspace)))

def scan (client : RawClient) (fuel : ℕ) (range : BoundRange) (limit : ℕ) :
    AsyncResult (List KvPair) :=
  client.scanInner fuel range limit false false

def scanReverse (client : RawClient) (fuel : ℕ) (range : BoundRange) (limit : ℕ) :
    AsyncResult (List KvPair) :=
  client.scanInner fuel range limit false true

end RawClient

end TikvClient
