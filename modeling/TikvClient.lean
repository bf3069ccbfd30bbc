import TikvClient.Transaction.OnePc
import TikvClient.Transaction.Resolver
import TikvClient.Transaction.Rollback
import TikvClient.Transaction.Scan
import TikvClient.Pd.Routing
import TikvClient.Transaction.LatchProgress
import TikvClient.Transaction.LatchStale
import TikvClient.Transaction.Retries
import TikvClient.Raw.ScanReverse
import TikvClient.Transaction.CleanupComplete
import TikvClient.Transaction.Fallback
import TikvClient.Transaction.EmptyCommit
import TikvClient.Transaction.LockRecords
import TikvClient.Transaction.PessimisticInsert
import TikvClient.Pd.TimestampOrder
import TikvClient.Pd.TimestampWakeup
import TikvClient.Store.BatchFaithful
import TikvClient.Transaction.LockRegions
import TikvClient.Pd.GroupRanges
import TikvClient.Transaction.ScanRanges
import TikvClient.Transaction.FlushedRange
import TikvClient.Transaction.CommitMessages
import TikvClient.Common.Delays
import TikvClient.Common.Timestamp
import TikvClient.Pd.Retry
import TikvClient.Request.Batches
import TikvClient.Kv.EpochNotMatch
import TikvClient.Request.StaleRead
