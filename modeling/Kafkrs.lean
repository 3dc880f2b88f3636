import Kafkrs.Lib.Machine
import Kafkrs.Lib.Dir
import Kafkrs.Lib.Numbered
import Kafkrs.Recovery
import Kafkrs.Partition
import Kafkrs.RecoveredLog
import Kafkrs.Durability
import Kafkrs.FreshStart
import Kafkrs.Isolation
import Kafkrs.Agreement
import Kafkrs.FetchCoverage
import Kafkrs.GroupCommit
import Kafkrs.UploadLog
import Kafkrs.Produce
import Kafkrs.AlterConfig
import Kafkrs.Channels
import Kafkrs.RegistryRestart
import Kafkrs.Paths
import Kafkrs.Sweeping
import Kafkrs.Lib.Keyed
import Kafkrs.RegistryMap
import Kafkrs.InMemory
import Kafkrs.Location
import Kafkrs.Blocks
import Kafkrs.Faults
import Kafkrs.OldHandle
import Kafkrs.Handover
import Kafkrs.Quiescence
import Kafkrs.AutoCreate
import Kafkrs.EvictedRead
import Kafkrs.HighWaterMark
import Kafkrs.Lib.Proto
import Kafkrs.Wire
import Kafkrs.FetchFrame
import Kafkrs.Connection
import Kafkrs.Protocol
import Kafkrs.Conformance
import Kafkrs.WalScan
import Kafkrs.Eviction
import Kafkrs.Idempotence
import Kafkrs.RetentionKicks
import Kafkrs.Aging
import Kafkrs.Client
import Kafkrs.Payload
import Kafkrs.FrameStream
import Kafkrs.LongPoll
import Kafkrs.Session
import Kafkrs.Pairing
import Kafkrs.SegmentLookup
import Kafkrs.KeyStrings
import Kafkrs.Lib.Columnar
import Kafkrs.SegmentColumns
import Kafkrs.AbortHandles
import Kafkrs.BatchSize
import Kafkrs.Draining
import Kafkrs.StableReads
import Kafkrs.Replay
import Kafkrs.Accounting
import Kafkrs.Capacity
import Kafkrs.Corruption
import Kafkrs.Tail
import Kafkrs.Acknowledged
import Kafkrs.EndToEnd
import Kafkrs.Lib.Fields
import Kafkrs.WireFormat
import Kafkrs.Lib.AtomicFile
import Kafkrs.PendingDeletes
import Kafkrs.BrokerIdentity
import Kafkrs.Metrics
