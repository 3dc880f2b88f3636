import Kafkrs.Lib.Bytes

/-! The envelope that travels from the wire through the WAL into segments, and the resolved
per-topic settings that the actors of a partition read. Offsets are unbounded integers here;
`PartitionWriter.onProduce` checks their 64-bit range where the source adds to them. -/
namespace Kafkrs

open Lib (Bytes)

/-- The WAL/wire envelope. An empty key stands for "no key". -/
structure Record where
  offset : Int
  timestampNs : Int64
  schemaId : UInt32
  key : Bytes
  value : Bytes
  deriving DecidableEq, Repr

/-- Bytes a record counts for in the group-commit and segment thresholds. -/
def Record.size (r : Record) : Nat := r.value.length + r.key.length

/-- A record before offset assignment. Timestamp 0 asks the broker to stamp it. -/
structure IncomingRecord where
  schemaId : UInt32
  key : Bytes
  value : Bytes
  timestampNs : Int64
  deriving DecidableEq, Repr

/-- Effective settings of a partition after merging topic overrides over broker defaults. -/
structure ResolvedTopicConfig where
  segmentSizeBytes : Nat
  segmentSealTimeMs : Nat
  maxKeySizeBytes : Nat
  maxValueSizeBytes : Nat
  groupCommitTimeMs : Nat
  groupCommitSizeBytes : Nat
  groupCommitRecordCount : Nat
  maxFetchWaitMs : Nat
  retentionMs : Int
  retentionBytes : Int
  deriving DecidableEq, Repr

/-- Upper limit on one wire frame, hence on the bytes of any one produced record. -/
def maxFrameSize : Nat := 4 * 1024 * 1024

def i64Max : Int := 2 ^ 63 - 1

end Kafkrs
