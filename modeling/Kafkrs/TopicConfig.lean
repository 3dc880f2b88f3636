import Kafkrs.Record
import Mathlib.Tactic.Common

/-! Per-topic overrides: their validation, their merge with an alter's patch, and the settings
they resolve to over the broker's defaults. `usize` is taken to be 64 bits wide. -/
namespace Kafkrs

inductive DiskType where
  | nvme
  | ssd
  | rotational
  deriving DecidableEq, Repr

structure GroupCommitProfile where
  timeMs : UInt64
  sizeBytes : UInt64
  recordCount : UInt64
  deriving DecidableEq, Repr

def DiskType.groupCommitProfile : DiskType → GroupCommitProfile
  | .nvme => ⟨5, 64 * 1024, 256⟩
  | .ssd => ⟨15, 256 * 1024, 1024⟩
  | .rotational => ⟨50, 1024 * 1024, 4096⟩

structure TopicConfigOverrides where
  segmentSizeBytes : Option UInt64 := none
  segmentSealTimeMs : Option UInt64 := none
  maxKeySizeBytes : Option UInt32 := none
  maxValueSizeBytes : Option UInt32 := none
  groupCommitTimeMs : Option UInt64 := none
  groupCommitSizeBytes : Option UInt64 := none
  groupCommitRecordCount : Option UInt64 := none
  maxFetchWaitMs : Option UInt64 := none
  retentionMs : Option Int64 := none
  retentionBytes : Option Int64 := none
  deriving DecidableEq, Repr

def defaultSegmentSizeBytes : UInt64 := 128 * 1024 * 1024
def defaultSegmentSealTimeMs : UInt64 := 60000
def defaultMaxKeySizeBytes : UInt32 := 1024
def defaultMaxValueSizeBytes : UInt32 := 1024 * 1024
def defaultMaxFetchWaitMs : UInt64 := 60000
def defaultRetentionMs : Int64 := 7 * 24 * 3600 * 1000
def defaultRetentionBytes : Int64 := -1

def ResolvedTopicConfig.resolve (o : TopicConfigOverrides) (disk : DiskType) : ResolvedTopicConfig :=
  let p := disk.groupCommitProfile
  { segmentSizeBytes := (o.segmentSizeBytes.getD defaultSegmentSizeBytes).toNat
    segmentSealTimeMs := (o.segmentSealTimeMs.getD defaultSegmentSealTimeMs).toNat
    maxKeySizeBytes := (o.maxKeySizeBytes.getD defaultMaxKeySizeBytes).toNat
    maxValueSizeBytes := (o.maxValueSizeBytes.getD defaultMaxValueSizeBytes).toNat
    groupCommitTimeMs := (o.groupCommitTimeMs.getD p.timeMs).toNat
    groupCommitSizeBytes := (o.groupCommitSizeBytes.getD p.sizeBytes).toNat
    groupCommitRecordCount := (o.groupCommitRecordCount.getD p.recordCount).toNat
    maxFetchWaitMs := (o.maxFetchWaitMs.getD defaultMaxFetchWaitMs).toNat
    retentionMs := (o.retentionMs.getD defaultRetentionMs).toInt
    retentionBytes := (o.retentionBytes.getD defaultRetentionBytes).toInt }

structure ConfigValidationError where
  field : String
  value : String
  reason : String
  deriving DecidableEq, Repr

def ConfigValidationError.display (e : ConfigValidationError) : String :=
  "field `" ++ e.field ++ "` value `" ++ e.value ++ "` out of range: " ++ e.reason

namespace TopicConfigOverrides

/-- One `if let Some(v)` of `validate`. -/
def checkAtLeast (low : Int) (field reason : String) :
    Option Int → Except ConfigValidationError Unit
  | none => .ok ()
  | some v => if v < low then .error ⟨field, toString v, reason⟩ else .ok ()

def checkSegmentSizeBytes (o : TopicConfigOverrides) : Except ConfigValidationError Unit :=
  checkAtLeast 1 "segment_size_bytes"
    "must be >= 1 (0 would seal every record then re-seal instantly)"
    (o.segmentSizeBytes.map fun v => (v.toNat : Int))

def checkSegmentSealTimeMs (o : TopicConfigOverrides) : Except ConfigValidationError Unit :=
  checkAtLeast 1 "segment_seal_time_ms" "must be >= 1 (0 defeats seal-by-time)"
    (o.segmentSealTimeMs.map fun v => (v.toNat : Int))

def checkRetentionMs (o : TopicConfigOverrides) : Except ConfigValidationError Unit :=
  checkAtLeast (-1) "retention_ms" "must be >= -1 (-1 = never; other negatives are meaningless)"
    (o.retentionMs.map (·.toInt))

def checkRetentionBytes (o : TopicConfigOverrides) : Except ConfigValidationError Unit :=
  checkAtLeast (-1) "retention_bytes" "must be >= -1 (-1 = no cap; other negatives are meaningless)"
    (o.retentionBytes.map (·.toInt))

/-- Four of the ten fields are checked; the size limits are not among them. -/
def validate (o : TopicConfigOverrides) : Except ConfigValidationError Unit := do
  o.checkSegmentSizeBytes
  o.checkSegmentSealTimeMs
  o.checkRetentionMs
  o.checkRetentionBytes

/-- The fields an alter's patch sets replace those of the current overrides. -/
def merge (current patch : TopicConfigOverrides) : TopicConfigOverrides :=
  { segmentSizeBytes := patch.segmentSizeBytes.or current.segmentSizeBytes
    segmentSealTimeMs := patch.segmentSealTimeMs.or current.segmentSealTimeMs
    maxKeySizeBytes := patch.maxKeySizeBytes.or current.maxKeySizeBytes
    maxValueSizeBytes := patch.maxValueSizeBytes.or current.maxValueSizeBytes
    groupCommitTimeMs := patch.groupCommitTimeMs.or current.groupCommitTimeMs
    groupCommitSizeBytes := patch.groupCommitSizeBytes.or current.groupCommitSizeBytes
    groupCommitRecordCount := patch.groupCommitRecordCount.or current.groupCommitRecordCount
    maxFetchWaitMs := patch.maxFetchWaitMs.or current.maxFetchWaitMs
    retentionMs := patch.retentionMs.or current.retentionMs
    retentionBytes := patch.retentionBytes.or current.retentionBytes }

theorem validate_ok {o : TopicConfigOverrides} : o.validate = .ok () ↔
    o.checkSegmentSizeBytes = .ok () ∧ o.checkSegmentSealTimeMs = .ok () ∧
      o.checkRetentionMs = .ok () ∧ o.checkRetentionBytes = .ok () := by
  unfold validate
  cases o.checkSegmentSizeBytes with
  | error e => simp [bind, Except.bind]
  | ok _ => cases o.checkSegmentSealTimeMs with
    | error e => simp [bind, Except.bind]
    | ok _ => cases o.checkRetentionMs with
      | error e => simp [bind, Except.bind]
      | ok _ => simp [bind, Except.bind]

/-- An accepted patch over accepted overrides is accepted: no check reads two fields. -/
theorem validate_merge {current patch : TopicConfigOverrides} (old : current.validate = .ok ())
    (new : patch.validate = .ok ()) : (current.merge patch).validate = .ok () := by
  have either {α : Type} {f : α → Int} {low : Int} {field reason : String} {a b : Option α}
      (left : checkAtLeast low field reason (a.map f) = .ok ())
      (right : checkAtLeast low field reason (b.map f) = .ok ()) :
      checkAtLeast low field reason ((a.or b).map f) = .ok () := by
    cases a with
    | none => exact right
    | some v => exact left
  rw [validate_ok] at *
  exact ⟨either new.1 old.1, either new.2.1 old.2.1, either new.2.2.1 old.2.2.1,
    either new.2.2.2 old.2.2.2⟩

end TopicConfigOverrides
end Kafkrs
