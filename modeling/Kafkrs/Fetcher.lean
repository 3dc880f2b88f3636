import Kafkrs.Partition

/-! The fetcher. A fetch talks to the partition writer in up to three messages and to the object
store in two reads; between any two of them the partition moves on. -/
namespace Kafkrs

open Lib

structure FetchRequest where
  fromOffset : Int
  maxRecords : Nat
  maxWaitMs : Nat
  deriving DecidableEq, Repr

inductive FetchError where
  | unknownTopic
  | unknownPartition
  | offsetOutOfRange
  | brokerNotReady
  deriving DecidableEq, Repr

structure FetchResponse where
  records : List Record
  hwm : Int
  deriving DecidableEq, Repr

namespace Fetcher

inductive Phase where
  /-- Sending the first `Locate`. -/
  | locate
  /-- Subscribed to the tail, until it advances, lags or times out. -/
  | waiting
  /-- Sending `Locate` again after the wait. -/
  | relocate
  | readActive
  /-- `read_object_store`, the manifest GET; `inFlight` turns its errors into empty answers. -/
  | readManifest (inFlight : Bool)
  /-- `read_object_store`, the segment GET. -/
  | readSegment (seg : SegmentEntry) (hwm : Int) (inFlight : Bool)
  | done (result : Except FetchError FetchResponse)
  deriving DecidableEq

end Fetcher

structure Fetch where
  req : FetchRequest
  phase : Fetcher.Phase

namespace Fetcher

def start (req : FetchRequest) : Fetch :=
  ⟨req, if req.fromOffset < 0 then .done (.error .offsetOutOfRange) else .locate⟩

def failed (inFlight : Bool) (error : FetchError) : Phase :=
  .done (if inFlight then .ok ⟨[], -1⟩ else .error error)

def selected (req : FetchRequest) (records : List Record) : List Record :=
  (records.filter (fun r => decide (req.fromOffset ≤ r.offset))).take req.maxRecords

def located (req : FetchRequest) : LocateResult → Phase
  | .hwm hwm => if req.maxWaitMs = 0 then .done (.ok ⟨[], hwm⟩) else .waiting
  | .inActiveBatch => .readActive
  | .inFlight => .readManifest true
  | .belowInFlight => .readManifest false

def relocated : LocateResult → Phase
  | .inActiveBatch => .readActive
  | .hwm hwm => .done (.ok ⟨[], hwm⟩)
  | .inFlight | .belowInFlight => .readManifest false

def activeRead (req : FetchRequest) (w : PartitionWriter) : FetchResponse :=
  let records := w.readActive req.fromOffset req.maxRecords
  ⟨records, (records.getLast?.map (·.offset)).getD (req.fromOffset - 1)⟩

def manifestRead (req : FetchRequest) (manifest : Manifest) (inFlight : Bool) : Phase :=
  match manifest.segmentForOffset req.fromOffset with
  | none => failed inFlight .offsetOutOfRange
  | some seg => .readSegment seg (manifest.lastUploadedOffset.getD (-1)) inFlight

def segmentRead (req : FetchRequest) (objects : Dir (List Record)) (seg : SegmentEntry) (hwm : Int)
    (inFlight : Bool) : Phase :=
  match objects[seg.baseOffset]? with
  | none => failed inFlight .brokerNotReady
  | some records => .done (.ok ⟨selected req records, hwm⟩)

def advance (w : PartitionWriter) (store : Store) (f : Fetch) : Phase :=
  match f.phase with
  | .locate => located f.req (w.locate f.req.fromOffset)
  | .waiting => .relocate
  | .relocate => relocated (w.locate f.req.fromOffset)
  | .readActive => .done (.ok (activeRead f.req w))
  | .readManifest inFlight => manifestRead f.req store.manifest inFlight
  | .readSegment seg hwm inFlight => segmentRead f.req store.objects seg hwm inFlight
  | .done result => .done result

def asks : Phase → Bool
  | .locate | .relocate | .readActive => true
  | _ => false

/-- A writer inside a handler leaves a message waiting; one that has stopped never answers. -/
def step (w : PartitionWriter) (store : Store) (f : Fetch) : Option Fetch :=
  match f.phase with
  | .done _ => none
  | _ =>
    if asks f.phase then
      match w.phase with
      | .recv => some { f with phase := advance w store f }
      | .stopped => some { f with phase := .done (.error .brokerNotReady) }
      | _ => none
    else some { f with phase := advance w store f }

/-- A partition and one fetch on it. A crash takes the fetch with it. -/
structure State where
  partition : Partition.State
  fetch : Option Fetch

inductive Action where
  | partition (action : Partition.Action)
  | begin (req : FetchRequest)
  | fetch

def joint (env : Partition.Externals) (action : Action) (s : State) : Option State :=
  match action with
  | .partition action =>
    (Partition.step env action s.partition).map fun next =>
      ⟨next, if next.live.isSome then s.fetch else none⟩
  | .begin req =>
    match s.partition.live with
    | some l => if l.writer.phase = .starting then none else some ⟨s.partition, some (start req)⟩
    | none => none
  | .fetch =>
    match s.partition.live, s.fetch with
    | some l, some f =>
      (step l.writer s.partition.disk.store f).map fun next => ⟨s.partition, some next⟩
    | _, _ => none

def machine (env : Partition.Externals) : Machine State Action :=
  ⟨⟨Partition.fresh, none⟩, joint env⟩

def alone (w : PartitionWriter) (store : Store) : Nat → Fetch → Fetch
  | 0, f => f
  | n + 1, f => alone w store n { f with phase := advance w store f }

/-- Where a fetch ends when nothing else moves; it has no more than five steps. -/
def fetchNow (w : PartitionWriter) (store : Store) (req : FetchRequest) : Phase :=
  (alone w store 5 (start req)).phase

end Fetcher
end Kafkrs
