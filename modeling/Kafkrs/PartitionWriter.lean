import Kafkrs.Lib.Dir
import Kafkrs.Lib.Numbered
import Kafkrs.Record

/-! The partition writer actor. A message handler that awaits, or that touches the disk more
than once, is cut into phases at those points: other actors may run, and the process may
crash, between any two of them. The disk effects of a phase are applied in `Partition`. -/
namespace Kafkrs

open Lib

/-- A sealed batch handed from the writer to the uploader. -/
structure SealedBatch where
  records : List Record
  baseOffset : Int
  lastOffset : Int
  baseTimestampNs : Int64
  lastTimestampNs : Int64
  deriving DecidableEq, Repr

def SealedBatch.ofRecords (base : Int) (first : Record) (rest : List Record) : SealedBatch :=
  let last := rest.getLast?.getD first
  { records := first :: rest
    baseOffset := base
    lastOffset := last.offset
    baseTimestampNs := first.timestampNs
    lastTimestampNs := last.timestampNs }

structure ProduceResponse where
  baseOffset : Int
  lastOffset : Int
  hwm : Int
  deriving DecidableEq, Repr

/-- `commit_records`: the response a request of `n` records builds from the acked value. -/
def commitRecords (n : Nat) (hwm : Int) : ProduceResponse := ⟨hwm - n + 1, hwm, hwm⟩

/-- An acknowledged request: the records stored for it and what its client was told. -/
structure Produced where
  stored : List Record
  response : ProduceResponse
  deriving DecidableEq, Repr

inductive LocateResult where
  | hwm (offset : Int)
  | inActiveBatch
  | inFlight
  | belowInFlight
  deriving DecidableEq, Repr

namespace PartitionWriter

inductive Phase where
  /-- Constructed, its WAL file not opened yet. -/
  | starting
  /-- At the `select!`, ready for a message. -/
  | recv
  /-- Entering `flush_commit`. -/
  | commit
  /-- Entering `seal_and_handoff`. -/
  | seal
  /-- Sending the sealed batch to the uploader. -/
  | handoff (batch : SealedBatch)
  /-- Opening the WAL file of the next segment. -/
  | openNext
  /-- Acknowledged a shutdown. -/
  | stopped
  deriving DecidableEq, Repr

end PartitionWriter

structure PartitionWriter where
  cfg : ResolvedTopicConfig
  nextOffset : Int
  segmentBase : Int
  active : List Record
  activeBytes : Nat
  pending : List Record
  /-- One entry per waiting request: the records it put into `pending`. -/
  pendingAcks : List (List Record)
  pendingFirstArrival : Bool
  /-- Base offset in the name of the open WAL file. -/
  wal : Int
  inFlight : Dir (List Record)
  phase : PartitionWriter.Phase
  stopping : Bool
  /-- Requests acknowledged by this writer so far. -/
  produced : List Produced

namespace PartitionWriter

def new (cfg : ResolvedTopicConfig) (startOffset : Int) (recovered : List Record) :
    PartitionWriter :=
  let segmentBase := (recovered.head?.map (·.offset)).getD startOffset
  { cfg := cfg
    nextOffset := startOffset
    segmentBase := segmentBase
    active := recovered
    activeBytes := (recovered.map Record.size).sum
    pending := []
    pendingAcks := []
    pendingFirstArrival := false
    wal := segmentBase
    inFlight := ∅
    phase := .starting
    stopping := false
    produced := [] }

def hwm (w : PartitionWriter) : Int := w.nextOffset - 1

/-- Offsets and broker timestamps of one request; `now i` is the clock read for record `i`. -/
def stamp (now : Nat → Int64) (next : Int) : List IncomingRecord → List Record
  | [] => []
  | inc :: rest =>
    { offset := next
      timestampNs := if inc.timestampNs ≠ 0 then inc.timestampNs else now 0
      schemaId := inc.schemaId
      key := inc.key
      value := inc.value } :: stamp (fun i => now (i + 1)) (next + 1) rest

/-- `none` when the offset counter would overflow, where the source panics. -/
def onProduce (w : PartitionWriter) (incoming : List IncomingRecord) (now : Nat → Int64) :
    Option PartitionWriter :=
  if w.nextOffset + incoming.length ≤ i64Max then
    let records := stamp now w.nextOffset incoming
    let pending := w.pending ++ records
    let pendingBytes := (pending.map Record.size).sum
    some { w with
      nextOffset := w.nextOffset + incoming.length
      pending := pending
      pendingAcks := w.pendingAcks ++ [records]
      pendingFirstArrival := true
      phase := if w.cfg.groupCommitRecordCount ≤ pending.length ∨
          w.cfg.groupCommitSizeBytes ≤ pendingBytes then .commit else .recv }
  else none

/-- `flush_commit` up to the threshold test; `pending` has just been appended and synced. -/
def flushCommit (w : PartitionWriter) : PartitionWriter :=
  if w.pending.isEmpty then { w with phase := if w.stopping then .seal else .recv }
  else
    let activeBytes := w.activeBytes + (w.pending.map Record.size).sum
    { w with
      pending := []
      pendingAcks := []
      pendingFirstArrival := false
      active := w.active ++ w.pending
      activeBytes := activeBytes
      produced := w.produced ++
        w.pendingAcks.map (fun stored => ⟨stored, commitRecords stored.length (w.nextOffset - 1)⟩)
      phase := if w.cfg.segmentSizeBytes ≤ activeBytes ∨ w.stopping then .seal else .recv }

/-- Where control goes after `seal_and_handoff` returns. -/
def resume (w : PartitionWriter) : Phase := if w.stopping then .stopped else .recv

/-- `seal_and_handoff` up to its send. -/
def sealActive (w : PartitionWriter) : PartitionWriter :=
  match w.active with
  | [] => { w with phase := w.resume }
  | first :: rest =>
    { w with
      active := []
      activeBytes := 0
      inFlight := w.inFlight.insert first.offset (first :: rest)
      phase := .handoff (SealedBatch.ofRecords first.offset first rest) }

/-- The rest of `seal_and_handoff`: the next segment's WAL file has been opened. -/
def openNext (w : PartitionWriter) : PartitionWriter :=
  { w with segmentBase := w.nextOffset, wal := w.nextOffset, phase := w.resume }

def onDurable (w : PartitionWriter) (base : Int) : PartitionWriter :=
  { w with inFlight := w.inFlight.erase base }

def locate (w : PartitionWriter) (fromOffset : Int) : LocateResult :=
  if fromOffset > w.hwm then .hwm w.hwm
  else
    let below :=
      match w.inFlight.keys.head? with
      | some earliest => if fromOffset ≥ earliest then .inFlight else .belowInFlight
      | none => .belowInFlight
    match w.active.head? with
    | some first => if fromOffset ≥ first.offset then .inActiveBatch else below
    | none => if fromOffset = w.hwm + 1 then .hwm w.hwm else below

def readActive (w : PartitionWriter) (fromOffset : Int) (maxRecords : Nat) : List Record :=
  (w.active.filter (fun r => decide (fromOffset ≤ r.offset))).take maxRecords

/-- The records are pending, and their commit may be due. -/
theorem onProduce_some {w w' : PartitionWriter} {incoming : List IncomingRecord} {now : Nat → Int64}
    (stored : w.onProduce incoming now = some w') :
    w.nextOffset + incoming.length ≤ i64Max ∧ ∃ phase, (phase = .commit ∨ phase = .recv) ∧
      w' = { w with
        nextOffset := w.nextOffset + incoming.length
        pending := w.pending ++ stamp now w.nextOffset incoming
        pendingAcks := w.pendingAcks ++ [stamp now w.nextOffset incoming]
        pendingFirstArrival := true
        phase := phase } := by
  simp only [onProduce] at stored
  split at stored
  next room =>
    refine ⟨room, _, ?_, (Option.some.inj stored).symm⟩
    split
    · exact .inl rfl
    · exact .inr rfl
  · cases stored

theorem stamp_length (now : Nat → Int64) (next : Int) (incoming : List IncomingRecord) :
    (stamp now next incoming).length = incoming.length := by
  induction incoming generalizing now next with
  | nil => rfl
  | cons inc rest ih => simp [stamp, ih]

theorem stamp_numbered (now : Nat → Int64) (next : Int) (incoming : List IncomingRecord) :
    Numbered Record.offset next (stamp now next incoming) := by
  induction incoming generalizing now next with
  | nil => trivial
  | cons inc rest ih => exact ⟨rfl, ih _ _⟩

/-- Stamping keeps keys and values. -/
theorem stamp_payload {now : Nat → Int64} {next : Int} {incoming : List IncomingRecord} {r : Record}
    (member : r ∈ stamp now next incoming) :
    ∃ inc ∈ incoming, r.key = inc.key ∧ r.value = inc.value := by
  induction incoming generalizing now next with
  | nil => simp [stamp] at member
  | cons inc rest ih =>
    rcases List.mem_cons.mp member with rfl | later
    · exact ⟨inc, by simp, rfl, rfl⟩
    · obtain ⟨other, inside, same⟩ := ih later
      exact ⟨other, by simp [inside], same⟩

end PartitionWriter
end Kafkrs
