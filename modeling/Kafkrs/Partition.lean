import Kafkrs.Lib.Crc32c
import Kafkrs.Lib.Machine
import Kafkrs.Recovery
import Kafkrs.Uploader

/-! One partition over any number of lives: WAL directory and object store survive a crash,
the actors do not. Client messages may reach the writer in any order, so its inbox is the
schedule itself; only completions, which come from the uploader through the forwarder, are
kept in a channel. Channels are unbounded: a full one delays a send but adds no behaviour. -/
namespace Kafkrs.Partition

open Lib Wal

/-- The third-party functions the model leaves open: the checksum and the Parquet writer. -/
structure Externals where
  crc32c : Bytes → UInt32
  segmentSize : List Record → Nat

structure Disk where
  wal : Recovery.WalDir
  store : Store

/-- The actors of a running broker, and the recovered segments not handed over yet. -/
structure Live where
  orphans : List (Int × List Record)
  writer : PartitionWriter
  uploader : Uploader
  durable : List Int

/-- What has happened so far; no step reads it. `log` holds every record an append has put
on disk, over all lives. -/
structure History where
  acked : List Record
  evicted : List Record
  log : List Record

structure State where
  disk : Disk
  live : Option Live
  history : History

inductive Action where
  /-- Recovery runs over the first files and the process crashes again. -/
  | interrupt (rounds : Nat)
  /-- `spawn_partition` recovers the partition and starts the uploader. -/
  | start (cfg : ResolvedTopicConfig)
  /-- `spawn_partition` sends one orphan segment to the uploader. -/
  | sendOrphan
  /-- `PartitionWriter::new` opens the WAL file of the active segment. -/
  | openWriter
  | produce (records : List IncomingRecord) (now : Nat → Int64)
  | commitTimeout
  | updateWriter (cfg : ResolvedTopicConfig)
  | segmentDurable
  | shutdownWriter
  /-- The writer goes on with the handler it is in. -/
  | writer
  | enqueue (msg : ControlMsg)
  | uploader (now : Int)
  /-- The process dies; an append in progress has put `cut` of its bytes on disk. -/
  | crash (cut : Nat)

/-- `OpenOptions::create(true).append(true)`. -/
def openFile (files : Recovery.WalDir) (base : Int) : Recovery.WalDir :=
  match files[base]? with
  | some _ => files
  | none => files.insert base []

/-- Bytes written through the open handle; a file removed meanwhile has no name to keep them. -/
def appendFile (files : Recovery.WalDir) (base : Int) (bytes : Bytes) : Recovery.WalDir :=
  match files[base]? with
  | some old => files.insert base (old ++ bytes)
  | none => files

section Steps

variable (env : Externals)

/-- The records an interrupted append was writing. -/
def appending (l : Live) : List Record :=
  if l.writer.phase = .commit then l.writer.pending else []

/-- `spawn_partition` after recovery: the orphans of non-empty files become upload messages. -/
def orphanBatch : Int × List Record → Option SealedBatch
  | (_, []) => none
  | (base, first :: rest) => some (SealedBatch.ofRecords base first rest)

theorem orphanBatch_some {orphan : Int × List Record} {batch : SealedBatch}
    (made : orphanBatch orphan = some batch) :
    ∃ base first rest, orphan = (base, first :: rest) ∧ batch = SealedBatch.ofRecords base first rest := by
  obtain ⟨base, records⟩ := orphan
  cases records with
  | nil => cases made
  | cons first rest => exact ⟨base, first, rest, rfl, (Option.some.inj made).symm⟩

def evictedRecords (st : Store) (evict : List SegmentEntry) : List Record :=
  evict.flatMap (fun seg => (st.objects[seg.baseOffset]?).getD [])

def writerStep (s : State) (l : Live) : Option State :=
  let w := l.writer
  match w.phase with
  | .commit =>
    some
      { disk := { s.disk with
          wal := if w.pending.isEmpty then s.disk.wal
            else appendFile s.disk.wal w.wal (encodeAll env.crc32c w.pending) }
        live := some { l with writer := w.flushCommit }
        history := { s.history with
          acked := s.history.acked ++ w.pending
          log := s.history.log ++ w.pending } }
  | .seal => some { s with live := some { l with writer := w.sealActive } }
  | .handoff batch =>
    some { s with live := some { l with
      writer := { w with phase := .openNext }
      uploader := { l.uploader with rx := l.uploader.rx ++ [.upload batch] } } }
  | .openNext =>
    some { s with
      disk := { s.disk with wal := openFile s.disk.wal w.nextOffset }
      live := some { l with writer := w.openNext } }
  | .starting | .recv | .stopped => none

def uploaderStep (now : Int) (s : State) (l : Live) : Option State :=
  (l.uploader.step env.segmentSize now .ok s.disk.store).map fun effect =>
    { disk := { s.disk with store := effect.store }
      live := some { l with uploader := effect.uploader, durable := l.durable ++ effect.durable }
      history := { s.history with
        evicted := s.history.evicted ++ evictedRecords s.disk.store effect.evicted } }

def liveStep (s : State) (l : Live) : Action → Option State
  | .sendOrphan =>
    match l.orphans with
    | [] => none
    | orphan :: rest =>
      (orphanBatch orphan).map fun batch =>
        { s with live := some { l with
          orphans := rest
          uploader := { l.uploader with rx := l.uploader.rx ++ [.upload batch] } } }
  | .openWriter =>
    if l.writer.phase = .starting ∧ l.orphans = [] then
      some { s with
        disk := { s.disk with wal := openFile s.disk.wal l.writer.segmentBase }
        live := some { l with writer := { l.writer with phase := .recv } } }
    else none
  | .produce records now =>
    if l.writer.phase = .recv ∧ records ≠ [] then
      (l.writer.onProduce records now).map fun w => { s with live := some { l with writer := w } }
    else none
  | .commitTimeout =>
    if l.writer.phase = .recv ∧ l.writer.pendingFirstArrival then
      some { s with live := some { l with writer := { l.writer with phase := .commit } } }
    else none
  | .updateWriter cfg =>
    if l.writer.phase = .recv then
      some { s with live := some { l with writer := { l.writer with cfg := cfg } } }
    else none
  | .segmentDurable =>
    match l.durable with
    | [] => none
    | base :: rest =>
      if l.writer.phase = .recv then
        some { s with
          disk := { s.disk with wal := s.disk.wal.erase base }
          live := some { l with writer := l.writer.onDurable base, durable := rest } }
      else none
  | .shutdownWriter =>
    if l.writer.phase = .recv then
      some { s with live := some { l with writer := { l.writer with phase := .commit, stopping := true } } }
    else none
  | .writer => writerStep env s l
  | .enqueue msg =>
    some { s with live := some { l with
      uploader := { l.uploader with rx := l.uploader.rx ++ [.control msg] } } }
  | .uploader now => uploaderStep env now s l
  | .crash cut =>
    some
      { disk := { s.disk with
          wal := appendFile s.disk.wal l.writer.wal ((encodeAll env.crc32c (appending l)).take cut) }
        live := none
        history := { s.history with
          log := s.history.log ++ fitting (encodeRecord env.crc32c) cut (appending l) } }
  | .interrupt _ | .start _ => none

def downStep (s : State) : Action → Option State
  | .interrupt rounds =>
    some { s with disk := { s.disk with
      wal := Recovery.interrupted env.crc32c s.disk.store.manifest rounds s.disk.wal } }
  | .start cfg =>
    let recovered := Recovery.recoverPartition env.crc32c s.disk.store.manifest s.disk.wal
    some { s with
      disk := { s.disk with wal := recovered.1 }
      live := some
        { orphans := recovered.2.orphanSegments
          writer := PartitionWriter.new cfg recovered.2.nextOffset recovered.2.activeRecords
          uploader := Uploader.new cfg
          durable := [] } }
  | _ => none

def step (action : Action) (s : State) : Option State :=
  match s.live with
  | some l => liveStep env s l action
  | none => downStep env s action

end Steps

/-- Only a partition that is down is started. -/
theorem down_of_start {env : Externals} {s next : State} {cfg : ResolvedTopicConfig}
    (booted : step env (.start cfg) s = some next) : s.live = none := by
  cases live : s.live with
  | none => rfl
  | some l =>
    simp only [step, live, liveStep] at booted
    cases booted

inductive Moved (env : Externals) (s : State) (l : Live) : Action → State → Prop
  | sendOrphan {orphan : Int × List Record} {rest : List (Int × List Record)} {batch : SealedBatch}
      (first : l.orphans = orphan :: rest) (made : orphanBatch orphan = some batch) :
      Moved env s l .sendOrphan { s with live := some { l with
        orphans := rest
        uploader := { l.uploader with rx := l.uploader.rx ++ [.upload batch] } } }
  | openWriter (starting : l.writer.phase = .starting) (sent : l.orphans = []) :
      Moved env s l .openWriter { s with
        disk := { s.disk with wal := openFile s.disk.wal l.writer.segmentBase }
        live := some { l with writer := { l.writer with phase := .recv } } }
  | produce {records : List IncomingRecord} {now : Nat → Int64} {w : PartitionWriter}
      (ready : l.writer.phase = .recv) (filled : records ≠ [])
      (stored : l.writer.onProduce records now = some w) :
      Moved env s l (.produce records now) { s with live := some { l with writer := w } }
  | commitTimeout (ready : l.writer.phase = .recv) (waiting : l.writer.pendingFirstArrival = true) :
      Moved env s l .commitTimeout
        { s with live := some { l with writer := { l.writer with phase := .commit } } }
  | updateWriter {cfg : ResolvedTopicConfig} (ready : l.writer.phase = .recv) :
      Moved env s l (.updateWriter cfg)
        { s with live := some { l with writer := { l.writer with cfg := cfg } } }
  | segmentDurable {base : Int} {rest : List Int} (first : l.durable = base :: rest)
      (ready : l.writer.phase = .recv) :
      Moved env s l .segmentDurable { s with
        disk := { s.disk with wal := s.disk.wal.erase base }
        live := some { l with writer := l.writer.onDurable base, durable := rest } }
  | shutdownWriter (ready : l.writer.phase = .recv) :
      Moved env s l .shutdownWriter
        { s with live := some { l with writer := { l.writer with phase := .commit, stopping := true } } }
  | commit (phase : l.writer.phase = .commit) :
      Moved env s l .writer
        { disk := { s.disk with
            wal := if l.writer.pending.isEmpty then s.disk.wal
              else appendFile s.disk.wal l.writer.wal (encodeAll env.crc32c l.writer.pending) }
          live := some { l with writer := l.writer.flushCommit }
          history := { s.history with
            acked := s.history.acked ++ l.writer.pending
            log := s.history.log ++ l.writer.pending } }
  | sealActive (phase : l.writer.phase = .seal) :
      Moved env s l .writer { s with live := some { l with writer := l.writer.sealActive } }
  | handoff {batch : SealedBatch} (phase : l.writer.phase = .handoff batch) :
      Moved env s l .writer { s with live := some { l with
        writer := { l.writer with phase := .openNext }
        uploader := { l.uploader with rx := l.uploader.rx ++ [.upload batch] } } }
  | openNext (phase : l.writer.phase = .openNext) :
      Moved env s l .writer { s with
        disk := { s.disk with wal := openFile s.disk.wal l.writer.nextOffset }
        live := some { l with writer := l.writer.openNext } }
  | enqueue {msg : ControlMsg} :
      Moved env s l (.enqueue msg) { s with live := some { l with
        uploader := { l.uploader with rx := l.uploader.rx ++ [.control msg] } } }
  | uploader {now : Int} {effect : Uploader.Effect}
      (stepped : l.uploader.step env.segmentSize now .ok s.disk.store = some effect) :
      Moved env s l (.uploader now)
        { disk := { s.disk with store := effect.store }
          live := some { l with
            uploader := effect.uploader, durable := l.durable ++ effect.durable }
          history := { s.history with
            evicted := s.history.evicted ++ evictedRecords s.disk.store effect.evicted } }
  | crash {cut : Nat} :
      Moved env s l (.crash cut)
        { disk := { s.disk with
            wal := appendFile s.disk.wal l.writer.wal ((encodeAll env.crc32c (appending l)).take cut) }
          live := none
          history := { s.history with
            log := s.history.log ++ fitting (encodeRecord env.crc32c) cut (appending l) } }

theorem liveStep_moved {env : Externals} {s next : State} {l : Live} {action : Action}
    (taken : liveStep env s l action = some next) : Moved env s l action next := by
  cases action with
  | sendOrphan =>
    simp only [liveStep] at taken
    split at taken
    next => cases taken
    next first =>
      obtain ⟨batch, made, rfl⟩ := Option.map_eq_some_iff.mp taken
      exact .sendOrphan first made
  | openWriter =>
    simp only [liveStep] at taken
    split at taken
    next ready =>
      cases taken
      exact .openWriter ready.1 ready.2
    next => cases taken
  | produce records now =>
    simp only [liveStep] at taken
    split at taken
    next ready =>
      obtain ⟨w, stored, rfl⟩ := Option.map_eq_some_iff.mp taken
      exact .produce ready.1 ready.2 stored
    next => cases taken
  | commitTimeout =>
    simp only [liveStep] at taken
    split at taken
    next ready =>
      cases taken
      exact .commitTimeout ready.1 ready.2
    next => cases taken
  | updateWriter cfg =>
    simp only [liveStep] at taken
    split at taken
    next ready =>
      cases taken
      exact .updateWriter ready
    next => cases taken
  | segmentDurable =>
    simp only [liveStep] at taken
    split at taken
    next => cases taken
    next first =>
      split at taken
      next ready =>
        cases taken
        exact .segmentDurable first ready
      next => cases taken
  | shutdownWriter =>
    simp only [liveStep] at taken
    split at taken
    next ready =>
      cases taken
      exact .shutdownWriter ready
    next => cases taken
  | writer =>
    simp only [liveStep, writerStep] at taken
    split at taken
    next phase => cases taken; exact .commit phase
    next phase => cases taken; exact .sealActive phase
    next phase => cases taken; exact .handoff phase
    next phase => cases taken; exact .openNext phase
    all_goals cases taken
  | enqueue msg =>
    cases taken
    exact .enqueue
  | uploader now =>
    obtain ⟨effect, stepped, rfl⟩ := Option.map_eq_some_iff.mp taken
    exact .uploader stepped
  | crash cut =>
    cases taken
    exact .crash
  | interrupt | start => cases taken

inductive Stepped (env : Externals) (s : State) : Action → State → Prop
  | moved {l : Live} {action : Action} {next : State} (live : s.live = some l)
      (moved : Moved env s l action next) : Stepped env s action next
  | interrupt {rounds : Nat} (down : s.live = none) :
      Stepped env s (.interrupt rounds) { s with disk := { s.disk with
        wal := Recovery.interrupted env.crc32c s.disk.store.manifest rounds s.disk.wal } }
  | start {cfg : ResolvedTopicConfig} (down : s.live = none) :
      Stepped env s (.start cfg) { s with
        disk := { s.disk with
          wal := (Recovery.recoverPartition env.crc32c s.disk.store.manifest s.disk.wal).1 }
        live := some
          { orphans := (Recovery.recoverPartition env.crc32c s.disk.store.manifest s.disk.wal).2.orphanSegments
            writer := PartitionWriter.new cfg
              (Recovery.recoverPartition env.crc32c s.disk.store.manifest s.disk.wal).2.nextOffset
              (Recovery.recoverPartition env.crc32c s.disk.store.manifest s.disk.wal).2.activeRecords
            uploader := Uploader.new cfg
            durable := [] } }

theorem step_stepped {env : Externals} {s next : State} {action : Action}
    (taken : step env action s = some next) : Stepped env s action next := by
  unfold step at taken
  split at taken
  next l live => exact .moved live (liveStep_moved taken)
  next down =>
    cases action with
    | interrupt rounds =>
      cases taken
      exact .interrupt down
    | start cfg =>
      cases taken
      exact .start down
    | _ => cases taken

def fresh : State :=
  { disk := ⟨∅, ⟨∅, Manifest.empty⟩⟩, live := none, history := ⟨[], [], []⟩ }

def machine (env : Externals) : Machine State Action := ⟨fresh, step env⟩

/-- The key length fits the 16-bit field that a WAL frame has for it. The wire layer bounds a record
by the frame it came in. -/
def Framed (records : List IncomingRecord) : Prop :=
  ∀ inc ∈ records, inc.key.length ≤ 65535 ∧ inc.key.length + inc.value.length ≤ maxFrameSize

/-- Conditions on a run: the settings it uses and the disks it restarts from. -/
structure Regime where
  policy : ResolvedTopicConfig → Prop
  boot : Disk → Prop

def Regime.any : Regime := ⟨fun _ => True, fun _ => True⟩

def Admits (regime : Regime) (s : State) : Action → Prop
  | .produce records _ => Framed records
  | .start cfg => regime.policy cfg ∧ regime.boot s.disk
  | .enqueue (.updateConfig cfg) => regime.policy cfg
  | _ => True

instance (records : List IncomingRecord) : Decidable (Framed records) :=
  inferInstanceAs (Decidable (∀ inc ∈ records, _))

instance (regime : Regime) [DecidablePred regime.policy] [DecidablePred regime.boot] (s : State) :
    DecidablePred (Admits regime s)
  | .produce records _ => inferInstanceAs (Decidable (Framed records))
  | .start cfg => inferInstanceAs (Decidable (regime.policy cfg ∧ regime.boot s.disk))
  | .enqueue (.updateConfig cfg) => inferInstanceAs (Decidable (regime.policy cfg))
  | .enqueue .retentionKick | .enqueue .shutdown | .interrupt _ | .sendOrphan | .openWriter
  | .commitTimeout | .updateWriter _ | .segmentDurable | .shutdownWriter | .writer | .uploader _
  | .crash _ => .isTrue trivial

instance : DecidablePred Regime.any.policy := fun _ => inferInstanceAs (Decidable True)

instance : DecidablePred Regime.any.boot := fun _ => inferInstanceAs (Decidable True)

section Samples

/-- CRC-32C, and a size for segments that only a byte limit would read. -/
def externals : Externals := ⟨crc32c, fun records => 100 * records.length⟩

def settings : ResolvedTopicConfig :=
  { segmentSizeBytes := 8
    segmentSealTimeMs := 1000
    maxKeySizeBytes := 1024
    maxValueSizeBytes := 1024
    groupCommitTimeMs := 5
    groupCommitSizeBytes := 1024
    groupCommitRecordCount := 1
    maxFetchWaitMs := 500
    retentionMs := -1
    retentionBytes := -1 }

def sample (value : UInt8) : IncomingRecord := ⟨7, [107], [value, value, value, value], 1000⟩

end Samples
end Kafkrs.Partition
