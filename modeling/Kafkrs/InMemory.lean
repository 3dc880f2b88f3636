import Kafkrs.Fetching
import Kafkrs.GroupCommit

/-! What a running writer holds in memory: sealed batches the uploader has not reported, the
active batch, and the records waiting for their commit, in one piece and each where its WAL
file says. -/
namespace Kafkrs.InMemory

open Lib Wal Pipeline Kafkrs.Partition Refinement Continuity RecoveredLog GroupCommit

/-- In the order of their offsets. -/
def memory (w : PartitionWriter) : List Record :=
  w.inFlight.toList.flatMap Prod.snd ++ w.active ++ w.pending

/-- Segments of this life whose completion the writer has not seen, oldest first. -/
def bases (l : Live) : List Int := (view l).notified ++ (view l).backlog.map Prod.fst

structure InPiece (w : PartitionWriter) : Prop where
  numbered : Numbered Record.offset (w.nextOffset - (memory w).length) (memory w)
  batches : ∀ entry ∈ w.inFlight.toList, entry.2.head?.map (·.offset) = some entry.1
  bytes : w.activeBytes = (w.active.map Record.size).sum

section Writer

variable {w w' : PartitionWriter}

theorem InPiece.new (cfg : ResolvedTopicConfig) {next : Int} {recovered : List Record}
    (numbered : Numbered Record.offset (next - recovered.length) recovered) :
    InPiece (PartitionWriter.new cfg next recovered) := by
  have empty : (∅ : Dir (List Record)).toList = [] := Dir.toList_empty
  exact ⟨by simpa [memory, PartitionWriter.new, empty] using numbered,
    by simp [PartitionWriter.new, empty], rfl⟩

/-- Every batch in flight is older than the active one. -/
theorem InPiece.older (piece : InPiece w) {entry : Int × List Record}
    (sealed : entry ∈ w.inFlight.toList) {r : Record} (later : r ∈ w.active ++ w.pending) :
    entry.1 < r.offset := by
  obtain ⟨first, isFirst, offset⟩ := Option.map_eq_some_iff.mp (piece.batches entry sealed)
  have inside : first ∈ w.inFlight.toList.flatMap Prod.snd :=
    List.mem_flatMap.mpr ⟨entry, sealed, List.mem_of_head? isFirst⟩
  have sorted := piece.numbered.sorted
  rw [memory, List.append_assoc] at sorted
  rw [← offset]
  exact (List.pairwise_append.mp sorted).2.2 first inside r later

theorem InPiece.receive (piece : InPiece w) {records : List IncomingRecord} {now : Nat → Int64}
    (stored : w.onProduce records now = some w') : InPiece w' := by
  obtain ⟨_, _, _, rfl⟩ := PartitionWriter.onProduce_some stored
  refine ⟨?_, piece.batches, piece.bytes⟩
  have more := PartitionWriter.stamp_numbered now w.nextOffset records
  have numbered := piece.numbered
  have length := PartitionWriter.stamp_length now w.nextOffset records
  simp only [memory, List.length_append, ← List.append_assoc] at *
  refine Numbered.append_iff.mpr ⟨?_, ?_⟩
  · convert numbered using 1
    push_cast
    omega
  · convert more using 1
    simp only [List.length_append]
    push_cast
    omega

theorem onProduce_kept {records : List IncomingRecord} {now : Nat → Int64}
    (stored : w.onProduce records now = some w') :
    w'.inFlight = w.inFlight ∧ handing w'.phase = [] := by
  obtain ⟨_, phase, goes, rfl⟩ := PartitionWriter.onProduce_some stored
  refine ⟨rfl, ?_⟩
  rcases goes with rfl | rfl <;> rfl

/-- A commit moves records from one part of memory to the next. -/
theorem InPiece.commit (piece : InPiece w) : InPiece w.flushCommit := by
  obtain ⟨numbered, batches, bytes⟩ := piece
  by_cases empty : w.pending.isEmpty
  · rw [PartitionWriter.flushCommit, if_pos empty]
    exact ⟨numbered, batches, bytes⟩
  · rw [PartitionWriter.flushCommit, if_neg empty]
    refine ⟨?_, batches, ?_⟩
    · simpa only [memory, List.append_nil, List.append_assoc] using numbered
    · simp only [List.map_append, List.sum_append, bytes]

theorem InPiece.sealActive (piece : InPiece w) : InPiece w.sealActive := by
  cases active : w.active with
  | nil =>
    simp only [PartitionWriter.sealActive, active]
    exact ⟨by simpa [memory, active] using piece.numbered, piece.batches,
      by simpa [active] using piece.bytes⟩
  | cons first rest =>
    have above : ∀ entry ∈ w.inFlight.toList, entry.1 < first.offset :=
      fun entry sealed => piece.older sealed (by simp [active])
    have shape := Dir.toList_insert_above above (first :: rest)
    simp only [PartitionWriter.sealActive, active]
    refine ⟨?_, ?_, rfl⟩
    · have numbered := piece.numbered
      simp only [memory, active] at numbered
      simpa only [memory, shape, List.flatMap_append, List.flatMap_singleton, List.append_nil]
        using numbered
    · intro entry member
      rw [shape] at member
      rcases List.mem_append.mp member with old | new
      · exact piece.batches entry old
      · rw [List.mem_singleton.mp new]
        rfl

theorem InPiece.openNext (piece : InPiece w) : InPiece w.openNext :=
  ⟨piece.numbered, piece.batches, piece.bytes⟩

/-- The oldest batch leaves memory. -/
theorem InPiece.forget (piece : InPiece w) {entry : Int × List Record}
    {rest : List (Int × List Record)} (oldest : w.inFlight.toList = entry :: rest) :
    InPiece (w.onDurable entry.1) := by
  have shape := Dir.toList_erase_first oldest
  refine ⟨?_, fun other member => ?_, piece.bytes⟩
  · have numbered := piece.numbered
    simp only [memory, oldest, List.flatMap_cons, List.append_assoc] at numbered
    have tail := (Numbered.append_iff.mp numbered).2
    simp only [memory, PartitionWriter.onDurable, shape, List.append_assoc]
    convert tail using 1
    simp only [List.length_append]
    push_cast
    omega
  · simp only [PartitionWriter.onDurable, shape] at member
    exact piece.batches other (by rw [oldest]; exact List.mem_cons_of_mem _ member)

end Writer

section Flow

variable {segmentSize : List Record → Nat} {now : Int} {outcome : Outcome} {u : Uploader}
  {store : Store} {effect : Uploader.Effect}

def owed (u : Uploader) : List Int :=
  reporting u.phase ++ (uploading u.phase ++ queued u.rx).map SealedBatch.baseOffset

/-- However its store calls end, the uploader reports what it owes and in that order. -/
theorem owed_step (stepped : u.step segmentSize now outcome store = some effect) :
    effect.durable ++ owed effect.uploader = owed u := by
  cases Uploader.step_moved stepped with
  | upload phase shape | retentionKick phase shape | updateConfig phase shape | shutdown phase shape =>
    simp [owed, phase, shape, reporting, uploading, queued]
  | putSegment phase | putManifest phase | evict phase =>
    by_cases ended : outcome = .ok <;> simp [owed, phase, ended, reporting, uploading]
  | notify phase | spare phase | deleted phase | delete phase =>
    simp [owed, phase, reporting, uploading]

theorem bases_eq (l : Live) : bases l = l.durable ++ owed l.uploader ++ l.orphans.map Prod.fst ++
    (handing l.writer.phase).map SealedBatch.baseOffset := by
  simp [bases, view, owed, Refinement.segment, Function.comp_def]

end Flow

section Files

variable {crc32c : Bytes → UInt32} {files : Recovery.WalDir} {base other : Int}
  {records : List Record}

theorem holds_openFile (held : Holds crc32c files base records) :
    Holds crc32c (openFile files other) base records := by
  obtain ⟨bytes, found, scanned⟩ := held
  cases present : files[other]? with
  | some _ => exact ⟨bytes, by simpa [openFile, present] using found, scanned⟩
  | none =>
    refine ⟨bytes, ?_, scanned⟩
    have different : other ≠ base := by
      rintro rfl
      rw [present] at found
      cases found
    simpa [openFile, present, different] using found

theorem holds_appendFile (held : Holds crc32c files base records) (different : other ≠ base)
    (bytes : Bytes) : Holds crc32c (appendFile files other bytes) base records := by
  obtain ⟨old, found, scanned⟩ := held
  refine ⟨old, ?_, scanned⟩
  unfold appendFile
  split
  · rwa [Dir.get_insert, if_neg different]
  · exact found

end Files

/-- The batches in flight are the last of the segments to be reported, each with its file. -/
structure Tracked (crc32c : Bytes → UInt32) (files : Recovery.WalDir) (l : Live) : Prop where
  piece : InPiece l.writer
  flow : ∃ old, bases l = old ++ l.writer.inFlight.toList.map Prod.fst
  held : ∀ entry ∈ l.writer.inFlight.toList, Holds crc32c files entry.1 entry.2

section Steps

variable {env : Externals} {regime : Regime} {s next : State} {l l' : Live} {action : Action}

theorem Tracked.first {crc32c : Bytes → UInt32} {files : Recovery.WalDir} (piece : InPiece l.writer)
    (empty : l.writer.inFlight.toList = []) : Tracked crc32c files l :=
  ⟨piece, ⟨bases l, by simp [empty]⟩, by simp [empty]⟩

theorem bases_sorted (inv : Invariant env regime s) (live : s.live = some l) :
    (bases l ++ (view l).active.toList.map Prod.fst).Pairwise (· < ·) :=
  (inv.valid.running (view l) (by simp [abstract, live])).order

theorem Tracked.known {crc32c : Bytes → UInt32} {files : Recovery.WalDir}
    (tracked : Tracked crc32c files l) {entry : Int × List Record}
    (sealed : entry ∈ l.writer.inFlight.toList) : entry.1 ∈ bases l := by
  obtain ⟨old, flow⟩ := tracked.flow
  rw [flow]
  exact List.mem_append_right _ (List.mem_map_of_mem sealed)

/-- A step that moves no batch into or out of flight. -/
theorem Tracked.quiet {crc32c : Bytes → UInt32} {files files' : Recovery.WalDir}
    (tracked : Tracked crc32c files l) (piece : InPiece l'.writer)
    (inFlight : l'.writer.inFlight = l.writer.inFlight) (same : bases l' = bases l)
    (keeps : ∀ entry ∈ l.writer.inFlight.toList, Holds crc32c files entry.1 entry.2 →
      Holds crc32c files' entry.1 entry.2) : Tracked crc32c files' l' := by
  refine ⟨piece, ?_, ?_⟩
  · rw [inFlight, same]
    exact tracked.flow
  · rw [inFlight]
    exact fun entry sealed => keeps entry sealed (tracked.held entry sealed)

theorem Tracked.sealActive (inv : Invariant env regime s) (live : s.live = some l)
    (tracked : Tracked env.crc32c s.disk.wal l) (phase : l.writer.phase = .seal) :
    Tracked env.crc32c s.disk.wal { l with writer := l.writer.sealActive } := by
  have piece := tracked.piece.sealActive
  cases active : l.writer.active with
  | nil =>
    refine tracked.quiet piece (by simp [PartitionWriter.sealActive, active]) ?_ fun _ _ => id
    simp only [bases_eq, PartitionWriter.sealActive, active, PartitionWriter.resume, phase]
    split <;> simp [handing]
  | cons first rest =>
    have above : ∀ entry ∈ l.writer.inFlight.toList, entry.1 < first.offset :=
      fun entry sealed => tracked.piece.older sealed (by simp [active])
    have shape := Dir.toList_insert_above above (first :: rest)
    have isActive : (view l).active = some (l.writer.segmentBase, first :: rest) := by
      simp [view, phase, between, active]
    have running := inv.valid.running (view l) (by simp [abstract, live])
    have file := (running.activeFile isActive (by simp [view, phase])).1
    have head := (inv.valid.durable.head _ _ _ file).1
    obtain ⟨old, flow⟩ := tracked.flow
    refine ⟨piece, ⟨old, ?_⟩, ?_⟩
    · simp only [bases_eq, phase, handing, List.map_nil, List.append_nil] at flow
      simp only [bases_eq, PartitionWriter.sealActive, active, handing, shape, List.map_append, flow,
        List.append_assoc]
      rfl
    · intro entry member
      simp only [PartitionWriter.sealActive, active, shape] at member
      rcases List.mem_append.mp member with before | new
      · exact tracked.held entry before
      · rw [List.mem_singleton.mp new]
        dsimp only
        rw [head]
        exact file

/-- A reported segment is the oldest batch in flight, or one of an older life that has no batch
in memory. The others in flight are younger. -/
theorem Tracked.completes (inv : Invariant env regime s) (live : s.live = some l)
    (tracked : Tracked env.crc32c s.disk.wal l) {base : Int} {rest : List Int}
    (reported : l.durable = base :: rest) :
    (∃ old, bases { l with durable := rest } = old ++ l.writer.inFlight.toList.map Prod.fst ∧
      l.writer.onDurable base = l.writer ∧ ∀ entry ∈ l.writer.inFlight.toList, base < entry.1) ∨
    ∃ records entries, l.writer.inFlight.toList = (base, records) :: entries ∧
      bases { l with durable := rest } = entries.map Prod.fst ∧ ∀ entry ∈ entries, base < entry.1 := by
  have sorted := (List.pairwise_append.mp (bases_sorted inv live)).1
  obtain ⟨old, flow⟩ := tracked.flow
  have after : bases l = base :: bases { l with durable := rest } := by
    simp only [bases_eq, reported]
    rfl
  rw [after] at flow sorted
  have apart := (List.pairwise_cons.mp sorted).1
  cases old with
  | cons first old =>
    obtain ⟨rfl, later⟩ := List.cons.inj flow
    have above (entry : Int × List Record) (sealed : entry ∈ l.writer.inFlight.toList) :
        base < entry.1 := by
      apply apart
      rw [later]
      exact List.mem_append_right _ (List.mem_map_of_mem sealed)
    have absent : l.writer.inFlight[base]? = none := by
      by_contra found
      obtain ⟨records, found⟩ := Option.ne_none_iff_exists'.mp found
      exact lt_irrefl _ (above _ (Dir.mem_toList.mpr found))
    refine .inl ⟨old, later, ?_, above⟩
    simp only [PartitionWriter.onDurable, Dir.erase_absent absent]
  | nil =>
    rw [List.nil_append] at flow
    obtain ⟨⟨_, records⟩, entries, shape, rfl, later⟩ := List.map_eq_cons_iff.mp flow.symm
    refine .inr ⟨records, entries, shape, later.symm, fun entry member => apart entry.1 ?_⟩
    rw [← later]
    exact List.mem_map_of_mem member

theorem Tracked.forget (inv : Invariant env regime s) (live : s.live = some l)
    (tracked : Tracked env.crc32c s.disk.wal l) {base : Int} {rest : List Int}
    (reported : l.durable = base :: rest) :
    Tracked env.crc32c (s.disk.wal.erase base)
      { l with writer := l.writer.onDurable base, durable := rest } := by
  rcases tracked.completes inv live reported with
    ⟨old, flow, same, above⟩ | ⟨records, entries, shape, flow, above⟩
  · rw [same]
    refine ⟨tracked.piece, ⟨old, flow⟩, fun entry sealed => ?_⟩
    exact holds_erase.mpr ⟨ne_of_lt (above entry sealed), tracked.held entry sealed⟩
  · have erased : (l.writer.onDurable base).inFlight.toList = entries := Dir.toList_erase_first shape
    refine ⟨tracked.piece.forget shape, ⟨[], ?_⟩, fun entry member => ?_⟩
    · rw [erased]
      exact flow
    · rw [erased] at member
      have sealed : entry ∈ l.writer.inFlight.toList := by
        rw [shape]
        exact List.mem_cons_of_mem _ member
      exact holds_erase.mpr ⟨ne_of_lt (above entry member), tracked.held entry sealed⟩

theorem Tracked.step (inv : Invariant env regime s) (live : s.live = some l)
    (tracked : Tracked env.crc32c s.disk.wal l) (taken : liveStep env s l action = some next)
    (still : next.live = some l') : Tracked env.crc32c next.disk.wal l' := by
  have shape := inv.shape l live
  cases liveStep_moved taken with
  | sendOrphan first made =>
    cases still
    refine tracked.quiet tracked.piece rfl ?_ fun _ _ => id
    obtain ⟨base, record, records, rfl, rfl⟩ := orphanBatch_some made
    have starting : l.writer.phase = .starting := by
      by_contra other
      simp [shape.orphans other] at first
    simp [bases_eq, owed, first, starting, handing, SealedBatch.ofRecords]
  | openWriter starting sent =>
    cases still
    exact tracked.quiet ⟨tracked.piece.numbered, tracked.piece.batches, tracked.piece.bytes⟩ rfl
      (by simp [bases_eq, starting, handing]) fun _ _ => holds_openFile
  | produce ready filled stored =>
    cases still
    obtain ⟨inFlight, handed⟩ := onProduce_kept stored
    refine tracked.quiet (tracked.piece.receive stored) inFlight ?_ fun _ _ => id
    simp only [bases_eq, handed, ready]
    rfl
  | commitTimeout ready =>
    cases still
    exact tracked.quiet ⟨tracked.piece.numbered, tracked.piece.batches, tracked.piece.bytes⟩ rfl
      (by simp [bases_eq, ready, handing]) fun _ _ => id
  | updateWriter =>
    cases still
    exact tracked.quiet ⟨tracked.piece.numbered, tracked.piece.batches, tracked.piece.bytes⟩ rfl
      rfl fun _ _ => id
  | segmentDurable first ready =>
    cases still
    exact tracked.forget inv live first
  | shutdownWriter ready =>
    cases still
    exact tracked.quiet ⟨tracked.piece.numbered, tracked.piece.batches, tracked.piece.bytes⟩ rfl
      (by simp [bases_eq, ready, handing]) fun _ _ => id
  | commit phase =>
    cases still
    have inFlight : l.writer.flushCommit.inFlight = l.writer.inFlight := by
      unfold PartitionWriter.flushCommit
      split <;> rfl
    refine tracked.quiet tracked.piece.commit inFlight ?_ fun entry sealed held => ?_
    · simp only [bases_eq, PartitionWriter.flushCommit, phase]
      split <;> (dsimp only; split <;> rfl)
    · dsimp only
      split
      · exact held
      · have below := (List.pairwise_append.mp (bases_sorted inv live)).2.2 entry.1
          (tracked.known sealed) l.writer.segmentBase (by simp [view, phase, between])
        rw [shape.writer.wal]
        exact holds_appendFile held (ne_of_gt below) _
  | sealActive phase =>
    cases still
    exact tracked.sealActive (s := s) inv live phase
  | handoff phase =>
    cases still
    have sent := shape.orphans (by simp [phase])
    exact tracked.quiet ⟨tracked.piece.numbered, tracked.piece.batches, tracked.piece.bytes⟩ rfl
      (by simp [bases_eq, owed, phase, handing, sent]) fun _ _ => id
  | openNext phase =>
    cases still
    refine tracked.quiet tracked.piece.openNext rfl ?_ fun _ _ => holds_openFile
    simp only [bases_eq, PartitionWriter.openNext, PartitionWriter.resume, phase]
    split <;> rfl
  | enqueue =>
    cases still
    exact tracked.quiet tracked.piece rfl (by simp [bases_eq, owed]) fun _ _ => id
  | uploader stepped =>
    cases still
    refine tracked.quiet tracked.piece rfl ?_ fun _ _ => id
    simp only [bases_eq, List.append_assoc, ← owed_step stepped]
  | crash => cases still

/-- The log while the actors run: what is on disk ends where the pending records start. -/
theorem log_length (whole : Whole env regime s) (live : s.live = some l) :
    l.writer.nextOffset - l.writer.pending.length = s.history.log.length :=
  (whole.continuous.live (view l) (by simp [abstract, live])).next

structure Loaded (env : Externals) (s : State) : Prop where
  whole : Whole env (cleanly env) s
  tracked : ∀ l, s.live = some l → Tracked env.crc32c s.disk.wal l

theorem Loaded.step (loaded : Loaded env s) (admits : Admits (cleanly env) s action)
    (taken : step env action s = some next) : Loaded env next := by
  have whole := loaded.whole.step admits (fun _ => id) taken
  refine ⟨whole, fun l' still => ?_⟩
  cases live : s.live with
  | some l =>
    simp only [Partition.step, live] at taken
    exact (loaded.tracked l live).step loaded.whole.inv live taken still
  | none =>
    obtain ⟨start, numbered, _, ending⟩ := Fetching.active_numbered whole still
    have length := log_length whole still
    simp only [Partition.step, live] at taken
    cases action with
    | start cfg =>
      cases taken
      cases still
      refine .first (.new cfg ?_) Dir.toList_empty
      simp only [PartitionWriter.new, List.length_nil] at numbered length ending
      have begins : start =
          (Recovery.recoverPartition env.crc32c s.disk.store.manifest s.disk.wal).2.nextOffset -
            (Recovery.recoverPartition env.crc32c s.disk.store.manifest s.disk.wal).2.activeRecords.length := by
        omega
      rw [begins] at numbered
      exact numbered
    | interrupt rounds =>
      cases taken
      exact absurd (live.symm.trans still) (by simp)
    | _ => cases taken

theorem reached_loaded (reached : (machine env).Reaches (Admits (cleanly env)) s) : Loaded env s := by
  refine reached.invariant ⟨fresh_whole env _, fun l live => ?_⟩
    fun _ _ _ loaded admits taken => loaded.step admits taken
  cases (show none = some l from live)

end Steps

end Kafkrs.InMemory
