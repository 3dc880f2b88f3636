import Kafkrs.Produce
import Kafkrs.Refinement
import Kafkrs.SegmentColumns

/-! Whether the batches handed to the uploader can be made into columns. A column of keys or of
values holds 2^31 - 1 bytes at most; nothing between a produce and the upload looks at that. -/
namespace Kafkrs.BatchSize

open Lib Lib.Columnar Wal Kafkrs.Partition

def keyBytes (records : List Record) : Nat := (records.map (·.key.length)).sum

def valueBytes (records : List Record) : Nat := (records.map (·.value.length)).sum

def Small (records : List Record) : Prop :=
  keyBytes records ≤ offsetMax ∧ valueBytes records ≤ offsetMax

instance (records : List Record) : Decidable (Small records) :=
  inferInstanceAs (Decidable (_ ∧ _))

/-- Other batches make `records_to_recordbatch` panic. -/
theorem small_iff {records : List Record} :
    Small records ↔ (SegmentColumns.recordsToRecordbatch records).isSome :=
  SegmentColumns.recordsToRecordbatch_isSome_iff.symm

def Handed (s : State) : Prop :=
  ∀ l, s.live = some l → ∀ batch, UploaderMsg.upload batch ∈ l.uploader.rx → Small batch.records

def held (w : PartitionWriter) : List Record := w.active ++ w.pending

def FindsRoom (s : State) : Action → Prop
  | .produce records _ => ∀ l, s.live = some l → l.writer.phase = .recv →
      keyBytes (held l.writer) + (records.map (·.key.length)).sum ≤ offsetMax ∧
      valueBytes (held l.writer) + (records.map (·.value.length)).sum ≤ offsetMax
  | _ => True

def FindsSmall (env : Externals) (s : State) : Action → Prop
  | .start _ =>
      let recovered := (Recovery.recoverPartition env.crc32c s.disk.store.manifest s.disk.wal).2
      Small recovered.activeRecords ∧ ∀ orphan ∈ recovered.orphanSegments, Small orphan.2
  | _ => True

def Roomy (env : Externals) (s : State) (action : Action) : Prop :=
  FindsRoom s action ∧ FindsSmall env s action

instance (s : State) : DecidablePred (FindsRoom s)
  | .produce _ _ => decidable_of_iff (∀ l ∈ s.live, _) Iff.rfl
  | .start _ | .enqueue _ | .interrupt _ | .sendOrphan | .openWriter | .commitTimeout
  | .updateWriter _ | .segmentDurable | .shutdownWriter | .writer | .uploader _ | .crash _ => .isTrue trivial

instance (env : Externals) (s : State) : DecidablePred (FindsSmall env s)
  | .start _ => inferInstanceAs (Decidable (_ ∧ _))
  | .produce _ _ | .enqueue _ | .interrupt _ | .sendOrphan | .openWriter | .commitTimeout
  | .updateWriter _ | .segmentDurable | .shutdownWriter | .writer | .uploader _ | .crash _ => .isTrue trivial

instance (env : Externals) (s : State) (action : Action) : Decidable (Roomy env s action) :=
  inferInstanceAs (Decidable (_ ∧ _))

structure Carried (l : Live) : Prop where
  orphans : ∀ orphan ∈ l.orphans, Small orphan.2
  held : Small (held l.writer)
  handoff : ∀ batch, l.writer.phase = .handoff batch → Small batch.records
  queued : ∀ batch, UploaderMsg.upload batch ∈ l.uploader.rx → Small batch.records

section Writer

variable {w w' : PartitionWriter}

@[simp] theorem keyBytes_append (first second : List Record) :
    keyBytes (first ++ second) = keyBytes first + keyBytes second := by
  simp [keyBytes]

@[simp] theorem valueBytes_append (first second : List Record) :
    valueBytes (first ++ second) = valueBytes first + valueBytes second := by
  simp [valueBytes]

theorem Small.of_append {first second : List Record} (small : Small (first ++ second)) :
    Small first ∧ Small second := by
  simp only [Small, keyBytes_append, valueBytes_append] at small ⊢
  omega

/-- Stamping keeps the lengths of keys and values. -/
theorem stamp_bytes (now : Nat → Int64) (next : Int) (incoming : List IncomingRecord) :
    keyBytes (PartitionWriter.stamp now next incoming) = (incoming.map (·.key.length)).sum ∧
      valueBytes (PartitionWriter.stamp now next incoming) =
        (incoming.map (·.value.length)).sum := by
  induction incoming generalizing now next with
  | nil => exact ⟨rfl, rfl⟩
  | cons inc rest ih =>
    obtain ⟨keys, values⟩ := ih (fun i => now (i + 1)) (next + 1)
    constructor
    · simpa [keyBytes, PartitionWriter.stamp] using keys
    · simpa [valueBytes, PartitionWriter.stamp] using values

theorem held_produce {records : List IncomingRecord} {now : Nat → Int64}
    (stored : w.onProduce records now = some w') :
    keyBytes (held w') = keyBytes (held w) + (records.map (·.key.length)).sum ∧
      valueBytes (held w') = valueBytes (held w) + (records.map (·.value.length)).sum := by
  obtain ⟨_, _, _, rfl⟩ := PartitionWriter.onProduce_some stored
  obtain ⟨keys, values⟩ := stamp_bytes now w.nextOffset records
  simp only [held, keyBytes_append, valueBytes_append, keys, values]
  omega

/-- A commit moves the pending records and loses none. -/
theorem held_flushCommit (w : PartitionWriter) : held w.flushCommit = held w := by
  unfold PartitionWriter.flushCommit
  split
  · rfl
  · simp [held]

end Writer

section Runs

variable {env : Externals} {s next : State} {l : Live} {action : Action}

theorem rx_mem {segmentSize : List Record → Nat} {now : Int} {outcome : Outcome} {u : Uploader}
    {store : Store} {effect : Uploader.Effect}
    (stepped : u.step segmentSize now outcome store = some effect) {msg : UploaderMsg}
    (member : msg ∈ effect.uploader.rx) : msg ∈ u.rx := by
  cases Uploader.step_moved stepped with
  | upload idle shape | retentionKick idle shape | updateConfig idle shape | shutdown idle shape =>
    rw [shape]
    exact List.mem_cons_of_mem _ member
  | _ => exact member

theorem Carried.push (carried : Carried l) {batch : SealedBatch} (small : Small batch.records) :
    ∀ other, UploaderMsg.upload other ∈ l.uploader.rx ++ [.upload batch] → Small other.records := by
  intro other member
  rcases List.mem_append.mp member with old | new
  · exact carried.queued other old
  · obtain rfl : other = batch := by simpa using new
    exact small

theorem Carried.sealActive (carried : Carried l) :
    Carried { l with writer := l.writer.sealActive } := by
  obtain ⟨orphans, small, handoff, queued⟩ := carried
  cases active : l.writer.active with
  | nil =>
    simp only [PartitionWriter.sealActive, active]
    refine ⟨orphans, by simpa [BatchSize.held, active] using small, fun batch here => ?_, queued⟩
    simp only [PartitionWriter.resume] at here
    split at here
    all_goals cases here
  | cons first rest =>
    rw [BatchSize.held, active] at small
    obtain ⟨sealed', pending⟩ := small.of_append
    simp only [PartitionWriter.sealActive, active]
    refine ⟨orphans, by simpa [BatchSize.held] using pending, fun batch here => ?_, queued⟩
    rw [← PartitionWriter.Phase.handoff.inj here]
    exact sealed'

theorem Carried.flushCommit (carried : Carried l) :
    Carried { l with writer := l.writer.flushCommit } := by
  refine ⟨carried.orphans, ?_, fun batch here => ?_, carried.queued⟩
  · rw [held_flushCommit]
    exact carried.held
  · simp only [PartitionWriter.flushCommit] at here
    split at here
    all_goals
      dsimp only at here
      split at here
      all_goals cases here

theorem Carried.produce (carried : Carried l) {records : List IncomingRecord} {now : Nat → Int64}
    {w : PartitionWriter} (stored : l.writer.onProduce records now = some w)
    (keys : keyBytes (BatchSize.held l.writer) + (records.map (·.key.length)).sum ≤ offsetMax)
    (values : valueBytes (BatchSize.held l.writer) + (records.map (·.value.length)).sum ≤ offsetMax) :
    Carried { l with writer := w } := by
  obtain ⟨keysAre, valuesAre⟩ := held_produce stored
  refine ⟨carried.orphans, ⟨keysAre.trans_le keys, valuesAre.trans_le values⟩, fun batch here => ?_,
    carried.queued⟩
  obtain ⟨_, phase, goes, rfl⟩ := PartitionWriter.onProduce_some stored
  rcases goes with rfl | rfl
  all_goals cases here

theorem Carried.step (carried : Carried l) (live : s.live = some l) (roomy : Roomy env s action)
    (moved : Moved env s l action next) : ∀ l', next.live = some l' → Carried l' := by
  intro l' after
  obtain ⟨orphans, small, handoff, queued⟩ := carried
  cases moved with
  | sendOrphan first made =>
    cases after
    obtain ⟨base, r, rest, rfl, rfl⟩ := orphanBatch_some made
    have sent := orphans (base, r :: rest) (by simp [first])
    exact ⟨fun orphan member => orphans orphan (by simp [first, member]), small, handoff,
      Carried.push ⟨orphans, small, handoff, queued⟩ sent⟩
  | produce ready filled stored =>
    cases after
    obtain ⟨keys, values⟩ := roomy.1 l live ready
    exact Carried.produce ⟨orphans, small, handoff, queued⟩ stored keys values
  | commit phase =>
    cases after
    exact Carried.flushCommit ⟨orphans, small, handoff, queued⟩
  | sealActive phase =>
    cases after
    exact Carried.sealActive ⟨orphans, small, handoff, queued⟩
  | handoff phase =>
    cases after
    exact ⟨orphans, small, by simp, Carried.push ⟨orphans, small, handoff, queued⟩ (handoff _ phase)⟩
  | openNext phase =>
    cases after
    refine ⟨orphans, small, fun batch here => ?_, queued⟩
    simp only [PartitionWriter.openNext, PartitionWriter.resume] at here
    split at here
    all_goals cases here
  | enqueue =>
    cases after
    refine ⟨orphans, small, handoff, fun batch member => ?_⟩
    rcases List.mem_append.mp member with old | new
    · exact queued batch old
    · simp at new
  | uploader stepped =>
    cases after
    exact ⟨orphans, small, handoff, fun batch member => queued batch (rx_mem stepped member)⟩
  | crash => cases after
  | openWriter | commitTimeout | shutdownWriter =>
    cases after
    exact ⟨orphans, small, by simp, queued⟩
  | updateWriter | segmentDurable =>
    cases after
    exact ⟨orphans, small, handoff, queued⟩

theorem carried_step (carried : ∀ l, s.live = some l → Carried l) (roomy : Roomy env s action)
    (taken : step env action s = some next) : ∀ l, next.live = some l → Carried l := by
  cases step_stepped taken with
  | moved live moved => exact (carried _ live).step live roomy moved
  | interrupt => exact carried
  | start =>
    intro l live
    cases live
    obtain ⟨active, orphans⟩ := roomy.2
    refine ⟨orphans, by simpa [BatchSize.held, PartitionWriter.new] using active, ?_, ?_⟩
    · simp [PartitionWriter.new]
    · simp [Uploader.new]

/-- When every request found room and every recovered segment was small, so is every batch that
is handed over. -/
theorem handed_along {schedule : List Action} (roomy : (machine env).Along (Roomy env) schedule fresh) :
    (machine env).Throughout Handed schedule fresh := by
  have preserved (s : State) (action : Action) (next : State) (carried : ∀ l, s.live = some l → Carried l)
      (roomy : Roomy env s action) (taken : (machine env).step action s = some next) :
      ∀ l, next.live = some l → Carried l := carried_step carried roomy taken
  have handed (s : State) (carried : ∀ l, s.live = some l → Carried l) : Handed s :=
    fun l live => (carried l live).queued
  exact roomy.throughout preserved handed (by simp [fresh])

end Runs

/-! A batch that is too large is on its way as soon as a request has found no room. -/

section Overflow

variable {env : Externals} {s next : State} {l : Live}

theorem writer_step {after : State} (live : s.live = some l) (taken : writerStep env s l = some after) :
    (machine env).step .writer s = some after := by
  simp only [machine, step, live]
  exact taken

theorem handoff_hands {batch : SealedBatch} (live : s.live = some l)
    (phase : l.writer.phase = .handoff batch) (large : ¬ Small batch.records) :
    ∃ final, (machine env).execute [.writer] s = some final ∧ ¬ Handed final := by
  have sent : writerStep env s l = some { s with live := some { l with
      writer := { l.writer with phase := .openNext }
      uploader := { l.uploader with rx := l.uploader.rx ++ [.upload batch] } } } := by
    simp only [writerStep, phase]
  refine ⟨_, Machine.execute_step (writer_step live sent), fun handed => large ?_⟩
  exact handed _ rfl batch (by simp)

theorem seal_hands (live : s.live = some l) (phase : l.writer.phase = .seal)
    (large : ¬ Small l.writer.active) :
    ∃ final, (machine env).execute [.writer, .writer] s = some final ∧ ¬ Handed final := by
  cases active : l.writer.active with
  | nil =>
    rw [active] at large
    exact absurd (by decide) large
  | cons first rest =>
    have taken : writerStep env s l =
        some { s with live := some { l with writer := l.writer.sealActive } } := by
      simp only [writerStep, phase]
    rw [Machine.execute_step (writer_step live taken)]
    have phase' : l.writer.sealActive.phase = .handoff (SealedBatch.ofRecords first.offset first rest) := by
      simp [PartitionWriter.sealActive, active]
    rw [active] at large
    exact handoff_hands rfl phase' large

theorem flushCommit_settled (w : PartitionWriter) :
    w.flushCommit.active = held w ∧ w.flushCommit.pending = [] ∧
      (w.flushCommit.phase = .seal ∨ w.flushCommit.phase = .recv ∧ w.stopping = false) := by
  unfold PartitionWriter.flushCommit
  split
  next none =>
    have pending := List.isEmpty_iff.mp none
    refine ⟨by simp [held, pending], pending, ?_⟩
    cases w.stopping
    · exact .inr ⟨rfl, rfl⟩
    · exact .inl rfl
  next =>
    refine ⟨rfl, rfl, ?_⟩
    dsimp only
    split
    · exact .inl rfl
    next low => exact .inr ⟨rfl, by simp_all⟩

/-- A commit goes on to the seal or back to the message loop. -/
theorem commit_settles (live : s.live = some l) (phase : l.writer.phase = .commit) :
    ∃ after l', (machine env).step .writer s = some after ∧ after.live = some l' ∧
      l'.writer.active = held l.writer ∧ l'.writer.pending = [] ∧
      (l'.writer.phase = .seal ∨ l'.writer.phase = .recv ∧ l.writer.stopping = false) := by
  obtain ⟨active, pending, goes⟩ := flushCommit_settled l.writer
  have taken : writerStep env s l = some
      { disk := { s.disk with
          wal := if l.writer.pending.isEmpty then s.disk.wal
            else appendFile s.disk.wal l.writer.wal (encodeAll env.crc32c l.writer.pending) }
        live := some { l with writer := l.writer.flushCommit }
        history := { s.history with
          acked := s.history.acked ++ l.writer.pending
          log := s.history.log ++ l.writer.pending } } := by
    simp only [writerStep, phase]
  exact ⟨_, _, writer_step live taken, rfl, active, pending, goes⟩

/-- A writer told to stop commits, seals and hands over what it holds. -/
theorem recv_hands (live : s.live = some l) (phase : l.writer.phase = .recv)
    (large : ¬ Small (held l.writer)) :
    ∃ final, (machine env).execute [.shutdownWriter, .writer, .writer, .writer] s = some final ∧
      ¬ Handed final := by
  have told : (machine env).step .shutdownWriter s = some { s with live := some { l with
      writer := { l.writer with phase := .commit, stopping := true } } } := by
    simp [machine, step, live, liveStep, phase]
  obtain ⟨after, l', taken, live', active, _, sealing | ⟨_, running⟩⟩ :=
    @commit_settles env _ _ (show State.live { s with live := some { l with
      writer := { l.writer with phase := .commit, stopping := true } } } = _ from rfl) rfl
  · rw [Machine.execute_step told, Machine.execute_step taken]
    refine seal_hands live' sealing ?_
    rwa [active]
  · cases running

theorem commit_hands (live : s.live = some l) (phase : l.writer.phase = .commit)
    (large : ¬ Small (held l.writer)) : ∃ final, (machine env).Leads s final ∧ ¬ Handed final := by
  obtain ⟨after, l', taken, live', active, pending, goes⟩ := @commit_settles env _ _ live phase
  have moved := Machine.Leads.step Action.writer taken
  rcases goes with sealing | ⟨recv, _⟩
  · obtain ⟨final, ran, bad⟩ := @seal_hands env _ _ live' sealing (by rwa [active])
    exact ⟨final, moved.trans ⟨_, ran⟩, bad⟩
  · obtain ⟨final, ran, bad⟩ := @recv_hands env _ _ live' recv (by simpa [held, active, pending] using large)
    exact ⟨final, moved.trans ⟨_, ran⟩, bad⟩

theorem orphans_nonempty {crc32c : Bytes → UInt32} {manifest : Manifest} {files : Recovery.WalDir}
    {orphan : Int × List Record}
    (member : orphan ∈ (Recovery.recoverPartition crc32c manifest files).2.orphanSegments) :
    orphan.2 ≠ [] := by
  rw [Restart.recoverPartition_eq] at member
  obtain ⟨base, _, kept⟩ := List.mem_filterMap.mp (List.dropLast_subset _ member)
  obtain ⟨_, _, _, _, _, nonempty⟩ :=
    Recovery.salvage_eq_some.mp (show Recovery.salvage crc32c manifest files base = some (orphan.1, orphan.2) from kept)
  exact nonempty

/-- The recovered segments can be sent one after another. -/
theorem orphans_sent {orphans : List (Int × List Record)} (live : s.live = some l)
    (left : l.orphans = orphans) (nonempty : ∀ orphan ∈ orphans, orphan.2 ≠ []) :
    ∃ final l', (machine env).Leads s final ∧ final.live = some l' ∧ l'.orphans = [] ∧
      l'.writer = l.writer ∧ (∀ msg ∈ l.uploader.rx, msg ∈ l'.uploader.rx) ∧
      ∀ orphan ∈ orphans, ∃ batch, UploaderMsg.upload batch ∈ l'.uploader.rx ∧ batch.records = orphan.2 := by
  induction orphans generalizing s l with
  | nil => exact ⟨s, l, .refl s, live, left, rfl, fun _ member => member, by simp⟩
  | cons orphan orphans ih =>
    obtain ⟨base, records⟩ := orphan
    cases records with
    | nil => exact absurd rfl (nonempty (base, []) (by simp))
    | cons first rest =>
      let batch := SealedBatch.ofRecords base first rest
      let after : Live := { l with
        orphans := orphans
        uploader := { l.uploader with rx := l.uploader.rx ++ [.upload batch] } }
      have sent : (machine env).step .sendOrphan s = some { s with live := some after } := by
        simp [machine, step, live, liveStep, left, orphanBatch, batch, after]
      obtain ⟨final, l', leads, live', none, writer, kept, queued⟩ :=
        ih (s := { s with live := some after }) (l := after) rfl rfl
          fun other member => nonempty other (by simp [member])
      refine ⟨final, l', (Machine.Leads.step _ sent).trans leads, live', none, writer, ?_, ?_⟩
      · exact fun msg member => kept msg (by simp [after, member])
      · intro other member
        rcases List.mem_cons.mp member with rfl | later
        · exact ⟨batch, kept _ (by simp [after]), rfl⟩
        · exact queued other later

theorem start_hands {cfg : ResolvedTopicConfig} (started : step env (.start cfg) s = some next)
    (large : ¬ FindsSmall env s (.start cfg)) : ∃ final, (machine env).Leads next final ∧ ¬ Handed final := by
  have recovered : ∃ l, next.live = some l ∧ l.orphans = (Recovery.recoverPartition env.crc32c
      s.disk.store.manifest s.disk.wal).2.orphanSegments ∧ l.writer.phase = .starting ∧
      held l.writer = (Recovery.recoverPartition env.crc32c s.disk.store.manifest
        s.disk.wal).2.activeRecords := by
    cases step_stepped started with
    | start => exact ⟨_, rfl, rfl, rfl, by simp [held, PartitionWriter.new]⟩
    | moved live moved => cases moved
  obtain ⟨_, begun, segments, starting, active⟩ := recovered
  obtain ⟨sent, l, leads, live, none, writer, _, queued⟩ :=
    @orphans_sent env _ _ _ begun segments fun _ => orphans_nonempty
  by_cases orphans : ∀ orphan ∈ (Recovery.recoverPartition env.crc32c s.disk.store.manifest
      s.disk.wal).2.orphanSegments, Small orphan.2
  · let after : Live := { l with writer := { l.writer with phase := .recv } }
    have opened : (machine env).step .openWriter sent = some { sent with
        disk := { sent.disk with wal := openFile sent.disk.wal l.writer.segmentBase }
        live := some after } := by
      simp [machine, step, live, liveStep, none, writer, starting, after]
    have full : ¬ Small (held after.writer) := by
      intro small
      refine large ⟨?_, orphans⟩
      rwa [← active, ← writer]
    obtain ⟨final, ran, bad⟩ := @recv_hands env { sent with
        disk := { sent.disk with wal := openFile sent.disk.wal l.writer.segmentBase }
        live := some after } after rfl rfl full
    exact ⟨final, (leads.trans (Machine.Leads.step _ opened)).trans ⟨_, ran⟩, bad⟩
  · push Not at orphans
    obtain ⟨orphan, member, large⟩ := orphans
    obtain ⟨batch, inside, records⟩ := queued orphan member
    refine ⟨sent, leads, fun handed => large ?_⟩
    rw [← records]
    exact handed l live batch inside

/-- Whenever a request finds no room, or a start a large segment, a large batch may follow. -/
theorem overflows {action : Action} (taken : step env action s = some next)
    (large : ¬ Roomy env s action) : ∃ final, (machine env).Leads next final ∧ ¬ Handed final := by
  cases action with
  | start cfg => exact start_hands taken fun small => large ⟨trivial, small⟩
  | produce records now =>
    cases step_stepped taken with
    | @moved l _ _ live moved =>
      cases moved with
      | @produce _ _ w ready filled stored =>
        have full : ¬ Small (held w) := by
          intro small
          obtain ⟨keys, values⟩ := held_produce stored
          rw [Small, keys, values] at small
          refine large ⟨fun l' here _ => ?_, trivial⟩
          rwa [← Option.some.inj (live.symm.trans here)]
        obtain ⟨_, phase, commit | recv, rfl⟩ := PartitionWriter.onProduce_some stored
        · exact @commit_hands env _ _ rfl commit full
        · obtain ⟨final, ran, bad⟩ := @recv_hands env { s with live := some { l with writer := _ } } _ rfl recv full
          exact ⟨final, ⟨_, ran⟩, bad⟩
  | _ => exact absurd ⟨trivial, trivial⟩ large

end Overflow

/-! Recovery reads back no more than a writer held, so only the requests need room. -/

section Recovered

open Pipeline Refinement

variable {env : Externals} {s next : State} {l : Live} {action : Action}

structure Contained (env : Externals) (s : State) : Prop where
  inv : Invariant env Regime.any s
  carried : ∀ l, s.live = some l → Carried l
  files : ∀ base records, Holds env.crc32c s.disk.wal base records → Small records

theorem small_nil : Small [] := by decide

theorem holds_of_openFile {crc32c : Bytes → UInt32} {files : Recovery.WalDir} {base other : Int}
    {records : List Record} (holds : Holds crc32c (openFile files base) other records) :
    Holds crc32c files other records ∨ records = [] := by
  unfold openFile at holds
  split at holds
  · exact .inl holds
  · rw [holds_insert] at holds
    split at holds
    · exact .inr holds.symm
    · exact .inl holds

/-- The active file after an append of which a front part may be read back. -/
theorem Contained.appended (contained : Contained env s) (live : s.live = some l)
    (commit : l.writer.phase = .commit) {bytes : Bytes} {front : List Record}
    (reads : ∀ records, (∀ r ∈ records, Fits r) → (∀ r ∈ l.writer.pending, Fits r) →
      (scanWal env.crc32c (encodeAll env.crc32c records ++ bytes)).1 = records ++ front)
    (part : front <+: l.writer.pending) (base : Int) (records : List Record)
    (holds : Holds env.crc32c (appendFile s.disk.wal l.writer.wal bytes) base records) :
    Small records := by
  have running := contained.inv.valid.running (view l) (by simp [abstract, live])
  have current : (view l).active = some (l.writer.segmentBase, l.writer.active) := by
    simp [view, commit, between]
  obtain ⟨active, found⟩ := running.activeFile current (by simp [view, commit])
  have file : s.disk.wal[l.writer.wal]? = some (encodeAll env.crc32c l.writer.active) := by
    rw [(contained.inv.shape l live).writer.wal]
    exact found
  rw [Lifecycle.appendFile_present file, holds_insert] at holds
  split at holds
  · rw [← holds, reads _ active.fits running.fits]
    obtain ⟨rest, whole⟩ := part
    have small := (contained.carried l live).held
    rw [held, ← whole, ← List.append_assoc] at small
    exact small.of_append.1
  · exact contained.files base records holds

theorem Contained.files_live (contained : Contained env s) (live : s.live = some l)
    (moved : Moved env s l action next) (base : Int) (records : List Record)
    (holds : Holds env.crc32c next.disk.wal base records) : Small records := by
  cases moved with
  | openWriter | openNext =>
    rcases holds_of_openFile holds with old | rfl
    · exact contained.files base records old
    · exact small_nil
  | segmentDurable => exact contained.files base records (holds_erase.mp holds).2
  | commit phase =>
    dsimp only at holds
    split at holds
    · exact contained.files base records holds
    · refine contained.appended live phase (fun old fits fitsPending => ?_) (List.prefix_refl _) base
        records holds
      rw [← encodeAll_append]
      exact scan_encodeAll fun r member => (List.mem_append.mp member).elim (fits r) (fitsPending r)
  | @crash cut =>
    by_cases commit : l.writer.phase = .commit
    · simp only [appending, commit, if_true] at holds
      exact contained.appended live commit (fun old fits fitsPending => scan_torn fits fitsPending cut)
        (fitting_front _ _ _) base records holds
    · simp only [appending, commit, if_false, encodeAll_nil, List.take_nil,
        Lifecycle.appendFile_nil] at holds
      exact contained.files base records holds
  | _ => exact contained.files base records holds

theorem Contained.files_step (contained : Contained env s) (taken : step env action s = some next)
    (base : Int) (records : List Record) (holds : Holds env.crc32c next.disk.wal base records) :
    Small records := by
  have ordered := contained.inv.valid.durable.ordered
  cases step_stepped taken with
  | moved live moved => exact contained.files_live live moved base records holds
  | @interrupt rounds =>
    have distinct := (Dir.keys_nodup s.disk.wal).sublist (List.take_sublist rounds _)
    exact contained.files base records ((Restart.holds_recovered ordered distinct).mp holds).1
  | start => exact contained.files base records ((Restart.holds_after ordered).mp holds).1

theorem Contained.findsSmall (contained : Contained env s) (action : Action) :
    FindsSmall env s action := by
  cases action with
  | start cfg =>
    have small : ∀ segment ∈ Restart.salvaged env.crc32c s.disk.store.manifest s.disk.wal,
        Small segment.2 := by
      intro segment member
      have kept := (Restart.mem_salvaged contained.inv.valid.durable.ordered).mp member
      exact contained.files segment.1 segment.2 kept.2.1
    simp only [FindsSmall, Restart.recoverPartition_eq]
    constructor
    · cases last : (Restart.salvaged env.crc32c s.disk.store.manifest s.disk.wal).getLast? with
      | none => exact small_nil
      | some segment => exact small segment (List.mem_of_getLast? last)
    · exact fun orphan member => small orphan (List.dropLast_subset _ member)
  | _ => trivial

/-- With framed records, room for every request is enough. -/
theorem roomy_of_findsRoom {schedule : List Action}
    (along : (machine env).Along (fun s action => Admits Regime.any s action ∧ FindsRoom s action)
      schedule fresh) : (machine env).Along (Roomy env) schedule fresh := by
  have preserved (s : State) (action : Action) (next : State) (contained : Contained env s)
      (meets : Admits Regime.any s action ∧ FindsRoom s action)
      (taken : (machine env).step action s = some next) : Contained env next :=
    ⟨contained.inv.step meets.1 taken,
      carried_step contained.carried ⟨meets.2, contained.findsSmall action⟩ taken,
      contained.files_step taken⟩
  refine along.imp preserved (fun s action contained meets => ?_) ?_
  · exact ⟨meets.2, contained.findsSmall action⟩
  · exact ⟨reached_invariant (Machine.Reaches.initial _), by simp [fresh], by simp [fresh, Holds]⟩

end Recovered

/-! Settings alone bound what a writer holds until a crash comes between a commit and the seal. -/

section Moderate

variable {env : Externals} {segment group : Nat} {s next : State} {l : Live} {w w' : PartitionWriter}
  {action : Action}

def totalSize (records : List Record) : Nat := (records.map Record.size).sum

theorem bytes_size (records : List Record) : keyBytes records + valueBytes records = totalSize records := by
  induction records with
  | nil => rfl
  | cons r records ih =>
    simp only [keyBytes, valueBytes, totalSize, Record.size, List.map_cons, List.sum_cons] at ih ⊢
    omega

/-- Settings in force have thresholds within the two bounds, a request comes in one frame, and a
start finds an active segment that has not reached its size. -/
def Moderate (env : Externals) (segment group : Nat) (s : State) : Action → Prop
  | .produce records _ =>
      (records.map (·.key.length)).sum + (records.map (·.value.length)).sum ≤ maxFrameSize
  | .updateWriter cfg => cfg.segmentSizeBytes ≤ segment ∧ cfg.groupCommitSizeBytes ≤ group
  | .start cfg => cfg.segmentSizeBytes ≤ segment ∧ cfg.groupCommitSizeBytes ≤ group ∧
      totalSize (Recovery.recoverPartition env.crc32c s.disk.store.manifest s.disk.wal).2.activeRecords ≤ segment
  | _ => True

/-- A segment about to be sealed and a commit about to be made may go beyond their thresholds. -/
structure Bounded (segment group : Nat) (w : PartitionWriter) : Prop where
  segmentSize : w.cfg.segmentSizeBytes ≤ segment
  groupCommit : w.cfg.groupCommitSizeBytes ≤ group
  bytes : w.activeBytes = totalSize w.active
  active : w.phase ≠ .seal → w.activeBytes ≤ segment
  pending : w.phase ≠ .commit → totalSize w.pending ≤ group

theorem Bounded.produce (bounded : Bounded segment group w) (recv : w.phase = .recv)
    {records : List IncomingRecord} {now : Nat → Int64} (stored : w.onProduce records now = some w') :
    Bounded segment group w' := by
  have low := bounded.active (by simp [recv])
  simp only [PartitionWriter.onProduce] at stored
  split at stored
  · cases stored
    refine ⟨bounded.segmentSize, bounded.groupCommit, bounded.bytes, fun _ => low, ?_⟩
    dsimp only
    split
    · exact fun other => absurd rfl other
    next below =>
      intro _
      have := bounded.groupCommit
      simp only [totalSize]
      omega
  · cases stored

theorem Bounded.commit (bounded : Bounded segment group w) (commit : w.phase = .commit) :
    Bounded segment group w.flushCommit := by
  have low := bounded.active (by simp [commit])
  unfold PartitionWriter.flushCommit
  split
  next none =>
    have pending : w.pending = [] := List.isEmpty_iff.mp none
    refine ⟨bounded.segmentSize, bounded.groupCommit, bounded.bytes, fun _ => low, fun _ => ?_⟩
    simp [pending, totalSize]
  next =>
    refine ⟨bounded.segmentSize, bounded.groupCommit, ?_, ?_, fun _ => by simp [totalSize]⟩
    · simp [bounded.bytes, totalSize]
    · dsimp only
      split
      · exact fun other => absurd rfl other
      next below =>
        intro _
        have := bounded.segmentSize
        omega

theorem Bounded.sealActive (bounded : Bounded segment group w) (sealing : w.phase = .seal) :
    Bounded segment group w.sealActive := by
  have low := bounded.pending (by simp [sealing])
  cases active : w.active with
  | nil =>
    have bytes := bounded.bytes
    rw [active] at bytes
    simp only [PartitionWriter.sealActive, active]
    exact ⟨bounded.segmentSize, bounded.groupCommit, bytes, fun _ => bytes.trans_le (Nat.zero_le _), fun _ => low⟩
  | cons first rest =>
    simp only [PartitionWriter.sealActive, active]
    exact ⟨bounded.segmentSize, bounded.groupCommit, rfl, fun _ => Nat.zero_le _, fun _ => low⟩

theorem Bounded.step (bounded : Bounded segment group l.writer) (moderate : Moderate env segment group s action)
    (moved : Moved env s l action next) : ∀ l', next.live = some l' → Bounded segment group l'.writer := by
  intro l' after
  cases moved with
  | produce recv _ stored =>
    cases after
    exact bounded.produce recv stored
  | commit phase =>
    cases after
    exact bounded.commit phase
  | sealActive phase =>
    cases after
    exact bounded.sealActive phase
  | updateWriter recv =>
    cases after
    exact ⟨moderate.1, moderate.2, bounded.bytes, bounded.active, bounded.pending⟩
  | crash => cases after
  | openWriter phase | commitTimeout phase | shutdownWriter phase | handoff phase | openNext phase =>
    cases after
    exact ⟨bounded.segmentSize, bounded.groupCommit, bounded.bytes,
      fun _ => bounded.active (by simp [phase]), fun _ => bounded.pending (by simp [phase])⟩
  | _ =>
    cases after
    exact ⟨bounded.segmentSize, bounded.groupCommit, bounded.bytes, bounded.active, bounded.pending⟩

theorem bounded_step (bounded : ∀ l, s.live = some l → Bounded segment group l.writer)
    (moderate : Moderate env segment group s action) (taken : step env action s = some next) :
    ∀ l, next.live = some l → Bounded segment group l.writer := by
  cases step_stepped taken with
  | moved live moved => exact (bounded _ live).step moderate moved
  | interrupt => exact bounded
  | start =>
    intro l live
    cases live
    exact ⟨moderate.1, moderate.2.1, rfl, fun _ => moderate.2.2, fun _ => by simp [PartitionWriter.new, totalSize]⟩

theorem Bounded.findsRoom (limits : segment + group + maxFrameSize ≤ offsetMax)
    (bounded : ∀ l, s.live = some l → Bounded segment group l.writer)
    (moderate : Moderate env segment group s action) : FindsRoom s action := by
  cases action with
  | produce records now =>
    intro l live recv
    have held' := (bounded l live).bytes
    have active := (bounded l live).active (by simp [recv])
    have pending := (bounded l live).pending (by simp [recv])
    have whole := bytes_size (held l.writer)
    have frame : (records.map (·.key.length)).sum + (records.map (·.value.length)).sum ≤ maxFrameSize :=
      moderate
    simp only [totalSize, held, List.map_append, List.sum_append] at held' active pending whole
    simp only [held]
    omega
  | _ => trivial

/-- Of moderate settings every batch is small, unless a start finds a segment past its size. -/
theorem handed_of_moderate (env : Externals) {segment group : Nat}
    (limits : segment + group + maxFrameSize ≤ offsetMax) {schedule : List Action}
    (along : (machine env).Along (fun s action => Admits Regime.any s action ∧ Moderate env segment group s action)
      schedule fresh) : (machine env).Throughout Handed schedule fresh := by
  have preserved (s : State) (action : Action) (next : State)
      (bounded : ∀ l, s.live = some l → Bounded segment group l.writer)
      (meets : Admits Regime.any s action ∧ Moderate env segment group s action)
      (taken : (machine env).step action s = some next) :
      ∀ l, next.live = some l → Bounded segment group l.writer := bounded_step bounded meets.2 taken
  refine handed_along (roomy_of_findsRoom (along.imp preserved (fun s action bounded meets => ?_) ?_))
  · exact ⟨meets.1, Bounded.findsRoom limits bounded meets.2⟩
  · simp [fresh]

/-- The defaults are moderate on every kind of disk. -/
example (disk : DiskType) : (ResolvedTopicConfig.resolve {} disk).segmentSizeBytes +
    (ResolvedTopicConfig.resolve {} disk).groupCommitSizeBytes + maxFrameSize ≤ offsetMax := by
  cases disk <;> decide

end Moderate

/-- Column building fails on the large batches and on no other. None is handed over while every
request finds room and every start small segments, where records that fit their WAL frames leave
only the former to ask for; after a step without room one may be. -/
theorem handed_while_roomy (env : Externals) :
    (∀ records, Small records ↔ (SegmentColumns.recordsToRecordbatch records).isSome) ∧
    (∀ schedule, (machine env).Along (Roomy env) schedule fresh →
      (machine env).Throughout Handed schedule fresh) ∧
    (∀ schedule, (machine env).Along (fun s action => Admits Regime.any s action ∧ FindsRoom s action)
      schedule fresh → (machine env).Along (Roomy env) schedule fresh) ∧
    ∀ s action next, step env action s = some next → ¬ Roomy env s action →
      ∃ final, (machine env).Leads next final ∧ ¬ Handed final :=
  ⟨fun _ => small_iff, fun _ roomy => handed_along roomy, fun _ along => roomy_of_findsRoom along,
    fun _ _ _ taken large => overflows taken large⟩

section Samples

open Produce (zeros produceInner)

/-- A batch recovered by a second life, and handed over after one more request. -/
def recoveredRun : List Action :=
  [.start settings, .openWriter, .produce [sample 1] (fun _ => 0), .writer,
    .produce [sample 2] (fun _ => 0), .writer, .crash 0, .start settings, .openWriter,
    .produce [sample 3] (fun _ => 0), .writer, .writer, .writer]

/-- Segments of 4 GiB and values as large as a frame: settings that no check forbids. -/
def wideOverrides : TopicConfigOverrides :=
  { segmentSizeBytes := some 4294967296, maxValueSizeBytes := some 4194304 }

def wideConfig : ResolvedTopicConfig := .resolve wideOverrides .nvme

def clock : Nat → Int64 := fun _ => 1700000000000000000

def keyless (value : Bytes) : IncomingRecord := ⟨0, [], value, 0⟩

/-- Requests of one record each, every one committed on its own. -/
def fill (value : Bytes) : Nat → List Action
  | 0 => [.start wideConfig, .openWriter]
  | count + 1 => fill value count ++ [.produce [keyless value] clock, .writer]

/-- A writer at its message loop that holds `count` values of four million bytes. -/
structure Filled (count : Nat) (l : Live) : Prop where
  recv : l.writer.phase = .recv
  cfg : l.writer.cfg = wideConfig
  running : l.writer.stopping = false
  pending : l.writer.pending = []
  next : l.writer.nextOffset = count
  bytes : l.writer.activeBytes = 4000000 * count
  values : valueBytes l.writer.active = 4000000 * count

theorem filled_start : ∃ s l, (machine externals).execute [.start wideConfig, .openWriter] fresh = some s ∧
    s.live = some l ∧ Filled 0 l := by
  have runs : ((machine externals).execute [.start wideConfig, .openWriter] fresh).any (fun s =>
      s.live.any (fun l => decide (l.writer.phase = .recv ∧ l.writer.cfg = wideConfig ∧
        l.writer.stopping = false ∧ l.writer.pending = [] ∧ l.writer.nextOffset = 0 ∧
        l.writer.activeBytes = 0 ∧ valueBytes l.writer.active = 0))) = true := by decide +kernel
  obtain ⟨s, ran, facts⟩ := Option.any_eq_true _ _ |>.mp runs
  obtain ⟨l, live, holds⟩ := Option.any_eq_true _ _ |>.mp facts
  obtain ⟨recv, cfg, running, pending, next, bytes, values⟩ := of_decide_eq_true holds
  exact ⟨s, l, ran, live, recv, cfg, running, pending, next, bytes, values⟩

section Fill

variable {value : Bytes} (size : value.length = 4000000)

include size

theorem Filled.more {count : Nat} {s : State} {l : Live} (filled : Filled count l)
    (live : s.live = some l) (room : count < 800) :
    ∃ after l', (machine externals).execute [.produce [keyless value] clock, .writer] s = some after ∧
      after.live = some l' ∧ Filled (count + 1) l' := by
  obtain ⟨recv, cfg, running, pending, next, bytes, values⟩ := filled
  let r : Record := ⟨count, 1700000000000000000, 0, [], value⟩
  have groupCommit : wideConfig.groupCommitSizeBytes = 65536 := rfl
  have segment : wideConfig.segmentSizeBytes = 4294967296 := rfl
  have length : r.size = 4000000 := by simp [r, Record.size, size]
  have stamped : PartitionWriter.stamp clock count [keyless value] = [r] := rfl
  let w : PartitionWriter := { l.writer with
    nextOffset := count + 1
    pending := [r]
    pendingAcks := l.writer.pendingAcks ++ [[r]]
    pendingFirstArrival := true
    phase := .commit }
  have stored : l.writer.onProduce [keyless value] clock = some w := by
    have small : (count : Int) + 1 ≤ i64Max := by simp only [i64Max]; omega
    simp [PartitionWriter.onProduce, next, pending, stamped, cfg, groupCommit, length, small, w]
  have produced : (machine externals).step (.produce [keyless value] clock) s =
      some { s with live := some { l with writer := w } } := by
    simp [machine, step, live, liveStep, recv, stored]
  have committed : w.flushCommit = { w with
      pending := []
      pendingAcks := []
      pendingFirstArrival := false
      active := l.writer.active ++ [r]
      activeBytes := 4000000 * (count + 1)
      produced := w.produced ++ w.pendingAcks.map (fun stored =>
        ⟨stored, commitRecords stored.length (w.nextOffset - 1)⟩)
      phase := .recv } := by
    have low : ¬ 4294967296 ≤ 4000000 * (count + 1) := by omega
    simp [PartitionWriter.flushCommit, w, cfg, segment, bytes, length, running, low, ← Nat.mul_succ]
  obtain ⟨disk, history, taken⟩ : ∃ disk history, writerStep externals
      { s with live := some { l with writer := w } } { l with writer := w } =
        some ⟨disk, some { l with writer := w.flushCommit }, history⟩ := ⟨_, _, rfl⟩
  refine ⟨⟨disk, some { l with writer := w.flushCommit }, history⟩, _, ?_, rfl, ?_⟩
  · exact (Machine.execute_step produced).trans (Machine.execute_step (writer_step rfl taken))
  · rw [committed]
    refine ⟨rfl, cfg, running, rfl, by simp [w], rfl, ?_⟩
    rw [valueBytes_append, values]
    simp [r, valueBytes, size, Nat.mul_succ]

theorem fill_filled {count : Nat} (room : count ≤ 800) :
    ∃ s l, (machine externals).execute (fill value count) fresh = some s ∧ s.live = some l ∧
      Filled count l := by
  induction count with
  | zero => exact filled_start
  | succ count ih =>
    obtain ⟨s, l, ran, live, filled⟩ := ih (by omega)
    obtain ⟨after, l', more, live', filled'⟩ := filled.more size live (by omega)
    refine ⟨after, l', ?_, live', filled'⟩
    rw [fill, Machine.execute_append, ran]
    exact more

end Fill

theorem handed_while_roomy_recovered :
    (∃ s, (machine externals).execute recoveredRun fresh = some s ∧ Handed s ∧
      s.live.map (fun l => l.uploader.rx.length) = some 1) ∧
    ∃ s next final, step externals (.produce [keyless (zeros 4000000)] clock) s = some next ∧
      (machine externals).Leads next final ∧ ¬ Handed final := by
  constructor
  · have runs : ((machine externals).execute recoveredRun fresh).any (fun s =>
        s.live.map (fun l => l.uploader.rx.length) == some 1) = true := by decide +kernel
    have along : (machine externals).Along (fun s action => Admits Regime.any s action ∧ FindsRoom s action)
        recoveredRun fresh := by decide +kernel
    obtain ⟨s, ran, facts⟩ := Option.any_eq_true _ _ |>.mp runs
    have roomy := (handed_while_roomy externals).2.2.1 recoveredRun along
    exact ⟨s, ran, ((handed_while_roomy externals).2.1 recoveredRun roomy).final ran, beq_iff_eq.mp facts⟩
  · obtain ⟨s, l, ran, live, filled⟩ := @fill_filled _ (Produce.zeros_length 4000000) 536 (by omega)
    have large : ¬ Roomy externals s (.produce [keyless (zeros 4000000)] clock) := by
      intro roomy
      have values := (roomy.1 l live filled.recv).2
      simp [held, filled.pending, filled.values, keyless, offsetMax] at values
    obtain ⟨next, _, produced, _⟩ := filled.more (Produce.zeros_length 4000000) live (by omega)
    obtain ⟨after, taken, _⟩ := Machine.execute_cons produced
    obtain ⟨final, leads, bad⟩ := (handed_while_roomy externals).2.2.2 s _ after taken large
    exact ⟨s, after, final, taken, leads, bad⟩

theorem keyless_admitted : produceInner wideConfig [⟨0, 4000000, 0, 0⟩] (zeros 4000000) =
    .ok [keyless (zeros 4000000)] := by
  have single := @Produce.produceInner_single wideConfig ⟨0, 4000000, 0, 0⟩ [] (zeros 4000000) rfl
    (Produce.zeros_length _) (by decide) (by decide)
  rwa [List.nil_append] at single

/-- 537 requests of one such value each, and the writer is stopped. -/
def overfill : List Action :=
  fill (zeros 4000000) 537 ++ [.shutdownWriter, .writer, .writer, .writer]

theorem overfill_hands : wideOverrides.validate = .ok () ∧
    produceInner wideConfig [⟨0, 4000000, 0, 0⟩] (zeros 4000000) = .ok [keyless (zeros 4000000)] ∧
    ∃ s l batch, (machine externals).execute overfill fresh = some s ∧ s.live = some l ∧
      UploaderMsg.upload batch ∈ l.uploader.rx ∧ ¬ Small batch.records ∧
      SegmentColumns.recordsToRecordbatch batch.records = none := by
  refine ⟨by decide, keyless_admitted, ?_⟩
  obtain ⟨s, l, ran, live, filled⟩ := @fill_filled _ (Produce.zeros_length 4000000) 537 (by omega)
  have large : ¬ Small (held l.writer) := by
    simp [Small, held, filled.pending, filled.values, offsetMax]
  obtain ⟨final, rest, bad⟩ := @recv_hands externals _ _ live filled.recv large
  simp only [Handed, not_forall] at bad
  obtain ⟨after, live', batch, queued, big⟩ := bad
  refine ⟨final, after, batch, ?_, live', queued, big, ?_⟩
  · rw [overfill, Machine.execute_append, ran]
    exact rest
  · rw [small_iff] at big
    exact Option.not_isSome_iff_eq_none.mp big

end Samples

end Kafkrs.BatchSize
