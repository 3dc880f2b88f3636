import Kafkrs.Accounting
import Mathlib.Algebra.BigOperators.Fin

/-! The gauges of one topic, as the writers of its partitions set and move them. A process starts with
all of them at zero; `partition_label` gives each partition its own series or all of them one. As in
the partition's steps, every call on a WAL file succeeds, the opening of the next one among them. -/
namespace Kafkrs.Metrics

open Lib Wal Pipeline Kafkrs.Partition Refinement InMemory Accounting

abbrev Label (count : Nat) := Option (Fin count)

/-- The values by label; integers stand for the `f64` of the recorder. -/
structure Gauges (count : Nat) where
  recordsInMemory : Label count → Int
  bytesInMemory : Label count → Int
  hwmOffset : Label count → Int
  walFiles : Label count → Int
  segmentsUploaded : Label count → Int

def Gauges.zero {count : Nat} : Gauges count :=
  ⟨fun _ => 0, fun _ => 0, fun _ => 0, fun _ => 0, fun _ => 0⟩

def setTo {count : Nat} (series : Label count → Int) (label : Label count) (value : Int) :
    Label count → Int := Function.update series label value

def increment {count : Nat} (series : Label count → Int) (label : Label count) (amount : Int) :
    Label count → Int := Function.update series label (series label + amount)

section Model

variable {count : Nat} (highCardinality : Bool)

def partitionLabel (p : Fin count) : Label count := if highCardinality then some p else none

def Gauges.updateState (g : Gauges count) (label : Label count) (records bytes : Nat) : Gauges count :=
  { g with
    recordsInMemory := setTo g.recordsInMemory label records
    bytesInMemory := setTo g.bytesInMemory label bytes }

/-- `spawn_partition` counts the orphans on the topic's own series, and `PartitionWriter::new` the file
that it opens. -/
def Gauges.openWriter (g : Gauges count) (label : Label count) (orphans : Nat) (w : PartitionWriter) :
    Gauges count :=
  let g := { g with walFiles := increment g.walFiles none orphans }
  let g := g.updateState label w.active.length w.activeBytes
  { g with
    hwmOffset := setTo g.hwmOffset label w.nextOffset
    walFiles := increment g.walFiles label 1 }

def Gauges.commit (g : Gauges count) (label : Label count) (w : PartitionWriter) : Gauges count :=
  if w.pending.isEmpty then g
  else
    let g := g.updateState label w.flushCommit.active.length w.flushCommit.activeBytes
    { g with hwmOffset := setTo g.hwmOffset label w.nextOffset }

def Gauges.move (g : Gauges count) (p : Fin count) (orphans : Nat) (l : Live) :
    Partition.Action → Gauges count
  | .openWriter => g.openWriter (partitionLabel highCardinality p) orphans l.writer
  | .segmentDurable =>
    { g with
      segmentsUploaded := increment g.segmentsUploaded (partitionLabel highCardinality p) 1
      walFiles := increment g.walFiles (partitionLabel highCardinality p) (-1) }
  | .writer =>
    match l.writer.phase with
    | .commit => g.commit (partitionLabel highCardinality p) l.writer
    | .seal =>
      if l.writer.active.isEmpty then g else g.updateState (partitionLabel highCardinality p) 0 0
    | .openNext => { g with walFiles := increment g.walFiles (partitionLabel highCardinality p) 1 }
    | _ => g
  | _ => g

/-- `orphans` is the `orphan_count` of each partition's `spawn_partition`. -/
structure State (count : Nat) where
  partitions : Fin count → Partition.State
  orphans : Fin count → Nat
  gauges : Gauges count

inductive Action (count : Nat) where
  | partition (p : Fin count) (action : Partition.Action)
  /-- The process dies, each append in progress with so many of its bytes on disk. -/
  | crash (cut : Fin count → Nat)

def orphanCount (s next : Partition.State) (orphans : Nat) : Nat :=
  match s.live with
  | none => (next.live.map fun l => l.orphans.length).getD 0
  | some _ => orphans

def State.advance (s : State count) (p : Fin count) (action : Partition.Action)
    (next : Partition.State) : State count :=
  { partitions := Function.update s.partitions p next
    orphans := Function.update s.orphans p (orphanCount (s.partitions p) next (s.orphans p))
    gauges :=
      match (s.partitions p).live with
      | none => s.gauges
      | some l => s.gauges.move highCardinality p (s.orphans p) l action }

def step (env : Externals) (action : Action count) (s : State count) : Option (State count) :=
  match action with
  | .partition _ (.crash _) => none
  | .partition p action =>
    (Partition.step env action (s.partitions p)).map (s.advance highCardinality p action)
  | .crash cut =>
    some { s with
      partitions := fun p =>
        (Partition.step env (.crash (cut p)) (s.partitions p)).getD (s.partitions p)
      gauges := .zero }

def machine (env : Externals) : Machine (State count) (Action count) :=
  ⟨⟨fun _ => fresh, fun _ => 0, .zero⟩, step highCardinality env⟩

end Model

def opened (s : Partition.State) : Option Live :=
  s.live.filter fun l => decide (l.writer.phase ≠ .starting)

/-- The WAL files of an open writer that hold a record or are the open one. A partition that is still
starting has none counted, whatever is on its disk. -/
def heldFiles (env : Externals) (s : Partition.State) : Nat :=
  match opened s with
  | none => 0
  | some l =>
    (s.disk.wal.keys.filter fun base => decide (Filed env.crc32c s.disk.wal base ∨
      (view l).active.map Prod.fst = some base)).length

def tally (s : Partition.State) : Int :=
  match opened s with
  | none => 0
  | some l => (bases l).length + (view l).active.toList.length

def recovered (s : Partition.State) (orphans : Nat) : Int :=
  match opened s with
  | none => 0
  | some _ => orphans

structure Tallied (env : Externals) (s : Partition.State) (orphans : Nat) : Prop where
  invariant : Invariant env .any s
  tended : Tended env (abstract s)
  filed : ∀ l, s.live = some l → ∀ base ∈ (view l).notified, Filed env.crc32c s.disk.wal base
  bytes : ∀ l, s.live = some l → l.writer.activeBytes = (l.writer.active.map Record.size).sum
  found : ∀ l, s.live = some l → l.writer.phase = .starting → (bases l).length = orphans

section Partition

variable {env : Externals} {s next : Partition.State} {l : Live} {orphans : Nat}
  {action : Partition.Action}

theorem opened_some (live : opened s = some l) : s.live = some l ∧ l.writer.phase ≠ .starting := by
  obtain ⟨found, ready⟩ := Option.filter_eq_some_iff.mp live
  exact ⟨found, of_decide_eq_true ready⟩

theorem Tallied.heldFiles_eq (tallied : Tallied env s orphans) :
    (heldFiles env s : Int) = tally s := by
  unfold heldFiles tally
  split
  · rfl
  next l isOpened =>
    obtain ⟨live, ready⟩ := opened_some isOpened
    have running := tallied.invariant.valid.running (view l) (by simp [abstract, live])
    have sorted := bases_sorted tallied.invariant live
    have present {base : Int} (filed : Filed env.crc32c s.disk.wal base) :
        base ∈ s.disk.wal.keys := by
      obtain ⟨_, ⟨bytes, found, _⟩, _⟩ := filed
      exact (Dir.mem_keys _).mpr (by simp [found])
    have same : s.disk.wal.keys.filter (fun base => decide (Filed env.crc32c s.disk.wal base ∨
        (view l).active.map Prod.fst = some base)) |>.Perm
          (bases l ++ (view l).active.toList.map Prod.fst) := by
      refine (List.perm_ext_iff_of_nodup ((Dir.keys_nodup _).filter _)
        (sorted.imp fun lower => ne_of_lt lower)).mpr fun base => ?_
      rw [List.mem_filter, decide_eq_true_eq]
      constructor
      · rintro ⟨_, filed | active⟩
        · exact tallied.tended (view l) (by simp [abstract, live]) base filed
        · obtain ⟨segment, isActive, rfl⟩ := Option.map_eq_some_iff.mp active
          simp [isActive]
      · intro member
        rcases List.mem_append.mp member with older | active
        · rcases List.mem_append.mp older with told | waiting
          · have filed := tallied.filed l live base told
            exact ⟨present filed, .inl filed⟩
          · obtain ⟨⟨_, records⟩, inside, rfl⟩ := List.mem_map.mp waiting
            obtain ⟨held, nonempty, _⟩ := running.backlog _ records inside
            exact ⟨present ⟨records, held, nonempty⟩, .inl ⟨records, held, nonempty⟩⟩
        · obtain ⟨⟨_, records⟩, inside, rfl⟩ := List.mem_map.mp active
          have isActive := Option.mem_toList.mp inside
          have found := (running.activeFile isActive (by simpa [view] using ready)).2
          exact ⟨(Dir.mem_keys _).mpr (Option.isSome_iff_exists.mpr ⟨_, found⟩), .inr (by rw [isActive]; rfl)⟩
    rw [same.length_eq]
    simp

/-- The WAL file of a reported segment is there until the writer removes it. -/
theorem filed_step {s t : Lifecycle.State} {regime : Regime} (valid : Lifecycle.Valid env s)
    (event : Lifecycle.Step env regime s t)
    (filed : ∀ v, s.view = some v → ∀ base ∈ v.notified, Filed env.crc32c s.disk.wal base) :
    ∀ v, t.view = some v → ∀ base ∈ v.notified, Filed env.crc32c t.disk.wal base := by
  intro v same base member
  have opens {files : Recovery.WalDir} {other : Int} (had : Filed env.crc32c files base) :
      Filed env.crc32c (openFile files other) base :=
    had.imp fun _ held => held.imp_left holds_openFile
  cases event with
  | idle => exact filed v same base member
  | crash | tear | interrupt => cases same
  | start =>
    cases same
    cases member
  | receive | put | delete | evict | sealActive =>
    cases same
    exact filed _ rfl base member
  | openNext | openFirst =>
    cases same
    exact opens (filed _ rfl base member)
  | @append _ _ _ activeBase _ active =>
    cases same
    have order := (valid.running _ rfl).order
    rw [active, List.append_assoc] at order
    have below := (List.pairwise_append.mp order).2.2 base member activeBase (by simp)
    exact (filed _ rfl base member).imp fun _ held =>
      held.imp_left fun held => holds_appendFile held (ne_of_gt below) _
  | @list _ _ _ listedBase first records rest oldest =>
    cases same
    rcases List.mem_append.mp member with old | new
    · exact filed _ rfl base old
    · obtain rfl := List.mem_singleton.mp new
      obtain ⟨held, nonempty, _⟩ := (valid.running _ rfl).backlog base (first :: records) (by simp [oldest])
      exact ⟨_, held, nonempty⟩
  | remove oldest =>
    cases same
    have order := (valid.running _ rfl).order
    rw [oldest, List.append_assoc, List.cons_append, List.pairwise_cons] at order
    have later := order.1 base (List.mem_append_left _ member)
    exact (filed _ rfl base (by rw [oldest]; exact List.mem_cons_of_mem _ member)).imp fun _ held =>
      held.imp_left fun held => holds_erase.mpr ⟨ne_of_lt later, held⟩

theorem bytes_moved {l' : Live} (moved : Moved env s l action next) (live : next.live = some l')
    (bytes : l.writer.activeBytes = (l.writer.active.map Record.size).sum) :
    l'.writer.activeBytes = (l'.writer.active.map Record.size).sum := by
  cases moved with
  | produce ready filled stored =>
    cases live
    obtain ⟨_, _, _, rfl⟩ := PartitionWriter.onProduce_some stored
    exact bytes
  | commit phase =>
    cases live
    unfold PartitionWriter.flushCommit
    split
    · exact bytes
    · simp only [List.map_append, List.sum_append, bytes]
  | sealActive phase =>
    cases live
    unfold PartitionWriter.sealActive
    split
    · exact bytes
    · rfl
  | crash => cases live
  | _ =>
    cases live
    exact bytes

/-- Only `PartitionWriter::new` ends the start. -/
theorem starting_moved {l' : Live} (moved : Moved env s l action next) (live : next.live = some l') :
    l'.writer.phase = .starting ↔ l.writer.phase = .starting ∧ action ≠ .openWriter := by
  cases moved with
  | openWriter => cases live; simp
  | produce ready filled stored =>
    cases live
    obtain ⟨_, phase, goes, rfl⟩ := PartitionWriter.onProduce_some stored
    rcases goes with rfl | rfl <;> simp [ready]
  | commit phase =>
    cases live
    simp only [PartitionWriter.flushCommit]
    split <;> (dsimp only; split <;> simp [phase])
  | sealActive phase =>
    cases live
    simp only [PartitionWriter.sealActive, PartitionWriter.resume]
    split
    · dsimp only
      split <;> simp [phase]
    · simp [phase]
  | openNext phase =>
    cases live
    simp only [PartitionWriter.openNext, PartitionWriter.resume]
    split <;> simp [phase]
  | handoff phase => cases live; simp [phase]
  | commitTimeout ready | shutdownWriter ready | updateWriter ready | segmentDurable first ready =>
    cases live
    simp [ready, PartitionWriter.onDurable]
  | sendOrphan | enqueue | uploader => cases live; simp
  | crash => cases live

theorem found_moved {l' : Live} (moved : Moved env s l action next) (live : next.live = some l')
    (found : l.writer.phase = .starting → (bases l).length = orphans)
    (starting : l'.writer.phase = .starting) : (bases l').length = orphans := by
  obtain ⟨before, other⟩ := (starting_moved moved live).mp starting
  rw [← found before]
  cases moved with
  | openWriter => exact absurd rfl other
  | sendOrphan first made =>
    cases live
    obtain ⟨_, record, records, rfl, rfl⟩ := orphanBatch_some made
    simp only [bases_eq, owed, first, queued_append, queued_upload, queued_nil, List.map_append,
      List.length_append, List.length_map, List.length_cons, List.length_nil]
    omega
  | enqueue =>
    cases live
    simp [bases_eq, owed]
  | uploader stepped =>
    cases live
    refine congrArg List.length ?_
    simp only [bases_eq, List.append_assoc, ← owed_step stepped]
  | crash => cases live
  | produce ready | commitTimeout ready | shutdownWriter ready | updateWriter ready
  | segmentDurable _ ready | commit ready | sealActive ready | handoff ready | openNext ready =>
    exact absurd (before.symm.trans ready) (by simp)

theorem Tallied.step (tallied : Tallied env s orphans) (admits : Admits .any s action)
    (taken : Partition.step env action s = some next) :
    Tallied env next (orphanCount s next orphans) := by
  have inv := tallied.invariant
  have event := (step_simulated inv admits taken).event
  have kept := filed_step inv.valid event fun v same => by
    obtain ⟨l, live, rfl⟩ := Option.map_eq_some_iff.mp same
    exact tallied.filed l live
  refine ⟨inv.step admits taken, tallied.tended.step inv.valid event, fun l live =>
    kept (view l) (by simp [abstract, live]), fun l' live' => ?_, fun l' live' starting => ?_⟩
  · cases step_stepped taken with
    | @moved l _ _ live moved => exact bytes_moved moved live' (tallied.bytes l live)
    | interrupt down => exact absurd (down.symm.trans live') (by simp)
    | start =>
      cases live'
      rfl
  · cases step_stepped taken with
    | @moved l _ _ live moved =>
      rw [orphanCount, live]
      exact found_moved moved live' (tallied.found l live) starting
    | interrupt down => exact absurd (down.symm.trans live') (by simp)
    | start down =>
      cases live'
      simp [orphanCount, down, bases_eq, owed, Uploader.new, PartitionWriter.new, handing, reporting,
        uploading, queued]

/-- What a step adds to the topic's own series of `wal_files`, and to the partition's. -/
def walChange (l : Live) (orphans : Nat) : Partition.Action → Int × Int
  | .openWriter => (orphans, 1)
  | .segmentDurable => (0, -1)
  | .writer => if l.writer.phase = .openNext then (0, 1) else (0, 0)
  | _ => (0, 0)

theorem opened_live (live : s.live = some l) :
    opened s = if l.writer.phase = .starting then none else some l := by
  by_cases starting : l.writer.phase = .starting <;> simp [opened, live, starting]

theorem opened_down (down : s.live = none) : opened s = none := by
  rw [opened, down, Option.filter_none]

theorem tally_live (live : s.live = some l) : tally s =
    if l.writer.phase = .starting then 0
    else (bases l).length + if between l.writer.phase then 0 else 1 := by
  by_cases starting : l.writer.phase = .starting
  · simp [tally, opened_live live, starting]
  · simp only [tally, opened_live live, starting, if_false, view]
    split <;> rfl

/-- The segments an open writer has files of, step by step. -/
theorem tally_moved (tallied : Tallied env s orphans) (live : s.live = some l)
    (moved : Moved env s l action next) {l' : Live} (live' : next.live = some l') :
    tally next = tally s + (walChange l orphans action).1 + (walChange l orphans action).2 := by
  rw [tally_live live, tally_live live']
  cases moved with
  | sendOrphan first made =>
    cases live'
    have starting : l.writer.phase = .starting := by
      by_contra other
      simp [(tallied.invariant.shape l live).orphans other] at first
    simp [starting, walChange]
  | openWriter starting =>
    cases live'
    have found := tallied.found l live starting
    simp only [bases_eq, starting, handing] at found ⊢
    simp [walChange, between, ← found]
  | produce ready filled stored =>
    cases live'
    obtain ⟨_, phase, goes, rfl⟩ := PartitionWriter.onProduce_some stored
    simp only [bases_eq, ready]
    rcases goes with rfl | rfl <;> simp [walChange, handing, between]
  | commitTimeout ready | shutdownWriter ready =>
    cases live'
    simp [bases_eq, ready, walChange, handing, between]
  | updateWriter =>
    cases live'
    simp [bases_eq, walChange]
  | segmentDurable first ready =>
    cases live'
    simp [bases_eq, ready, first, PartitionWriter.onDurable, walChange, between, handing]
  | commit phase =>
    cases live'
    simp only [bases_eq, PartitionWriter.flushCommit, phase, walChange]
    split <;> (dsimp only; split <;> simp [between, handing])
  | sealActive phase =>
    cases live'
    cases active : l.writer.active with
    | nil =>
      simp only [bases_eq, PartitionWriter.sealActive, active, PartitionWriter.resume, phase, walChange]
      split <;> simp [between, handing]
    | cons first rest =>
      simp only [bases_eq, PartitionWriter.sealActive, active, phase, walChange]
      simp [between, handing, add_assoc]
  | handoff phase =>
    cases live'
    simp [bases_eq, owed, phase, walChange, between, handing]
  | openNext phase =>
    cases live'
    simp only [bases_eq, PartitionWriter.openNext, PartitionWriter.resume, phase, walChange]
    split <;> simp [between, handing]
  | enqueue =>
    cases live'
    simp [bases_eq, owed, walChange]
  | uploader stepped =>
    cases live'
    simp only [bases_eq, List.append_assoc, ← owed_step stepped, walChange]
    omega
  | crash => cases live'

theorem recovered_live (live : s.live = some l) :
    recovered s orphans = if l.writer.phase = .starting then 0 else orphans := by
  by_cases starting : l.writer.phase = .starting <;> simp [recovered, opened_live live, starting]

/-- An orphan is counted when the writer opens, and then for as long as it runs. -/
theorem recovered_moved (live : s.live = some l) (moved : Moved env s l action next) {l' : Live}
    (live' : next.live = some l') :
    recovered next orphans = recovered s orphans + (walChange l orphans action).1 := by
  rw [recovered_live live, recovered_live live']
  have same := starting_moved moved live'
  cases moved with
  | openWriter starting => simp [same, starting, walChange]
  | commit phase | sealActive phase | handoff phase | openNext phase => simp [same, phase, walChange]
  | _ => simp [same, walChange]

end Partition

section Series

variable {count : Nat} {highCardinality : Bool} {p : Fin count} {g : Gauges count} {l l' : Live}
  {orphans : Nat} {env : Externals} {s next : Partition.State} {action : Partition.Action}

theorem increment_zero (series : Label count → Int) (label : Label count) :
    increment series label 0 = series := by
  rw [increment, Int.add_zero, Function.update_eq_self]

theorem move_walFiles : (g.move highCardinality p orphans l action).walFiles =
    increment (increment g.walFiles none (walChange l orphans action).1)
      (partitionLabel highCardinality p) (walChange l orphans action).2 := by
  cases action with
  | openWriter => rfl
  | segmentDurable => simp only [Gauges.move, walChange, increment_zero]
  | writer =>
    simp only [Gauges.move, walChange]
    split
    next phase =>
      simp only [phase, reduceCtorEq, if_false, increment_zero, Gauges.commit]
      split <;> rfl
    next phase =>
      simp only [phase, reduceCtorEq, if_false, increment_zero]
      split <;> rfl
    next phase => simp only [phase, if_true, increment_zero]
    next other => simp only [if_neg other, increment_zero]
  | _ => simp only [Gauges.move, walChange, increment_zero]

/-- What the gauges of a series last showed of a writer: its active batch, and the offset after the
last committed. -/
def activeBatch (l : Live) : Int × Int :=
  (l.writer.active.length, (l.writer.active.map Record.size).sum)

def committedEnd (l : Live) : Int := l.writer.nextOffset - l.writer.pending.length

def Gauges.inMemory (g : Gauges count) (label : Label count) : Int × Int :=
  (g.recordsInMemory label, g.bytesInMemory label)

/-- A series set by a step shows the writer after it; otherwise neither has changed. -/
structure Follows {X : Type} (value value' : Label count → X) (label : Label count) (truth : Live → X)
    (s next : Partition.State) : Prop where
  others : ∀ other, other ≠ label → value' other = value other
  own : (∃ l', opened next = some l' ∧ value' label = truth l') ∨
    (value' label = value label ∧ (opened next).map truth = (opened s).map truth)

theorem Follows.refl {X : Type} {value : Label count → X} {label : Label count} {truth : Live → X}
    (same : (opened next).map truth = (opened s).map truth) : Follows value value label truth s next :=
  ⟨fun _ _ => rfl, .inr ⟨rfl, same⟩⟩

theorem updateState_inMemory (label : Label count) (records bytes : Nat) :
    (g.updateState label records bytes).inMemory =
      Function.update g.inMemory label ((records : Int), (bytes : Int)) := by
  funext other
  by_cases same : other = label
  · subst same
    simp [Gauges.inMemory, Gauges.updateState, setTo]
  · simp [Gauges.inMemory, Gauges.updateState, setTo, same]

/-- Setting one series. -/
theorem Follows.set {X : Type} {value : Label count → X} {label : Label count} {truth : Live → X}
    (now : opened next = some l') {x : X} (same : x = truth l') :
    Follows value (Function.update value label x) label truth s next :=
  ⟨fun _ different => Function.update_of_ne different _ _,
    .inl ⟨l', now, by rw [Function.update_self, same]⟩⟩

/-- A step that leaves alone both the series and what it shows of the writer. -/
theorem Follows.keep {X : Type} {value : Label count → X} {label : Label count} {truth : Live → X}
    (live : s.live = some l) (moved : Moved env s l action next) (live' : next.live = some l')
    (other : action ≠ .openWriter) (same : truth l' = truth l) :
    Follows value value label truth s next := by
  have starting : l'.writer.phase = .starting ↔ l.writer.phase = .starting := by
    simp [starting_moved moved live', other]
  refine .refl ?_
  rw [opened_live live, opened_live live']
  simp only [starting]
  split
  · rfl
  · rw [Option.map_some, Option.map_some, same]

theorem commit_empty {w : PartitionWriter} {label : Label count} (empty : w.pending.isEmpty = true) :
    g.commit label w = g := if_pos empty

theorem commit_filled {w : PartitionWriter} {label : Label count} (filled : ¬ w.pending.isEmpty = true) :
    g.commit label w =
      { g.updateState label w.flushCommit.active.length w.flushCommit.activeBytes with
        hwmOffset := setTo g.hwmOffset label w.nextOffset } := if_neg filled

theorem opened_moved (moved : Moved env s l action next) (live' : next.live = some l')
    (ready : l.writer.phase ≠ .starting ∨ action = .openWriter) : opened next = some l' := by
  rw [opened_live live', if_neg]
  rw [starting_moved moved live']
  tauto

theorem Follows.inMemory (tallied : Tallied env s orphans) (live : s.live = some l)
    (moved : Moved env s l action next) {l' : Live} (live' : next.live = some l') :
    Follows g.inMemory (g.move highCardinality p orphans l action).inMemory
      (partitionLabel highCardinality p) activeBatch s next := by
  have now := opened_moved moved live'
  have keeps (other : action ≠ .openWriter) (same : activeBatch l' = activeBatch l) : Follows g.inMemory g.inMemory
      (partitionLabel highCardinality p) activeBatch s next := .keep live moved live' other same
  have bytes := bytes_moved moved live' (tallied.bytes l live)
  cases moved with
  | openWriter =>
    cases live'
    refine (updateState_inMemory _ _ _).symm ▸ Follows.set (now (.inr rfl)) ?_
    simp only [activeBatch, ← bytes]
  | commit phase =>
    simp only [Gauges.move, phase]
    by_cases empty : l.writer.pending.isEmpty = true
    · rw [commit_empty empty]
      refine keeps (by simp) ?_
      cases live'
      simp [PartitionWriter.flushCommit, empty, activeBatch]
    · rw [commit_filled empty]
      cases live'
      refine (updateState_inMemory _ _ _).symm ▸ Follows.set (now (.inl (by simp [phase]))) ?_
      simp only [activeBatch, ← bytes]
  | sealActive phase =>
    simp only [Gauges.move, phase]
    split
    next empty =>
      refine keeps (by simp) ?_
      cases live'
      simp [PartitionWriter.sealActive, List.isEmpty_iff.mp empty, activeBatch]
    next filled =>
      cases live'
      refine updateState_inMemory _ _ _ ▸ Follows.set (now (.inl (by simp [phase]))) ?_
      obtain ⟨first, rest, active⟩ := List.exists_cons_of_ne_nil (mt List.isEmpty_iff.mpr filled)
      simp [PartitionWriter.sealActive, active, activeBatch]
  | handoff phase | openNext phase =>
    simp only [Gauges.move, phase]
    cases live'
    exact keeps (by simp) rfl
  | produce ready filled stored =>
    cases live'
    obtain ⟨_, _, _, rfl⟩ := PartitionWriter.onProduce_some stored
    exact keeps (by simp) rfl
  | crash => cases live'
  | _ =>
    cases live'
    exact keeps (by simp) rfl

theorem Follows.hwmOffset (tallied : Tallied env s orphans) (live : s.live = some l)
    (moved : Moved env s l action next) {l' : Live} (live' : next.live = some l') :
    Follows g.hwmOffset (g.move highCardinality p orphans l action).hwmOffset
      (partitionLabel highCardinality p) committedEnd s next := by
  have now := opened_moved moved live'
  have keeps (other : action ≠ .openWriter) (same : committedEnd l' = committedEnd l) : Follows g.hwmOffset g.hwmOffset
      (partitionLabel highCardinality p) committedEnd s next := .keep live moved live' other same
  cases moved with
  | openWriter starting =>
    cases live'
    have pending := (tallied.invariant.shape l live).writer.committed (by simp [starting])
      (by simp [starting])
    exact Follows.set (now (.inr rfl)) (by simp [committedEnd, pending])
  | commit phase =>
    simp only [Gauges.move, phase]
    by_cases empty : l.writer.pending.isEmpty = true
    · rw [commit_empty empty]
      refine keeps (by simp) ?_
      cases live'
      simp [PartitionWriter.flushCommit, empty, committedEnd]
    · rw [commit_filled empty]
      cases live'
      refine Follows.set (now (.inl (by simp [phase]))) ?_
      simp [PartitionWriter.flushCommit, empty, committedEnd]
  | sealActive phase =>
    have same : ((if l.writer.active.isEmpty then g
        else g.updateState (partitionLabel highCardinality p) 0 0)).hwmOffset = g.hwmOffset := by
      split <;> rfl
    simp only [Gauges.move, phase, same]
    refine keeps (by simp) ?_
    cases live'
    cases active : l.writer.active <;> simp [PartitionWriter.sealActive, active, committedEnd]
  | handoff phase | openNext phase =>
    simp only [Gauges.move, phase]
    cases live'
    exact keeps (by simp) rfl
  | produce ready filled stored =>
    cases live'
    obtain ⟨_, _, _, rfl⟩ := PartitionWriter.onProduce_some stored
    refine keeps (by simp) ?_
    simp only [committedEnd, List.length_append, PartitionWriter.stamp_length]
    omega
  | crash => cases live'
  | _ =>
    cases live'
    exact keeps (by simp) rfl

/-- A series shows one of the open writers that have it. -/
def Shows {X : Type} (highCardinality : Bool) (parts : Fin count → Partition.State)
    (value : Label count → X) (truth : Live → X) : Prop :=
  ∀ p l, opened (parts p) = some l → ∃ q l', opened (parts q) = some l' ∧
    partitionLabel highCardinality q = partitionLabel highCardinality p ∧
      value (partitionLabel highCardinality p) = truth l'

theorem Shows.step {X : Type} {parts : Fin count → Partition.State} {value value' : Label count → X}
    {truth : Live → X} (shows : Shows highCardinality parts value truth)
    (follows : Follows value value' (partitionLabel highCardinality p) truth (parts p) next) :
    Shows highCardinality (Function.update parts p next) value' truth := by
  intro q l isOpened
  have other (r : Fin count) (different : r ≠ p) : Function.update parts p next r = parts r :=
    Function.update_of_ne different _ _
  by_cases label : partitionLabel highCardinality q = partitionLabel highCardinality p
  · rw [label]
    rcases follows.own with ⟨l', now, shown⟩ | ⟨unset, kept⟩
    · exact ⟨p, l', by rw [Function.update_self, now], rfl, shown⟩
    · -- Whoever the series showed still has what it showed.
      have before : ∃ r l', opened (parts r) = some l' ∧
          partitionLabel highCardinality r = partitionLabel highCardinality p := by
        by_cases same : q = p
        · subst same
          rw [Function.update_self] at isOpened
          rw [isOpened] at kept
          obtain ⟨l', was, _⟩ := Option.map_eq_some_iff.mp kept.symm
          exact ⟨q, l', was, label⟩
        · exact ⟨q, l, by rw [← other q same, isOpened], label⟩
      obtain ⟨r, l', was, same⟩ := before
      obtain ⟨shown, l'', isShown, sameLabel, value⟩ := shows r l' was
      rw [same] at sameLabel value
      by_cases here : shown = p
      · subst here
        rw [isShown] at kept
        obtain ⟨after, now, truth⟩ := Option.map_eq_some_iff.mp kept
        exact ⟨shown, after, by rw [Function.update_self, now], rfl, by rw [unset, value, truth]⟩
      · exact ⟨shown, l'', by rw [other shown here, isShown], sameLabel, by rw [unset, value]⟩
  · have different : q ≠ p := fun same => label (congrArg _ same)
    rw [other q different] at isOpened
    obtain ⟨shown, l', isShown, sameLabel, value⟩ := shows q l isOpened
    have elsewhere : shown ≠ p := fun same => label (sameLabel.symm.trans (congrArg _ same))
    exact ⟨shown, l', by rw [other shown elsewhere, isShown], sameLabel,
      by rw [follows.others _ label, value]⟩

end Series

/-- What `wal_files` comes to, from the orphans and the files of each partition. -/
def expected {count : Nat} (highCardinality : Bool) (orphans files : Fin count → Int) :
    Label count → Int
  | none => ∑ p, if highCardinality then orphans p else files p
  | some p => if highCardinality then files p - orphans p else 0

def Admitted {count : Nat} (s : State count) : Action count → Prop
  | .partition p action => Admits .any (s.partitions p) action
  | .crash _ => True

structure Valid {count : Nat} (highCardinality : Bool) (env : Externals) (s : State count) : Prop where
  partitions : ∀ p, Tallied env (s.partitions p) (s.orphans p)
  walFiles : s.gauges.walFiles = expected highCardinality
    (fun p => recovered (s.partitions p) (s.orphans p)) (fun p => tally (s.partitions p))
  inMemory : Shows highCardinality s.partitions s.gauges.inMemory activeBatch
  hwmOffset : Shows highCardinality s.partitions s.gauges.hwmOffset committedEnd

section Run

variable {count : Nat} {highCardinality : Bool} {env : Externals} {s next : State count} {p : Fin count}
  {after : Partition.State} {action : Partition.Action}

theorem sum_update (f : Fin count → Int) (p : Fin count) (x : Int) :
    ∑ q, Function.update f p (f p + x) q = ∑ q, f q + x := by
  have each (q : Fin count) :
      Function.update f p (f p + x) q = f q + if q = p then x else 0 := by
    by_cases same : q = p
    · subst same
      simp
    · simp [same]
  simp [each, Finset.sum_add_distrib]

/-- A partition's change is on its own series, less the orphans counted on the topic's. -/
theorem expected_update (orphans files : Fin count → Int) (p : Fin count) (found more : Int) :
    expected highCardinality (Function.update orphans p (orphans p + found))
        (Function.update files p (files p + found + more)) =
      increment (increment (expected highCardinality orphans files) none found)
        (partitionLabel highCardinality p) more := by
  funext label
  cases highCardinality with
  | false =>
    cases label with
    | none =>
      simp only [expected, increment, partitionLabel, Bool.false_eq_true, if_false,
        Function.update_self, Int.add_assoc, sum_update]
    | some q => simp [expected, increment, partitionLabel]
  | true =>
    cases label with
    | none =>
      simp only [expected, increment, partitionLabel, if_true, sum_update]
      simp
    | some q =>
      by_cases same : q = p
      · subst same
        simp [expected, increment, partitionLabel]
        omega
      · simp [expected, increment, partitionLabel, same]

theorem opened_started (down : (s.partitions p).live = none)
    (taken : Partition.step env action (s.partitions p) = some after) : opened after = none := by
  cases step_stepped taken with
  | moved live => exact absurd (down.symm.trans live) (by simp)
  | interrupt => exact opened_down down
  | start => exact (opened_live rfl).trans (if_pos rfl)

theorem update_tally (x : Partition.State) : (fun q => tally (Function.update s.partitions p x q)) =
    Function.update (fun q => tally (s.partitions q)) p (tally x) := by
  funext q
  exact Function.apply_update (fun _ => tally) s.partitions p x q

theorem update_recovered (x : Partition.State) (n : Nat) :
    (fun q => recovered (Function.update s.partitions p x q) (Function.update s.orphans p n q)) =
      Function.update (fun q => recovered (s.partitions q) (s.orphans q)) p (recovered x n) := by
  funext q
  by_cases same : q = p
  · subst same
    simp
  · simp [same]

/-- A step of one partition, with what it does to the three kinds of series. -/
theorem Valid.advance (valid : Valid highCardinality env s) {gauges : Gauges count}
    (admits : Admits .any (s.partitions p) action)
    (taken : Partition.step env action (s.partitions p) = some after) {found more : Int}
    (files : tally after = tally (s.partitions p) + found + more)
    (orphans : recovered after (orphanCount (s.partitions p) after (s.orphans p)) =
      recovered (s.partitions p) (s.orphans p) + found)
    (walFiles : gauges.walFiles = increment (increment s.gauges.walFiles none found)
      (partitionLabel highCardinality p) more)
    (inMemory : Follows s.gauges.inMemory gauges.inMemory (partitionLabel highCardinality p)
      activeBatch (s.partitions p) after)
    (hwmOffset : Follows s.gauges.hwmOffset gauges.hwmOffset (partitionLabel highCardinality p)
      committedEnd (s.partitions p) after) :
    Valid highCardinality env
      ⟨Function.update s.partitions p after,
        Function.update s.orphans p (orphanCount (s.partitions p) after (s.orphans p)), gauges⟩ := by
  refine ⟨fun q => ?_, ?_, valid.inMemory.step inMemory, valid.hwmOffset.step hwmOffset⟩
  · by_cases same : q = p
    · subst same
      simpa using (valid.partitions q).step admits taken
    · simpa [same] using valid.partitions q
  · dsimp only
    rw [update_tally, update_recovered, files, orphans, expected_update, walFiles, valid.walFiles]

theorem Valid.partition (valid : Valid highCardinality env s)
    (admits : Admits .any (s.partitions p) action) (running : ∀ cut, action ≠ .crash cut)
    (taken : Partition.step env action (s.partitions p) = some after) :
    Valid highCardinality env (s.advance highCardinality p action after) := by
  cases live : (s.partitions p).live with
  | none =>
    have closed := opened_started live taken
    have before := opened_down live
    have files : tally after = tally (s.partitions p) + 0 + 0 := by simp [tally, closed, before]
    refine valid.advance admits taken files ?_ ?_ ?_ ?_
    · simp [recovered, closed, before]
    all_goals simp only [live]
    · rw [increment_zero, increment_zero]
    · exact .refl (by rw [closed, before])
    · exact .refl (by rw [closed, before])
  | some l =>
    have tallied := valid.partitions p
    have known : orphanCount (s.partitions p) after (s.orphans p) = s.orphans p := by
      rw [orphanCount, live]
    cases step_stepped taken with
    | interrupt down => exact absurd (live.symm.trans down) (by simp)
    | start down => exact absurd (live.symm.trans down) (by simp)
    | @moved l₀ _ _ here moved =>
      obtain rfl := Option.some.inj (live.symm.trans here)
      obtain ⟨l', live'⟩ : ∃ l', after.live = some l' := by
        cases moved with
        | crash => exact absurd rfl (running _)
        | _ => exact ⟨_, rfl⟩
      refine valid.advance admits taken (tally_moved tallied live moved live') ?_ ?_ ?_ ?_
      · rw [known]
        exact recovered_moved live moved live'
      all_goals simp only [live]
      · exact move_walFiles
      · exact .inMemory tallied live moved live'
      · exact .hwmOffset tallied live moved live'

/-- A process that dies takes its gauges with it. -/
theorem Valid.crash (valid : Valid highCardinality env s) (cut : Fin count → Nat) :
    Valid highCardinality env
      { s with
        partitions := fun p =>
          (Partition.step env (.crash (cut p)) (s.partitions p)).getD (s.partitions p)
        gauges := .zero } := by
  have dead (p : Fin count) :
      ((Partition.step env (.crash (cut p)) (s.partitions p)).getD (s.partitions p)).live = none := by
    cases live : (s.partitions p).live <;> simp [Partition.step, live, liveStep, downStep]
  have closed (p : Fin count) := opened_down (dead p)
  refine ⟨fun p => ?_, ?_, fun p l isOpened => ?_, fun p l isOpened => ?_⟩
  · dsimp only
    cases taken : Partition.step env (.crash (cut p)) (s.partitions p) with
    | none => exact valid.partitions p
    | some after =>
      have admits : Admits .any (s.partitions p) (.crash (cut p)) := trivial
      have stepped := (valid.partitions p).step admits taken
      cases live : (s.partitions p).live with
      | none => simp [Partition.step, live, downStep] at taken
      | some l =>
        rw [orphanCount, live] at stepped
        exact stepped
  · funext label
    cases label <;> simp [expected, Gauges.zero, tally, recovered, closed]
  · exact absurd ((closed p).symm.trans isOpened) (by simp)
  · exact absurd ((closed p).symm.trans isOpened) (by simp)

theorem Valid.step {action : Action count} (valid : Valid highCardinality env s)
    (admits : Admitted s action) (taken : Metrics.step highCardinality env action s = some next) :
    Valid highCardinality env next := by
  unfold Metrics.step at taken
  split at taken
  · cases taken
  next p action running =>
    obtain ⟨after, moved, rfl⟩ := Option.map_eq_some_iff.mp taken
    exact valid.partition admits running moved
  next cut =>
    cases taken
    exact valid.crash cut

theorem initial_valid : Valid highCardinality env
    ⟨fun _ : Fin count => fresh, fun _ => 0, .zero⟩ := by
  refine ⟨fun p => ?_, ?_, fun p l isOpened => ?_, fun p l isOpened => ?_⟩
  · have nobody (l : Live) (live : fresh.live = some l) : False := by cases live
    refine ⟨reached_invariant (Machine.Reaches.initial _), fun v none => (by cases none), ?_, ?_, ?_⟩
    all_goals exact fun l live => (nobody l live).elim
  · funext label
    cases label <;> simp [expected, Gauges.zero, tally, recovered, opened, fresh]
  · cases isOpened
  · cases isOpened

end Run

/-- Over any lives of a topic's partitions: `wal_files` counts the WAL files of the open writers that
hold a record or are open, on a partition's own series less the orphans that its recovery found; and
every other series shows an open writer of those it stands for, as it is. -/
theorem gauges_follow {count : Nat} (env : Externals) (highCardinality : Bool)
    {schedule : List (Action count)} {s : State count}
    (admitted : (machine highCardinality env).Along Admitted schedule
      (machine highCardinality env).initial)
    (ran : (machine highCardinality env).execute schedule (machine highCardinality env).initial = some s) :
    (highCardinality = false →
      s.gauges.walFiles none = ∑ p, (heldFiles env (s.partitions p) : Int)) ∧
    (highCardinality = true → ∀ p, s.gauges.walFiles (some p) =
      heldFiles env (s.partitions p) - recovered (s.partitions p) (s.orphans p)) ∧
    Shows highCardinality s.partitions s.gauges.inMemory activeBatch ∧
    Shows highCardinality s.partitions s.gauges.hwmOffset committedEnd := by
  have valid : Valid highCardinality env s :=
    Machine.execute_invariant (fun _ _ _ valid admits taken => valid.step admits taken)
      initial_valid admitted ran
  have files (p : Fin count) := (valid.partitions p).heldFiles_eq
  refine ⟨fun low => ?_, fun high p => ?_, valid.inMemory, valid.hwmOffset⟩
  · subst low
    simp [valid.walFiles, expected, files]
  · subst high
    simp [valid.walFiles, expected, files]

section Sample

instance {count : Nat} (s : State count) : DecidablePred (Admitted s)
  | .partition p action => inferInstanceAs (Decidable (Admits .any (s.partitions p) action))
  | .crash _ => .isTrue trivial

def firstOfTwo (actions : List Partition.Action) : List (Action 2) := actions.map (.partition 0)

/-- The process dies with one sealed segment not uploaded and a record in the next; partition 0 comes up
with one orphan. -/
def orphanRun : List (Action 2) :=
  firstOfTwo ([.start settings, .openWriter] ++ RecoveredLog.produceOne 1 ++
    RecoveredLog.produceOne 2 ++ RecoveredLog.handOver ++ RecoveredLog.produceOne 3) ++
  [.partition 1 (.start settings), .partition 1 .openWriter, .crash fun _ => 0] ++
  firstOfTwo [.start settings, .sendOrphan, .openWriter]

theorem gauges_follow_orphanRun :
    (((machine true externals).execute orphanRun (machine true externals).initial).any fun s =>
      decide (heldFiles externals (s.partitions 0) = 2 ∧
        recovered (s.partitions 0) (s.orphans 0) = 1)) = true ∧
    ∀ s, (machine true externals).execute orphanRun (machine true externals).initial = some s →
      s.gauges.walFiles (some 0) =
        heldFiles externals (s.partitions 0) - recovered (s.partitions 0) (s.orphans 0) :=
  ⟨by decide +kernel, fun _ ran =>
    (gauges_follow externals true (by decide +kernel) ran).2.1 rfl 0⟩

end Sample

end Kafkrs.Metrics
