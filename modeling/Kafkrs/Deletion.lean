import Kafkrs.Footprint
import Mathlib.Data.List.FinRange

/-! The deletion of one topic incarnation, with its data: `handle_delete_topic` after the
registry has taken the name out, the record in `pending_deletes.json`, the sweep, and the actors
of the incarnation, which may outlive the wait for them. Other topics, and later incarnations of
the same name, have keys and records of their own. -/
namespace Kafkrs.Deletion

open Lib

/-- One partition of the incarnation: what a crash leaves, and its actors. -/
structure Slot where
  wal : Recovery.WalDir
  objects : Dir (List Record)
  manifest : Option Manifest
  live : Option Partition.Live
  /-- The manifest the uploader has read and not yet written back. -/
  read : Option Manifest
  /-- In the partition map. -/
  handle : Bool
  /-- A `Shutdown` is in the writer's inbox. -/
  stopRequested : Bool

inductive Key (n : Nat) where
  | segment (p : Fin n) (base : Int)
  | manifest (p : Fin n)
  deriving DecidableEq, Repr

/-- The `manifests_by_partition` of a `PendingDelete`. -/
abbrev Snapshot (n : Nat) := List (Fin n × Manifest)

/-- Where `handle_delete_topic` stands after the registry step. `sent` says whether the
`Shutdown` to the first partition of the list has gone out. -/
inductive Teardown (n : Nat) where
  | removeHandles
  | stopWriters (handles rest : List (Fin n)) (sent : Bool)
  | stopUploaders (rest : List (Fin n)) (sent : Bool)
  | removeWal
  /-- One manifest read for each partition. -/
  | snapshot (manifests : Snapshot n) (rest : List (Fin n))
  /-- The append to `pending_deletes.json`. -/
  | persist (manifests : Snapshot n)
  deriving DecidableEq

inductive SweepPhase (n : Nat) where
  /-- The keys of the snapshot still to delete; the LIST comes after the last. -/
  | snapshot (rest : List (Key n))
  /-- The listed keys still to delete; the removal of the record comes after the last. -/
  | orphans (rest : List (Key n))
  deriving DecidableEq, Repr

structure Sweep (n : Nat) where
  phase : SweepPhase n
  /-- Some call of this sweep has failed; no step reads it. -/
  failed : Bool
  deriving DecidableEq, Repr

structure State (n : Nat) where
  /-- The incarnation is in `topics.json`. -/
  registered : Bool
  /-- Its record in `pending_deletes.json`. -/
  pending : Option (Snapshot n)
  slots : Fin n → Slot
  up : Bool
  /-- The calls of `spawn_partition` still to make; the first is in progress. -/
  jobs : List (Fin n)
  delete : Option (Teardown n)
  sweep : Option (Sweep n)
  /-- For each removal of the record, whether a call of its sweep had failed. -/
  removals : List Bool

inductive Action (n : Nat) where
  | spawn (cfg : ResolvedTopicConfig)
  /-- The spawning RPC is dropped, or its `recover_partition` fails. -/
  | abortSpawn
  | actor (p : Fin n) (move : Partition.Action)
  | uploader (p : Fin n) (now : Int) (outcome : Outcome)
  /-- The registry accepts a `DeleteTopic` with `delete_data`. -/
  | delete
  /-- The next step of the delete, its I/O call, if any, ending as `outcome`. -/
  | teardown (outcome : Outcome)
  /-- The wait for a shutdown ack gives up. -/
  | timeout
  | abort
  | sweep (outcome : Outcome)
  /-- The LIST stream yields an error. -/
  | listError
  | crash (cut : Fin n → Nat)
  | boot

section Slots

variable (env : Partition.Externals)

/-- The slot as a partition, with a manifest to stand in for a missing one. -/
def Slot.partition (x : Slot) : Partition.State :=
  ⟨⟨x.wal, ⟨x.objects, x.manifest.getD Manifest.empty⟩⟩, x.live, ⟨[], [], []⟩⟩

def Slot.move (x : Slot) (move : Partition.Action) : Option Slot :=
  x.live.bind fun l =>
    (Partition.liveStep env x.partition l move).map fun after =>
      { x with wal := after.disk.wal, live := after.live }

/-- Phases whose first store call reads the manifest. -/
def readsManifest : Uploader.Phase → Bool
  | .putManifest _ | .retention => true
  | _ => false

/-- One store call of the uploader. The read of a manifest and its write are two calls, and a
missing manifest fails the read. -/
def Slot.upload (now : Int) (outcome : Outcome) (x : Slot) : Option Slot :=
  x.live.bind fun l =>
    let call (outcome : Outcome) (m : Manifest) : Option (Partition.Live × Store) :=
      (l.uploader.step env.segmentSize now outcome ⟨x.objects, m⟩).map fun effect =>
        ({ l with uploader := effect.uploader, durable := l.durable ++ effect.durable }, effect.store)
    if readsManifest l.uploader.phase then
      match x.read with
      | none =>
        match outcome, x.manifest with
        | .ok, some m => some { x with read := some m }
        | _, _ => (call (.failed false) Manifest.empty).map fun (live, _) => { x with live := some live }
      | some m =>
        (call outcome m).map fun (live, store) =>
          { x with
            live := some live
            read := none
            manifest := if store.manifest = m then x.manifest else some store.manifest }
    else
      (call outcome Manifest.empty).map fun (live, store) =>
        { x with live := some live, objects := store.objects }

/-- What reaches the actors from clients, from each other and from the retention sweeper. -/
def Slot.external (x : Slot) : Partition.Action → Bool
  | .produce _ _ | .commitTimeout | .updateWriter _ | .segmentDurable | .writer => true
  | .enqueue .shutdown => false
  | .enqueue _ => true
  | .shutdownWriter => x.stopRequested
  | .uploader _ | .interrupt _ | .start _ | .sendOrphan | .openWriter | .crash _ => false

/-- The next step of `spawn_partition` in front of its insert into the partition map. -/
def Slot.spawn (cfg : ResolvedTopicConfig) (x : Slot) : Option Slot :=
  match x.live with
  | none =>
    -- without a manifest `recover_partition` fails
    x.manifest.bind fun _ =>
      (Partition.downStep env x.partition (.start cfg)).map fun after =>
        { x with wal := after.disk.wal, live := after.live }
  | some _ =>
    match x.move env .sendOrphan with
    | some next => some next
    | none => x.move env .openWriter

def Slot.crash (cut : Nat) (x : Slot) : Slot :=
  let after := (x.move env (.crash cut)).getD x
  { after with live := none, read := none, handle := false, stopRequested := false }

/-- The writer's ack has come, or there is no writer. -/
def Slot.WriterGone (x : Slot) : Prop := ∀ l ∈ x.live, l.writer.phase = .stopped

def Slot.UploaderGone (x : Slot) : Prop := ∀ l ∈ x.live, l.uploader.phase = .stopped

instance (x : Slot) : Decidable x.WriterGone := inferInstanceAs (Decidable (∀ l ∈ x.live, _))

instance (x : Slot) : Decidable x.UploaderGone := inferInstanceAs (Decidable (∀ l ∈ x.live, _))

def Slot.erase (x : Slot) (base : Int) : Slot := { x with objects := x.objects.erase base }

end Slots

section Steps

variable {n : Nat} (env : Partition.Externals)

def State.setSlot (s : State n) (p : Fin n) (x : Slot) : State n :=
  { s with slots := Function.update s.slots p x }

def State.deleteObject (s : State n) : Key n → State n
  | .segment p base => s.setSlot p ((s.slots p).erase base)
  | .manifest p => s.setSlot p { s.slots p with manifest := none }

def State.Holds (s : State n) : Key n → Prop
  | .segment p base => ((s.slots p).objects[base]?).isSome = true
  | .manifest p => (s.slots p).manifest.isSome = true

def State.list (s : State n) : List (Key n) :=
  (List.finRange n).flatMap fun p =>
    (s.slots p).objects.keys.map (.segment p) ++
      if (s.slots p).manifest.isSome then [.manifest p] else []

/-- The keys of the snapshot, in the order the sweep deletes them. -/
def snapshotKeys (manifests : Snapshot n) : List (Key n) :=
  manifests.flatMap fun (p, m) => m.segments.map (fun seg => .segment p seg.baseOffset) ++ [.manifest p]

def Sweep.start (manifests : Snapshot n) : Sweep n := ⟨.snapshot (snapshotKeys manifests), false⟩

def teardownStep (outcome : Outcome) (s : State n) : Teardown n → Option (State n)
  | .removeHandles =>
    let handles := (List.finRange n).filter fun p => (s.slots p).handle
    some { s with
      slots := fun p => { s.slots p with handle := false }
      delete := some (.stopWriters handles handles false) }
  | .stopWriters handles [] _ => some { s with delete := some (.stopUploaders handles false) }
  | .stopWriters handles (p :: rest) false =>
    some { s.setSlot p { s.slots p with stopRequested := true } with
      delete := some (.stopWriters handles (p :: rest) true) }
  | .stopWriters handles (p :: rest) true =>
    if (s.slots p).WriterGone then some { s with delete := some (.stopWriters handles rest false) }
    else none
  | .stopUploaders [] _ => some { s with delete := some .removeWal }
  | .stopUploaders (p :: rest) false =>
    some { s.setSlot p (((s.slots p).move env (.enqueue .shutdown)).getD (s.slots p)) with
      delete := some (.stopUploaders (p :: rest) true) }
  | .stopUploaders (p :: rest) true =>
    if (s.slots p).UploaderGone then some { s with delete := some (.stopUploaders rest false) }
    else none
  -- a failed `remove_dir_all` is only logged
  | .removeWal =>
    some { s with
      slots := if outcome.applied then fun p => { s.slots p with wal := ∅ } else s.slots
      delete := some (.snapshot [] (List.finRange n)) }
  -- a manifest that cannot be read counts as empty
  | .snapshot manifests (p :: rest) =>
    let m := if outcome = .ok then (s.slots p).manifest.getD Manifest.empty else Manifest.empty
    some { s with delete := some (.snapshot (manifests ++ [(p, m)]) rest) }
  | .snapshot manifests [] => some { s with delete := some (.persist manifests) }
  | .persist manifests =>
    if outcome = .ok then
      some { s with pending := some manifests, delete := none, sweep := some (.start manifests) }
    else some { s with delete := none }

def timeoutStep (s : State n) : Teardown n → Option (State n)
  | .stopWriters handles (_ :: rest) true =>
    some { s with delete := some (.stopWriters handles rest false) }
  | .stopUploaders (_ :: rest) true => some { s with delete := some (.stopUploaders rest false) }
  | _ => none

/-- One call of `sweep_deletion`. A failed delete of a snapshot key ends the sweep; a failed
delete of a listed key is only logged. -/
def sweepStep (outcome : Outcome) (s : State n) (sweep : Sweep n) : State n :=
  match sweep.phase with
  | .snapshot (key :: rest) =>
    let after := if outcome.applied then s.deleteObject key else s
    { after with
      sweep := if outcome = .ok then some { sweep with phase := .snapshot rest } else none }
  | .snapshot [] =>
    { s with sweep := if outcome = .ok then some { sweep with phase := .orphans s.list } else none }
  | .orphans (key :: rest) =>
    let after := if outcome.applied then s.deleteObject key else s
    { after with sweep := some ⟨.orphans rest, sweep.failed || outcome ≠ .ok⟩ }
  | .orphans [] =>
    if outcome = .ok then
      { s with pending := none, sweep := none, removals := s.removals ++ [sweep.failed] }
    else { s with sweep := none }

def step (action : Action n) (s : State n) : Option (State n) :=
  match action with
  | .spawn cfg =>
    match s.jobs with
    | [] => none
    | p :: rest =>
      if (s.slots p).handle then some { s with jobs := rest }
      else
        match (s.slots p).spawn env cfg with
        | some next => some (s.setSlot p next)
        | none =>
          if (s.slots p).live.isSome then
            some { s.setSlot p { s.slots p with handle := true } with jobs := rest }
          else none
  | .abortSpawn => some { s with jobs := [] }
  | .actor p move =>
    if (s.slots p).external move then ((s.slots p).move env move).map (s.setSlot p) else none
  | .uploader p now outcome => ((s.slots p).upload env now outcome).map (s.setSlot p)
  | .delete =>
    if s.up ∧ s.registered then
      some { s with registered := false, delete := some .removeHandles }
    else none
  | .teardown outcome => s.delete.bind (teardownStep env outcome s)
  | .timeout => s.delete.bind (timeoutStep s)
  | .abort => s.delete.map fun _ => { s with delete := none }
  | .sweep outcome => s.sweep.map (sweepStep outcome s)
  | .listError =>
    match s.sweep with
    | some ⟨.orphans _, _⟩ => some { s with sweep := none }
    | _ => none
  | .crash cut =>
    some { s with
      slots := fun p => (s.slots p).crash env (cut p)
      up := false
      jobs := []
      delete := none
      sweep := none }
  | .boot =>
    if s.up then none
    else
      some { s with
        up := true
        jobs := if s.registered then List.finRange n else []
        sweep := s.pending.map .start }

def createdSlot : Slot := ⟨∅, ∅, some Manifest.empty, none, none, false, false⟩

def created (n : Nat) : State n :=
  ⟨true, none, fun _ => createdSlot, true, List.finRange n, none, none, []⟩

def machine (n : Nat) : Machine (State n) (Action n) := ⟨created n, step env⟩

end Steps

/-- No step but a spawn brings a writer back, or puts a WAL file of a writer that has returned. -/
def Settled (x y : Slot) : Prop := x.WriterGone → y.WriterGone ∧ (y.wal = x.wal ∨ y.wal = ∅)

structure Shrinks (x y : Slot) : Prop where
  objects : ∀ base : Int, y.objects[base]?.isSome = true → x.objects[base]?.isSome = true
  manifest : y.manifest.isSome = true → x.manifest.isSome = true

def Slot.puts (x : Slot) : Bool :=
  x.live.any fun l =>
    match l.uploader.phase with
    | .putSegment _ => true
    | .putManifest _ | .retention => x.read.isSome
    | _ => false

section Settling

variable {env : Partition.Externals} {x y : Slot}

theorem Settled.of_same (live : y.live = x.live) (wal : y.wal = x.wal ∨ y.wal = ∅) :
    Settled x y := by
  intro gone
  refine ⟨?_, wal⟩
  intro l alive
  exact gone l (live ▸ alive)

theorem Shrinks.of_same (objects : y.objects = x.objects) (manifest : y.manifest = x.manifest) :
    Shrinks x y :=
  ⟨fun _ held => objects ▸ held, fun held => manifest ▸ held⟩

theorem Shrinks.refl (x : Slot) : Shrinks x x := .of_same rfl rfl

/-- Only a crash ends the actors. -/
theorem liveStep_alive {p after : Partition.State} {l : Partition.Live} {move : Partition.Action}
    (uncut : ∀ cut, move ≠ .crash cut) (taken : Partition.liveStep env p l move = some after) :
    ∃ live, after.live = some live := by
  cases Partition.liveStep_moved taken with
  | crash => exact absurd rfl (uncut _)
  | sendOrphan | openWriter | produce | commitTimeout | updateWriter | segmentDurable
  | shutdownWriter | commit | sealActive | handoff | openNext | enqueue | uploader =>
    exact ⟨_, rfl⟩

theorem move_shrinks {move : Partition.Action} (taken : x.move env move = some y) : Shrinks x y := by
  obtain ⟨l, _, taken⟩ := Option.bind_eq_some_iff.mp taken
  obtain ⟨after, _, rfl⟩ := Option.map_eq_some_iff.mp taken
  exact .of_same rfl rfl

theorem move_settled {move : Partition.Action} (uncut : ∀ cut, move ≠ .crash cut)
    (taken : x.move env move = some y) : Settled x y := by
  obtain ⟨l, alive, taken⟩ := Option.bind_eq_some_iff.mp taken
  obtain ⟨after, stepped, rfl⟩ := Option.map_eq_some_iff.mp taken
  obtain ⟨live, alive'⟩ := liveStep_alive uncut stepped
  intro gone
  have moved := (Broker.liveStep_move stepped alive').gone (gone l alive)
  refine ⟨?_, .inl moved.2⟩
  intro l' same
  obtain rfl := Option.some.inj (same.symm.trans alive')
  exact moved.1

theorem spawn_shrinks {cfg : ResolvedTopicConfig} (taken : x.spawn env cfg = some y) :
    Shrinks x y := by
  simp only [Slot.spawn] at taken
  split at taken
  · obtain ⟨m, _, taken⟩ := Option.bind_eq_some_iff.mp taken
    obtain ⟨after, _, rfl⟩ := Option.map_eq_some_iff.mp taken
    exact .of_same rfl rfl
  · split at taken
    next sent =>
      cases taken
      exact move_shrinks sent
    next => exact move_shrinks taken

inductive Called (env : Partition.Externals) (now : Int) (outcome : Outcome) (x : Slot)
    (l : Partition.Live) : Slot → Prop
  | read (m : Manifest) : Called env now outcome x l { x with read := some m }
  | unread (effect : Uploader.Effect) : Called env now outcome x l { x with
      live := some { l with uploader := effect.uploader, durable := l.durable ++ effect.durable } }
  | written (m : Manifest) (effect : Uploader.Effect) (reads : readsManifest l.uploader.phase = true)
      (held : x.read = some m)
      (stepped : l.uploader.step env.segmentSize now outcome ⟨x.objects, m⟩ = some effect) :
      Called env now outcome x l { x with
        live := some { l with uploader := effect.uploader, durable := l.durable ++ effect.durable }
        read := none
        manifest := if effect.store.manifest = m then x.manifest else some effect.store.manifest }
  | other (effect : Uploader.Effect)
      (stepped : l.uploader.step env.segmentSize now outcome ⟨x.objects, Manifest.empty⟩ =
        some effect) :
      Called env now outcome x l { x with
        live := some { l with uploader := effect.uploader, durable := l.durable ++ effect.durable }
        objects := effect.store.objects }

theorem upload_called {now : Int} {outcome : Outcome} (taken : x.upload env now outcome = some y) :
    ∃ l, x.live = some l ∧ Called env now outcome x l y := by
  obtain ⟨l, alive, taken⟩ := Option.bind_eq_some_iff.mp taken
  refine ⟨l, alive, ?_⟩
  dsimp only at taken
  split at taken
  next reads =>
    split at taken
    next =>
      split at taken
      · cases taken
        exact .read _
      · obtain ⟨_, called, rfl⟩ := Option.map_eq_some_iff.mp taken
        obtain ⟨effect, _, rfl⟩ := Option.map_eq_some_iff.mp called
        exact .unread effect
    next m held =>
      obtain ⟨_, called, rfl⟩ := Option.map_eq_some_iff.mp taken
      obtain ⟨effect, stepped, rfl⟩ := Option.map_eq_some_iff.mp called
      exact .written m effect reads held stepped
  next =>
    obtain ⟨_, called, rfl⟩ := Option.map_eq_some_iff.mp taken
    obtain ⟨effect, stepped, rfl⟩ := Option.map_eq_some_iff.mp called
    exact .other effect stepped

theorem upload_settled {now : Int} {outcome : Outcome} (taken : x.upload env now outcome = some y) :
    Settled x y := by
  obtain ⟨l, alive, called⟩ := upload_called taken
  intro gone
  have stopped := gone l alive
  cases called with
  | read m => exact ⟨gone, .inl rfl⟩
  | unread effect | written m effect | other effect =>
    refine ⟨?_, .inl rfl⟩
    rintro _ ⟨⟩
    exact stopped

/-- A call that took no effect leaves the store alone. -/
theorem uploader_unapplied {size : List Record → Nat} {now : Int} {outcome : Outcome} {u : Uploader}
    {st : Store} {effect : Uploader.Effect} (lost : outcome.applied = false)
    (stepped : u.step size now outcome st = some effect) : effect.store = st := by
  cases Uploader.step_moved stepped with
  | upload | retentionKick | updateConfig | shutdown | notify | spare | deleted => rfl
  | putSegment | putManifest | evict | delete => simp [lost]

/-- Segment objects come from the PUT of `upload_once` alone. -/
theorem uploader_objects {size : List Record → Nat} {now : Int} {outcome : Outcome} {u : Uploader}
    {st : Store} {effect : Uploader.Effect} (other : ∀ batch, u.phase ≠ .putSegment batch)
    (stepped : u.step size now outcome st = some effect) {base : Int}
    (held : effect.store.objects[base]?.isSome = true) : st.objects[base]?.isSome = true := by
  cases Uploader.step_moved stepped with
  | putSegment busy => exact absurd busy (other _)
  | upload | retentionKick | updateConfig | shutdown | notify | spare | deleted => exact held
  | putManifest | evict =>
    dsimp only at held
    split at held <;> exact held
  | delete =>
    dsimp only at held
    split at held
    · simp only [Dir.get_erase] at held
      split at held
      · cases held
      · exact held
    · exact held

/-- Unless a PUT takes effect, an uploader adds no object. -/
theorem upload_shrinks {now : Int} {outcome : Outcome} (taken : x.upload env now outcome = some y)
    (putless : outcome.applied = true → x.puts = false) : Shrinks x y := by
  obtain ⟨l, alive, called⟩ := upload_called taken
  cases called with
  | read m | unread effect => exact .of_same rfl rfl
  | written m effect reads held stepped =>
    have lost : outcome.applied = false := by
      by_contra applied
      have none := putless (Bool.eq_true_of_not_eq_false applied)
      cases phase : l.uploader.phase <;>
        simp_all [Slot.puts, readsManifest]
    have same := uploader_unapplied lost stepped
    exact .of_same rfl (by simp [same])
  | other effect stepped =>
    refine ⟨?_, id⟩
    intro base held
    cases applied : outcome.applied with
    | false =>
      rw [uploader_unapplied applied stepped] at held
      exact held
    | true =>
      have none := putless applied
      refine uploader_objects ?_ stepped held
      intro batch phase
      simp [Slot.puts, alive, phase] at none

theorem crash_shrinks (cut : Nat) : Shrinks x (x.crash env cut) := by
  cases taken : x.move env (.crash cut) with
  | none => exact .of_same (by simp [Slot.crash, taken]) (by simp [Slot.crash, taken])
  | some next =>
    have moved := move_shrinks taken
    exact ⟨fun base held => moved.objects base (by simpa [Slot.crash, taken] using held),
      fun held => moved.manifest (by simpa [Slot.crash, taken] using held)⟩

theorem crash_settled (cut : Nat) : Settled x (x.crash env cut) := by
  intro gone
  have down : (x.crash env cut).WriterGone := by
    intro l alive
    simp [Slot.crash] at alive
  refine ⟨down, .inl ?_⟩
  cases taken : x.move env (.crash cut) with
  | none => simp [Slot.crash, taken]
  | some next =>
    obtain ⟨l, alive, moved⟩ := Option.bind_eq_some_iff.mp taken
    obtain ⟨after, stepped, rfl⟩ := Option.map_eq_some_iff.mp moved
    have same : after.disk.wal = x.wal := Broker.liveStep_crash_stopped (gone l alive) stepped
    simpa [Slot.crash, taken] using same

end Settling

end Kafkrs.Deletion
