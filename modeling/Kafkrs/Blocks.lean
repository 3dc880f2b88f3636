import Kafkrs.InMemory

/-! Which records stand in a writer's memory over one life that began on an empty partition:
those of the produce requests, whole and in the order the requests came, except that the
oldest batches leave when they are durable. -/
namespace Kafkrs.Blocks

open Lib Wal Pipeline Kafkrs.Partition Refinement RecoveredLog GroupCommit InMemory

def Calm (s : State) : Action → Prop
  | .crash _ | .interrupt _ => False
  | action => Admits .any s action

def produces : List Action → List (List IncomingRecord)
  | [] => []
  | .produce records _ :: rest => records :: produces rest
  | _ :: rest => produces rest

def Carries (incoming : List IncomingRecord) (stored : List Record) : Prop :=
  stored.map (fun r => (r.schemaId, r.key, r.value)) =
    incoming.map (fun inc => (inc.schemaId, inc.key, inc.value))

def received (w : PartitionWriter) : List (List Record) :=
  w.produced.map (·.stored) ++ w.pendingAcks

def Blocked (w : PartitionWriter) : Prop :=
  ∃ (gone : List (List Record)) (batches : List (List (List Record))) (opened : List (List Record)),
    w.produced.map (·.stored) = gone ++ batches.flatten ++ opened ∧
    w.inFlight.toList.map Prod.snd = batches.map List.flatten ∧ w.active = opened.flatten

section Writer

variable {w w' : PartitionWriter}

theorem stamp_carries (now : Nat → Int64) (next : Int) (incoming : List IncomingRecord) :
    Carries incoming (PartitionWriter.stamp now next incoming) := by
  induction incoming generalizing now next with
  | nil => rfl
  | cons inc rest ih =>
    have tail := ih (fun i => now (i + 1)) (next + 1)
    simp only [Carries] at tail
    simp [Carries, PartitionWriter.stamp, tail]

theorem onProduce_received {records : List IncomingRecord} {now : Nat → Int64}
    (stored : w.onProduce records now = some w') :
    w'.inFlight = w.inFlight ∧ w'.active = w.active ∧ w'.produced = w.produced ∧
      received w' = received w ++ [PartitionWriter.stamp now w.nextOffset records] := by
  obtain ⟨_, _, _, rfl⟩ := PartitionWriter.onProduce_some stored
  exact ⟨rfl, rfl, rfl, (List.append_assoc _ _ _).symm⟩

theorem flushCommit_received (w : PartitionWriter) : received w.flushCommit = received w := by
  by_cases empty : w.pending = []
  · have same := flushCommit_empty w empty
    rw [received, same.produced, same.pendingAcks, received]
  · obtain ⟨_, _, acks, produced⟩ := flushCommit_requests w empty
    simp [received, acks, produced, Function.comp_def]

theorem Blocked.congr (blocked : Blocked w) (inFlight : w'.inFlight = w.inFlight)
    (active : w'.active = w.active) (produced : w'.produced = w.produced) : Blocked w' := by
  unfold Blocked
  rw [inFlight, active, produced]
  exact blocked

theorem Blocked.commit (blocked : Blocked w) (grouped : Grouped w) : Blocked w.flushCommit := by
  by_cases empty : w.pending.isEmpty
  · rw [PartitionWriter.flushCommit, if_pos empty]
    exact blocked.congr rfl rfl rfl
  · obtain ⟨gone, batches, opened, stored, inFlight, active⟩ := blocked
    rw [PartitionWriter.flushCommit, if_neg empty]
    refine ⟨gone, batches, opened ++ w.pendingAcks, ?_, inFlight, ?_⟩
    · simp [stored, Function.comp_def]
    · rw [List.flatten_append, grouped.flat, active]

theorem Blocked.sealActive (piece : InPiece w) (blocked : Blocked w) : Blocked w.sealActive := by
  obtain ⟨gone, batches, opened, stored, inFlight, isActive⟩ := blocked
  cases active : w.active with
  | nil =>
    simp only [PartitionWriter.sealActive, active]
    exact ⟨gone, batches, opened, stored, inFlight, active.symm.trans isActive⟩
  | cons first rest =>
    have above : ∀ entry ∈ w.inFlight.toList, entry.1 < first.offset :=
      fun entry sealed => piece.older sealed (by simp [active])
    simp only [PartitionWriter.sealActive, active]
    refine ⟨gone, batches ++ [opened], [], ?_, ?_, rfl⟩
    · simp [stored]
    · simp [Dir.toList_insert_above above, inFlight, ← isActive, active]

theorem Blocked.forget (blocked : Blocked w) {base : Int} {records : List Record}
    {entries : List (Int × List Record)} (oldest : w.inFlight.toList = (base, records) :: entries) :
    Blocked (w.onDurable base) := by
  obtain ⟨gone, batches, opened, stored, inFlight, active⟩ := blocked
  rw [oldest, List.map_cons] at inFlight
  obtain ⟨batch, batches, rfl, _, rest⟩ := List.map_eq_cons_iff.mp inFlight.symm
  refine ⟨gone ++ batch, batches, opened, by simp [stored, PartitionWriter.onDurable], ?_, active⟩
  rw [rest]
  exact congrArg (List.map Prod.snd) (Dir.toList_erase_first oldest)

/-- All that is in memory, request by request. -/
theorem Blocked.memory (blocked : Blocked w) (grouped : Grouped w) :
    ∃ gone kept, received w = gone ++ kept ∧ memory w = kept.flatten := by
  obtain ⟨gone, batches, opened, stored, inFlight, active⟩ := blocked
  refine ⟨gone, batches.flatten ++ opened ++ w.pendingAcks, by simp [received, stored], ?_⟩
  have flat : w.inFlight.toList.flatMap Prod.snd = batches.flatten.flatten := by
    rw [List.flatMap_def, inFlight, List.flatten_flatten]
  simp [InMemory.memory, flat, active, grouped.flat]

end Writer

section Steps

variable {env : Externals} {regime : Regime} {s next : State} {l l' : Live} {action : Action}

inductive Handled (l : Live) (w : PartitionWriter) : Action → Prop
  | nothing {action : Action} (none : produces [action] = []) (inFlight : w.inFlight = l.writer.inFlight)
      (active : w.active = l.writer.active) (produced : w.produced = l.writer.produced)
      (acks : w.pendingAcks = l.writer.pendingAcks) : Handled l w action
  | receive {records : List IncomingRecord} {now : Nat → Int64}
      (stored : l.writer.onProduce records now = some w) : Handled l w (.produce records now)
  | commit (same : w = l.writer.flushCommit) : Handled l w .writer
  | sealActive (same : w = l.writer.sealActive) : Handled l w .writer
  | forget {base : Int} {rest : List Int} (reported : l.durable = base :: rest)
      (same : w = l.writer.onDurable base) : Handled l w .segmentDurable

theorem liveStep_handled (taken : liveStep env s l action = some next)
    (still : next.live = some l') : Handled l l'.writer action := by
  cases liveStep_moved taken with
  | produce _ _ stored =>
    cases still
    exact .receive stored
  | commit =>
    cases still
    exact .commit rfl
  | sealActive =>
    cases still
    exact .sealActive rfl
  | segmentDurable reported =>
    cases still
    exact .forget reported rfl
  | crash => cases still
  | sendOrphan | openWriter | commitTimeout | updateWriter | shutdownWriter | handoff | openNext
  | enqueue | uploader =>
    cases still
    exact .nothing rfl rfl rfl rfl rfl

theorem Blocked.step (inv : Invariant env regime s) (live : s.live = some l)
    (tracked : Tracked env.crc32c s.disk.wal l) (grouped : Grouped l.writer)
    (blocked : Blocked l.writer) (handled : Handled l l'.writer action) : Blocked l'.writer := by
  cases handled with
  | nothing _ inFlight active produced => exact blocked.congr inFlight active produced
  | receive stored =>
    obtain ⟨inFlight, active, produced, _⟩ := onProduce_received stored
    exact blocked.congr inFlight active produced
  | commit same =>
    rw [same]
    exact blocked.commit grouped
  | sealActive same =>
    rw [same]
    exact blocked.sealActive tracked.piece
  | forget reported same =>
    rw [same]
    rcases tracked.completes inv live reported with ⟨_, _, unchanged, _⟩ | ⟨_, _, oldest, _⟩
    · rw [unchanged]
      exact blocked
    · exact blocked.forget oldest

theorem sealActive_received (w : PartitionWriter) : received w.sealActive = received w := by
  have same := sealActive_untouched w
  rw [received, same.produced, same.pendingAcks, received]

theorem handled_received (handled : Handled l l'.writer action) : ∃ more,
    received l'.writer = received l.writer ++ more ∧ List.Forall₂ Carries (produces [action]) more := by
  cases handled with
  | nothing none _ _ produced acks =>
    exact ⟨[], by simp [received, produced, acks], none ▸ .nil⟩
  | receive stored =>
    obtain ⟨_, _, _, more⟩ := onProduce_received stored
    exact ⟨_, more, .cons (stamp_carries _ _ _) .nil⟩
  | commit same => exact ⟨[], by rw [same, flushCommit_received, List.append_nil], .nil⟩
  | sealActive same => exact ⟨[], by rw [same, sealActive_received, List.append_nil], .nil⟩
  | forget _ same => exact ⟨[], by rw [same, List.append_nil]; rfl, .nil⟩

structure FirstLife (env : Externals) (requests : List (List IncomingRecord)) (s : State) : Prop where
  loaded : Loaded env s
  down : s.live = none → s = fresh ∧ requests = []
  grouped : ∀ l, s.live = some l → Grouped l.writer
  blocked : ∀ l, s.live = some l → Blocked l.writer
  taken : ∀ l, s.live = some l → List.Forall₂ Carries requests (received l.writer)

theorem fresh_clean (env : Externals) : Continuity.Clean env.crc32c fresh.disk := by
  rintro base records ⟨bytes, found, _⟩
  simp [fresh] at found

theorem produces_cons (action : Action) (rest : List Action) :
    produces (action :: rest) = produces [action] ++ produces rest := by
  cases action <;> rfl

theorem FirstLife.step {requests : List (List IncomingRecord)} (life : FirstLife env requests s)
    (calm : Calm s action) (taken : step env action s = some next) :
    FirstLife env (requests ++ produces [action]) next := by
  have admits : Admits (cleanly env) s action := by
    cases action with
    | start cfg =>
      rw [(life.down (down_of_start taken)).1]
      exact ⟨trivial, fresh_clean env⟩
    | enqueue msg => cases msg <;> trivial
    | crash cut => cases calm
    | interrupt rounds => cases calm
    | _ => exact calm
  have loaded := life.loaded.step admits taken
  have grouped := step_grouped life.grouped taken
  cases live : s.live with
  | none =>
    obtain ⟨rfl, rfl⟩ := life.down live
    simp only [Partition.step, live] at taken
    cases action with
    | start cfg =>
      have first : ∀ l, next.live = some l → l.writer.inFlight.toList = [] ∧ l.writer.active = [] ∧
          l.writer.produced = [] ∧ received l.writer = [] := by
        intro l still
        obtain ⟨start, _, low, ending⟩ := Fetching.active_numbered loaded.whole still
        cases taken
        cases still
        have empty : start + (Recovery.recoverPartition env.crc32c fresh.disk.store.manifest
            fresh.disk.wal).2.activeRecords.length = 0 := ending
        have natural : 0 ≤ start := low
        refine ⟨Dir.toList_empty, List.length_eq_zero_iff.mp ?_, rfl, rfl⟩
        simp only [PartitionWriter.new]
        omega
      refine ⟨loaded, ?_, grouped, fun l still => ?_, fun l still => ?_⟩
      · cases taken
        exact fun none => by cases none
      · obtain ⟨inFlight, active, produced, _⟩ := first l still
        exact ⟨[], [], [], by simp [produced], by simp [inFlight], active⟩
      · rw [(first l still).2.2.2]
        exact .nil
    | interrupt rounds => cases calm
    | _ => cases taken
  | some l =>
    simp only [Partition.step, live] at taken
    have handled (l' : Live) (still : next.live = some l') := liveStep_handled taken still
    refine ⟨loaded, ?_, grouped, fun l' still => ?_, fun l' still => ?_⟩
    · intro none
      cases liveStep_moved taken with
      | crash => cases calm
      | _ => cases none
    · exact (life.blocked l live).step life.loaded.whole.inv live (life.loaded.tracked l live)
        (life.grouped l live) (handled l' still)
    · obtain ⟨more, same, carried⟩ := handled_received (handled l' still)
      rw [same]
      exact List.rel_append (life.taken l live) carried

theorem FirstLife.run {requests : List (List IncomingRecord)} {schedule : List Action}
    {final : State} (life : FirstLife env requests s) (calm : (machine env).Along Calm schedule s)
    (ran : (machine env).execute schedule s = some final) :
    FirstLife env (requests ++ produces schedule) final := by
  induction schedule generalizing s requests with
  | nil =>
    cases ran
    simpa [produces] using life
  | cons action schedule ih =>
    obtain ⟨next, taken, rest⟩ := Machine.execute_cons ran
    have after := ih (life.step calm.1 taken) (calm.2 next taken) rest
    rwa [List.append_assoc, ← produces_cons] at after

theorem fresh_life (env : Externals) : FirstLife env [] fresh := by
  have down {P : Live → Prop} : ∀ l, fresh.live = some l → P l := by
    intro l live
    cases (show none = some l from live)
  exact ⟨reached_loaded (Machine.Reaches.initial _), fun _ => ⟨rfl, rfl⟩, down, down, down⟩

end Steps

/-- What a writer has in memory, and where it is on disk. -/
structure Resident (env : Externals) (files : Recovery.WalDir) (w : PartitionWriter)
    (requests : List (List IncomingRecord)) : Prop where
  numbered : Numbered Record.offset (w.nextOffset - (memory w).length) (memory w)
  requests : ∃ gone kept, List.Forall₂ Carries requests (gone ++ kept) ∧ memory w = kept.flatten
  inFlight : ∀ (base : Int) records, w.inFlight[base]? = some records →
    records.head?.map (·.offset) = some base ∧ Holds env.crc32c files base records
  bytes : w.activeBytes = (w.active.map Record.size).sum
  active : Holds env.crc32c files w.segmentBase w.active

/-- In every state between two messages of a life that began on an empty partition, batches in
flight, active batch and pending records are one numbered list of whole requests in the order
they came, and the WAL file of each batch scans to it. -/
theorem memory_resident (env : Externals) (schedule : List Action) {s : State} {l : Live}
    (calm : (machine env).Along Calm schedule fresh)
    (ran : (machine env).execute schedule fresh = some s) (live : s.live = some l)
    (idle : l.writer.phase = .recv ∨ l.writer.phase = .stopped) :
    Resident env s.disk.wal l.writer (produces schedule) := by
  have life := (fresh_life env).run calm ran
  rw [List.nil_append] at life
  obtain ⟨piece, _, held⟩ := life.loaded.tracked l live
  obtain ⟨gone, kept, stored, flat⟩ := (life.blocked l live).memory (life.grouped l live)
  have taken := life.taken l live
  rw [stored] at taken
  refine ⟨piece.numbered, ⟨gone, kept, taken, flat⟩, fun base records found => ?_, piece.bytes, ?_⟩
  · have sealed := Dir.mem_toList.mpr found
    exact ⟨piece.batches _ sealed, held _ sealed⟩
  · have running := life.loaded.whole.inv.valid.running (view l) (by simp [abstract, live])
    have isActive : (view l).active = some (l.writer.segmentBase, l.writer.active) := by
      rcases idle with phase | phase <;> simp [view, phase, between]
    refine (running.activeFile isActive ?_).1
    rcases idle with phase | phase <;> simp [view, phase]

instance (s : State) : DecidablePred (Calm s)
  | .crash _ | .interrupt _ => .isFalse id
  | .produce records now => inferInstanceAs (Decidable (Admits .any s (.produce records now)))
  | .start cfg => inferInstanceAs (Decidable (Admits .any s (.start cfg)))
  | .enqueue msg => inferInstanceAs (Decidable (Admits .any s (.enqueue msg)))
  | .sendOrphan | .openWriter | .commitTimeout | .updateWriter _ | .segmentDurable | .shutdownWriter
  | .writer | .uploader _ => .isTrue trivial

/-- Two requests in a batch in flight, one in the active batch and one pending. -/
def loadedRun : List Action :=
  [.start settings, .openWriter] ++ produceOne 1 ++ produceOne 2 ++ handOver ++ produceOne 3 ++
    [.updateWriter { settings with groupCommitRecordCount := 10 },
      .produce [sample 4, sample 5] (fun _ => 0)]

theorem memory_resident_loadedRun : ∃ s l,
    (machine externals).execute loadedRun fresh = some s ∧ s.live = some l ∧
    (memory l.writer).map (·.offset) = [0, 1, 2, 3, 4] ∧ l.writer.inFlight.keys = [0] ∧
    l.writer.active.length = 1 ∧ l.writer.pending.length = 2 ∧
    Resident externals s.disk.wal l.writer (produces loadedRun) := by
  have runs : ((machine externals).execute loadedRun fresh).any (fun s => s.live.any (fun l =>
      decide (l.writer.phase = .recv ∧ (memory l.writer).map (·.offset) = [0, 1, 2, 3, 4] ∧
        l.writer.inFlight.keys = [0] ∧ l.writer.active.length = 1 ∧
        l.writer.pending.length = 2))) = true := by decide +kernel
  have calm : (machine externals).Along Calm loadedRun fresh := by decide +kernel
  obtain ⟨s, ran, facts⟩ := Option.any_eq_true _ _ |>.mp runs
  obtain ⟨l, live, facts⟩ := Option.any_eq_true _ _ |>.mp facts
  obtain ⟨recv, offsets, inFlight, active, pending⟩ := of_decide_eq_true facts
  exact ⟨s, l, ran, live, offsets, inFlight, active, pending,
    memory_resident externals loadedRun calm ran live (.inl recv)⟩

end Kafkrs.Blocks
