import Kafkrs.InMemory
import Kafkrs.RecoveredLog

/-! What a partition stores and for whom: every segment object is listed, about to be deleted, or
still in its WAL file, and every WAL file with records has an actor that will remove it. Only a
crash between a manifest rewrite and the deletes behind it leaves objects that nobody owns, as long
as every call on the store and on a WAL file succeeds: the partition's steps here know no failing
one, and the object of a DELETE that fails is only logged. -/
namespace Kafkrs.Accounting

open Lib Wal Recovery Pipeline Restart Refinement Kafkrs.Partition

def Filed (crc32c : Bytes → UInt32) (files : WalDir) (base : Int) : Prop :=
  ∃ records, Holds crc32c files base records ∧ records ≠ []

section Files

variable {crc32c : Bytes → UInt32} {files : WalDir} {base other : Int}

theorem filed_openFile (filed : Filed crc32c (openFile files other) base) :
    Filed crc32c files base := by
  obtain ⟨records, ⟨bytes, found, scanned⟩, filled⟩ := filed
  unfold openFile at found
  split at found
  · exact ⟨records, ⟨bytes, found, scanned⟩, filled⟩
  · rw [Dir.get_insert] at found
    split at found
    · cases found
      exact absurd scanned.symm filled
    · exact ⟨records, ⟨bytes, found, scanned⟩, filled⟩

theorem filed_appendFile {bytes : Bytes} (filed : Filed crc32c (appendFile files other bytes) base) :
    base = other ∨ Filed crc32c files base := by
  obtain ⟨records, ⟨held, found, scanned⟩, filled⟩ := filed
  unfold appendFile at found
  split at found
  · rw [Dir.get_insert] at found
    split at found
    next same => exact .inl same.symm
    next => exact .inr ⟨records, ⟨held, found, scanned⟩, filled⟩
  · exact .inr ⟨records, ⟨held, found, scanned⟩, filled⟩

theorem filed_salvaged {manifest : Manifest} (ordered : manifest.Ordered) :
    base ∈ (salvaged crc32c manifest files).map Prod.fst ↔
      manifest.lists base = false ∧ Filed crc32c files base := by
  simp only [List.mem_map, Prod.exists, exists_and_right, exists_eq_right, mem_salvaged ordered]
  constructor
  · rintro ⟨records, unlisted, held, filled⟩
    exact ⟨unlisted, records, held, filled⟩
  · rintro ⟨unlisted, records, held, filled⟩
    exact ⟨records, unlisted, held, filled⟩

end Files

section Tended

variable {env : Externals} {regime : Regime} {s t : Lifecycle.State}

/-- Every WAL file with records is the active segment's, a sealed one's, or due for removal. -/
def Tended (env : Externals) (s : Lifecycle.State) : Prop :=
  ∀ v, s.view = some v → ∀ base, Filed env.crc32c s.disk.wal base →
    base ∈ v.notified ++ v.backlog.map Prod.fst ++ v.active.toList.map Prod.fst

theorem started_filed {manifest : Manifest} {files : WalDir} {stored : Record → Prop}
    {acked : List Record} (durable : Durable env.crc32c files manifest stored acked) {base : Int}
    (unlisted : manifest.lists base = false) (filed : Filed env.crc32c files base) :
    base ∈ (startView env.crc32c manifest files).backlog.map Prod.fst ∨
      ∃ first rest, (startView env.crc32c manifest files).active = some (base, first :: rest) := by
  obtain ⟨⟨_, records⟩, member, rfl⟩ := List.mem_map.mp
    ((filed_salvaged durable.ordered).mpr ⟨unlisted, filed⟩)
  have nonempty : salvaged env.crc32c manifest files ≠ [] := List.ne_nil_of_mem member
  rw [← List.dropLast_append_getLast nonempty, List.mem_append, List.mem_singleton] at member
  simp only [startView, recoverPartition_eq, List.getLast?_eq_getLast_of_ne_nil nonempty]
  rcases member with orphan | last
  · exact .inl (List.mem_map_of_mem orphan)
  · refine .inr ?_
    have whole := List.getLast_mem nonempty
    rw [← last] at whole ⊢
    obtain ⟨_, held, filled⟩ := (mem_salvaged durable.ordered).mp whole
    obtain ⟨first, rest, rfl⟩ := List.exists_cons_of_ne_nil filled
    exact ⟨first, rest, by simp [(durable.head _ first rest held).1]⟩

theorem Tended.step (tended : Tended env s) (valid : Lifecycle.Valid env s)
    (event : Lifecycle.Step env regime s t) : Tended env t := by
  cases event with
  | idle => exact tended
  | receive | put | delete | evict =>
    intro v same base filed
    cases same
    exact tended _ rfl base filed
  | crash | tear | interrupt =>
    intro v same
    cases same
  | append active =>
    intro v same base filed
    cases same
    rcases filed_appendFile filed with rfl | before
    · simp
    · simpa [active] using tended _ rfl base before
  | sealActive active =>
    intro v same base filed
    cases same
    simpa [active] using tended _ rfl base filed
  | openNext closed =>
    intro v same base filed
    cases same
    have := tended _ rfl base (filed_openFile filed)
    simp only [closed, Option.toList_none, List.map_nil, List.append_nil] at this
    exact List.mem_append_left _ this
  | openFirst active =>
    intro v same base filed
    cases same
    exact tended _ rfl base (filed_openFile filed)
  | list oldest =>
    intro v same base filed
    cases same
    have := tended _ rfl base filed
    simp only [oldest, List.map_cons, List.append_assoc, List.mem_append, List.mem_cons] at this ⊢
    tauto
  | remove oldest =>
    intro v same base filed
    cases same
    obtain ⟨records, held, filled⟩ := filed
    obtain ⟨different, held⟩ := holds_erase.mp held
    have := tended _ rfl base ⟨records, held, filled⟩
    rw [oldest] at this
    simpa [different.symm] using this
  | start =>
    intro v same base filed
    cases same
    obtain ⟨records, held, filled⟩ := filed
    obtain ⟨held, unlisted⟩ := (holds_after valid.durable.ordered).mp held
    rcases started_filed valid.durable unlisted ⟨records, held, filled⟩ with orphan | ⟨_, _, active⟩
    · simp [orphan]
    · simp [active]

theorem next_le (event : Lifecycle.Step env regime s t) {v v' : View} (before : s.view = some v)
    (after : t.view = some v') : v.nextOffset ≤ v'.nextOffset := by
  cases event with
  | idle => rw [Option.some.inj (before.symm.trans after)]
  | crash | tear => cases after
  | interrupt | start => cases before
  | append =>
    cases before
    cases after
    dsimp only
    omega
  | _ =>
    cases before
    cases after
    exact le_rfl

end Tended

section Crash

variable {env : Externals} {regime : Regime} {s t : Lifecycle.State} {v : View} {base : Int}

/-- A crash in an append takes no record from any file. -/
theorem filed_crashed (valid : Lifecycle.Valid env s) (event : Lifecycle.Step env regime s t)
    (before : s.view = some v) (after : t.view = none) (filed : Filed env.crc32c s.disk.wal base) :
    Filed env.crc32c t.disk.wal base := by
  cases event with
  | idle => cases before.symm.trans after
  | crash => exact filed
  | tear cut active opened =>
    have running := valid.running _ rfl
    obtain ⟨holds, found⟩ := running.activeFile active opened
    obtain ⟨records, held, nonempty⟩ := filed
    rw [Lifecycle.appendFile_present found]
    simp only [Filed, holds_insert]
    split
    next same =>
      subst same
      obtain rfl := holds.unique held
      exact ⟨_, scan_torn holds.fits running.fits cut, by simp [nonempty]⟩
    next => exact ⟨records, held, nonempty⟩
  | interrupt | start => cases before
  | _ => cases after

/-- Nor does it put one into the file of a segment below the active one. -/
theorem filed_before (valid : Lifecycle.Valid env s) (event : Lifecycle.Step env regime s t)
    (before : s.view = some v) (after : t.view = none) (lower : base < v.nextOffset)
    (filed : Filed env.crc32c t.disk.wal base) : Filed env.crc32c s.disk.wal base := by
  cases event with
  | idle => cases before.symm.trans after
  | crash => exact filed
  | @tear _ _ _ _ records cut active opened =>
    cases before
    have running := valid.running _ rfl
    obtain ⟨_, settled, _⟩ := running.active _ _ active
    rcases filed_appendFile filed with rfl | old
    · refine ⟨records, (running.activeFile active opened).1, fun empty => ?_⟩
      have := settled empty
      omega
    · exact old
  | interrupt | start => cases before
  | _ => cases after

theorem filed_interrupted {manifest : Manifest} {files : WalDir} (ordered : manifest.Ordered)
    (rounds : Nat) (unlisted : manifest.lists base = false) (filed : Filed env.crc32c files base) :
    Filed env.crc32c (interrupted env.crc32c manifest rounds files) base := by
  obtain ⟨records, held, nonempty⟩ := filed
  have distinct : (files.keys.take rounds).Nodup :=
    (Dir.keys_nodup files).sublist (List.take_sublist _ _)
  exact ⟨records, (holds_recovered ordered distinct).mpr ⟨held, fun _ => unlisted⟩, nonempty⟩

end Crash

def doomed : Uploader.Phase → List Int
  | .delete evict => evict.map (·.baseOffset)
  | _ => []

def written (w : PartitionWriter) : List Int :=
  (handing w.phase).map (·.baseOffset) ++
    if between w.phase ∨ w.active = [] then [] else [w.segmentBase]

/-- The segments whose objects the actors will list, write again or delete. -/
def claims (l : Live) : List Int :=
  doomed l.uploader.phase ++ (uploading l.uploader.phase ++ queued l.uploader.rx).map (·.baseOffset) ++
    l.orphans.map Prod.fst ++ written l.writer

def Owned (manifest : Manifest) (l : Live) (base : Int) : Prop :=
  manifest.lists base = true ∨ base ∈ claims l

/-- Nothing stored is forgotten. -/
structure Accounted (env : Externals) (s : State) : Prop where
  objects : ∀ base, s.disk.store.objects[base]?.isSome → s.disk.store.manifest.lists base = true ∨
    (∃ l, s.live = some l ∧ base ∈ doomed l.uploader.phase) ∨ Filed env.crc32c s.disk.wal base
  files : ∀ l, s.live = some l → ∀ base, Filed env.crc32c s.disk.wal base →
    base ∈ InMemory.bases l ++ (view l).active.toList.map Prod.fst

section Claims

variable {env : Externals} {regime : Regime} {s t : State} {l l' : Live} {action : Action}

/-- What the uploader lets go of is listed, and what it takes out of the manifest it deletes. -/
theorem owned_uploader {now : Int} {store : Store} {effect : Uploader.Effect}
    (ordered : store.manifest.Ordered)
    (stepped : l.uploader.step env.segmentSize now .ok store = some effect)
    (owned : ∀ base, store.objects[base]?.isSome → Owned store.manifest l base) :
    ∀ base, effect.store.objects[base]?.isSome → Owned effect.store.manifest
      { l with uploader := effect.uploader, durable := l.durable ++ effect.durable } base := by
  intro base present
  cases Uploader.step_moved stepped with
  | upload phase shape | retentionKick phase shape | updateConfig phase shape | shutdown phase shape =>
    have before := owned base present
    simpa [Owned, claims, phase, shape, doomed, uploading, queued] using before
  | putSegment busy =>
    simp only [Outcome.applied, if_true, Dir.get_insert] at present ⊢
    split at present
    next same => simp [Owned, claims, uploading, same]
    next =>
      have before := owned base present
      simpa [Owned, claims, busy, doomed, uploading] using before
  | @putManifest batch busy =>
    have before : store.objects[base]?.isSome := by
      simp only [Outcome.applied, true_and] at present
      split at present <;> exact present
    have before := owned base before
    simp only [Owned, claims, busy, doomed, uploading, Outcome.applied, true_and, if_true,
      List.nil_append, List.cons_append, List.map_cons, List.mem_cons, ← or_assoc] at before ⊢
    refine before.imp_left fun held => ?_
    split
    next new => exact Lifecycle.lists_add.mpr held
    next known =>
      rcases held with listed | rfl
      · exact listed
      · exact Bool.not_eq_false _ ▸ known
  | notify busy | spare busy | deleted busy =>
    have before := owned base present
    simpa [Owned, claims, busy, doomed, uploading] using before
  | @evict evict busy chosen =>
    simp only [Outcome.applied, if_true] at present ⊢
    rcases owned base present with listed | claimed
    · obtain ⟨kept, split, after, _⟩ := Lifecycle.evict_split ordered l.uploader.cfg now
      obtain ⟨seg, member, rfl⟩ := Manifest.lists_iff.mp listed
      rw [split, chosen] at member
      rw [chosen] at after
      rcases List.mem_append.mp member with out | stays
      · refine .inr ?_
        simp only [claims, doomed, List.append_assoc]
        exact List.mem_append_left _ (List.mem_map_of_mem out)
      · refine .inl ?_
        rw [after]
        exact Manifest.lists_iff.mpr ⟨seg, stays, rfl⟩
    · refine .inr ?_
      simp only [claims, busy, doomed, uploading, List.nil_append, List.append_assoc] at claimed ⊢
      exact List.mem_append_right _ claimed
  | @delete seg rest busy =>
    simp only [Outcome.applied, if_true, Dir.get_erase] at present ⊢
    split at present
    · cases present
    next different =>
      have before := owned base present
      simpa [Owned, claims, busy, doomed, uploading, Ne.symm different] using before

/-- What the writer leaves its hands only for the uploader's queue. -/
theorem written_kept {w' : PartitionWriter} (shape : written l.writer ⊆ written w') {base : Int}
    {manifest : Manifest} (owned : Owned manifest l base) :
    Owned manifest { l with writer := w' } base := by
  refine owned.imp_right fun claimed => ?_
  simp only [claims, List.mem_append] at claimed ⊢
  exact claimed.imp_right (@shape base)

/-- Outside a hand-over the writer holds the active segment and nothing else. -/
theorem written_steady {w : PartitionWriter} (steady : handing w.phase = [] ∧ between w.phase = false) :
    written w = if w.active = [] then [] else [w.segmentBase] := by
  simp [written, steady]

theorem owned_moved (inv : Invariant env regime s) (live : s.live = some l)
    (moved : Moved env s l action t) (live' : t.live = some l')
    (owned : ∀ base, s.disk.store.objects[base]?.isSome → Owned s.disk.store.manifest l base) :
    ∀ base, t.disk.store.objects[base]?.isSome → Owned t.disk.store.manifest l' base := by
  intro base present
  cases moved with
  | sendOrphan first made =>
    cases live'
    obtain ⟨_, head, rest, rfl, rfl⟩ := orphanBatch_some made
    refine (owned base present).imp_right fun claimed => ?_
    simp only [claims, first, queued_append, queued_upload, queued_nil, List.map_append,
      List.map_cons, List.map_nil, List.mem_append, List.mem_cons, SealedBatch.ofRecords] at claimed ⊢
    tauto
  | openWriter starting =>
    cases live'
    refine written_kept ?_ (owned base present)
    simp [written, starting, handing, between]
  | produce ready filled stored =>
    cases live'
    obtain ⟨_, phase, busy, rfl⟩ := PartitionWriter.onProduce_some stored
    refine written_kept ?_ (owned base present)
    rcases busy with rfl | rfl
    all_goals simp [written, ready, handing, between]
  | commitTimeout ready | shutdownWriter ready =>
    cases live'
    exact written_kept (by simp [written, ready, handing, between]) (owned base present)
  | updateWriter =>
    cases live'
    exact written_kept (List.Subset.refl _) (owned base present)
  | enqueue =>
    cases live'
    simpa [Owned, claims] using owned base present
  | segmentDurable =>
    cases live'
    exact written_kept (List.Subset.refl _) (owned base present)
  | commit phase =>
    cases live'
    refine written_kept ?_ (owned base present)
    have after : handing l.writer.flushCommit.phase = [] ∧
        between l.writer.flushCommit.phase = false := by
      unfold PartitionWriter.flushCommit
      split <;> dsimp only <;> split <;> exact ⟨rfl, rfl⟩
    have grown : l.writer.flushCommit.segmentBase = l.writer.segmentBase ∧
        (l.writer.flushCommit.active = [] → l.writer.active = []) := by
      unfold PartitionWriter.flushCommit
      split
      · exact ⟨rfl, id⟩
      · exact ⟨rfl, fun empty => (List.append_eq_nil_iff.mp empty).1⟩
    rw [written_steady after, written_steady (by simp [phase, handing, between]), grown.1]
    by_cases empty : l.writer.active = []
    · simp [empty]
    · simp [empty, mt grown.2 empty]
  | sealActive phase =>
    cases live'
    refine written_kept ?_ (owned base present)
    have running := inv.valid.running (view l) (by simp [abstract, live])
    unfold PartitionWriter.sealActive
    split
    next empty =>
      have resumed : handing l.writer.resume = [] ∧ between l.writer.resume = false := by
        unfold PartitionWriter.resume
        split <;> exact ⟨rfl, rfl⟩
      have after := @written_steady { l.writer with phase := l.writer.resume } resumed
      rw [after, written_steady (by simp [phase, handing, between])]
      exact List.Subset.refl _
    next first rest active =>
      have isActive : (view l).active = some (l.writer.segmentBase, first :: rest) := by
        simp [view, phase, between, active]
      have opened : (view l).opened = true := by simp [view, phase]
      have head := (inv.valid.durable.head _ _ _ (running.activeFile isActive opened).1).1
      simp [written, phase, between, handing, active, head, SealedBatch.ofRecords]
  | handoff phase =>
    cases live'
    refine (owned base present).imp_right fun claimed => ?_
    simp only [claims, written, phase, handing, between, queued_append, queued_upload, queued_nil,
      List.map_append, List.map_cons, List.map_nil, List.mem_append, true_or, if_true] at claimed ⊢
    tauto
  | openNext phase =>
    cases live'
    refine written_kept ?_ (owned base present)
    simp [written, phase, handing, between]
  | uploader stepped =>
    cases live'
    exact owned_uploader inv.valid.durable.ordered stepped owned base present
  | crash => cases live'

end Claims

section Runs

variable {env : Externals} {regime : Regime} {s t : State} {l : Live} {action : Action}

/-- A crash finds no object whose delete is due and whose records are in no file. -/
def Spared (env : Externals) (s : State) : Action → Prop
  | .crash _ => ∀ l, s.live = some l → ∀ base ∈ doomed l.uploader.phase,
      s.disk.store.objects[base]?.isSome → Filed env.crc32c s.disk.wal base
  | _ => True

structure Backed (env : Externals) (regime : Regime) (s : State) : Prop where
  invariant : Invariant env regime s
  tended : Tended env (abstract s)
  live : ∀ l, s.live = some l → ∀ base, s.disk.store.objects[base]?.isSome →
    Owned s.disk.store.manifest l base
  below : ∀ l, s.live = some l → ∀ base ∈ doomed l.uploader.phase, base < (view l).nextOffset
  down : s.live = none → ∀ base, s.disk.store.objects[base]?.isSome →
    s.disk.store.manifest.lists base = true ∨ Filed env.crc32c s.disk.wal base

theorem claims_filed (inv : Invariant env regime s) (live : s.live = some l) {base : Int}
    (claimed : base ∈ claims l) :
    base ∈ doomed l.uploader.phase ∨ Filed env.crc32c s.disk.wal base := by
  have running := inv.valid.running (view l) (by simp [abstract, live])
  have sealed (claimed : base ∈ (view l).backlog.map Prod.fst) : Filed env.crc32c s.disk.wal base := by
    obtain ⟨⟨_, records⟩, member, rfl⟩ := List.mem_map.mp claimed
    obtain ⟨held, nonempty, _⟩ := running.backlog _ records member
    exact ⟨records, held, nonempty⟩
  have backlog : (view l).backlog.map Prod.fst =
      (uploading l.uploader.phase ++ queued l.uploader.rx).map (·.baseOffset) ++
        l.orphans.map Prod.fst ++ (handing l.writer.phase).map (·.baseOffset) := by
    simp [view, Refinement.segment, Function.comp_def]
  rw [backlog] at sealed
  simp only [claims, written, List.mem_append] at claimed sealed
  rcases claimed with ((due | queue) | orphan) | handed | current
  · exact .inl due
  · exact .inr (sealed (.inl (.inl queue)))
  · exact .inr (sealed (.inl (.inr orphan)))
  · exact .inr (sealed (.inr handed))
  · refine .inr ?_
    split at current
    · cases current
    next filled =>
      obtain ⟨steady, nonempty⟩ := not_or.mp filled
      obtain rfl := List.mem_singleton.mp current
      have isActive : (view l).active = some (l.writer.segmentBase, l.writer.active) := by
        simp [view, steady]
      rcases (running.active _ _ isActive).2.2 with held | ⟨_, empty, _⟩
      · exact ⟨_, held, nonempty⟩
      · exact absurd empty nonempty

theorem Backed.accounted (backed : Backed env regime s) : Accounted env s where
  objects := fun base present => by
    cases live : s.live with
    | none => exact (backed.down live base present).imp_right .inr
    | some l =>
      refine (backed.live l live base present).imp_right fun claimed => ?_
      exact (claims_filed backed.invariant live claimed).imp_left fun due => ⟨l, rfl, due⟩
  files := fun l live base filed => by
    exact backed.tended (view l) (by simp [abstract, live]) base filed

theorem doomed_below {now : Int} {effect : Uploader.Effect} {limit : Int}
    (stepped : l.uploader.step env.segmentSize now .ok s.disk.store = some effect)
    (listed : ∀ base, s.disk.store.manifest.lists base = true → base < limit)
    (below : ∀ base ∈ doomed l.uploader.phase, base < limit) :
    ∀ base ∈ doomed effect.uploader.phase, base < limit := by
  intro base member
  cases Uploader.step_moved stepped with
  | @evict evict busy chosen =>
    obtain ⟨seg, out, rfl⟩ := List.mem_map.mp member
    rw [← chosen] at out
    have front := (Retention.evaluateEviction_front _ _ _).subset out
    exact listed _ (Manifest.lists_iff.mpr ⟨seg, List.dropLast_subset _ front, rfl⟩)
  | delete busy => exact below base (by simp [busy, doomed, List.mem_map.mp member])
  | updateConfig idle => simp [idle, doomed] at member
  | _ => simp [doomed] at member

theorem doomed_moved {l' : Live} {limit : Int} (moved : Moved env s l action t)
    (live' : t.live = some l') (listed : ∀ base, s.disk.store.manifest.lists base = true → base < limit)
    (below : ∀ base ∈ doomed l.uploader.phase, base < limit) :
    ∀ base ∈ doomed l'.uploader.phase, base < limit := by
  cases moved with
  | uploader stepped =>
    cases live'
    exact doomed_below stepped listed below
  | crash => cases live'
  | _ =>
    cases live'
    exact below

theorem Backed.moved (backed : Backed env regime s) (admits : Admits regime s action)
    (spared : Spared env s action) (taken : step env action s = some t) (live : s.live = some l)
    (moved : Moved env s l action t) : Backed env regime t := by
  have inv := backed.invariant
  have event := (step_simulated inv admits taken).event
  have running := inv.valid.running (view l) (by simp [abstract, live])
  refine ⟨inv.step admits taken, backed.tended.step inv.valid event, ?_, ?_, ?_⟩
  · intro l' live'
    exact owned_moved inv live moved live' (backed.live l live)
  · intro l' live' base due
    have lower := doomed_moved moved live' running.listed (backed.below l live) base due
    have := next_le event (by simp [abstract, live] : (abstract s).view = some (view l))
      (by simp [abstract, live'] : (abstract t).view = some (view l'))
    omega
  · intro down base present
    have kept (filed : Filed env.crc32c s.disk.wal base) : Filed env.crc32c t.disk.wal base :=
      filed_crashed inv.valid event (by simp [abstract, live] : (abstract s).view = some (view l))
        (by simp [abstract, down]) filed
    cases moved with
    | crash =>
      refine (backed.live l live base present).imp_right fun claimed => ?_
      rcases claims_filed inv live claimed with due | filed
      · exact kept (spared l live base due present)
      · exact kept filed
    | _ => cases down

theorem Backed.step (backed : Backed env regime s) (admits : Admits regime s action)
    (spared : Spared env s action) (taken : step env action s = some t) : Backed env regime t := by
  have inv := backed.invariant
  have tended := backed.tended.step inv.valid (step_simulated inv admits taken).event
  cases step_stepped taken with
  | @moved l _ _ live moved => exact backed.moved admits spared taken live moved
  | interrupt down =>
    have nobody (l : Live) (live : s.live = some l) : False := by
      rw [down] at live
      cases live
    refine ⟨inv.step admits taken, tended, fun l live => (nobody l live).elim,
      fun l live => (nobody l live).elim, fun _ base present => ?_⟩
    by_cases listed : s.disk.store.manifest.lists base = true
    · exact .inl listed
    · refine .inr (filed_interrupted inv.valid.durable.ordered _ (Bool.not_eq_true _ ▸ listed) ?_)
      exact (backed.down down base present).resolve_left listed
  | @start cfg down =>
    refine ⟨inv.step admits taken, tended, ?_, ?_, fun none => by cases none⟩
    · intro l live base present
      cases live
      by_cases listed : s.disk.store.manifest.lists base = true
      · exact .inl listed
      · refine .inr ?_
        have filed := (backed.down down base present).resolve_left listed
        have unlisted : s.disk.store.manifest.lists base = false := Bool.not_eq_true _ ▸ listed
        rcases started_filed inv.valid.durable unlisted filed with orphan | ⟨first, rest, active⟩
        · exact List.mem_append_left _ (List.mem_append_right _ orphan)
        · obtain ⟨here, recovered⟩ := Prod.mk.inj (Option.some.inj active)
          rw [recovered] at here
          have segment : written (PartitionWriter.new cfg
              (recoverPartition env.crc32c s.disk.store.manifest s.disk.wal).2.nextOffset
              (first :: rest)) = [base] := by
            rw [← here]
            rfl
          simp only [abstract] at recovered
          refine List.mem_append_right _ ?_
          rw [recovered, segment]
          exact List.mem_singleton_self base
    · intro l live base due
      cases live
      cases due

theorem Backed.leaks (backed : Backed env regime s) (admits : Admits regime s action)
    (wasted : ¬ Spared env s action) (taken : Partition.step env action s = some t) : ¬ Accounted env t := by
  intro accounted
  have inv := backed.invariant
  have event := (step_simulated inv admits taken).event
  cases action with
  | crash cut =>
    simp only [Spared, not_forall] at wasted
    obtain ⟨l, live, base, due, present, lost⟩ := wasted
    have shape := inv.shape l live
    cases step_stepped taken with
    | moved _ moved =>
      cases moved
      rcases accounted.objects base present with listed | ⟨_, none, _⟩ | filed
      · unfold doomed at due
        split at due
        next evict busy =>
          obtain ⟨seg, member, rfl⟩ := List.mem_map.mp due
          have unlisted := shape.uploader.doomed evict busy seg member
          rw [unlisted] at listed
          cases listed
        next => cases due
      · cases none
      · exact lost (filed_before inv.valid event (by simp [abstract, live] :
          (abstract s).view = some (view l)) rfl (backed.below l live base due) filed)
  | _ => exact wasted trivial

/-- Every object and every WAL file with records stays accounted for exactly as long as no crash
comes between a manifest rewrite and the DELETE of an object it took out. -/
theorem accounted_iff_spared (env : Externals) (schedule : List Action)
    (admitted : (machine env).Along (Admits .any) schedule fresh) :
    (machine env).Throughout (Accounted env) schedule fresh ↔
      (machine env).Along (Spared env) schedule fresh := by
  have invariant : Invariant env .any fresh := reached_invariant (Machine.Reaches.initial _)
  have initially : Backed env .any fresh := by
    refine ⟨invariant, ?_, ?_, ?_, fun _ base present => by simp [fresh] at present⟩
    all_goals
      intro l live
      cases live
  refine Machine.throughout_iff_admitted (fun _ => Backed.accounted) ?_ ?_ ?_ initially admitted
  · exact fun _ _ _ backed admits spared taken => backed.step admits spared taken
  · exact fun _ _ _ backed admits wasted taken => backed.leaks admits wasted taken
  · intro s action disabled
    cases action with
    | crash cut =>
      intro l live
      simp [machine, Partition.step, live, liveStep] at disabled
    | _ => trivial

end Runs

section Sample

instance (crc32c : Bytes → UInt32) (files : WalDir) (base : Int) :
    Decidable (Filed crc32c files base) :=
  decidable_of_iff (files[base]?.any (fun bytes => !(scanWal crc32c bytes).1.isEmpty) = true) <| by
    simp [Filed, Holds, Option.any_eq_true]

instance (env : Externals) (s : State) : DecidablePred (Spared env s)
  | .crash _ => decidable_of_iff (∀ l ∈ s.live.toList, ∀ base ∈ doomed l.uploader.phase,
      s.disk.store.objects[base]?.isSome → Filed env.crc32c s.disk.wal base) (by simp [Spared])
  | .interrupt _ | .start _ | .sendOrphan | .openWriter | .produce _ _ | .commitTimeout
  | .updateWriter _ | .segmentDurable | .shutdownWriter | .writer | .enqueue _ | .uploader _ =>
    .isTrue trivial

/-- The second upload evicts the first segment, whose WAL file is gone, and the process dies
before the DELETE. -/
def leakingRun : List Action :=
  [.start { settings with retentionBytes := 0 }, .openWriter] ++ RecoveredLog.produceOne 1 ++
    RecoveredLog.produceOne 2 ++ RecoveredLog.handOver ++ RecoveredLog.upload ++ [.segmentDurable] ++
    RecoveredLog.produceOne 3 ++ RecoveredLog.produceOne 4 ++ RecoveredLog.handOver ++
    RecoveredLog.upload ++ [.crash 0]

theorem accounted_iff_spared_leakingRun :
    (machine externals).Throughout (Accounted externals) leakingRun.dropLast fresh ∧
      ¬ (machine externals).Throughout (Accounted externals) leakingRun fresh :=
  ⟨(accounted_iff_spared externals _ (by decide +kernel)).mpr (by decide +kernel),
    (accounted_iff_spared externals _ (by decide +kernel)).not.mpr (by decide +kernel)⟩

end Sample

end Kafkrs.Accounting
