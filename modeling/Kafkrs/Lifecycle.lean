import Kafkrs.Partition
import Kafkrs.Restart

/-! The life of a partition's segments, apart from the actors that carry it out: what can
happen to the disk, the history and the pipeline view, one event at a time. `Refinement`
shows that every step of the actors is one of these events. -/
namespace Kafkrs.Lifecycle

open Lib Wal Recovery Pipeline Restart
open Kafkrs.Partition (Externals Disk History Regime openFile appendFile evictedRecords)

structure State where
  disk : Disk
  history : History
  view : Option View

/-- What the writer's stamping and the wire layer guarantee of a record. -/
structure Encodable (r : Record) : Prop where
  offset : r.offset ≤ i64Max
  key : r.key.length ≤ 65535
  frame : r.key.length + r.value.length ≤ maxFrameSize

inductive Step (env : Externals) (regime : Regime) : State → State → Prop
  /-- A step inside one actor. -/
  | idle (s : State) : Step env regime s s
  | receive {disk : Disk} {history : History} {v : View} {batch : List Record}
      (numbered : Numbered Record.offset (v.nextOffset + v.pending.length) batch)
      (encodable : ∀ r ∈ batch, Encodable r) :
      Step env regime ⟨disk, history, some v⟩
        ⟨disk, history, some { v with pending := v.pending ++ batch }⟩
  /-- A group commit: append, sync, acknowledge. -/
  | append {disk : Disk} {history : History} {v : View} {base : Int} {records : List Record}
      (active : v.active = some (base, records)) (opened : v.opened = true) :
      Step env regime ⟨disk, history, some v⟩
        ⟨{ disk with wal := appendFile disk.wal base (encodeAll env.crc32c v.pending) },
          { history with
            acked := history.acked ++ v.pending
            log := history.log ++ v.pending },
          some { v with
            active := some (base, records ++ v.pending)
            pending := []
            nextOffset := v.nextOffset + v.pending.length }⟩
  | sealActive {disk : Disk} {history : History} {v : View} {base : Int} {records : List Record}
      (active : v.active = some (base, records)) (opened : v.opened = true)
      (nonempty : records ≠ []) :
      Step env regime ⟨disk, history, some v⟩
        ⟨disk, history, some { v with backlog := v.backlog ++ [(base, records)], active := none }⟩
  /-- The WAL file of the next segment is opened. -/
  | openNext {disk : Disk} {history : History} {v : View} (closed : v.active = none)
      (opened : v.opened = true) :
      Step env regime ⟨disk, history, some v⟩
        ⟨{ disk with wal := openFile disk.wal v.nextOffset }, history,
          some { v with active := some (v.nextOffset, []) }⟩
  /-- The WAL file of the recovered segment is opened. -/
  | openFirst {disk : Disk} {history : History} {v : View} {base : Int} {records : List Record}
      (active : v.active = some (base, records)) (closed : v.opened = false) :
      Step env regime ⟨disk, history, some v⟩
        ⟨{ disk with wal := openFile disk.wal base }, history, some { v with opened := true }⟩
  /-- The object of the oldest sealed segment is written. -/
  | put {disk : Disk} {history : History} {v : View} {base : Int} {records : List Record}
      {rest : List (Int × List Record)} (oldest : v.backlog = (base, records) :: rest) :
      Step env regime ⟨disk, history, some v⟩
        ⟨{ disk with store :=
            { disk.store with objects := disk.store.objects.insert base records } },
          history, some v⟩
  /-- The oldest sealed segment is listed, unless it already is. -/
  | list {disk : Disk} {history : History} {v : View} {base : Int} {first : Record}
      {records : List Record} {rest : List (Int × List Record)}
      (oldest : v.backlog = (base, first :: records) :: rest)
      (staged : disk.store.objects[base]? = some (first :: records)) :
      Step env regime ⟨disk, history, some v⟩
        ⟨{ disk with store :=
            if disk.store.manifest.lists base = false then
              { disk.store with manifest := (disk.store.manifest.add
                  (Uploader.entry env.segmentSize (SealedBatch.ofRecords base first records))) }
            else disk.store },
          history, some { v with backlog := rest, notified := v.notified ++ [base] }⟩
  /-- The WAL file of the oldest reported segment is removed. -/
  | remove {disk : Disk} {history : History} {v : View} {base : Int} {rest : List Int}
      (oldest : v.notified = base :: rest) :
      Step env regime ⟨disk, history, some v⟩
        ⟨{ disk with wal := disk.wal.erase base }, history, some { v with notified := rest }⟩
  | evict {disk : Disk} {history : History} {v : View} {cfg : ResolvedTopicConfig} (now : Int)
      (policy : regime.policy cfg) :
      Step env regime ⟨disk, history, some v⟩
        ⟨{ disk with store := { disk.store with
            manifest := (Retention.retain disk.store.manifest
              (Retention.evaluateEviction disk.store.manifest cfg now)) } },
          { history with
            evicted := (history.evicted ++ evictedRecords disk.store
              (Retention.evaluateEviction disk.store.manifest cfg now)) },
          some v⟩
  /-- The object of an unlisted segment is deleted. -/
  | delete {disk : Disk} {history : History} {v : View} {base : Int}
      (unlisted : disk.store.manifest.lists base = false) :
      Step env regime ⟨disk, history, some v⟩
        ⟨{ disk with store := { disk.store with objects := disk.store.objects.erase base } },
          history, some v⟩
  | crash {disk : Disk} {history : History} {v : View} :
      Step env regime ⟨disk, history, some v⟩ ⟨disk, history, none⟩
  /-- A crash during an append, of which `cut` bytes reached the disk. -/
  | tear {disk : Disk} {history : History} {v : View} {base : Int} {records : List Record}
      (cut : Nat) (active : v.active = some (base, records)) (opened : v.opened = true) :
      Step env regime ⟨disk, history, some v⟩
        ⟨{ disk with wal :=
            appendFile disk.wal base ((encodeAll env.crc32c v.pending).take cut) },
          { history with
            log := history.log ++ fitting (encodeRecord env.crc32c) cut v.pending },
          none⟩
  | interrupt {disk : Disk} {history : History} (rounds : Nat) :
      Step env regime ⟨disk, history, none⟩
        ⟨{ disk with wal :=
            Recovery.interrupted env.crc32c disk.store.manifest rounds disk.wal },
          history, none⟩
  | start {disk : Disk} {history : History} (clean : regime.boot disk) :
      Step env regime ⟨disk, history, none⟩
        ⟨{ disk with wal :=
            (recoverPartition env.crc32c disk.store.manifest disk.wal).1 },
          history, some (startView env.crc32c disk.store.manifest disk.wal)⟩

/-- Out of the WAL's care: evicted, or in the object of a listed segment. -/
def Stored (store : Store) (evicted : List Record) (r : Record) : Prop :=
  r ∈ evicted ∨ ∃ base records, store.manifest.lists base = true ∧
    store.objects[base]? = some records ∧ r ∈ records

/-- No acknowledged record is lost, in any state of any run. -/
structure Valid (env : Externals) (s : State) : Prop where
  durable : Durable env.crc32c s.disk.wal s.disk.store.manifest
    (Stored s.disk.store s.history.evicted) s.history.acked
  running : ∀ v, s.view = some v → Running env.crc32c s.disk.wal s.disk.store.manifest
    (Stored s.disk.store s.history.evicted) v

section Files

variable {files : WalDir} {base : Int}

theorem openFile_present {bytes : Bytes} (found : files[base]? = some bytes) :
    openFile files base = files := by
  simp [openFile, found]

theorem openFile_opened (before : ∀ bytes, files[base]? = some bytes → bytes = []) :
    Opened files (openFile files base) base := by
  cases found : files[base]? with
  | none =>
    refine ⟨by simp [openFile, found], fun other different => ?_, before⟩
    simp [openFile, found, Ne.symm different]
  | some bytes =>
    rw [openFile_present found]
    exact ⟨by rw [found, before bytes found], fun _ _ => rfl, before⟩

theorem appendFile_present {old : Bytes} (found : files[base]? = some old) (bytes : Bytes) :
    appendFile files base bytes = files.insert base (old ++ bytes) := by
  simp [appendFile, found]

theorem appendFile_nil : appendFile files base [] = files := by
  cases found : files[base]? with
  | none => simp [appendFile, found]
  | some old =>
    refine Std.ExtTreeMap.ext_getElem? fun other => ?_
    rw [appendFile_present found, List.append_nil, Dir.get_insert]
    split
    next same => rw [← same, found]
    next different => rfl

end Files

theorem Encodable.fits {r : Record} (encodable : Encodable r) (natural : 0 ≤ r.offset) :
    Fits r where
  offset := by
    have := encodable.offset
    simp only [i64Max] at this
    omega
  key := by have := encodable.key; omega
  body := by
    have := encodable.frame
    simp only [maxFrameSize, headerAfterLen] at *
    omega

theorem Stored.put {store : Store} {evicted : List Record} {base : Int}
    (unlisted : store.manifest.lists base = false) (records : List Record) (r : Record)
    (stored : Stored store evicted r) :
    Stored { store with objects := store.objects.insert base records } evicted r := by
  rcases stored with gone | ⟨other, recs, listed, found, inside⟩
  · exact .inl gone
  · refine .inr ⟨other, recs, listed, ?_, inside⟩
    have different : base ≠ other := by rintro rfl; rw [unlisted] at listed; contradiction
    rw [Dir.get_insert, if_neg different]
    exact found

theorem Stored.delete {store : Store} {evicted : List Record} {base : Int}
    (unlisted : store.manifest.lists base = false) (r : Record)
    (stored : Stored store evicted r) :
    Stored { store with objects := store.objects.erase base } evicted r := by
  rcases stored with gone | ⟨other, recs, listed, found, inside⟩
  · exact .inl gone
  · refine .inr ⟨other, recs, listed, ?_, inside⟩
    have different : base ≠ other := by rintro rfl; rw [unlisted] at listed; contradiction
    rw [Dir.get_erase, if_neg different]
    exact found

theorem lists_add {m : Manifest} {entry : SegmentEntry} {base : Int} :
    (m.add entry).lists base = true ↔ m.lists base = true ∨ base = entry.baseOffset := by
  simp only [Manifest.lists_iff, Manifest.mem_add]
  constructor
  · rintro ⟨seg, member | rfl, rfl⟩
    · exact .inl ⟨seg, member, rfl⟩
    · exact .inr rfl
  · rintro (⟨seg, member, rfl⟩ | rfl)
    · exact ⟨seg, .inl member, rfl⟩
    · exact ⟨entry, .inr rfl, rfl⟩

/-- What a retention pass leaves of the manifest. -/
theorem evict_split {m : Manifest} (ordered : m.Ordered) (cfg : ResolvedTopicConfig) (now : Int) :
    ∃ kept, m.segments = Retention.evaluateEviction m cfg now ++ kept ∧
      Retention.retain m (Retention.evaluateEviction m cfg now) = ⟨kept⟩ ∧
      (m.segments ≠ [] → kept ≠ []) := by
  obtain ⟨middle, front⟩ := Retention.evaluateEviction_front m cfg now
  cases shape : m.segments.getLast? with
  | none =>
    have empty := List.getLast?_eq_none_iff.mp shape
    have nothing : Retention.evaluateEviction m cfg now = [] := by
      simpa [empty] using (List.append_eq_nil_iff.mp (front.trans (by simp [empty]))).1
    refine ⟨[], by simp [empty, nothing], ?_, by simp [empty]⟩
    exact Retention.retain_front ordered (by simp [empty, nothing])
  | some last =>
    have nonempty : m.segments ≠ [] := by intro empty; simp [empty] at shape
    have whole : m.segments = Retention.evaluateEviction m cfg now ++ (middle ++ [last]) := by
      rw [← List.append_assoc, front]
      exact (List.dropLast_append_getLast? last shape).symm
    exact ⟨middle ++ [last], whole, Retention.retain_front ordered whole, by simp⟩

/-- A retention pass lists none of what it evicts. -/
theorem evicted_unlisted {m : Manifest} (ordered : m.Ordered) {cfg : ResolvedTopicConfig} {now : Int}
    {seg : SegmentEntry} (member : seg ∈ Retention.evaluateEviction m cfg now) :
    (Retention.retain m (Retention.evaluateEviction m cfg now)).lists seg.baseOffset = false := by
  obtain ⟨kept, split, after, _⟩ := evict_split ordered cfg now
  have bases := ordered.bases
  rw [split] at bases
  rw [after]
  by_contra listed
  obtain ⟨other, stays, base⟩ := Manifest.lists_iff.mp (Bool.not_eq_false _ |>.mp listed)
  have := (List.pairwise_append.mp bases).2.2 seg member other stays
  omega

theorem Stored.evict {store : Store} {evicted : List Record} {evict kept : List SegmentEntry}
    (split : store.manifest.segments = evict ++ kept) (r : Record)
    (stored : Stored store evicted r) :
    Stored { store with manifest := ⟨kept⟩ } (evicted ++ evictedRecords store evict) r := by
  rcases stored with gone | ⟨base, records, listed, found, inside⟩
  · exact .inl (List.mem_append_left _ gone)
  · obtain ⟨seg, member, rfl⟩ := Manifest.lists_iff.mp listed
    rw [split] at member
    rcases List.mem_append.mp member with out | stays
    · refine .inl (List.mem_append_right _ (List.mem_flatMap.mpr ⟨seg, out, ?_⟩))
      simpa [found] using inside
    · exact .inr ⟨_, records, Manifest.lists_iff.mpr ⟨seg, stays, rfl⟩, found, inside⟩

theorem Stored.list {store : Store} {evicted : List Record} {entry : SegmentEntry} (r : Record)
    (stored : Stored store evicted r) :
    Stored { store with manifest := store.manifest.add entry } evicted r := by
  rcases stored with gone | ⟨base, records, listed, found, inside⟩
  · exact .inl gone
  · exact .inr ⟨base, records, lists_add.mpr (.inl listed), found, inside⟩

section Preservation

variable {env : Externals} {regime : Regime} {disk : Disk} {history : History} {v : View}

theorem Valid.of_live {s : State} {v : View} (live : s.view = some v)
    (durable : Durable env.crc32c s.disk.wal s.disk.store.manifest
      (Stored s.disk.store s.history.evicted) s.history.acked)
    (running : Running env.crc32c s.disk.wal s.disk.store.manifest
      (Stored s.disk.store s.history.evicted) v) : Valid env s :=
  ⟨durable, fun _ same => Option.some.inj (live.symm.trans same) ▸ running⟩

theorem Valid.of_down {s : State} (down : s.view = none)
    (durable : Durable env.crc32c s.disk.wal s.disk.store.manifest
      (Stored s.disk.store s.history.evicted) s.history.acked) : Valid env s :=
  ⟨durable, fun _ same => by rw [down] at same; cases same⟩

theorem Valid.receive (valid : Valid env ⟨disk, history, some v⟩) {batch : List Record}
    (numbered : Numbered Record.offset (v.nextOffset + v.pending.length) batch)
    (encodable : ∀ r ∈ batch, Encodable r) :
    Valid env ⟨disk, history, some { v with pending := v.pending ++ batch }⟩ := by
  have running := valid.running v rfl
  refine .of_live rfl valid.durable (running.receive numbered fun r member => ?_)
  have natural := (numbered.mem_bounds member).1
  have := running.start
  exact (encodable r member).fits (by omega)

theorem Valid.append (valid : Valid env ⟨disk, history, some v⟩) {base : Int}
    {records : List Record} (active : v.active = some (base, records)) (opened : v.opened = true) :
    Valid env
      ⟨{ disk with wal := appendFile disk.wal base (encodeAll env.crc32c v.pending) },
        { history with
          acked := history.acked ++ v.pending
          log := history.log ++ v.pending },
        some { v with
          active := some (base, records ++ v.pending)
          pending := []
          nextOffset := v.nextOffset + v.pending.length }⟩ := by
  have running := valid.running v rfl
  obtain ⟨holds, found⟩ := running.activeFile active opened
  have fits : ∀ r ∈ records ++ v.pending, Fits r := by
    intro r member
    rcases List.mem_append.mp member with old | new
    · exact holds.fits r old
    · exact running.fits r new
  have scanned : (scanWal env.crc32c (encodeAll env.crc32c (records ++ v.pending))).1 =
      records ++ v.pending := scan_encodeAll fits
  rw [appendFile_present found, ← encodeAll_append]
  refine .of_live rfl ?_ (running.append active opened scanned)
  have after : Holds env.crc32c
      (disk.wal.insert base (encodeAll env.crc32c (records ++ v.pending))) base
      (records ++ v.pending) := holds_insert.mpr (by simp [scanned])
  exact (valid.durable.append running active holds List.prefix_rfl scanned).ack after
    (by simp +contextual)

theorem Valid.tear (valid : Valid env ⟨disk, history, some v⟩) {base : Int}
    {records : List Record} (cut : Nat) (active : v.active = some (base, records))
    (opened : v.opened = true) :
    Valid env
      ⟨{ disk with wal :=
          appendFile disk.wal base ((encodeAll env.crc32c v.pending).take cut) },
        { history with
          log := history.log ++ fitting (encodeRecord env.crc32c) cut v.pending },
        none⟩ := by
  have running := valid.running v rfl
  obtain ⟨holds, found⟩ := running.activeFile active opened
  rw [appendFile_present found]
  refine .of_down rfl ?_
  exact valid.durable.append running active holds (fitting_front _ cut _)
    (scan_torn holds.fits running.fits cut)

theorem Valid.openNext (valid : Valid env ⟨disk, history, some v⟩) (opened : v.opened = true) :
    Valid env ⟨{ disk with wal := openFile disk.wal v.nextOffset }, history,
      some { v with active := some (v.nextOffset, []) }⟩ := by
  have running := valid.running v rfl
  have file := openFile_opened fun bytes found => running.next_empty valid.durable found
  have after := running.opened file
  rw [← opened] at after
  exact .of_live rfl (valid.durable.opened file) after

theorem Valid.openFirst (valid : Valid env ⟨disk, history, some v⟩) {base : Int}
    {records : List Record} (active : v.active = some (base, records)) :
    Valid env ⟨{ disk with wal := openFile disk.wal base }, history,
      some { v with opened := true }⟩ := by
  have running := valid.running v rfl
  obtain ⟨unlisted, settled, held | ⟨_, empty, absent⟩⟩ := running.active base records active
  · obtain ⟨bytes, found, scanned⟩ := held
    rw [openFile_present found]
    refine .of_live rfl valid.durable { running with active := fun other recs same => ?_ }
    obtain ⟨rfl, rfl⟩ := Prod.mk.inj (Option.some.inj (active.symm.trans same))
    exact ⟨unlisted, settled, .inl ⟨bytes, found, scanned⟩⟩
  · obtain rfl := settled empty
    have file := openFile_opened fun bytes found => running.next_empty valid.durable found
    have after := running.opened file
    rw [← empty, ← active] at after
    exact .of_live rfl (valid.durable.opened file) after

theorem Valid.put (valid : Valid env ⟨disk, history, some v⟩) {base : Int}
    {records : List Record} {rest : List (Int × List Record)}
    (oldest : v.backlog = (base, records) :: rest) :
    Valid env
      ⟨{ disk with store :=
          { disk.store with objects := disk.store.objects.insert base records } },
        history, some v⟩ := by
  have running := valid.running v rfl
  have unlisted := running.oldest_unlisted oldest
  exact .of_live rfl (valid.durable.mono (Stored.put unlisted records))
    (running.mono (Stored.put unlisted records))

theorem Valid.list (valid : Valid env ⟨disk, history, some v⟩) {base : Int} {first : Record}
    {records : List Record} {rest : List (Int × List Record)}
    (oldest : v.backlog = (base, first :: records) :: rest)
    (staged : disk.store.objects[base]? = some (first :: records)) :
    Valid env
      ⟨{ disk with store :=
          if disk.store.manifest.lists base = false then
            { disk.store with manifest := (disk.store.manifest.add
                (Uploader.entry env.segmentSize (SealedBatch.ofRecords base first records))) }
          else disk.store },
        history, some { v with backlog := rest, notified := v.notified ++ [base] }⟩ := by
  have running := valid.running v rfl
  obtain ⟨holds, nonempty, unlisted⟩ := running.backlog base (first :: records) (by simp [oldest])
  dsimp only at unlisted
  simp only [if_pos unlisted]
  have lists (other : Int) := @lists_add disk.store.manifest
    (Uploader.entry env.segmentSize (SealedBatch.ofRecords base first records)) other
  have kept : ∀ r ∈ first :: records, Stored
      { disk.store with manifest := (disk.store.manifest.add
          (Uploader.entry env.segmentSize (SealedBatch.ofRecords base first records))) }
      history.evicted r :=
    fun r inside => .inr ⟨base, _, (lists base).mpr (.inr rfl), staged, inside⟩
  have range : base ≤ (records.getLast?.getD first).offset := by
    have head := (valid.durable.head base first records holds).1
    have sorted := valid.durable.sorted base _ holds
    cases shape : records.getLast? with
    | none => simp [head]
    | some last =>
      have := List.rel_of_pairwise_cons sorted (List.mem_of_getLast? shape)
      simp only [Option.getD_some]
      omega
  refine .of_live rfl ?_ ?_
  · exact (valid.durable.mono Stored.list).list holds nonempty
      (valid.durable.ordered.add unlisted range rfl) lists kept
  · exact (running.mono Stored.list).list oldest lists kept

theorem Valid.remove (valid : Valid env ⟨disk, history, some v⟩) {base : Int} {rest : List Int}
    (oldest : v.notified = base :: rest) :
    Valid env ⟨{ disk with wal := disk.wal.erase base }, history,
      some { v with notified := rest }⟩ := by
  have running := valid.running v rfl
  refine .of_live rfl (valid.durable.remove fun records holds => ?_) (running.remove oldest)
  exact running.notified base (by simp [oldest]) records holds

theorem Valid.evict (valid : Valid env ⟨disk, history, some v⟩) (cfg : ResolvedTopicConfig)
    (now : Int) :
    Valid env
      ⟨{ disk with store := { disk.store with
          manifest := (Retention.retain disk.store.manifest
            (Retention.evaluateEviction disk.store.manifest cfg now)) } },
        { history with
          evicted := (history.evicted ++ evictedRecords disk.store
            (Retention.evaluateEviction disk.store.manifest cfg now)) },
        some v⟩ := by
  have running := valid.running v rfl
  obtain ⟨kept, split, after, _⟩ := evict_split valid.durable.ordered cfg now
  have fewer (base : Int) (listed : (⟨kept⟩ : Manifest).lists base = true) :
      disk.store.manifest.lists base = true := by
    obtain ⟨seg, member, rfl⟩ := Manifest.lists_iff.mp listed
    exact Manifest.lists_iff.mpr ⟨seg, by rw [split]; exact List.mem_append_right _ member, rfl⟩
  have ordered : (⟨kept⟩ : Manifest).Ordered :=
    valid.durable.ordered.sublist (by rw [split]; exact List.sublist_append_right _ _)
  rw [after]
  exact .of_live rfl ((valid.durable.mono (Stored.evict split)).unlist ordered fewer)
    ((running.mono (Stored.evict split)).unlist fewer)

/-- Every event preserves validity. -/
theorem Valid.step {s s' : State} (valid : Valid env s) (taken : Step env regime s s') :
    Valid env s' := by
  cases taken with
  | idle => exact valid
  | receive numbered encodable => exact valid.receive numbered encodable
  | append active opened => exact valid.append active opened
  | sealActive active opened nonempty =>
    exact .of_live rfl valid.durable
      ((valid.running _ rfl).sealActive valid.durable active opened nonempty)
  | openNext _ opened => exact valid.openNext opened
  | openFirst active => exact valid.openFirst active
  | put oldest => exact valid.put oldest
  | list oldest staged => exact valid.list oldest staged
  | remove oldest => exact valid.remove oldest
  | evict now _ => exact valid.evict _ now
  | delete unlisted =>
    exact .of_live rfl (valid.durable.mono (Stored.delete unlisted))
      ((valid.running _ rfl).mono (Stored.delete unlisted))
  | crash => exact .of_down rfl valid.durable
  | tear cut active opened => exact valid.tear cut active opened
  | interrupt rounds => exact .of_down rfl (Durable.interrupted valid.durable rounds)
  | start =>
    exact .of_live rfl (Durable.recovered valid.durable) (Durable.running valid.durable)

end Preservation

end Kafkrs.Lifecycle
