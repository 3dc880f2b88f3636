import Kafkrs.Refinement

/-! The log as one sequence: what was evicted, then the objects of the listed segments, then
the segments still in WAL files. It stays in this form as long as no restart finds a WAL file
that its manifest entry has outlived. -/
namespace Kafkrs.Continuity

open Lib Wal Recovery Pipeline Restart Lifecycle
open Kafkrs.Partition (Externals Disk History Regime openFile appendFile evictedRecords)

def objectRecords (objects : Dir (List Record)) (seg : SegmentEntry) : List Record :=
  (objects[seg.baseOffset]?).getD []

def uploadedRecords (store : Store) : List Record :=
  store.manifest.segments.flatMap (objectRecords store.objects)

/-- One past the last uploaded offset, where recovery starts counting. -/
def uploadedEnd (m : Manifest) : Int := (m.lastUploadedOffset.map (· + 1)).getD 0

/-- The log of a store, a history and the records still in WAL files. -/
structure Chained (store : Store) (history : History) (tail : List Record) : Prop where
  numbered : Numbered Record.offset 0 history.log
  log : history.log = history.evicted ++ uploadedRecords store ++ tail
  ending : uploadedEnd store.manifest = (history.evicted ++ uploadedRecords store).length
  objects : ∀ seg ∈ store.manifest.segments, ∃ records,
    store.objects[seg.baseOffset]? = some records ∧ Numbered Record.offset seg.baseOffset records ∧
    seg.lastOffset + 1 = seg.baseOffset + records.length
  acked : ∀ r ∈ history.acked, r ∈ history.log

section Chained

variable {store : Store} {history : History} {tail : List Record}

theorem Chained.tail_numbered (chained : Chained store history tail) :
    Numbered Record.offset (uploadedEnd store.manifest) tail := by
  have numbered := chained.numbered
  rw [chained.log] at numbered
  have := (Numbered.append_iff.mp numbered).2
  rw [chained.ending]
  simpa using this

theorem Chained.length (chained : Chained store history tail) :
    (history.log.length : Int) = uploadedEnd store.manifest + tail.length := by
  rw [chained.log, chained.ending, List.length_append]
  push_cast
  rfl

theorem Chained.retail (chained : Chained store history tail) {other : List Record}
    (same : other = tail) : Chained store history other := same ▸ chained

/-- No listed segment reaches past the uploaded end. -/
theorem Chained.last_lt_end (chained : Chained store history tail) (ordered : store.manifest.Ordered)
    {seg : SegmentEntry} (member : seg ∈ store.manifest.segments) :
    seg.lastOffset < uploadedEnd store.manifest := by
  obtain ⟨records, found, own, last⟩ := chained.objects seg member
  have range := ordered.ranges seg member
  obtain ⟨r, inside, offset⟩ := own.exists_mem range (by omega)
  have uploaded : r ∈ uploadedRecords store :=
    List.mem_flatMap.mpr ⟨seg, member, by simpa [objectRecords, found] using inside⟩
  have numbered := chained.numbered
  rw [chained.log, Numbered.append_iff] at numbered
  have bounds := numbered.1.mem_bounds (List.mem_append_right history.evicted uploaded)
  rw [chained.ending]
  omega

/-- Records appended after the tail. -/
theorem Chained.append (chained : Chained store history tail) {batch acked : List Record}
    (numbered : Numbered Record.offset history.log.length batch)
    (known : ∀ r ∈ acked, r ∈ history.acked ∨ r ∈ batch) :
    Chained store { history with acked := acked, log := history.log ++ batch } (tail ++ batch) where
  numbered := Numbered.append_iff.mpr ⟨chained.numbered, by simpa using numbered⟩
  log := by simp [chained.log]
  ending := chained.ending
  objects := chained.objects
  acked := fun r member => by
    rcases known r member with old | new
    · exact List.mem_append_left _ (chained.acked r old)
    · exact List.mem_append_right _ new

/-- A change of objects that no entry refers to. -/
theorem Chained.unlisted (chained : Chained store history tail) {objects : Dir (List Record)}
    (same : ∀ seg ∈ store.manifest.segments,
      objects[seg.baseOffset]? = store.objects[seg.baseOffset]?) :
    Chained { store with objects := objects } history tail := by
  have records : uploadedRecords { store with objects := objects } = uploadedRecords store := by
    refine List.flatMap_congr fun seg member => ?_
    simp only [objectRecords, same seg member]
  refine ⟨chained.numbered, ?_, ?_, ?_, chained.acked⟩
  · rw [records]; exact chained.log
  · rw [records]; exact chained.ending
  · intro seg member
    rw [same seg member]
    exact chained.objects seg member

theorem uploadedEnd_concat (segments : List SegmentEntry) (last : SegmentEntry) :
    uploadedEnd ⟨segments ++ [last]⟩ = last.lastOffset + 1 := by
  simp [uploadedEnd, Manifest.lastUploadedOffset]

theorem last_offset {base : Int} {first : Record} {rest : List Record}
    (numbered : Numbered Record.offset base (first :: rest)) :
    (rest.getLast?.getD first).offset + 1 = base + (first :: rest).length := by
  have isLast : (first :: rest).getLast? = some (rest.getLast?.getD first) := by
    rw [List.getLast?_cons]
  have := numbered.last isLast
  omega

/-- The first segment of the tail becomes the last listed one. -/
theorem Chained.list (chained : Chained store history tail) (ordered : store.manifest.Ordered)
    {base : Int} {first : Record} {records rest : List Record}
    (split : tail = (first :: records) ++ rest) (head : first.offset = base)
    (below : ∀ seg ∈ store.manifest.segments, seg.baseOffset < base)
    (staged : store.objects[base]? = some (first :: records)) (size : List Record → Nat) :
    Chained
      { store with manifest := (store.manifest.add
          (Uploader.entry size (SealedBatch.ofRecords base first records))) } history rest := by
  have numbered := chained.tail_numbered
  rw [split] at numbered
  obtain ⟨numbered, _⟩ := Numbered.append_iff.mp numbered
  have start : base = uploadedEnd store.manifest := by rw [← head]; exact numbered.1
  rw [← start] at numbered
  have last := last_offset numbered
  rw [Manifest.add_last ordered below]
  have uploaded : uploadedRecords { store with manifest := ⟨store.manifest.segments ++
      [Uploader.entry size (SealedBatch.ofRecords base first records)]⟩ } =
      uploadedRecords store ++ (first :: records) := by
    simp [uploadedRecords, objectRecords, Uploader.entry, SealedBatch.ofRecords, staged]
  refine ⟨chained.numbered, ?_, ?_, ?_, chained.acked⟩
  · rw [uploaded, chained.log, split]
    simp
  · rw [uploaded, uploadedEnd_concat, ← List.append_assoc, List.length_append]
    have ending := chained.ending
    simp only [Uploader.entry, SealedBatch.ofRecords]
    push_cast
    omega
  · intro seg member
    rcases List.mem_append.mp member with old | new
    · exact chained.objects seg old
    · rw [List.mem_singleton.mp new]
      exact ⟨first :: records, staged, numbered, last⟩

/-- Eviction never reaches the last entry, so the uploaded end stays. -/
theorem uploadedEnd_evict {m : Manifest} {evict kept : List SegmentEntry}
    (split : m.segments = evict ++ kept) (nonempty : m.segments ≠ [] → kept ≠ []) :
    uploadedEnd ⟨kept⟩ = uploadedEnd m := by
  simp only [uploadedEnd, Manifest.lastUploadedOffset, split]
  by_cases empty : m.segments = []
  · obtain ⟨_, none⟩ := List.append_eq_nil_iff.mp (split.symm.trans empty)
    simp_all
  · rw [List.getLast?_append_of_ne_nil _ (nonempty empty)]

/-- Evicted segments move from the uploaded part to the evicted one. -/
theorem Chained.evict (chained : Chained store history tail) {evict kept : List SegmentEntry}
    (split : store.manifest.segments = evict ++ kept)
    (nonempty : store.manifest.segments ≠ [] → kept ≠ []) :
    Chained { store with manifest := ⟨kept⟩ }
      { history with evicted := history.evicted ++ evictedRecords store evict } tail := by
  have records : uploadedRecords store =
      evictedRecords store evict ++ uploadedRecords { store with manifest := ⟨kept⟩ } := by
    simp only [uploadedRecords, split, List.flatMap_append]
    rfl
  refine ⟨chained.numbered, ?_, ?_, ?_, chained.acked⟩
  · rw [chained.log, records]
    simp
  · have ending := chained.ending
    rw [records] at ending
    rw [uploadedEnd_evict split nonempty, ending]
    simp
  · intro seg member
    exact chained.objects seg (by rw [split]; exact List.mem_append_right _ member)

/-- Every listed base lies below the uploaded end. -/
theorem base_lt_end {m : Manifest} (ordered : m.Ordered) {base : Int}
    (listed : m.lists base = true) : base < uploadedEnd m := by
  obtain ⟨seg, member, rfl⟩ := Manifest.lists_iff.mp listed
  obtain ⟨last, isLast, le⟩ := ordered.base_le_last member
  simp only [uploadedEnd, isLast, Option.map_some, Option.getD_some]
  omega

end Chained
/-- While the actors run, the tail of the log is the backlog and the active segment, and no
other WAL file has records, except those still to be deleted. -/
structure Linked (crc32c : Bytes → UInt32) (files : WalDir) (store : Store) (history : History)
    (v : View) : Prop where
  chained : Chained store history ((v.backlog ++ v.active.toList).flatMap Prod.snd)
  next : v.nextOffset = history.log.length
  known : ∀ base records, Holds crc32c files base records → records ≠ [] →
    base ∈ v.notified ∨ (base, records) ∈ v.backlog ++ v.active.toList
  notified : ∀ base ∈ v.notified, base < uploadedEnd store.manifest ∧
    (history.evicted = [] → store.manifest.lists base = true)

/-- After a crash the tail is in the WAL files `segs`; other files with records belong to
uploaded segments, though their entries may have been evicted since. -/
structure Settled (crc32c : Bytes → UInt32) (files : WalDir) (store : Store) (history : History)
    (segs : List (Int × List Record)) : Prop where
  sorted : segs.Pairwise (fun a b => a.1 < b.1)
  chained : Chained store history (segs.flatMap Prod.snd)
  held : ∀ base records, (base, records) ∈ segs → Holds crc32c files base records ∧ records ≠ []
  known : ∀ base records, Holds crc32c files base records → records ≠ [] →
    (base, records) ∈ segs ∨ (base < uploadedEnd store.manifest ∧
      (history.evicted = [] → store.manifest.lists base = true))

/-- Every WAL file with records that starts below the uploaded end is still listed. -/
def Clean (crc32c : Bytes → UInt32) (disk : Disk) : Prop :=
  ∀ base records, Holds crc32c disk.wal base records → records ≠ [] →
    base < uploadedEnd disk.store.manifest → disk.store.manifest.lists base = true

instance (crc32c : Bytes → UInt32) (disk : Disk) : Decidable (Clean crc32c disk) :=
  decidable_of_iff
    (∀ base ∈ disk.wal.keys, (scanWal crc32c ((disk.wal[base]?).getD [])).1 ≠ [] →
      base < uploadedEnd disk.store.manifest → disk.store.manifest.lists base = true) <| by
    constructor
    · rintro clean base records ⟨bytes, found, rfl⟩
      have member : base ∈ disk.wal.keys := (Dir.mem_keys disk.wal).mpr (by simp [found])
      simpa [found] using clean base member
    · intro clean base member
      obtain ⟨bytes, found⟩ := Option.isSome_iff_exists.mp ((Dir.mem_keys disk.wal).mp member)
      simpa [found] using clean base _ ⟨bytes, found, rfl⟩

structure Continuous (env : Externals) (s : Lifecycle.State) : Prop where
  live : ∀ v, s.view = some v → Linked env.crc32c s.disk.wal s.disk.store s.history v
  down : s.view = none → ∃ segs, Settled env.crc32c s.disk.wal s.disk.store s.history segs

section Live

variable {crc32c : Bytes → UInt32} {files : WalDir} {store : Store} {history : History} {v : View}
  {stored : Record → Prop} {acked : List Record}

theorem Linked.append (linked : Linked crc32c files store history v)
    (running : Running crc32c files store.manifest stored v) {base : Int} {records : List Record}
    (active : v.active = some (base, records)) {bytes : Bytes}
    (scanned : (scanWal crc32c bytes).1 = records ++ v.pending) :
    Linked crc32c (files.insert base bytes) store
      { history with
        acked := history.acked ++ v.pending
        log := history.log ++ v.pending }
      { v with
        active := some (base, records ++ v.pending)
        pending := []
        nextOffset := v.nextOffset + v.pending.length } where
  chained := by
    have pending := running.pending
    rw [linked.next] at pending
    have grown := linked.chained.append pending
      (fun r (member : r ∈ history.acked ++ v.pending) => List.mem_append.mp member)
    exact grown.retail (by simp [active])
  next := by simp [linked.next]
  known := by
    intro other recs held nonempty
    rw [holds_insert] at held
    split at held
    next same =>
      rw [← held, scanned, same]
      exact .inr (by simp)
    next different =>
      rcases linked.known other recs held nonempty with done | mine
      · exact .inl done
      · rw [active] at mine
        have apart : ¬ (other = base ∧ recs = records) := fun same => different same.1.symm
        have inBacklog : (other, recs) ∈ v.backlog := by simpa [apart] using mine
        exact .inr (List.mem_append_left _ inBacklog)
  notified := linked.notified

theorem Linked.opened (linked : Linked crc32c files store history v) {after : WalDir} {base : Int}
    (opened : Opened files after base) : Linked crc32c after store history v :=
  { linked with
    known := fun other records held nonempty =>
      linked.known other records ((opened.holds nonempty).mp held) nonempty }

/-- The oldest sealed segment starts where the uploaded part ends. -/
theorem Linked.oldest_base (linked : Linked crc32c files store history v)
    (durable : Durable crc32c files store.manifest stored acked)
    (running : Running crc32c files store.manifest stored v) {base : Int} {records : List Record}
    {rest : List (Int × List Record)} (oldest : v.backlog = (base, records) :: rest) :
    base = uploadedEnd store.manifest := by
  obtain ⟨held, nonempty, _⟩ := running.backlog base records (by simp [oldest])
  obtain ⟨first, later, rfl⟩ := List.exists_cons_of_ne_nil nonempty
  have head := (durable.head base first later held).1
  rw [← head]
  exact linked.chained.tail_numbered.head (by simp [oldest])

theorem Linked.list_chained (linked : Linked crc32c files store history v)
    (durable : Durable crc32c files store.manifest stored acked)
    (running : Running crc32c files store.manifest stored v) {base : Int} {first : Record}
    {records : List Record} {rest : List (Int × List Record)}
    (oldest : v.backlog = (base, first :: records) :: rest)
    (staged : store.objects[base]? = some (first :: records)) (size : List Record → Nat) :
    Chained
      { store with manifest := (store.manifest.add
          (Uploader.entry size (SealedBatch.ofRecords base first records))) } history
      ((rest ++ v.active.toList).flatMap Prod.snd) ∧
    base < uploadedEnd (store.manifest.add
      (Uploader.entry size (SealedBatch.ofRecords base first records))) := by
  obtain ⟨held, _, _⟩ := running.backlog base (first :: records) (by simp [oldest])
  have head := (durable.head base first records held).1
  have start := linked.oldest_base durable running oldest
  have below (seg : SegmentEntry) (member : seg ∈ store.manifest.segments) :
      seg.baseOffset < base := by
    rw [start]
    exact base_lt_end durable.ordered (Manifest.lists_iff.mpr ⟨seg, member, rfl⟩)
  have split : (v.backlog ++ v.active.toList).flatMap Prod.snd =
      (first :: records) ++ (rest ++ v.active.toList).flatMap Prod.snd := by
    simp [oldest]
  have chained := linked.chained.list durable.ordered split head below staged size
  refine ⟨chained, ?_⟩
  have wider := chained.length
  have before := linked.chained.length
  rw [split, List.length_append, List.length_cons] at before
  push_cast at before
  dsimp only at wider
  omega

theorem Linked.list (linked : Linked crc32c files store history v)
    (durable : Durable crc32c files store.manifest stored acked)
    (running : Running crc32c files store.manifest stored v) {base : Int} {first : Record}
    {records : List Record} {rest : List (Int × List Record)}
    (oldest : v.backlog = (base, first :: records) :: rest)
    (staged : store.objects[base]? = some (first :: records)) (size : List Record → Nat) :
    Linked crc32c files
      { store with manifest := (store.manifest.add
          (Uploader.entry size (SealedBatch.ofRecords base first records))) } history
      { v with backlog := rest, notified := v.notified ++ [base] } := by
  obtain ⟨chained, higher⟩ := linked.list_chained durable running oldest staged size
  have start := linked.oldest_base durable running oldest
  refine ⟨chained, linked.next, ?_, ?_⟩
  · intro other recs holds nonempty
    rcases linked.known other recs holds nonempty with done | mine
    · exact .inl (List.mem_append_left _ done)
    · rw [oldest, List.cons_append, List.mem_cons] at mine
      rcases mine with here | later
      · obtain ⟨rfl, _⟩ := Prod.mk.inj here
        exact .inl (by simp)
      · exact .inr later
  · intro other member
    rcases List.mem_append.mp member with old | new
    · obtain ⟨low, listed⟩ := linked.notified other old
      exact ⟨by dsimp only; omega, fun none => lists_add.mpr (.inl (listed none))⟩
    · rw [List.mem_singleton.mp new]
      exact ⟨higher, fun _ => lists_add.mpr (.inr rfl)⟩

theorem Linked.evict (linked : Linked crc32c files store history v)
    (ordered : store.manifest.Ordered) {evict kept : List SegmentEntry}
    (split : store.manifest.segments = evict ++ kept)
    (nonempty : store.manifest.segments ≠ [] → kept ≠ []) :
    Linked crc32c files { store with manifest := ⟨kept⟩ }
      { history with evicted := history.evicted ++ evictedRecords store evict } v := by
  have chained := linked.chained.evict split nonempty
  refine ⟨chained, linked.next, linked.known, fun base member => ?_⟩
  obtain ⟨low, listed⟩ := linked.notified base member
  refine ⟨?_, fun none => ?_⟩
  · rw [uploadedEnd_evict split nonempty]
    exact low
  · -- A pass that evicts no record evicts no entry: every object has records.
    obtain ⟨unevicted, noRecords⟩ := List.append_eq_nil_iff.mp none
    have noEntry : evict = [] := by
      cases evict with
      | nil => rfl
      | cons seg more =>
        have member : seg ∈ store.manifest.segments := by simp [split]
        obtain ⟨records, found, _, last⟩ := linked.chained.objects seg member
        have range := ordered.ranges seg member
        simp only [evictedRecords, List.flatMap_cons, found, Option.getD_some] at noRecords
        rw [(List.append_eq_nil_iff.mp noRecords).1] at last
        simp only [List.length_nil] at last
        omega
    have same : (⟨kept⟩ : Manifest) = store.manifest := by
      rw [noEntry, List.nil_append] at split
      rw [← split]
    dsimp only
    rw [same]
    exact listed unevicted

theorem Linked.remove (linked : Linked crc32c files store history v) {base : Int}
    {rest : List Int} (oldest : v.notified = base :: rest) :
    Linked crc32c (files.erase base) store history { v with notified := rest } where
  chained := linked.chained
  next := linked.next
  known := by
    intro other records held nonempty
    obtain ⟨different, held⟩ := holds_erase.mp held
    rcases linked.known other records held nonempty with done | mine
    · rw [oldest, List.mem_cons] at done
      exact .inl (done.resolve_left fun same => different same.symm)
    · exact .inr mine
  notified := fun other member => linked.notified other (by simp [oldest, member])

end Live

section Down

variable {crc32c : Bytes → UInt32} {files : WalDir} {store : Store} {history : History}
  {segs : List (Int × List Record)} {stored : Record → Prop} {acked : List Record}

theorem flatMap_filled (segs : List (Int × List Record)) :
    (segs.filter (fun seg => !seg.2.isEmpty)).flatMap Prod.snd = segs.flatMap Prod.snd := by
  induction segs with
  | nil => rfl
  | cons seg rest ih =>
    by_cases empty : seg.2 = []
    · simpa [empty] using ih
    · simp [empty, ih]

/-- Segments in order, of which only empty ones may lack a file. -/
theorem settle (segs : List (Int × List Record)) (sorted : segs.Pairwise (fun a b => a.1 < b.1))
    (chained : Chained store history (segs.flatMap Prod.snd))
    (held : ∀ base records, (base, records) ∈ segs → records ≠ [] →
      Holds crc32c files base records)
    (known : ∀ base records, Holds crc32c files base records → records ≠ [] →
      (base, records) ∈ segs ∨ (base < uploadedEnd store.manifest ∧
        (history.evicted = [] → store.manifest.lists base = true))) :
    Settled crc32c files store history (segs.filter (fun seg => !seg.2.isEmpty)) where
  sorted := sorted.filter _
  chained := chained.retail (flatMap_filled segs)
  held := by
    intro base records member
    simp only [List.mem_filter, Bool.not_eq_true', List.isEmpty_eq_false_iff] at member
    exact ⟨held base records member.1 member.2, member.2⟩
  known := by
    intro base records holds nonempty
    refine (known base records holds nonempty).imp_left fun member => ?_
    simp [member, nonempty]

theorem Linked.settled {v : View} (linked : Linked crc32c files store history v)
    (running : Running crc32c files store.manifest stored v) :
    Settled crc32c files store history
      ((v.backlog ++ v.active.toList).filter (fun seg => !seg.2.isEmpty)) := by
  refine settle _ ?_ linked.chained ?_ ?_
  · have order := (List.pairwise_append.mp (List.append_assoc _ _ _ ▸ running.order)).2.1
    rw [← List.map_append] at order
    exact List.pairwise_map.mp order
  · intro base records member nonempty
    rcases List.mem_append.mp member with inBacklog | isActive
    · exact (running.backlog base records inBacklog).1
    · have active : v.active = some (base, records) := by simpa using isActive
      rcases (running.active base records active).2.2 with holds | ⟨_, empty, _⟩
      · exact holds
      · exact absurd empty nonempty
  · intro base records holds nonempty
    rcases linked.known base records holds nonempty with done | mine
    · exact .inr (linked.notified base done)
    · exact .inl mine

/-- A torn append leaves the records that fit, and the bytes of the next one are cut off. -/
theorem Linked.torn {v : View} (linked : Linked crc32c files store history v)
    (running : Running crc32c files store.manifest stored v) {base : Int} {records : List Record}
    (active : v.active = some (base, records)) (holds : Holds crc32c files base records)
    {batch : List Record} (front : batch <+: v.pending) {bytes : Bytes}
    (scanned : (scanWal crc32c bytes).1 = records ++ batch) :
    ∃ segs, Settled crc32c (files.insert base bytes) store
      { history with log := history.log ++ batch } segs := by
  have order := running.order
  rw [active] at order
  have apart (other : Int) (member : other ∈ v.notified ++ v.backlog.map Prod.fst) :
      base ≠ other := by
    have := (List.pairwise_append.mp order).2.2 other member base (by simp)
    omega
  have numbered : Numbered Record.offset history.log.length batch := by
    obtain ⟨more, split⟩ := front
    have pending := running.pending
    rw [linked.next, ← split] at pending
    exact (Numbered.append_iff.mp pending).1
  refine ⟨_, settle (v.backlog ++ [(base, records ++ batch)]) ?_ ?_ ?_ ?_⟩
  · have later := (List.pairwise_append.mp (List.append_assoc _ _ _ ▸ order)).2.1
    exact List.pairwise_map.mp (by simpa using later)
  · have grown := linked.chained.append numbered
      (fun r (member : r ∈ history.acked) => .inl member)
    exact grown.retail (by simp [active])
  · intro other recs member _
    rcases List.mem_append.mp member with inBacklog | isActive
    · have different := apart other (List.mem_append_right _ (List.mem_map_of_mem inBacklog))
      exact holds_insert.mpr (by simp [different, (running.backlog other recs inBacklog).1])
    · obtain ⟨rfl, rfl⟩ := Prod.mk.inj (List.mem_singleton.mp isActive)
      exact holds_insert.mpr (by simp [scanned])
  · intro other recs held nonempty
    rw [holds_insert] at held
    split at held
    next same =>
      rw [← held, scanned, same]
      exact .inl (by simp)
    next different =>
      rcases linked.known other recs held nonempty with done | mine
      · exact .inr (linked.notified other done)
      · rw [active] at mine
        have other : ¬ (other = base ∧ recs = records) := fun same => different same.1.symm
        exact .inl (List.mem_append_left _ (by simpa [other] using mine))

/-- Tail segments start at or above the uploaded end, so they are not listed. -/
theorem Settled.above (settled : Settled crc32c files store history segs)
    (durable : Durable crc32c files store.manifest stored acked) {base : Int}
    {records : List Record} (member : (base, records) ∈ segs) :
    uploadedEnd store.manifest ≤ base ∧ store.manifest.lists base = false := by
  obtain ⟨holds, nonempty⟩ := settled.held base records member
  obtain ⟨first, rest, rfl⟩ := List.exists_cons_of_ne_nil nonempty
  have head := (durable.head base first rest holds).1
  have inside : first ∈ segs.flatMap Prod.snd := List.mem_flatMap.mpr ⟨_, member, by simp⟩
  have low := (settled.chained.tail_numbered.mem_bounds inside).1
  refine ⟨by omega, ?_⟩
  by_contra listed
  have := base_lt_end durable.ordered (Bool.not_eq_false _ |>.mp listed)
  omega

theorem Settled.interrupted (settled : Settled crc32c files store history segs)
    (durable : Durable crc32c files store.manifest stored acked) (rounds : Nat) :
    Settled crc32c (Recovery.interrupted crc32c store.manifest rounds files) store history segs := by
  have distinct : (files.keys.take rounds).Nodup :=
    (Dir.keys_nodup files).sublist (List.take_sublist _ _)
  refine ⟨settled.sorted, settled.chained, ?_, ?_⟩
  · intro base records member
    obtain ⟨holds, nonempty⟩ := settled.held base records member
    have unlisted := (settled.above durable member).2
    exact ⟨(holds_recovered durable.ordered distinct).mpr ⟨holds, fun _ => unlisted⟩, nonempty⟩
  · intro base records holds nonempty
    exact settled.known base records ((holds_recovered durable.ordered distinct).mp holds).1 nonempty

/-- Without eviction every disk is clean. -/
theorem Settled.clean (settled : Settled crc32c files store history segs)
    (durable : Durable crc32c files store.manifest stored acked) (unevicted : history.evicted = []) :
    Clean crc32c ⟨files, store⟩ := by
  intro base records holds nonempty low
  rcases settled.known base records holds nonempty with member | ⟨_, listed⟩
  · have := (settled.above durable member).1
    dsimp only at low
    omega
  · exact listed unevicted

/-- From a clean disk recovery salvages exactly the tail. -/
theorem Settled.salvaged_eq (settled : Settled crc32c files store history segs)
    (durable : Durable crc32c files store.manifest stored acked)
    (clean : Clean crc32c ⟨files, store⟩) : salvaged crc32c store.manifest files = segs := by
  refine sorted_unique (salvaged_sorted crc32c store.manifest files) settled.sorted ?_
  rintro ⟨base, records⟩
  rw [mem_salvaged durable.ordered]
  constructor
  · rintro ⟨unlisted, holds, nonempty⟩
    rcases settled.known base records holds nonempty with member | ⟨low, _⟩
    · exact member
    · have listed := clean base records holds nonempty low
      rw [unlisted] at listed
      contradiction
  · intro member
    obtain ⟨holds, nonempty⟩ := settled.held base records member
    exact ⟨(settled.above durable member).2, holds, nonempty⟩

/-- The largest offset above consecutive segments is the end of the last. -/
theorem foldl_above {start : Int} (nonempty : ∀ seg ∈ segs, seg.2 ≠ [])
    (numbered : Numbered Record.offset start (segs.flatMap Prod.snd)) :
    (segs.map (above ·.2)).foldl max start = start + (segs.flatMap Prod.snd).length := by
  induction segs generalizing start with
  | nil => simp
  | cons seg rest ih =>
    rw [List.flatMap_cons, Numbered.append_iff] at numbered
    have filled := nonempty seg (by simp)
    have isLast := List.getLast?_eq_some_getLast filled
    have top : above seg.2 = start + seg.2.length := by
      have := numbered.1.last isLast
      simp only [above, isLast, Option.map_some, Option.getD_some]
      omega
    have grows : max start (above seg.2) = start + seg.2.length := by omega
    rw [List.map_cons, List.foldl_cons, grows,
      ih (fun other member => nonempty other (by simp [member])) numbered.2, List.flatMap_cons,
      List.length_append]
    push_cast
    omega

/-- The records recovery hands on, orphans first. -/
def recoveredTail (recovery : PartitionRecovery) : List Record :=
  recovery.orphanSegments.flatMap Prod.snd ++ recovery.activeRecords

theorem recoveredTail_eq :
    recoveredTail (recoverPartition crc32c store.manifest files).2 =
      (salvaged crc32c store.manifest files).flatMap Prod.snd := by
  rw [recoverPartition_eq, recoveredTail]
  rcases List.eq_nil_or_concat (salvaged crc32c store.manifest files) with none | ⟨front, last, shape⟩
  · simp [none]
  · simp [shape]

/-- From a clean disk the whole tail comes back, and the next offset is the log's length. -/
theorem Settled.recovered (settled : Settled crc32c files store history segs)
    (durable : Durable crc32c files store.manifest stored acked)
    (clean : Clean crc32c ⟨files, store⟩) :
    recoveredTail (recoverPartition crc32c store.manifest files).2 = segs.flatMap Prod.snd ∧
      (recoverPartition crc32c store.manifest files).2.nextOffset = history.log.length := by
  have same := settled.salvaged_eq durable clean
  refine ⟨by rw [recoveredTail_eq, same], ?_⟩
  have nonempty (seg : Int × List Record) (member : seg ∈ segs) : seg.2 ≠ [] :=
    (settled.held seg.1 seg.2 member).2
  have top := foldl_above nonempty settled.chained.tail_numbered
  rw [settled.chained.length, recoverPartition_eq, same]
  exact top

theorem Settled.linked (settled : Settled crc32c files store history segs)
    (durable : Durable crc32c files store.manifest stored acked)
    (clean : Clean crc32c ⟨files, store⟩) :
    Linked crc32c (recoverPartition crc32c store.manifest files).1 store history
      (startView crc32c store.manifest files) := by
  obtain ⟨tail, next⟩ := settled.recovered durable clean
  have same := settled.salvaged_eq durable clean
  refine ⟨settled.chained.retail ?_, next, ?_, by simp [startView]⟩
  · rw [← tail]
    simp [startView, recoveredTail]
  · intro base records held nonempty
    obtain ⟨old, unlisted⟩ := (holds_after durable.ordered).mp held
    have member : (base, records) ∈ segs := by
      rw [← same]
      exact (mem_salvaged durable.ordered).mpr ⟨unlisted, old, nonempty⟩
    right
    rcases List.eq_nil_or_concat segs with none | ⟨front, last, shape⟩
    · simp [none] at member
    · -- The active segment is named after its first record, which starts the file.
      obtain ⟨lastBase, lastRecords⟩ := last
      have lastHeld := settled.held lastBase lastRecords (by simp [shape])
      obtain ⟨first, rest, rfl⟩ := List.exists_cons_of_ne_nil lastHeld.2
      have head := (durable.head lastBase first rest lastHeld.1).1
      have whole : (startView crc32c store.manifest files).backlog ++
          (startView crc32c store.manifest files).active.toList = segs := by
        simp [startView, recoverPartition_eq, same, shape, head]
      rw [whole]
      exact member

end Down

section Steps

variable {env : Externals} {regime : Regime}

theorem Continuous.of_live {s : Lifecycle.State} {v : View} (live : s.view = some v)
    (linked : Linked env.crc32c s.disk.wal s.disk.store s.history v) : Continuous env s :=
  ⟨fun _ same => Option.some.inj (live.symm.trans same) ▸ linked,
    fun down => by rw [live] at down; cases down⟩

theorem Continuous.of_down {s : Lifecycle.State} (down : s.view = none)
    (settled : ∃ segs, Settled env.crc32c s.disk.wal s.disk.store s.history segs) :
    Continuous env s :=
  ⟨fun _ live => (by rw [down] at live; cases live), fun _ => settled⟩

/-- Every event keeps the log in one piece, as long as restarts find a clean disk. -/
theorem Continuous.step {s s' : Lifecycle.State} (continuous : Continuous env s)
    (valid : Valid env s) (clean : s.view = none → regime.boot s.disk → Clean env.crc32c s.disk)
    (taken : Step env regime s s') : Continuous env s' := by
  cases taken with
  | idle => exact continuous
  | receive =>
    have linked := continuous.live _ rfl
    exact .of_live rfl ⟨linked.chained, linked.next, linked.known, linked.notified⟩
  | append active opened =>
    have running := valid.running _ rfl
    obtain ⟨holds, found⟩ := running.activeFile active opened
    rw [appendFile_present found, ← encodeAll_append]
    refine .of_live rfl ((continuous.live _ rfl).append running active (scan_encodeAll ?_))
    intro r member
    rcases List.mem_append.mp member with old | new
    · exact holds.fits r old
    · exact running.fits r new
  | sealActive active =>
    have linked := continuous.live _ rfl
    have same (backlog : List (Int × List Record)) (seg : Int × List Record) :
        backlog ++ [seg] ++ (none : Option (Int × List Record)).toList =
          backlog ++ (some seg).toList := by simp
    refine .of_live rfl ⟨?_, linked.next, ?_, linked.notified⟩
    · simp only [same, ← active]
      exact linked.chained
    · simp only [same, ← active]
      exact linked.known
  | openNext closed =>
    have linked := continuous.live _ rfl
    have running := valid.running _ rfl
    have file := openFile_opened fun bytes found => running.next_empty valid.durable found
    have after := linked.opened file
    refine .of_live rfl ⟨after.chained.retail (by simp [closed]), linked.next, ?_, linked.notified⟩
    intro base records held nonempty
    refine (after.known base records held nonempty).imp_right fun member => ?_
    exact List.mem_append_left _ (by simpa [closed] using member)
  | openFirst active =>
    have linked := continuous.live _ rfl
    have running := valid.running _ rfl
    obtain ⟨_, settled, ⟨bytes, found, _⟩ | ⟨_, empty, absent⟩⟩ := running.active _ _ active
    · rw [openFile_present found]
      exact .of_live rfl ⟨linked.chained, linked.next, linked.known, linked.notified⟩
    · have file := openFile_opened fun bytes found => by rw [absent] at found; cases found
      have after := linked.opened file
      exact .of_live rfl ⟨after.chained, after.next, after.known, after.notified⟩
  | put oldest =>
    have linked := continuous.live _ rfl
    have unlisted := (valid.running _ rfl).oldest_unlisted oldest
    refine .of_live rfl ⟨linked.chained.unlisted ?_, linked.next, linked.known, linked.notified⟩
    intro seg member
    rw [Dir.get_insert, if_neg]
    rintro rfl
    rw [Manifest.lists_iff.mpr ⟨seg, member, rfl⟩] at unlisted
    contradiction
  | list oldest staged =>
    have running := valid.running _ rfl
    have unlisted := running.oldest_unlisted oldest
    dsimp only at unlisted
    simp only [if_pos unlisted]
    exact .of_live rfl ((continuous.live _ rfl).list valid.durable running oldest staged _)
  | remove oldest => exact .of_live rfl ((continuous.live _ rfl).remove oldest)
  | evict now _ =>
    obtain ⟨kept, split, after, nonempty⟩ := evict_split valid.durable.ordered _ now
    rw [after]
    exact .of_live rfl ((continuous.live _ rfl).evict valid.durable.ordered split nonempty)
  | delete unlisted =>
    have linked := continuous.live _ rfl
    refine .of_live rfl ⟨linked.chained.unlisted ?_, linked.next, linked.known, linked.notified⟩
    intro seg member
    rw [Dir.get_erase, if_neg]
    rintro rfl
    rw [Manifest.lists_iff.mpr ⟨seg, member, rfl⟩] at unlisted
    contradiction
  | crash => exact .of_down rfl ⟨_, (continuous.live _ rfl).settled (valid.running _ rfl)⟩
  | tear cut active opened =>
    have running := valid.running _ rfl
    obtain ⟨holds, found⟩ := running.activeFile active opened
    rw [appendFile_present found]
    refine .of_down rfl ((continuous.live _ rfl).torn running active holds (fitting_front _ cut _) ?_)
    exact scan_torn holds.fits running.fits cut
  | interrupt rounds =>
    obtain ⟨segs, settled⟩ := continuous.down rfl
    exact .of_down rfl ⟨segs, settled.interrupted valid.durable rounds⟩
  | start booted =>
    obtain ⟨segs, settled⟩ := continuous.down rfl
    exact .of_live rfl (settled.linked valid.durable (clean rfl booted))

end Steps

end Kafkrs.Continuity
