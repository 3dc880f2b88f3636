import Kafkrs.Lib.Numbered
import Kafkrs.Recovery

/-! What a partition's actors are doing to its log, seen apart from their message loops: a
segment is appended to, sealed into a backlog, listed in the manifest, reported, and its WAL
file deleted, in the order of base offsets. The invariants here are stated on that pipeline
and on the WAL directory, for an arbitrary notion of a record being stored elsewhere. -/
namespace Kafkrs.Pipeline

open Lib Wal Recovery

structure View where
  /-- Listed segments whose WAL file is still to be deleted. -/
  notified : List Int
  /-- Sealed segments not listed yet, oldest first. -/
  backlog : List (Int × List Record)
  /-- The segment being appended to. -/
  active : Option (Int × List Record)
  /-- Whether the file of the active segment has been opened in this life. -/
  opened : Bool
  pending : List Record
  /-- The offset after the last one on disk. -/
  nextOffset : Int

def Holds (crc32c : Bytes → UInt32) (files : WalDir) (base : Int) (records : List Record) : Prop :=
  ∃ bytes, files[base]? = some bytes ∧ (scanWal crc32c bytes).1 = records

section Holds

variable {crc32c : Bytes → UInt32} {files : WalDir}

theorem Holds.unique {base : Int} {xs ys : List Record} (left : Holds crc32c files base xs)
    (right : Holds crc32c files base ys) : xs = ys := by
  obtain ⟨bytes, found, rfl⟩ := left
  obtain ⟨other, found', rfl⟩ := right
  rw [Option.some.inj (found.symm.trans found')]

theorem holds_insert {base other : Int} {bytes : Bytes} {records : List Record} :
    Holds crc32c (files.insert base bytes) other records ↔
      if base = other then (scanWal crc32c bytes).1 = records
      else Holds crc32c files other records := by
  by_cases same : base = other <;> simp [Holds, same]

theorem holds_erase {base other : Int} {records : List Record} :
    Holds crc32c (files.erase base) other records ↔
      base ≠ other ∧ Holds crc32c files other records := by
  by_cases same : base = other <;> simp [Holds, same]

theorem Holds.fits {base : Int} {records : List Record} (holds : Holds crc32c files base records) :
    ∀ r ∈ records, Fits r := by
  obtain ⟨bytes, _, rfl⟩ := holds
  exact scan_fits bytes

end Holds

/-- What survives a crash. `stored` records are out of the WAL's care. -/
structure Durable (crc32c : Bytes → UInt32) (files : WalDir) (manifest : Manifest)
    (stored : Record → Prop) (acked : List Record) : Prop where
  ordered : manifest.Ordered
  natural : ∀ base, manifest.lists base = true → 0 ≤ base
  head : ∀ base first rest, Holds crc32c files base (first :: rest) → first.offset = base ∧ 0 ≤ base
  sorted : ∀ base records, Holds crc32c files base records →
    records.Pairwise (fun a b => a.offset < b.offset)
  listed : ∀ base records, Holds crc32c files base records → manifest.lists base = true →
    ∀ r ∈ records, stored r
  acked : ∀ r ∈ acked, stored r ∨ ∃ base records, Holds crc32c files base records ∧ r ∈ records

structure Running (crc32c : Bytes → UInt32) (files : WalDir) (manifest : Manifest)
    (stored : Record → Prop) (v : View) : Prop where
  whole : ∀ (base : Int) bytes, files[base]? = some bytes →
    bytes = encodeAll crc32c (scanWal crc32c bytes).1
  order : (v.notified ++ v.backlog.map Prod.fst ++ v.active.toList.map Prod.fst).Pairwise (· < ·)
  below : ∀ base ∈ v.notified ++ v.backlog.map Prod.fst, base < v.nextOffset
  backlog : ∀ base records, (base, records) ∈ v.backlog →
    Holds crc32c files base records ∧ records ≠ [] ∧ manifest.lists base = false
  notified : ∀ base ∈ v.notified, ∀ records, Holds crc32c files base records →
    ∀ r ∈ records, stored r
  active : ∀ base records, v.active = some (base, records) →
    manifest.lists base = false ∧ (records = [] → base = v.nextOffset) ∧
    (Holds crc32c files base records ∨ (v.opened = false ∧ records = [] ∧ files[base]? = none))
  offsets : ∀ base records, Holds crc32c files base records → ∀ r ∈ records, r.offset < v.nextOffset
  listed : ∀ base, manifest.lists base = true → base < v.nextOffset
  pending : Numbered Record.offset v.nextOffset v.pending
  fits : ∀ r ∈ v.pending, Fits r
  start : 0 ≤ v.nextOffset

section Steps

variable {crc32c : Bytes → UInt32} {files : WalDir} {manifest : Manifest}
  {stored : Record → Prop} {acked : List Record} {v : View}

theorem Durable.mono (durable : Durable crc32c files manifest stored acked)
    {more : Record → Prop} (grows : ∀ r, stored r → more r) :
    Durable crc32c files manifest more acked where
  ordered := durable.ordered
  natural := durable.natural
  head := durable.head
  sorted := durable.sorted
  listed := fun base records holds listed r member =>
    grows r (durable.listed base records holds listed r member)
  acked := fun r member => (durable.acked r member).imp_left (grows r)

theorem Running.mono (running : Running crc32c files manifest stored v)
    {more : Record → Prop} (grows : ∀ r, stored r → more r) :
    Running crc32c files manifest more v :=
  { running with
    notified := fun base member records holds r mem =>
      grows r (running.notified base member records holds r mem) }

/-- Dropping manifest entries keeps both, as long as their records count as stored. -/
theorem Durable.unlist (durable : Durable crc32c files manifest stored acked)
    {kept : Manifest} (ordered : kept.Ordered)
    (fewer : ∀ base, kept.lists base = true → manifest.lists base = true) :
    Durable crc32c files kept stored acked :=
  { durable with
    ordered := ordered
    natural := fun base listed => durable.natural base (fewer base listed)
    listed := fun base records holds listed =>
      durable.listed base records holds (fewer base listed) }

theorem Running.unlist (running : Running crc32c files manifest stored v) {kept : Manifest}
    (fewer : ∀ base, kept.lists base = true → manifest.lists base = true) :
    Running crc32c files kept stored v := by
  have still (base : Int) (unlisted : manifest.lists base = false) : kept.lists base = false := by
    cases listed : kept.lists base with
    | false => rfl
    | true => rw [fewer base listed] at unlisted; contradiction
  exact
    { running with
      backlog := fun base records member =>
        have ⟨holds, nonempty, unlisted⟩ := running.backlog base records member
        ⟨holds, nonempty, still base unlisted⟩
      active := fun base records open' =>
        have ⟨unlisted, rest⟩ := running.active base records open'
        ⟨still base unlisted, rest⟩
      listed := fun base listed => running.listed base (fewer base listed) }

/-- The active file and the bytes in it. -/
theorem Running.activeFile (running : Running crc32c files manifest stored v)
    {base : Int} {records : List Record} (active : v.active = some (base, records))
    (opened : v.opened = true) :
    Holds crc32c files base records ∧ files[base]? = some (encodeAll crc32c records) := by
  obtain ⟨_, _, held | ⟨closed, _⟩⟩ := running.active base records active
  · obtain ⟨bytes, found, scanned⟩ := held
    refine ⟨⟨bytes, found, scanned⟩, ?_⟩
    rw [found, running.whole base bytes found, scanned]
  · rw [opened] at closed; contradiction

/-- Records to be appended lie above everything in the file they go to. -/
theorem Running.sorted_append (running : Running crc32c files manifest stored v)
    (durable : Durable crc32c files manifest stored acked) {base : Int} {records : List Record}
    (holds : Holds crc32c files base records) {batch : List Record} (front : batch <+: v.pending) :
    (records ++ batch).Pairwise (fun a b => a.offset < b.offset) := by
  have numbered := running.pending
  refine List.pairwise_append.mpr ⟨durable.sorted base records holds, ?_, ?_⟩
  · exact numbered.sorted.sublist front.sublist
  · intro a old b new
    have high := running.offsets base records holds a old
    have low := (numbered.mem_bounds (front.subset new)).1
    omega

/-- The head of the active file after an append is the segment base. -/
theorem Running.head_append (running : Running crc32c files manifest stored v)
    (durable : Durable crc32c files manifest stored acked) {base : Int} {records : List Record}
    (active : v.active = some (base, records)) (holds : Holds crc32c files base records)
    {batch : List Record} (front : batch <+: v.pending) {first : Record} {rest : List Record}
    (shape : records ++ batch = first :: rest) : first.offset = base ∧ 0 ≤ base := by
  cases records with
  | cons r records =>
    obtain ⟨rfl, _⟩ := List.cons.inj shape
    exact durable.head base _ _ holds
  | nil =>
    obtain ⟨more, pendingEq⟩ := front
    have numbered := running.pending
    rw [List.nil_append] at shape
    rw [← pendingEq, shape] at numbered
    rw [(running.active base [] active).2.1 rfl]
    exact ⟨numbered.1, running.start⟩

/-- The directory after an append that reached the disk up to `batch`, a prefix of what was
pending, followed by the torn bytes of the next record. -/
theorem Durable.append (durable : Durable crc32c files manifest stored acked)
    (running : Running crc32c files manifest stored v) {base : Int} {records batch : List Record}
    (active : v.active = some (base, records)) (holds : Holds crc32c files base records)
    (front : batch <+: v.pending) {bytes : Bytes}
    (scanned : (scanWal crc32c bytes).1 = records ++ batch) :
    Durable crc32c (files.insert base bytes) manifest stored acked where
  ordered := durable.ordered
  natural := durable.natural
  head := by
    intro other first rest held
    rw [holds_insert] at held
    split at held
    next same =>
      subst same
      exact running.head_append durable active holds front (scanned.symm.trans held)
    next different => exact durable.head other first rest held
  sorted := by
    intro other recs held
    rw [holds_insert] at held
    split at held
    next same =>
      rw [← held, scanned]
      exact running.sorted_append durable holds front
    next different => exact durable.sorted other recs held
  listed := by
    intro other recs held listed
    rw [holds_insert] at held
    split at held
    next same =>
      subst same
      rw [(running.active base records active).1] at listed
      contradiction
    next different => exact durable.listed other recs held listed
  acked := by
    intro r member
    rcases durable.acked r member with done | ⟨other, recs, held, inside⟩
    · exact .inl done
    · right
      by_cases same : base = other
      · subst same
        rw [held.unique holds] at inside
        exact ⟨base, records ++ batch, holds_insert.mpr (by simp [scanned]), by simp [inside]⟩
      · exact ⟨other, recs, holds_insert.mpr (by simp [same, held]), inside⟩

/-- Committed records join the acknowledged ones. -/
theorem Durable.ack (durable : Durable crc32c files manifest stored acked) {base : Int}
    {records batch : List Record} (holds : Holds crc32c files base records)
    (inside : ∀ r ∈ batch, r ∈ records) :
    Durable crc32c files manifest stored (acked ++ batch) :=
  { durable with
    acked := fun r member => by
      rcases List.mem_append.mp member with old | new
      · exact durable.acked r old
      · exact .inr ⟨base, records, holds, inside r new⟩ }

theorem Running.append (running : Running crc32c files manifest stored v) {base : Int}
    {records : List Record} (active : v.active = some (base, records))
    (opened : v.opened = true)
    (scanned : (scanWal crc32c (encodeAll crc32c (records ++ v.pending))).1 =
      records ++ v.pending) :
    Running crc32c (files.insert base (encodeAll crc32c (records ++ v.pending))) manifest stored
      { v with
        active := some (base, records ++ v.pending)
        pending := []
        nextOffset := v.nextOffset + v.pending.length } := by
  obtain ⟨holds, found⟩ := running.activeFile active opened
  obtain ⟨unlisted, settled, _⟩ := running.active base records active
  have order := running.order
  rw [active] at order
  have apart (other : Int) (member : other ∈ v.notified ++ v.backlog.map Prod.fst) :
      base ≠ other := by
    have := (List.pairwise_append.mp order).2.2 other member base (by simp)
    omega
  refine
    { whole := ?_, order := order, below := ?_, backlog := ?_, notified := ?_, active := ?_,
      offsets := ?_, listed := ?_, pending := trivial, fits := by simp, start := ?_ }
  · intro other bytes found
    rw [Dir.get_insert] at found
    split at found
    · rw [← Option.some.inj found, scanned]
    · exact running.whole other bytes found
  · intro other member
    have := running.below other member
    dsimp only; omega
  · intro other recs member
    obtain ⟨held, nonempty, fresh⟩ := running.backlog other recs member
    have different := apart other (List.mem_append_right _ (List.mem_map_of_mem member))
    exact ⟨holds_insert.mpr (by simp [different, held]), nonempty, fresh⟩
  · intro other member recs held
    rw [holds_insert, if_neg (apart other (List.mem_append_left _ member))] at held
    exact running.notified other member recs held
  · intro other recs same
    obtain ⟨rfl, rfl⟩ := Prod.mk.inj (Option.some.inj same)
    refine ⟨unlisted, fun empty => ?_, .inl (holds_insert.mpr (by simp [scanned]))⟩
    obtain ⟨none, nothing⟩ := List.append_eq_nil_iff.mp empty
    simp [settled none, nothing]
  · intro other recs held r member
    rw [holds_insert] at held
    dsimp only
    split at held
    next same =>
      rw [← held, scanned] at member
      rcases List.mem_append.mp member with old | new
      · have := running.offsets base records holds r old; omega
      · exact (running.pending.mem_bounds new).2
    next different =>
      have := running.offsets other recs held r member
      omega
  · intro other listed
    have := running.listed other listed
    dsimp only; omega
  · have := running.start
    dsimp only; omega

theorem Running.receive (running : Running crc32c files manifest stored v) {batch : List Record}
    (numbered : Numbered Record.offset (v.nextOffset + v.pending.length) batch)
    (fits : ∀ r ∈ batch, Fits r) :
    Running crc32c files manifest stored { v with pending := v.pending ++ batch } :=
  { running with
    pending := Numbered.append_iff.mpr ⟨running.pending, numbered⟩
    fits := fun r member => (List.mem_append.mp member).elim (running.fits r) (fits r) }

theorem Running.sealActive (running : Running crc32c files manifest stored v)
    (durable : Durable crc32c files manifest stored acked) {base : Int} {records : List Record}
    (active : v.active = some (base, records)) (opened : v.opened = true)
    (nonempty : records ≠ []) :
    Running crc32c files manifest stored
      { v with backlog := v.backlog ++ [(base, records)], active := none } := by
  obtain ⟨holds, _⟩ := running.activeFile active opened
  have order := running.order
  rw [active] at order
  have fresh : base < v.nextOffset := by
    obtain ⟨first, rest, rfl⟩ := List.exists_cons_of_ne_nil nonempty
    have head := durable.head base first rest holds
    have := running.offsets base _ holds first (by simp)
    omega
  refine { running with order := ?_, below := ?_, backlog := ?_, active := ?_ }
  · simpa [List.append_assoc] using order
  · intro other member
    simp only [List.map_append, List.map_cons, List.map_nil, ← List.append_assoc] at member
    rcases List.mem_append.mp member with old | new
    · exact running.below other old
    · rw [List.mem_singleton.mp new]; exact fresh
  · intro other recs member
    rcases List.mem_append.mp member with old | new
    · exact running.backlog other recs old
    · obtain ⟨rfl, rfl⟩ := Prod.mk.inj (List.mem_singleton.mp new)
      exact ⟨holds, nonempty, (running.active _ _ active).1⟩
  · intro other recs impossible
    cases impossible

/-- A file at the next offset can only be an empty one left by an earlier life. -/
theorem Running.next_empty (running : Running crc32c files manifest stored v)
    (durable : Durable crc32c files manifest stored acked) {bytes : Bytes}
    (found : files[v.nextOffset]? = some bytes) : bytes = [] := by
  cases scanned : (scanWal crc32c bytes).1 with
  | nil =>
    have whole := running.whole v.nextOffset bytes found
    rw [whole, scanned, encodeAll_nil]
  | cons first rest =>
    have held : Holds crc32c files v.nextOffset (first :: rest) := ⟨bytes, found, scanned⟩
    have head := durable.head _ _ _ held
    have := running.offsets _ _ held first (by simp)
    omega

structure Opened (files after : WalDir) (base : Int) : Prop where
  here : after[base]? = some []
  others : ∀ other, other ≠ base → after[other]? = files[other]?
  before : ∀ bytes, files[base]? = some bytes → bytes = []

theorem Opened.holds {after : WalDir} {base : Int} (opened : Opened files after base)
    {other : Int} {records : List Record} (nonempty : records ≠ []) :
    Holds crc32c after other records ↔ Holds crc32c files other records := by
  by_cases same : other = base
  · subst same
    constructor
    · rintro ⟨bytes, found, rfl⟩
      rw [opened.here] at found
      exact absurd (by rw [← Option.some.inj found]; rfl) nonempty
    · rintro ⟨bytes, found, rfl⟩
      exact absurd (by rw [opened.before bytes found]; rfl) nonempty
  · simp only [Holds, opened.others other same]

theorem Durable.opened (durable : Durable crc32c files manifest stored acked) {after : WalDir}
    {base : Int} (opened : Opened files after base) :
    Durable crc32c after manifest stored acked where
  ordered := durable.ordered
  natural := durable.natural
  head := fun other first rest held =>
    durable.head other first rest ((opened.holds (by simp)).mp held)
  sorted := by
    intro other records held
    cases records with
    | nil => exact List.Pairwise.nil
    | cons r records => exact durable.sorted other _ ((opened.holds (by simp)).mp held)
  listed := by
    intro other records held listed r member
    have nonempty := List.ne_nil_of_mem member
    exact durable.listed other records ((opened.holds nonempty).mp held) listed r member
  acked := by
    intro r member
    rcases durable.acked r member with done | ⟨other, records, held, inside⟩
    · exact .inl done
    · exact .inr ⟨other, records, (opened.holds (List.ne_nil_of_mem inside)).mpr held, inside⟩

/-- Opening the file of an empty active segment at the next offset. -/
theorem Running.opened (running : Running crc32c files manifest stored v) {after : WalDir}
    (opened : Opened files after v.nextOffset) :
    Running crc32c after manifest stored
      { v with active := some (v.nextOffset, []), opened := true } := by
  have unlisted : manifest.lists v.nextOffset = false := by
    cases listed : manifest.lists v.nextOffset with
    | false => rfl
    | true => exact absurd (running.listed _ listed) (lt_irrefl _)
  refine
    { whole := ?_, order := ?_, below := running.below, backlog := ?_, notified := ?_,
      active := ?_, offsets := ?_, listed := running.listed, pending := running.pending,
      fits := running.fits, start := running.start }
  · intro other bytes found
    by_cases same : other = v.nextOffset
    · subst same
      rw [opened.here] at found
      rw [← Option.some.inj found]; rfl
    · rw [opened.others other same] at found
      exact running.whole other bytes found
  · have order := running.order
    have below := running.below
    rw [List.pairwise_append] at order ⊢
    refine ⟨order.1, by simp, ?_⟩
    intro other member base last
    have here : base = v.nextOffset := by simpa using last
    rw [here]
    exact below other member
  · intro other records member
    obtain ⟨held, nonempty, fresh⟩ := running.backlog other records member
    exact ⟨(opened.holds nonempty).mpr held, nonempty, fresh⟩
  · intro other member records held r inside
    have nonempty := List.ne_nil_of_mem inside
    exact running.notified other member records ((opened.holds nonempty).mp held) r inside
  · intro other records same
    obtain ⟨rfl, rfl⟩ := Prod.mk.inj (Option.some.inj same)
    exact ⟨unlisted, fun _ => rfl, .inl ⟨[], opened.here, rfl⟩⟩
  · intro other records held r inside
    have nonempty := List.ne_nil_of_mem inside
    exact running.offsets other records ((opened.holds nonempty).mp held) r inside

theorem Running.oldest_unlisted (running : Running crc32c files manifest stored v) {base : Int}
    {records : List Record} {rest : List (Int × List Record)}
    (oldest : v.backlog = (base, records) :: rest) : manifest.lists base = false :=
  (running.backlog base records (by simp [oldest])).2.2

/-- The oldest backlog segment is listed in the manifest. -/
theorem Running.list (running : Running crc32c files manifest stored v) {base : Int}
    {records : List Record} {rest : List (Int × List Record)}
    (oldest : v.backlog = (base, records) :: rest) {after : Manifest}
    (lists : ∀ other, after.lists other = true ↔ manifest.lists other = true ∨ other = base)
    (kept : ∀ r ∈ records, stored r) :
    Running crc32c files after stored
      { v with backlog := rest, notified := v.notified ++ [base] } := by
  have order := running.order
  have below := running.below
  rw [oldest] at order below
  simp only [List.map_cons, List.append_assoc, List.cons_append] at order below
  have later (other : Int) (member : other ∈ rest.map Prod.fst ++ v.active.toList.map Prod.fst) :
      base < other := by
    have := (List.pairwise_append.mp order).2.1
    exact List.rel_of_pairwise_cons this member
  have still (other : Int) (fresh : manifest.lists other = false) (different : base < other) :
      after.lists other = false := by
    cases listed : after.lists other with
    | false => rfl
    | true =>
      rcases (lists other).mp listed with old | same
      · rw [fresh] at old; contradiction
      · omega
  obtain ⟨holds, _, _⟩ := running.backlog base records (by simp [oldest])
  refine
    { running with
      order := by simpa using order
      below := by simpa using below
      backlog := ?_, notified := ?_, active := ?_, listed := ?_ }
  · intro other recs member
    obtain ⟨held, nonempty, fresh⟩ := running.backlog other recs (by simp [oldest, member])
    have different := later other (List.mem_append_left _ (List.mem_map_of_mem member))
    exact ⟨held, nonempty, still other fresh different⟩
  · intro other member recs held
    rcases List.mem_append.mp member with old | new
    · exact running.notified other old recs held
    · rw [List.mem_singleton.mp new] at held
      rw [held.unique holds]
      exact kept
  · intro other recs active
    obtain ⟨fresh, rest⟩ := running.active other recs active
    refine ⟨still other fresh (later other ?_), rest⟩
    rw [active]; simp
  · intro other listed
    rcases (lists other).mp listed with old | same
    · exact running.listed other old
    · rw [same]; exact below base (by simp)

theorem Durable.list (durable : Durable crc32c files manifest stored acked) {base : Int}
    {records : List Record} (holds : Holds crc32c files base records) (nonempty : records ≠ [])
    {after : Manifest}
    (ordered : after.Ordered)
    (lists : ∀ other, after.lists other = true ↔ manifest.lists other = true ∨ other = base)
    (kept : ∀ r ∈ records, stored r) : Durable crc32c files after stored acked :=
  { durable with
    ordered := ordered
    natural := fun other listed => by
      rcases (lists other).mp listed with old | rfl
      · exact durable.natural other old
      · obtain ⟨first, rest, rfl⟩ := List.exists_cons_of_ne_nil nonempty
        exact (durable.head other first rest holds).2
    listed := fun other recs held listed => by
      rcases (lists other).mp listed with old | rfl
      · exact durable.listed other recs held old
      · rw [held.unique holds]; exact kept }

/-- The WAL file of the oldest reported segment is removed. -/
theorem Running.remove (running : Running crc32c files manifest stored v) {base : Int}
    {rest : List Int} (oldest : v.notified = base :: rest) :
    Running crc32c (files.erase base) manifest stored { v with notified := rest } := by
  have order := running.order
  have below := running.below
  rw [oldest] at order below
  simp only [List.cons_append] at order below
  have later (other : Int)
      (member : other ∈ rest ++ v.backlog.map Prod.fst ++ v.active.toList.map Prod.fst) :
      base ≠ other := ne_of_lt (List.rel_of_pairwise_cons order member)
  refine
    { running with
      whole := ?_
      order := order.of_cons
      below := fun other member => below other (List.mem_cons_of_mem _ member)
      backlog := ?_, notified := ?_, active := ?_, offsets := ?_ }
  · intro other bytes found
    rw [Dir.get_erase] at found
    split at found
    · cases found
    · exact running.whole other bytes found
  · intro other recs member
    obtain ⟨held, rest⟩ := running.backlog other recs member
    have inBacklog : other ∈ v.backlog.map Prod.fst := List.mem_map_of_mem member
    exact ⟨holds_erase.mpr ⟨later other (by simp [inBacklog]), held⟩, rest⟩
  · intro other member recs held
    exact running.notified other (by simp [oldest, member]) recs (holds_erase.mp held).2
  · intro other recs active
    obtain ⟨fresh, settled, held⟩ := running.active other recs active
    have different := later other (by rw [active]; simp)
    refine ⟨fresh, settled, held.imp (fun h => holds_erase.mpr ⟨different, h⟩) fun h => ?_⟩
    exact ⟨h.1, h.2.1, by rw [Dir.get_erase, if_neg different]; exact h.2.2⟩
  · intro other recs held
    exact running.offsets other recs (holds_erase.mp held).2

theorem Durable.remove (durable : Durable crc32c files manifest stored acked) {base : Int}
    (kept : ∀ records, Holds crc32c files base records → ∀ r ∈ records, stored r) :
    Durable crc32c (files.erase base) manifest stored acked where
  ordered := durable.ordered
  natural := durable.natural
  head := fun other first rest held => durable.head other first rest (holds_erase.mp held).2
  sorted := fun other records held => durable.sorted other records (holds_erase.mp held).2
  listed := fun other records held => durable.listed other records (holds_erase.mp held).2
  acked := by
    intro r member
    rcases durable.acked r member with done | ⟨other, records, held, inside⟩
    · exact .inl done
    · by_cases same : base = other
      · subst same; exact .inl (kept records held r inside)
      · exact .inr ⟨other, records, holds_erase.mpr ⟨same, held⟩, inside⟩

/-- Removing files, except unlisted ones, and truncating torn ones. -/
theorem Durable.shrink (durable : Durable crc32c files manifest stored acked) {after : WalDir}
    (sub : ∀ base records, Holds crc32c after base records → Holds crc32c files base records)
    (keep : ∀ base records, Holds crc32c files base records → manifest.lists base = false →
      Holds crc32c after base records) :
    Durable crc32c after manifest stored acked where
  ordered := durable.ordered
  natural := durable.natural
  head := fun base first rest held => durable.head base first rest (sub _ _ held)
  sorted := fun base records held => durable.sorted base records (sub _ _ held)
  listed := fun base records held => durable.listed base records (sub _ _ held)
  acked := by
    intro r member
    rcases durable.acked r member with done | ⟨base, records, held, inside⟩
    · exact .inl done
    · cases listed : manifest.lists base with
      | true => exact .inl (durable.listed base records held listed r inside)
      | false => exact .inr ⟨base, records, keep base records held listed, inside⟩

end Steps
end Kafkrs.Pipeline
