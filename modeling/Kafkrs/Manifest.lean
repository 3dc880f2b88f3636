import Kafkrs.Lib.Decimal
import Kafkrs.Lib.Search
import Kafkrs.Record
import Mathlib.Data.List.Sort

/-! The per-partition segment index kept in the object store. Its topic, partition and format
version fields are written once and read by no function, so they are left out. -/
namespace Kafkrs

structure SegmentEntry where
  baseOffset : Int
  lastOffset : Int
  baseTimestampNs : Int64
  lastTimestampNs : Int64
  recordCount : Nat
  byteSize : Nat
  objectKey : List Char
  deriving DecidableEq, Repr

structure Manifest where
  segments : List SegmentEntry
  deriving DecidableEq, Repr

/-- `segment-{base_offset:020}.parquet`, relative to the partition directory. -/
def segmentName (baseOffset : Int) : List Char :=
  "segment-".toList ++ Lib.zeroPadded 20 baseOffset ++ ".parquet".toList

theorem segmentName_eq (baseOffset : Int) : segmentName baseOffset =
    "segment-".toList ++ (Lib.zeroPadded 20 baseOffset ++ ".parquet".toList) :=
  List.append_assoc _ _ _

theorem segmentName_injective : Function.Injective segmentName := by
  intro a b same
  exact Lib.zeroPadded_injective 20 (List.append_cancel_left (List.append_cancel_right same))

namespace Manifest

def empty : Manifest := ⟨[]⟩

def segmentForOffset (m : Manifest) (offset : Int) : Option SegmentEntry :=
  let idx := Lib.partitionPoint (fun s => decide (s.lastOffset < offset)) m.segments
  (m.segments[idx]?).filter (fun s => decide (s.baseOffset ≤ offset ∧ offset ≤ s.lastOffset))

def lastUploadedOffset (m : Manifest) : Option Int := m.segments.getLast?.map (·.lastOffset)

/-- Whether some segment starts at `base`; the only test recovery and the uploader make. -/
def lists (m : Manifest) (base : Int) : Bool := m.segments.any (fun s => s.baseOffset == base)

def add (m : Manifest) (entry : SegmentEntry) : Manifest :=
  ⟨(m.segments ++ [entry]).insertionSort (fun a b => a.baseOffset ≤ b.baseOffset)⟩

/-- Strictly ordered by base offset, every entry a non-empty range under its own object key. -/
structure Ordered (m : Manifest) : Prop where
  bases : m.segments.Pairwise (fun a b => a.baseOffset < b.baseOffset)
  ranges : ∀ s ∈ m.segments, s.baseOffset ≤ s.lastOffset
  keys : ∀ s ∈ m.segments, s.objectKey = segmentName s.baseOffset

theorem lists_iff {m : Manifest} {base : Int} :
    m.lists base = true ↔ ∃ s ∈ m.segments, s.baseOffset = base := by
  simp [lists]

theorem ordered_empty : empty.Ordered :=
  ⟨List.Pairwise.nil, by simp [empty], by simp [empty]⟩

theorem mem_add {m : Manifest} {entry s : SegmentEntry} :
    s ∈ (m.add entry).segments ↔ s ∈ m.segments ∨ s = entry := by
  simp [add, List.mem_insertionSort]

/-- An entry above all others goes to the end. -/
theorem add_last {m : Manifest} {entry : SegmentEntry} (ordered : m.Ordered)
    (above : ∀ s ∈ m.segments, s.baseOffset < entry.baseOffset) :
    m.add entry = ⟨m.segments ++ [entry]⟩ := by
  have sorted : (m.segments ++ [entry]).Pairwise (fun a b => a.baseOffset ≤ b.baseOffset) := by
    refine List.pairwise_append.mpr ⟨ordered.bases.imp le_of_lt, by simp, ?_⟩
    intro a member b last
    rw [List.mem_singleton.mp last]
    exact le_of_lt (above a member)
  simp only [add, sorted.insertionSort_eq]

theorem Ordered.add {m : Manifest} {entry : SegmentEntry} (ordered : m.Ordered)
    (fresh : m.lists entry.baseOffset = false) (range : entry.baseOffset ≤ entry.lastOffset)
    (key : entry.objectKey = segmentName entry.baseOffset) : (m.add entry).Ordered := by
  have distinct : (m.segments ++ [entry]).Pairwise (fun a b => a.baseOffset ≠ b.baseOffset) := by
    refine List.pairwise_append.mpr ⟨ordered.bases.imp ne_of_lt, by simp, ?_⟩
    intro a member b last same
    rw [List.mem_singleton.mp last] at same
    rw [lists_iff.mpr ⟨a, member, same⟩] at fresh
    contradiction
  refine ⟨?_, ?_, ?_⟩
  · have sorted := List.pairwise_insertionSort
      (fun a b : SegmentEntry => a.baseOffset ≤ b.baseOffset) (m.segments ++ [entry])
    have apart := (List.perm_insertionSort (fun a b : SegmentEntry => a.baseOffset ≤ b.baseOffset)
      (m.segments ++ [entry])).pairwise_iff (fun same => Ne.symm same) |>.mpr distinct
    exact (sorted.and apart).imp fun h => lt_of_le_of_ne h.1 h.2
  all_goals
    intro s member
    rcases mem_add.mp member with old | rfl
  · exact ordered.ranges s old
  · exact range
  · exact ordered.keys s old
  · exact key

theorem Ordered.sublist {m : Manifest} {kept : List SegmentEntry} (ordered : m.Ordered)
    (sub : kept.Sublist m.segments) : (⟨kept⟩ : Manifest).Ordered :=
  ⟨ordered.bases.sublist sub, fun s member => ordered.ranges s (sub.subset member),
    fun s member => ordered.keys s (sub.subset member)⟩

/-- No listed base lies above the last uploaded offset. -/
theorem Ordered.base_le_last {m : Manifest} (ordered : m.Ordered) {s : SegmentEntry}
    (member : s ∈ m.segments) :
    ∃ last, m.lastUploadedOffset = some last ∧ s.baseOffset ≤ last := by
  have nonempty : m.segments ≠ [] := List.ne_nil_of_mem member
  refine ⟨(m.segments.getLast nonempty).lastOffset,
    by simp [lastUploadedOffset, List.getLast?_eq_getLast_of_ne_nil nonempty], ?_⟩
  have range := ordered.ranges _ (List.getLast_mem nonempty)
  have split := List.dropLast_append_getLast nonempty
  rw [← split] at member
  rcases List.mem_append.mp member with front | tail
  · have bases := ordered.bases
    rw [← split] at bases
    have := (List.pairwise_append.mp bases).2.2 s front _ (List.mem_singleton_self _)
    omega
  · rw [List.mem_singleton.mp tail]
    exact range

end Manifest
end Kafkrs
