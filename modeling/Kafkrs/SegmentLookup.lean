import Kafkrs.Manifest

/-! Finding the segment that covers an offset. The search bisects on `last_offset` while the list
is kept sorted by `base_offset`; offsets between two segments may belong to none. -/
namespace Kafkrs

def SegmentEntry.covers (offset : Int) (s : SegmentEntry) : Bool :=
  decide (s.baseOffset ≤ offset ∧ offset ≤ s.lastOffset)

@[simp] theorem SegmentEntry.covers_iff {offset : Int} {s : SegmentEntry} :
    s.covers offset = true ↔ s.baseOffset ≤ offset ∧ offset ≤ s.lastOffset := by
  simp [covers]

namespace Manifest

/-- Sorted by base offset, each range non-empty, no offset in two of them. -/
structure Disjoint (m : Manifest) : Prop where
  sorted : m.segments.Pairwise (fun a b => a.baseOffset ≤ b.baseOffset)
  nonempty : ∀ s ∈ m.segments, s.baseOffset ≤ s.lastOffset
  disjoint : m.segments.Pairwise (fun a b => ∀ offset, ¬ (a.covers offset ∧ b.covers offset))

def Gap (m : Manifest) (offset : Int) : Prop :=
  ∃ front a b back, m.segments = front ++ a :: b :: back ∧ a.lastOffset < offset ∧
    offset < b.baseOffset

section Lookup

variable {m : Manifest} {offset : Int}

theorem Disjoint.apart (ranges : m.Disjoint) :
    m.segments.Pairwise (fun a b => a.lastOffset < b.baseOffset) := by
  refine (ranges.sorted.and ranges.disjoint).imp_of_mem fun {a b} _ member both => ?_
  obtain ⟨sorted, disjoint⟩ := both
  by_contra overlap
  have range := ranges.nonempty b member
  -- The later base would be in both ranges.
  refine disjoint b.baseOffset ⟨?_, ?_⟩
  · simp only [SegmentEntry.covers_iff]; omega
  · simp only [SegmentEntry.covers_iff]; omega

theorem disjoint_of_apart (nonempty : ∀ s ∈ m.segments, s.baseOffset ≤ s.lastOffset)
    (apart : m.segments.Pairwise (fun a b => a.lastOffset < b.baseOffset)) : m.Disjoint := by
  refine ⟨apart.imp_of_mem fun {a b} member _ before => ?_, nonempty,
    apart.imp fun {a b} before x both => ?_⟩
  · have range := nonempty a member
    omega
  · simp only [SegmentEntry.covers_iff] at both
    omega

/-- The bisection finds what a scan of the whole list finds. -/
theorem segmentForOffset_eq_find? (nonempty : ∀ s ∈ m.segments, s.baseOffset ≤ s.lastOffset)
    (apart : m.segments.Pairwise (fun a b => a.lastOffset < b.baseOffset)) (offset : Int) :
    m.segmentForOffset offset = m.segments.find? (·.covers offset) := by
  have closed : m.segments.Pairwise (fun a b =>
      decide (b.lastOffset < offset) = true → decide (a.lastOffset < offset) = true) := by
    refine apart.imp_of_mem fun {a b} _ member before => ?_
    have range := nonempty b member
    simp only [decide_eq_true_eq]
    omega
  have first := Lib.getElem?_partitionPoint closed
  have scanned := @Lib.filter_find? _ (fun s => !decide (s.lastOffset < offset)) (·.covers offset)
    m.segments ?_ ?_
  · rw [segmentForOffset, first]
    exact scanned
  · intro s covered
    simp only [SegmentEntry.covers_iff] at covered
    simpa using covered.2
  · refine apart.imp fun {a b} before candidate covered => ?_
    simp only [SegmentEntry.covers_iff, Bool.not_eq_true', decide_eq_false_iff_not] at *
    omega

/-- The only entry that covers an offset is the one the lookup returns. -/
theorem segmentForOffset_of_covers
    (nonempty : ∀ s ∈ m.segments, s.baseOffset ≤ s.lastOffset)
    (apart : m.segments.Pairwise (fun a b => a.lastOffset < b.baseOffset)) {s : SegmentEntry}
    (member : s ∈ m.segments) (covered : s.covers offset = true) :
    m.segmentForOffset offset = some s := by
  obtain ⟨front, back, split⟩ := List.append_of_mem member
  rw [segmentForOffset_eq_find? nonempty apart, split, List.find?_append]
  rw [split] at apart
  have none : front.find? (·.covers offset) = none := by
    refine List.find?_eq_none.mpr fun t earlier both => ?_
    have before := (List.pairwise_append.mp apart).2.2 t earlier s (by simp)
    simp only [SegmentEntry.covers_iff] at both covered
    omega
  simp [none, List.find?_cons_of_pos covered]

/-- An offset that no entry covers is below all of them, above all of them or in a gap. -/
theorem uncovered_cases {segments : List SegmentEntry}
    (nonempty : ∀ s ∈ segments, s.baseOffset ≤ s.lastOffset)
    (apart : segments.Pairwise (fun a b => a.lastOffset < b.baseOffset))
    (uncovered : ∀ s ∈ segments, ¬ s.covers offset = true) :
    (∀ s ∈ segments, offset < s.baseOffset) ∨ (∀ s ∈ segments, s.lastOffset < offset) ∨
      Gap ⟨segments⟩ offset := by
  induction segments with
  | nil => exact .inl (by simp)
  | cons a rest ih =>
    obtain ⟨before, later⟩ := List.pairwise_cons.mp apart
    have range := nonempty a (by simp)
    have here := uncovered a (by simp)
    simp only [SegmentEntry.covers_iff] at here
    by_cases below : offset < a.baseOffset
    · refine .inl fun s member => ?_
      rcases List.mem_cons.mp member with rfl | behind
      · exact below
      · have := before s behind
        omega
    · have passed : a.lastOffset < offset := by omega
      rcases ih (fun s member => nonempty s (by simp [member])) later
        (fun s member => uncovered s (by simp [member])) with low | high | gap
      · cases rest with
        | nil => exact .inr (.inl (by simpa using passed))
        | cons b back => exact .inr (.inr ⟨[], a, b, back, rfl, passed, low b (by simp)⟩)
      · refine .inr (.inl fun s member => ?_)
        rcases List.mem_cons.mp member with rfl | behind
        · exact passed
        · exact high s behind
      · obtain ⟨front, c, d, back, rfl, after, under⟩ := gap
        exact .inr (.inr ⟨a :: front, c, d, back, rfl, after, under⟩)

theorem Gap.uncovered (gap : m.Gap offset)
    (nonempty : ∀ s ∈ m.segments, s.baseOffset ≤ s.lastOffset)
    (apart : m.segments.Pairwise (fun a b => a.lastOffset < b.baseOffset)) :
    ∀ s ∈ m.segments, ¬ s.covers offset = true := by
  obtain ⟨front, a, b, back, split, after, under⟩ := gap
  rw [split] at apart nonempty ⊢
  obtain ⟨_, tail, across⟩ := List.pairwise_append.mp apart
  obtain ⟨_, behind⟩ := List.pairwise_cons.mp tail
  obtain ⟨above, _⟩ := List.pairwise_cons.mp behind
  intro s member
  simp only [SegmentEntry.covers_iff]
  simp only [List.mem_append, List.mem_cons] at member
  rcases member with earlier | rfl | rfl | later
  · have := across s earlier a (by simp)
    have := nonempty a (by simp)
    omega
  · omega
  · omega
  · have := above s later
    have := nonempty b (by simp)
    omega

end Lookup

/-- On sorted disjoint ranges the lookup is a linear scan: it returns the one segment that covers
the offset, and nothing exactly for an offset below, above or between the segments. -/
theorem segmentForOffset_correct {m : Manifest} (ranges : m.Disjoint) (offset : Int) :
    m.segmentForOffset offset = m.segments.find? (·.covers offset) ∧
      (∀ s, m.segmentForOffset offset = some s ↔
        s ∈ m.segments ∧ s.baseOffset ≤ offset ∧ offset ≤ s.lastOffset) ∧
      (∀ i j : Nat, ∀ s t : SegmentEntry, m.segments[i]? = some s → m.segments[j]? = some t →
        s.covers offset → t.covers offset → i = j) ∧
      (m.segmentForOffset offset = none ↔
        (∀ s ∈ m.segments, offset < s.baseOffset) ∨ (∀ s ∈ m.segments, s.lastOffset < offset) ∨
          m.Gap offset) := by
  have scanned := segmentForOffset_eq_find? ranges.nonempty ranges.apart offset
  refine ⟨scanned, fun s => ⟨fun found => ?_, fun ⟨member, low, high⟩ => ?_⟩, ?_, ?_, ?_⟩
  · rw [scanned] at found
    exact ⟨List.mem_of_find?_eq_some found, by simpa using List.find?_some found⟩
  · exact segmentForOffset_of_covers ranges.nonempty ranges.apart member (by simp [low, high])
  · intro i j s t first second coversS coversT
    obtain ⟨insideI, rfl⟩ := List.getElem?_eq_some_iff.mp first
    obtain ⟨insideJ, rfl⟩ := List.getElem?_eq_some_iff.mp second
    have disjoint := List.pairwise_iff_getElem.mp ranges.disjoint
    rcases Nat.lt_trichotomy i j with less | same | more
    · exact absurd ⟨coversS, coversT⟩ (disjoint i j insideI insideJ less offset)
    · exact same
    · exact absurd ⟨coversT, coversS⟩ (disjoint j i insideJ insideI more offset)
  · intro missing
    rw [scanned, List.find?_eq_none] at missing
    exact uncovered_cases ranges.nonempty ranges.apart missing
  · intro outside
    rw [scanned, List.find?_eq_none]
    rcases outside with low | high | gap
    · intro s member
      have := low s member
      simp only [SegmentEntry.covers_iff]
      omega
    · intro s member
      have := high s member
      simp only [SegmentEntry.covers_iff]
      omega
    · exact gap.uncovered ranges.nonempty ranges.apart

/-- Two segments that touch and a third after a hole. -/
def gapped : Manifest :=
  ⟨[⟨0, 4, 0, 9, 5, 100, segmentName 0⟩, ⟨5, 9, 10, 19, 5, 100, segmentName 5⟩,
    ⟨20, 29, 20, 29, 10, 100, segmentName 20⟩]⟩

theorem gapped_disjoint : gapped.Disjoint :=
  disjoint_of_apart (by simp [gapped]) (by simp [gapped])

theorem segmentForOffset_correct_gapped :
    gapped.segmentForOffset 9 = some ⟨5, 9, 10, 19, 5, 100, segmentName 5⟩ ∧
      gapped.segmentForOffset 15 = none := by
  refine ⟨?_, ?_⟩
  · exact ((segmentForOffset_correct gapped_disjoint 9).2.1 _).mpr
      ⟨by simp [gapped], by decide, by decide⟩
  · refine (segmentForOffset_correct gapped_disjoint 15).2.2.2.mpr (.inr (.inr ?_))
    exact ⟨[⟨0, 4, 0, 9, 5, 100, segmentName 0⟩], _, _, [], rfl, by decide, by decide⟩

end Manifest
end Kafkrs
