import Kafkrs.Lib.Numbered
import Kafkrs.Partition

/-! What a group commit tells its clients. All requests of a group are answered with the last
offset of the whole group, and each client subtracts its own record count from it, so the
answers are right exactly when no commit finds more than one request waiting. -/
namespace Kafkrs.GroupCommit

open Lib Kafkrs.Partition

/-- The answer names the offsets its first and last record are stored at. -/
def Accurate (p : Produced) : Prop :=
  p.stored.head?.map (·.offset) = some p.response.baseOffset ∧
    p.stored.getLast?.map (·.offset) = some p.response.lastOffset

structure Reported (w : PartitionWriter) : Prop where
  accurate : ∀ p ∈ w.produced, Accurate p
  disjoint : w.produced.Pairwise (fun p q => p.response.lastOffset < q.response.baseOffset)

/-- A commit finds at most one request waiting. -/
def SingleCommit (s : State) : Action → Prop
  | .writer => ∀ l, s.live = some l → l.writer.phase = .commit → l.writer.pendingAcks.length ≤ 1
  | _ => True

/-- Waiting requests make up the pending records, and all of a life's records are numbered
in the order they came in. -/
structure Grouped (w : PartitionWriter) : Prop where
  flat : w.pendingAcks.flatten = w.pending
  waiting : ∀ stored ∈ w.pendingAcks, stored ≠ []
  numbered : Numbered Record.offset
    (w.nextOffset - w.pending.length - (w.produced.flatMap (·.stored)).length)
    (w.produced.flatMap (·.stored) ++ w.pending)

structure Untouched (w w' : PartitionWriter) : Prop where
  nextOffset : w'.nextOffset = w.nextOffset
  pending : w'.pending = w.pending
  pendingAcks : w'.pendingAcks = w.pendingAcks
  produced : w'.produced = w.produced

section Steps

variable {env : Externals} {s s' : State} {l' : Live} {action : Action}

theorem sealActive_untouched (w : PartitionWriter) : Untouched w w.sealActive := by
  unfold PartitionWriter.sealActive
  split <;> exact ⟨rfl, rfl, rfl, rfl⟩

/-- What one step can do to the requests of a writer. -/
theorem step_requests (taken : step env action s = some s') (live : s'.live = some l') :
    (s.live = none ∧ ∃ cfg next recovered, l'.writer = PartitionWriter.new cfg next recovered) ∨
    ∃ l, s.live = some l ∧
      ((Untouched l.writer l'.writer ∧ (action = .writer → l.writer.phase ≠ .commit)) ∨
        (∃ records now, action = .produce records now ∧ records ≠ [] ∧
          l.writer.onProduce records now = some l'.writer) ∨
        (action = .writer ∧ l.writer.phase = .commit ∧ l'.writer = l.writer.flushCommit)) := by
  simp only [step] at taken
  cases was : s.live with
  | none =>
    rw [was] at taken
    cases action with
    | start cfg =>
      obtain rfl := Option.some.inj taken
      obtain rfl := Option.some.inj live
      exact .inl ⟨rfl, _, _, _, rfl⟩
    | interrupt rounds =>
      obtain rfl := Option.some.inj taken
      exact absurd (was.symm.trans live) (by simp)
    | _ => cases taken
  | some l =>
    rw [was] at taken
    refine .inr ⟨l, rfl, ?_⟩
    cases liveStep_moved taken with
    | crash => cases live
    | produce _ filled stored =>
      cases live
      exact .inr (.inl ⟨_, _, rfl, filled, stored⟩)
    | commit phase =>
      cases live
      exact .inr (.inr ⟨rfl, phase, rfl⟩)
    | sealActive phase =>
      cases live
      exact .inl ⟨sealActive_untouched _, fun _ => by simp [phase]⟩
    | handoff phase | openNext phase =>
      cases live
      exact .inl ⟨⟨rfl, rfl, rfl, rfl⟩, fun _ => by simp [phase]⟩
    | sendOrphan | openWriter | commitTimeout | updateWriter | segmentDurable | shutdownWriter
    | enqueue | uploader =>
      cases live
      exact .inl ⟨⟨rfl, rfl, rfl, rfl⟩, by simp⟩

end Steps

section Requests

variable {w w' : PartitionWriter}

theorem new_grouped (cfg : ResolvedTopicConfig) (next : Int) (recovered : List Record) :
    Grouped (PartitionWriter.new cfg next recovered) :=
  ⟨rfl, by simp [PartitionWriter.new], trivial⟩

theorem new_reported (cfg : ResolvedTopicConfig) (next : Int) (recovered : List Record) :
    Reported (PartitionWriter.new cfg next recovered) :=
  ⟨by simp [PartitionWriter.new], List.Pairwise.nil⟩

theorem Grouped.untouched (grouped : Grouped w) (same : Untouched w w') : Grouped w' := by
  refine ⟨?_, ?_, ?_⟩
  · rw [same.pendingAcks, same.pending]; exact grouped.flat
  · rw [same.pendingAcks]; exact grouped.waiting
  · rw [same.nextOffset, same.pending, same.produced]; exact grouped.numbered

theorem Grouped.receive (grouped : Grouped w) {records : List IncomingRecord}
    {now : Nat → Int64} (nonempty : records ≠ []) (stored : w.onProduce records now = some w') :
    Grouped w' := by
  obtain ⟨_, _, _, rfl⟩ := PartitionWriter.onProduce_some stored
  refine ⟨by simp [grouped.flat], ?_, ?_⟩
  · intro group member
    rcases List.mem_append.mp member with old | new
    · exact grouped.waiting group old
    · rw [List.mem_singleton.mp new]
      intro empty
      have length := PartitionWriter.stamp_length now w.nextOffset records
      rw [empty] at length
      exact nonempty (List.length_eq_zero_iff.mp length.symm)
  · have start : w.nextOffset + records.length -
        ((w.pending ++ PartitionWriter.stamp now w.nextOffset records).length : Int) -
        ((w.produced.flatMap (·.stored)).length : Int) =
        w.nextOffset - w.pending.length - ((w.produced.flatMap (·.stored)).length : Int) := by
      simp only [List.length_append, PartitionWriter.stamp_length]
      omega
    have here : w.nextOffset - (w.pending.length : Int) -
        ((w.produced.flatMap (·.stored)).length : Int) +
        ((w.produced.flatMap (·.stored) ++ w.pending).length : Int) = w.nextOffset := by
      simp only [List.length_append]
      omega
    dsimp only
    rw [start, ← List.append_assoc]
    refine Numbered.append_iff.mpr ⟨grouped.numbered, ?_⟩
    rw [here]
    exact PartitionWriter.stamp_numbered now w.nextOffset records

/-- The answers of a commit, in the order of the requests. -/
theorem flushCommit_requests (w : PartitionWriter) (nonempty : w.pending ≠ []) :
    w.flushCommit.nextOffset = w.nextOffset ∧ w.flushCommit.pending = [] ∧
    w.flushCommit.pendingAcks = [] ∧
    w.flushCommit.produced = w.produced ++ w.pendingAcks.map
      (fun stored => ⟨stored, commitRecords stored.length (w.nextOffset - 1)⟩) := by
  have filled : w.pending.isEmpty = false := by simpa using nonempty
  simp [PartitionWriter.flushCommit, filled]

theorem flushCommit_empty (w : PartitionWriter) (empty : w.pending = []) :
    Untouched w w.flushCommit := by
  simp only [PartitionWriter.flushCommit, empty, List.isEmpty_nil, if_true]
  exact ⟨rfl, by simp [empty], rfl, rfl⟩

theorem Grouped.commit (grouped : Grouped w) : Grouped w.flushCommit := by
  by_cases empty : w.pending = []
  · exact grouped.untouched (flushCommit_empty w empty)
  · obtain ⟨next, pending, acks, produced⟩ := flushCommit_requests w empty
    have stored : w.flushCommit.produced.flatMap (·.stored) =
        w.produced.flatMap (·.stored) ++ w.pending := by
      rw [produced, List.flatMap_append, List.flatMap_map, List.flatMap_id', grouped.flat]
    have numbered := grouped.numbered
    refine ⟨by rw [acks, pending]; rfl, by simp [acks], ?_⟩
    rw [stored, next, pending]
    convert numbered using 1
    · simp only [List.length_append, List.length_nil]
      omega
    · simp

theorem Reported.untouched (reported : Reported w) (same : Untouched w w') : Reported w' := by
  refine ⟨?_, ?_⟩ <;> rw [same.produced]
  · exact reported.accurate
  · exact reported.disjoint

/-- With two requests waiting, the first is told offsets that belong to the second. -/
theorem commit_inaccurate (grouped : Grouped w) {first second : List Record}
    {others : List (List Record)} (waiting : w.pendingAcks = first :: second :: others) :
    ¬ Accurate ⟨first, commitRecords first.length (w.nextOffset - 1)⟩ := by
  rintro ⟨_, last⟩
  obtain ⟨final, isFinal, offset⟩ := Option.map_eq_some_iff.mp last
  have flat := grouped.flat
  rw [waiting, List.flatten_cons, List.flatten_cons] at flat
  have numbered := (Numbered.append_iff.mp grouped.numbered).2
  rw [← flat] at numbered
  have inFirst := (Numbered.append_iff.mp numbered).1.mem_bounds (List.mem_of_getLast? isFinal)
  have nonempty := List.length_pos_iff.mpr (grouped.waiting second (by simp [waiting]))
  simp only [List.length_append, commitRecords] at *
  omega

/-- A request that is alone in its commit is answered with its own offsets. -/
theorem commit_accurate (grouped : Grouped w) {only : List Record}
    (waiting : w.pendingAcks = [only]) :
    Accurate ⟨only, commitRecords only.length (w.nextOffset - 1)⟩ := by
  have flat := grouped.flat
  have nonempty := grouped.waiting only (by simp [waiting])
  have numbered := (Numbered.append_iff.mp grouped.numbered).2
  rw [waiting, List.flatten_singleton] at flat
  rw [← flat] at numbered
  have isHead := List.head?_eq_some_head nonempty
  have isLast := List.getLast?_eq_some_getLast nonempty
  have low := numbered.head isHead
  have high := numbered.last isLast
  simp only [Accurate, isHead, isLast, commitRecords, Option.map_some, Option.some.injEq]
  omega

/-- Answers given so far lie below the pending records. -/
theorem Reported.below (reported : Reported w) (grouped : Grouped w) {p : Produced}
    (member : p ∈ w.produced) : p.response.lastOffset < w.nextOffset - w.pending.length := by
  obtain ⟨final, isFinal, offset⟩ := Option.map_eq_some_iff.mp (reported.accurate p member).2
  have inside : final ∈ w.produced.flatMap (·.stored) :=
    List.mem_flatMap.mpr ⟨p, member, List.mem_of_getLast? isFinal⟩
  have := (Numbered.append_iff.mp grouped.numbered).1.mem_bounds inside
  omega

theorem commit_reported_iff (grouped : Grouped w) (reported : Reported w) :
    Reported w.flushCommit ↔ w.pendingAcks.length ≤ 1 := by
  cases acks : w.pendingAcks with
  | nil =>
    have empty : w.pending = [] := by simpa [acks] using grouped.flat.symm
    exact ⟨fun _ => by simp, fun _ => reported.untouched (flushCommit_empty w empty)⟩
  | cons first rest =>
    have nonempty : w.pending ≠ [] := by
      rw [← grouped.flat, acks, List.flatten_cons]
      intro empty
      exact grouped.waiting first (by simp [acks]) (List.append_eq_nil_iff.mp empty).1
    obtain ⟨_, _, _, produced⟩ := flushCommit_requests w nonempty
    cases rest with
    | cons second others =>
      refine ⟨fun after => ?_, fun short => absurd short (by simp)⟩
      refine absurd (after.accurate ⟨first, _⟩ ?_) (commit_inaccurate grouped acks)
      rw [produced, acks]
      simp
    | nil =>
      refine ⟨fun _ => by simp, fun _ => ⟨?_, ?_⟩⟩ <;> rw [produced, acks]
      · intro p member
        rcases List.mem_append.mp member with old | new
        · exact reported.accurate p old
        · rw [List.mem_singleton.mp new]
          exact commit_accurate grouped acks
      · refine List.pairwise_append.mpr ⟨reported.disjoint, by simp, ?_⟩
        intro p old q new
        rw [List.mem_singleton.mp new]
        have below := reported.below grouped old
        have flat := grouped.flat
        rw [acks, List.flatten_singleton] at flat
        simp only [← flat, commitRecords] at *
        omega

theorem step_grouped {env : Externals} {s next : State} {action : Action}
    (grouped : ∀ l, s.live = some l → Grouped l.writer) (taken : step env action s = some next) :
    ∀ l, next.live = some l → Grouped l.writer := by
  intro l' live
  rcases step_requests taken live with ⟨_, cfg, start, recovered, isNew⟩ | ⟨l, was, cases⟩
  · rw [isNew]
    exact new_grouped cfg start recovered
  · rcases cases with ⟨same, _⟩ | ⟨records, now, _, nonempty, stored⟩ | ⟨_, _, committed⟩
    · exact (grouped l was).untouched same
    · exact (grouped l was).receive nonempty stored
    · rw [committed]
      exact (grouped l was).commit

end Requests

/-- Over every run, every answer a writer has given is accurate and disjoint from the others
if and only if no commit ever finds two requests waiting. -/
theorem reported_iff_single (env : Externals) (schedule : List Action) :
    (machine env).Throughout (fun s => ∀ l, s.live = some l → Reported l.writer) schedule fresh ↔
      (machine env).Along SingleCommit schedule fresh := by
  have down (property : PartitionWriter → Prop) :
      ∀ l, fresh.live = some l → property l.writer := by
    intro l live
    cases (show none = some l from live)
  have grouped (s : State) (action : Action) (next : State)
      (inv : ∀ l, s.live = some l → Grouped l.writer) (taken : (machine env).step action s = some next) :
      ∀ l, next.live = some l → Grouped l.writer :=
    step_grouped inv taken
  refine Machine.throughout_iff_along (fun s action next inv _ => grouped s action next inv)
    ?_ ?_ (down _) (down _) (Machine.along_true _ _)
  · intro s action disabled
    cases action with
    | writer =>
      intro l live commit
      simp [machine, step, live, liveStep, writerStep, commit] at disabled
    | _ => trivial
  · intro s action next inv _ reported taken
    constructor
    · intro after
      cases action with
      | writer =>
        intro l live commit
        have isNext : next.live = some { l with writer := l.writer.flushCommit } := by
          simp only [machine, step, live, liveStep, writerStep, commit] at taken
          rw [← Option.some.inj taken]
        exact (commit_reported_iff (inv l live) (reported l live)).mp (after _ isNext)
      | _ => trivial
    · intro single l' live
      rcases step_requests taken live with ⟨_, cfg, start, recovered, isNew⟩ | ⟨l, was, cases⟩
      · rw [isNew]; exact new_reported cfg start recovered
      · rcases cases with ⟨same, _⟩ | ⟨records, now, _, _, stored⟩ | ⟨rfl, commit, committed⟩
        · exact (reported l was).untouched same
        · obtain ⟨_, _, _, kept⟩ := PartitionWriter.onProduce_some stored
          rw [kept]
          exact ⟨(reported l was).accurate, (reported l was).disjoint⟩
        · rw [committed]
          exact (commit_reported_iff (inv l was) (reported l was)).mpr (single l was commit)

/-- Two one-record requests that wait for the same group commit. -/
def groupedRun : List Action :=
  [.start { settings with groupCommitRecordCount := 10 }, .openWriter,
    .produce [sample 1] (fun _ => 0), .produce [sample 2] (fun _ => 0), .commitTimeout, .writer]

/-- Both are told offset 1, though the first is stored at 0. -/
theorem groupedRun_misreports : ¬ (machine externals).Throughout
    (fun s => ∀ l, s.live = some l → Reported l.writer) groupedRun fresh := by
  have runs : ((machine externals).execute groupedRun fresh).any (fun s => s.live.any (fun l =>
      l.writer.produced.map (fun p => (p.stored.map (·.offset), p.response)) =
        [([0], ⟨1, 1, 1⟩), ([1], ⟨1, 1, 1⟩)])) = true := by decide +kernel
  intro always
  obtain ⟨s, ran, facts⟩ := Option.any_eq_true _ _ |>.mp runs
  obtain ⟨l, live, answers⟩ := Option.any_eq_true _ _ |>.mp facts
  have disjoint := (always.final ran l live).disjoint
  have overlap : (l.writer.produced.map Produced.response).Pairwise
      (fun p q => p.lastOffset < q.baseOffset) := List.pairwise_map.mpr disjoint
  have responses := congrArg (List.map Prod.snd) (of_decide_eq_true answers)
  rw [List.map_map] at responses
  rw [show l.writer.produced.map Produced.response = _ from responses] at overlap
  exact absurd overlap (by decide)

end Kafkrs.GroupCommit
