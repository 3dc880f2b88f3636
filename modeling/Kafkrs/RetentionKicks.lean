import Kafkrs.Eviction
import Kafkrs.Uploader

/-! Retention passes between uploads. What a last pass leaves does not depend on which of the
earlier passes ran, as long as no earlier clock reads later than the last one. -/
namespace Kafkrs.RetentionKicks

open Lib Retention Eviction

inductive Event where
  | upload (entry : SegmentEntry)
  | pass (now : Int)
  deriving DecidableEq, Repr

def uploadOnce (m : Manifest) (entry : SegmentEntry) : Manifest :=
  if m.lists entry.baseOffset then m else m.add entry

def retentionPass (cfg : ResolvedTopicConfig) (m : Manifest) (now : Int) : Manifest :=
  retain m (evaluateEviction m cfg now)

def apply (cfg : ResolvedTopicConfig) (m : Manifest) : Event → Manifest
  | .upload entry => uploadOnce m entry
  | .pass now => retentionPass cfg m now

def run (cfg : ResolvedTopicConfig) (m : Manifest) (history : List Event) : Manifest :=
  history.foldl (apply cfg) m

def uploads : List Event → List SegmentEntry
  | [] => []
  | .upload entry :: rest => entry :: uploads rest
  | .pass _ :: rest => uploads rest

def clocks : List Event → List Int
  | [] => []
  | .upload _ :: rest => clocks rest
  | .pass now :: rest => now :: clocks rest

/-- The same history with some of its passes dropped. -/
inductive Thinned : List Event → List Event → Prop
  | nil : Thinned [] []
  | keep (event : Event) {fewer history : List Event} : Thinned fewer history →
      Thinned (event :: fewer) (event :: history)
  | drop (now : Int) {fewer history : List Event} : Thinned fewer history →
      Thinned fewer (.pass now :: history)

theorem Thinned.uploads {fewer history : List Event} (thinned : Thinned fewer history) :
    uploads fewer = uploads history := by
  induction thinned with
  | nil => rfl
  | keep event _ ih => cases event <;> simp [RetentionKicks.uploads, ih]
  | drop now _ ih => exact ih

theorem Thinned.clocks {fewer history : List Event} (thinned : Thinned fewer history) :
    ∀ t ∈ clocks fewer, t ∈ clocks history := by
  induction thinned with
  | nil => exact fun t member => member
  | keep event _ ih =>
    cases event with
    | upload entry => exact ih
    | pass now =>
      intro t member
      rcases List.mem_cons.mp member with same | later
      · exact List.mem_cons.mpr (.inl same)
      · exact List.mem_cons_of_mem _ (ih t later)
  | drop now _ ih => exact fun t member => List.mem_cons_of_mem _ (ih t member)

section Actor

variable {segmentSize : List Record → Nat} {now : Int} {u : Uploader} {st : Store}
  {effect : Uploader.Effect}

/-- The actor's manifest PUT and its retention pass are the two events. -/
theorem step_upload {batch : SealedBatch} (phase : u.phase = .putManifest batch)
    (taken : u.step segmentSize now .ok st = some effect) :
    effect.store.manifest = uploadOnce st.manifest (Uploader.entry segmentSize batch) := by
  simp only [Uploader.step, phase, Outcome.applied, true_and, Option.some.injEq] at taken
  subst taken
  have base : (Uploader.entry segmentSize batch).baseOffset = batch.baseOffset := rfl
  rw [uploadOnce, base]
  cases st.manifest.lists batch.baseOffset <;> rfl

theorem step_pass (phase : u.phase = .retention)
    (taken : u.step segmentSize now .ok st = some effect) :
    effect.store.manifest = retentionPass u.cfg st.manifest now := by
  simp only [Uploader.step, phase, Outcome.applied, ↓reduceIte] at taken
  unfold retentionPass
  split at taken
  next nothing =>
    cases taken
    rw [List.isEmpty_iff.mp nothing]
    simp [retain]
  next something =>
    cases taken
    rfl

end Actor

section History

variable {cfg : ResolvedTopicConfig} {now : Int}

theorem retentionPass_trim {segments : List SegmentEntry} (range : InRange cfg now)
    (ordered : (⟨segments⟩ : Manifest).Ordered) (small : bytes segments < 2 ^ 63) :
    retentionPass cfg ⟨segments⟩ now = ⟨trim (keeps cfg now) segments⟩ :=
  retain_front ordered (evaluateEviction_trim range small).2.symm

theorem uploadOnce_append {segments later : List SegmentEntry} {entry : SegmentEntry}
    (ordered : (⟨segments ++ entry :: later⟩ : Manifest).Ordered) :
    uploadOnce ⟨segments⟩ entry = ⟨segments ++ [entry]⟩ := by
  have above : ∀ s ∈ segments, s.baseOffset < entry.baseOffset :=
    fun s member => (List.pairwise_append.mp ordered.bases).2.2 s member entry (List.mem_cons_self)
  have before : (⟨segments⟩ : Manifest).Ordered := ordered.sublist (List.sublist_append_left _ _)
  have fresh : (⟨segments⟩ : Manifest).lists entry.baseOffset = false := by
    rw [← Bool.not_eq_true, Manifest.lists_iff]
    rintro ⟨s, member, same⟩
    have := above s member
    omega
  simp only [uploadOnce, fresh, Bool.false_eq_true, ↓reduceIte]
  exact Manifest.add_last before above

/-- A later clock and more segments behind only make the policy stricter. -/
theorem keeps_stricter {t : Int} (earlier : t ≤ now) (rest later : List SegmentEntry)
    (kept : keeps cfg now (rest ++ later) = true) : keeps cfg t rest = true := by
  cases rest with
  | nil => rfl
  | cons seg rest =>
    rw [List.cons_append, keeps, decide_eq_true_iff] at kept
    rw [keeps, decide_eq_true_iff]
    obtain ⟨young, fits⟩ := kept
    constructor
    · rintro ⟨aged, old⟩
      exact young ⟨aged, by omega⟩
    · rintro ⟨capped, large⟩
      have more := bytes_append (seg :: rest) later
      exact fits ⟨capped, by rw [← List.cons_append]; omega⟩

/-- What the last pass leaves is one trim of everything there was. -/
theorem run_pass (range : InRange cfg now) {history : List Event} {segments : List SegmentEntry}
    (ordered : (⟨segments ++ uploads history⟩ : Manifest).Ordered)
    (small : bytes (segments ++ uploads history) < 2 ^ 63)
    (earlier : ∀ t ∈ clocks history, 0 ≤ t ∧ t ≤ now) :
    run cfg ⟨segments⟩ (history ++ [.pass now]) =
      ⟨trim (keeps cfg now) (segments ++ uploads history)⟩ := by
  induction history generalizing segments with
  | nil =>
    rw [uploads, List.append_nil] at *
    exact retentionPass_trim range ordered small
  | cons event rest ih =>
    cases event with
    | upload entry =>
      have split : segments ++ uploads (.upload entry :: rest) = segments ++ [entry] ++ uploads rest := by
        simp [uploads]
      have first : run cfg ⟨segments⟩ (.upload entry :: rest ++ [.pass now]) =
          run cfg (uploadOnce ⟨segments⟩ entry) (rest ++ [.pass now]) := rfl
      rw [first, uploadOnce_append ordered, split]
      rw [split] at ordered small
      exact ih ordered small earlier
    | pass t =>
      have before := List.forall_mem_cons.mp earlier
      have present : (⟨segments⟩ : Manifest).Ordered :=
        ordered.sublist (List.sublist_append_left _ _)
      have total := bytes_append segments (uploads rest)
      have total' : bytes (segments ++ uploads rest) < 2 ^ 63 := small
      have rangeThen : InRange cfg t :=
        ⟨range.ms, range.bytes, before.1.1, lt_of_le_of_lt before.1.2 range.clock⟩
      have behind := trim_suffix (keeps cfg t) segments
      have first : run cfg ⟨segments⟩ (.pass t :: rest ++ [.pass now]) =
          run cfg (retentionPass cfg ⟨segments⟩ t) (rest ++ [.pass now]) := rfl
      rw [first, retentionPass_trim rangeThen present (by omega), ih ?_ ?_ before.2, uploads,
        trim_trim_append fun rest' _ => keeps_stricter before.1.2 rest' _]
      · exact ordered.sublist (behind.sublist.append_right _)
      · have fewer := bytes_suffix behind
        have trimmed := bytes_append (trim (keeps cfg t) segments) (uploads rest)
        omega

/-- Dropping earlier passes changes nothing in what the last one leaves, and a pass right after
it evicts nothing. -/
theorem passes_droppable {m : Manifest} {history fewer : List Event} (thinned : Thinned fewer history)
    (range : InRange cfg now) (ordered : (⟨m.segments ++ uploads history⟩ : Manifest).Ordered)
    (small : bytes (m.segments ++ uploads history) < 2 ^ 63)
    (earlier : ∀ t ∈ clocks history, 0 ≤ t ∧ t ≤ now) :
    run cfg m (fewer ++ [.pass now]) = run cfg m (history ++ [.pass now]) ∧
      evaluateEviction (run cfg m (history ++ [.pass now])) cfg now = [] := by
  have full := run_pass range ordered small earlier
  have thin : run cfg m (fewer ++ [.pass now]) = _ :=
    run_pass range (by rwa [thinned.uploads]) (by rwa [thinned.uploads])
      (fun t member => earlier t (thinned.clocks t member))
  rw [thinned.uploads] at thin
  refine ⟨thin.trans full.symm, ?_⟩
  have shorter := bytes_suffix (trim_suffix (keeps cfg now) (m.segments ++ uploads history))
  have again := (@evaluateEviction_trim (run cfg m (history ++ [.pass now])) cfg now range
    (by rw [full]; dsimp only; omega)).2
  rw [full] at again ⊢
  rw [trim_trim] at again
  exact List.append_cancel_right (again.trans (List.nil_append _).symm)

end History

section Sample

/-- A pass that evicts, an upload, and a pass that is dropped. -/
def busy : List Event := [.pass 2500000, .upload (sealedAt 4 4000000 25), .pass 3500000]

theorem passes_droppable_busy :
    run limited both [.upload (sealedAt 4 4000000 25), .pass 3600000] =
        run limited both (busy ++ [.pass 3600000]) ∧
      evaluateEviction (run limited both (busy ++ [.pass 3600000])) limited 3600000 = [] := by
  have thinned : Thinned [.upload (sealedAt 4 4000000 25)] busy :=
    .drop _ (.keep _ (.drop _ .nil))
  refine passes_droppable thinned ⟨by decide, by decide, by decide, by decide⟩ ?_ (by decide)
    (by decide)
  exact ⟨by decide, by decide, by decide⟩

/-- No age limit, and no bytes but the tail's. -/
def tailOnly : ResolvedTopicConfig := ⟨8, 1000, 1024, 1024, 5, 1024, 1, 500, -1, 0⟩

/-- Two segments that together stay just below the cast's limit. -/
def huge : Manifest := ⟨[sealedAt 0 0 (2 ^ 62), sealedAt 1 0 (2 ^ 62 - 1)]⟩

/-- An age limit that saturates. -/
def aged : ResolvedTopicConfig := ⟨8, 1000, 1024, 1024, 5, 1024, 1, 500, 2 ^ 62, -1⟩

/-- No age limit, and fifteen bytes. -/
def fifteen : ResolvedTopicConfig := ⟨8, 1000, 1024, 1024, 5, 1024, 1, 500, -1, 15⟩

/-- Not as the uploader writes it. -/
def unsorted : Manifest := ⟨[sealedAt 1 0 10, sealedAt 0 0 10]⟩

/-- Beyond the bounds a dropped pass shows: a total past the signed cast reads as no excess, a clock
before the epoch wraps the cutoff around, and in a manifest out of order the front is not the oldest. -/
theorem passes_matter_beyond :
    run tailOnly huge [.upload (sealedAt 2 0 (2 ^ 62)), .pass 0] ≠
        run tailOnly huge [.pass 0, .upload (sealedAt 2 0 (2 ^ 62)), .pass 0] ∧
      run aged both [.pass 0] ≠ run aged both [.pass (-2), .pass 0] ∧
      run fifteen unsorted [.upload (sealedAt 4 0 5), .pass 0] ≠
        run fifteen unsorted [.pass 0, .upload (sealedAt 4 0 5), .pass 0] := by
  refine ⟨?_, ?_, ?_⟩ <;> decide +kernel

end Sample

end Kafkrs.RetentionKicks
