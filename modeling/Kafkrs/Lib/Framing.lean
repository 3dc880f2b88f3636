import Mathlib.Data.List.Basic
import Mathlib.Data.List.Induction
import Mathlib.Tactic.Common

/-! Self-delimiting frames laid end to end. `decode` reads one frame from the front of a
buffer and says how many symbols it took; `scan` repeats it until it fails. -/
namespace Lib

variable {α β : Type}

/-- A frame codec on the values satisfying `fits`. Decoding inverts encoding whatever
follows the frame, and accepts nothing but encodings. -/
structure Framing (encode : α → List β) (decode : List β → Option (α × Nat))
    (fits : α → Prop) : Prop where
  complete : ∀ a rest, fits a → decode (encode a ++ rest) = some (a, (encode a).length)
  sound : ∀ buf a n, decode buf = some (a, n) →
    0 < n ∧ n ≤ buf.length ∧ buf.take n = encode a ∧ fits a

/-- Half of a frame codec: values that fit are read back whatever follows them, and each read
makes progress. Nothing is said of what else decodes. -/
structure Reading (encode : α → List β) (decode : List β → Option (α × Nat))
    (fits : α → Prop) : Prop where
  complete : ∀ a rest, fits a → decode (encode a ++ rest) = some (a, (encode a).length)
  progress : ∀ buf a n, decode buf = some (a, n) → 0 < n ∧ n ≤ buf.length

/-- The loop `while pos < len`: each round consumes at least one symbol, so the length of
the buffer is fuel enough. -/
def scanFrom (decode : List β → Option (α × Nat)) : Nat → List β → List α × Nat
  | 0, _ => ([], 0)
  | fuel + 1, buf =>
    if buf.isEmpty then ([], 0)
    else
      match decode buf with
      | some (a, n) =>
        let rest := scanFrom decode fuel (buf.drop n)
        (a :: rest.1, n + rest.2)
      | none => ([], 0)

def scan (decode : List β → Option (α × Nat)) (buf : List β) : List α × Nat :=
  scanFrom decode buf.length buf

/-- One test of the loop's condition and, when it passes, the body: `none` leaves the loop. The
state is what was collected and the position. -/
def round (decode : List β → Option (α × Nat)) (buf : List β) (s : List α × Nat) :
    Option (List α × Nat) :=
  if s.2 < buf.length then
    (decode (buf.drop s.2)).map (fun (a, n) => (s.1 ++ [a], s.2 + n))
  else none

/-- A loop leaves with its last state after that many rounds. -/
inductive Leaves {σ : Type} (round : σ → Option σ) : Nat → σ → σ → Prop where
  | exit {s : σ} : round s = none → Leaves round 0 s s
  | next {s t last : σ} {rounds : Nat} : round s = some t → Leaves round rounds t last →
      Leaves round (rounds + 1) s last

/-- The longest prefix of `values` whose encodings fit in `room` symbols. -/
def fitting (encode : α → List β) : Nat → List α → List α
  | _, [] => []
  | room, a :: rest =>
    if (encode a).length ≤ room then a :: fitting encode (room - (encode a).length) rest else []

theorem fitting_front (encode : α → List β) (room : Nat) (values : List α) :
    fitting encode room values <+: values := by
  induction values generalizing room with
  | nil => exact List.prefix_rfl
  | cons a rest ih =>
    simp only [fitting]
    split
    · exact (List.prefix_cons_inj a).mpr (ih _)
    · exact List.nil_prefix

/-- The fitting prefix is the longest one: exactly the prefixes up to it have room. -/
theorem fitting_longest (encode : α → List β) (room : Nat) (values : List α) :
    ∃ n ≤ values.length, fitting encode room values = values.take n ∧
      ∀ m ≤ values.length, ((values.take m).flatMap encode).length ≤ room ↔ m ≤ n := by
  induction values generalizing room with
  | nil => exact ⟨0, by simp, rfl, by simp⟩
  | cons a rest ih =>
    simp only [fitting]
    split
    next whole =>
      obtain ⟨n, bound, same, longest⟩ := ih (room - (encode a).length)
      refine ⟨n + 1, by simpa using bound, by rw [same, List.take_succ_cons], ?_⟩
      intro m within
      cases m with
      | zero => simp
      | succ m =>
        rw [List.take_succ_cons, List.flatMap_cons, List.length_append, Nat.add_le_add_iff_right,
          ← longest m (by simpa using within)]
        omega
    next torn =>
      refine ⟨0, by simp, rfl, ?_⟩
      intro m within
      cases m with
      | zero => simp
      | succ m =>
        rw [List.take_succ_cons, List.flatMap_cons, List.length_append]
        omega

variable {encode : α → List β} {decode : List β → Option (α × Nat)} {fits : α → Prop}

theorem scan_stop {buf : List β} (stuck : decode buf = none) : scan decode buf = ([], 0) := by
  unfold scan
  cases buf with
  | nil => rfl
  | cons b buf => simp [scanFrom, stuck]

@[simp] theorem scan_nil : scan decode [] = ([], 0) := rfl

namespace Reading

theorem scanFrom_fuel (reading : Reading encode decode fits) {small large : Nat} {buf : List β}
    (enough : buf.length ≤ small) (more : small ≤ large) :
    scanFrom decode small buf = scanFrom decode large buf := by
  induction small generalizing large buf with
  | zero =>
    have empty : buf = [] := List.length_eq_zero_iff.mp (by omega)
    subst empty
    cases large <;> simp [scanFrom]
  | succ small ih =>
    obtain ⟨large, rfl⟩ : ∃ k, large = k + 1 := ⟨large - 1, by omega⟩
    simp only [scanFrom]
    split
    · rfl
    · cases decoded : decode buf with
      | none => rfl
      | some result =>
        obtain ⟨a, n⟩ := result
        have progress := (reading.progress _ _ _ decoded).1
        have shorter : (buf.drop n).length ≤ small := by simp; omega
        simp only [ih shorter (by omega : small ≤ large)]

theorem scan_step (reading : Reading encode decode fits) {buf : List β} {a : α} {n : Nat}
    (decoded : decode buf = some (a, n)) :
    scan decode buf = (a :: (scan decode (buf.drop n)).1, n + (scan decode (buf.drop n)).2) := by
  obtain ⟨positive, bound⟩ := reading.progress _ _ _ decoded
  obtain ⟨fuel, length⟩ : ∃ k, buf.length = k + 1 := ⟨buf.length - 1, by omega⟩
  have nonempty : buf.isEmpty = false := by
    cases buf with
    | nil => simp at length
    | cons => rfl
  have enough : (buf.drop n).length ≤ fuel := by simp; omega
  simp only [scan, length, scanFrom, nonempty, decoded, Bool.false_eq_true, ↓reduceIte]
  rw [← reading.scanFrom_fuel (Nat.le_refl _) enough]

theorem scan_append (reading : Reading encode decode fits) {values : List α}
    (ok : ∀ a ∈ values, fits a) (rest : List β) :
    scan decode (values.flatMap encode ++ rest) =
      (values ++ (scan decode rest).1, (values.flatMap encode).length + (scan decode rest).2) := by
  induction values with
  | nil => simp
  | cons a values ih =>
    have decoded := reading.complete a (values.flatMap encode ++ rest) (ok a (by simp))
    rw [List.flatMap_cons, List.append_assoc, reading.scan_step decoded, List.drop_left,
      ih (fun b member => ok b (by simp [member]))]
    simp [Nat.add_assoc]

theorem scan_encoded (reading : Reading encode decode fits) {values : List α}
    (ok : ∀ a ∈ values, fits a) :
    scan decode (values.flatMap encode) = (values, (values.flatMap encode).length) := by
  simpa using reading.scan_append ok []

/-- A buffer cut anywhere scans to exactly the frames that are still whole, when no part of a
frame decodes. -/
theorem scan_cut (reading : Reading encode decode fits)
    (torn : ∀ a cut, fits a → cut < (encode a).length → decode ((encode a).take cut) = none)
    {values : List α} (ok : ∀ a ∈ values, fits a) (cut : Nat) :
    scan decode ((values.flatMap encode).take cut) =
      (fitting encode cut values, ((fitting encode cut values).flatMap encode).length) := by
  induction values generalizing cut with
  | nil => simp [fitting]
  | cons a values ih =>
    have fitsHead := ok a (by simp)
    have fitsTail : ∀ b ∈ values, fits b := fun b member => ok b (by simp [member])
    simp only [List.flatMap_cons, List.take_append, fitting]
    split
    next whole =>
      rw [List.take_of_length_le whole, reading.scan_step (reading.complete a _ fitsHead),
        List.drop_left, ih fitsTail]
      simp
    next part =>
      have short : cut < (encode a).length := by omega
      have none : cut - (encode a).length = 0 := by omega
      rw [none, List.take_zero, List.append_nil, scan_stop (torn a cut fitsHead short)]
      rfl

/-- A scan goes on where it stopped: what has been read stays read, whatever comes in later. -/
theorem scan_resume (reading : Reading encode decode fits)
    (stable : ∀ buf result more, decode buf = some result → decode (buf ++ more) = some result)
    (buf more : List β) :
    scan decode (buf ++ more) =
      ((scan decode buf).1 ++ (scan decode (buf.drop (scan decode buf).2 ++ more)).1,
        (scan decode buf).2 + (scan decode (buf.drop (scan decode buf).2 ++ more)).2) := by
  generalize bound : buf.length = size
  induction size using Nat.strongRecOn generalizing buf with
  | ind size ih =>
    cases decoded : decode buf with
    | none => simp [scan_stop decoded]
    | some result =>
      obtain ⟨a, n⟩ := result
      obtain ⟨positive, within⟩ := reading.progress _ _ _ decoded
      have shorter : (buf.drop n).length = size - n := by simp [bound]
      have rest := ih (size - n) (by omega) (buf.drop n) shorter
      rw [reading.scan_step (stable _ _ more decoded), reading.scan_step decoded,
        List.drop_append_of_le_length within, rest]
      simp [List.drop_drop, Nat.add_assoc]

theorem scan_within (reading : Reading encode decode fits) (buf : List β) :
    (scan decode buf).2 ≤ buf.length := by
  generalize bound : buf.length = size
  induction size using Nat.strongRecOn generalizing buf with
  | ind size ih =>
    cases decoded : decode buf with
    | none => simp [scan_stop decoded]
    | some result =>
      obtain ⟨positive, within⟩ := reading.progress _ _ _ decoded
      have rest := ih (size - result.2) (by omega) (buf.drop result.2) (by simp [bound])
      rw [reading.scan_step decoded]
      dsimp only
      omega

theorem leaves_from (reading : Reading encode decode fits) (buf : List β) (s : List α × Nat)
    (within : s.2 ≤ buf.length) :
    ∃ rounds ≤ buf.length - s.2, Leaves (round decode buf) rounds s
      (s.1 ++ (scan decode (buf.drop s.2)).1, s.2 + (scan decode (buf.drop s.2)).2) := by
  generalize left : buf.length - s.2 = room
  induction room using Nat.strongRecOn generalizing s with
  | ind room ih =>
    cases decoded : decode (buf.drop s.2) with
    | none =>
      refine ⟨0, Nat.zero_le _, ?_⟩
      rw [scan_stop decoded, List.append_nil, Nat.add_zero]
      exact .exit (by simp [round, decoded])
    | some result =>
      obtain ⟨a, n⟩ := result
      obtain ⟨positive, bound⟩ := reading.progress _ _ _ decoded
      rw [List.length_drop] at bound
      have taken : round decode buf s = some (s.1 ++ [a], s.2 + n) := by
        simp only [round, decoded, Option.map_some, ite_eq_left_iff, reduceCtorEq, imp_false,
          not_not]
        omega
      obtain ⟨rounds, few, leaves⟩ := ih (room - n) (by omega) (s.1 ++ [a], s.2 + n)
        (by dsimp only; omega) (by dsimp only; omega)
      refine ⟨rounds + 1, by omega, .next taken ?_⟩
      rw [reading.scan_step decoded, List.drop_drop]
      simpa [Nat.add_assoc] using leaves

/-- The loop leaves on every buffer, with what `scan` gives and within as many rounds as the
buffer has symbols. -/
theorem scan_leaves (reading : Reading encode decode fits) (buf : List β) :
    ∃ rounds ≤ buf.length, Leaves (round decode buf) rounds ([], 0) (scan decode buf) := by
  simpa using reading.leaves_from buf ([], 0) (Nat.zero_le _)

end Reading

structure Reader (α β : Type) where
  buffer : List β
  handed : List α
  deriving DecidableEq

def Reader.feed (decode : List β → Option (α × Nat)) (r : Reader α β) (chunk : List β) :
    Reader α β :=
  let found := scan decode (r.buffer ++ chunk)
  ⟨(r.buffer ++ chunk).drop found.2, r.handed ++ found.1⟩

/-- However its input is cut into chunks, a reader has handed on what a scan of all of it finds. -/
theorem Reader.feed_chunks (reading : Reading encode decode fits)
    (stable : ∀ buf result more, decode buf = some result → decode (buf ++ more) = some result)
    (chunks : List (List β)) :
    chunks.foldl (Reader.feed decode) ⟨[], []⟩ =
      ⟨chunks.flatten.drop (scan decode chunks.flatten).2, (scan decode chunks.flatten).1⟩ := by
  induction chunks using List.reverseRecOn with
  | nil => rfl
  | append_singleton chunks chunk ih =>
    have resumed := reading.scan_resume stable chunks.flatten chunk
    have within := reading.scan_within chunks.flatten
    rw [List.foldl_append, ih, List.flatten_append, List.flatten_singleton, resumed]
    simp only [List.foldl_cons, List.foldl_nil, Reader.feed, Reader.mk.injEq, and_true]
    rw [← List.drop_drop, List.drop_append_of_le_length within]

namespace Framing

theorem reading (framing : Framing encode decode fits) : Reading encode decode fits where
  complete := framing.complete
  progress buf a n decoded :=
    ⟨(framing.sound buf a n decoded).1, (framing.sound buf a n decoded).2.1⟩

/-- No proper prefix of a frame decodes, since frames are prefix free. -/
theorem decode_torn (framing : Framing encode decode fits) {a : α} (ok : fits a) {cut : Nat}
    (short : cut < (encode a).length) : decode ((encode a).take cut) = none := by
  cases decoded : decode ((encode a).take cut) with
  | none => rfl
  | some result =>
    obtain ⟨other, n⟩ := result
    obtain ⟨_, bound, taken, fitsOther⟩ := framing.sound _ _ _ decoded
    have within : n ≤ cut := by simp at bound; omega
    rw [List.take_take, Nat.min_eq_left within] at taken
    have split : encode other ++ (encode a).drop n = encode a := by
      rw [← taken, List.take_append_drop]
    have first := framing.complete other ((encode a).drop n) fitsOther
    have second := framing.complete a [] ok
    rw [split] at first
    rw [List.append_nil, first, Option.some.injEq, Prod.mk.injEq] at second
    have length : (encode other).length = n := by
      rw [← taken, List.length_take]; omega
    omega

/-- A buffer cut anywhere scans to exactly the frames that are still whole. -/
theorem scan_cut (framing : Framing encode decode fits) {values : List α}
    (ok : ∀ a ∈ values, fits a) (cut : Nat) :
    scan decode ((values.flatMap encode).take cut) =
      (fitting encode cut values, ((fitting encode cut values).flatMap encode).length) :=
  framing.reading.scan_cut (fun _ _ ok short => framing.decode_torn ok short) ok cut

/-- What a scan accepts is canonical: the accepted prefix is the encoding of its result. -/
theorem scan_canonical (framing : Framing encode decode fits) (buf : List β) :
    (scan decode buf).2 ≤ buf.length ∧
    buf.take (scan decode buf).2 = (scan decode buf).1.flatMap encode ∧
    ∀ a ∈ (scan decode buf).1, fits a := by
  generalize bound : buf.length = size
  induction size using Nat.strongRecOn generalizing buf with
  | ind size ih =>
    cases decoded : decode buf with
    | none => simp [scan_stop decoded]
    | some result =>
      obtain ⟨a, n⟩ := result
      obtain ⟨positive, within, front, fitsHead⟩ := framing.sound _ _ _ decoded
      have length : (buf.drop n).length = size - n := by simp [bound]
      obtain ⟨short, rest, fitsRest⟩ := ih (size - n) (by omega) (buf.drop n) length
      rw [framing.reading.scan_step decoded]
      refine ⟨by dsimp only; omega, ?_, ?_⟩
      · rw [List.take_add, front, rest]
        simp
      · simpa [fitsHead] using fitsRest

end Framing
end Lib
