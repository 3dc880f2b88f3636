import Kafkrs.FetchCoverage

/-! The answer after a long poll against the answer of a fetch that does not wait. The second
dispatch on `locate` is shorter than the first and reports read errors that the first one hides. -/
namespace Kafkrs.LongPoll

open Lib Fetcher
open FetchCoverage (alone_done alone_readManifest)

/-- How the manifest GET ends. -/
inductive ManifestGet where
  | failed
  | malformed
  | found (manifest : Manifest)

/-- The partition's objects as a fetch finds them. A segment has no records when its GET fails or
its Parquet bytes cannot be read. -/
structure View where
  manifest : ManifestGet
  segment : Int → Option (List Record)

def View.of (store : Store) : View := ⟨.found store.manifest, fun base => store.objects[base]?⟩

section Answers

variable (w : PartitionWriter) (view : View) (req : FetchRequest)

def readObjectStore : Except FetchError FetchResponse :=
  match view.manifest with
  | .failed => .error .unknownTopic
  | .malformed => .error .brokerNotReady
  | .found manifest =>
    match manifest.segmentForOffset req.fromOffset with
    | none => .error .offsetOutOfRange
    | some seg =>
      match view.segment seg.baseOffset with
      | none => .error .brokerNotReady
      | some records => .ok ⟨selected req records, manifest.lastUploadedOffset.getD (-1)⟩

/-- The match after the wait. A stopped writer answers nothing. -/
def reResolve : Except FetchError FetchResponse :=
  if w.phase = .stopped then .error .brokerNotReady
  else
    match w.locate req.fromOffset with
    | .inActiveBatch => .ok (activeRead req w)
    | .hwm h => .ok ⟨[], h⟩
    | _ => readObjectStore view req

/-- `fetch` with `max_wait_ms = 0`. -/
def fetchDirect : Except FetchError FetchResponse :=
  if req.fromOffset < 0 then .error .offsetOutOfRange
  else if w.phase = .stopped then .error .brokerNotReady
  else
    match w.locate req.fromOffset with
    | .hwm hwm => .ok ⟨[], hwm⟩
    | .inActiveBatch => .ok (activeRead req w)
    | .inFlight =>
      match readObjectStore view req with
      | .ok resp => .ok resp
      | .error _ => .ok ⟨[], -1⟩
    | .belowInFlight => readObjectStore view req

/-- The manifest is there, a segment of it covers the offset, and that segment can be read. -/
def Uploaded : Prop :=
  ∃ manifest seg records, view.manifest = .found manifest ∧
    manifest.segmentForOffset req.fromOffset = some seg ∧ view.segment seg.baseOffset = some records

end Answers

variable {w : PartitionWriter} {view : View} {req : FetchRequest}

theorem readObjectStore_uploaded (uploaded : Uploaded view req) :
    ∃ resp, readObjectStore view req = .ok resp := by
  obtain ⟨manifest, seg, records, found, covering, read⟩ := uploaded
  simp only [readObjectStore, found, covering, read]
  exact ⟨_, rfl⟩

theorem readObjectStore_missing (missing : ¬ Uploaded view req) :
    ∃ e, readObjectStore view req = .error e := by
  unfold readObjectStore
  cases found : view.manifest with
  | failed => exact ⟨_, rfl⟩
  | malformed => exact ⟨_, rfl⟩
  | found manifest =>
    cases covering : manifest.segmentForOffset req.fromOffset with
    | none => simp only [covering]; exact ⟨_, rfl⟩
    | some seg =>
      cases read : view.segment seg.baseOffset with
      | none => simp only [covering, read]; exact ⟨_, rfl⟩
      | some records => exact absurd ⟨manifest, seg, records, found, covering, read⟩ missing

/-- A fetch that waited is answered as one that did not, unless the offset is in flight and its
segment cannot be read. -/
theorem answers_agree_iff (nonnegative : 0 ≤ req.fromOffset) :
    reResolve w view req = fetchDirect w view req ↔
      (w.phase ≠ .stopped → w.locate req.fromOffset = .inFlight → Uploaded view req) := by
  have admitted : ¬ req.fromOffset < 0 := by omega
  by_cases stopped : w.phase = .stopped
  · simp [reResolve, fetchDirect, admitted, stopped]
  · simp only [reResolve, fetchDirect, admitted, stopped, ↓reduceIte, ne_eq, not_false_eq_true,
      true_implies]
    cases place : w.locate req.fromOffset with
    | hwm hwm => simp
    | inActiveBatch => simp
    | belowInFlight => simp
    | inFlight =>
      by_cases uploaded : Uploaded view req
      · obtain ⟨resp, read⟩ := readObjectStore_uploaded uploaded
        simp [read, uploaded]
      · obtain ⟨e, read⟩ := readObjectStore_missing uploaded
        simp [read, uploaded]

section Fetches

/-- What the first dispatch makes of a read of an in-flight offset. -/
def hidden (inFlight : Bool) (result : Except FetchError FetchResponse) :
    Except FetchError FetchResponse :=
  match result with
  | .ok resp => .ok resp
  | .error e => if inFlight then .ok ⟨[], -1⟩ else .error e

theorem hidden_false (result : Except FetchError FetchResponse) : hidden false result = result := by
  cases result <;> rfl

theorem alone_readObjectStore (store : Store) (n : Nat) (inFlight : Bool) :
    (alone w store (n + 2) ⟨req, .readManifest inFlight⟩).phase =
      .done (hidden inFlight (readObjectStore (.of store) req)) := by
  rw [alone_readManifest, readObjectStore]
  simp only [View.of]
  cases store.manifest.segmentForOffset req.fromOffset with
  | none => rfl
  | some seg =>
    simp only [segmentRead]
    cases store.objects[seg.baseOffset]? with
    | none => rfl
    | some records => rfl

/-- The fetcher's phases, while nothing else moves, end where the two dispatches do. -/
theorem relocate_alone (running : w.phase ≠ .stopped) (store : Store) :
    (alone w store 3 ⟨req, .relocate⟩).phase = .done (reResolve w (.of store) req) := by
  have first : alone w store 3 ⟨req, .relocate⟩ =
      alone w store 2 ⟨req, relocated (w.locate req.fromOffset)⟩ := rfl
  rw [first, reResolve, if_neg running]
  cases w.locate req.fromOffset with
  | hwm hwm => rfl
  | inActiveBatch => rfl
  | inFlight | belowInFlight =>
    exact (alone_readObjectStore store 0 false).trans (congrArg Phase.done (hidden_false _))

theorem fetchNow_direct (running : w.phase ≠ .stopped) (store : Store) :
    fetchNow w store { req with maxWaitMs := 0 } = .done (fetchDirect w (.of store) req) := by
  unfold fetchNow start fetchDirect
  by_cases negative : req.fromOffset < 0
  · rw [if_pos negative, if_pos negative]
    exact alone_done w store _ 5 _
  · have first (r : FetchRequest) : alone w store 5 ⟨r, .locate⟩ =
        alone w store 4 ⟨r, located r (w.locate r.fromOffset)⟩ := rfl
    have same : readObjectStore (.of store) { req with maxWaitMs := 0 } =
        readObjectStore (.of store) req := rfl
    rw [if_neg negative, if_neg negative, if_neg running, first]
    dsimp only
    cases w.locate req.fromOffset with
    | hwm hwm => rfl
    | inActiveBatch => rfl
    | inFlight =>
      refine (alone_readObjectStore store 2 true).trans (congrArg Phase.done ?_)
      rw [same]
      cases readObjectStore (.of store) req <;> rfl
    | belowInFlight =>
      refine (alone_readObjectStore store 2 false).trans (congrArg Phase.done ?_)
      rw [same, hidden_false]

end Fetches

section Sample

open Kafkrs.Partition RecoveredLog

/-- An in-flight segment that is already in the manifest. -/
theorem answers_agree_uploaded :
    let w : PartitionWriter := { PartitionWriter.new settings 1 [] with
      phase := .recv, inFlight := (∅ : Dir (List Record)).insert 0 [⟨0, 0, 0, [], [1]⟩] }
    let view : View := ⟨.found ⟨[⟨0, 0, 0, 0, 1, 100, segmentName 0⟩]⟩, fun _ => some [⟨0, 0, 0, [], [1]⟩]⟩
    reResolve w view ⟨0, 10, 100⟩ = fetchDirect w view ⟨0, 10, 100⟩ :=
  (answers_agree_iff (by decide)).mpr fun _ _ =>
    ⟨_, ⟨0, 0, 0, 0, 1, 100, segmentName 0⟩, _, rfl, by decide, rfl⟩

/-- A fetch that waits at the end of the log while the record it waits for is produced, sealed and
handed to the uploader. -/
def sealedWhileWaiting : List Fetcher.Action :=
  let before : List Partition.Action := [.start settings, .openWriter] ++ produceOne 1
  let meanwhile : List Partition.Action := produceOne 2 ++ handOver
  before.map .partition ++ [.begin ⟨1, 10, 100⟩, .fetch] ++ meanwhile.map .partition ++ [.fetch]

/-- The fetch has woken; from this state its own steps end in an error, and those of one that does not
wait do not. -/
theorem answers_differ_sealed : ∃ s l f,
    (Fetcher.machine externals).execute sealedWhileWaiting (Fetcher.machine externals).initial = some s ∧
      s.partition.live = some l ∧ s.fetch = some f ∧ f.phase = .relocate ∧
      l.writer.phase = .recv ∧
      reResolve l.writer (.of s.partition.disk.store) f.req = .error .offsetOutOfRange ∧
      fetchDirect l.writer (.of s.partition.disk.store) f.req = .ok ⟨[], -1⟩ ∧
      (alone l.writer s.partition.disk.store 3 f).phase = .done (.error .offsetOutOfRange) ∧
      fetchNow l.writer s.partition.disk.store { f.req with maxWaitMs := 0 } = .done (.ok ⟨[], -1⟩) := by
  have runs : ((Fetcher.machine externals).execute sealedWhileWaiting
      (Fetcher.machine externals).initial).any (fun s => s.partition.live.any (fun l =>
        s.fetch.any (fun f => decide (f.phase = .relocate ∧ l.writer.phase = .recv ∧
          reResolve l.writer (.of s.partition.disk.store) f.req = .error .offsetOutOfRange ∧
          fetchDirect l.writer (.of s.partition.disk.store) f.req = .ok ⟨[], -1⟩)))) = true := by
    decide +kernel
  obtain ⟨s, ran, facts⟩ := Option.any_eq_true _ _ |>.mp runs
  obtain ⟨l, live, facts⟩ := Option.any_eq_true _ _ |>.mp facts
  obtain ⟨f, fetching, facts⟩ := Option.any_eq_true _ _ |>.mp facts
  obtain ⟨waked, recv, resolved, direct⟩ := of_decide_eq_true facts
  have running : l.writer.phase ≠ .stopped := by simp [recv]
  have here : f = ⟨f.req, .relocate⟩ := by rw [← waked]
  refine ⟨s, l, f, ran, live, fetching, waked, recv, resolved, direct, ?_, ?_⟩
  · rw [here, relocate_alone running, resolved]
  · rw [fetchNow_direct running, direct]

end Sample

end Kafkrs.LongPoll
