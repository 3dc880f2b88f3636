import Kafkrs.Lib.Slots
import Kafkrs.Protocol

/-! Whether a connection follows the protocol. The dispatcher knows the report of a frame that did
not decode by its body alone, and so takes a client's own error frame for one. -/
namespace Kafkrs.Conformance

open Lib Kafkrs.Wire Kafkrs.Connection Kafkrs.Protocol

/-- The responses to the `i`-th frame. -/
def answersTo (responses : List (Nat × Frame)) (i : Nat) : List Frame :=
  (responses.filter fun r => r.1 = i).map Prod.snd

/-- What the protocol sees of a task. -/
structure Job where
  origin : Nat
  correlationId : UInt64
  body : Body
  /-- It has not sent its response. -/
  waiting : Bool

def job (task : Task) : Job :=
  ⟨task.origin, task.correlationId, task.body, task.phase = .running ∨ task.phase = .dropped⟩

section Ledger

/-- Every frame taken has its one response, or a job that owes it. -/
structure Ledger (received : List Inbound) (responses : List (Nat × Frame)) (jobs : List Job) : Prop where
  served : ∀ i inbound, received[i]? = some inbound →
    (∃ frame v, answersTo responses i = [frame] ∧ verdict received i = some v ∧
      Answers inbound.frame.command.correlationId frame v) ∨
    (answersTo responses i = [] ∧ ∃ job ∈ jobs, job.origin = i ∧ job.waiting = true)
  asked : ∀ job ∈ jobs, ∃ inbound, received[job.origin]? = some inbound ∧
    inbound.frame.command.correlationId = job.correlationId ∧
    stage (received.take job.origin) = .ready ∧
    verdict received job.origin = some (if isRequest job.body then .request else .invalid)
  silent : ∀ job ∈ jobs, job.waiting = true → answersTo responses job.origin = []
  apart : (jobs.map Job.origin).Nodup
  bound : ∀ r ∈ responses, r.1 < received.length

variable {received : List Inbound} {responses : List (Nat × Frame)} {jobs : List Job}
  {inbound : Inbound} {frame : Frame} {i k : Nat}

theorem answersTo_concat : answersTo (responses ++ [(k, frame)]) i =
    answersTo responses i ++ if k = i then [frame] else [] := by
  by_cases same : k = i <;> simp [answersTo, same]

theorem Ledger.empty : Ledger [] [] [] :=
  ⟨by simp, by simp, by simp, by simp, by simp⟩

theorem Ledger.unanswered (ledger : Ledger received responses jobs) :
    answersTo responses received.length = [] := by
  simp only [answersTo, List.map_eq_nil_iff, List.filter_eq_nil_iff, decide_eq_true_eq]
  intro r member same
  have := ledger.bound r member
  omega

theorem Ledger.older (ledger : Ledger received responses jobs) {job : Job} (member : job ∈ jobs) :
    job.origin < received.length := by
  obtain ⟨_, at', _⟩ := ledger.asked job member
  exact (List.getElem?_eq_some_iff.mp at').1

/-- What was asked before does not change with a further frame. -/
theorem Ledger.asked_concat (ledger : Ledger received responses jobs) {job : Job} (member : job ∈ jobs) :
    ∃ other, (received ++ [inbound])[job.origin]? = some other ∧
      other.frame.command.correlationId = job.correlationId ∧
      stage ((received ++ [inbound]).take job.origin) = .ready ∧
      verdict (received ++ [inbound]) job.origin =
        some (if isRequest job.body then .request else .invalid) := by
  have old := ledger.older member
  obtain ⟨other, at', same, ready, judged⟩ := ledger.asked job member
  refine ⟨other, by rwa [List.getElem?_append_left old], same, ?_, by rwa [verdict_concat old]⟩
  rwa [List.take_append_of_le_length (le_of_lt old)]

theorem Ledger.answer (ledger : Ledger received responses jobs)
    (answers : Answers inbound.frame.command.correlationId frame (judge (stage received) inbound).2) :
    Ledger (received ++ [inbound]) (responses ++ [(received.length, frame)]) jobs where
  served := by
    intro i other at'
    rcases Slots.append_cases at' with ⟨rfl, rfl⟩ | old
    · refine .inl ⟨frame, _, ?_, verdict_last, answers⟩
      simp [answersTo_concat, ledger.unanswered]
    · have below := (List.getElem?_eq_some_iff.mp old).1
      rw [answersTo_concat, if_neg (by omega), List.append_nil, verdict_concat below]
      exact ledger.served i other old
  asked := fun _ member => ledger.asked_concat member
  silent := by
    intro job member waiting
    have old := ledger.older member
    rw [answersTo_concat, if_neg (by omega), List.append_nil]
    exact ledger.silent job member waiting
  apart := ledger.apart
  bound := by
    intro r member
    rw [List.length_append]
    rcases List.mem_append.mp member with old | new
    · have := ledger.bound r old
      omega
    · rw [List.mem_singleton.mp new]
      simp

theorem Ledger.spawn (ledger : Ledger received responses jobs) {body : Body}
    (ready : stage received = .ready)
    (judged : (judge (stage received) inbound).2 = if isRequest body then .request else .invalid) :
    Ledger (received ++ [inbound]) responses
      (jobs ++ [⟨received.length, inbound.frame.command.correlationId, body, true⟩]) where
  served := by
    intro i other at'
    rcases Slots.append_cases at' with ⟨rfl, rfl⟩ | old
    · exact .inr ⟨ledger.unanswered, _, List.mem_append_right _ (List.mem_singleton_self _), rfl, rfl⟩
    · have below := (List.getElem?_eq_some_iff.mp old).1
      rw [verdict_concat below]
      rcases ledger.served i other old with answered | ⟨none, job, member, facts⟩
      · exact .inl answered
      · exact .inr ⟨none, job, List.mem_append_left _ member, facts⟩
  asked := by
    intro job member
    rcases List.mem_append.mp member with old | new
    · exact ledger.asked_concat old
    · rw [List.mem_singleton.mp new]
      refine ⟨inbound, by simp, rfl, by simpa using ready, ?_⟩
      rw [verdict_last, judged]
  silent := by
    intro job member waiting
    rcases List.mem_append.mp member with old | new
    · exact ledger.silent job old waiting
    · rw [List.mem_singleton.mp new]
      exact ledger.unanswered
  apart := by
    rw [List.map_append, List.nodup_append]
    refine ⟨ledger.apart, by simp, ?_⟩
    intro a old b new
    obtain ⟨job, member, rfl⟩ := List.mem_map.mp old
    have := ledger.older member
    simp only [List.map_cons, List.map_nil, List.mem_singleton] at new
    omega
  bound := by
    intro r member
    have := ledger.bound r member
    rw [List.length_append]
    omega

/-- Each frame has one slot. -/
theorem Ledger.slot (ledger : Ledger received responses jobs) {id j : Nat} {job other : Job}
    (found : jobs[id]? = some job) (there : jobs[j]? = some other) (origin : other.origin = job.origin) :
    j = id := by
  have inside : j < (jobs.map Job.origin).length := by
    simpa using (List.getElem?_eq_some_iff.mp there).1
  exact (List.getElem?_inj inside ledger.apart).mp (by simp [there, found, origin])

/-- A job that owes a response gives it. -/
theorem Ledger.respond (ledger : Ledger received responses jobs) {id : Nat} {job : Job}
    (found : jobs[id]? = some job) (waiting : job.waiting = true)
    (answers : Answers job.correlationId frame (if isRequest job.body then .request else .invalid)) :
    Ledger received (responses ++ [(job.origin, frame)]) (jobs.set id { job with waiting := false }) := by
  have member := List.mem_of_getElem? found
  obtain ⟨asker, at', same, ready, judged⟩ := ledger.asked job member
  have apart {j : Nat} {other : Job} (there : jobs[j]? = some other) (different : j ≠ id) :
      other.origin ≠ job.origin := fun origin => different (ledger.slot found there origin)
  refine ⟨?_, ?_, ?_, ?_, ?_⟩
  · intro i other there
    by_cases here : i = job.origin
    · subst here
      obtain rfl := Option.some.inj (at'.symm.trans there)
      refine .inl ⟨frame, _, ?_, judged, same ▸ answers⟩
      simp [answersTo_concat, ledger.silent job member waiting]
    · rw [answersTo_concat, if_neg (Ne.symm here), List.append_nil]
      rcases ledger.served i other there with answered | ⟨none, owed, owes, rfl, unsent⟩
      · exact .inl answered
      · obtain ⟨j, slot⟩ := List.getElem?_of_mem owes
        have different : j ≠ id := by
          rintro rfl
          obtain rfl := Option.some.inj (slot.symm.trans found)
          exact here rfl
        have stays : owed ∈ jobs.set id { job with waiting := false } :=
          List.mem_of_getElem? ((Slots.set_other different).trans slot)
        exact .inr ⟨none, owed, stays, rfl, unsent⟩
  · intro other there
    rcases List.mem_or_eq_of_mem_set there with old | rfl
    · exact ledger.asked other old
    · exact ⟨asker, at', same, ready, judged⟩
  · intro other there unsent
    obtain ⟨j, slot⟩ := List.getElem?_of_mem there
    rcases Slots.set_cases slot with ⟨_, rfl⟩ | ⟨different, old⟩
    · cases unsent
    · rw [answersTo_concat, if_neg (Ne.symm (apart old different)), List.append_nil]
      exact ledger.silent other (List.mem_of_getElem? old) unsent
  · have same : (jobs.set id { job with waiting := false }).map Job.origin = jobs.map Job.origin :=
      Slots.map_set_same found rfl
    rw [same]
    exact ledger.apart
  · intro r there
    rcases List.mem_append.mp there with old | new
    · exact ledger.bound r old
    · rw [List.mem_singleton.mp new]
      exact ledger.older member

end Ledger

section Runs

variable {identity : Identity} {s next : State} {action : Action}

/-- Whether the loop was left by a `break`. -/
def broke : Phase → Bool
  | .draining broke | .closed broke => broke
  | _ => false

/-- The connection follows the protocol: it has shaken hands and closed exactly when it should have,
only requests after the handshake have tasks, every frame has its one answer or a task that has not
come to it, which only happens for good when the connection was closed before, and the writer goes
on as long as it has an answer to write. -/
structure Conforms (s : State) : Prop where
  open' : broke s.phase = false →
    stage s.received = if s.connected then .ready else .awaitingConnect
  closes : broke s.phase = true ↔ stage s.received = .closed
  stays : s.phase = .draining false ∨ s.phase = .closed false → s.reading = false ∧ s.inbox = []
  shaken : ∀ task ∈ s.tasks, stage (s.received.take task.origin) = .ready ∧
    (verdict s.received task.origin = some .request ∨ verdict s.received task.origin = some .invalid)
  served : ∀ i inbound, s.received[i]? = some inbound →
    (∃ frame v, answersTo s.responses i = [frame] ∧ verdict s.received i = some v ∧
      Answers inbound.frame.command.correlationId frame v) ∨
    (answersTo s.responses i = [] ∧ ∃ task ∈ s.tasks, task.origin = i ∧
      (task.phase = .running ∨ task.phase = .dropped ∧ ∃ left, s.phase = .closed left))
  written : s.written < s.responses.length → s.writing = true

/-- The dispatcher takes no error frame of the client's, unless it comes first and carries the very
code it is to be answered with; no handler panics; and the writer can write what it is handed. -/
def Genuine (s : State) : Action → Prop
  | .dispatch => ∀ inbound rest resp, s.phase = .recv → s.inbox = inbound :: rest →
      inbound.decoded = true → inbound.frame.command.body = some (.error resp) →
      s.connected = false ∧ resp.code = ErrorCode.handshakeRequired.toInt32
  | .panic id => ∀ task, s.tasks[id]? = some task → task.phase ≠ .running
  | .unwritable => ¬ (s.writing = true ∧ s.written < s.responses.length)
  | _ => True

structure Valid (s : State) : Prop where
  ledger : Ledger s.received s.responses (s.tasks.map job)
  open' : broke s.phase = false →
    stage s.received = if s.connected then .ready else .awaitingConnect
  closes : broke s.phase = true → stage s.received = .closed
  stays : s.phase = .draining false ∨ s.phase = .closed false → s.reading = false ∧ s.inbox = []
  reported : ∀ inbound ∈ s.inbox, inbound.decoded = false →
    ∃ message, inbound.frame = errorFrame 0 .malformedFrame message
  aborted : ∀ task ∈ s.tasks, task.aborted = true ∨ task.phase = .dropped →
    ∃ left, s.phase = .closed left
  writing : s.writing = true

theorem Valid.conforms (valid : Valid s) : Conforms s where
  open' := valid.open'
  closes := by
    refine ⟨valid.closes, fun closed => ?_⟩
    by_contra inside
    have := valid.open' (Bool.not_eq_true _ |>.mp inside)
    rw [closed] at this
    split at this <;> cases this
  stays := valid.stays
  shaken := by
    intro task member
    obtain ⟨_, _, _, ready, judged⟩ := valid.ledger.asked (job task) (List.mem_map_of_mem member)
    refine ⟨ready, ?_⟩
    change verdict s.received task.origin = _ at judged
    split at judged
    · exact .inl judged
    · exact .inr judged
  served := by
    intro i inbound there
    rcases valid.ledger.served i inbound there with answered | ⟨none, owed, owes, rfl, unsent⟩
    · exact .inl answered
    · obtain ⟨task, member, rfl⟩ := List.mem_map.mp owes
      refine .inr ⟨none, task, member, rfl, ?_⟩
      rcases of_decide_eq_true unsent with running | dropped
      · exact .inl running
      · exact .inr ⟨dropped, valid.aborted task member (.inr dropped)⟩
  written := fun _ => valid.writing

theorem Valid.hand (valid : Valid s) (origin : Nat) (frame : Frame) :
    s.hand origin frame = s.responses ++ [(origin, frame)] := by
  rw [State.hand, valid.writing, if_pos rfl]

theorem Valid.initial : Valid fresh :=
  ⟨Ledger.empty, fun _ => rfl, by simp [fresh, broke], by simp [fresh], by simp [fresh], by simp [fresh], rfl⟩

/-- No task is aborted before the connection is closed. -/
theorem Valid.none_aborted (valid : Valid s) (inside : ∀ left, s.phase ≠ .closed left) :
    ∀ task ∈ s.tasks, ¬ (task.aborted = true ∨ task.phase = .dropped) := by
  intro task member gone
  obtain ⟨left, closed⟩ := valid.aborted task member gone
  exact inside left closed

/-- Answering a frame at once, with the handshake as the verdict leaves it. -/
theorem Valid.answered (valid : Valid s) {inbound : Inbound} {rest : List Inbound} {frame : Frame}
    {connected : Bool} {phase : Phase} (recv : s.phase = .recv) (taken : s.inbox = inbound :: rest)
    (answers : Answers inbound.frame.command.correlationId frame (judge (stage s.received) inbound).2)
    (goes : phase = .recv ∧ (judge (stage s.received) inbound).1 =
          (if connected then .ready else .awaitingConnect) ∨
        phase = .draining true ∧ (judge (stage s.received) inbound).1 = .closed) :
    Valid { s with
      inbox := rest, connected := connected, phase := phase
      received := s.received ++ [inbound], responses := s.hand s.received.length frame } := by
  rw [valid.hand]
  have quiet := valid.none_aborted (by simp [recv])
  have rest' : ∀ other ∈ rest, other ∈ s.inbox := by
    intro other member
    rw [taken]
    exact List.mem_cons_of_mem _ member
  rcases goes with ⟨rfl, judged⟩ | ⟨rfl, judged⟩
  all_goals
    refine ⟨valid.ledger.answer answers, ?_, ?_, by simp,
      fun other member => valid.reported other (rest' other member),
      fun task member gone => absurd gone (quiet task member), valid.writing⟩
  · intro _
    rw [stage_concat]
    exact judged
  · simp [broke]
  · simp [broke]
  · intro _
    rw [stage_concat]
    exact judged

/-- One error response, after which the loop is left. -/
theorem Valid.refused (valid : Valid s) {inbound : Inbound} {rest : List Inbound} {frame : Frame}
    {code : ErrorCode} {message : String} (recv : s.phase = .recv) (taken : s.inbox = inbound :: rest)
    (judged : judge (stage s.received) inbound = (.closed, .refused code))
    (command : frame.command = makeError inbound.frame.command.correlationId code message) :
    Valid { State.answer { s with inbox := rest } inbound frame with phase := .draining true } := by
  refine valid.answered recv taken ?_ (.inr ⟨rfl, congrArg Prod.fst judged⟩)
  rw [judged]
  exact ⟨message, command⟩

theorem Valid.spawned (valid : Valid s) {inbound : Inbound} {rest : List Inbound} {body : Body}
    (recv : s.phase = .recv) (taken : s.inbox = inbound :: rest) (connected : s.connected = true)
    (judged : judge (stage s.received) inbound =
      (.ready, if isRequest body then .request else .invalid)) :
    Valid (State.spawn { s with inbox := rest } inbound body) := by
  have ready : stage s.received = .ready := by
    rw [valid.open' (by simp [recv, broke]), connected]
    rfl
  refine ⟨?_, ?_, by simp [State.spawn, broke], by simp [State.spawn], ?_, ?_, valid.writing⟩
  · have ledger := valid.ledger.spawn ready (congrArg Prod.snd judged)
    simpa [State.spawn, job] using ledger
  · intro _
    simp only [State.spawn, stage_concat, judged, connected, if_true]
  · intro other member
    apply valid.reported other
    rw [taken]
    exact List.mem_cons_of_mem _ member
  · intro task member gone
    rcases List.mem_append.mp member with old | new
    · exact absurd gone (valid.none_aborted (by simp [recv]) task old)
    · rw [List.mem_singleton.mp new] at gone
      simp at gone

/-- A turn of the loop, when an error frame it takes is one of the reader's reports or happens to
be its own answer. -/
theorem Valid.receive (valid : Valid s) {inbound : Inbound} {rest : List Inbound}
    (recv : s.phase = .recv) (taken : s.inbox = inbound :: rest)
    (genuine : ∀ resp, inbound.decoded = true → inbound.frame.command.body = some (.error resp) →
      s.connected = false ∧ resp.code = ErrorCode.handshakeRequired.toInt32) :
    Valid (Connection.receive identity { s with inbox := rest } inbound) := by
  have here := valid.open' (by simp [recv, broke])
  have reported := valid.reported inbound (by simp [taken])
  cases decoded : inbound.decoded with
  | false =>
    obtain ⟨message, report⟩ := reported decoded
    have open' : stage s.received ≠ .closed := by
      rw [here]
      split <;> simp
    have judged : judge (stage s.received) inbound = (.closed, .refused .malformedFrame) := by
      simp [judge, open', decoded]
    have body : inbound.frame.command.body = some (.error ⟨ErrorCode.malformedFrame.toInt32, message⟩) := by
      rw [report]
      rfl
    simp only [Connection.receive, body]
    exact valid.refused recv taken judged (by rw [report]; rfl)
  | true =>
    cases body : inbound.frame.command.body with
    | none =>
      simp only [Connection.receive, body]
      by_cases connected : s.connected = true
      · have judged : judge (stage s.received) inbound = (.ready, .invalid) := by
          simp [judge, here, connected, decoded, body]
        rw [if_pos connected]
        refine valid.answered recv taken ?_ (.inl ⟨recv, ?_⟩)
        · rw [judged]
          exact ⟨_, rfl⟩
        · rw [judged, connected]
          rfl
      · have judged : judge (stage s.received) inbound = (.closed, .refused .handshakeRequired) := by
          simp [judge, here, connected, decoded, body]
        rw [if_neg connected]
        exact valid.refused recv taken judged rfl
    | some asked =>
      cases asked with
      | error resp =>
        obtain ⟨unconnected, code⟩ := genuine resp decoded body
        have judged : judge (stage s.received) inbound = (.closed, .refused .handshakeRequired) := by
          simp [judge, here, unconnected, decoded, body]
        simp only [Connection.receive, body]
        have command : inbound.frame.command = makeError inbound.frame.command.correlationId
            .handshakeRequired resp.message := by rw [makeError, ← code, ← body]
        exact valid.refused recv taken judged command
      | connect req =>
        simp only [Connection.receive, body]
        by_cases connected : s.connected = true
        · have judged : judge (stage s.received) inbound = (.closed, .refused .alreadyConnected) := by
            simp [judge, here, connected, decoded, body]
          rw [if_pos connected]
          exact valid.refused recv taken judged rfl
        · rw [if_neg connected]
          by_cases version : req.protocolVersion = protocolVersion
          · have judged : judge (stage s.received) inbound = (.ready, .connected) := by
              simp [judge, here, connected, decoded, body, version]
            rw [if_neg (not_not_intro version)]
            refine valid.answered recv taken ?_ (.inl ⟨recv, ?_⟩)
            · rw [judged]
              exact ⟨_, rfl⟩
            · rw [judged]
              rfl
          · have judged : judge (stage s.received) inbound =
                (.closed, .refused .unsupportedProtocolVersion) := by
              simp [judge, here, connected, decoded, body, version]
            rw [if_pos version]
            exact valid.refused recv taken judged rfl
      | _ =>
        simp only [Connection.receive, body]
        by_cases connected : s.connected = true
        · rw [if_pos connected]
          refine valid.spawned recv taken connected ?_
          simp [judge, here, connected, decoded, body, isRequest]
        · have judged : judge (stage s.received) inbound = (.closed, .refused .handshakeRequired) := by
            simp [judge, here, connected, decoded, body]
          rw [if_neg connected]
          exact valid.refused recv taken judged rfl

/-- A step that takes no frame and sends no response. -/
theorem Valid.kept (valid : Valid s) (received : next.received = s.received)
    (responses : next.responses = s.responses) (jobs : next.tasks.map job = s.tasks.map job)
    (connected : next.connected = s.connected) (same : broke next.phase = broke s.phase)
    (stays : next.phase = .draining false ∨ next.phase = .closed false →
      next.reading = false ∧ next.inbox = [])
    (reported : ∀ inbound ∈ next.inbox, inbound.decoded = false →
      ∃ message, inbound.frame = errorFrame 0 .malformedFrame message)
    (aborted : ∀ task ∈ next.tasks, task.aborted = true ∨ task.phase = .dropped →
      ∃ left, next.phase = .closed left) (writing : next.writing = s.writing) : Valid next where
  ledger := by
    rw [received, responses, jobs]
    exact valid.ledger
  open' := by
    rw [same, received, connected]
    exact valid.open'
  closes := by
    rw [same, received]
    exact valid.closes
  stays := stays
  reported := reported
  aborted := aborted
  writing := writing.trans valid.writing

theorem Valid.read (valid : Valid s) (reading : s.reading = true) {more : List Inbound} {on : Bool}
    (reports : ∀ inbound ∈ more, inbound.decoded = false →
      ∃ message, inbound.frame = errorFrame 0 .malformedFrame message) :
    Valid { s with inbox := s.inbox ++ more, reading := on } := by
  refine valid.kept rfl rfl rfl rfl rfl ?_ ?_ valid.aborted rfl
  · intro left
    have gone := (valid.stays left).1
    rw [reading] at gone
    cases gone
  · intro inbound member
    rcases List.mem_append.mp member with old | new
    · exact valid.reported inbound old
    · exact reports inbound new

/-- The tasks of the map are aborted. -/
theorem Valid.drain (valid : Valid s) {left : Bool} (draining : s.phase = .draining left) :
    Valid { s with
      tasks := s.tasks.mapIdx fun id task =>
        { task with aborted := task.aborted || s.inflight.any (·.2 = id) }
      inflight := []
      phase := .closed left } := by
  refine valid.kept rfl rfl ?_ rfl (by simp [draining, broke]) ?_ valid.reported ?_ rfl
  · apply List.ext_getElem?
    intro i
    rw [List.getElem?_map, List.getElem?_map, List.getElem?_mapIdx]
    cases s.tasks[i]? <;> rfl
  · rintro (other | closed)
    · cases other
    · obtain rfl := Phase.closed.inj closed
      exact valid.stays (.inl draining)
  · intro _ _ _
    exact ⟨left, rfl⟩

theorem Valid.respond (valid : Valid s) {id : Nat} {task : Task} {handled : Handled} {frame : Frame}
    (found : s.tasks[id]? = some task) (running : task.phase = .running)
    (answered : dispatchOne task.correlationId task.body handled = some frame) :
    Valid { s with
      tasks := s.tasks.set id { task with phase := .replied }
      responses := s.hand task.origin frame } := by
  rw [valid.hand]
  have slot : (s.tasks.map job)[id]? = some (job task) := Slots.map_found found
  have ledger := valid.ledger.respond slot (by simp [job, running]) (dispatchOne_answers answered)
  have replied : (s.tasks.set id { task with phase := .replied }).map job =
      (s.tasks.map job).set id { job task with waiting := false } := by
    rw [List.map_set]
    simp [job]
  refine ⟨replied ▸ ledger, valid.open', valid.closes, valid.stays, valid.reported, ?_,
    valid.writing⟩
  intro other member aborted
  rcases List.mem_or_eq_of_mem_set member with old | rfl
  · exact valid.aborted other old aborted
  · exact valid.aborted task (List.mem_of_getElem? found) (.inl (by simpa using aborted))

/-- Nothing keeps a running task from answering. -/
theorem respond_enabled (identity : Identity) {id : Nat} {task : Task}
    (found : s.tasks[id]? = some task) (running : task.phase = .running) :
    ∃ handled frame, (machine identity).step (.respond id handled) s = some { s with
      tasks := s.tasks.set id { task with phase := .replied }
      responses := s.hand task.origin frame } := by
  obtain ⟨handled, frame, answered⟩ := dispatchOne_total task.correlationId task.body
  refine ⟨handled, frame, ?_⟩
  simp only [machine, Connection.step, found, Option.bind_some, running, if_true, answered, Option.map_some]

/-- A task that goes on without a response. -/
theorem Valid.move (valid : Valid s) {id : Nat} {task after : Task} {inflight : List (UInt64 × Nat)}
    (found : s.tasks[id]? = some task) (same : job after = job task)
    (aborted : after.aborted = true ∨ after.phase = .dropped →
      task.aborted = true ∨ task.phase = .dropped) :
    Valid { s with tasks := s.tasks.set id after, inflight := inflight } := by
  refine valid.kept rfl rfl (Slots.map_set_same found same) rfl rfl valid.stays valid.reported ?_ rfl
  intro other member gone
  rcases List.mem_or_eq_of_mem_set member with old | rfl
  · exact valid.aborted other old gone
  · exact valid.aborted task (List.mem_of_getElem? found) (aborted gone)

theorem Valid.step (valid : Valid s) (genuine : Genuine s action)
    (taken : Connection.step identity action s = some next) : Valid next := by
  cases step_moved taken with
  | @deliver frame reading =>
    have read := @Valid.read s valid reading [⟨frame, true⟩] s.reading (by simp)
    exact read
  | malformed reading => exact valid.read reading (by simp)
  | hangUp reading =>
    have read := @Valid.read s valid reading [] false (by simp)
    simpa using read
  | receive recv first => exact valid.receive recv first fun resp => genuine _ _ resp recv first
  | leave recv empty gone =>
    refine valid.kept rfl rfl rfl rfl (by simp [recv, broke]) (fun _ => ⟨gone, empty⟩) valid.reported ?_ rfl
    intro task member aborted
    exact absurd aborted (valid.none_aborted (by simp [recv]) task member)
  | insert inserting =>
    refine valid.kept rfl rfl rfl rfl (by simp [inserting, broke]) (by simp) valid.reported ?_ rfl
    intro task member aborted
    exact absurd aborted (valid.none_aborted (by simp [inserting]) task member)
  | drain draining => exact valid.drain draining
  | respond found running answered => exact valid.respond found running answered
  | retire found replied => exact valid.move found (by simp [job, replied]) (by simp +contextual)
  | drop found running aborted => exact valid.move found (by simp [job, running]) fun _ => .inl aborted
  | panic found running => exact absurd running (genuine _ found)
  | write => exact valid.kept rfl rfl rfl rfl rfl valid.stays valid.reported valid.aborted rfl
  | unwritable writing more => exact absurd ⟨writing, more⟩ genuine

theorem reached_valid (reached : (machine identity).Reaches Genuine s) : Valid s :=
  reached.invariant Valid.initial fun _ _ _ valid genuine taken => valid.step genuine taken

/-- All running tasks can come to their responses, one after the other. -/
theorem tasks_complete (reached : (machine identity).Reaches Genuine s) :
    ∃ next, (machine identity).Leads s next ∧ (machine identity).Reaches Genuine next ∧
      next.phase = s.phase ∧ next.received = s.received ∧ ∀ task ∈ next.tasks, task.phase ≠ .running := by
  have upTo (k : Nat) : ∃ next, (machine identity).Leads s next ∧
      (machine identity).Reaches Genuine next ∧ next.phase = s.phase ∧ next.received = s.received ∧
      next.tasks.length = s.tasks.length ∧
      ∀ i < k, ∀ task, next.tasks[i]? = some task → task.phase ≠ .running := by
    induction k with
    | zero => exact ⟨s, .refl s, reached, rfl, rfl, rfl, by simp⟩
    | succ k ih =>
      obtain ⟨middle, leads, reached, phase, received, length, complete⟩ := ih
      by_cases running : ∃ task, middle.tasks[k]? = some task ∧ task.phase = .running
      · obtain ⟨task, found, busy⟩ := running
        obtain ⟨handled, frame, taken⟩ := respond_enabled identity found busy
        have answering : Genuine middle (.respond k handled) := trivial
        refine ⟨_, leads.trans (.step _ taken), reached.next answering taken, phase, received,
          List.length_set.trans length, ?_⟩
        intro i below other there
        rcases Slots.set_cases there with ⟨_, rfl⟩ | ⟨different, old⟩
        · simp
        · exact complete i (by omega) other old
      · refine ⟨middle, leads, reached, phase, received, length, fun i below other there busy => ?_⟩
        by_cases last : i = k
        · subst last
          exact running ⟨other, there, busy⟩
        · exact complete i (by omega) other there busy
  obtain ⟨next, leads, reached, phase, received, length, complete⟩ := upTo s.tasks.length
  refine ⟨next, leads, reached, phase, received, fun task member => ?_⟩
  obtain ⟨i, there⟩ := List.getElem?_of_mem member
  have below := (List.getElem?_eq_some_iff.mp there).1
  exact complete i (by omega) task there

/-- The writer can write all that it has been handed. -/
theorem writes_complete (identity : Identity) (writing : s.writing = true) :
    ∃ next, (machine identity).Leads s next ∧ next.responses = s.responses ∧
      next.responses.length ≤ next.written := by
  generalize left : s.responses.length - s.written = k
  induction k generalizing s with
  | zero => exact ⟨s, .refl s, rfl, by omega⟩
  | succ k ih =>
    have taken : (machine identity).step .write s = some { s with written := s.written + 1 } :=
      if_pos ⟨writing, by omega⟩
    obtain ⟨next, leads, same, all⟩ :=
      ih (s := { s with written := s.written + 1 }) writing (by simp only; omega)
    exact ⟨next, (Machine.Leads.step _ taken).trans leads, same, all⟩

/-- As long as the connection is open, every frame taken can still get its one response, and that be
written. -/
theorem answers_all (reached : (machine identity).Reaches Genuine s)
    (inside : ∀ left, s.phase ≠ .closed left) :
    ∃ next, (machine identity).Leads s next ∧ next.responses.length ≤ next.written ∧
      ∀ i inbound, s.received[i]? = some inbound →
        ∃ frame v, answersTo next.responses i = [frame] ∧ verdict s.received i = some v ∧
          Answers inbound.frame.command.correlationId frame v := by
  obtain ⟨middle, leads, reached, phase, received, complete⟩ := tasks_complete reached
  obtain ⟨next, writes, responses, all⟩ :=
    writes_complete identity (reached_valid reached).writing
  refine ⟨next, leads.trans writes, all, fun i inbound there => ?_⟩
  rw [← received] at there ⊢
  rw [responses]
  rcases (reached_valid reached).conforms.served i inbound there with
    answered | ⟨_, task, member, _, running | ⟨_, left, closed⟩⟩
  · exact answered
  · exact absurd running (complete task member)
  · exact absurd (phase.symm.trans closed) (inside left)

/-- A client's error frame closes the connection and comes back to it as its own answer. -/
theorem spoofed_nonconforming (valid : Valid s) (spoofed : ¬ Genuine s .dispatch)
    (taken : Connection.dispatch identity s = some next) : ¬ Conforms next := by
  simp only [Genuine, not_forall] at spoofed
  obtain ⟨inbound, rest, resp, recv, shape, decoded, body, wrong⟩ := spoofed
  have here := valid.open' (by simp [recv, broke])
  simp only [Connection.dispatch, recv, shape, Connection.receive, body] at taken
  obtain rfl := Option.some.inj taken
  intro conforms
  have closed := conforms.closes.mp rfl
  simp only [State.answer, stage_concat] at closed
  by_cases connected : s.connected = true
  · simp [judge, here, connected, decoded, body] at closed
  · have judged : (judge (stage s.received) inbound).2 = .refused .handshakeRequired := by
      simp [judge, here, connected, decoded, body]
    have there : (s.received ++ [inbound])[s.received.length]? = some inbound := by simp
    rcases conforms.served s.received.length inbound there with
      ⟨frame, v, answered, right, answers⟩ | ⟨none, _⟩
    · simp only [State.answer, State.hand, valid.writing, answersTo_concat, valid.ledger.unanswered,
        if_true, List.nil_append, List.cons.injEq, and_true] at answered
      subst answered
      simp only [State.answer, verdict_last, judged, Option.some.injEq] at right
      subst right
      obtain ⟨message, command⟩ := answers
      have bodies := congrArg Command.body command
      rw [body] at bodies
      simp only [makeError, Option.some.injEq, Body.error.injEq] at bodies
      exact wrong ⟨Bool.not_eq_true _ |>.mp connected, by rw [bodies]⟩
    · simp [State.answer, State.hand, valid.writing, answersTo_concat] at none

/-- The frame of a task that panics is never answered. -/
theorem panicked_nonconforming (valid : Valid s) {id : Nat} (panics : ¬ Genuine s (.panic id))
    (taken : Connection.step identity (.panic id) s = some next) : ¬ Conforms next := by
  simp only [Genuine, not_forall, not_not] at panics
  obtain ⟨task, found, running⟩ := panics
  simp only [Connection.step, found, Option.bind_some, running, if_true] at taken
  rw [← Option.some.inj taken]
  have slot : (s.tasks.map job)[id]? = some (job task) := Slots.map_found found
  have member := List.mem_of_getElem? slot
  have none : answersTo s.responses task.origin = [] :=
    valid.ledger.silent (job task) member (by simp [job, running])
  obtain ⟨inbound, there, _⟩ := valid.ledger.asked (job task) member
  intro conforms
  rcases conforms.served task.origin inbound there with
    ⟨frame, _, answered, _⟩ | ⟨_, other, owes, origin, pending⟩
  · rw [none] at answered
    cases answered
  · obtain ⟨j, at'⟩ := List.getElem?_of_mem owes
    rcases Slots.set_cases at' with ⟨_, rfl⟩ | ⟨different, old⟩
    · simp at pending
    · have mapped : (s.tasks.map job)[j]? = some (job other) := Slots.map_found old
      exact different (valid.ledger.slot slot mapped origin)

theorem nonconforming (valid : Valid s) (fails : ¬ Genuine s action)
    (taken : Connection.step identity action s = some next) : ¬ Conforms next := by
  cases action with
  | dispatch => exact spoofed_nonconforming valid fails taken
  | panic => exact panicked_nonconforming valid fails taken
  | unwritable =>
    have ready := not_not.mp fails
    simp only [Connection.step, ready, and_self, if_true] at taken
    rw [← Option.some.inj taken]
    intro conforms
    cases conforms.written ready.2
  | _ => exact absurd trivial fails

end Runs

section Samples

def hello : Frame := ⟨⟨1, some (.connect ⟨1, "client", []⟩)⟩, []⟩

def spoof : Frame := errorFrame 7 .internal "oops"

def spoofedRun : List Action := [.deliver hello, .dispatch, .deliver spoof, .dispatch]

end Samples

end Kafkrs.Conformance
