import Kafkrs.Lib.Machine
import Kafkrs.Wire

/-! One connection: the reader, the dispatcher, the tasks it spawns, one for each request, and the
writer of their responses. The channels are unbounded here; the source's bounds only make a sender
wait. -/
namespace Kafkrs.Connection

open Lib Kafkrs.Wire

def protocolVersion : UInt32 := 1

structure Identity where
  brokerId : String
  clusterId : String

abbrev Failure := ErrorCode × String

/-- What the rest of the broker makes of a request. -/
inductive Handled where
  | ping
  | produce (result : Except Failure Wire.ProduceResponse)
  | fetch (result : Except FetchError Kafkrs.FetchResponse)
  | createTopic (result : Except Failure Unit)
  | describeTopic (result : Except Failure DescribeTopicResponse)
  | listTopics (result : Except Failure (List String))
  | deleteTopic (result : Except Failure Unit)
  | alterTopicConfig (result : Except Failure (Option Wire.TopicConfigOverrides))
  | metadata (result : Except Failure MetadataResponse)
  | invalid

section Handlers

variable (correlationId : UInt64)

def errorFrame (code : ErrorCode) (message : String) : Frame := ⟨makeError correlationId code message, []⟩

def handleConnected (identity : Identity) : Frame :=
  ⟨⟨correlationId, some (.connected ⟨protocolVersion, identity.brokerId, identity.clusterId⟩)⟩, []⟩

def handlePing : Frame := ⟨⟨correlationId, some .pong⟩, []⟩

def reply : Except Failure Body → Frame
  | .error failure => errorFrame correlationId failure.1 failure.2
  | .ok body => ⟨⟨correlationId, some body⟩, []⟩

/-- `none` when it is what another request comes to request. -/
def dispatchOne : Body → Handled → Option Frame
  | .ping, .ping => some (handlePing correlationId)
  | .produce _, .produce result => some (reply correlationId (result.map .produceResp))
  | .fetch _, .fetch result => some (handleFetch correlationId result)
  | .createTopic _, .createTopic result =>
    some (reply correlationId (result.map fun _ => .createTopicResp))
  | .describeTopic _, .describeTopic result =>
    some (reply correlationId (result.map .describeTopicResp))
  | .listTopics, .listTopics result => some (reply correlationId (result.map .listTopicsResp))
  | .deleteTopic _, .deleteTopic result =>
    some (reply correlationId (result.map fun _ => .deleteTopicResp))
  | .alterTopicConfig _, .alterTopicConfig result =>
    some (reply correlationId (result.map .alterTopicConfigResp))
  | .metadata _, .metadata result => some (reply correlationId (result.map .metadataResp))
  | .connect _, .invalid | .connected _, .invalid | .pong, .invalid | .produceResp _, .invalid
  | .fetchResp _, .invalid | .createTopicResp, .invalid | .describeTopicResp _, .invalid
  | .listTopicsResp _, .invalid | .deleteTopicResp, .invalid | .alterTopicConfigResp _, .invalid
  | .metadataResp _, .invalid | .error _, .invalid =>
    some (errorFrame correlationId .invalidCommand "this command is not valid as a request")
  | _, _ => none

end Handlers

/-- What the reader hands on. A frame that did not decode arrives as an error of the reader's own;
`decoded` tells them apart, but not for the dispatcher. -/
structure Inbound where
  frame : Frame
  decoded : Bool

inductive TaskPhase where
  | running
  /-- The response is sent, the entry in the in-flight map not yet removed. -/
  | replied
  | finished
  /-- Aborted at an await before it had sent its response. -/
  | dropped
  /-- Its handler panicked, as a create does whose partition cannot be recovered. -/
  | panicked
  deriving DecidableEq, Repr

/-- A spawned task; `origin` is the place of its frame among those received. -/
structure Task where
  origin : Nat
  correlationId : UInt64
  body : Body
  phase : TaskPhase
  aborted : Bool

inductive Phase where
  | recv
  /-- A task is spawned, its abort handle not yet in the map. -/
  | insert (id : Nat)
  /-- The loop is left, by a `break` or because the reader has gone. -/
  | draining (broke : Bool)
  | closed (broke : Bool)
  deriving DecidableEq, Repr

/-- Tasks are named by their place in the list. `responses` are those handed to the writer, of which
it has written the first `written`; `received` and the tags of `responses` are kept only to speak
about them. -/
structure State where
  reading : Bool
  writing : Bool
  inbox : List Inbound
  connected : Bool
  phase : Phase
  inflight : List (UInt64 × Nat)
  tasks : List Task
  received : List Inbound
  responses : List (Nat × Frame)
  written : Nat

inductive Action where
  | deliver (frame : Frame)
  /-- `decode_frame_body` fails; the reader reports it and stops. -/
  | malformed (message : String)
  /-- The peer closes, or its framing is broken. -/
  | hangUp
  | dispatch
  | respond (id : Nat) (handled : Handled)
  | retire (id : Nat)
  /-- An aborted task reaches an await. -/
  | drop (id : Nat)
  | panic (id : Nat)
  | write
  /-- The writer cannot encode or send the next response, and stops. -/
  | unwritable

def fresh : State := ⟨true, true, [], false, .recv, [], [], [], [], 0⟩

namespace State

/-- What is handed to a writer that has stopped is lost. -/
def hand (s : State) (origin : Nat) (frame : Frame) : List (Nat × Frame) :=
  if s.writing then s.responses ++ [(origin, frame)] else s.responses

def answer (s : State) (inbound : Inbound) (frame : Frame) : State :=
  { s with
    received := s.received ++ [inbound]
    responses := s.hand s.received.length frame }

def spawn (s : State) (inbound : Inbound) (body : Body) : State :=
  { s with
    received := s.received ++ [inbound]
    tasks := s.tasks ++ [⟨s.received.length, inbound.frame.command.correlationId, body, .running, false⟩]
    phase := .insert s.tasks.length }

end State

def receive (identity : Identity) (s : State) (inbound : Inbound) : State :=
  let cid := inbound.frame.command.correlationId
  match inbound.frame.command.body with
  -- the sentinel of the reader is known by its body alone
  | some (.error _) => { s.answer inbound inbound.frame with phase := .draining true }
  | some (.connect req) =>
    if s.connected then
      { s.answer inbound (errorFrame cid .alreadyConnected "") with phase := .draining true }
    else if req.protocolVersion ≠ protocolVersion then
      { s.answer inbound (errorFrame cid .unsupportedProtocolVersion
          ("server speaks protocol_version=" ++ toString protocolVersion ++ "; client requested " ++
            toString req.protocolVersion)) with phase := .draining true }
    else { s.answer inbound (handleConnected cid identity) with connected := true }
  | some body =>
    if s.connected then s.spawn inbound body
    else
      { s.answer inbound (errorFrame cid .handshakeRequired "first frame must be Connect") with
        phase := .draining true }
  | none =>
    if s.connected then s.answer inbound (errorFrame cid .invalidCommand "command body absent")
    else
      { s.answer inbound (errorFrame cid .handshakeRequired "first frame must be Connect") with
        phase := .draining true }

/-- The loop, then the abort of every task whose handle is in the map. -/
def dispatch (identity : Identity) (s : State) : Option State :=
  match s.phase with
  | .recv =>
    match s.inbox with
    | inbound :: rest => some (receive identity { s with inbox := rest } inbound)
    | [] => if s.reading then none else some { s with phase := .draining false }
  | .insert id =>
    match s.tasks[id]? with
    | some task =>
      some { s with
        inflight := (task.correlationId, id) :: s.inflight.filter (·.1 ≠ task.correlationId)
        phase := .recv }
    | none => none
  | .draining broke =>
    some { s with
      tasks := s.tasks.mapIdx fun id task =>
        { task with aborted := task.aborted || s.inflight.any (·.2 = id) }
      inflight := []
      phase := .closed broke }
  | .closed _ => none

def step (identity : Identity) (action : Action) (s : State) : Option State :=
  match action with
  | .deliver frame =>
    if s.reading then some { s with inbox := s.inbox ++ [⟨frame, true⟩] } else none
  | .malformed message =>
    if s.reading then
      some { s with
        inbox := s.inbox ++ [⟨errorFrame 0 .malformedFrame message, false⟩]
        reading := false }
    else none
  | .hangUp => if s.reading then some { s with reading := false } else none
  | .dispatch => dispatch identity s
  | .respond id handled =>
    s.tasks[id]?.bind fun task =>
      if task.phase = .running then
        (dispatchOne task.correlationId task.body handled).map fun frame =>
          { s with
            tasks := s.tasks.set id { task with phase := .replied }
            responses := s.hand task.origin frame }
      else none
  | .retire id =>
    s.tasks[id]?.bind fun task =>
      if task.phase = .replied then
        some { s with
          tasks := s.tasks.set id { task with phase := .finished }
          inflight := s.inflight.filter (·.1 ≠ task.correlationId) }
      else none
  | .drop id =>
    s.tasks[id]?.bind fun task =>
      if task.phase = .running ∧ task.aborted then
        some { s with tasks := s.tasks.set id { task with phase := .dropped } }
      else none
  | .panic id =>
    s.tasks[id]?.bind fun task =>
      if task.phase = .running then
        some { s with tasks := s.tasks.set id { task with phase := .panicked } }
      else none
  | .write =>
    if s.writing ∧ s.written < s.responses.length then some { s with written := s.written + 1 }
    else none
  | .unwritable =>
    if s.writing ∧ s.written < s.responses.length then some { s with writing := false } else none

/-- What can happen on a connection in one step, with what the step needed. -/
inductive Moved (identity : Identity) (s : State) : Action → State → Prop
  | deliver {frame : Frame} (reading : s.reading = true) :
      Moved identity s (.deliver frame) { s with inbox := s.inbox ++ [⟨frame, true⟩] }
  | malformed {message : String} (reading : s.reading = true) :
      Moved identity s (.malformed message) { s with
        inbox := s.inbox ++ [⟨errorFrame 0 .malformedFrame message, false⟩]
        reading := false }
  | hangUp (reading : s.reading = true) : Moved identity s .hangUp { s with reading := false }
  | receive {inbound : Inbound} {rest : List Inbound} (recv : s.phase = .recv)
      (first : s.inbox = inbound :: rest) :
      Moved identity s .dispatch (receive identity { s with inbox := rest } inbound)
  | leave (recv : s.phase = .recv) (empty : s.inbox = []) (gone : s.reading = false) :
      Moved identity s .dispatch { s with phase := .draining false }
  | insert {id : Nat} {task : Task} (inserting : s.phase = .insert id)
      (found : s.tasks[id]? = some task) :
      Moved identity s .dispatch { s with
        inflight := (task.correlationId, id) :: s.inflight.filter (·.1 ≠ task.correlationId)
        phase := .recv }
  | drain {broke : Bool} (draining : s.phase = .draining broke) :
      Moved identity s .dispatch { s with
        tasks := s.tasks.mapIdx fun id task =>
          { task with aborted := task.aborted || s.inflight.any (·.2 = id) }
        inflight := []
        phase := .closed broke }
  | respond {id : Nat} {handled : Handled} {task : Task} {frame : Frame}
      (found : s.tasks[id]? = some task) (running : task.phase = .running)
      (answered : dispatchOne task.correlationId task.body handled = some frame) :
      Moved identity s (.respond id handled) { s with
        tasks := s.tasks.set id { task with phase := .replied }
        responses := s.hand task.origin frame }
  | retire {id : Nat} {task : Task} (found : s.tasks[id]? = some task)
      (replied : task.phase = .replied) :
      Moved identity s (.retire id) { s with
        tasks := s.tasks.set id { task with phase := .finished }
        inflight := s.inflight.filter (·.1 ≠ task.correlationId) }
  | drop {id : Nat} {task : Task} (found : s.tasks[id]? = some task)
      (running : task.phase = .running) (aborted : task.aborted = true) :
      Moved identity s (.drop id) { s with tasks := s.tasks.set id { task with phase := .dropped } }
  | panic {id : Nat} {task : Task} (found : s.tasks[id]? = some task)
      (running : task.phase = .running) :
      Moved identity s (.panic id) { s with tasks := s.tasks.set id { task with phase := .panicked } }
  | write (writing : s.writing = true) (more : s.written < s.responses.length) :
      Moved identity s .write { s with written := s.written + 1 }
  | unwritable (writing : s.writing = true) (more : s.written < s.responses.length) :
      Moved identity s .unwritable { s with writing := false }

theorem dispatch_moved {identity : Identity} {s next : State}
    (taken : dispatch identity s = some next) : Moved identity s .dispatch next := by
  unfold dispatch at taken
  split at taken
  next recv =>
    split at taken
    next first =>
      cases taken
      exact .receive recv first
    next empty =>
      split at taken
      · cases taken
      next gone =>
        cases taken
        exact .leave recv empty (Bool.not_eq_true _ |>.mp gone)
  next inserting =>
    split at taken
    next found =>
      cases taken
      exact .insert inserting found
    · cases taken
  next draining =>
    cases taken
    exact .drain draining
  · cases taken

theorem step_moved {identity : Identity} {s next : State} {action : Action}
    (taken : step identity action s = some next) : Moved identity s action next := by
  cases action with
  | dispatch => exact dispatch_moved taken
  | deliver frame =>
    simp only [step] at taken
    split at taken
    next reading =>
      cases taken
      exact .deliver reading
    · cases taken
  | malformed message =>
    simp only [step] at taken
    split at taken
    next reading =>
      cases taken
      exact .malformed reading
    · cases taken
  | hangUp =>
    simp only [step] at taken
    split at taken
    next reading =>
      cases taken
      exact .hangUp reading
    · cases taken
  | respond id handled =>
    obtain ⟨task, found, taken⟩ := Option.bind_eq_some_iff.mp taken
    split at taken
    next running =>
      obtain ⟨frame, answered, rfl⟩ := Option.map_eq_some_iff.mp taken
      exact .respond found running answered
    · cases taken
  | retire id =>
    obtain ⟨task, found, taken⟩ := Option.bind_eq_some_iff.mp taken
    split at taken
    next replied =>
      cases taken
      exact .retire found replied
    · cases taken
  | drop id =>
    obtain ⟨task, found, taken⟩ := Option.bind_eq_some_iff.mp taken
    split at taken
    next ready =>
      cases taken
      exact .drop found ready.1 ready.2
    · cases taken
  | panic id =>
    obtain ⟨task, found, taken⟩ := Option.bind_eq_some_iff.mp taken
    split at taken
    next running =>
      cases taken
      exact .panic found running
    · cases taken
  | write =>
    simp only [step] at taken
    split at taken
    next ready =>
      cases taken
      exact .write ready.1 ready.2
    · cases taken
  | unwritable =>
    simp only [step] at taken
    split at taken
    next ready =>
      cases taken
      exact .unwritable ready.1 ready.2
    · cases taken

def machine (identity : Identity) : Machine State Action := ⟨fresh, step identity⟩

end Kafkrs.Connection
