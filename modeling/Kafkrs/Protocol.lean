import Kafkrs.Connection

/-! The protocol's state machine, as a function of the frames taken so far: what each frame should
be answered with and whether the connection stays open. -/
namespace Kafkrs.Protocol

open Kafkrs.Wire Kafkrs.Connection

inductive Stage where
  | awaitingConnect
  | ready
  | closed
  deriving DecidableEq, Repr

inductive Verdict where
  | connected
  /-- One error, and the connection is closed. -/
  | refused (code : ErrorCode)
  /-- A request, to be answered by its handler. -/
  | request
  /-- One error, and the connection stays open. -/
  | invalid
  /-- After the connection was closed. -/
  | ignored
  deriving DecidableEq, Repr

def isRequest : Body → Bool
  | .ping | .produce _ | .fetch _ | .createTopic _ | .describeTopic _ | .listTopics
  | .deleteTopic _ | .alterTopicConfig _ | .metadata _ => true
  | _ => false

def judge (stage : Stage) (inbound : Inbound) : Stage × Verdict :=
  if stage = .closed then (.closed, .ignored)
  else if inbound.decoded = false then (.closed, .refused .malformedFrame)
  else
    match stage, inbound.frame.command.body with
    | .awaitingConnect, some (.connect req) =>
      if req.protocolVersion = protocolVersion then (.ready, .connected)
      else (.closed, .refused .unsupportedProtocolVersion)
    | .awaitingConnect, _ => (.closed, .refused .handshakeRequired)
    | _, some (.connect _) => (.closed, .refused .alreadyConnected)
    | _, some body => (.ready, if isRequest body then .request else .invalid)
    | _, none => (.ready, .invalid)

def stage (received : List Inbound) : Stage :=
  received.foldl (fun stage inbound => (judge stage inbound).1) .awaitingConnect

/-- What the `i`-th frame should be answered with. -/
def verdict (received : List Inbound) (i : Nat) : Option Verdict :=
  received[i]?.map fun inbound => (judge (stage (received.take i)) inbound).2

/-- Whether a frame answers a request as its verdict says. -/
def Answers (correlationId : UInt64) (frame : Frame) : Verdict → Prop
  | .connected => ∃ resp, frame.command = ⟨correlationId, some (.connected resp)⟩
  | .refused code => ∃ message, frame.command = makeError correlationId code message
  | .request => frame.command.correlationId = correlationId
  | .invalid => ∃ message, frame.command = makeError correlationId .invalidCommand message
  | .ignored => False

section Frames

variable {received : List Inbound} {inbound : Inbound} {i : Nat}

theorem stage_concat : stage (received ++ [inbound]) = (judge (stage received) inbound).1 := by
  simp [stage]

theorem verdict_last : verdict (received ++ [inbound]) received.length =
    some (judge (stage received) inbound).2 := by
  simp [verdict]

theorem verdict_concat (old : i < received.length) :
    verdict (received ++ [inbound]) i = verdict received i := by
  rw [verdict, verdict, List.getElem?_append_left old, List.take_append_of_le_length (by omega)]

end Frames

section Handlers

variable {correlationId : UInt64} {body : Body} {handled : Handled} {frame : Frame}

theorem reply_echoes (result : Except Failure Body) :
    (reply correlationId result).command.correlationId = correlationId := by
  cases result <;> rfl

theorem handleFetch_echoes (result : Except FetchError Kafkrs.FetchResponse) :
    (handleFetch correlationId result).command.correlationId = correlationId := by
  cases result <;> rfl

/-- A spawned task answers as the protocol says, whatever its handler found. -/
theorem dispatchOne_answers (answered : dispatchOne correlationId body handled = some frame) :
    Answers correlationId frame (if isRequest body then .request else .invalid) := by
  unfold dispatchOne at answered
  split at answered
  case h_22 => cases answered
  all_goals
    obtain rfl := Option.some.inj answered
    first
      | exact reply_echoes _
      | exact handleFetch_echoes _
      | exact ⟨_, rfl⟩
      | rfl

/-- Every body has something its task can answer with. -/
theorem dispatchOne_total (correlationId : UInt64) (body : Body) :
    ∃ handled frame, dispatchOne correlationId body handled = some frame := by
  have failure : Failure := (.brokerNotReady, "")
  cases body with
  | ping => exact ⟨.ping, _, rfl⟩
  | produce => exact ⟨.produce (.error failure), _, rfl⟩
  | fetch => exact ⟨.fetch (.error .brokerNotReady), _, rfl⟩
  | createTopic => exact ⟨.createTopic (.error failure), _, rfl⟩
  | describeTopic => exact ⟨.describeTopic (.error failure), _, rfl⟩
  | listTopics => exact ⟨.listTopics (.error failure), _, rfl⟩
  | deleteTopic => exact ⟨.deleteTopic (.error failure), _, rfl⟩
  | alterTopicConfig => exact ⟨.alterTopicConfig (.error failure), _, rfl⟩
  | metadata => exact ⟨.metadata (.error failure), _, rfl⟩
  | _ => exact ⟨.invalid, _, rfl⟩

end Handlers

end Kafkrs.Protocol
