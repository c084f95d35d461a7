import Renoa.Loop.Checkpoint
import Renoa.Loop.Context
import Renoa.Kernel.Driver

/-!
# The agent loop: configuration and shared steps

An `AgentLoop` is one configured model/tool loop over the JSON library. Here are the steps its
decisions share: the events of messages, the identity of a settled effect, and the ways a tool
result ends or continues a turn.
-/

namespace Renoa.Loop

open Foundation
open Agent
open Kernel (OperationId EffectRecovery EffectRequest EffectOutcome NewEvent LoopDecision
  SettledEffect SettledEffectBatch SemanticEvent)

variable {J V : Type}

def modelEffectBinding : String := "renoa.agent.model"

def compactionEffectBinding : String := "renoa.agent.compaction"

/-- Behaviour limits and instructions of one loop. -/
structure AgentLoopConfig where
  systemPrompt : String
  maxModelTurns : Option NonZeroU32
  maxToolCallsPerTurn : NonZeroU32

structure LoopTool (J : Type) where
  spec : ToolSpec J
  effectBinding : String
  recovery : EffectRecovery

/-- The visible Python tool and its hidden plugin executor. -/
structure LoopCodeMode (J : Type) where
  spec : ToolSpec J
  nestedName : String
  nestedBinding : String
  nestedRecovery : EffectRecovery

/-- A configured loop. `digest` names Code Mode runs. -/
structure AgentLoop (J V : Type) where
  config : AgentLoopConfig
  context : ContextStrategy J
  modelRecovery : EffectRecovery
  tools : List (LoopTool J)
  codeMode : Option (LoopCodeMode J)
  serde : Serde J V
  digest : OperationId → UInt32 → String → String

/-! ## Events -/

namespace Serde

variable (serde : Serde J V)

def messageEvent (message : Message J) : NewEvent V where
  kind := messageEventKind
  payload := serde.message.encode message

def messageEvents (messages : List (Message J)) : List (NewEvent V) :=
  messages.map serde.messageEvent

/-- The event that carries a prompt's observation into the journal, if it has one. -/
def observationEvent : Observation → Option (NewEvent V)
  | .unobserved => none
  | .receipted => some { kind := receiptedEventKind, payload := serde.receipted }
  | .timed timing => some { kind := turnTimingEventKind, payload := serde.turnTiming.encode timing }
  | .observed _ context =>
    if h : context.entries = [] then none
    else some { kind := turnContextEventKind, payload := serde.turnContext.encode ⟨context, h⟩ }

def contextCheckpointEvent (activated : ActivatedCheckpoint) : Except String (NewEvent V) := do
  ensure (Text.trim activated.summary ≠ "") "activated context checkpoint summary cannot be empty"
  return { kind := contextCheckpointEventKind, payload := serde.contextCheckpoint.encode activated }

def compactionResultEvent (estimatedInputTokens : Nat) : NewEvent V where
  kind := compactionResultEventKind
  payload := serde.compactionResult.encode { estimatedInputTokens }

end Serde

/-- Decodes a value, or says what is invalid. -/
def decoded {α : Type} (codec : Codec V α) (description : String) (value : V) : Except String α :=
  (codec.decode value).mapError fun error => description ++ " is invalid: " ++ error

/-! ## Effect input -/

/-- The one effect of a settled batch. -/
def requireEffect (batch : Option (SettledEffectBatch V)) (expected : String) :
    Except String (SettledEffect V) :=
  match batch with
  | none => .error ("checkpoint is missing its settled " ++ expected)
  | some batch =>
    match batch.effects with
    | [] => .error ("settled " ++ expected ++ " batch contains no effect")
    | [effect] => .ok effect
    | _ => .error ("settled " ++ expected ++ " batch contains more than one effect")

section Identity

variable [DecidableEq V]

def requireEffectRequestIdentity (kind actualBinding : String) (actualRequest : V)
    (expectedBinding : String) (expectedRequest : V) : Except String Unit := do
  ensure (actualBinding = expectedBinding)
    (kind ++ " effect binding `" ++ actualBinding ++ "` differs from expected `" ++
      expectedBinding ++ "`")
  ensure (actualRequest = expectedRequest)
    (kind ++ " effect request differs from durable loop state")

def requireEffectIdentity (effect : SettledEffect V) (binding : String) (request : V) :
    Except String Unit :=
  requireEffectRequestIdentity "settled" effect.binding effect.request binding request

end Identity

/-! ## Tool results -/

/-- The result of a call that gave none. -/
def unavailableResult (call : ToolCall J) (message : String) : ToolResult J where
  callId := call.id
  name := call.name
  content := [.text message]
  details := none
  isError := true
  closing := none

/-- The results of calls that were not run, in order. -/
def unavailableMessages (calls : List (ToolCall J)) (message : String) : List (Message J) :=
  calls.map fun call => .tool (unavailableResult call message)

/-- The results of the pending calls when none of them runs any more. -/
def closedMessages (pending : PendingToolCalls J) (current later : String) : List (Message J) :=
  .tool (unavailableResult pending.current current) ::
    unavailableMessages pending.remaining later

namespace AgentLoop

variable (loop : AgentLoop J V)

/-- The phase after the current call has its result. -/
def phaseAfter (modelTurns : UInt32) (pending : PendingToolCalls J) : LoopPhase J :=
  match pending.advance with
  | none => .needModel modelTurns
  | some pending => .needTool modelTurns pending

def appendToolResult (modelTurns : UInt32) (pending : PendingToolCalls J)
    (result : ToolResult J) : LoopDecision V :=
  .appendEventsAndContinue (checkpoint loop.serde (phaseAfter modelTurns pending))
    [loop.serde.messageEvent (.tool result)]

/-- Ends the operation without further messages. -/
def failWith (reason : String) : LoopDecision V := .fail (checkpoint loop.serde .terminal) [] reason

section

variable (pending : PendingToolCalls J)

def failTool (reason : String) : LoopDecision V :=
  .fail (checkpoint loop.serde .terminal)
    (loop.serde.messageEvents (closedMessages pending
      "Tool execution ended without a model-visible result."
      "Tool call was not run because an earlier tool failed.")) reason

/-- The provider, API and model of the latest assistant message. The events come newest first. -/
def callerMetadata (serde : Serde J V) : List (SemanticEvent V) → Except String AssistantMetadata
  | [] => .error "a closing tool result has no assistant message before it"
  | event :: earlier =>
    if event.kind ≠ messageEventKind then callerMetadata serde earlier
    else do
      match ← decoded serde.message "history message" event.payload with
      | .assistant _ _ _ metadata =>
        return { metadata with responseModel := none, responseId := none, rawStopReason := none }
      | _ => callerMetadata serde earlier

/-- The messages of a closed turn: the result, the calls that were not run, and the reply. -/
def closingMessages (result : ToolResult J) (closing : Closing) (metadata : AssistantMetadata) :
    List (Message J) :=
  .tool result :: (unavailableMessages pending.remaining closing.notRun ++
    [.assistant [.text closing.message none] .stop none metadata])

/-- Ends the turn with a tool's closing message. -/
def closeTurn (result : ToolResult J) (closing : Closing) (events : List (SemanticEvent V)) :
    Except String (LoopDecision V) := do
  ensure (Text.trim closing.message ≠ "")
    ("tool `" ++ result.name ++ "` ended the turn with an empty closing message")
  let metadata ← callerMetadata loop.serde events.reverse
  return .waitForInput (checkpoint loop.serde .terminal)
    (loop.serde.messageEvents (closingMessages pending result closing metadata))

end

end AgentLoop

end Renoa.Loop
