import Renoa.Loop.Model
import Renoa.Kernel.Events

/-!
# The context of a request

`contextInput` reads the journal of a session into the input of a context strategy: the messages
with their durable origin, the annotations of user messages, and the latest activated summary. A
finished operation that a receipted prompt started shows as one receipt, at the place of its last
message.
-/

namespace Renoa.Loop

open Foundation
open Agent
open Kernel (OperationId SemanticEvent)

variable {J V : Type}

/-! ## Event kinds -/

def messageEventKind : String := "renoa.agent.message.v1"

def messageEventPrefix : String := "renoa.agent.message."

def turnTimingEventKind : String := "renoa.agent.turn-timing.v1"

def turnTimingEventPrefix : String := "renoa.agent.turn-timing."

def turnContextEventKind : String := "renoa.agent.turn-context.v1"

def turnContextEventPrefix : String := "renoa.agent.turn-context."

def receiptedEventKind : String := "renoa.agent.receipted.v1"

def receiptedEventPrefix : String := "renoa.agent.receipted."

def contextCheckpointEventKind : String := "renoa.agent.context-checkpoint.v1"

def contextCheckpointEventPrefix : String := "renoa.agent.context-checkpoint."

def compactionResultEventKind : String := "renoa.agent.compaction-result.v1"

def compactionResultEventPrefix : String := "renoa.agent.compaction-result."

/-! ## Inputs and strategies -/

/-- One message with its durable place in the session. -/
structure ContextEntry (J : Type) where
  operationId : OperationId
  sequence : Nat
  message : Message J
  deriving DecidableEq, Repr

/-- Durable conversation state prepared for one model request. -/
structure ContextInput (J : Type) where
  activeOperationId : OperationId
  entries : List (ContextEntry J)
  checkpoint : Option ActivatedCheckpoint
  systemPrompt : String
  tools : List (ToolSpec J)
  compactionRequired : Bool
  deriving DecidableEq, Repr

/-- The complete model-facing transcript. -/
def ContextInput.messages (input : ContextInput J) : List (Message J) :=
  input.entries.map ContextEntry.message

/-- The context decision made before one persisted model effect. -/
inductive ContextPreparation (J : Type) where
  | model (messages : List (Message J))
  | compact (plan : CompactionPlan J) (maxAttempts : NonZeroU32)
  | capacityExceeded (estimatedInputTokens dispatchLimitTokens : Nat)
  deriving DecidableEq, Repr

/-- The decision for one explicit compaction turn. -/
inductive ExplicitCompactionPreparation (J : Type) where
  | upToDate (estimatedInputTokens : Nat)
  | compact (plan : CompactionPlan J) (maxAttempts : NonZeroU32)
  | capacityExceeded (estimatedInputTokens dispatchLimitTokens : Nat)
  deriving DecidableEq, Repr

/-- A policy for the messages visible to the next model call. -/
structure ContextStrategy (J : Type) where
  prepare : ContextInput J → Except String (ContextPreparation J)
  prepareExplicitCompaction : ContextInput J → Except String (ExplicitCompactionPreparation J)
  estimateAfterExplicitCompaction :
    ContextInput J → CompactionPlan J → String → Except String Nat
  validateCompaction : CompactionPlan J → ModelResponse J → Except String String
  receipt : List (Message J) → Except String String

/-- A tool result as a model sees it. -/
def modelVisible : Message J → Message J
  | .tool result => .tool { result with details := none }
  | message => message

def modelVisibleMessages (messages : List (Message J)) : List (Message J) :=
  messages.map modelVisible

/-! ## Annotations -/

def formatElapsed (milliseconds : Nat) : String :=
  if milliseconds < 1000 then toString milliseconds ++ "ms"
  else
    let totalSeconds := milliseconds / 1000
    let parts := [(totalSeconds / 86400, "d"), (totalSeconds % 86400 / 3600, "h"),
      (totalSeconds % 3600 / 60, "m"), (totalSeconds % 60, "s")]
    match (parts.filter fun part => part.1 ≠ 0).map fun part => toString part.1 ++ part.2 with
    | [] => "0s"
    | shown => " ".intercalate shown

def TurnTiming.modelContext (timing : TurnTiming) : String :=
  let elapsed := match timing.elapsedSincePreviousUserMessageMs with
    | some elapsed => "\nelapsed_since_previous_user_message: " ++ formatElapsed elapsed
    | none => ""
  "<turn_context>\ncurrent_time: " ++ timing.observedAt ++ elapsed ++ "\n</turn_context>"

/-- Entry text is data: it can never open or close a tag of its own. -/
def escape (text : String) : String :=
  String.join (text.toList.map fun c =>
    if c = '&' then "&amp;" else if c = '<' then "&lt;" else if c = '>' then "&gt;"
    else String.singleton c)

def TurnContext.modelContext (context : TurnContext) : String :=
  "<turn_context>" ++ String.join (context.entries.map fun entry =>
    "\n<context source=\"" ++ entry.source ++ "\">\n" ++ escape entry.text ++ "\n</context>") ++
    "\n</turn_context>"

/-- The message with the text of the annotation behind the content of a user. -/
def TurnAnnotation.appendTo (turn : TurnAnnotation) : Message J → Message J
  | .user content => .user (content ++ [.text (match turn with
      | .timing observed => observed.modelContext
      | .context admitted => admitted.modelContext)])
  | message => message

/-! ## Reading the journal -/

/-- What is read of a journal so far. -/
structure Scan (J : Type) where
  entries : List (ContextEntry J)
  annotations : List (OperationId × TurnAnnotation)
  receipted : List OperationId
  checkpoint : Option ActivatedCheckpoint

def Scan.empty : Scan J := ⟨[], [], [], none⟩

/-- The sequences of the messages read so far. -/
def Scan.messageSequences (scan : Scan J) : List Nat := scan.entries.map ContextEntry.sequence

/-- The receipted operations after a marker; `none` for any other event. -/
def markReceipted (event : SemanticEvent V) (receipted : List OperationId) :
    Except String (Option (List OperationId)) :=
  if event.kind = receiptedEventKind then do
    ensure (!receipted.contains event.operationId)
      ("operation " ++ toString event.operationId ++ " is marked receipted more than once")
    return some (event.operationId :: receipted)
  else if Text.startsWith receiptedEventPrefix event.kind then
    .error ("receipted event kind `" ++ event.kind ++ "` is unsupported")
  else .ok none

section

variable (serde : Serde J V)

/-- The turn timing or context an event carries; `none` for any other kind. -/
def decodeAnnotation (event : SemanticEvent V) : Except String (Option TurnAnnotation) :=
  let undecodable := fun error =>
    event.kind ++ " event " ++ toString event.eventId ++ " cannot be decoded: " ++ error
  if event.kind = turnTimingEventKind then do
    let timing ← (serde.turnTiming.decode event.payload).mapError undecodable
    return some (.timing timing)
  else if event.kind = turnContextEventKind then do
    let context ← (serde.turnContext.decode event.payload).mapError undecodable
    return some (.context context.val)
  else if Text.startsWith turnTimingEventPrefix event.kind then
    .error ("turn timing event kind `" ++ event.kind ++ "` is unsupported")
  else if Text.startsWith turnContextEventPrefix event.kind then
    .error ("turn context event kind `" ++ event.kind ++ "` is unsupported")
  else .ok none

/-- The checkpoint an event activates: a nonempty summary through an earlier durable message, past
the current one. -/
def activatedCheckpoint (event : SemanticEvent V) (messageSequences : List Nat)
    (current : Option ActivatedCheckpoint) : Except String ActivatedCheckpoint := do
  let decoded ← (serde.contextCheckpoint.decode event.payload).mapError fun error =>
    "context checkpoint event " ++ toString event.eventId ++ " cannot be decoded: " ++ error
  ensure (Text.trim decoded.summary ≠ "") "context checkpoint event has an empty summary"
  ensure (messageSequences.contains decoded.coveredThroughSequence)
    "context checkpoint boundary is not an earlier durable message"
  ensure (current.all fun current =>
      current.coveredThroughSequence < decoded.coveredThroughSequence)
    "context checkpoint does not advance its durable message boundary"
  return decoded

/-- Reads an event that is no message: a mark or an annotation of its operation, an activated
checkpoint, or the result of a compaction. -/
def Scan.readMark (scan : Scan J) (event : SemanticEvent V) : Except String (Scan J) := do
  match ← markReceipted event scan.receipted with
  | some receipted => return { scan with receipted }
  | none =>
    match ← decodeAnnotation serde event with
    | some annotation =>
      ensure (scan.annotations.lookup event.operationId).isNone
        ("operation " ++ toString event.operationId ++
          " has more than one turn timing or context event")
      return { scan with
        annotations := scan.annotations ++ [(event.operationId, annotation)] }
    | none =>
      if event.kind = contextCheckpointEventKind then
        let activated ← activatedCheckpoint serde event scan.messageSequences scan.checkpoint
        return { scan with checkpoint := some activated }
      else if Text.startsWith contextCheckpointEventPrefix event.kind then
        .error ("context checkpoint event kind `" ++ event.kind ++ "` is unsupported")
      else if event.kind = compactionResultEventKind then
        let _ ← (serde.compactionResult.decode event.payload).mapError fun error =>
          "compaction result event " ++ toString event.eventId ++ " cannot be decoded: " ++
            error
        return scan
      else if Text.startsWith compactionResultEventPrefix event.kind then
        .error ("compaction result event kind `" ++ event.kind ++ "` is unsupported")
      else return scan

/-- Reads one event of the journal. -/
def Scan.read (scan : Scan J) (event : SemanticEvent V) : Except String (Scan J) :=
  if event.kind = messageEventKind then do
    let message ← (serde.message.decode event.payload).mapError fun error =>
      "message event " ++ toString event.eventId ++ " cannot be decoded: " ++ error
    ensure (!scan.messageSequences.contains event.sequence)
      ("message event sequence " ++ toString event.sequence ++ " is duplicated")
    return { scan with
      entries := scan.entries ++
        [{ operationId := event.operationId, sequence := event.sequence, message }] }
  else if Text.startsWith messageEventPrefix event.kind then
    .error ("message event kind `" ++ event.kind ++ "` is unsupported")
  else scan.readMark serde event

/-- Reads the events of a journal. -/
def scanEvents (serde : Serde J V) (scan : Scan J) : List (SemanticEvent V) →
    Except String (Scan J)
  | [] => .ok scan
  | event :: rest => do
    let scan ← scan.read serde event
    scanEvents serde scan rest

/-! ## Receipts -/

/-- The receipt of one operation's messages. A boundary inside the operation moves to its end. -/
def receipt (strategy : ContextStrategy J) (held : List (ContextEntry J))
    (checkpoint : Option ActivatedCheckpoint) :
    Except String (ContextEntry J × Option ActivatedCheckpoint) :=
  match held.head?, held.getLast? with
  | some first, some last => do
    let moved := checkpoint.map fun checkpoint =>
      if first.sequence ≤ checkpoint.coveredThroughSequence ∧
          checkpoint.coveredThroughSequence < last.sequence then
        { checkpoint with coveredThroughSequence := last.sequence }
      else checkpoint
    let text ← (strategy.receipt (held.map ContextEntry.message)).mapError fun error =>
      "operation " ++ toString last.operationId ++ " has no receipt: " ++ error
    return ({ last with message := .userText text }, moved)
  | _, _ => .error "a receipt needs at least one message"

/-- The entries still to be placed, behind the `held` messages of one receipted operation. -/
def replaceFrom (strategy : ContextStrategy J) (receipted : List OperationId)
    (active : OperationId) (held : List (ContextEntry J))
    (checkpoint : Option ActivatedCheckpoint) : List (ContextEntry J) →
    Except String (List (ContextEntry J) × Option ActivatedCheckpoint)
  | [] =>
    if held.isEmpty then .ok ([], checkpoint)
    else do
      let (shown, checkpoint) ← receipt strategy held checkpoint
      return ([shown], checkpoint)
  | entry :: rest => do
    -- an entry of another operation ends the held one
    let (flushed, held, checkpoint) ←
      if held.head?.any fun first => first.operationId ≠ entry.operationId then do
        let (shown, checkpoint) ← receipt strategy held checkpoint
        pure ([shown], [], checkpoint)
      else pure ([], held, checkpoint)
    if entry.operationId ≠ active && receipted.contains entry.operationId then
      let (placed, checkpoint) ←
        replaceFrom strategy receipted active (held ++ [entry]) checkpoint rest
      return (flushed ++ placed, checkpoint)
    else
      let (placed, checkpoint) ← replaceFrom strategy receipted active held checkpoint rest
      return (flushed ++ entry :: placed, checkpoint)

/-- The entries with each finished receipted operation replaced by its receipt. -/
def replaceReceipted (strategy : ContextStrategy J) (entries : List (ContextEntry J))
    (receipted : List OperationId) (active : OperationId)
    (checkpoint : Option ActivatedCheckpoint) :
    Except String (List (ContextEntry J) × Option ActivatedCheckpoint) :=
  if receipted.all fun operation => operation = active then .ok (entries, checkpoint)
  else replaceFrom strategy receipted active [] checkpoint entries

/-! ## The input -/

/-- The user messages of an operation. -/
def userMessages (entries : List (ContextEntry J)) (operationId : OperationId) :
    List (ContextEntry J) :=
  entries.filter fun entry => entry.operationId = operationId && entry.message.isUser

/-- Every annotated operation has exactly one user message. -/
def validateAnnotations (entries : List (ContextEntry J)) :
    List (OperationId × TurnAnnotation) → Except String Unit
  | [] => .ok ()
  | (operationId, _) :: rest => do
    ensure ((userMessages entries operationId).length = 1)
      ("operation " ++ toString operationId ++
        " turn timing or context does not belong to exactly one user message")
    validateAnnotations entries rest

/-- The entry with the annotation of its operation. -/
def ContextEntry.annotated (annotations : List (OperationId × TurnAnnotation))
    (entry : ContextEntry J) : ContextEntry J :=
  match annotations.lookup entry.operationId with
  | some annotation => { entry with message := annotation.appendTo entry.message }
  | none => entry

/-- The request input for an operation from the session's events. -/
def contextInput (strategy : ContextStrategy J) (active : OperationId)
    (events : List (SemanticEvent V)) (systemPrompt : String) (tools : List (ToolSpec J))
    (compactionRequired : Bool) : Except String (ContextInput J) := do
  let scan ← scanEvents serde .empty events
  ensure (!scan.receipted.any fun operation => (scan.annotations.lookup operation).isSome)
    "a receipted operation cannot carry turn timing or context"
  let (entries, checkpoint) ←
    replaceReceipted strategy scan.entries scan.receipted active scan.checkpoint
  validateAnnotations entries scan.annotations
  return { activeOperationId := active
           entries := entries.map (ContextEntry.annotated scan.annotations)
           checkpoint
           systemPrompt
           tools
           compactionRequired }

end

end Renoa.Loop
