import Mathlib.Data.List.Basic

/-!
# Commands and execution events

The values surfaces, the coordinator and nodes exchange: a `CommandEnvelope` names what is to be
executed and for whom, and `ExecutionEvent`s report how its execution went. A JSON value, as the
arguments of a tool call, is a value of an arbitrary type `V`.
-/

namespace Renoa.Protocol

structure CommandId where
  uuid : Nat
  deriving DecidableEq, Repr

structure PrincipalId where
  uuid : Nat
  deriving DecidableEq, Repr

structure ExecutionId where
  uuid : Nat
  deriving DecidableEq, Repr

structure ExecutionEventId where
  uuid : Nat
  deriving DecidableEq, Repr

instance : ToString CommandId := ⟨fun id => toString id.uuid⟩

instance : ToString ExecutionId := ⟨fun id => toString id.uuid⟩

instance : ToString ExecutionEventId := ⟨fun id => toString id.uuid⟩

/-- The surface a command was submitted from. -/
structure SurfaceRef where
  value : String
  deriving DecidableEq, Repr

/-- An agent of a node, as the node names it. -/
structure TargetRef where
  value : String
  deriving DecidableEq, Repr

/-- One agent a node can execute for: its target and the name its owner sees. -/
structure TargetCard where
  target : TargetRef
  name : String
  deriving DecidableEq, Repr

/-! ## Commands -/

/-- Who wrote a command's text. -/
inductive Author where
  | principal
  | guest
  deriving DecidableEq, Repr

/-- A file the principal uploaded to its Host. -/
structure Attachment where
  uploadId : Nat
  name : String
  mimeType : String
  deriving DecidableEq, Repr

/-- The text a command carries. -/
structure CommandInput where
  text : String
  context : Option String
  author : Author
  quiet : Bool
  attachments : List Attachment
  deriving DecidableEq, Repr

/-- The principal's own text, with no surface context. -/
def CommandInput.fromText (text : String) : CommandInput where
  text
  context := none
  author := .principal
  quiet := false
  attachments := []

/-- The input, submitted quiet when `quiet` is. -/
def CommandInput.quietIf (input : CommandInput) (quiet : Bool) : CommandInput :=
  { input with quiet }

inductive AgentMessageKind where
  | request
  | reply
  | failure
  deriving DecidableEq, Repr

/-- Whether the execution of such a command is answered to its sender. -/
def AgentMessageKind.expectsReply : AgentMessageKind → Bool
  | .request => true
  | .reply | .failure => false

/-- Why a command exists when another agent caused it. -/
structure AgentOrigin where
  fromCommand : CommandId
  source : TargetRef
  name : String
  depth : Nat
  kind : AgentMessageKind
  deriving DecidableEq, Repr

structure CommandEnvelope where
  commandId : CommandId
  principalId : PrincipalId
  surface : SurfaceRef
  target : TargetRef
  input : CommandInput
  origin : Option AgentOrigin
  deriving DecidableEq, Repr

/-- The origin of a command that is an agent's request. -/
def CommandEnvelope.request? (command : CommandEnvelope) : Option AgentOrigin :=
  command.origin.filter fun origin => origin.kind.expectsReply

/-! ## Execution events -/

/-- JSON values, which are stored as text. A value that is read back need not be the one written,
since a number may come back with another last bit. -/
class JsonText (V : Type) where
  decEq : DecidableEq V
  reparse : V → V

instance {V : Type} [JsonText V] : DecidableEq V := JsonText.decEq

instance : JsonText Unit := ⟨inferInstance, id⟩

inductive ExecutionTerminal where
  | completed
  | failed (error : String)
  | cancelled (reason : String)
  deriving DecidableEq, Repr

inductive ExecutionEventKind (V : Type) where
  | executionStarted
  | turnStarted
  | assistantMessage (text : String)
  | toolStarted (callId name : String) (arguments : V)
  | toolFinished (callId output : String) (isError : Bool)
  | executionTerminated (terminal : ExecutionTerminal)
  deriving DecidableEq, Repr

/-- One record of an execution; `sequence` counts from zero within the execution. -/
structure ExecutionEvent (V : Type) where
  eventId : ExecutionEventId
  executionId : ExecutionId
  sequence : Nat
  recordedAtMs : Int
  kind : ExecutionEventKind V
  deriving DecidableEq, Repr

variable {V : Type}

/-- The outcome the event records, if it ends its execution. -/
def ExecutionEventKind.terminal? : ExecutionEventKind V → Option ExecutionTerminal
  | .executionTerminated terminal => some terminal
  | _ => none

def ExecutionEventKind.isStarted : ExecutionEventKind V → Bool
  | .executionStarted => true
  | _ => false

/-- The event ends its execution. -/
def ExecutionEvent.isTerminal (event : ExecutionEvent V) : Bool := event.kind.terminal?.isSome

/-- The event opens its execution. -/
def ExecutionEvent.isStarted (event : ExecutionEvent V) : Bool := event.kind.isStarted

section

variable [JsonText V]

/-- What a stored event tells when it is read back. -/
def ExecutionEventKind.reparsed : ExecutionEventKind V → ExecutionEventKind V
  | .toolStarted callId name arguments => .toolStarted callId name (JsonText.reparse arguments)
  | kind => kind

/-- The event as it is read back from a store. -/
def ExecutionEvent.reparsed (event : ExecutionEvent V) : ExecutionEvent V :=
  { event with kind := event.kind.reparsed }

@[simp] theorem ExecutionEvent.isTerminal_reparsed (event : ExecutionEvent V) :
    event.reparsed.isTerminal = event.isTerminal := by
  obtain ⟨_, _, _, _, kind⟩ := event
  cases kind <;> rfl

end

end Renoa.Protocol
