import Renoa.Agent.Model
import Renoa.Foundation.Codec
import Renoa.Foundation.Text
import Renoa.Kernel.Model
import Mathlib.Algebra.Order.Ring.Nat

/-!
# Data of the agent loop

The command a Host admits, the durable phases of an operation, and what the loop exchanges with
Code Mode and with a compaction. `J` is the type of JSON values inside these data and `V` the type
of the JSON values the kernel stores; `Serde` is the JSON library between them, whose forms read
back what they wrote.
-/

namespace Renoa.Loop

open Foundation
open Agent
open Kernel (OperationId EventId EffectRecovery)

instance : ToString OperationId := ⟨fun id => toString id.uuid⟩

instance : ToString EventId := ⟨fun id => toString id.uuid⟩

/-! ## Turn context -/

/-- The display value of an observed time: nonempty, short, printable, and without markup. -/
def validDisplay (observedAt : String) : Bool :=
  observedAt ≠ "" && observedAt.utf8ByteSize ≤ 160 && observedAt.toList.all fun c =>
    0x20 ≤ c.toNat && c.toNat < 0x7F && c ≠ '<' && c ≠ '>' && c ≠ '&'

/-- Host-observed time stored with a user turn before per-message context existed. -/
structure TurnTiming where
  observedAt : String
  observedAtUnixMs : Int
  elapsedSincePreviousUserMessageMs : Option Nat
  display_valid : validDisplay observedAt = true
  time_valid : 0 ≤ observedAtUnixMs
  deriving DecidableEq, Repr

/-- A source is `surface`, or `plugin:` and a short lowercase plugin id. -/
def validSource (source : String) : Bool :=
  source = "surface" ||
    (Text.startsWith "plugin:" source && source.utf8ByteSize ≤ 64 &&
      let name := source.toList.drop 7
      let starts := fun c : Char => c.isLower || c.isDigit
      name.head?.any starts && name.all fun c => starts c || c = '.' || c = '_' || c = '-')

/-- The text of an entry is not blank, short, and has no control character but a line break. -/
def validText (text : String) : Bool :=
  Text.trim text ≠ "" && text.utf8ByteSize ≤ 256 && text.toList.all fun c =>
    c = '\n' || (0x20 ≤ c.toNat && (c.toNat < 0x7F || 0x9F < c.toNat))

/-- One attributed entry of the context of a message. -/
structure ContextContribution where
  source : String
  text : String
  source_valid : validSource source = true
  text_valid : validText text = true
  deriving DecidableEq, Repr

/-- The bounded entries admitted with one user message, one per source. -/
structure TurnContext where
  entries : List ContextContribution
  sources_nodup : (entries.map ContextContribution.source).Nodup
  size_le : (entries.map fun entry => entry.text.utf8ByteSize).sum ≤ 1024
  deriving DecidableEq, Repr

/-- What one operation's user message carries beyond its content. -/
inductive TurnAnnotation where
  | timing (timing : TurnTiming)
  | context (context : TurnContext)
  deriving DecidableEq, Repr

/-! ## Commands -/

/-- When the Host admitted a prompt, and what it admitted with it. -/
inductive Observation where
  | unobserved
  | timed (timing : TurnTiming)
  | observed (observedAtUnixMs : Int) (context : TurnContext)
  | receipted
  deriving DecidableEq, Repr

inductive AgentCommandKind where
  | prompt (content : List ContentBlock) (observation : Observation)
  | compact
  deriving DecidableEq, Repr

/-! ## Code Mode -/

/-- One plugin call a suspended evaluation waits for. -/
structure CodePluginCall (J : Type) where
  callId : UInt32
  reference : String
  arguments : J
  deriving DecidableEq, Repr

/-- What the evaluator is asked to do. -/
inductive CodeStep (J : Type) where
  | start (source : String)
  | resume (snapshot : String) (results : StringMap J)
  deriving DecidableEq, Repr

structure CodeStepRequest (J : Type) where
  runId : String
  step : CodeStep J
  deriving DecidableEq, Repr

/-- What the evaluator answers. -/
inductive CodeStepOutput (J : Type) where
  | completed (result : J) (isError : Bool)
  | suspended (snapshot : String) (calls : List (CodePluginCall J))
  deriving DecidableEq, Repr

/-- The identity of a Code Mode run and what it has used of its budget. -/
structure CodeRun where
  runId : String
  wave : UInt32
  totalCalls : UInt32
  deriving DecidableEq, Repr

/-- An identity-indexed wave of plugin calls and the evaluator's declaration order. -/
structure CodeCallBatch (J : Type) where
  order : List UInt32
  calls : StringMap (CodePluginCall J)
  deriving DecidableEq, Repr

/-! ## Phases -/

/-- A summary request and the durable prefix it covers. -/
structure CompactionPlan (J : Type) where
  summaryRequest : ModelRequest J
  coveredThroughSequence : Nat
  deriving DecidableEq, Repr

/-- The current top-level call and the calls that still follow it. -/
structure PendingToolCalls (J : Type) where
  current : ToolCall J
  remaining : List (ToolCall J)
  deriving DecidableEq, Repr

/-- The exact decision state needed to resume one unfinished operation. -/
inductive LoopPhase (J : Type) where
  | needModel (modelTurns : UInt32)
  | awaitingModel (modelTurns : UInt32)
  | awaitingCompaction (modelTurns : UInt32) (plan : CompactionPlan J)
      (maxAttempts attempt : NonZeroU32)
  | awaitingExplicitCompaction (plan : CompactionPlan J) (maxAttempts attempt : NonZeroU32)
  | needTool (modelTurns : UInt32) (pending : PendingToolCalls J)
  | awaitingTool (modelTurns : UInt32) (pending : PendingToolCalls J)
  | awaitingCodeStep (modelTurns : UInt32) (pending : PendingToolCalls J) (run : CodeRun)
      (request : CodeStepRequest J)
  | awaitingCodeCalls (modelTurns : UInt32) (pending : PendingToolCalls J) (run : CodeRun)
      (snapshot : String) (calls : CodeCallBatch J)
  | terminal
  deriving DecidableEq, Repr

/-- What a model effect returns. -/
inductive ModelEffectOutput (J : Type) where
  | completed (response : ModelResponse J)
  | contextWindowExceeded (message : String)
  deriving DecidableEq, Repr

/-- An activated portable summary and the last durable message it covers. -/
structure ActivatedCheckpoint where
  coveredThroughSequence : Nat
  summary : String
  deriving DecidableEq, Repr

/-- Durable context size estimated after an explicit compaction command. -/
structure CompactionResult where
  estimatedInputTokens : Nat
  deriving DecidableEq, Repr

/-! ## JSON -/

/-- JSON values. A number is an integer or the bits of a float, and an object is a map. -/
inductive Json where
  | null
  | bool (value : Bool)
  | int (value : Int)
  | float (bits : UInt64)
  | string (value : String)
  | array (items : List Json)
  | object (fields : List (String × Json))

/-- The JSON library: values and their text, what Code Mode sources decode to, a stored value as
JSON, and the stored form of each datum. An empty turn context is stored by omission. -/
structure Serde (J V : Type) where
  null : J
  bool : Bool → J
  string : String → J
  content : List ContentBlock → J
  object : StringMap J → J
  isObject : J → Bool
  text : J → String
  codeModeSource : J → Except String String
  json : V → Json
  receipted : V
  message : Codec V (Message J)
  turnTiming : Codec V TurnTiming
  turnContext : Codec V { context : TurnContext // context.entries ≠ [] }
  contextCheckpoint : Codec V ActivatedCheckpoint
  compactionResult : Codec V CompactionResult
  modelRequest : Codec V (ModelRequest J)
  modelOutput : Codec V (ModelEffectOutput J)
  toolCall : Codec V (ToolCall J)
  toolResult : Codec V (ToolResult J)
  codeStepRequest : Codec V (CodeStepRequest J)
  codeStepOutput : Codec V (CodeStepOutput J)
  phase : Codec V (LoopPhase J)

/-- The number of bytes of a value's text. -/
def Serde.byteLength {J V : Type} (serde : Serde J V) (value : J) : Nat :=
  (serde.text value).utf8ByteSize

end Renoa.Loop
