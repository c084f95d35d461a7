import Renoa.Loop.Interruption
import Renoa.Loop.Strategy

/-!
# Stored values as tagged data

`Payload` is the least library the loop can run on: a stored value is one of the data itself under
a tag, so that every stored form reads back by computation. JSON values are their own text.
-/

namespace Renoa.Loop

open Foundation
open Agent
open Kernel (EffectRecovery)

/-- One stored datum under its tag. -/
inductive Payload where
  | command (command : AgentCommandKind)
  | receipted
  | message (message : Message String)
  | turnTiming (timing : TurnTiming)
  | turnContext (context : TurnContext)
  | contextCheckpoint (activated : ActivatedCheckpoint)
  | compactionResult (result : CompactionResult)
  | modelRequest (request : ModelRequest String)
  | modelOutput (output : ModelEffectOutput String)
  | toolCall (call : ToolCall String)
  | toolResult (result : ToolResult String)
  | codeStepRequest (request : CodeStepRequest String)
  | codeStepOutput (output : CodeStepOutput String)
  | phase (phase : LoopPhase String)
  deriving DecidableEq, Repr

namespace Payload

/-- The codec of a tag. -/
def codec {α : Type} (tag : α → Payload) (read : Payload → Option α)
    (h : ∀ a, read (tag a) = some a) : Codec Payload α where
  encode := tag
  decode := fun value => require "unexpected tag" (read value)
  decode_encode := fun a => by rw [h a]; rfl

/-- The context under a tag, when it has an entry. -/
def nonemptyContext (context : TurnContext) :
    Option { context : TurnContext // context.entries ≠ [] } :=
  if h : context.entries ≠ [] then some ⟨context, h⟩ else none

def serde : Serde String Payload where
  null := "null"
  bool := toString
  string := fun text => text
  content := fun blocks => toString blocks.length
  object := fun entries => "object " ++ " ".intercalate (entries.map fun entry =>
    entry.1 ++ " " ++ entry.2)
  isObject := Text.startsWith "object "
  text := fun value => value
  codeModeSource := .ok
  json
    | .command stored => stored.encode
    | _ => .null
  receipted := .receipted
  message := codec .message (fun | .message stored => some stored | _ => none) fun _ => rfl
  turnTiming := codec .turnTiming (fun | .turnTiming timing => some timing | _ => none) fun _ => rfl
  turnContext := codec (fun context => .turnContext context.val)
    (fun | .turnContext context => nonemptyContext context | _ => none)
    fun context => dif_pos context.property
  contextCheckpoint := codec .contextCheckpoint
    (fun | .contextCheckpoint activated => some activated | _ => none) fun _ => rfl
  compactionResult := codec .compactionResult
    (fun | .compactionResult result => some result | _ => none) fun _ => rfl
  modelRequest := codec .modelRequest
    (fun | .modelRequest request => some request | _ => none) fun _ => rfl
  modelOutput := codec .modelOutput
    (fun | .modelOutput output => some output | _ => none) fun _ => rfl
  toolCall := codec .toolCall (fun | .toolCall call => some call | _ => none) fun _ => rfl
  toolResult := codec .toolResult (fun | .toolResult result => some result | _ => none) fun _ => rfl
  codeStepRequest := codec .codeStepRequest
    (fun | .codeStepRequest request => some request | _ => none) fun _ => rfl
  codeStepOutput := codec .codeStepOutput
    (fun | .codeStepOutput output => some output | _ => none) fun _ => rfl
  phase := codec .phase (fun | .phase stored => some stored | _ => none) fun _ => rfl

/-- Limits, a sizer that counts messages, and a projector that changes nothing. -/
def strategy : CompactingContextStrategy String where
  limits :=
    { dispatchLimit := 8
      automaticCompaction := 8
      targetInput := 4
      tailBudget := 2
      maxSummary := 2
      tail_pos := Nat.two_pos
      summary_pos := Nat.two_pos
      target_eq := rfl
      target_lt := by decide
      automatic_le := by decide }
  estimateInputTokens := fun request => request.messages.length
  projector := { project := .ok, receipt := fun messages => .ok (toString messages.length) }
  format := ⟨.string, fun _ => "message", id, fun _ => ""⟩
  maxAttempts := .min

/-- A loop over tagged data with one tool and a turn limit. -/
def loop : AgentLoop String Payload where
  config :=
    { systemPrompt := "", maxModelTurns := some ⟨2, by decide⟩, maxToolCallsPerTurn := .min }
  context := strategy.contextStrategy
  modelRecovery := .safeToReplay
  tools := [{ spec := { name := "read", description := "", inputSchema := "object " }
              effectBinding := "tool.read"
              recovery := .neverReplay }]
  codeMode := none
  serde
  digest := fun operationId modelTurns call =>
    toString operationId ++ ":" ++ toString modelTurns.toNat ++ ":" ++ call

end Payload

end Renoa.Loop
