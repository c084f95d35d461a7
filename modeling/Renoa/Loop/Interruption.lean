import Renoa.Loop.Decision

/-!
# Cancellation and abandonment

An operation that is cancelled, or given up because an effect's outcome is unknown, is closed by
the loop too: it gives every tool call that is still pending a result and ends in the terminal
phase. Before that it checks that the durable effects are the ones its phase asked for.
-/

namespace Renoa.Loop

open Foundation
open Agent
open Kernel (OperationId EffectOutcome EffectFact EffectBatchFacts NewEvent
  CancellationInput CancellationTransition UnknownEffectInput UnknownEffectAbandonment)

variable {J V : Type} [DecidableEq V]

/-! ## Effect facts -/

/-- The kind, binding and request of a fact. -/
def effectIdentity : EffectFact V → String × String × V
  | .notDispatched effect => ("not-dispatched", effect.binding, effect.request)
  | .settled effect => ("settled", effect.binding, effect.request)
  | .outcomeUnknown effect => ("unknown", effect.binding, effect.request)

section

variable (batch : EffectBatchFacts V)

def requireSingleEffectFact (expected : String) : Except String (EffectFact V) :=
  match batch.effects with
  | [effect] => .ok effect
  | _ => .error (expected ++ " effect batch must contain exactly one effect")

def requireUnknownEffectIdentity (binding : String) (request : V) : Except String Unit := do
  match ← requireSingleEffectFact batch "unknown" with
  | .outcomeUnknown effect =>
    requireEffectRequestIdentity "unknown" effect.binding effect.request binding request
  | _ => .error "unknown effect batch contains a child that is not unknown"

def requireCancellationEffectIdentity (binding : String) (request : V) :
    Except String (EffectFact V) := do
  let effect ← requireSingleEffectFact batch "cancellation"
  let identity := effectIdentity effect
  requireEffectRequestIdentity identity.1 identity.2.1 identity.2.2 binding request
  return effect

end

def requireNoCancellationEffect (input : CancellationInput V) : Except String Unit :=
  ensure input.effectBatch.isNone "a ready checkpoint cannot contain a cancellation effect"

namespace AgentLoop

variable (loop : AgentLoop J V)

/-- Indexes facts of plugin calls by the identifier of their request. -/
def indexFacts (byId : StringMap (EffectFact V)) :
    List (EffectFact V) → Except String (StringMap (EffectFact V))
  | [] => .ok byId
  | fact :: rest => do
    let call ← decoded loop.serde.toolCall "Code Mode MCP fact request" (effectIdentity fact).2.2
    ensure (byId.lookup call.id).isNone "Code Mode MCP effect facts repeat a call identity"
    indexFacts (StringMap.insert byId call.id fact) rest

/-- Every call of the wave has its own fact. -/
def requireFacts (code : LoopCodeMode J) (run : CodeRun) (byId : StringMap (EffectFact V)) :
    List (CodePluginCall J) → Except String Unit
  | [] => .ok ()
  | call :: rest => do
    let expected := nestedToolCall loop.serde run call code.nestedName
    let fact ← require "Code Mode MCP effect fact is missing" (byId.lookup expected.id)
    let identity := effectIdentity fact
    requireEffectRequestIdentity identity.1 identity.2.1 identity.2.2 code.nestedBinding
      (loop.serde.toolCall.encode expected)
    requireFacts code run byId rest

def validateCodeFacts (run : CodeRun) (calls : CodeCallBatch J) (batch : EffectBatchFacts V)
    (requireUnknown : Bool) : Except String Unit := do
  let code ← loop.codeExecutor
  ensure (batch.effects.length = calls.order.length)
    "Code Mode MCP effect facts differ from its call wave"
  let byId ← loop.indexFacts [] batch.effects
  loop.requireFacts code run byId calls.ordered
  ensure (!requireUnknown || batch.effects.any EffectFact.isOutcomeUnknown)
    "Code Mode abandonment has no unknown MCP call"

section

variable (pending : PendingToolCalls J)

/-- The results of the pending calls when Code Mode did not complete. -/
def codeUnavailableMessages (current : String) : List (Message J) :=
  closedMessages pending current "Tool call was not run because Code Mode did not complete."

/-! ## Abandonment -/

/-- Closes an abandoned operation with the messages. -/
def abandoned (messages : List (Message J)) : UnknownEffectAbandonment V where
  checkpoint := checkpoint loop.serde .terminal
  events := loop.serde.messageEvents messages

def abandonUnknownModel (input : UnknownEffectInput V) :
    Except String (UnknownEffectAbandonment V) := do
  let expected ← loop.normalModelRequest input.operationId input.events
  requireUnknownEffectIdentity input.effectBatch modelEffectBinding
    (loop.serde.modelRequest.encode expected)
  return loop.abandoned []

def abandonUnknownCompaction (plan : CompactionPlan J) (input : UnknownEffectInput V) :
    Except String (UnknownEffectAbandonment V) := do
  requireUnknownEffectIdentity input.effectBatch compactionEffectBinding
    (loop.serde.modelRequest.encode plan.summaryRequest)
  return loop.abandoned []

def abandonUnknownTool (input : UnknownEffectInput V) :
    Except String (UnknownEffectAbandonment V) := do
  let tool ← loop.configuredTool pending.current
  requireUnknownEffectIdentity input.effectBatch tool.effectBinding
    (loop.serde.toolCall.encode pending.current)
  return loop.abandoned (closedMessages pending
    "This tool may have finished, but Renoa could not recover a definite result."
    "Tool call was not run because an earlier tool outcome is unknown.")

def abandonUnknownCodeStep (request : CodeStepRequest J) (input : UnknownEffectInput V) :
    Except String (UnknownEffectAbandonment V) := do
  let _ ← loop.codeExecutor
  requireUnknownEffectIdentity input.effectBatch codeStepEffectBinding
    (loop.serde.codeStepRequest.encode request)
  return loop.abandoned (codeUnavailableMessages pending
    "Code Mode evaluation ended without a recoverable result.")

def abandonUnknownCodeCalls (run : CodeRun)
    (calls : CodeCallBatch J) (input : UnknownEffectInput V) :
    Except String (UnknownEffectAbandonment V) := do
  loop.validateCodeFacts run calls input.effectBatch true
  return loop.abandoned (codeUnavailableMessages pending
    "An MCP call may have finished, but Code Mode could not recover its result.")

end

/-- The abandonment of a decoded phase. -/
def abandonPhase (input : UnknownEffectInput V) :
    LoopPhase J → Except String (UnknownEffectAbandonment V)
  | .awaitingModel _ => loop.abandonUnknownModel input
  | .awaitingCompaction _ plan _ _ | .awaitingExplicitCompaction plan _ _ =>
    loop.abandonUnknownCompaction plan input
  | .awaitingTool _ pending => loop.abandonUnknownTool pending input
  | .awaitingCodeStep _ pending _ request => loop.abandonUnknownCodeStep pending request input
  | .awaitingCodeCalls _ pending run _ calls => loop.abandonUnknownCodeCalls pending run calls input
  | .needModel _ | .needTool _ _ | .terminal =>
    .error "checkpoint is not awaiting the unknown effect"

def abandonUnknownEffect (input : UnknownEffectInput V) :
    Except String (UnknownEffectAbandonment V) := do
  let phase ← decodeCheckpoint loop.serde input.checkpoint
  loop.validateCodePhase phase input.operationId
  loop.abandonPhase input phase

/-! ## Cancellation -/

/-- Closes a cancelled operation with the messages. -/
def cancelled (messages : List (Message J)) : CancellationTransition V where
  checkpoint := checkpoint loop.serde .terminal
  events := loop.serde.messageEvents messages

def cancelReady (input : CancellationInput V) : Except String (CancellationTransition V) := do
  requireNoCancellationEffect input
  return loop.cancelled []

def cancelModel (input : CancellationInput V) : Except String (CancellationTransition V) := do
  let expected ← loop.normalModelRequest input.operationId input.events
  let batch ← require "an awaiting model checkpoint has no cancellation effect batch"
    input.effectBatch
  let _ ← requireCancellationEffectIdentity batch modelEffectBinding
    (loop.serde.modelRequest.encode expected)
  return loop.cancelled []

def cancelCompaction (plan : CompactionPlan J) (input : CancellationInput V) :
    Except String (CancellationTransition V) := do
  let batch ← require "an awaiting compaction checkpoint has no cancellation effect batch"
    input.effectBatch
  let _ ← requireCancellationEffectIdentity batch compactionEffectBinding
    (loop.serde.modelRequest.encode plan.summaryRequest)
  return loop.cancelled []

/-- The result of a call that was not run because of the cancellation. -/
def cancelledText : String := "Tool call was not run because the operation was cancelled."

section

variable (pending : PendingToolCalls J)

def cancelPlannedTools (input : CancellationInput V) :
    Except String (CancellationTransition V) := do
  requireNoCancellationEffect input
  return loop.cancelled (unavailableMessages pending.iter cancelledText)

/-- The result of a settled call. A cancelled turn ends without the closing message. -/
def settledToolResult (call : ToolCall J) : EffectOutcome V → Except String (ToolResult J)
  | .success value => do
    let result ← decoded loop.serde.toolResult "tool result" value
    ensure (result.callId = call.id && result.name = call.name)
      "tool result identity differs from its persisted request"
    return { result with closing := none }
  | .failure _ =>
    .ok (unavailableResult call ("Tool execution ended without a model-visible result before " ++
      "the operation was cancelled."))

/-- The result a cancelled call is left with. -/
def cancelledToolResult (call : ToolCall J) : EffectFact V → Except String (ToolResult J)
  | .notDispatched _ => .ok (unavailableResult call cancelledText)
  | .outcomeUnknown _ =>
    .ok (unavailableResult call ("This tool may have finished, but its result is unavailable " ++
      "because the operation was cancelled."))
  | .settled effect => loop.settledToolResult call effect.outcome

def cancelCurrentTool (input : CancellationInput V) : Except String (CancellationTransition V) := do
  let tool ← loop.configuredTool pending.current
  let batch ← require "an awaiting tool checkpoint has no cancellation effect batch"
    input.effectBatch
  let effect ← requireCancellationEffectIdentity batch tool.effectBinding
    (loop.serde.toolCall.encode pending.current)
  let current ← loop.cancelledToolResult pending.current effect
  return loop.cancelled (.tool current :: unavailableMessages pending.remaining cancelledText)

def cancelCodeStep (request : CodeStepRequest J) (input : CancellationInput V) :
    Except String (CancellationTransition V) := do
  let _ ← loop.codeExecutor
  let batch ← require "Code Mode step cancellation has no effect batch" input.effectBatch
  let _ ← requireCancellationEffectIdentity batch codeStepEffectBinding
    (loop.serde.codeStepRequest.encode request)
  return loop.cancelled (codeUnavailableMessages pending
    "Code Mode was cancelled before its result entered conversation history.")

def cancelCodeCalls (run : CodeRun) (calls : CodeCallBatch J) (input : CancellationInput V) :
    Except String (CancellationTransition V) := do
  let batch ← require "Code Mode MCP cancellation has no effect batch" input.effectBatch
  loop.validateCodeFacts run calls batch false
  return loop.cancelled (codeUnavailableMessages pending
    "Code Mode was cancelled before its MCP results were resumed in Python.")

end

/-- The cancellation of a decoded phase. -/
def cancelPhase (input : CancellationInput V) :
    LoopPhase J → Except String (CancellationTransition V)
  | .needModel _ => loop.cancelReady input
  | .awaitingModel _ => loop.cancelModel input
  | .awaitingCompaction _ plan _ _ | .awaitingExplicitCompaction plan _ _ =>
    loop.cancelCompaction plan input
  | .needTool _ pending => loop.cancelPlannedTools pending input
  | .awaitingTool _ pending => loop.cancelCurrentTool pending input
  | .awaitingCodeStep _ pending _ request => loop.cancelCodeStep pending request input
  | .awaitingCodeCalls _ pending run _ calls => loop.cancelCodeCalls pending run calls input
  | .terminal => .error "a terminal agent checkpoint cannot be cancelled"

def cancelOperation (input : CancellationInput V) : Except String (CancellationTransition V) :=
  match input.checkpoint with
  | none => loop.cancelReady input
  | some saved => do
    let phase ← decodeCheckpoint loop.serde saved
    loop.validateCodePhase phase input.operationId
    loop.cancelPhase input phase

end AgentLoop

end Renoa.Loop
