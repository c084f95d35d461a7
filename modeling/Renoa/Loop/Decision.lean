import Renoa.Loop.AgentLoop
import Renoa.Loop.CommandFormat
import Renoa.Loop.Planning

/-!
# Decisions

`AgentLoop.decide` is the loop's step from one durable input to the next checkpoint: from the
command, from a phase that is ready for a model or a tool, or from the settled batch a phase waits
for. Every phase is decoded from its checkpoint before it is used.
-/

namespace Renoa.Loop

open Foundation
open Agent
open Kernel (OperationId EffectRecovery EffectRequest EffectOutcome NewEvent LoopDecision
  LoopInput SettledEffect SettledEffectBatch SemanticEvent)

variable {J V : Type}

/-- Where a compaction leads: back to the model, or to the end of an explicit command. -/
inductive CompactionContinuation where
  | model (modelTurns : UInt32)
  | explicit

/-- The phase that waits for one attempt of a compaction. -/
def CompactionContinuation.phase (continuation : CompactionContinuation) (plan : CompactionPlan J)
    (maxAttempts attempt : NonZeroU32) : LoopPhase J :=
  match continuation with
  | .model modelTurns => .awaitingCompaction modelTurns plan maxAttempts attempt
  | .explicit => .awaitingExplicitCompaction plan maxAttempts attempt

namespace AgentLoop

variable (loop : AgentLoop J V)

/-! ## Context -/

/-- The tools a model sees, Code Mode last. -/
def toolSpecs : List (ToolSpec J) :=
  loop.tools.map LoopTool.spec ++ (loop.codeMode.map LoopCodeMode.spec).toList

def buildContextInput (active : OperationId) (events : List (SemanticEvent V))
    (compactionRequired : Bool) : Except String (ContextInput J) :=
  contextInput loop.serde loop.context active events loop.config.systemPrompt loop.toolSpecs
    compactionRequired

def validateCompactionPlan (active : OperationId) (events : List (SemanticEvent V))
    (plan : CompactionPlan J) : Except String Unit := do
  let input ← loop.buildContextInput active events false
  (validatePlan input plan).mapError fun error =>
    "context compaction plan is invalid: " ++ toString error

def validateExplicitCompactionPlan (input : ContextInput J) (plan : CompactionPlan J) :
    Except String Unit :=
  (validateExplicitPlan input plan).mapError fun error =>
    "explicit context compaction plan is invalid: " ++ toString error

def prepareContext (active : OperationId) (events : List (SemanticEvent V))
    (compactionRequired : Bool) : Except String (ContextPreparation J) := do
  let input ← loop.buildContextInput active events compactionRequired
  let preparation ← (loop.context.prepare input).mapError fun error =>
    "context projection failed: " ++ error
  match preparation with
  | .compact plan _ => loop.validateCompactionPlan active events plan
  | _ => pure ()
  return preparation

def modelRequest (messages : List (Message J)) : ModelRequest J where
  systemPrompt := loop.config.systemPrompt
  messages := modelVisibleMessages messages
  tools := loop.toolSpecs

/-- The request an awaited model effect was persisted with. -/
def normalModelRequest (active : OperationId) (events : List (SemanticEvent V)) :
    Except String (ModelRequest J) := do
  match ← loop.prepareContext active events false with
  | .model messages => return loop.modelRequest messages
  | .compact _ _ =>
    .error "context strategy changed a persisted model request into a compaction request"
  | .capacityExceeded _ _ =>
    .error "context strategy changed a persisted model request into a capacity failure"

/-! ## Compaction -/

section

variable (continuation : CompactionContinuation)

def invokeCompactionAttempt (plan : CompactionPlan J) (maxAttempts attempt : NonZeroU32) :
    LoopDecision V :=
  .invokeEffects (checkpoint loop.serde (continuation.phase plan maxAttempts attempt))
    [{ binding := compactionEffectBinding
       request := loop.serde.modelRequest.encode plan.summaryRequest
       recovery := loop.modelRecovery }]

def invokeCompaction (modelTurns : UInt32) (plan : CompactionPlan J) (maxAttempts : NonZeroU32) :
    LoopDecision V :=
  loop.invokeCompactionAttempt (.model modelTurns) plan maxAttempts .min

def contextCapacityFailure (estimatedInputTokens dispatchLimitTokens : Nat)
    (providerMessage : Option String) : LoopDecision V :=
  let capacity := "context cannot be reduced below the provider limit: estimated " ++
    toString estimatedInputTokens ++ " input tokens, dispatch limit " ++
    toString dispatchLimitTokens
  loop.failWith (match providerMessage with
    | some message => "provider rejected model context: " ++ message ++ "; " ++ capacity
    | none => capacity)

def requestExplicitCompaction (input : LoopInput V) : Except String (LoopDecision V) := do
  ensure input.effectBatch.isNone
    "an explicit-compaction-ready checkpoint cannot have a settled effect"
  let context ← loop.buildContextInput input.operationId input.events false
  let preparation ← (loop.context.prepareExplicitCompaction context).mapError fun error =>
    "explicit context compaction failed: " ++ error
  match preparation with
  | .upToDate estimatedInputTokens =>
    return .complete (checkpoint loop.serde .terminal)
      [loop.serde.compactionResultEvent estimatedInputTokens]
  | .compact plan maxAttempts =>
    validateExplicitCompactionPlan context plan
    return loop.invokeCompactionAttempt .explicit plan maxAttempts .min
  | .capacityExceeded estimatedInputTokens dispatchLimitTokens =>
    return loop.contextCapacityFailure estimatedInputTokens dispatchLimitTokens none

/-- Another attempt of the plan, or the end of the operation. -/
def retryOrFailCompaction (plan : CompactionPlan J) (maxAttempts attempt : NonZeroU32)
    (reason : String) : Except String (LoopDecision V) :=
  if maxAttempts.get ≤ attempt.get then .ok (loop.failWith reason)
  else do
    let next ← require "compaction attempt counter overflowed"
      ((checkedAdd attempt.get 1).bind NonZeroU32.new)
    return loop.invokeCompactionAttempt continuation plan maxAttempts next

/-- The context an explicit compaction is validated in, or the validation of an automatic one. -/
def compactionContext (plan : CompactionPlan J) (input : LoopInput V) :
    Except String (Option (ContextInput J)) :=
  match continuation with
  | .model _ => do
    loop.validateCompactionPlan input.operationId input.events plan
    return none
  | .explicit => do
    let context ← loop.buildContextInput input.operationId input.events false
    validateExplicitCompactionPlan context plan
    return some context

/-- What an accepted summary leads to. -/
def activateSummary (explicitContext : Option (ContextInput J)) (plan : CompactionPlan J)
    (summary : String) : Except String (LoopDecision V) := do
  let activated : ActivatedCheckpoint :=
    { coveredThroughSequence := plan.coveredThroughSequence, summary }
  match continuation with
  | .model modelTurns =>
    let event ← loop.serde.contextCheckpointEvent activated
    return .appendEventsAndContinue (checkpoint loop.serde (.needModel modelTurns)) [event]
  | .explicit =>
    let context ← require "explicit compaction context is missing" explicitContext
    let estimatedInputTokens ←
      (loop.context.estimateAfterExplicitCompaction context plan summary).mapError fun error =>
        "explicit context compaction estimate failed: " ++ error
    let event ← loop.serde.contextCheckpointEvent activated
    return .complete (checkpoint loop.serde .terminal)
      [event, loop.serde.compactionResultEvent estimatedInputTokens]

end

def compactAfterProviderOverflow (modelTurns : UInt32) (operationId : OperationId)
    (events : List (SemanticEvent V)) (providerMessage : String) :
    Except String (LoopDecision V) :=
  if loop.config.maxModelTurns.any fun limit => limit.get ≤ modelTurns then
    .ok (loop.failWith
      ("provider rejected model context after the configured model-turn limit: " ++
        providerMessage))
  else do
    match ← loop.prepareContext operationId events true with
    | .compact plan maxAttempts => return loop.invokeCompaction modelTurns plan maxAttempts
    | .capacityExceeded estimatedInputTokens dispatchLimitTokens =>
      return loop.contextCapacityFailure estimatedInputTokens dispatchLimitTokens
        (some providerMessage)
    | .model _ =>
      return loop.failWith ("provider rejected model context, but the configured context " ++
        "strategy produced no compaction plan: " ++ providerMessage)

section Settling

variable [DecidableEq V]

def settleCompaction (continuation : CompactionContinuation) (plan : CompactionPlan J)
    (maxAttempts attempt : NonZeroU32) (input : LoopInput V) :
    Except String (LoopDecision V) := do
  let explicitContext ← loop.compactionContext continuation plan input
  let effect ← requireEffect input.effectBatch "compaction result"
  requireEffectIdentity effect compactionEffectBinding
    (loop.serde.modelRequest.encode plan.summaryRequest)
  match effect.outcome with
  | .failure message => return loop.failWith message
  | .success output =>
    match ← decoded loop.serde.modelOutput "compaction model output" output with
    | .contextWindowExceeded message =>
      return loop.failWith ("compaction request exceeded provider context: " ++ message)
    | .completed response =>
      match loop.context.validateCompaction plan response with
      | .ok summary => loop.activateSummary continuation explicitContext plan summary
      | .error error => loop.retryOrFailCompaction continuation plan maxAttempts attempt error

/-! ## Models -/

def requestModel (modelTurns : UInt32) (input : LoopInput V) :
    Except String (LoopDecision V) := do
  ensure input.effectBatch.isNone "a model-ready checkpoint cannot have a settled effect"
  match loop.config.maxModelTurns.filter fun limit => limit.get ≤ modelTurns with
  | some limit =>
    return loop.failWith ("model exceeded the configured turn limit of " ++
      toString limit.get.toNat)
  | none =>
    match ← loop.prepareContext input.operationId input.events false with
    | .model messages =>
      let nextTurn ← require "model turn counter overflowed" (checkedAdd modelTurns 1)
      return .invokeEffects (checkpoint loop.serde (.awaitingModel nextTurn))
        [{ binding := modelEffectBinding
           request := loop.serde.modelRequest.encode (loop.modelRequest messages)
           recovery := loop.modelRecovery }]
    | .compact plan maxAttempts => return loop.invokeCompaction modelTurns plan maxAttempts
    | .capacityExceeded estimatedInputTokens dispatchLimitTokens =>
      return loop.contextCapacityFailure estimatedInputTokens dispatchLimitTokens none

/-- What a completed model response leads to. -/
def classifyModelResponse (modelTurns : UInt32) (response : ModelResponse J) :
    Except String (LoopDecision V) :=
  let calls := callsOf response.content
  if loop.config.maxToolCallsPerTurn.get.toNat < calls.length then
    .ok (loop.failWith ("model returned " ++ toString calls.length ++
      " tool calls; the per-turn limit is " ++
      toString loop.config.maxToolCallsPerTurn.get.toNat))
  else
    match validateToolCallIds (calls.map ToolCall.id) with
    | .error error => .ok (loop.failWith (toString error))
    | .ok () =>
      let assistant : Message J :=
        .assistant response.content response.stopReason response.usage response.metadata
      if calls.isEmpty then
        .ok (.complete (checkpoint loop.serde .terminal) [loop.serde.messageEvent assistant])
      else if response.stopReason = .length then
        .ok (.appendEventsAndContinue (checkpoint loop.serde (.needModel modelTurns))
          (loop.serde.messageEvents (assistant :: unavailableMessages calls ("Tool call was " ++
            "not executed because the model response reached its token limit."))))
      else do
        let pending ← PendingToolCalls.new calls
        return .appendEventsAndContinue (checkpoint loop.serde (.needTool modelTurns pending))
          [loop.serde.messageEvent assistant]

def settleModel (modelTurns : UInt32) (input : LoopInput V) : Except String (LoopDecision V) := do
  let effect ← requireEffect input.effectBatch "model result"
  let expected ← loop.normalModelRequest input.operationId input.events
  requireEffectIdentity effect modelEffectBinding (loop.serde.modelRequest.encode expected)
  match effect.outcome with
  | .failure message => return loop.failWith message
  | .success output =>
    match ← decoded loop.serde.modelOutput "model effect output" output with
    | .completed response => loop.classifyModelResponse modelTurns response
    | .contextWindowExceeded message =>
      loop.compactAfterProviderOverflow modelTurns input.operationId input.events message

/-! ## Code Mode -/

def codeExecutor : Except String (LoopCodeMode J) :=
  require "Code Mode binding is no longer configured" loop.codeMode

def invokeCodeStep (modelTurns : UInt32) (pending : PendingToolCalls J) (run : CodeRun)
    (request : CodeStepRequest J) : LoopDecision V :=
  .invokeEffects (checkpoint loop.serde (.awaitingCodeStep modelTurns pending run request))
    [{ binding := codeStepEffectBinding
       request := loop.serde.codeStepRequest.encode request
       recovery := .safeToReplay }]

def requestCodeMode (modelTurns : UInt32) (pending : PendingToolCalls J)
    (operationId : OperationId) : LoopDecision V :=
  let invalid := loop.appendToolResult modelTurns pending (unavailableResult pending.current
    "Code Mode requires nonempty Python source of at most 64 KiB.")
  match loop.serde.codeModeSource pending.current.arguments with
  | .error _ => invalid
  | .ok source =>
    if Text.trim source ≠ "" ∧ source.utf8ByteSize ≤ maxCodeBytes then
      let run := CodeRun.new loop.digest operationId modelTurns pending.current
      loop.invokeCodeStep modelTurns pending run { runId := run.runId, step := .start source }
    else invalid

/-- A Code Mode phase belongs to the call it runs for. -/
def validateCodePhase (phase : LoopPhase J) (operationId : OperationId) : Except String Unit :=
  match phase with
  | .awaitingCodeStep modelTurns pending run _ | .awaitingCodeCalls modelTurns pending run _ _ => do
    let code ← loop.codeExecutor
    ensure (pending.current.name = code.spec.name &&
        run.runId = (CodeRun.new loop.digest operationId modelTurns pending.current).runId)
      "Code Mode checkpoint differs from its outer call identity"
  | _ => .ok ()

/-- The effect of one plugin call. -/
def nestedEffect (code : LoopCodeMode J) (run : CodeRun) (call : CodePluginCall J) :
    EffectRequest V where
  binding := code.nestedBinding
  request := loop.serde.toolCall.encode (nestedToolCall loop.serde run call code.nestedName)
  recovery := code.nestedRecovery

/-- A suspended evaluation: its wave of calls, or the end of the operation. -/
def suspendCode (modelTurns : UInt32) (pending : PendingToolCalls J) (run : CodeRun)
    (snapshot : String) (calls : List (CodePluginCall J)) : Except String (LoopDecision V) :=
  if snapshot = "" ∨ maxCodeSnapshotBytes < snapshot.utf8ByteSize then
    .ok (loop.failTool pending "Code Mode snapshot is empty or exceeds 2 MiB")
  else
    match CodeCallBatch.new loop.serde calls with
    | .error error => .ok (loop.failTool pending error)
    | .ok calls =>
      match run.addWave calls.order.length with
      | .error error => .ok (loop.failTool pending error)
      | .ok run => do
        let code ← loop.codeExecutor
        return .invokeEffects
          (checkpoint loop.serde (.awaitingCodeCalls modelTurns pending run snapshot calls))
          (calls.ordered.map (loop.nestedEffect code run))

def settleCodeStep (modelTurns : UInt32) (pending : PendingToolCalls J) (run : CodeRun)
    (request : CodeStepRequest J) (effectBatch : Option (SettledEffectBatch V)) :
    Except String (LoopDecision V) := do
  let effect ← requireEffect effectBatch "Code Mode step"
  requireEffectIdentity effect codeStepEffectBinding (loop.serde.codeStepRequest.encode request)
  match effect.outcome with
  | .failure message => return loop.failTool pending message
  | .success output =>
    match ← decoded loop.serde.codeStepOutput "Code Mode step output" output with
    | .completed result isError =>
      if maxCodeResultBytes < loop.serde.byteLength result then
        return loop.appendToolResult modelTurns pending (unavailableResult pending.current
          "Code Mode final result exceeds 1 MiB; return a smaller value.")
      else
        return loop.appendToolResult modelTurns pending
          (modelResult loop.serde pending.current result isError)
    | .suspended snapshot calls => loop.suspendCode modelTurns pending run snapshot calls

/-- Indexes settled plugin calls by the identifier of their request. -/
def indexEffects (byId : StringMap (SettledEffect V)) :
    List (SettledEffect V) → Except String (StringMap (SettledEffect V))
  | [] => .ok byId
  | effect :: rest => do
    let request ← decoded loop.serde.toolCall "Code Mode MCP request" effect.request
    ensure (byId.lookup request.id).isNone "Code Mode MCP result repeats a call identity"
    indexEffects (StringMap.insert byId request.id effect) rest

/-- Every call of the wave has its own settled effect. -/
def requireEffects (code : LoopCodeMode J) (run : CodeRun) (byId : StringMap (SettledEffect V)) :
    List (CodePluginCall J) → Except String Unit
  | [] => .ok ()
  | call :: rest => do
    let expected := nestedToolCall loop.serde run call code.nestedName
    let effect ← require "Code Mode MCP result is missing a call identity"
      (byId.lookup expected.id)
    requireEffectIdentity effect code.nestedBinding (loop.serde.toolCall.encode expected)
    requireEffects code run byId rest

def validateSettledCodeBatch (run : CodeRun) (calls : CodeCallBatch J)
    (batch : SettledEffectBatch V) : Except String (StringMap (SettledEffect V)) := do
  let code ← loop.codeExecutor
  ensure (batch.effects.length = calls.order.length)
    "Code Mode MCP result count differs from its call wave"
  let byId ← loop.indexEffects [] batch.effects
  loop.requireEffects code run byId calls.ordered
  return byId

/-- What is read of a settled wave so far: the results for the evaluator, their size, the closings,
and what each call returned. -/
structure Wave (J : Type) where
  results : StringMap J
  resultBytes : Nat
  closings : List Closing
  seen : StringMap (List ContentBlock × Bool)

/-- How reading a settled wave ends. -/
inductive WaveEnd (J : Type) where
  | failed (message : String)
  | tooLarge
  | read (wave : Wave J)

def readWave (run : CodeRun) (effects : StringMap (SettledEffect V)) (wave : Wave J) :
    List (CodePluginCall J) → Except String (WaveEnd J)
  | [] => .ok (.read wave)
  | call :: rest => do
    let identity := run.callId call.callId
    let effect ← require "Code Mode MCP result is missing" (effects.lookup identity)
    match effect.outcome with
    | .failure message => return .failed message
    | .success value =>
      let result ← decoded loop.serde.toolResult "Code Mode MCP tool result" value
      let code ← loop.codeExecutor
      ensure (result.callId = identity && result.name = code.nestedName)
        "Code Mode MCP result identity differs from its request"
      let value := pythonResult loop.serde result
      let resultBytes := wave.resultBytes + loop.serde.byteLength value
      if maxCodeWaveResultsBytes < resultBytes then return .tooLarge
      else
        readWave run effects
          { results := StringMap.insert wave.results (callKey call.callId) value
            resultBytes
            closings := wave.closings ++ result.closing.toList
            seen := StringMap.insert wave.seen (callKey call.callId)
              (result.content, result.isError) } rest

/-- Stops a run whose wave ended the turn. -/
def stopCodeRun (pending : PendingToolCalls J) (seen : StringMap (List ContentBlock × Bool))
    (closings : List Closing) (events : List (SemanticEvent V)) :
    Except String (LoopDecision V) :=
  let serde := loop.serde
  let results := serde.object (seen.map fun entry =>
    (entry.1, serde.object
      [("content", serde.content entry.2.1), ("is_error", serde.bool entry.2.2)]))
  let reason := ("stopped", serde.string "a call ended the turn")
  let stopped := serde.object [reason, ("results", results)]
  let stopped := if maxCodeResultBytes < serde.byteLength stopped then serde.object [reason]
    else stopped
  loop.closeTurn pending (modelResult serde pending.current stopped false)
    { message := "\n\n".intercalate (closings.map Closing.message)
      notRun := (closings.head?.map Closing.notRun).getD "" } events

def settleCodeCalls (modelTurns : UInt32) (pending : PendingToolCalls J) (run : CodeRun)
    (snapshot : String) (calls : CodeCallBatch J) (input : LoopInput V) :
    Except String (LoopDecision V) := do
  let batch ← require "Code Mode MCP checkpoint has no settled batch" input.effectBatch
  let effects ← loop.validateSettledCodeBatch run calls batch
  match ← loop.readWave run effects ⟨[], 0, [], []⟩ calls.ordered with
  | .failed message => return loop.failTool pending message
  | .tooLarge =>
    return loop.appendToolResult modelTurns pending (unavailableResult pending.current
      "MCP results exceed Code Mode's 2 MiB per-wave limit; request less data.")
  | .read wave =>
    if wave.closings ≠ [] then
      loop.stopCodeRun pending wave.seen wave.closings input.events
    else
      return loop.invokeCodeStep modelTurns pending run
        { runId := run.runId, step := .resume snapshot wave.results }

/-! ## Tools -/

def configuredTool (call : ToolCall J) : Except String (LoopTool J) :=
  require "awaited tool binding is no longer configured"
    (loop.tools.find? fun tool => tool.spec.name = call.name)

def requestTool (modelTurns : UInt32) (pending : PendingToolCalls J) (input : LoopInput V) :
    Except String (LoopDecision V) := do
  ensure input.effectBatch.isNone "a tool-ready checkpoint cannot have a settled effect"
  let call := pending.current
  if loop.codeMode.any fun code => call.name = code.spec.name then
    return loop.requestCodeMode modelTurns pending input.operationId
  else
    match loop.tools.find? fun tool => tool.spec.name = call.name with
    | none =>
      return loop.appendToolResult modelTurns pending
        (unavailableResult call ("Tool `" ++ call.name ++ "` is not available."))
    | some tool =>
      return .invokeEffects (checkpoint loop.serde (.awaitingTool modelTurns pending))
        [{ binding := tool.effectBinding
           request := loop.serde.toolCall.encode call
           recovery := tool.recovery }]

def settleTool (modelTurns : UInt32) (pending : PendingToolCalls J)
    (events : List (SemanticEvent V)) (effectBatch : Option (SettledEffectBatch V)) :
    Except String (LoopDecision V) := do
  let call := pending.current
  let tool ← loop.configuredTool call
  let effect ← requireEffect effectBatch "tool result"
  requireEffectIdentity effect tool.effectBinding (loop.serde.toolCall.encode call)
  match effect.outcome with
  | .failure message => return loop.failTool pending message
  | .success value =>
    let result ← decoded loop.serde.toolResult "tool result" value
    ensure (result.callId = call.id && result.name = call.name)
      "tool result identity differs from its persisted request"
    match result.closing with
    | some closing => loop.closeTurn pending { result with closing := none } closing events
    | none => return loop.appendToolResult modelTurns pending result

/-! ## Decisions -/

section

variable (input : LoopInput V)

def decideInitial : Except String (LoopDecision V) := do
  ensure input.effectBatch.isNone "an uncheckpointed operation cannot have a settled effect"
  match loop.serde.decodeCommand input.command.content with
  | .error error => return loop.failWith ("invalid agent command: " ++ error)
  | .ok (.prompt content observation) =>
    return .appendEventsAndContinue (checkpoint loop.serde (.needModel 0))
      (loop.serde.messageEvent (.user content) ::
        (loop.serde.observationEvent observation).toList)
  | .ok .compact => loop.requestExplicitCompaction input

/-- The decision of a decoded phase. -/
def decidePhase : LoopPhase J → Except String (LoopDecision V)
  | .needModel modelTurns => loop.requestModel modelTurns input
  | .awaitingModel modelTurns => loop.settleModel modelTurns input
  | .awaitingCompaction modelTurns plan maxAttempts attempt =>
    loop.settleCompaction (.model modelTurns) plan maxAttempts attempt input
  | .awaitingExplicitCompaction plan maxAttempts attempt =>
    loop.settleCompaction .explicit plan maxAttempts attempt input
  | .needTool modelTurns pending => loop.requestTool modelTurns pending input
  | .awaitingTool modelTurns pending =>
    loop.settleTool modelTurns pending input.events input.effectBatch
  | .awaitingCodeStep modelTurns pending run request =>
    loop.settleCodeStep modelTurns pending run request input.effectBatch
  | .awaitingCodeCalls modelTurns pending run snapshot calls =>
    loop.settleCodeCalls modelTurns pending run snapshot calls input
  | .terminal => .error "a terminal agent checkpoint cannot be driven"

def decide : Except String (LoopDecision V) :=
  match input.checkpoint with
  | none => loop.decideInitial input
  | some saved => do
    let phase ← decodeCheckpoint loop.serde saved
    loop.validateCodePhase phase input.operationId
    loop.decidePhase input phase

end

end Settling

end AgentLoop

end Renoa.Loop
