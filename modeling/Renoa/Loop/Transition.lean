import Renoa.Loop.Interruption

/-!
# What a decision can do

`Decided` lists the transitions of the loop: for each phase, the decisions it can lead to with the
facts that were checked on the way. `decide_ok` inverts `AgentLoop.decide` into it, and every
invariant of the loop is a case analysis over it. A cancelled or abandoned operation only closes
the calls its phase still owes (`cancelOperation_ok`, `abandonUnknownEffect_ok`).
-/

namespace Renoa.Loop

open Foundation List
open Agent
open Kernel (OperationId EffectRequest EffectOutcome NewEvent LoopDecision LoopInput
  SettledEffect SettledEffectBatch CancellationInput CancellationTransition UnknownEffectInput
  UnknownEffectAbandonment)

variable {J V : Type} {pending : PendingToolCalls J} {result : ToolResult J} {phase : LoopPhase J}
  {modelTurns : UInt32} {continuation : CompactionContinuation} {plan : CompactionPlan J}
  {maxAttempts attempt : NonZeroU32} {run : CodeRun} {cancellation : CancellationInput V}
  {transition : CancellationTransition V}

/-! ## Phases and their pending calls -/

/-- The turn and the calls of a phase that owes tool results. -/
def LoopPhase.tools : LoopPhase J → Option (UInt32 × PendingToolCalls J)
  | .needTool modelTurns pending | .awaitingTool modelTurns pending
  | .awaitingCodeStep modelTurns pending _ _ | .awaitingCodeCalls modelTurns pending _ _ _ =>
    some (modelTurns, pending)
  | .needModel _ | .awaitingModel _ | .awaitingCompaction _ _ _ _
  | .awaitingExplicitCompaction _ _ _ | .terminal => none

/-- The calls a phase owes results for, in order. -/
def LoopPhase.owed (phase : LoopPhase J) : List (ToolCall J) :=
  (phase.tools.map fun tools => tools.2.iter).getD []

/-- The calls an operation owes results for; none before its first checkpoint. -/
def owedBy (phase : Option (LoopPhase J)) : List (ToolCall J) := (phase.map LoopPhase.owed).getD []

/-- The result carries the identifier and the name of the call. -/
def ResultOf (call : ToolCall J) (result : ToolResult J) : Prop :=
  result.callId = call.id ∧ result.name = call.name

/-- The messages are the results of the calls, in order. -/
def Answers (calls : List (ToolCall J)) (messages : List (Message J)) : Prop :=
  List.Forall₂ (fun call message => ∃ result, message = .tool result ∧ ResultOf call result)
    calls messages

theorem resultOf_unavailableResult (call : ToolCall J) (msg : String) :
    ResultOf call (unavailableResult call msg) := ⟨rfl, rfl⟩

theorem answers_unavailableMessages (calls : List (ToolCall J)) (msg : String) :
    Answers calls (unavailableMessages calls msg) := by
  induction calls with
  | nil => exact .nil
  | cons call rest ih => exact .cons ⟨_, rfl, resultOf_unavailableResult call msg⟩ ih

theorem Answers.of_current (hres : ResultOf pending.current result) (msg : String) :
    Answers pending.iter (.tool result :: unavailableMessages pending.remaining msg) :=
  .cons ⟨result, rfl, hres⟩ (answers_unavailableMessages _ _)

theorem answers_closedMessages (pending : PendingToolCalls J) (cur later : String) :
    Answers pending.iter (closedMessages pending cur later) :=
  .of_current (resultOf_unavailableResult _ _) later

/-! ## Decisions -/

namespace AgentLoop

variable (loop : AgentLoop J V)

/-- The turn is below the configured limit. -/
def BelowLimit (modelTurns : UInt32) : Prop :=
  ∀ limit ∈ loop.config.maxModelTurns, modelTurns < limit.get

/-- The output the single settled model effect of an input carries. -/
def ModelAnswer (input : LoopInput V) (output : ModelEffectOutput J) : Prop :=
  ∃ batch effect value, input.effectBatch = some batch ∧ batch.effects = [effect] ∧
    effect.outcome = .success value ∧ loop.serde.modelOutput.decode value = .ok output

/-- The assistant message of a response. -/
def assistantMessage (response : ModelResponse J) : Message J :=
  .assistant response.content response.stopReason response.usage response.metadata

/-- The decisions an operation's phase can lead to; `none` before the first checkpoint. -/
inductive Decided (input : LoopInput V) : Option (LoopPhase J) → LoopDecision V → Prop
  | failed {phase : Option (LoopPhase J)} (hidle : ∀ p ∈ phase, p.tools = none)
      (reason : String) : Decided input phase (loop.failWith reason)
  | prompted {content : List ContentBlock} {observation : Observation}
      (hcommand : loop.serde.decodeCommand input.command.content =
        .ok (.prompt content observation)) :
      Decided input none (.appendEventsAndContinue (checkpoint loop.serde (.needModel 0))
        (loop.serde.messageEvent (.user content) ::
          (loop.serde.observationEvent observation).toList))
  | upToDate {tokens : Nat}
      (hcommand : loop.serde.decodeCommand input.command.content = .ok .compact) :
      Decided input none (.complete (checkpoint loop.serde .terminal)
        [loop.serde.compactionResultEvent tokens])
  | plannedExplicitly {context : ContextInput J} {plan : CompactionPlan J}
      {maxAttempts : NonZeroU32}
      (hcommand : loop.serde.decodeCommand input.command.content = .ok .compact)
      (hcontext : loop.buildContextInput input.operationId input.events false = .ok context)
      (hprepared : loop.context.prepareExplicitCompaction context =
        .ok (.compact plan maxAttempts))
      (hvalid : validateExplicitPlan context plan = .ok ()) :
      Decided input none (loop.invokeCompactionAttempt .explicit plan maxAttempts .min)
  | dispatched {modelTurns next : UInt32} {messages : List (Message J)}
      (hlimit : loop.BelowLimit modelTurns)
      (hprepared : loop.prepareContext input.operationId input.events false =
        .ok (.model messages))
      (hnext : checkedAdd modelTurns 1 = some next) :
      Decided input (some (.needModel modelTurns))
        (.invokeEffects (checkpoint loop.serde (.awaitingModel next))
          [{ binding := modelEffectBinding
             request := loop.serde.modelRequest.encode (loop.modelRequest messages)
             recovery := loop.modelRecovery }])
  | planned {phase : LoopPhase J} {modelTurns : UInt32} {required : Bool}
      {plan : CompactionPlan J} {maxAttempts : NonZeroU32}
      (hphase : phase = .needModel modelTurns ∧ required = false ∨
        phase = .awaitingModel modelTurns ∧ required = true)
      (hlimit : loop.BelowLimit modelTurns)
      (hprepared : loop.prepareContext input.operationId input.events required =
        .ok (.compact plan maxAttempts)) :
      Decided input (some phase) (loop.invokeCompaction modelTurns plan maxAttempts)
  | retried {continuation : CompactionContinuation} {plan : CompactionPlan J}
      {maxAttempts attempt next : NonZeroU32} (hlt : attempt.get < maxAttempts.get)
      (hnext : next.get.toNat = attempt.get.toNat + 1) :
      Decided input (some (continuation.phase plan maxAttempts attempt))
        (loop.invokeCompactionAttempt continuation plan maxAttempts next)
  | summarized {modelTurns : UInt32} {plan : CompactionPlan J}
      {maxAttempts attempt : NonZeroU32} {summary : String} {event : NewEvent V}
      (hvalid : loop.validateCompactionPlan input.operationId input.events plan = .ok ())
      (hevent : loop.serde.contextCheckpointEvent
        { coveredThroughSequence := plan.coveredThroughSequence, summary } = .ok event) :
      Decided input (some (.awaitingCompaction modelTurns plan maxAttempts attempt))
        (.appendEventsAndContinue (checkpoint loop.serde (.needModel modelTurns)) [event])
  | summarizedExplicitly {context : ContextInput J} {plan : CompactionPlan J}
      {maxAttempts attempt : NonZeroU32} {summary : String} {event : NewEvent V} {tokens : Nat}
      (hcontext : loop.buildContextInput input.operationId input.events false = .ok context)
      (hvalid : validateExplicitPlan context plan = .ok ())
      (hevent : loop.serde.contextCheckpointEvent
        { coveredThroughSequence := plan.coveredThroughSequence, summary } = .ok event) :
      Decided input (some (.awaitingExplicitCompaction plan maxAttempts attempt))
        (.complete (checkpoint loop.serde .terminal)
          [event, loop.serde.compactionResultEvent tokens])
  | completed {modelTurns : UInt32} {response : ModelResponse J}
      (hanswer : loop.ModelAnswer input (.completed response))
      (hcalls : callsOf response.content = []) :
      Decided input (some (.awaitingModel modelTurns))
        (.complete (checkpoint loop.serde .terminal)
          [loop.serde.messageEvent (assistantMessage response)])
  | truncated {modelTurns : UInt32} {response : ModelResponse J} (message : String)
      (hanswer : loop.ModelAnswer input (.completed response))
      (hcalls : callsOf response.content ≠ [])
      (hids : validateToolCallIds ((callsOf response.content).map ToolCall.id) = .ok ()) :
      Decided input (some (.awaitingModel modelTurns))
        (.appendEventsAndContinue (checkpoint loop.serde (.needModel modelTurns))
          (loop.serde.messageEvents (assistantMessage response ::
            unavailableMessages (callsOf response.content) message)))
  | called {modelTurns : UInt32} {response : ModelResponse J} {pending : PendingToolCalls J}
      (hanswer : loop.ModelAnswer input (.completed response))
      (hnew : PendingToolCalls.new (callsOf response.content) = .ok pending) :
      Decided input (some (.awaitingModel modelTurns))
        (.appendEventsAndContinue (checkpoint loop.serde (.needTool modelTurns pending))
          [loop.serde.messageEvent (assistantMessage response)])
  | answered {phase : LoopPhase J} {modelTurns : UInt32} {pending : PendingToolCalls J}
      {result : ToolResult J} (htools : phase.tools = some (modelTurns, pending))
      (hresult : ResultOf pending.current result) :
      Decided input (some phase) (loop.appendToolResult modelTurns pending result)
  | failedTool {phase : LoopPhase J} {modelTurns : UInt32} {pending : PendingToolCalls J}
      (htools : phase.tools = some (modelTurns, pending)) (reason : String) :
      Decided input (some phase) (loop.failTool pending reason)
  | closed {phase : LoopPhase J} {modelTurns : UInt32} {pending : PendingToolCalls J}
      {result : ToolResult J} {closing : Closing} {metadata : AssistantMetadata}
      (htools : phase.tools = some (modelTurns, pending))
      (hresult : ResultOf pending.current result) :
      Decided input (some phase) (.waitForInput (checkpoint loop.serde .terminal)
        (loop.serde.messageEvents (closingMessages pending result closing metadata)))
  | invokedTool {modelTurns : UInt32} {pending : PendingToolCalls J} {tool : LoopTool J}
      (htool : loop.configuredTool pending.current = .ok tool) :
      Decided input (some (.needTool modelTurns pending))
        (.invokeEffects (checkpoint loop.serde (.awaitingTool modelTurns pending))
          [{ binding := tool.effectBinding
             request := loop.serde.toolCall.encode pending.current
             recovery := tool.recovery }])
  | startedCode {modelTurns : UInt32} {pending : PendingToolCalls J} {code : LoopCodeMode J}
      {run : CodeRun} {source : String} (hcode : loop.codeMode = some code)
      (hname : pending.current.name = code.spec.name)
      (hrun : run = CodeRun.new loop.digest input.operationId modelTurns pending.current)
      (hsource : Text.trim source ≠ "" ∧ source.utf8ByteSize ≤ maxCodeBytes) :
      Decided input (some (.needTool modelTurns pending))
        (loop.invokeCodeStep modelTurns pending run { runId := run.runId, step := .start source })
  | suspended {modelTurns : UInt32} {pending : PendingToolCalls J} {run next : CodeRun}
      {request : CodeStepRequest J} {snapshot : String} {plugins : List (CodePluginCall J)}
      {calls : CodeCallBatch J} {code : LoopCodeMode J}
      (hsnapshot : snapshot ≠ "" ∧ snapshot.utf8ByteSize ≤ maxCodeSnapshotBytes)
      (hcalls : CodeCallBatch.new loop.serde plugins = .ok calls)
      (hwave : run.addWave calls.order.length = .ok next)
      (hcode : loop.codeMode = some code) :
      Decided input (some (.awaitingCodeStep modelTurns pending run request))
        (.invokeEffects
          (checkpoint loop.serde (.awaitingCodeCalls modelTurns pending next snapshot calls))
          (calls.ordered.map (loop.nestedEffect code next)))
  | resumed {modelTurns : UInt32} {pending : PendingToolCalls J} {run : CodeRun}
      {snapshot : String} {calls : CodeCallBatch J} {results : StringMap J}
      (hresults : results.map Prod.fst = calls.order.map callKey) :
      Decided input (some (.awaitingCodeCalls modelTurns pending run snapshot calls))
        (loop.invokeCodeStep modelTurns pending run
          { runId := run.runId, step := .resume snapshot results })

/-! ## Inversion -/

section Inversion

variable {loop} {input : LoopInput V} {dec : LoopDecision V} {req : CodeStepRequest J}

theorem idle_none : ∀ p ∈ (none : Option (LoopPhase J)), p.tools = none := by
  intro p hp
  cases hp

theorem idle_some (h : phase.tools = none) : ∀ p ∈ some phase, p.tools = none := by
  intro p hp
  cases hp
  exact h

theorem CompactionContinuation.tools_phase (continuation : CompactionContinuation)
    (plan : CompactionPlan J) (maxAttempts attempt : NonZeroU32) :
    (continuation.phase plan maxAttempts attempt).tools = none := by
  cases continuation <;> rfl

theorem belowLimit_of_filter
    (h : (loop.config.maxModelTurns.filter fun limit => limit.get ≤ modelTurns) = none) :
    loop.BelowLimit modelTurns := by
  intro limit hlim
  rw [Option.filter_eq_none_iff] at h
  have hnot : ¬ limit.get ≤ modelTurns := by
    intro hle
    exact h limit hlim (decide_eq_true hle)
  exact UInt32.not_le.mp hnot

theorem requestExplicitCompaction_ok
    (hcmd : loop.serde.decodeCommand input.command.content = .ok .compact)
    (h : loop.requestExplicitCompaction input = .ok dec) :
    loop.Decided input none dec := by
  obtain ⟨_, _, h⟩ := bind_ok h
  obtain ⟨ctx, hctx, h⟩ := bind_ok h
  obtain ⟨preparation, hprep, h⟩ := bind_ok h
  have hprep := mapError_eq_ok.mp hprep
  cases preparation with
  | upToDate tokens =>
    cases h
    exact .upToDate hcmd
  | compact plan maxAttempts =>
    obtain ⟨_, hval, h⟩ := bind_ok h
    cases h
    exact .plannedExplicitly hcmd hctx hprep (mapError_eq_ok.mp hval)
  | capacityExceeded estimated limit =>
    cases h
    exact .failed idle_none _

theorem retryOrFailCompaction_ok {reason : String}
    (h : loop.retryOrFailCompaction continuation plan maxAttempts attempt reason = .ok dec) :
    loop.Decided input (some (continuation.phase plan maxAttempts attempt)) dec := by
  unfold retryOrFailCompaction at h
  split at h
  · cases h
    exact .failed (idle_some (CompactionContinuation.tools_phase _ _ _ _)) _
  · rename_i hlt
    obtain ⟨next, hnext, h⟩ := require_bind_ok h
    cases h
    obtain ⟨count, hcnt, hnew⟩ := Option.bind_eq_some_iff.mp hnext
    refine .retried (UInt32.not_le.mp hlt) ?_
    rw [NonZeroU32.new_eq_some hnew]
    exact checkedAdd_eq_some hcnt

theorem activateSummary_ok {ctx : Option (ContextInput J)} {summary : String}
    (hctx : loop.compactionContext continuation plan input = .ok ctx)
    (h : loop.activateSummary continuation ctx plan summary = .ok dec) :
    loop.Decided input (some (continuation.phase plan maxAttempts attempt)) dec := by
  cases continuation with
  | model modelTurns =>
    obtain ⟨_, hval, _⟩ := bind_ok hctx
    obtain ⟨ev, hev, h⟩ := bind_ok h
    cases h
    exact .summarized hval hev
  | explicit =>
    obtain ⟨built, hbuilt, hctx⟩ := bind_ok hctx
    obtain ⟨_, hval, hctx⟩ := bind_ok hctx
    obtain ⟨_, _, h⟩ := bind_ok h
    obtain ⟨tokens, _, h⟩ := bind_ok h
    obtain ⟨ev, hev, h⟩ := bind_ok h
    cases h
    exact .summarizedExplicitly hbuilt (mapError_eq_ok.mp hval) hev

theorem requireEffect_eq_ok {batch : Option (SettledEffectBatch V)} {expected : String}
    {eff : SettledEffect V} (h : requireEffect batch expected = .ok eff) :
    ∃ settled, batch = some settled ∧ settled.effects = [eff] := by
  cases batch with
  | none => cases h
  | some settled =>
    obtain ⟨bid, effs⟩ := settled
    rcases effs with _ | ⟨first, _ | ⟨second, rest⟩⟩
    · cases h
    · cases h
      exact ⟨_, rfl, rfl⟩
    · cases h

theorem settleCompaction_ok [DecidableEq V]
    (h : loop.settleCompaction continuation plan maxAttempts attempt input = .ok dec) :
    loop.Decided input (some (continuation.phase plan maxAttempts attempt)) dec := by
  have hfailed : ∀ reason, loop.Decided input (some (continuation.phase plan maxAttempts attempt))
        (loop.failWith reason) :=
    .failed (idle_some (CompactionContinuation.tools_phase _ _ _ _))
  obtain ⟨ctx, hctx, h⟩ := bind_ok h
  obtain ⟨eff, _, h⟩ := bind_ok h
  obtain ⟨_, _, h⟩ := bind_ok h
  cases hout : eff.outcome with
  | failure msg =>
    simp only [hout] at h
    cases h
    exact hfailed _
  | success value =>
    simp only [hout] at h
    obtain ⟨output, _, h⟩ := bind_ok h
    cases output with
    | contextWindowExceeded msg =>
      cases h
      exact hfailed _
    | completed response =>
      cases hsummary : loop.context.validateCompaction plan response with
      | ok summary =>
        simp only [hsummary] at h
        exact activateSummary_ok hctx h
      | error reason =>
        simp only [hsummary] at h
        exact retryOrFailCompaction_ok h

theorem requestModel_ok (h : loop.requestModel modelTurns input = .ok dec) :
    loop.Decided input (some (.needModel modelTurns)) dec := by
  obtain ⟨_, _, h⟩ := bind_ok h
  split at h
  · cases h
    exact .failed (idle_some rfl) _
  · rename_i hlim
    have hlim := belowLimit_of_filter hlim
    obtain ⟨preparation, hprep, h⟩ := bind_ok h
    cases preparation with
    | model msgs =>
      obtain ⟨next, hnext, h⟩ := require_bind_ok h
      cases h
      exact .dispatched hlim hprep hnext
    | compact plan maxAttempts =>
      cases h
      exact .planned (.inl ⟨rfl, rfl⟩) hlim hprep
    | capacityExceeded estimated limit =>
      cases h
      exact .failed (idle_some rfl) _

theorem compactAfterProviderOverflow_ok {msg : String}
    (h : loop.compactAfterProviderOverflow modelTurns input.operationId input.events msg = .ok
      dec) : loop.Decided input (some (.awaitingModel modelTurns)) dec := by
  unfold compactAfterProviderOverflow at h
  split at h
  · cases h
    exact .failed (idle_some rfl) _
  · rename_i hreached
    have hlim : loop.BelowLimit modelTurns := by
      intro limit hlim
      refine UInt32.not_le.mp fun hle => hreached ?_
      exact (Option.any_eq_true _ _).mpr ⟨limit, hlim, decide_eq_true hle⟩
    obtain ⟨preparation, hprep, h⟩ := bind_ok h
    cases preparation with
    | model msgs =>
      cases h
      exact .failed (idle_some rfl) _
    | compact plan maxAttempts =>
      cases h
      exact .planned (.inr ⟨rfl, rfl⟩) hlim hprep
    | capacityExceeded estimated limit =>
      cases h
      exact .failed (idle_some rfl) _

theorem classifyModelResponse_ok {response : ModelResponse J}
    (hans : loop.ModelAnswer input (.completed response))
    (h : loop.classifyModelResponse modelTurns response = .ok dec) :
    loop.Decided input (some (.awaitingModel modelTurns)) dec := by
  simp only [classifyModelResponse] at h
  split at h
  · cases h
    exact .failed (idle_some rfl) _
  · split at h
    · cases h
      exact .failed (idle_some rfl) _
    · rename_i hids
      split at h
      · rename_i hcalls
        cases h
        exact .completed hans (isEmpty_iff.mp hcalls)
      · rename_i hcalls
        split at h
        · cases h
          exact .truncated _ hans (fun hnil => hcalls (isEmpty_iff.mpr hnil)) hids
        · obtain ⟨pending, hnew, h⟩ := bind_ok h
          cases h
          exact .called hans hnew

theorem settleModel_ok [DecidableEq V] (h : loop.settleModel modelTurns input = .ok dec) :
    loop.Decided input (some (.awaitingModel modelTurns)) dec := by
  obtain ⟨eff, heff, h⟩ := bind_ok h
  obtain ⟨expected, _, h⟩ := bind_ok h
  obtain ⟨_, _, h⟩ := bind_ok h
  cases hout : eff.outcome with
  | failure msg =>
    simp only [hout] at h
    cases h
    exact .failed (idle_some rfl) _
  | success value =>
    simp only [hout] at h
    obtain ⟨output, houtput, h⟩ := bind_ok h
    cases output with
    | completed response =>
      obtain ⟨batch, hbat, heffs⟩ := requireEffect_eq_ok heff
      exact classifyModelResponse_ok
        ⟨batch, eff, value, hbat, heffs, hout, mapError_eq_ok.mp houtput⟩ h
    | contextWindowExceeded msg => exact compactAfterProviderOverflow_ok h

theorem requestCodeMode_ok {code : LoopCodeMode J} (hcode : loop.codeMode = some code)
    (hname : pending.current.name = code.spec.name) :
    loop.Decided input (some (.needTool modelTurns pending))
      (loop.requestCodeMode modelTurns pending input.operationId) := by
  unfold requestCodeMode
  split
  · exact .answered rfl (resultOf_unavailableResult _ _)
  · split
    · rename_i hsrc
      exact .startedCode hcode hname rfl hsrc
    · exact .answered rfl (resultOf_unavailableResult _ _)

theorem requestTool_ok (h : loop.requestTool modelTurns pending input = .ok dec) :
    loop.Decided input (some (.needTool modelTurns pending)) dec := by
  obtain ⟨_, _, h⟩ := bind_ok h
  dsimp only at h
  split at h
  · rename_i hcode
    obtain ⟨code, hcode, hname⟩ := (Option.any_eq_true _ _).mp hcode
    cases h
    exact requestCodeMode_ok hcode (of_decide_eq_true hname)
  · cases htool : loop.tools.find? fun tool => tool.spec.name = pending.current.name with
    | none =>
      simp only [htool] at h
      cases h
      exact .answered rfl (resultOf_unavailableResult _ _)
    | some tool =>
      simp only [htool] at h
      cases h
      exact .invokedTool (require_eq_ok.mpr htool)

theorem closeTurn_ok {closing : Closing} {evs : List (Kernel.SemanticEvent V)}
    (htools : phase.tools = some (modelTurns, pending)) (hres : ResultOf pending.current result)
    (h : loop.closeTurn pending result closing evs = .ok dec) :
    loop.Decided input (some phase) dec := by
  obtain ⟨_, _, h⟩ := bind_ok h
  obtain ⟨metadata, _, h⟩ := bind_ok h
  cases h
  exact .closed htools hres

theorem settleTool_ok [DecidableEq V]
    (h : loop.settleTool modelTurns pending input.events input.effectBatch = .ok dec) :
    loop.Decided input (some (.awaitingTool modelTurns pending)) dec := by
  obtain ⟨tool, _, h⟩ := bind_ok h
  obtain ⟨eff, _, h⟩ := bind_ok h
  obtain ⟨_, _, h⟩ := bind_ok h
  cases hout : eff.outcome with
  | failure msg =>
    simp only [hout] at h
    cases h
    exact .failedTool rfl _
  | success value =>
    simp only [hout] at h
    obtain ⟨result, _, h⟩ := bind_ok h
    obtain ⟨hident, h⟩ := ensure_bind_ok h
    simp only [Bool.and_eq_true, decide_eq_true_eq] at hident
    split at h
    · refine closeTurn_ok rfl ?_ h
      exact hident
    · cases h
      exact .answered rfl hident

theorem suspendCode_ok {snapshot : String} {plugins : List (CodePluginCall J)}
    (h : loop.suspendCode modelTurns pending run snapshot plugins = .ok dec) :
    loop.Decided input (some (.awaitingCodeStep modelTurns pending run req)) dec := by
  unfold suspendCode at h
  split at h
  · cases h
    exact .failedTool rfl _
  · rename_i hsnap
    rw [not_or, Nat.not_lt] at hsnap
    split at h
    · cases h
      exact .failedTool rfl _
    · rename_i calls hcalls
      split at h
      · cases h
        exact .failedTool rfl _
      · rename_i next hwave
        obtain ⟨code, hcode, h⟩ := require_bind_ok h
        cases h
        exact .suspended hsnap hcalls hwave hcode

theorem settleCodeStep_ok [DecidableEq V]
    (h : loop.settleCodeStep modelTurns pending run req input.effectBatch = .ok dec) :
    loop.Decided input (some (.awaitingCodeStep modelTurns pending run req)) dec := by
  obtain ⟨eff, _, h⟩ := bind_ok h
  obtain ⟨_, _, h⟩ := bind_ok h
  cases hout : eff.outcome with
  | failure msg =>
    simp only [hout] at h
    cases h
    exact .failedTool rfl _
  | success value =>
    simp only [hout] at h
    obtain ⟨output, _, h⟩ := bind_ok h
    cases output with
    | completed result isError =>
      dsimp only at h
      split at h
      · cases h
        exact .answered rfl (resultOf_unavailableResult _ _)
      · cases h
        exact .answered rfl ⟨rfl, rfl⟩
    | suspended snapshot plugins => exact suspendCode_ok h

/-- The results of a wave that was read are keyed by its calls, in order. -/
theorem readWave_ok {effs : StringMap (SettledEffect V)} {wave final : Wave J}
    {calls : List (CodePluginCall J)} (hnd : (calls.map CodePluginCall.callId).Nodup)
    (hfsh : ∀ call ∈ calls, callKey call.callId ∉ wave.results.map Prod.fst)
    (h : loop.readWave run effs wave calls = .ok (.read final)) :
    final.results.map Prod.fst =
      wave.results.map Prod.fst ++ calls.map fun call => callKey call.callId := by
  induction calls generalizing wave with
  | nil =>
    cases h
    simp
  | cons call rest ih =>
    obtain ⟨eff, _, h⟩ := bind_ok h
    cases hout : eff.outcome with
    | failure msg =>
      simp only [hout] at h
      cases h
    | success value =>
      simp only [hout] at h
      obtain ⟨result, _, h⟩ := bind_ok h
      obtain ⟨code, _, h⟩ := bind_ok h
      obtain ⟨_, _, h⟩ := bind_ok h
      split at h
      · cases h
      · have hkey := hfsh call mem_cons_self
        have hrest := nodup_cons.mp hnd
        rw [StringMap.insert_eq_append hkey] at h
        rw [ih hrest.2 _ h]
        · simp
        · intro other hoth hmem
          simp only [map_append, map_cons, map_nil, mem_append, mem_singleton] at hmem
          rcases hmem with hmem | hmem
          · exact hfsh other (mem_cons_of_mem _ hoth) hmem
          · exact hrest.1 (callKey_injective hmem ▸ mem_map_of_mem hoth)

theorem settleCodeCalls_ok [DecidableEq V] {snapshot : String} {calls : CodeCallBatch J}
    (hval : calls.validate loop.serde = .ok ())
    (h : loop.settleCodeCalls modelTurns pending run snapshot calls input = .ok dec) :
    loop.Decided input (some (.awaitingCodeCalls modelTurns pending run snapshot calls))
      dec := by
  obtain ⟨batch, _, h⟩ := bind_ok h
  obtain ⟨effs, _, h⟩ := bind_ok h
  obtain ⟨ended, hread, h⟩ := bind_ok h
  cases ended with
  | failed msg =>
    cases h
    exact .failedTool rfl _
  | tooLarge =>
    cases h
    exact .answered rfl (resultOf_unavailableResult _ _)
  | read wave =>
    dsimp only at h
    split at h
    · refine closeTurn_ok rfl ?_ h
      exact ⟨rfl, rfl⟩
    · cases h
      have horder := CodeCallBatch.map_callId_ordered hval
      obtain ⟨_, _, hnd, _⟩ := CodeCallBatch.validate_eq_ok hval
      have hkeys := readWave_ok (horder ▸ hnd) (fun _ _ => not_mem_nil) hread
      refine .resumed ?_
      rw [hkeys, ← horder, map_map]
      rfl

theorem decideInitial_ok (h : loop.decideInitial input = .ok dec) :
    loop.Decided input none dec := by
  obtain ⟨_, _, h⟩ := bind_ok h
  split at h
  · cases h
    exact .failed idle_none _
  · rename_i hcmd
    cases h
    exact .prompted hcmd
  · rename_i hcmd
    exact requestExplicitCompaction_ok hcmd h

theorem decidePhase_ok [DecidableEq V] (hval : phase.validate loop.serde = .ok ())
    (h : loop.decidePhase input phase = .ok dec) :
    loop.Decided input (some phase) dec := by
  cases phase with
  | needModel modelTurns => exact requestModel_ok h
  | awaitingModel modelTurns => exact settleModel_ok h
  | awaitingCompaction modelTurns plan maxAttempts attempt
  | awaitingExplicitCompaction plan maxAttempts attempt => exact settleCompaction_ok h
  | needTool modelTurns pending => exact requestTool_ok h
  | awaitingTool modelTurns pending => exact settleTool_ok h
  | awaitingCodeStep modelTurns pending run req => exact settleCodeStep_ok h
  | awaitingCodeCalls modelTurns pending run snapshot calls =>
    obtain ⟨_, _, hwave⟩ := bind_ok hval
    exact settleCodeCalls_ok (CodeRun.validateCallWave_eq_ok.mp hwave).1 h
  | terminal => cases h

/-- The phase an input resumes: `none` before the first checkpoint, and otherwise what its
checkpoint decodes to for this operation. -/
def Resumes (loop : AgentLoop J V) (saved : Option (Kernel.Checkpoint V))
    (operationId : OperationId) (phase : Option (LoopPhase J)) : Prop :=
  match saved, phase with
  | none, none => True
  | some saved, some phase => decodeCheckpoint loop.serde saved = .ok phase ∧
      loop.validateCodePhase phase operationId = .ok ()
  | _, _ => False

/-- **Every decision of the loop is one of its transitions**, from the phase its input resumes. -/
theorem decide_ok [DecidableEq V] (h : loop.decide input = .ok dec) :
    ∃ phase, loop.Resumes input.checkpoint input.operationId phase ∧
      loop.Decided input phase dec := by
  unfold AgentLoop.decide at h
  split at h
  · rename_i hnone
    exact ⟨none, by rw [hnone]; trivial, decideInitial_ok h⟩
  · rename_i saved hsaved
    obtain ⟨phase, hph, h⟩ := bind_ok h
    obtain ⟨_, hcode, h⟩ := bind_ok h
    exact ⟨some phase, by rw [hsaved]; exact ⟨hph, hcode⟩,
      decidePhase_ok (decodeCheckpoint_valid hph) h⟩

/-! ## Interruptions -/

theorem settledToolResult_ok {call : ToolCall J} {out : EffectOutcome V}
    (h : loop.settledToolResult call out = .ok result) : ResultOf call result := by
  cases out with
  | failure msg =>
    cases h
    exact resultOf_unavailableResult _ _
  | success value =>
    obtain ⟨decodedResult, _, h⟩ := bind_ok h
    obtain ⟨hident, h⟩ := ensure_bind_ok h
    cases h
    simp only [Bool.and_eq_true, decide_eq_true_eq] at hident
    exact hident

theorem cancelledToolResult_ok {call : ToolCall J} {fact : Kernel.EffectFact V}
    (h : loop.cancelledToolResult call fact = .ok result) : ResultOf call result := by
  cases fact with
  | notDispatched eff | outcomeUnknown eff =>
    cases h
    exact resultOf_unavailableResult _ _
  | settled eff => exact settledToolResult_ok h

theorem cancelReady_ok (h : loop.cancelReady cancellation = .ok transition) :
    transition = loop.cancelled [] := by
  obtain ⟨_, _, h⟩ := bind_ok h
  cases h
  rfl

section Interruption

variable [DecidableEq V] {abandonment : UnknownEffectAbandonment V} {unknown : UnknownEffectInput V}

/-- A cancelled phase is closed by the results of the calls it owes. -/
theorem cancelPhase_ok (h : loop.cancelPhase cancellation phase = .ok transition) :
    ∃ msgs, transition = loop.cancelled msgs ∧ Answers phase.owed msgs := by
  cases phase with
  | needModel modelTurns => exact ⟨[], cancelReady_ok h, .nil⟩
  | awaitingModel modelTurns =>
    iterate 3 obtain ⟨_, _, h⟩ := bind_ok h
    cases h
    exact ⟨[], rfl, .nil⟩
  | awaitingCompaction | awaitingExplicitCompaction =>
    iterate 2 obtain ⟨_, _, h⟩ := bind_ok h
    cases h
    exact ⟨[], rfl, .nil⟩
  | needTool modelTurns pending =>
    obtain ⟨_, _, h⟩ := bind_ok h
    cases h
    exact ⟨_, rfl, answers_unavailableMessages _ _⟩
  | awaitingTool modelTurns pending =>
    iterate 2 obtain ⟨_, _, h⟩ := bind_ok h
    obtain ⟨fact, _, h⟩ := bind_ok h
    obtain ⟨cur, hcur, h⟩ := bind_ok h
    cases h
    exact ⟨_, rfl, .of_current (cancelledToolResult_ok hcur) _⟩
  | awaitingCodeStep modelTurns pending run req =>
    iterate 3 obtain ⟨_, _, h⟩ := bind_ok h
    cases h
    exact ⟨_, rfl, answers_closedMessages _ _ _⟩
  | awaitingCodeCalls modelTurns pending run snapshot calls =>
    iterate 2 obtain ⟨_, _, h⟩ := bind_ok h
    cases h
    exact ⟨_, rfl, answers_closedMessages _ _ _⟩
  | terminal => cases h

/-- An abandoned phase is closed by the results of the calls it owes. -/
theorem abandonPhase_ok (h : loop.abandonPhase unknown phase = .ok abandonment) :
    ∃ msgs, abandonment = loop.abandoned msgs ∧ Answers phase.owed msgs := by
  cases phase with
  | awaitingModel modelTurns =>
    iterate 2 obtain ⟨_, _, h⟩ := bind_ok h
    cases h
    exact ⟨[], rfl, .nil⟩
  | awaitingCompaction | awaitingExplicitCompaction =>
    obtain ⟨_, _, h⟩ := bind_ok h
    cases h
    exact ⟨[], rfl, .nil⟩
  | awaitingTool modelTurns pending | awaitingCodeStep modelTurns pending run req =>
    iterate 2 obtain ⟨_, _, h⟩ := bind_ok h
    cases h
    exact ⟨_, rfl, answers_closedMessages _ _ _⟩
  | awaitingCodeCalls modelTurns pending run snapshot calls =>
    obtain ⟨_, _, h⟩ := bind_ok h
    cases h
    exact ⟨_, rfl, answers_closedMessages _ _ _⟩
  | needModel | needTool | terminal => cases h

/-- **A cancellation closes the calls the operation's phase owes.** -/
theorem cancelOperation_ok (h : loop.cancelOperation cancellation = .ok transition) :
    ∃ phase msgs, loop.Resumes cancellation.checkpoint cancellation.operationId phase ∧
      transition = loop.cancelled msgs ∧ Answers (owedBy phase) msgs := by
  unfold cancelOperation at h
  split at h
  · rename_i hnone
    exact ⟨none, [], by rw [hnone]; trivial, cancelReady_ok h, .nil⟩
  · rename_i saved hsaved
    obtain ⟨phase, hph, h⟩ := bind_ok h
    obtain ⟨_, hcode, h⟩ := bind_ok h
    obtain ⟨msgs, htrn, hans⟩ := cancelPhase_ok h
    exact ⟨some phase, msgs, by rw [hsaved]; exact ⟨hph, hcode⟩, htrn, hans⟩

/-- **An abandonment closes the calls the operation's phase owes.** -/
theorem abandonUnknownEffect_ok (h : loop.abandonUnknownEffect unknown = .ok abandonment) :
    ∃ phase msgs, loop.Resumes (some unknown.checkpoint) unknown.operationId (some phase) ∧
      abandonment = loop.abandoned msgs ∧ Answers phase.owed msgs := by
  obtain ⟨phase, hph, h⟩ := bind_ok h
  obtain ⟨_, hcode, h⟩ := bind_ok h
  obtain ⟨msgs, habandonment, hans⟩ := abandonPhase_ok h
  exact ⟨phase, msgs, ⟨hph, hcode⟩, habandonment, hans⟩

/-- **An interruption answers every call that is owed, once and in order.** -/
theorem interruptions_answer_owed (loop : AgentLoop J V) :
    (∀ input transition, loop.cancelOperation input = .ok transition → ∃ phase msgs,
      loop.Resumes input.checkpoint input.operationId phase ∧ Answers (owedBy phase) msgs ∧
        transition = loop.cancelled msgs) ∧
    ∀ input abandonment, loop.abandonUnknownEffect input = .ok abandonment → ∃ phase msgs,
      loop.Resumes (some input.checkpoint) input.operationId phase ∧ Answers (owedBy phase) msgs ∧
        abandonment = loop.abandoned msgs := by
  constructor
  · intro input transition h
    obtain ⟨phase, msgs, hresumes, rfl, hans⟩ := cancelOperation_ok h
    exact ⟨phase, msgs, hresumes, hans, rfl⟩
  · intro input abandonment h
    obtain ⟨phase, msgs, hresumes, rfl, hans⟩ := abandonUnknownEffect_ok h
    exact ⟨some phase, msgs, hresumes, hans, rfl⟩

end Interruption

end Inversion

end AgentLoop

end Renoa.Loop
