import Renoa.Loop.Payload
import Renoa.Loop.Transition

/-!
# Checkpoints can be resumed

Decoding a checkpoint checks bounds the encoder does not: the attempts of a compaction, the
identifiers of pending calls, the budget of a Code Mode run and the identity of its call. Every
transition of the loop leads from a phase that passed these checks to one that passes them.
-/

namespace Renoa.Loop

open Foundation List
open Kernel (OperationId LoopDecision LoopInput Checkpoint CancellationInput
  UnknownEffectInput)

variable {J V : Type} {modelTurns : UInt32} {pend : PendingToolCalls J} {run : CodeRun}
  {snapshot : String} {calls : CodeCallBatch J}

namespace AgentLoop

variable {loop : AgentLoop J V} {input : LoopInput V} {opId : OperationId}
  {req : CodeStepRequest J} {phase : LoopPhase J}

/-- The checkpoint decodes to a phase that resumes this operation. -/
def Resumable (loop : AgentLoop J V) (saved : Checkpoint V) (operationId : OperationId) : Prop :=
  ∃ phase, saved = checkpoint loop.serde phase ∧ decodeCheckpoint loop.serde saved = .ok phase ∧
    loop.validateCodePhase phase operationId = .ok ()

theorem resumable_checkpoint (hval : phase.validate loop.serde = .ok ())
    (hcode : loop.validateCodePhase phase opId = .ok ()) :
    loop.Resumable (checkpoint loop.serde phase) opId :=
  ⟨phase, rfl, decodeCheckpoint_checkpoint.mpr hval, hcode⟩

theorem resumable_terminal : loop.Resumable (checkpoint loop.serde .terminal) opId :=
  resumable_checkpoint rfl rfl

/-- The first attempt of a compaction is within every maximum. -/
theorem resumable_compaction {continuation : CompactionContinuation} {plan : CompactionPlan J}
    {maxAttempts attempt : NonZeroU32} (hle : attempt.get ≤ maxAttempts.get) :
    loop.Resumable (checkpoint loop.serde (continuation.phase plan maxAttempts attempt))
      opId := by
  cases continuation <;> exact resumable_checkpoint (ensure_of_eq_true (decide_eq_true hle)) rfl

theorem min_le (counter : NonZeroU32) : NonZeroU32.min.get ≤ counter.get := by
  have hpos := counter.pos
  exact hpos

theorem validate_of_tools (hval : phase.validate loop.serde = .ok ())
    (htools : phase.tools = some (modelTurns, pend)) : pend.validate = .ok () := by
  cases phase with
  | needTool | awaitingTool =>
    cases htools
    exact hval
  | awaitingCodeStep | awaitingCodeCalls =>
    cases htools
    obtain ⟨_, hpend, _⟩ := bind_ok hval
    exact hpend
  | needModel | awaitingModel | awaitingCompaction | awaitingExplicitCompaction | terminal =>
    cases htools

theorem resumable_phaseAfter (hval : pend.validate = .ok ()) :
    loop.Resumable (checkpoint loop.serde (phaseAfter modelTurns pend)) opId := by
  unfold phaseAfter
  split
  · exact resumable_checkpoint rfl rfl
  · rename_i next hnext
    exact resumable_checkpoint (PendingToolCalls.validate_advance hval hnext) rfl

/-- The run of a Code Mode phase. -/
def run? : LoopPhase J → Option CodeRun
  | .awaitingCodeStep _ _ run _ | .awaitingCodeCalls _ _ run _ _ => some run
  | _ => none

/-- A Code Mode phase keeps the identity of its run when only the counters change. -/
theorem validateCodePhase_iff (htools : phase.tools = some (modelTurns, pend))
    (hrun : run? phase = some run) : loop.validateCodePhase phase opId = .ok () ↔
      ∃ code, loop.codeMode = some code ∧ pend.current.name = code.spec.name ∧
        run.runId = (CodeRun.new loop.digest opId modelTurns pend.current).runId := by
  cases phase <;> cases hrun <;> cases htools
  all_goals simp only [validateCodePhase, codeExecutor, bind_eq_ok, require_eq_ok, ensure_eq_ok,
    Bool.and_eq_true, decide_eq_true_eq]

theorem validate_codeStep (hpend : pend.validate = .ok ()) (hstep : run.validateStep req = .ok ()) :
    (LoopPhase.awaitingCodeStep modelTurns pend run req).validate loop.serde = .ok () := by
  rw [LoopPhase.validate, hpend, except_bind_ok, hstep]

theorem validate_codeCalls (hpend : pend.validate = .ok ())
    (hwave : run.validateCallWave loop.serde snapshot calls = .ok ()) :
    (LoopPhase.awaitingCodeCalls modelTurns pend run snapshot calls).validate loop.serde =
      .ok () := by
  rw [LoopPhase.validate, hpend, except_bind_ok, hwave]

/-- A wave that was read gives a valid resumption. -/
theorem validStep_resume {results : StringMap J}
    (hwave : run.validateCallWave loop.serde snapshot calls = .ok ())
    (hresults : results.map Prod.fst = calls.order.map callKey) :
    run.validateStep { runId := run.runId, step := .resume snapshot results } = .ok () := by
  obtain ⟨hval, hpos, hwaves, hcalls, htotal, hsnap, hbytes⟩ :=
    CodeRun.validateCallWave_eq_ok.mp hwave
  obtain ⟨hnonempty, hlength, _, _⟩ := CodeCallBatch.validate_eq_ok hval
  have hlen : results.length = calls.order.length := by simpa using congrArg List.length hresults
  have horder : 0 < calls.order.length := length_pos_iff.mpr hnonempty
  refine CodeRun.validateStep_eq_ok.mpr ⟨rfl, hwaves, htotal, ?_⟩
  simp only [CodeRun.validStep, Bool.and_eq_true, decide_eq_true_eq, Bool.not_eq_true',
    isEmpty_eq_false_iff, all_eq_true]
  refine ⟨⟨⟨⟨⟨⟨hpos, by omega⟩, hsnap⟩, hbytes⟩, ?_⟩, by omega⟩, ?_⟩
  · exact ne_nil_of_length_pos (by omega)
  · intro entry hentry
    have hkey : entry.1 ∈ calls.order.map callKey := hresults ▸ mem_map_of_mem hentry
    obtain ⟨callId, _, hkey⟩ := mem_map.mp hkey
    exact hkey ▸ isCallKey_callKey callId

/-- **A transition from a resumed phase leads to a checkpoint that can be resumed.** -/
theorem Decided.resumable {phase : Option (LoopPhase J)} {dec : LoopDecision V}
    (hresumes : loop.Resumes input.checkpoint input.operationId phase)
    (h : loop.Decided input phase dec) :
    loop.Resumable dec.checkpoint input.operationId := by
  have hph : ∀ p, phase = some p → p.validate loop.serde = .ok () ∧
      loop.validateCodePhase p input.operationId = .ok () := by
    intro p hp
    subst hp
    cases hsaved : input.checkpoint with
    | none =>
      rw [hsaved] at hresumes
      exact hresumes.elim
    | some saved =>
      rw [hsaved] at hresumes
      exact ⟨decodeCheckpoint_valid hresumes.1, hresumes.2⟩
  cases h with
  | failed | upToDate | summarizedExplicitly | completed | failedTool | closed =>
    exact resumable_terminal
  | prompted | dispatched | summarized | truncated => exact resumable_checkpoint rfl rfl
  | plannedExplicitly | planned => exact resumable_compaction (min_le _)
  | retried hlt hnext =>
    refine resumable_compaction ?_
    rw [UInt32.lt_iff_toNat_lt] at hlt
    rw [UInt32.le_iff_toNat_le]
    omega
  | called hans hnew => exact resumable_checkpoint (PendingToolCalls.new_eq_ok hnew).2 rfl
  | answered htools hres => exact resumable_phaseAfter (validate_of_tools (hph _ rfl).1 htools)
  | invokedTool htool => exact resumable_checkpoint (hph _ rfl).1 rfl
  | startedCode hcode hname hrun hsrc =>
    subst hrun
    refine resumable_checkpoint (validate_codeStep (hph _ rfl).1 ?_)
      ((validateCodePhase_iff rfl rfl).mpr ⟨_, hcode, hname, rfl⟩)
    refine CodeRun.validateStep_eq_ok.mpr ⟨rfl, Nat.zero_le _, Nat.zero_le _, ?_⟩
    simp only [CodeRun.validStep, Bool.and_eq_true, decide_eq_true_eq]
    exact ⟨⟨⟨rfl, rfl⟩, hsrc.1⟩, hsrc.2⟩
  | suspended hsnap hcalls hwave hcode =>
    obtain ⟨hval, hcode⟩ := hph _ rfl
    obtain ⟨_, hpend, _⟩ := bind_ok hval
    obtain ⟨hrunId, _, _, hnext, htotal, hwaves, htotals⟩ := CodeRun.addWave_eq_ok hwave
    refine resumable_checkpoint (validate_codeCalls hpend ?_) ?_
    · refine CodeRun.validateCallWave_eq_ok.mpr ⟨(CodeCallBatch.new_eq_ok hcalls).1, by omega,
        hwaves, by omega, htotals, hsnap⟩
    · rw [validateCodePhase_iff rfl rfl, hrunId]
      exact (validateCodePhase_iff rfl rfl).mp hcode
  | resumed hresults =>
    obtain ⟨hval, hcode⟩ := hph _ rfl
    obtain ⟨_, hpend, hwave⟩ := bind_ok hval
    exact resumable_checkpoint (validate_codeStep hpend (validStep_resume hwave hresults))
      ((validateCodePhase_iff rfl rfl).mpr ((validateCodePhase_iff rfl rfl).mp hcode))

/-- **Every checkpoint the loop hands to the kernel can be resumed**: a decision, a cancellation
and an abandonment give a checkpoint that decodes to the very phase it was built from, which
belongs to the same operation. -/
theorem checkpoints_resumable [DecidableEq V] (loop : AgentLoop J V) :
    (∀ (input : LoopInput V) decision, loop.decide input = .ok decision →
      loop.Resumable decision.checkpoint input.operationId) ∧
    (∀ (input : CancellationInput V) transition, loop.cancelOperation input = .ok transition →
      loop.Resumable transition.checkpoint input.operationId) ∧
    (∀ (input : UnknownEffectInput V) abandonment,
      loop.abandonUnknownEffect input = .ok abandonment →
      loop.Resumable abandonment.checkpoint input.operationId) := by
  refine ⟨?_, ?_, ?_⟩
  · intro input decision h
    obtain ⟨phase, hresumes, hdecided⟩ := decide_ok h
    exact hdecided.resumable hresumes
  · intro input transition h
    obtain ⟨_, messages, _, rfl, _⟩ := cancelOperation_ok h
    exact resumable_terminal
  · intro input abandonment h
    obtain ⟨_, messages, _, rfl, _⟩ := abandonUnknownEffect_ok h
    exact resumable_terminal

/-- A prompt to the loop over tagged data. -/
def promptInput : LoopInput Payload where
  agentId := ⟨0⟩
  sessionId := ⟨0⟩
  operationId := ⟨1⟩
  runtimeManifest := ⟨"", "", checkpointSchemaVersion, [], ""⟩
  command := ⟨⟨1⟩, .command (.prompt [.text "hello"] .unobserved)⟩
  events := []
  checkpoint := none
  effectBatch := none

def readCall (id : String) : Agent.ToolCall String := ⟨id, "read", "object ", none, none⟩

/-- The first of two calls was answered. -/
def answeredInput : LoopInput Payload :=
  { promptInput with
    checkpoint := some (checkpoint Payload.serde (.awaitingTool 1 ⟨readCall "a", [readCall "b"]⟩))
    effectBatch := some ⟨⟨0⟩, [⟨⟨0⟩, "tool.read", "", .toolCall (readCall "a"),
      .success (.toolResult ⟨"a", "read", [], none, false, none⟩)⟩]⟩ }

/-- A first prompt resumes in front of the model, and an answered call in front of the next one. -/
theorem checkpoints_resumable_prompt :
    decodeCheckpoint Payload.serde (checkpoint Payload.serde (.needModel 0)) =
        .ok (.needModel 0) ∧
      Payload.loop.Resumable (checkpoint Payload.serde (.needModel 0)) ⟨1⟩ ∧
      Payload.loop.Resumable (checkpoint Payload.serde (.needTool 1 ⟨readCall "b", []⟩)) ⟨1⟩ :=
  ⟨rfl, (checkpoints_resumable Payload.loop).1 promptInput
    (.appendEventsAndContinue (checkpoint Payload.serde (.needModel 0))
      [Payload.serde.messageEvent (.user [.text "hello"])]) rfl,
    (checkpoints_resumable Payload.loop).1 answeredInput (.appendEventsAndContinue _
      [Payload.serde.messageEvent (.tool ⟨"a", "read", [], none, false, none⟩)]) rfl⟩

end AgentLoop

end Renoa.Loop
