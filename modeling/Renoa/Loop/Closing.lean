import Renoa.Loop.Resume

/-!
# Closing results in a Code Mode wave

A result with a closing message is to end the turn: Python does not go on, every call of the
response has one result, and the reply is what the calls of the wave said. The wave is read in call
order while its size is added up, and it is refused as soon as it is too large, before anybody asks
for its closings. So a closing wave ends the turn exactly when all of it fits
(`closing_wave_ends_iff`); otherwise the model is asked again (`closing_wave_goes_on`).
-/

namespace Renoa.Loop

open Foundation List
open Agent
open Kernel (LoopInput LoopDecision SemanticEvent SettledEffect SettledEffectBatch)

variable {J V : Type}

/-- The closings of a wave, in call order. -/
def closingsOf (results : List (ToolResult J)) : List Closing :=
  results.filterMap ToolResult.closing

/-- The reply that says all of them. -/
def replyOf (closings : List Closing) : String := "\n\n".intercalate (closings.map Closing.message)

/-- The size of a wave as the evaluator would receive it. -/
def waveBytes (serde : Serde J V) (results : List (ToolResult J)) : Nat :=
  (results.map fun result => serde.byteLength (pythonResult serde result)).sum

namespace AgentLoop

/-- The call succeeded, with a result that names it. -/
def Returns (loop : AgentLoop J V) (run : CodeRun) (effects : StringMap (SettledEffect V))
    (call : CodePluginCall J) (result : ToolResult J) : Prop :=
  ∃ effect value code, effects.lookup (run.callId call.callId) = some effect ∧
    effect.outcome = .success value ∧ loop.serde.toolResult.decode value = .ok result ∧
    loop.codeExecutor = .ok code ∧ result.callId = run.callId call.callId ∧
    result.name = code.nestedName

/-- The turn ends: every pending call has one result, and then comes the reply. -/
def EndsTurn (loop : AgentLoop J V) (pending : PendingToolCalls J) (closings : List Closing)
    (decision : LoopDecision V) : Prop :=
  ∃ answers metadata, Answers pending.iter answers ∧
    decision = .waitForInput (checkpoint loop.serde .terminal) (loop.serde.messageEvents
      (answers ++ [.assistant [.text (replyOf closings) none] .stop none metadata]))

variable {loop : AgentLoop J V} {run : CodeRun} {effects : StringMap (SettledEffect V)}
  {calls : List (CodePluginCall J)} {results : List (ToolResult J)} {result : ToolResult J}

/-! ## Reading a wave -/

/-- One call is read, or the wave is too large with it. -/
theorem readWave_cons {call : CodePluginCall J} (h : loop.Returns run effects call result)
    (wave : Wave J) (calls : List (CodePluginCall J)) :
    ∃ next : Wave J,
      next.resultBytes = wave.resultBytes + loop.serde.byteLength (pythonResult loop.serde result) ∧
      next.closings = wave.closings ++ result.closing.toList ∧
      loop.readWave run effects wave (call :: calls) =
        if maxCodeWaveResultsBytes < next.resultBytes then .ok .tooLarge
        else loop.readWave run effects next calls := by
  obtain ⟨eff, value, code, heff, hout, hdecode, hcode, hid, hname⟩ := h
  have hident := Bool.and_eq_true_iff.mpr ⟨decide_eq_true hid, decide_eq_true hname⟩
  let value := pythonResult loop.serde result
  refine ⟨⟨StringMap.insert wave.results (callKey call.callId) value,
    wave.resultBytes + loop.serde.byteLength value, wave.closings ++ result.closing.toList,
    StringMap.insert wave.seen (callKey call.callId) (result.content, result.isError)⟩,
    rfl, rfl, ?_⟩
  rw [readWave, heff]
  simp only [require, except_bind_ok, hout, decoded, hdecode, Except.mapError, hcode,
    ensure_of_eq_true hident]
  rfl

theorem readWave_fits (h : List.Forall₂ (loop.Returns run effects) calls results) (wave : Wave J)
    (hfits : wave.resultBytes + waveBytes loop.serde results ≤ maxCodeWaveResultsBytes) :
    ∃ final, loop.readWave run effects wave calls = .ok (.read final) ∧
      final.closings = wave.closings ++ closingsOf results := by
  induction h generalizing wave with
  | nil => exact ⟨wave, rfl, (append_nil _).symm⟩
  | @cons call result calls results hcall _ ih =>
    obtain ⟨next, hbytes, hclosings, hread⟩ := readWave_cons hcall wave calls
    rw [waveBytes, map_cons, sum_cons, ← Nat.add_assoc, ← hbytes] at hfits
    obtain ⟨final, hfinal, hall⟩ := ih next hfits
    rw [hread, if_neg (Nat.not_lt.mpr ((Nat.le_add_right _ _).trans hfits))]
    refine ⟨final, hfinal, ?_⟩
    rw [hall, hclosings, append_assoc, closingsOf, closingsOf, filterMap_cons]
    cases result.closing <;> rfl

theorem readWave_tooLarge (h : List.Forall₂ (loop.Returns run effects) calls results)
    (wave : Wave J) (hbef : wave.resultBytes ≤ maxCodeWaveResultsBytes)
    (hover : maxCodeWaveResultsBytes < wave.resultBytes + waveBytes loop.serde results) :
    loop.readWave run effects wave calls = .ok .tooLarge := by
  induction h generalizing wave with
  | nil => exact absurd hover (Nat.not_lt.mpr hbef)
  | @cons call result calls results hcall _ ih =>
    obtain ⟨next, hbytes, _, hread⟩ := readWave_cons hcall wave calls
    rw [waveBytes, map_cons, sum_cons, ← Nat.add_assoc, ← hbytes] at hover
    rw [hread]
    split
    · rfl
    next hnot =>
      exact ih next (Nat.not_lt.mp hnot) hover

/-! ## Closing waves -/

/-- A reply that is not blank closes the turn. -/
theorem closeTurn_ends {pend : PendingToolCalls J} {closings : List Closing}
    {metadata : AssistantMetadata} {evs : List (SemanticEvent V)}
    (hres : ResultOf pend.current result)
    (hcaller : callerMetadata loop.serde evs.reverse = .ok metadata)
    (hblank : Text.trim (replyOf closings) ≠ "") (notRun : String) :
    ∃ dec, loop.closeTurn pend result ⟨replyOf closings, notRun⟩ evs = .ok dec ∧
      loop.EndsTurn pend closings dec :=
  ⟨_, bind_eq_ok.mpr ⟨(), ensure_of_eq_true (decide_eq_true hblank),
      bind_eq_ok.mpr ⟨metadata, hcaller, rfl⟩⟩,
    .tool result :: unavailableMessages pend.remaining notRun, metadata,
    Answers.of_current hres notRun, rfl⟩

section Wave

variable [DecidableEq V] {modelTurns : UInt32} {pending : PendingToolCalls J} {snapshot : String}
  {batch : CodeCallBatch J} {input : LoopInput V} {settled : SettledEffectBatch V}
  {metadata : AssistantMetadata}

/-- A wave that is too large is answered like any other result, and the turn goes on. -/
theorem closing_wave_goes_on (modelTurns : UInt32) (pending : PendingToolCalls J)
    (snapshot : String) (hdone : input.effectBatch = some settled)
    (heffs : loop.validateSettledCodeBatch run batch settled = .ok effects)
    (hret : List.Forall₂ (loop.Returns run effects) batch.ordered results)
    (hover : maxCodeWaveResultsBytes < waveBytes loop.serde results) :
    ∃ result, loop.decidePhase input (.awaitingCodeCalls modelTurns pending run snapshot batch) =
      .ok (loop.appendToolResult modelTurns pending result) := by
  have hread := readWave_tooLarge hret ⟨[], 0, [], []⟩ (Nat.zero_le _) (by rwa [Nat.zero_add])
  refine ⟨unavailableResult pending.current
    "MCP results exceed Code Mode's 2 MiB per-wave limit; request less data.", ?_⟩
  rw [decidePhase, settleCodeCalls, hdone]
  simp only [require, except_bind_ok, heffs, hread]
  rfl

/-- **A closing wave ends the turn exactly when it fits** and its reply is not blank, whatever the
number and the position of its closings. -/
theorem closing_wave_ends_iff (hsettled : input.effectBatch = some settled)
    (heffects : loop.validateSettledCodeBatch run batch settled = .ok effects)
    (hreturned : List.Forall₂ (loop.Returns run effects) batch.ordered results)
    (hclosing : closingsOf results ≠ [])
    (hcaller : callerMetadata loop.serde input.events.reverse = .ok metadata) :
    (∃ decision,
      loop.decidePhase input (.awaitingCodeCalls modelTurns pending run snapshot batch) =
        .ok decision ∧ loop.EndsTurn pending (closingsOf results) decision) ↔
      waveBytes loop.serde results ≤ maxCodeWaveResultsBytes ∧
        Text.trim (replyOf (closingsOf results)) ≠ "" := by
  by_cases hfits : waveBytes loop.serde results ≤ maxCodeWaveResultsBytes
  · obtain ⟨final, hread, hclosings⟩ := readWave_fits hreturned ⟨[], 0, [], []⟩
      (by rwa [Nat.zero_add])
    have hdecide : loop.decidePhase input
        (.awaitingCodeCalls modelTurns pending run snapshot batch) =
        loop.stopCodeRun pending final.seen (closingsOf results) input.events := by
      rw [decidePhase, settleCodeCalls, hsettled]
      simp only [require, except_bind_ok, heffects, hread, hclosings]
      exact if_pos hclosing
    rw [hdecide]
    constructor
    · rintro ⟨decision, hstop, _⟩
      obtain ⟨_, hblank, _⟩ := bind_ok hstop
      exact ⟨hfits, of_decide_eq_true (ensure_ok hblank)⟩
    · rintro ⟨_, hblank⟩
      exact closeTurn_ends ⟨rfl, rfl⟩ hcaller hblank _
  · obtain ⟨result, hdecide⟩ := closing_wave_goes_on modelTurns pending snapshot hsettled heffects
      hreturned (Nat.not_le.mp hfits)
    rw [hdecide]
    constructor
    · rintro ⟨_, hdecision, _, _, _, hends⟩
      cases hdecision
      cases hends
    · exact fun hboth => absurd hboth.1 hfits

end Wave

/-! ## A closing wave that is too large -/

/-- The loop over tagged data with Code Mode. -/
def codeLoop : AgentLoop String Payload :=
  { Payload.loop with
    codeMode := some ⟨⟨"code_mode", "", "object "⟩, "mcp", "mcp.call", .neverReplay⟩ }

def codeRun : CodeRun := ⟨"cm-run", 1, 1⟩

def codeBatch : CodeCallBatch String := ⟨[0], [("0", ⟨0, "notes", "object "⟩)]⟩

def codePending : PendingToolCalls String := ⟨⟨"a", "code_mode", "object ", none, none⟩, []⟩

/-- The one call of the wave ends the turn, with the given details. -/
def closingResult (details : String) : ToolResult String :=
  ⟨"cm-run:1:0", "mcp", [], some details, false, some ⟨"Which one?", ""⟩⟩

/-- The settled call of the wave. -/
def closingInput (details : String) : LoopInput Payload :=
  { promptInput with
    events := [⟨⟨1⟩, ⟨1⟩, ⟨1⟩, 0, messageEventKind, .message
      (.assistant [] .toolUse none ⟨none, none, none, none, none, none⟩)⟩]
    effectBatch := some ⟨⟨0⟩, [⟨⟨0⟩, "mcp.call", "", .toolCall (nestedToolCall Payload.serde codeRun
      ⟨0, "notes", "object "⟩ "mcp"), .success (.toolResult (closingResult details))⟩]⟩ }

/-- What the settled call of the wave is found by. -/
def closingEffects (details : String) : StringMap (SettledEffect Payload) :=
  [("cm-run:1:0", ⟨⟨0⟩, "mcp.call", "", .toolCall (nestedToolCall Payload.serde codeRun
    ⟨0, "notes", "object "⟩ "mcp"), .success (.toolResult (closingResult details))⟩)]

theorem closingInput_returned (details : String) :
    List.Forall₂ (codeLoop.Returns codeRun (closingEffects details)) codeBatch.ordered
      [closingResult details] :=
  .cons ⟨_, _, _, rfl, rfl, rfl, rfl, rfl, rfl⟩ .nil

theorem le_waveBytes_closingResult (details : String) :
    details.utf8ByteSize ≤ waveBytes Payload.serde [closingResult details] := by
  have htext : Payload.serde.text (pythonResult Payload.serde (closingResult details)) =
      "object " ++ ("content" ++ " " ++ toString 0 ++ " " ++ ("details" ++ " " ++ details) ++ " " ++
        ("is_error" ++ " " ++ toString false)) := rfl
  rw [waveBytes, map_singleton, sum_singleton, Serde.byteLength, htext]
  simp only [String.utf8ByteSize_append]
  omega

theorem utf8ByteSize_replicate (n : Nat) :
    (String.ofList (List.replicate n 'a')).utf8ByteSize = n := by
  induction n with
  | zero => rfl
  | succ n ih =>
    rw [replicate_succ, String.ofList_cons, String.utf8ByteSize_append, ih]
    exact Nat.add_comm 1 n

/-- A small closing wave ends the turn. -/
theorem closing_wave_ends_small : ∃ decision,
    codeLoop.decidePhase (closingInput "")
        (.awaitingCodeCalls 1 codePending codeRun "s" codeBatch) =
        .ok decision ∧ codeLoop.EndsTurn codePending [⟨"Which one?", ""⟩] decision :=
  (closing_wave_ends_iff rfl rfl (closingInput_returned "") (by decide) rfl).mpr (by decide)

/-- **A closing wave above the limit does not end the turn.** -/
theorem closing_wave_large : ∃ details, ¬ ∃ decision,
    codeLoop.decidePhase (closingInput details)
        (.awaitingCodeCalls 1 codePending codeRun "s" codeBatch) = .ok decision ∧
      codeLoop.EndsTurn codePending (closingsOf [closingResult details]) decision := by
  let details := String.ofList (List.replicate (maxCodeWaveResultsBytes + 1) 'a')
  have hover : maxCodeWaveResultsBytes < waveBytes Payload.serde [closingResult details] := by
    have hle := le_waveBytes_closingResult details
    rwa [utf8ByteSize_replicate] at hle
  have hgoes : ∃ result, codeLoop.decidePhase (closingInput details) _ = _ :=
    closing_wave_goes_on 1 codePending "s" rfl rfl (closingInput_returned details) hover
  obtain ⟨result, hdecide⟩ := hgoes
  refine ⟨details, ?_⟩
  rintro ⟨_, hdecision, _, _, _, hends⟩
  cases hdecide.symm.trans hdecision
  cases hends

end AgentLoop

end Renoa.Loop
