import Renoa.Loop.CodeMode

/-!
# Checkpoints

A checkpoint is the stored form of the loop's phase. Decoding checks again what the phase promises:
the identifiers of the pending calls, the attempts of a compaction and the budget of a Code Mode
run.
-/

namespace Renoa.Loop

open Foundation List
open Agent
open Kernel (Checkpoint)

variable {J V : Type} {pending next : PendingToolCalls J}
  {phase : LoopPhase J}

def checkpointSchemaVersion : Nat := 4

/-! ## Pending calls -/

namespace PendingToolCalls

/-- The current call and those that follow it. -/
def iter (pending : PendingToolCalls J) : List (ToolCall J) := pending.current :: pending.remaining

def validate (pending : PendingToolCalls J) : Except String Unit :=
  (validateToolCallIds (pending.iter.map ToolCall.id)).mapError fun error =>
    "tool checkpoint " ++ toString error

def new (calls : List (ToolCall J)) : Except String (PendingToolCalls J) :=
  match calls with
  | [] => .error "tool checkpoint has no pending call"
  | current :: remaining => do
    let pending : PendingToolCalls J := { current, remaining }
    pending.validate
    return pending

/-- The calls after the current one, unless it was the last. -/
def advance (pending : PendingToolCalls J) : Option (PendingToolCalls J) :=
  match pending.remaining with
  | [] => none
  | current :: remaining => some { current, remaining }

theorem validate_eq_ok : pending.validate = .ok () ↔ (∀ call ∈ pending.iter, call.id ≠ "") ∧
      (pending.iter.map ToolCall.id).Nodup := by
  have hmap : ∀ x : Except ToolCallBatchError Unit,
      x.mapError (fun error => "tool checkpoint " ++ toString error) = .ok () ↔ x = .ok () := by
    intro x
    cases x <;> simp [Except.mapError]
  rw [validate, hmap, validateToolCallIds_eq_ok]
  simp only [mem_map, forall_exists_index, and_imp, forall_apply_eq_imp_iff₂]

theorem new_eq_ok {calls : List (ToolCall J)} (h : new calls = .ok pending) :
    pending.iter = calls ∧ pending.validate = .ok () := by
  cases calls with
  | nil => cases h
  | cons cur remaining =>
    obtain ⟨_, hval, h⟩ := bind_ok h
    cases h
    exact ⟨rfl, hval⟩

theorem iter_of_advance (h : pending.advance = some next) :
    pending.iter = pending.current :: next.iter := by
  obtain ⟨cur, remaining⟩ := pending
  cases remaining with
  | nil => cases h
  | cons call rest =>
    cases h
    rfl

/-- The calls that follow a valid current call are valid. -/
theorem validate_advance (hval : pending.validate = .ok ()) (h : pending.advance = some next) :
    next.validate = .ok () := by
  rw [validate_eq_ok, iter_of_advance h] at hval
  rw [validate_eq_ok]
  exact ⟨fun call hcall => hval.1 call (mem_cons_of_mem _ hcall), (nodup_cons.mp hval.2).2⟩

end PendingToolCalls

/-! ## Phases -/

/-- The checks on a decoded phase. -/
def LoopPhase.validate (serde : Serde J V) : LoopPhase J → Except String Unit
  | .awaitingCompaction _ _ maxAttempts attempt
  | .awaitingExplicitCompaction _ maxAttempts attempt =>
    ensure (attempt.get ≤ maxAttempts.get)
      "agent checkpoint compaction attempt exceeds its maximum"
  | .needTool _ pending | .awaitingTool _ pending => pending.validate
  | .awaitingCodeStep _ pending run request => do
    pending.validate
    run.validateStep request
  | .awaitingCodeCalls _ pending run snapshot calls => do
    pending.validate
    run.validateCallWave serde snapshot calls
  | .needModel _ | .awaitingModel _ | .terminal => .ok ()

/-- The checkpoint of a phase. -/
def checkpoint (serde : Serde J V) (phase : LoopPhase J) : Checkpoint V where
  schemaVersion := checkpointSchemaVersion
  state := serde.phase.encode phase

def decodeCheckpoint (serde : Serde J V) (checkpoint : Checkpoint V) :
    Except String (LoopPhase J) := do
  let phase ← (serde.phase.decode checkpoint.state).mapError fun error =>
    "agent checkpoint is invalid: " ++ error
  phase.validate serde
  return phase

/-- The phases decoding accepts are those that pass its checks. -/
theorem decodeCheckpoint_valid {serde : Serde J V} {saved : Checkpoint V}
    (h : decodeCheckpoint serde saved = .ok phase) : phase.validate serde = .ok () := by
  obtain ⟨decoded, _, h⟩ := bind_ok h
  obtain ⟨_, hval, h⟩ := bind_ok h
  cases h
  exact hval

/-- **A checkpoint decodes to its phase exactly when the phase passes the checks.** -/
theorem decodeCheckpoint_checkpoint {serde : Serde J V} :
    decodeCheckpoint serde (checkpoint serde phase) = .ok phase ↔
      phase.validate serde = .ok () := by
  unfold decodeCheckpoint checkpoint
  rw [serde.phase.decode_encode]
  constructor
  · intro h
    obtain ⟨_, hdecoded, h⟩ := bind_ok h
    cases hdecoded
    obtain ⟨_, hval, _⟩ := bind_ok h
    exact hval
  · intro h
    simp only [Except.mapError, except_bind_ok, h]
    rfl

end Renoa.Loop
