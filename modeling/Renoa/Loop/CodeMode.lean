import Renoa.Loop.Model

/-!
# Code Mode runs and call waves

A Code Mode run is bound to the call that started it. It suspends in waves of plugin calls, and
its budget of waves and calls is counted in the run. Every bound is checked when a wave is built
and again when a checkpoint that holds it is decoded.
-/

namespace Renoa.Loop

open Foundation List
open Agent
open Kernel (OperationId)

variable {J V : Type} {serde : Serde J V} {batch : CodeCallBatch J} {run : CodeRun}

def codeStepEffectBinding : String := "renoa.agent.code-mode.step"

def maxCodeBytes : Nat := 64 * 1024

def maxCodeCallsPerWave : Nat := 32

def maxCodePluginArgumentBytes : Nat := 256 * 1024

def maxCodePluginReferenceBytes : Nat := 1024

def maxCodeCallsPerRun : Nat := 128

def maxCodeWaves : Nat := 32

def maxCodeSnapshotBytes : Nat := 2 * 1024 * 1024

def maxCodeResultBytes : Nat := 1024 * 1024

def maxCodeWaveResultsBytes : Nat := 2 * 1024 * 1024

/-- The key of a call in the maps of its wave. -/
def callKey (callId : UInt32) : String := toString callId.toNat

/-- The key is the decimal form of a call identity. -/
def isCallKey (key : String) : Bool :=
  let parsed := Nat.ofDigitChars 10 key.toList 0
  parsed < UInt32.size && toString parsed = key

theorem ofDigitChars_callKey (callId : UInt32) :
    Nat.ofDigitChars 10 (callKey callId).toList 0 = callId.toNat := by
  rw [callKey, Nat.toString_eq_ofList_toDigits, String.toList_ofList, Nat.ofDigitChars_ten_toDigits]

theorem isCallKey_callKey (callId : UInt32) : isCallKey (callKey callId) = true := by
  have hlt : callId.toNat < UInt32.size := callId.toNat_lt
  simp only [isCallKey, ofDigitChars_callKey, hlt]
  exact decide_eq_true rfl

theorem callKey_injective : Function.Injective callKey := by
  intro a b h
  apply UInt32.toNat_inj.mp
  rw [← ofDigitChars_callKey a, ← ofDigitChars_callKey b, h]

/-! ## Call waves -/

namespace CodeCallBatch

/-- Adds the calls of a wave to those already indexed. -/
def index (indexed : StringMap (CodePluginCall J)) :
    List (CodePluginCall J) → Except String (StringMap (CodePluginCall J))
  | [] => .ok indexed
  | call :: rest => do
    ensure (indexed.lookup (callKey call.callId)).isNone
      "Code Mode repeated a Monty call identity"
    index (StringMap.insert indexed (callKey call.callId) call) rest

/-- The checks on a call at its place in the declaration order. -/
def validCall (serde : Serde J V) (callId : UInt32) (call : CodePluginCall J) : Bool :=
  call.callId = callId && call.reference ≠ "" &&
    call.reference.utf8ByteSize ≤ maxCodePluginReferenceBytes &&
    serde.isObject call.arguments && serde.byteLength call.arguments ≤ maxCodePluginArgumentBytes

/-- The checks on the identities that follow those already observed. -/
def validateOrder (serde : Serde J V) (calls : StringMap (CodePluginCall J))
    (observed : List UInt32) : List UInt32 → Except String Unit
  | [] => .ok ()
  | callId :: rest => do
    ensure (!observed.contains callId) "Code Mode call order repeats an identity"
    let call ← require "Code Mode call order has a missing identity"
      (calls.lookup (callKey callId))
    ensure (validCall serde callId call) "Code Mode has an invalid plugin call"
    validateOrder serde calls (callId :: observed) rest

def validate (serde : Serde J V) (batch : CodeCallBatch J) : Except String Unit := do
  ensure (!batch.order.isEmpty && batch.order.length ≤ maxCodeCallsPerWave)
    "Code Mode has an invalid plugin call wave"
  ensure (batch.order.length = batch.calls.length)
    "Code Mode call order differs from its identity map"
  validateOrder serde batch.calls [] batch.order

def new (serde : Serde J V) (calls : List (CodePluginCall J)) :
    Except String (CodeCallBatch J) := do
  let indexed ← index [] calls
  let batch : CodeCallBatch J := { order := calls.map CodePluginCall.callId, calls := indexed }
  batch.validate serde
  return batch

/-- The calls in declaration order. -/
def ordered (batch : CodeCallBatch J) : List (CodePluginCall J) :=
  batch.order.filterMap fun callId => batch.calls.lookup (callKey callId)

theorem new_eq_ok {calls : List (CodePluginCall J)} (h : new serde calls = .ok batch) :
    batch.validate serde = .ok () ∧ batch.order = calls.map CodePluginCall.callId := by
  obtain ⟨indexed, _, h⟩ := bind_ok h
  obtain ⟨_, hval, h⟩ := bind_ok h
  cases h
  exact ⟨hval, rfl⟩

theorem validateOrder_eq_ok {calls : StringMap (CodePluginCall J)} {observed order : List UInt32} :
    validateOrder serde calls observed order = .ok () ↔ (∀ callId ∈ order, callId ∉ observed ∧
        ∃ call, calls.lookup (callKey callId) = some call ∧ validCall serde callId call = true) ∧
        order.Nodup := by
  induction order generalizing observed with
  | nil => simp [validateOrder]
  | cons callId rest ih =>
    simp only [validateOrder, bind_eq_ok, ensure_eq_ok, require_eq_ok, ih, Bool.not_eq_true',
      contains_eq_mem, decide_eq_false_iff_not, mem_cons, forall_eq_or_imp,
      nodup_cons, not_or]
    constructor
    · rintro ⟨_, hnew, call, hlookup, _, hval, hrest, hnd⟩
      exact ⟨⟨⟨hnew, call, hlookup, hval⟩, fun id hid => ⟨(hrest id hid).1.2, (hrest id hid).2⟩⟩,
        fun hmem => (hrest callId hmem).1.1 rfl, hnd⟩
    · rintro ⟨⟨⟨hnew, call, hlookup, hval⟩, hrest⟩, hself, hnd⟩
      refine ⟨(), hnew, call, hlookup, (), hval, fun id hid => ⟨⟨?_, (hrest id hid).1⟩,
        (hrest id hid).2⟩, hnd⟩
      intro heq
      exact hself (heq ▸ hid)

/-- The bounds of a valid wave, and its calls by their place in the order. -/
theorem validate_eq_ok (h : batch.validate serde = .ok ()) :
    batch.order ≠ [] ∧ batch.order.length ≤ maxCodeCallsPerWave ∧ batch.order.Nodup ∧
      ∀ callId ∈ batch.order, ∃ call, batch.calls.lookup (callKey callId) = some call ∧
        validCall serde callId call = true := by
  obtain ⟨hbounds, h⟩ := ensure_bind_ok h
  obtain ⟨_, _, h⟩ := bind_ok h
  obtain ⟨hcalls, hnd⟩ := validateOrder_eq_ok.mp h
  simp only [Bool.and_eq_true, Bool.not_eq_true', isEmpty_eq_false_iff,
    decide_eq_true_eq] at hbounds
  exact ⟨hbounds.1, hbounds.2, hnd, fun callId hmem => (hcalls callId hmem).2⟩

/-- The ordered calls of a valid wave are those of its order. -/
theorem map_callId_ordered (h : batch.validate serde = .ok ()) :
    batch.ordered.map CodePluginCall.callId = batch.order := by
  obtain ⟨_, _, _, hcalls⟩ := validate_eq_ok h
  unfold ordered
  generalize batch.order = order at hcalls
  induction order with
  | nil => rfl
  | cons callId rest ih =>
    obtain ⟨call, hlookup, hval⟩ := hcalls callId mem_cons_self
    have hid : call.callId = callId := by
      simp only [validCall, Bool.and_eq_true, decide_eq_true_eq] at hval
      exact hval.1.1.1.1
    rw [filterMap_cons_some (f := fun id => batch.calls.lookup (callKey id)) hlookup,
      map_cons, hid, ih fun id hmem => hcalls id (mem_cons_of_mem _ hmem)]

end CodeCallBatch

/-! ## Runs -/

namespace CodeRun

/-- The run of a call. `digest` is the hash of the operation, the turn and the call's identifier
that names it. -/
def new (digest : OperationId → UInt32 → String → String) (operationId : OperationId)
    (modelTurns : UInt32) (call : ToolCall J) : CodeRun where
  runId := "cm-" ++ digest operationId modelTurns call.id
  wave := 0
  totalCalls := 0

section

variable (run : CodeRun)

/-- The run after one more wave of calls. -/
def addWave (calls : Nat) : Except String CodeRun := do
  ensure (calls ≠ 0 && calls ≤ maxCodeCallsPerWave)
    "Code Mode produced an invalid number of plugin calls"
  let wave ← require "Code Mode wave counter overflowed" (checkedAdd run.wave 1)
  let count ← require "Code Mode call count overflowed" (u32TryFrom calls)
  let totalCalls ← require "Code Mode call counter overflowed" (checkedAdd run.totalCalls count)
  ensure (wave.toNat ≤ maxCodeWaves && totalCalls.toNat ≤ maxCodeCallsPerRun)
    "Code Mode exceeded its plugin call budget"
  return { run with wave, totalCalls }

/-- The identifier of one call of the current wave. -/
def callId (id : UInt32) : String :=
  run.runId ++ ":" ++ toString run.wave.toNat ++ ":" ++ toString id.toNat

/-- The checks on a step by its kind: a start is the first thing a run does, a resumption follows
a wave. -/
def validStep : CodeStep J → Bool
  | .start source =>
    run.wave.toNat = 0 && run.totalCalls.toNat = 0 && Text.trim source ≠ "" &&
      source.utf8ByteSize ≤ maxCodeBytes
  | .resume snapshot results =>
    0 < run.wave.toNat && 0 < run.totalCalls.toNat && snapshot ≠ "" &&
      snapshot.utf8ByteSize ≤ maxCodeSnapshotBytes && !results.isEmpty &&
      results.length ≤ maxCodeCallsPerWave && results.all fun entry => isCallKey entry.1

def validateStep (request : CodeStepRequest J) : Except String Unit := do
  ensure (request.runId = run.runId && run.wave.toNat ≤ maxCodeWaves &&
      run.totalCalls.toNat ≤ maxCodeCallsPerRun)
    "Code Mode step identity or budget is invalid"
  ensure (run.validStep request.step) "Code Mode step checkpoint is invalid"

end

def validateCallWave (serde : Serde J V) (run : CodeRun) (snapshot : String)
    (calls : CodeCallBatch J) : Except String Unit := do
  calls.validate serde
  let callCount ← require "Code Mode call count overflowed" (u32TryFrom calls.order.length)
  ensure (run.wave.toNat ≠ 0 && run.wave.toNat ≤ maxCodeWaves &&
      callCount.toNat ≤ run.totalCalls.toNat && run.totalCalls.toNat ≤ maxCodeCallsPerRun &&
      snapshot ≠ "" && snapshot.utf8ByteSize ≤ maxCodeSnapshotBytes)
    "Code Mode call checkpoint or budget is invalid"

/-- What one more wave does to the counters of a run. -/
theorem addWave_eq_ok {run' : CodeRun} {calls : Nat} (h : run.addWave calls = .ok run') :
    run'.runId = run.runId ∧ 0 < calls ∧ calls ≤ maxCodeCallsPerWave ∧
      run'.wave.toNat = run.wave.toNat + 1 ∧
      run'.totalCalls.toNat = run.totalCalls.toNat + calls ∧
      run'.wave.toNat ≤ maxCodeWaves ∧ run'.totalCalls.toNat ≤ maxCodeCallsPerRun := by
  obtain ⟨hcalls, h⟩ := ensure_bind_ok h
  obtain ⟨wave, hwave, h⟩ := require_bind_ok h
  obtain ⟨count, hcnt, h⟩ := require_bind_ok h
  obtain ⟨total, htotal, h⟩ := require_bind_ok h
  obtain ⟨hbudget, h⟩ := ensure_bind_ok h
  cases h
  simp only [Bool.and_eq_true, decide_eq_true_eq] at hcalls hbudget
  refine ⟨rfl, Nat.pos_of_ne_zero hcalls.1, hcalls.2, ?_, ?_, hbudget.1, hbudget.2⟩
  · exact checkedAdd_eq_some hwave
  · rw [checkedAdd_eq_some htotal, u32TryFrom_eq_some hcnt]

theorem validateStep_eq_ok {req : CodeStepRequest J} :
    run.validateStep req = .ok () ↔ req.runId = run.runId ∧
      run.wave.toNat ≤ maxCodeWaves ∧ run.totalCalls.toNat ≤ maxCodeCallsPerRun ∧
      run.validStep req.step = true := by
  simp only [validateStep, bind_eq_ok, ensure_eq_ok, Bool.and_eq_true, decide_eq_true_eq,
    exists_const, and_assoc]

theorem validateCallWave_eq_ok {snapshot : String} {calls : CodeCallBatch J} :
    run.validateCallWave serde snapshot calls = .ok () ↔ calls.validate serde = .ok () ∧
      0 < run.wave.toNat ∧ run.wave.toNat ≤ maxCodeWaves ∧
      calls.order.length ≤ run.totalCalls.toNat ∧ run.totalCalls.toNat ≤ maxCodeCallsPerRun ∧
      snapshot ≠ "" ∧ snapshot.utf8ByteSize ≤ maxCodeSnapshotBytes := by
  constructor
  · intro h
    obtain ⟨_, hval, h⟩ := bind_ok h
    obtain ⟨count, hcnt, h⟩ := bind_ok h
    have hbounds := ensure_ok h
    simp only [Bool.and_eq_true, decide_eq_true_eq, u32TryFrom_eq_some (require_ok hcnt)] at hbounds
    obtain ⟨⟨⟨⟨⟨hwave, hwaves⟩, hcalls⟩, htotal⟩, hsnap⟩, hbytes⟩ := hbounds
    exact ⟨hval, Nat.pos_of_ne_zero hwave, hwaves, hcalls, htotal, hsnap, hbytes⟩
  · rintro ⟨hval, hwave, hwaves, hcalls, htotal, hsnap, hbytes⟩
    have hcnt : u32TryFrom calls.order.length = some (UInt32.ofNat calls.order.length) := by
      apply if_pos
      have hsize : maxCodeCallsPerRun < UInt32.size := by decide
      omega
    have hnat := u32TryFrom_eq_some hcnt
    rw [validateCallWave, hval, except_bind_ok, hcnt]
    simp only [require, except_bind_ok, ensure_eq_ok, Bool.and_eq_true, decide_eq_true_eq, hnat]
    exact ⟨⟨⟨⟨⟨Nat.ne_of_gt hwave, hwaves⟩, hcalls⟩, htotal⟩, hsnap⟩, hbytes⟩

end CodeRun

/-! ## Calls and results in JSON -/

/-- The executor call of one plugin call. -/
def nestedToolCall (serde : Serde J V) (run : CodeRun) (call : CodePluginCall J)
    (name : String) : ToolCall J where
  id := run.callId call.callId
  name
  arguments := serde.object
    [("reference", serde.string call.reference), ("arguments", call.arguments)]
  thoughtSignature := none
  toolNamespace := none

/-- A plugin result as the evaluator receives it. -/
def pythonResult (serde : Serde J V) (result : ToolResult J) : J :=
  serde.object
    [("content", serde.content result.content), ("details", result.details.getD serde.null),
      ("is_error", serde.bool result.isError)]

/-- The result of the outer call: the text of a JSON value. -/
def modelResult (serde : Serde J V) (call : ToolCall J) (result : J) (isError : Bool) :
    ToolResult J where
  callId := call.id
  name := call.name
  content := [.text (serde.text result)]
  details := none
  isError
  closing := none

end Renoa.Loop
