import Renoa.Loop.Model

/-!
# Sampling a model

One call of a model drives its stream to a response, an error or the end, and a cancellation may
come between any two items. What the call returns decides what the kernel may believe of the
effect, and its events tell an observer where the call stands. `D` is the type of the diagnostic of
a failure, which is only passed on. The events are those a sink receives if there is one, without
the id of the call.
-/

namespace Renoa.Loop

open Foundation
open Agent
open Kernel (EffectCompletion)

inductive ModelErrorKind where
  | authentication
  | rateLimited
  | invalidRequest
  | contextWindowExceeded
  | network
  | timeout
  | providerUnavailable
  | protocol
  | streamInterrupted
  | cancelled
  | unknown
  deriving DecidableEq, Repr

/-- What a caller can infer about whether inference ran. -/
inductive InferenceOutcome where
  | knownNotStarted
  | unknown
  deriving DecidableEq, Repr

structure ModelError (D : Type) where
  kind : ModelErrorKind
  inferenceOutcome : InferenceOutcome
  message : String
  diagnostic : Option D

/-- The code of a reported failure: the kind of its error, unless the stream just ended. -/
inductive ModelFailureCode where
  | failureCode (kind : ModelErrorKind)
  | incompleteStream

inductive AssistantDelta where
  | text (text : String)
  | reasoning (text : String)
  | toolCallStart (id name : String)
  | toolCallArguments (jsonDelta : String)

inductive ModelEvent (J : Type) where
  | providerRequest (payload : J)
  | providerResponse (status : UInt16) (headers : StringMap String)
  | contentDelta (contentIndex : Nat) (delta : AssistantDelta)
  | retryAttempt (attempt nextAttempt : UInt32) (category : ModelErrorKind) (delayMs : UInt64)
      (causeCode : Option String)
  | completed (response : ModelResponse J)

inductive AgentEvent (J D : Type) where
  | modelRequestStart (request : ModelRequest J)
  | modelProviderRequest (payload : J)
  | modelProviderResponse (status : UInt16) (headers : StringMap String)
  | modelRequestChunk (contentIndex : Nat) (delta : AssistantDelta)
  | modelRetryAttempt (attempt nextAttempt : UInt32) (category : ModelErrorKind) (delayMs : UInt64)
      (causeCode : Option String)
  | messageStart
  | messageUpdate (contentIndex : Nat) (delta : AssistantDelta)
  | messageAbort
  | modelRequestEnd (response : ModelResponse J)
  | modelRequestFailed (code : ModelFailureCode) (message : String) (outcomeUnknown : Bool)
      (diagnostic : Option D)

inductive SamplingError (D : Type) where
  | cancelled
  | model (error : ModelError D)
  | incompleteStream

variable {J V D : Type}

def ModelError.cancelled (message : String) : ModelError D :=
  ⟨.cancelled, .knownNotStarted, message, none⟩

def ModelError.withUnknownOutcome (error : ModelError D) : ModelError D :=
  { error with inferenceOutcome := .unknown }

/-! ## The observer of a call -/

structure SamplingObserver (J D : Type) where
  messageStarted : Bool
  providerTraffic : Bool
  emitted : List (AgentEvent J D)

namespace SamplingObserver

variable (o : SamplingObserver J D)

def start (request : ModelRequest J) : SamplingObserver J D :=
  ⟨false, false, [.modelRequestStart request]⟩

def emit (events : List (AgentEvent J D)) : SamplingObserver J D :=
  { o with emitted := o.emitted ++ events }

def traffic (event : AgentEvent J D) : SamplingObserver J D :=
  { o.emit [event] with providerTraffic := true }

def record : ModelEvent J → SamplingObserver J D × Option (ModelResponse J)
  | .providerRequest payload => (o.traffic (.modelProviderRequest payload), none)
  | .providerResponse status headers => (o.traffic (.modelProviderResponse status headers), none)
  | .contentDelta index delta =>
    ({ o.emit (.modelRequestChunk index delta ::
        (if o.messageStarted then [] else [.messageStart]) ++ [.messageUpdate index delta]) with
      messageStarted := true }, none)
  | .retryAttempt attempt next category delayMs cause =>
    (o.traffic (.modelRetryAttempt attempt next category delayMs cause), none)
  | .completed response => (o.emit [.modelRequestEnd response], some response)

def abortMessage : SamplingObserver J D := if o.messageStarted then o.emit [.messageAbort] else o

def failure (code : ModelFailureCode) (message : String) (outcomeUnknown : Bool)
    (diagnostic : Option D) : SamplingObserver J D :=
  o.abortMessage.emit [.modelRequestFailed code message outcomeUnknown diagnostic]

def cancel (mayHaveDispatched : Bool) : SamplingObserver J D :=
  o.failure (.failureCode .cancelled) "model sampling was cancelled" mayHaveDispatched none

/-- Once content was shown, inference is no longer known not to have started. -/
def modelFailure (error : ModelError D) : SamplingObserver J D × ModelError D :=
  let error := if o.messageStarted ∧ error.inferenceOutcome = .knownNotStarted then
    error.withUnknownOutcome else error
  (o.failure (.failureCode error.kind) error.message (error.inferenceOutcome = .unknown)
    error.diagnostic, error)

def incomplete : SamplingObserver J D :=
  o.failure .incompleteStream "model stream ended without a completed response" true none

def mayHaveDispatched : Bool := o.providerTraffic || o.messageStarted

end SamplingObserver

/-! ## The call -/

/-- An item of a provider stream. -/
abbrev StreamItem (J D : Type) : Type := Except (ModelError D) (ModelEvent J)

/-- What a call returns, and the events it emits. -/
structure Sampled (J D : Type) where
  result : Except (SamplingError D) (ModelResponse J)
  emitted : List (AgentEvent J D)

def failed (reported : SamplingObserver J D × ModelError D) : Sampled J D :=
  ⟨.error (.model reported.2), reported.1.emitted⟩

def drainCancelledStream (o : SamplingObserver J D) (adapterError : Option (ModelError D))
    (completed : Option (ModelResponse J)) : List (StreamItem J D) → Sampled J D
  | .ok event :: items =>
    drainCancelledStream (o.record event).1 adapterError ((o.record event).2.or completed) items
  | .error error :: items => drainCancelledStream o (some error) completed items
  | [] =>
    match completed, o.mayHaveDispatched, adapterError with
    | some response, _, _ => ⟨.ok response, o.emitted⟩
    | none, true, some error => failed (o.modelFailure error)
    | none, true, none =>
      failed
        (o.cancel true, (ModelError.cancelled "model sampling was cancelled").withUnknownOutcome)
    | none, false, _ => ⟨.error .cancelled, (o.cancel false).emitted⟩

/-- The token is cancelled from its moment on; the call looks at it at successive ticks. -/
def cancelledBy (moment : Option Nat) (tick : Nat) : Bool := moment.any (· ≤ tick)

/-- The loop over the stream. A cancellation is seen before the next item is taken, or after an
error was taken and before it is reported. -/
def samplingLoop (moment : Option Nat) (o : SamplingObserver J D) (tick : Nat)
    (items : List (StreamItem J D)) : Sampled J D :=
  if cancelledBy moment tick then drainCancelledStream o none none items
  else match items with
    | .ok event :: items =>
      match (o.record event).2 with
      | some response => ⟨.ok response, (o.record event).1.emitted⟩
      | none => samplingLoop moment (o.record event).1 (tick + 2) items
    | .error error :: _ =>
      if cancelledBy moment (tick + 1) && !o.mayHaveDispatched then
        ⟨.error .cancelled, (o.cancel false).emitted⟩
      else failed (o.modelFailure error)
    | [] => ⟨.error .incompleteStream, o.incomplete.emitted⟩

def sampleModel (moment : Option Nat) (request : ModelRequest J) (items : List (StreamItem J D)) :
    Sampled J D :=
  if cancelledBy moment 0 then ⟨.error .cancelled, []⟩
  else samplingLoop moment (.start request) 1 items

/-- What the model adapter reports for the result of a call. -/
def adapterCompletion (serde : Serde J V) :
    Except (SamplingError D) (ModelResponse J) → EffectCompletion V
  | .ok response => .settled (.success (serde.modelOutput.encode (.completed response)))
  | .error .cancelled => .settled (.failure "model sampling was cancelled")
  | .error (.model error) =>
    match error.inferenceOutcome, error.kind with
    | .knownNotStarted, .contextWindowExceeded =>
      .settled (.success (serde.modelOutput.encode (.contextWindowExceeded error.message)))
    | .knownNotStarted, _ => .settled (.failure error.message)
    | .unknown, _ => .outcomeUnknown
  | .error .incompleteStream => .outcomeUnknown

/-- The model adapter; `model` is the stream of each request. -/
def ModelAdapter.invoke (serde : Serde J V) (model : ModelRequest J → List (StreamItem J D))
    (moment : Option Nat) (request : V) : EffectCompletion V :=
  match serde.modelRequest.decode request with
  | .error error => .settled (.failure s!"invalid persisted model request: {error}")
  | .ok request => adapterCompletion serde (sampleModel moment request (model request)).result

/-! ## What a call emits -/

def AgentEvent.isProgress : AgentEvent J D → Bool
  | .modelRequestStart _ | .messageAbort | .modelRequestEnd _ | .modelRequestFailed .. => false
  | _ => true

def AgentEvent.isMessageStart : AgentEvent J D → Bool
  | .messageStart => true
  | _ => false

/-- The terminal event of a call that returns `result`. -/
def TerminalEvent (result : Except (SamplingError D) (ModelResponse J)) :
    AgentEvent J D → Prop
  | .modelRequestEnd response => result = .ok response
  | .modelRequestFailed .. => result.isOk = false
  | _ => False

/-- The start first, then progress, and last one terminal event that agrees with the result. An
abort stands before it if a message was started and the call failed. -/
def WellFormed (request : ModelRequest J) (sampled : Sampled J D) : Prop :=
  ∃ progress terminal, (∀ event ∈ progress, event.isProgress) ∧
    TerminalEvent sampled.result terminal ∧
    sampled.emitted = .modelRequestStart request :: progress ++
      (if progress.any AgentEvent.isMessageStart && !sampled.result.isOk then [.messageAbort]
        else []) ++ [terminal]

/-- A completion or an error ends a stream. -/
def StreamItem.Final : StreamItem J D → Prop
  | .ok (.completed _) | .error _ => True
  | .ok _ => False

def EndsStream (items : List (StreamItem J D)) : Prop :=
  ∀ item ∈ items.dropLast, ¬ StreamItem.Final item

variable {o : SamplingObserver J D} {request : ModelRequest J} {items : List (StreamItem J D)}

theorem EndsStream.of_cons {item : StreamItem J D} (h : EndsStream (item :: items)) :
    (StreamItem.Final item → items = []) ∧ EndsStream items := by
  cases items with
  | nil => exact ⟨fun _ => rfl, by simp [EndsStream]⟩
  | cons next items =>
    exact ⟨fun hfinal => absurd hfinal (h item List.mem_cons_self),
      fun entry hentry => h entry (List.mem_cons_of_mem _ hentry)⟩

namespace SamplingObserver

/-- The observer of a call that has not ended. -/
def Running (request : ModelRequest J) (o : SamplingObserver J D) : Prop :=
  ∃ progress, (∀ event ∈ progress, AgentEvent.isProgress event) ∧
    o.emitted = .modelRequestStart request :: progress ∧
    progress.any AgentEvent.isMessageStart = o.messageStarted

namespace Running

variable (h : o.Running request)

include h

theorem traffic {ev : AgentEvent J D} (hprogress : ev.isProgress)
    (hst : ev.isMessageStart = false) : (o.traffic ev).Running request := by
  obtain ⟨progress, hall, hemitted, hmessage⟩ := h
  refine ⟨progress ++ [ev], ?_, by simp [SamplingObserver.traffic, emit, hemitted], ?_⟩
  · simpa [or_imp, forall_and] using ⟨hall, hprogress⟩
  · simp [SamplingObserver.traffic, emit, ← hmessage, hst]

/-- An event that does not complete the call keeps it running, and is traffic or content. -/
theorem record (ev : ModelEvent J) : (∃ response, ev = .completed response) ∨
    (o.record ev).2 = none ∧ (o.record ev).1.Running request ∧
      (o.record ev).1.mayHaveDispatched := by
  cases ev with
  | completed response => exact .inl ⟨response, rfl⟩
  | providerRequest | providerResponse | retryAttempt => exact .inr ⟨rfl, h.traffic rfl rfl, rfl⟩
  | contentDelta index delta =>
    obtain ⟨progress, hall, hemitted, hmessage⟩ := h
    refine .inr ⟨rfl, ⟨progress ++ .modelRequestChunk index delta ::
      (if o.messageStarted then [] else [.messageStart]) ++ [.messageUpdate index delta],
      ?_, ?_, ?_⟩, Bool.or_true _⟩
    · cases o.messageStarted <;> simpa [or_imp, forall_and, AgentEvent.isProgress] using hall
    · simp [SamplingObserver.record, emit, hemitted]
    · cases hstarted : o.messageStarted <;>
        simp [SamplingObserver.record, AgentEvent.isMessageStart, hmessage, hstarted]

/-- A call that fails aborts the message it started. -/
theorem failure (error : SamplingError D) (code : ModelFailureCode) (msg : String)
    (outcomeUnknown : Bool) (diagnostic : Option D) : WellFormed request
      ⟨.error error, (o.failure code msg outcomeUnknown diagnostic).emitted⟩ := by
  obtain ⟨progress, hall, hemitted, hmessage⟩ := h
  refine ⟨progress, .modelRequestFailed code msg outcomeUnknown diagnostic, hall, rfl, ?_⟩
  cases hstarted : o.messageStarted <;>
    simp [SamplingObserver.failure, abortMessage, emit, hemitted, hmessage, hstarted, Except.isOk,
      Except.toBool]

theorem completed (response : ModelResponse J) :
    WellFormed request ⟨.ok response, (o.record (.completed response)).1.emitted⟩ := by
  obtain ⟨progress, hall, hemitted, -⟩ := h
  exact ⟨progress, .modelRequestEnd response, hall, rfl,
    by simp [SamplingObserver.record, emit, hemitted, Except.isOk, Except.toBool]⟩

end Running

end SamplingObserver

/-- A well-formed call that, if it ends as cancelled, saw no event before or among its items. -/
def Honest (request : ModelRequest J) (o : SamplingObserver J D) (items : List (StreamItem J D))
    (sampled : Sampled J D) : Prop :=
  WellFormed request sampled ∧ (sampled.result = .error .cancelled →
    o.mayHaveDispatched = false ∧ ∀ event, Except.ok event ∉ items)

theorem drain_honest (hrun : o.Running request) (hends : EndsStream items) :
    Honest request o items (drainCancelledStream o none none items) := by
  induction items generalizing o with
  | nil =>
    cases hseen : o.mayHaveDispatched <;> simp only [drainCancelledStream, hseen]
    · exact ⟨hrun.failure .., fun _ => ⟨hseen, by simp⟩⟩
    · exact ⟨hrun.failure .., nofun⟩
  | cons item items ih =>
    obtain ⟨hlast, hrest⟩ := hends.of_cons
    match item with
    | .error error =>
      obtain rfl := hlast trivial
      cases hseen : o.mayHaveDispatched <;> simp only [drainCancelledStream, hseen]
      · exact ⟨hrun.failure .., fun _ => ⟨hseen, by simp⟩⟩
      · exact ⟨hrun.failure .., nofun⟩
    | .ok ev =>
      obtain ⟨response, rfl⟩ | ⟨hnone, hnext, hseen⟩ := hrun.record ev
      · obtain rfl := hlast trivial
        exact ⟨hrun.completed response, nofun⟩
      · obtain ⟨hformed, hcancelled⟩ := ih hnext hrest
        simp only [drainCancelledStream, hnone]
        exact ⟨hformed, fun h => absurd (hcancelled h).1 (by simp [hseen])⟩

theorem loop_honest (moment : Option Nat) (tick : Nat) (hrun : o.Running request)
    (hends : EndsStream items) :
    Honest request o items (samplingLoop moment o tick items) := by
  induction items generalizing o tick with
  | nil =>
    unfold samplingLoop
    split
    · exact drain_honest hrun hends
    · exact ⟨hrun.failure .., nofun⟩
  | cons item items ih =>
    unfold samplingLoop
    split
    · exact drain_honest hrun hends
    obtain ⟨hlast, hrest⟩ := hends.of_cons
    match item with
    | .error error =>
      obtain rfl := hlast trivial
      dsimp only
      split
      · exact ⟨hrun.failure .., fun _ => ⟨by simp_all, by simp⟩⟩
      · exact ⟨hrun.failure .., nofun⟩
    | .ok ev =>
      obtain ⟨response, rfl⟩ | ⟨hnone, hnext, hseen⟩ := hrun.record ev
      · exact ⟨hrun.completed response, nofun⟩
      · obtain ⟨hformed, hcancelled⟩ := ih (tick + 2) hnext hrest
        simp only [hnone]
        exact ⟨hformed, fun h => absurd (hcancelled h).1 (by simp [hseen])⟩

/-- **A cancellation is reported honestly.** A call that returns `cancelled` was cancelled before it
started or saw no event of the provider; the adapter reports a definite failure only for such a
call, for an error known not to have started and for a request it cannot read, and every other error
as an unknown outcome; and a call that starts emits a well-formed sequence of events. -/
theorem sampling_honest (serde : Serde J V) (model : ModelRequest J → List (StreamItem J D))
    (moment : Option Nat) :
    (∀ request, EndsStream (model request) →
      let sampled := sampleModel moment request (model request)
      (sampled.result = .error .cancelled →
        cancelledBy moment 0 ∨ ∀ event, Except.ok event ∉ model request) ∧
      (if cancelledBy moment 0 then sampled.emitted = [] else WellFormed request sampled)) ∧
    (∀ stored message, ModelAdapter.invoke serde model moment stored = .settled (.failure message) →
      (serde.modelRequest.decode stored).isOk = false ∨
      ∃ request, serde.modelRequest.decode stored = .ok request ∧
        ∃ error, (sampleModel moment request (model request)).result = .error error ∧
          (error = .cancelled ∨ ∃ e, error = .model e ∧ e.inferenceOutcome = .knownNotStarted)) ∧
    ∀ stored request error, serde.modelRequest.decode stored = .ok request →
      (sampleModel moment request (model request)).result = .error error → error ≠ .cancelled →
      (∀ e, error = .model e → e.inferenceOutcome ≠ .knownNotStarted) →
      ModelAdapter.invoke serde model moment stored = .outcomeUnknown := by
  refine ⟨fun request hends => ?_, fun stored message h => ?_, ?_⟩
  · have hstart : (SamplingObserver.start request : SamplingObserver J D).Running request :=
      ⟨[], by simp, rfl, rfl⟩
    by_cases hbefore : cancelledBy moment 0
    · simp [sampleModel, hbefore]
    · obtain ⟨hformed, hunseen⟩ := loop_honest moment 1 hstart hends
      simp only [sampleModel, hbefore]
      exact ⟨fun h => .inr (hunseen h).2, hformed⟩
  · unfold ModelAdapter.invoke at h
    cases hdecode : serde.modelRequest.decode stored with
    | error _ => exact .inl rfl
    | ok request =>
      refine .inr ⟨request, rfl, ?_⟩
      rw [hdecode] at h
      dsimp only at h
      cases hresult : (sampleModel moment request (model request)).result with
      | ok => simp [hresult, adapterCompletion] at h
      | error error =>
        refine ⟨error, rfl, ?_⟩
        rw [hresult] at h
        cases error with
        | cancelled => exact .inl rfl
        | incompleteStream => cases h
        | model e =>
          refine .inr ⟨e, rfl, ?_⟩
          cases houtcome : e.inferenceOutcome with
          | knownNotStarted => rfl
          | unknown => simp [adapterCompletion, houtcome] at h
  · intro stored request error hdecode hresult hcancelled hunknown
    simp only [ModelAdapter.invoke, hdecode, hresult]
    cases error with
    | cancelled => exact absurd rfl hcancelled
    | incompleteStream => rfl
    | model e =>
      cases houtcome : e.inferenceOutcome with
      | knownNotStarted => exact absurd houtcome (hunknown e rfl)
      | unknown => simp [adapterCompletion, houtcome]

end Renoa.Loop
