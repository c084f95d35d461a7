import Renoa.Loop.Sampling
import Mathlib.Data.List.Chain

/-!
# Live text

While a turn runs, the node streams the visible text of the model's messages to attached surfaces,
at most one frame in `flushInterval`. Text that is not due waits for the next fragment of the
message and is dropped at its end. `Message` collects beside the stream what the current message
says and which frames were shown of it; the frames are an initial part of that text
(`live_text_faithful`).
-/

namespace Renoa.Node

open List Loop

/-- The least time between two text frames of one message, in nanoseconds. -/
def flushInterval : Nat := 50 * 1000000

inductive LiveActivity where
  | textDelta (sequence : Nat) (text : String)
  | textReset
  deriving DecidableEq

/-- An event of a running turn: of a model call, or of a tool, which live text does not look at. -/
inductive TurnEvent (J D : Type) where
  | model (event : AgentEvent J D)
  | tool

structure LiveText where
  streaming : Bool := false
  nextSequence : Nat := 0
  pending : String := ""
  lastSent : Option Nat := none

variable {J D : Type}

namespace LiveText

/-- A new message starts, so its frames count from zero. -/
def messageStarted (live : LiveText) : LiveText :=
  { live with nextSequence := 0, pending := "", lastSent := none }

def requestStarted (live : LiveText) : LiveText := { live with streaming := true }.messageStarted

def requestEnded (live : LiveText) : LiveText := { live with streaming := false }.messageStarted

/-- A visible fragment arrived, or one that is not text, with an empty `text`. -/
def push (live : LiveText) (text : String) (now : Nat) : LiveText × Option LiveActivity :=
  if live.streaming then
    let pending := live.pending ++ text
    if pending = "" ∨ live.lastSent.any (fun sent => now - sent < flushInterval) then
      ({ live with pending }, none)
    else
      ({ live with pending := "", nextSequence := live.nextSequence + 1, lastSent := some now },
        some (.textDelta live.nextSequence pending))
  else (live, none)

def abort (live : LiveText) : LiveText × Option LiveActivity :=
  (live.messageStarted, if 0 < live.nextSequence then some .textReset else none)

def observe (live : LiveText) (now : Nat) : TurnEvent J D → LiveText × Option LiveActivity
  | .model (.modelRequestStart _) => (live.requestStarted, none)
  | .model .messageStart => (live.messageStarted, none)
  | .model (.messageUpdate _ (.text text)) => live.push text now
  | .model (.messageUpdate ..) => live.push "" now
  | .model .messageAbort => live.abort
  | .model (.modelRequestEnd _) | .model (.modelRequestFailed ..) => (live.requestEnded, none)
  | _ => (live, none)

end LiveText

/-! ## Messages and their frames -/

structure Frame where
  sequence : Nat
  text : String
  sentAt : Nat

/-- The text of the current message, and the frames that were sent of it. -/
structure Message where
  visible : String := ""
  frames : List Frame := []

/-- The visible text of an event. -/
def TurnEvent.text : TurnEvent J D → String
  | .model (.messageUpdate _ (.text text)) => text
  | _ => ""

/-- A message ends at the event: another starts, or it is aborted, or its request ends. -/
def TurnEvent.ends : TurnEvent J D → Bool
  | .model (.modelRequestStart _) | .model .messageStart | .model .messageAbort
  | .model (.modelRequestEnd _) | .model (.modelRequestFailed ..) => true
  | _ => false

def LiveActivity.frames (now : Nat) : LiveActivity → List Frame
  | .textDelta sequence text => [⟨sequence, text, now⟩]
  | .textReset => []

/-- The current message behind an event, with what was sent for the event. -/
def Message.next (message : Message) (event : TurnEvent J D) (now : Nat)
    (sent : Option LiveActivity) : Message :=
  if event.ends then {} else
    ⟨message.visible ++ event.text, message.frames ++ (sent.map (·.frames now)).getD []⟩

/-- The live text and the current message after the events of a turn, each with its time. -/
def watch (history : List (TurnEvent J D × Nat)) : LiveText × Message :=
  history.foldl (fun (live, message) (event, now) =>
    ((live.observe now event).1, message.next event now (live.observe now event).2)) ({}, {})

def joined (frames : List Frame) : String := frames.foldl (fun text frame => text ++ frame.text) ""

/-- The live text stands where the frames of the message end, and holds what was not sent yet. -/
structure Shows (live : LiveText) (message : Message) : Prop where
  sequences : message.frames.map Frame.sequence = range message.frames.length
  next : live.nextSequence = message.frames.length
  shown : live.streaming = true → joined message.frames ++ live.pending = message.visible
  silent : live.streaming = false → message.frames = []
  last : live.lastSent = message.frames.getLast?.map Frame.sentAt
  spaced : message.frames.IsChain fun frame later => frame.sentAt + flushInterval ≤ later.sentAt

theorem shows_started (live : LiveText) : Shows live.messageStarted {} where
  sequences := rfl
  next := rfl
  shown _ := rfl
  silent _ := rfl
  last := rfl
  spaced := .nil

theorem Shows.push {live : LiveText} {message : Message} (h : Shows live message) (text : String)
    (now : Nat) : Shows (live.push text now).1 ⟨message.visible ++ text,
      message.frames ++ ((live.push text now).2.map (·.frames now)).getD []⟩ := by
  unfold LiveText.push
  split
  · rename_i hstreaming
    have hshown : joined message.frames ++ (live.pending ++ text) = message.visible ++ text := by
      rw [← String.append_assoc, h.shown hstreaming]
    dsimp only
    split
    · rw [Option.map_none, Option.getD_none, append_nil]
      exact { h with shown := fun _ => hshown }
    · rename_i hdue
      refine ⟨?_, ?_, fun _ => ?_, fun hsilent => ?_, ?_, ?_⟩
      · simp [LiveActivity.frames, h.sequences, h.next, range_succ]
      · simp [LiveActivity.frames, h.next]
      · simpa [joined, LiveActivity.frames] using hshown
      · exact absurd (hstreaming.symm.trans hsilent) (by decide)
      · simp [LiveActivity.frames]
      · refine isChain_append.mpr ⟨h.spaced, .singleton _, ?_⟩
        intro frame hframe later hlater
        cases hlater
        -- The last frame is the one the pacing looked at.
        have hlast : live.lastSent = some frame.sentAt := by rw [h.last, hframe]; rfl
        rw [hlast, Option.any_some, decide_eq_true_eq, not_or] at hdue
        unfold flushInterval at hdue ⊢
        dsimp only
        omega
  · rename_i hsilent
    rw [Option.map_none, Option.getD_none, append_nil]
    exact { h with shown := fun hstreaming => absurd hstreaming hsilent }

/-- One event keeps the frames an initial part of the message. -/
theorem Shows.observe {live : LiveText} {message : Message} (h : Shows live message) (now : Nat)
    (event : TurnEvent J D) :
    Shows (live.observe now event).1 (message.next event now (live.observe now event).2) := by
  have hother : Shows live ⟨message.visible ++ "", message.frames ++ []⟩ := by
    rw [String.append_empty, append_nil]
    exact h
  rcases event with event | _
  · cases event with
    | modelRequestStart | messageStart | messageAbort | modelRequestEnd | modelRequestFailed =>
      exact shows_started _
    | messageUpdate index delta => cases delta <;> exact h.push _ now
    | _ => exact hother
  · exact hother

theorem Shows.exists_rest {live : LiveText} {message : Message} (h : Shows live message) :
    ∃ rest, joined message.frames ++ rest = message.visible := by
  cases hstreaming : live.streaming with
  | true => exact ⟨_, h.shown hstreaming⟩
  | false => exact ⟨_, by rw [h.silent hstreaming, joined, foldl_nil, String.empty_append]⟩

/-- A reset is sent for an abort of a message of which a frame was shown. -/
theorem Shows.reset_iff {live : LiveText} {message : Message} (h : Shows live message)
    (event : TurnEvent J D) (now : Nat) : (live.observe now event).2 = some .textReset ↔
      event = .model .messageAbort ∧ message.frames ≠ [] := by
  have hpush : ∀ text, (live.push text now).2 ≠ some .textReset := by
    intro text
    unfold LiveText.push
    dsimp only
    split <;> [split; skip] <;> simp
  rcases event with event | _
  · cases event with
    | messageAbort => simp [LiveText.observe, LiveText.abort, h.next, length_pos_iff]
    | messageUpdate index delta =>
      refine ⟨fun hreset => ?_, fun hreset => by cases hreset.1⟩
      cases delta <;> exact absurd hreset (hpush _)
    | _ => simp [LiveText.observe]
  · simp [LiveText.observe]

theorem shows_watch (history : List (TurnEvent J D × Nat)) :
    Shows (watch history).1 (watch history).2 := by
  induction history using reverseRecOn with
  | nil => exact shows_started {}
  | append_singleton history entry ih =>
    rw [watch, foldl_append]
    exact ih.observe entry.2 entry.1

/-- **Live text is a faithful initial part.** Over every history of a turn, the frames of the
current message are numbered from zero, stand at least the interval apart, and show an initial part
of the message's visible text; a reset is sent exactly when a message is aborted of which a frame
was shown. -/
theorem live_text_faithful (history : List (TurnEvent J D × Nat)) :
    let live := (watch history).1
    let message := (watch history).2
    message.frames.map Frame.sequence = range message.frames.length ∧
      (∃ rest, joined message.frames ++ rest = message.visible) ∧
      (message.frames.IsChain fun frame later => frame.sentAt + flushInterval ≤ later.sentAt) ∧
      ∀ (event : TurnEvent J D) now, (live.observe now event).2 = some .textReset ↔
        event = .model .messageAbort ∧ message.frames ≠ [] := by
  have h := shows_watch history
  exact ⟨h.sequences, h.exists_rest, h.spaced, h.reset_iff⟩

end Renoa.Node
