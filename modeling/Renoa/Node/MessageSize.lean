import Mathlib.Algebra.BigOperators.Group.List.Basic
import Mathlib.Algebra.Order.Group.Nat
import Renoa.Node.SessionSpec

/-!
# Batches and the size of their message

`publishBytes` is the length of the JSON text a batch is published in: the frame of the message,
the frame of each event and the texts it carries, escaped. The text grows with the batch, so
`publicationBatch` finds the longest batch that fits, as soon as the first event fits alone
(`publicationBatch_longest_iff`). Nothing bounds an event when it is recorded. A text of a mebibyte
is recorded and never published (`publicationBatch_large_text`).
-/

namespace Renoa.Node

open Protocol List
open Control (TaskId)

variable {V : Type} {bytes : MessageBytes V} {tid : TaskId} {cid : CommandId}

/-! ## The length of a message -/

/-- The bytes of a character in a JSON string. -/
def charBytes (c : Char) : Nat :=
  if c = '"' ∨ c = '\\' ∨ c.toNat ∈ [8, 9, 10, 12, 13] then 2
  else if c.toNat < 32 then 6 else c.utf8Size

def stringBytes (text : String) : Nat := 2 + (text.toList.map charBytes).sum

/-- The bytes of an identity: 36 characters, in quotes. -/
def uuidBytes : Nat := 38

def terminalBytes : ExecutionTerminal → Nat
  | .completed => 22
  | .failed error => 28 + stringBytes error
  | .cancelled reason => 32 + stringBytes reason

/-- The bytes of what an event reports; the numbers are those of its tag and its field names. -/
def kindBytes (valueBytes : V → Nat) : ExecutionEventKind V → Nat
  | .executionStarted => 28
  | .turnStarted => 23
  | .assistantMessage text => 36 + stringBytes text
  | .toolStarted callId name arguments =>
    55 + stringBytes callId + stringBytes name + valueBytes arguments
  | .toolFinished callId output isError =>
    57 + stringBytes callId + stringBytes output + if isError then 4 else 5
  | .executionTerminated terminal => 43 + terminalBytes terminal

def eventBytes (valueBytes : V → Nat) (event : ExecutionEvent V) : Nat :=
  63 + 2 * uuidBytes + (toString event.sequence).length + (toString event.recordedAtMs).length +
    kindBytes valueBytes event.kind

/-- The bytes of the message that publishes events; its events are set apart by commas. -/
def publishBytes (valueBytes : V → Nat) : MessageBytes V := fun _ _ events =>
  72 + 2 * uuidBytes + (events.map (eventBytes valueBytes)).sum + (events.length - 1)

theorem publishBytes_mono (valueBytes : V → Nat) {evs events' : List (ExecutionEvent V)}
    (h : evs <+: events') :
    publishBytes valueBytes tid cid evs ≤
      publishBytes valueBytes tid cid events' := by
  obtain ⟨later, rfl⟩ := h
  simp only [publishBytes, map_append, sum_append, length_append]
  omega

theorem length_le_stringBytes (text : String) : text.toList.length ≤ stringBytes text := by
  have hchar : ∀ n ∈ text.toList.map charBytes, 1 ≤ n := by
    intro n hn
    obtain ⟨c, _, rfl⟩ := mem_map.mp hn
    have hutf8 := c.utf8Size_pos
    unfold charBytes
    split_ifs <;> omega
  have hsum := length_le_sum_of_one_le _ hchar
  rw [length_map] at hsum
  unfold stringBytes
  omega

/-! ## The longest batch -/

/-- A batch that starts at the first of the events, fits one message and cannot be longer. -/
structure LongestBatch (bytes : MessageBytes V) (taskId : TaskId) (commandId : CommandId)
    (events batch : List (ExecutionEvent V)) : Prop where
  nonempty : batch ≠ []
  isPrefix : batch <+: events
  fits : bytes taskId commandId batch ≤ maxApplicationMessageBytes
  longest : ∀ other, other <+: events →
    bytes taskId commandId other ≤ maxApplicationMessageBytes → other <+: batch

section Longest

variable {batch : List (ExecutionEvent V)} (evs : List (ExecutionEvent V))

theorem publicationBatch_eq_fitting (hbat : batch ≠ []) : publicationBatch bytes tid cid batch evs =
      .ok (fitting bytes tid cid batch evs) := by
  induction evs generalizing batch with
  | nil => rfl
  | cons ev rest ih =>
    unfold publicationBatch fitting
    split
    · rw [if_neg (by simpa using hbat)]
    · exact ih (by simp)

theorem fitting_fits (hfits : bytes tid cid batch ≤ maxApplicationMessageBytes) :
    bytes tid cid (fitting bytes tid cid batch evs) ≤
      maxApplicationMessageBytes := by
  induction evs generalizing batch with
  | nil => exact hfits
  | cons ev rest ih =>
    unfold fitting
    split
    · exact hfits
    · rename_i hle
      exact ih (Nat.le_of_not_lt hle)

/-- A batch that fits is taken in: were it longer, the event that was left out would fit too. -/
theorem prefix_fitting {other : List (ExecutionEvent V)} (hmono : ∀ evs events', evs <+: events' →
      bytes tid cid evs ≤ bytes tid cid events')
    (hoth : other <+: batch ++ evs)
    (hfits : bytes tid cid other ≤ maxApplicationMessageBytes) :
    other <+: fitting bytes tid cid batch evs := by
  induction evs generalizing batch with
  | nil => simpa [fitting] using hoth
  | cons ev rest ih =>
    unfold fitting
    rw [← singleton_append, ← append_assoc] at hoth
    split
    · have hbat : batch ++ [ev] <+: batch ++ [ev] ++ rest := prefix_append _ _
      rcases prefix_or_prefix_of_prefix hoth hbat with hle | hge
      · rcases prefix_concat_iff.mp hle with heq | hle
        · rw [heq] at hfits
          omega
        · exact hle
      · have := hmono _ _ hge
        omega
    · exact ih hoth

end Longest

/-- The batch of a sequence of events is the longest that fits, exactly when its first event fits
one message. -/
theorem publicationBatch_longest_iff (valueBytes : V → Nat) (taskId : TaskId)
    (commandId : CommandId) (event : ExecutionEvent V) (rest : List (ExecutionEvent V)) :
    (∃ batch, publicationBatch (publishBytes valueBytes) taskId commandId [] (event :: rest) =
        .ok batch ∧ LongestBatch (publishBytes valueBytes) taskId commandId (event :: rest) batch) ↔
      publishBytes valueBytes taskId commandId [event] ≤ maxApplicationMessageBytes := by
  constructor
  · rintro ⟨batch, _, hlongest⟩
    obtain ⟨first, tail, rfl⟩ := exists_cons_of_ne_nil hlongest.nonempty
    obtain ⟨rfl, _⟩ := cons_prefix_cons.mp hlongest.isPrefix
    exact (publishBytes_mono valueBytes (by simp)).trans hlongest.fits
  · intro hfits
    have hone : [event] ≠ [] := cons_ne_nil _ _
    have hstart : [event] <+: fitting (publishBytes valueBytes) taskId commandId [event] rest :=
      batch_prefix_fitting [event] rest
    refine ⟨_, ?_, ?_, fitting_isPrefix [event] rest, fitting_fits rest hfits,
      fun other hother hle => ?_⟩
    · unfold publicationBatch
      rw [nil_append, if_neg (Nat.not_lt.mpr hfits)]
      exact publicationBatch_eq_fitting rest hone
    · intro hnil
      rw [hnil] at hstart
      exact hone (prefix_nil.mp hstart)
    · exact prefix_fitting rest (fun _ _ => publishBytes_mono valueBytes) hother hle

/-- An admitted command and what its turn reported: an assistant message. -/
def reported (text : String) : Except NodeStoreError (Ledger V) := do
  let command : CommandEnvelope :=
    { commandId := ⟨1⟩, principalId := ⟨2⟩, surface := ⟨"phone"⟩, target := ⟨"agent"⟩,
      input := .fromText "Hello", origin := none }
  let (_, l) ← Ledger.empty.admitCommand ⟨⟨3⟩, 0⟩ ⟨4⟩ command ⟨"agent", 5, 6, "/home"⟩
  let l ← l.appendTurnStarted ⟨⟨7⟩, 1⟩ ⟨1⟩
  let (_, l) ← l.appendProgress ⟨⟨8⟩, 2⟩ ⟨1⟩ (.assistantMessage text)
  return l

/-- A text that is as long as a message may be is recorded, and its batch is refused. -/
theorem reported_large {text : String} (hlarge : maxApplicationMessageBytes ≤ stringBytes text) :
    ∃ l : Ledger Unit, reported text = .ok l ∧ ∃ error, publicationBatch (publishBytes fun _ => 0)
      ⟨4⟩ ⟨1⟩ [] (l.loadEventsAfter ⟨1⟩ (some 1)) = .error error := by
  refine ⟨_, rfl, ?_⟩
  show ∃ _, publicationBatch _ _ _ [] [⟨⟨8⟩, ⟨1⟩, 2, 2, .assistantMessage text⟩] = _
  unfold publicationBatch
  rw [if_pos]
  · exact ⟨_, rfl⟩
  · simp only [publishBytes, eventBytes, kindBytes, nil_append, map_cons, sum_cons]
    omega

theorem publicationBatch_large_text :
    ∃ l : Ledger Unit, reported (String.ofList (List.replicate (1024 * 1024) 'a')) = .ok l ∧
      ∃ error, publicationBatch (publishBytes fun _ => 0) ⟨4⟩ ⟨1⟩ []
        (l.loadEventsAfter ⟨1⟩ (some 1)) = .error error := by
  have htext := length_le_stringBytes (String.ofList (List.replicate (1024 * 1024) 'a'))
  rw [String.toList_ofList, length_replicate] at htext
  exact reported_large htext

end Renoa.Node
