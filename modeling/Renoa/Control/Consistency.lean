import Renoa.Control.EventStore
import Renoa.Control.TaskStore
import Renoa.Control.AgentMessages

/-!
# The invariant of the coordinator's database

`Consistent` is what every committed state satisfies. Its part about the journal, `JournalInv`,
speaks of the cursors of the execution streams through a function: while a batch is appended the
cursor of its stream runs ahead of the stored row, and the journal agrees with the running one.

`OpenStream` ties the events journalled for a command to its cursor.
-/

namespace Renoa.Control

open Foundation Protocol List Table

variable {V : Type} {event : ExecutionEvent V} {cid : CommandId} {db db' : Database V}

/-- The source a record of this kind is made from. -/
def TaskEventKind.source : TaskEventKind V → SourceId
  | .commandSubmitted command => .command command.commandId
  | .executionEvent _ event => .execution event.eventId

/-- The command a record belongs to. -/
def TaskEventKind.cause : TaskEventKind V → CommandId
  | .commandSubmitted command => command.commandId
  | .executionEvent commandId _ => commandId

/-- The event a record holds for the execution of the command. -/
def TaskEventKind.eventOf? (commandId : CommandId) : TaskEventKind V → Option (ExecutionEvent V)
  | .commandSubmitted _ => none
  | .executionEvent cause event => if cause = commandId then some event else none

/-- The events journalled for a command are the first `nextSequence` of one execution, begun by its
start, and the flag tells whether its end is among them. -/
structure OpenStream (events : List (ExecutionEvent V)) (stream : ExecutionEventStreamRow) :
    Prop where
  sequences : events.map ExecutionEvent.sequence = List.range stream.nextSequence
  execution : ∀ e ∈ events, e.executionId = stream.executionId
  started : ∀ e ∈ events, e.isStarted = true ↔ e.sequence = 0
  ended : ∀ e ∈ events, e.isTerminal = true → e.sequence + 1 = stream.nextSequence
  terminal : stream.terminal = true ↔ ∃ e ∈ events, e.isTerminal = true

/-- Without a stream nothing is journalled for the command. -/
def StreamInv (events : List (ExecutionEvent V)) : Option ExecutionEventStreamRow → Prop
  | none => events = []
  | some stream => OpenStream events stream

/-- The tasks, commands and journal agree, and the journal agrees with the cursors. -/
structure JournalInv (db : Database V) (cursor : CommandId → Option ExecutionEventStreamRow) :
    Prop where
  numbered : ∀ t ∈ db.tasks,
    (db.eventsOf t.taskId).map TaskEventRow.sequence = List.range t.nextSequence
  source : ∀ r ∈ db.taskEvents, r.sourceId = r.kind.source
  source_unique : ∀ r ∈ db.taskEvents, ∀ q ∈ db.taskEvents, r.sourceId = q.sourceId → r = q
  cause : ∀ r ∈ db.taskEvents, ∃ c ∈ db.commands, c.commandId = r.kind.cause ∧ c.taskId = r.taskId
  command_task : ∀ c ∈ db.commands, ∃ t ∈ db.tasks, t.taskId = c.taskId
  command_id : ∀ c ∈ db.commands, c.command.commandId = c.commandId
  streams : ∀ commandId, StreamInv (db.journalOf commandId) (cursor commandId)

/-- What every committed state of the coordinator satisfies. -/
structure Consistent (db : Database V) : Prop where
  journal : JournalInv db db.executionEventStreams.find?
  stream_command : ∀ s ∈ db.executionEventStreams, ∃ c ∈ db.commands, c.commandId = s.commandId
  stream_opened : ∀ s ∈ db.executionEventStreams, 0 < s.nextSequence
  pending_command : ∀ p ∈ db.pendingExecutions, ∃ c ∈ db.commands, c.commandId = p.commandId
  stop_command : ∀ s ∈ db.stopRequests, ∃ c ∈ db.commands, c.commandId = s.commandId

theorem Database.journalOf_eq (db : Database V) (cid : CommandId) : db.journalOf cid =
      db.taskEvents.rows.filterMap fun row => row.kind.eventOf? cid := by
  unfold Database.journalOf
  congr 1
  funext row
  cases row.kind <;> rfl

theorem TaskEventKind.eventOf?_eq_some {kind : TaskEventKind V} :
    kind.eventOf? cid = some event ↔ kind = .executionEvent cid event := by
  cases kind with
  | commandSubmitted cmd => simp [eventOf?]
  | executionEvent cause e =>
    by_cases h : cause = cid
    · simp [eventOf?]
    · simp [eventOf?]

theorem Database.mem_journalOf {db : Database V} : event ∈ db.journalOf cid ↔
      ∃ r ∈ db.taskEvents, r.kind = .executionEvent cid event := by
  rw [journalOf_eq, mem_filterMap]
  simp only [TaskEventKind.eventOf?_eq_some, mem_rows]

theorem Database.mem_eventsOf {db : Database V} {tid : TaskId} {r : TaskEventRow V} :
    r ∈ db.eventsOf tid ↔ r ∈ db.taskEvents ∧ r.taskId = tid := by
  rw [← mem_rows]
  simp [eventsOf]

/-- The journal reads only its own table. -/
theorem Database.journalOf_congr (h : db'.taskEvents.rows = db.taskEvents.rows)
    (cid : CommandId) : db'.journalOf cid = db.journalOf cid := by
  rw [journalOf_eq, journalOf_eq, h]

/-- The invariant of the journal reads the tables of tasks, commands and records. -/
theorem JournalInv.congr {cursor : CommandId → Option ExecutionEventStreamRow}
    (h : JournalInv db cursor) (htks : db'.tasks = db.tasks)
    (hcmds : db'.commands = db.commands) (hevs : db'.taskEvents = db.taskEvents) :
    JournalInv db' cursor := by
  cases db'
  cases htks
  cases hcmds
  cases hevs
  exact { h with }

/-! ## Streams -/

namespace OpenStream

variable {evs : List (ExecutionEvent V)} {stream : ExecutionEventStreamRow}
  {e : ExecutionEvent V}

theorem sequence_lt (h : OpenStream evs stream) (he : e ∈ evs) :
    e.sequence < stream.nextSequence := by
  have hmem := mem_map_of_mem (f := ExecutionEvent.sequence) he
  rw [h.sequences, mem_range] at hmem
  exact hmem

theorem length_eq (h : OpenStream evs stream) : evs.length = stream.nextSequence := by
  have hlen := congrArg List.length h.sequences
  rwa [length_map, length_range] at hlen

/-- The cursor moves over the next event of the execution. -/
theorem append (h : OpenStream evs stream) (hseq : e.sequence = stream.nextSequence)
    (hexec : e.executionId = stream.executionId)
    (hst : e.isStarted = true ↔ e.sequence = 0) (hopen : stream.terminal = false) :
    OpenStream (evs ++ [e])
      { stream with nextSequence := stream.nextSequence + 1, terminal := e.isTerminal } := by
  have hnone : ∀ q ∈ evs, ¬ q.isTerminal = true := by
    intro q hq hterm
    have hflag := h.terminal.mpr ⟨q, hq, hterm⟩
    rw [hopen] at hflag
    cases hflag
  refine ⟨?_, ?_, ?_, ?_, ?_⟩
  · rw [map_append, h.sequences, range_succ, map_singleton, hseq]
  · intro q hq
    rcases mem_append.mp hq with hq | hq
    · exact h.execution q hq
    · rw [mem_singleton.mp hq]
      exact hexec
  · intro q hq
    rcases mem_append.mp hq with hq | hq
    · exact h.started q hq
    · rw [mem_singleton.mp hq]
      exact hst
  · intro q hq hterm
    rcases mem_append.mp hq with hq | hq
    · exact absurd hterm (hnone q hq)
    · rw [mem_singleton.mp hq, hseq]
  · constructor
    · intro hterm
      exact ⟨e, by simp, hterm⟩
    · rintro ⟨q, hq, hterm⟩
      rcases mem_append.mp hq with hq | hq
      · exact absurd hterm (hnone q hq)
      · rw [← mem_singleton.mp hq]
        exact hterm

end OpenStream

theorem openStream_nil (cid : CommandId) (xid : ExecutionId) :
    OpenStream ([] : List (ExecutionEvent V)) ⟨cid, xid, 0, false⟩ where
  sequences := rfl
  execution _ he := absurd he not_mem_nil
  started _ he := absurd he not_mem_nil
  ended _ he := absurd he not_mem_nil
  terminal := by simp

theorem consistent_empty : Consistent (Database.empty : Database V) where
  journal := {
    numbered _ ht := absurd ht not_mem_empty
    source _ hr := absurd hr not_mem_empty
    source_unique _ hr := absurd hr not_mem_empty
    cause _ hr := absurd hr not_mem_empty
    command_task _ hc := absurd hc not_mem_empty
    command_id _ hc := absurd hc not_mem_empty
    streams _ := rfl }
  stream_command _ hs := absurd hs not_mem_empty
  stream_opened _ hs := absurd hs not_mem_empty
  pending_command _ hp := absurd hp not_mem_empty
  stop_command _ hs := absurd hs not_mem_empty

end Renoa.Control
