import Renoa.Control.Model

/-!
# The task journal

`appendEvent` writes one record behind the task's sequence and, for a record that wakes the owner,
marks the wake in the same transaction. `loadSuffix` reads the records after a cursor.
-/

namespace Renoa.Control

open Foundation Protocol

variable {V : Type}

/-- The code points with the property `White_Space`. -/
def isWhiteSpace (c : Char) : Bool :=
  let n := c.toNat
  (9 ≤ n && n ≤ 13) || n = 32 || n = 133 || n = 160 || n = 5760 || (8192 ≤ n && n ≤ 8202) ||
    n = 8232 || n = 8233 || n = 8239 || n = 8287 || n = 12288

/-- The text is empty once trimmed. -/
def isBlank (text : String) : Bool := text.toList.all isWhiteSpace

/-- Why a record wakes the owner. -/
def wakeReason : TaskEventKind V → Option String
  | .commandSubmitted _ => none
  | .executionEvent _ event =>
    match event.kind with
    | .assistantMessage text => if isBlank text then none else some "assistant_message"
    | .executionTerminated (.failed _) => some "execution_failed"
    | _ => none

namespace Database

variable (db : Database V)

/-- The record belongs to the execution of a command submitted quiet. -/
def ofQuietCommand : TaskEventKind V → Bool
  | .commandSubmitted _ => false
  | .executionEvent commandId _ =>
    match db.commands.find? commandId with
    | some row => row.command.input.quiet
    | none => false

/-- Marks a wake as owed to a principal. -/
def recordWake (principalId : PrincipalId) (rings : Bool) : Database V :=
  { db with
    pushWakes := db.pushWakes.upsert
      { principalId, generation := 1, settled := 0, ringGeneration := if rings then 1 else 0 }
      fun wake =>
        { wake with
          generation := wake.generation + 1
          ringGeneration := if rings then wake.generation + 1 else wake.ringGeneration } }

/-- The wake a record owes, if it owes one. -/
def markWake (principalId : PrincipalId) (kind : TaskEventKind V) : Database V :=
  if (wakeReason kind).isSome && !db.ofQuietCommand kind then db.recordWake principalId false
  else db

/-- Inserting a journal row, under the constraints of the journal. -/
def insertTaskEvent (row : TaskEventRow V) : Except ControlError (Database V) := do
  let taskEvents ← require .sqlite (db.taskEvents.insert
    (fun q => q.sourceId = row.sourceId ∨ (q.taskId = row.taskId ∧ q.sequence = row.sequence)) row)
  return { db with taskEvents }

/-- Appends one record to its task's journal. -/
def appendEvent (eventId : TaskEventId) (taskId : TaskId) (sourceId : SourceId)
    (kind : TaskEventKind V) : Except ControlError (TaskEvent V × Database V) := do
  let task ← require .sqlite (db.tasks.find? taskId)
  let row : TaskEventRow V := { eventId, taskId, sequence := task.nextSequence, sourceId, kind }
  let db ← (db.markWake task.principalId kind).insertTaskEvent row
  return (row.event,
    { db with tasks := db.tasks.put { task with nextSequence := task.nextSequence + 1 } })

/-- The record made from a source, as it is read back. -/
def loadSourceEvent [JsonText V] (sourceId : SourceId) : Option (TaskEvent V) :=
  (db.taskEvents.rows.find? fun row => row.sourceId = sourceId).map fun row =>
    { row.event with kind := row.kind.reparsed }

end Database

/-- The last committed sequence of a task whose next sequence is `nextSequence`. -/
def throughSequence (nextSequence : Nat) : Option Nat :=
  if nextSequence = 0 then none else some (nextSequence - 1)

/-- The records after a cursor, and the last committed sequence when they were read. -/
structure TaskSuffix (V : Type) where
  throughSequence : Option Nat
  events : List (TaskEvent V)
  deriving DecidableEq, Repr

/-- A supplied cursor does not lie beyond the last committed sequence. -/
def checkCursor (through : Option Nat) : Option Nat → Except ControlError Unit
  | none => .ok ()
  | some cursor =>
    ensure (through.any fun last => cursor ≤ last)
      (.invalid s!"task cursor {cursor} is ahead of durable task history")

/-- The first sequence after a cursor. -/
def minimumAfter : Option Nat → Nat
  | none => 0
  | some cursor => cursor + 1

def Database.loadSuffix (db : Database V) (taskId : TaskId) (principalId : PrincipalId)
    (afterSequence : Option Nat) : Except ControlError (TaskSuffix V) := do
  let task ← require (taskNotFound taskId)
    ((db.tasks.find? taskId).filter fun task => task.principalId = principalId)
  let through := throughSequence task.nextSequence
  checkCursor through afterSequence
  return {
    throughSequence := through
    events := (orderBy TaskEventRow.sequence ((db.eventsOf taskId).filter fun row =>
      minimumAfter afterSequence ≤ row.sequence)).map TaskEventRow.event }

end Renoa.Control
