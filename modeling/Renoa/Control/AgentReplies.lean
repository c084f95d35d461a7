import Renoa.Control.CommandStore
import Mathlib.Algebra.Order.Ring.Nat

/-!
# Answers to agents' requests

When the execution of an agent's request ends, the answer is admitted as a command in the task of
the asking command, in the transaction that records the ending. Its identity is derived from the
request. The derivations hash their argument; they are the functions of a `DerivedIds`.
-/

namespace Renoa.Control

open Foundation Protocol

variable {V : Type}

/-- The identities the coordinator derives from other values. -/
structure DerivedIds where
  replyId : CommandId → CommandId
  threadTaskId : PrincipalId → NodeId × TargetRef → NodeId × TargetRef → TaskId

def maxMessageBytes : Nat := 64 * 1024

/-- What the surface field of a command from an agent says. -/
def agentSurface : SurfaceRef := ⟨"agent"⟩

/-- The largest value of an unsigned 32-bit integer, where its addition saturates. -/
def maxU32 : Nat := 2 ^ 32 - 1

/-- The longest run of leading characters within a number of UTF-8 bytes. -/
def takeBytes : Nat → List Char → List Char
  | _, [] => []
  | limit, c :: rest => if c.utf8Size ≤ limit then c :: takeBytes (limit - c.utf8Size) rest else []

/-- The text cut at the last character boundary within a number of bytes. -/
def truncateBytes (limit : Nat) (text : String) : String :=
  String.ofList (takeBytes limit text.toList)

/-- An answer admitted in the asker's task. -/
structure AgentReply (V : Type) where
  taskId : TaskId
  fromTask : TaskId
  nodeId : NodeId
  command : CommandEnvelope
  event : TaskEvent V
  deriving DecidableEq, Repr

/-- The outcome a record reports, if it ends an execution. -/
def TaskEvent.terminal? (event : TaskEvent V) : Option ExecutionTerminal :=
  match event.kind with
  | .executionEvent _ event => event.kind.terminal?
  | .commandSubmitted _ => none

/-- The text a record reports as the command's assistant message. -/
def TaskEventRow.assistantText? (commandId : CommandId) (row : TaskEventRow V) : Option String :=
  match row.kind with
  | .executionEvent cause event =>
    match event.kind with
    | .assistantMessage text => if cause = commandId then some text else none
    | _ => none
  | .commandSubmitted _ => none

namespace Database

variable (db : Database V)

/-- The text of the last assistant message the execution of the command recorded. -/
def lastAssistantText (taskId : TaskId) (commandId : CommandId) : Option String :=
  ((orderBy TaskEventRow.sequence (db.eventsOf taskId)).filterMap
    (TaskEventRow.assistantText? commandId)).getLast?

/-- The kind and the text of the answer to a request that ended so. -/
def replyContent (taskId : TaskId) (commandId : CommandId) :
    ExecutionTerminal → AgentMessageKind × String
  | .completed => (.reply, (db.lastAssistantText taskId commandId).getD "")
  | .failed error => (.failure, error)
  | .cancelled reason => (.failure, reason)

/-- The answer to the request `commandId` of `taskId`, for the task that asked. -/
def replyCommand (ids : DerivedIds) (taskId : TaskId) (commandId : CommandId) (replier : String)
    (terminal : ExecutionTerminal) (origin : AgentOrigin) (asking : CommandEnvelope)
    (asker task : TaskRow) : CommandEnvelope :=
  let (kind, text) := db.replyContent taskId commandId terminal
  { commandId := ids.replyId commandId
    principalId := asker.principalId
    surface := agentSurface
    target := asker.target
    input := (CommandInput.fromText (truncateBytes maxMessageBytes text)).quietIf asking.input.quiet
    origin := some
      { fromCommand := commandId
        source := task.target
        name := replier
        depth := min (origin.depth + 1) maxU32
        kind } }

/-- Admits the answer in the task that holds the asking command, if there is one. -/
def answerRequest (ids : DerivedIds) (eventId : TaskEventId) (taskId : TaskId)
    (commandId : CommandId) (replier : String) (terminal : ExecutionTerminal)
    (origin : AgentOrigin) : Except ControlError (Option (AgentReply V) × Database V) :=
  match db.commands.find? origin.fromCommand with
  | none => .ok (none, db)
  | some asking => do
    let asker ← db.loadTask asking.taskId
    let task ← db.loadTask taskId
    let command :=
      db.replyCommand ids taskId commandId replier terminal origin asking.command asker task
    let (event, db) ← db.insertCommand eventId asking.taskId command
    return (some
      { taskId := asking.taskId
        fromTask := taskId
        nodeId := asker.nodeId
        command
        event }, db)

/-- Admits the answer to the command when the appended records end its execution and it was an
agent's request. -/
def admitReply (ids : DerivedIds) (eventId : TaskEventId) (taskId : TaskId) (commandId : CommandId)
    (appended : List (TaskEvent V)) (replier : String) :
    Except ControlError (Option (AgentReply V) × Database V) :=
  match appended.findSome? TaskEvent.terminal? with
  | none => .ok (none, db)
  | some terminal => do
    let row ← require .sqlite (db.commands.find? commandId)
    match row.command.origin.filter fun origin => origin.kind.expectsReply with
    | none => return (none, db)
    | some origin => db.answerRequest ids eventId taskId commandId replier terminal origin

end Database

end Renoa.Control
