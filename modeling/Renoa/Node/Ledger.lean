import Renoa.Control.Model

/-!
# The node's ledger

A node keeps what it was asked to execute in its own database: the binding of each task to an
agent's session, the admitted commands with how far they were published, the events of each
execution and the stops the owner asked for. `admitCommand` takes a command in, `appendTurnStarted`,
`appendProgress` and `finish` write its events, `advancePublication` moves its publication cursor
and `recordStop` keeps a stop, which may precede the admission of its command.

The identity and the time an event is written with are drawn by the code and are arguments here.
-/

namespace Renoa.Node

open Foundation Protocol
open Control (TaskId)

/-! ## Rows -/

/-- Where the commands of a task execute. -/
structure TargetBinding where
  target : String
  agentId : Nat
  sessionId : Nat
  workspace : String
  deriving DecidableEq, Repr

structure TaskRow where
  taskId : TaskId
  binding : TargetBinding
  deriving DecidableEq, Repr

structure ExecutionRow where
  admissionSequence : Nat
  commandId : CommandId
  taskId : TaskId
  command : CommandEnvelope
  executionId : ExecutionId
  admissionAcked : Bool
  terminal : Bool
  publishedThrough : Option Nat
  deriving DecidableEq, Repr

structure EventRow (V : Type) where
  commandId : CommandId
  event : ExecutionEvent V
  deriving DecidableEq, Repr

structure StopRow where
  commandId : CommandId
  taskId : TaskId
  deriving DecidableEq, Repr

/-- The row published through a sequence; its cursor moves forward only. -/
def ExecutionRow.publishThrough (row : ExecutionRow) (throughSequence : Nat) : ExecutionRow :=
  { row with
    publishedThrough := match row.publishedThrough with
      | none => some throughSequence
      | some through => if through < throughSequence then some throughSequence else some through }

/-- An admitted command with the binding of its task. -/
structure ExecutionRecord extends ExecutionRow where
  binding : TargetBinding
  deriving DecidableEq, Repr

variable {V : Type}

def EventRow.key (row : EventRow V) : CommandId × Nat := (row.commandId, row.event.sequence)

/-- The ledger's tables; `nextAdmission` is the sequence the next admitted command gets. -/
structure Ledger (V : Type) where
  tasks : Table TaskRow.taskId
  executions : Table ExecutionRow.commandId
  events : Table (EventRow.key (V := V))
  stops : Table StopRow.commandId
  nextAdmission : Nat

inductive NodeStoreError where
  | sqlite
  | invalid (message : String)
  deriving DecidableEq, Repr

def executionNotFound (commandId : CommandId) : NodeStoreError :=
  .invalid s!"execution for command {commandId} was not found"

/-- What the code draws for an event it writes. -/
structure Drawn where
  eventId : ExecutionEventId
  recordedAtMs : Int
  deriving DecidableEq, Repr

namespace Ledger

def empty : Ledger V where
  tasks := .empty
  executions := .empty
  events := .empty
  stops := .empty
  nextAdmission := 1

/-! ## Reading -/

section

variable (l : Ledger V)

def loadRecord (commandId : CommandId) : Option ExecutionRecord := do
  let row ← l.executions.find? commandId
  let task ← l.tasks.find? row.taskId
  return { row with binding := task.binding }

/-- The events of a command, in the order they were written. -/
def eventsOf (commandId : CommandId) : List (ExecutionEvent V) :=
  (l.events.rows.filter fun row => row.commandId = commandId).map EventRow.event

def loadEvent (commandId : CommandId) (sequence : Nat) : Option (ExecutionEvent V) :=
  (l.events.find? (commandId, sequence)).map EventRow.event

/-- The greatest sequence an event of the command has. -/
def maxSequence (commandId : CommandId) : Option Nat :=
  ((l.eventsOf commandId).map ExecutionEvent.sequence).max?

def nextEventSequence (commandId : CommandId) : Nat := (l.maxSequence commandId).elim 0 (· + 1)

def loadEventsAfter (commandId : CommandId) (after : Option Nat) : List (ExecutionEvent V) :=
  let minimum := after.elim 0 (· + 1)
  orderBy ExecutionEvent.sequence
    ((l.eventsOf commandId).filter fun event => minimum ≤ event.sequence)

/-- The records whose row is selected, in the order of their admission. -/
def recordsWhere (selected : ExecutionRow → Bool) : List ExecutionRecord :=
  (orderBy ExecutionRow.admissionSequence (l.executions.rows.filter selected)).filterMap
    fun row => (l.tasks.find? row.taskId).map fun task => { row with binding := task.binding }

def loadUnfinished : List ExecutionRecord := l.recordsWhere fun row => !row.terminal

/-- Something of the command is still owed to the coordinator, or will be. -/
def isPendingPublication (row : ExecutionRow) : Bool :=
  !row.terminal || !row.admissionAcked || row.publishedThrough.isNone ||
    match row.publishedThrough, l.maxSequence row.commandId with
    | some through, some last => decide (through < last)
    | _, _ => false

def loadPendingPublications : List ExecutionRecord := l.recordsWhere l.isPendingPublication

/-- A stop is recorded for the command. -/
def stopRequested (commandId : CommandId) : Bool := (l.stops.find? commandId).isSome

/-! ## Admission -/

/-- The task's durable binding, recording `binding` on first use. An existing task keeps its
recorded session; its target, agent and workspace must still match. -/
def ensureTaskBinding (taskId : TaskId) (binding : TargetBinding) :
    Except NodeStoreError (TargetBinding × Ledger V) :=
  match l.tasks.find? taskId with
  | some existing => do
    ensure (existing.binding.target = binding.target && existing.binding.agentId = binding.agentId
        && existing.binding.workspace = binding.workspace)
      (.invalid s!"task {taskId} conflicts with its durable Host binding")
    return (existing.binding, l)
  | none =>
    match l.tasks.rows.find? fun row => row.binding.sessionId = binding.sessionId with
    | some owner =>
      let session := binding.sessionId
      let task := owner.taskId
      .error (.invalid s!"Host session {session} is already bound to task {task}")
    | none => do
      let tasks ← require .sqlite (l.tasks.insert (fun _ => false) { taskId, binding })
      return (binding, { l with tasks })

def insertEvent (commandId : CommandId) (executionId : ExecutionId) (sequence : Nat) (drawn : Drawn)
    (kind : ExecutionEventKind V) : Except NodeStoreError (Ledger V) := do
  let event : ExecutionEvent V :=
    { eventId := drawn.eventId, executionId, sequence, recordedAtMs := drawn.recordedAtMs, kind }
  let events ← require .sqlite (l.events.insert (fun _ => false) { commandId, event })
  return { l with events }

def insertExecution (row : ExecutionRow) : Except NodeStoreError (Ledger V) := do
  let executions ← require .sqlite (l.executions.insert
    (fun q => q.executionId = row.executionId ∨ q.admissionSequence = row.admissionSequence) row)
  return { l with executions, nextAdmission := row.admissionSequence + 1 }

/-- The command conflicts with what its admission stored. -/
def admissionConflict (commandId : CommandId) : NodeStoreError :=
  .invalid s!"command {commandId} conflicts with its durable node admission"

def admitCommand (drawn : Drawn) (taskId : TaskId) (command : CommandEnvelope)
    (binding : TargetBinding) : Except NodeStoreError (ExecutionRecord × Ledger V) := do
  let target := command.target.value
  let configured := binding.target
  ensure (target = configured)
    (.invalid s!"command target `{target}` does not match configured target `{configured}`")
  let (binding, l) ← l.ensureTaskBinding taskId binding
  match l.loadRecord command.commandId with
  | some existing => do
    ensure (existing.taskId = taskId && existing.command = command && existing.binding = binding)
      (admissionConflict command.commandId)
    return (existing, l)
  | none => do
    let executionId : ExecutionId := ⟨command.commandId.uuid⟩
    let row : ExecutionRow :=
      { admissionSequence := l.nextAdmission, commandId := command.commandId, taskId, command,
        executionId, admissionAcked := false, terminal := false, publishedThrough := none }
    let l ← l.insertExecution row
    let l ← l.insertEvent command.commandId executionId 0 drawn .executionStarted
    return ({ row with binding }, l)

/-! ## Writing the rows of an execution -/

/-- Rewriting the row of a command; `none` when the command has no row. -/
def updateExecution (commandId : CommandId) (f : ExecutionRow → ExecutionRow) : Option (Ledger V) :=
  (l.executions.updateOne commandId (fun _ => true) f).map fun executions => { l with executions }

def setAdmissionAck (commandId : CommandId) (acknowledged : Bool) :
    Except NodeStoreError (Ledger V) :=
  require (executionNotFound commandId)
    (l.updateExecution commandId fun row => { row with admissionAcked := acknowledged })

def requireAdmissionAck (commandId : CommandId) :
    Except NodeStoreError (Ledger V) := l.setAdmissionAck commandId false

def acknowledgeAdmission (commandId : CommandId) :
    Except NodeStoreError (Ledger V) := l.setAdmissionAck commandId true

def advancePublication (commandId : CommandId) (throughSequence : Nat) :
    Except NodeStoreError (Ledger V) :=
  require (executionNotFound commandId)
    (l.updateExecution commandId fun row => row.publishThrough throughSequence)

/-! ## Events of a running execution -/

def appendTurnStarted (drawn : Drawn) (commandId : CommandId) :
    Except NodeStoreError (Ledger V) := do
  let record ← require (executionNotFound commandId) (l.loadRecord commandId)
  ensure (!record.terminal)
    (.invalid s!"execution for command {commandId} is already terminal")
  match l.loadEvent commandId 1 with
  | some existing => do
    ensure (match existing.kind with | .turnStarted => true | _ => false)
      (.invalid s!"execution for command {commandId} has invalid sequence one")
    return l
  | none => l.insertEvent commandId record.executionId 1 drawn .turnStarted

end

end Ledger

/-- The kinds a running turn reports: assistant messages and tool events. -/
def isReport : ExecutionEventKind V → Bool
  | .executionStarted | .turnStarted | .executionTerminated _ => false
  | .assistantMessage _ | .toolStarted .. | .toolFinished .. => true

namespace Ledger

/-- Records one event of a running execution, and whether it was recorded: an event that arrives
after the execution finished is skipped. -/
def appendProgress (l : Ledger V) (drawn : Drawn) (commandId : CommandId)
    (kind : ExecutionEventKind V) : Except NodeStoreError (Bool × Ledger V) := do
  ensure (isReport kind) (.invalid "live progress carries only assistant messages and tool events")
  let record ← require (executionNotFound commandId) (l.loadRecord commandId)
  if record.terminal then return (false, l)
  else
    let l ← l.insertEvent commandId record.executionId (l.nextEventSequence commandId) drawn kind
    return (true, l)

end Ledger

/-- What identifies an event that is reported more than once: a tool start or finish by its call
and an assistant message by its text; the others by all they hold. -/
inductive EventKey where
  | toolStarted (callId : String)
  | toolFinished (callId : String)
  | message (text : String)
  | executionStarted
  | turnStarted
  | executionTerminated (terminal : ExecutionTerminal)
  deriving DecidableEq, Repr

def EventKey.of : ExecutionEventKind V → EventKey
  | .toolStarted callId _ _ => .toolStarted callId
  | .toolFinished callId _ _ => .toolFinished callId
  | .assistantMessage text => .message text
  | .executionStarted => .executionStarted
  | .turnStarted => .turnStarted
  | .executionTerminated terminal => .executionTerminated terminal

/-- How many times each identified event is recorded. -/
def Recorded : Type := EventKey → Nat

namespace Recorded

def load (l : Ledger V) (commandId : CommandId) : Recorded := fun key =>
  (l.eventsOf commandId).countP fun event => EventKey.of event.kind = key

/-- The projected events not yet recorded, in projection order. Each recorded occurrence absorbs
one projected occurrence. -/
def unrecorded : Recorded → List (ExecutionEventKind V) → List (ExecutionEventKind V)
  | _, [] => []
  | counts, kind :: rest =>
    let key := EventKey.of kind
    if 0 < counts key then
      unrecorded (fun other => if other = key then counts key - 1 else counts other) rest
    else kind :: unrecorded counts rest

end Recorded

namespace Ledger

/-- Writes events of one execution behind each other, from a sequence on. -/
def insertEvents (commandId : CommandId) (executionId : ExecutionId) (drawn : Nat → Drawn) :
    Ledger V → Nat → List (ExecutionEventKind V) → Except NodeStoreError (Ledger V)
  | l, _, [] => .ok l
  | l, sequence, kind :: rest => do
    let l ← l.insertEvent commandId executionId sequence (drawn sequence) kind
    insertEvents commandId executionId drawn l (sequence + 1) rest

/-- The kinds end with their one terminal event. -/
def endsOnce (kinds : List (ExecutionEventKind V)) : Bool :=
  kinds.countP (fun kind => kind.terminal?.isSome) = 1 &&
    kinds.getLast?.any fun kind => kind.terminal?.isSome

/-- Records the turn's projected events that were not recorded live, then its terminal event. -/
def finish (l : Ledger V) (drawn : Nat → Drawn) (commandId : CommandId)
    (kinds : List (ExecutionEventKind V)) : Except NodeStoreError (Ledger V) := do
  let record ← require (executionNotFound commandId) (l.loadRecord commandId)
  if record.terminal then return l
  else
    let kinds := (Recorded.load l commandId).unrecorded kinds
    let next := l.nextEventSequence commandId
    ensure (endsOnce kinds)
      (.invalid "completed execution projection must end with one terminal event")
    let l ← insertEvents commandId record.executionId drawn l next kinds
    return (l.updateExecution commandId fun row => { row with terminal := true }).getD l

end Ledger

/-! ## Stops -/

/-- What recording a stop found. -/
inductive StopRecord where
  | recorded
  | alreadyEnded
  deriving DecidableEq, Repr

namespace Ledger

variable (l : Ledger V)

/-- Keeps a stop, unless one is kept for the command already. -/
def insertStop (row : StopRow) : Ledger V := { l with stops := l.stops.upsert row id }

def recordStop (taskId : TaskId) (commandId : CommandId) :
    Except NodeStoreError (StopRecord × Ledger V) :=
  match l.loadRecord commandId with
  | some record => do
    ensure (record.taskId = taskId)
      (.invalid s!"command {commandId} does not belong to task {taskId}")
    if record.terminal then return (.alreadyEnded, l)
    else return (.recorded, l.insertStop { commandId, taskId })
  | none => .ok (.recorded, l.insertStop { commandId, taskId })

/-! ## Forgetting a task -/

/-- The agent and session a task executes in. A task with an unfinished execution is refused. -/
def taskSession (taskId : TaskId) : Except NodeStoreError (Option (Nat × Nat)) := do
  ensure (l.executions.rows.all fun row => row.taskId ≠ taskId || row.terminal)
    (.invalid s!"task {taskId} has an execution that has not terminated")
  return (l.tasks.find? taskId).map fun row => (row.binding.agentId, row.binding.sessionId)

/-- Deletes a task with its executions, their events and its stops. -/
def forgetTask (taskId : TaskId) : Ledger V :=
  { l with
    events := l.events.deleteWhere fun event =>
      l.executions.rows.any fun row => row.taskId = taskId && row.commandId = event.commandId
    executions := l.executions.deleteWhere fun row => row.taskId = taskId
    stops := l.stops.deleteWhere fun row => row.taskId = taskId
    tasks := l.tasks.deleteWhere fun row => row.taskId = taskId }

end Ledger

end Renoa.Node
