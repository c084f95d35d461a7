import Renoa.Node.LedgerInvariant

/-!
# The node's session with the coordinator

A session publishes what the ledger still owes the coordinator: the acknowledgement of each
admitted command and its events, in batches that fit one message, one batch of a task at a time.
`Publication` is what the session keeps for a command while it is connected; a new session starts
with none, so after a reconnect every batch is built again from the ledger's cursor.
-/

namespace Renoa.Node

open Foundation Protocol
open Control (TaskId ControlError)

variable {V : Type}

/-- What the node sends. -/
inductive ClientMessage (V : Type) where
  | acknowledgeExecution (taskId : TaskId) (commandId : CommandId)
  | publishExecutionEvents (taskId : TaskId) (commandId : CommandId)
      (events : List (ExecutionEvent V))
  deriving DecidableEq, Repr

/-- What the coordinator sends. -/
inductive ServerMessage where
  | execute (taskId : TaskId) (command : CommandEnvelope)
  | executionAcknowledged (commandId : CommandId)
  | executionEventsAccepted (commandId : CommandId) (throughExecutionSequence : Nat)
  | error (error : ControlError)
  deriving DecidableEq, Repr

inductive NodeError where
  | store (error : NodeStoreError)
  | protocol (message : String)
  | configuration (message : String)
  | rejected (error : ControlError)
  deriving DecidableEq, Repr

/-- A write to the ledger, with its error as the node's. -/
def stored {α : Type} (result : Except NodeStoreError α) : Except NodeError α :=
  match result with
  | .ok value => .ok value
  | .error error => .error (.store error)

@[simp] theorem stored_eq_ok {α : Type} {res : Except NodeStoreError α} {value : α} :
    stored res = .ok value ↔ res = .ok value := by
  cases res <;> simp [stored]

/-! ## Batches -/

def maxApplicationMessageBytes : Nat := 1024 * 1024

/-- The serialized length of the message that publishes events. -/
abbrev MessageBytes (V : Type) : Type := TaskId → CommandId → List (ExecutionEvent V) → Nat

/-- Takes events into the batch while its message stays within the limit. -/
def publicationBatch (bytes : MessageBytes V) (taskId : TaskId) (commandId : CommandId) :
    List (ExecutionEvent V) → List (ExecutionEvent V) → Except NodeError (List (ExecutionEvent V))
  | batch, [] => .ok batch
  | batch, event :: rest =>
    let eventId := event.eventId
    if maxApplicationMessageBytes < bytes taskId commandId (batch ++ [event]) then
      if batch.isEmpty then
        .error (.protocol s!"execution event {eventId} exceeds the RCP WebSocket message limit")
      else .ok batch
    else publicationBatch bytes taskId commandId (batch ++ [event]) rest

/-! ## Publications -/

/-- What the session keeps for a command: what it has sent and has no answer to. -/
structure Publication where
  record : ExecutionRecord
  admissionInFlight : Bool
  eventInFlight : Option Nat
  deriving DecidableEq, Repr

def Publication.commandId (publication : Publication) : CommandId := publication.record.commandId

section

variable (publications : List Publication)

/-- The publication of a command. -/
def publicationOf (commandId : CommandId) : Option Publication :=
  publications.find? fun publication => publication.commandId = commandId

/-- What is in flight for a command. -/
def inFlightOf (commandId : CommandId) : Option Nat :=
  (publicationOf publications commandId).bind Publication.eventInFlight

/-- The publication of a record, with what is in flight when the session had one already. -/
def refreshed (record : ExecutionRecord) : Publication :=
  match publicationOf publications record.commandId with
  | some publication => { publication with record }
  | none => { record, admissionInFlight := false, eventInFlight := none }

/-- The publications of the pending commands. -/
def refreshPublications (l : Ledger V) (publications : List Publication) : List Publication :=
  l.loadPendingPublications.map (refreshed publications)

/-- Sends what one publication owes, and whether its task is blocked after it. -/
def sendPublication (bytes : MessageBytes V) (l : Ledger V) (blockedTasks : List TaskId)
    (publication : Publication) :
    List (ClientMessage V) × Except NodeError (Publication × List TaskId) :=
  let record := publication.record
  let sendAdmission := !record.admissionAcked && !publication.admissionInFlight
  let sent : List (ClientMessage V) :=
    if sendAdmission then [.acknowledgeExecution record.taskId record.commandId] else []
  let publication :=
    { publication with admissionInFlight := publication.admissionInFlight || sendAdmission }
  if record.taskId ∈ blockedTasks then (sent, .ok (publication, blockedTasks))
  else if publication.eventInFlight.isSome then
    (sent, .ok (publication, record.taskId :: blockedTasks))
  else
    match publicationBatch bytes record.taskId record.commandId []
        (l.loadEventsAfter record.commandId record.publishedThrough) with
    | .error error => (sent, .error error)
    | .ok events =>
      match events.getLast? with
      | none =>
        (sent, .ok (publication,
          if record.terminal then blockedTasks else record.taskId :: blockedTasks))
      | some last =>
        (sent ++ [.publishExecutionEvents record.taskId record.commandId events],
          .ok ({ publication with eventInFlight := some last.sequence },
            record.taskId :: blockedTasks))

/-- Sends what the publications owe, in their order. What was sent before an error stays sent. -/
def sendAll (bytes : MessageBytes V) (l : Ledger V) :
    List TaskId → List Publication → List (ClientMessage V) × Except NodeError (List Publication)
  | _, [] => ([], .ok [])
  | blockedTasks, publication :: rest =>
    match sendPublication bytes l blockedTasks publication with
    | (sent, .error error) => (sent, .error error)
    | (sent, .ok (publication, blockedTasks)) =>
      let later := sendAll bytes l blockedTasks rest
      (sent ++ later.1, (publication :: ·) <$> later.2)

/-- The publications task by task, those of a task in the order of their admission. -/
def sendPending (bytes : MessageBytes V) (l : Ledger V) (publications : List Publication) :
    List (ClientMessage V) × Except NodeError (List Publication) :=
  sendAll bytes l []
    (orderBy (fun publication => publication.record.taskId.uuid)
      (orderBy (fun publication => publication.record.admissionSequence) publications))

/-! ## Answers of the coordinator -/

/-- Rewriting the publication of a command. -/
def updatePublication (commandId : CommandId) (f : Publication → Publication) : List Publication :=
  publications.map fun publication =>
    if publication.commandId = commandId then f publication else publication

end

/-- Advances a command's publication through the events the coordinator accepted, which must be
exactly the batch in flight. -/
def eventsAccepted (l : Ledger V) (publications : List Publication) (commandId : CommandId)
    (throughExecutionSequence : Nat) : Except NodeError (Ledger V × List Publication) := do
  let publication ← require
    (.protocol s!"received event acknowledgement for unknown command {commandId}")
    (publicationOf publications commandId)
  let expected ← require
    (.protocol s!"received unsolicited event acknowledgement for command {commandId}")
    publication.eventInFlight
  ensure (throughExecutionSequence = expected)
    (.protocol (s!"event acknowledgement for command {commandId} ended at sequence " ++
      s!"{throughExecutionSequence}, expected {expected}"))
  let l ← stored (l.advancePublication commandId throughExecutionSequence)
  return (l, refreshPublications l (updatePublication publications commandId fun publication =>
    { publication with eventInFlight := none }))

def acknowledgeAdmission (l : Ledger V) (publications : List Publication)
    (commandId : CommandId) : Except NodeError (Ledger V × List Publication) := do
  let publication ← require
    (.protocol s!"received admission acknowledgement for unknown command {commandId}")
    (publicationOf publications commandId)
  ensure publication.admissionInFlight
    (.protocol s!"received unsolicited admission acknowledgement for command {commandId}")
  let l ← stored (l.acknowledgeAdmission commandId)
  return (l, refreshPublications l (updatePublication publications commandId fun publication =>
    { publication with admissionInFlight := false }))

/-! ## The connection -/

/-- A session: what it keeps for the commands, and the messages on their way in each direction. -/
structure Session (V : Type) where
  publications : List Publication
  outgoing : List (ClientMessage V)
  incoming : List ServerMessage

/-- A connection that was just opened. -/
def Session.opened : Session V := ⟨[], [], []⟩

/-- The last sequence of the batch the session has in flight for a command. -/
def Session.inFlight (session : Session V) (commandId : CommandId) : Option Nat :=
  inFlightOf session.publications commandId

/-! ## Executing a command -/

/-- The Host's agents: the agent a canonical target names, and the workspace of an agent. -/
structure Home where
  agent : TargetRef → Option Nat
  workspace : Nat → Except NodeError String

/-- The binding proposed for a task's first command, with a session of its own. -/
def proposedBinding (home : Home) (target : TargetRef) (sessionId : Nat) :
    Except NodeError TargetBinding :=
  let name := target.value
  do
    let agentId ← require
      (.protocol s!"coordinator requested `{name}`, which is not a Host agent target")
      (home.agent target)
    let workspace ← home.workspace agentId
    return { target := target.value, agentId, sessionId, workspace }

/-- Admits a command and owes the coordinator its acknowledgement, also when it was admitted
before. A draining node takes no command. -/
def handleExecute (home : Home) (l : Ledger V) (draining : Bool) (sessionId : Nat) (drawn : Drawn)
    (taskId : TaskId) (command : CommandEnvelope) : Except NodeError (Ledger V) :=
  if draining then .ok l
  else do
    let binding ← proposedBinding home command.target sessionId
    let (_, l) ← stored (l.admitCommand drawn taskId command binding)
    stored (l.requireAdmissionAck command.commandId)

end Renoa.Node
