import Renoa.Control.Transaction

/-!
# What the coordinator's handlers do

A handler commits one transaction and then, outside any lock, carries out what follows from it:
it publishes the committed records to the live channels of their tasks and sends deliveries on the
node connections it looked up beside the transaction. `Request.handle` is the transaction with the
list of these actions; a refused request has neither.
-/

namespace Renoa.Control

open Foundation Protocol List Table

variable {V : Type}

/-- The current connection of a node, with the agents it advertised. -/
structure NodeConnection where
  connectionId : Nat
  targets : List TargetCard
  deriving DecidableEq, Repr

/-- What the coordinator asks a node to do. -/
inductive Delivery where
  | execute (taskId : TaskId) (command : CommandEnvelope)
  | stop (taskId : TaskId) (commandId : CommandId)
  deriving DecidableEq, Repr

/-- One thing a handler does after its transaction. -/
inductive Action (V : Type) where
  | publish (event : TaskEvent V)
  | deliver (connectionId : Nat) (delivery : Delivery)
  deriving DecidableEq, Repr

/-- What a handled request is answered with, and what the handler still has to do. -/
structure Handled (V : Type) where
  accepted : Option (TaskId × CommandId)
  actions : List (Action V)
  deriving DecidableEq, Repr

/-- The nodes that are connected now. -/
abbrev Nodes := NodeId → Option NodeConnection

/-- The delivery on a connection, if there is one. -/
def deliverOn (node : Option NodeConnection) (delivery : Delivery) : List (Action V) :=
  match node with
  | some node => [.deliver node.connectionId delivery]
  | none => []

/-- The name a node advertises for a target, or the target itself. -/
def nameOf (nodes : Nodes) (nodeId : NodeId) (target : TargetRef) : String :=
  match (nodes nodeId).bind fun node => node.targets.find? fun card => card.target = target with
  | some card => card.name
  | none => target.value

/-- The batch ends its execution. -/
def endsExecution (events : List (ExecutionEvent V)) : Bool :=
  events.getLast?.any ExecutionEvent.isTerminal

/-- A recorded stop its node has not acknowledged. -/
structure PendingStop where
  taskId : TaskId
  commandId : CommandId
  deriving DecidableEq, Repr

namespace Database

section

variable (db : Database V)

/-- The stop with its task, when it is not delivered and its task runs on the node. -/
def pendingStop? (nodeId : NodeId) (stop : StopRequestRow) : Option PendingStop := do
  let row ← db.commands.find? stop.commandId
  let task ← db.tasks.find? row.taskId
  if task.nodeId = nodeId && !stop.delivered then
    some { taskId := row.taskId, commandId := stop.commandId }
  else none

/-- The stops a node has not acknowledged, task by task as they were recorded. -/
def loadPendingStops (nodeId : NodeId) : List PendingStop :=
  orderBy (fun stop => stop.taskId.uuid) (db.stopRequests.rows.filterMap (db.pendingStop? nodeId))

/-- What a node is sent when it connects: its pending executions, then its pending stops. -/
def pendingDeliveries (nodeId : NodeId) : List Delivery :=
  (db.loadPendingExecutions nodeId).map (fun pending => .execute pending.taskId pending.command) ++
    (db.loadPendingStops nodeId).map fun stop => .stop stop.taskId stop.commandId

/-- A surface submits a command. -/
def submitCommand (nodes : Nodes) (eventId : TaskEventId) (taskId : TaskId)
    (principalId : PrincipalId) (surface : SurfaceRef) (commandId : CommandId)
    (input : CommandInput) : Except ControlError (Handled V × Database V) := do
  let task ← db.loadTaskForPrincipal taskId principalId
  let node := nodes task.nodeId
  let (admission, db) ←
    db.admitCommand eventId taskId principalId surface commandId input node.isSome
  match admission with
  | .notAdmitted => .error .nodeOffline
  | .admitted command event =>
    return (
      { accepted := some (taskId, command.commandId)
        actions := .publish event :: deliverOn node (.execute taskId command) }, db)
  | .existing command pending =>
    return (
      { accepted := some (taskId, command.commandId)
        actions := if pending then deliverOn node (.execute taskId command) else [] }, db)

/-- A node sends an agent's message. -/
def sendAgentMessage (ids : DerivedIds) (nodes : Nodes) (eventId : TaskEventId) (nodeId : NodeId)
    (message : OutgoingMessage) : Except ControlError (Handled V × Database V) := do
  let senderCards := (nodes nodeId).elim [] NodeConnection.targets
  let destination := nodes message.toNode
  let (admission, db) ← db.admitAgentMessage ids eventId nodeId senderCards
    (destination.map NodeConnection.targets) message
  match admission with
  | .admitted taskId _ command event =>
    return (
      { accepted := some (taskId, message.messageId)
        actions := .publish event :: deliverOn destination (.execute taskId command) }, db)
  | .existing taskId _ command pending =>
    return (
      { accepted := some (taskId, message.messageId)
        actions := if pending then deliverOn destination (.execute taskId command) else [] }, db)

end

variable [JsonText V]

/-- What follows an accepted batch: its records, and the answer it admitted. -/
def batchActions (nodes : Nodes) (admission : ExecutionEventAdmission V) : List (Action V) :=
  admission.events.map .publish ++
    match admission.reply with
    | some reply =>
      .publish reply.event ::
        deliverOn (nodes reply.nodeId) (.execute reply.taskId reply.command)
    | none => []

/-- A node publishes a batch of execution events. The name of the agent is looked up before the
transaction, the connection of the asking agent's node after it. -/
def handleExecutionEvents (db : Database V) (ids : DerivedIds) (nodes later : Nodes)
    (nodeId : NodeId) (newId : Nat → TaskEventId) (replyEventId : TaskEventId) (taskId : TaskId)
    (commandId : CommandId) (events : List (ExecutionEvent V)) :
    Except ControlError (Handled V × Database V) := do
  let task ← db.loadTask taskId
  let replier := if endsExecution events then nameOf nodes nodeId task.target else ""
  let (admission, db) ← db.publishExecutionEvents ids nodeId newId replyEventId taskId commandId
    events replier
  return ({ accepted := none, actions := batchActions later admission }, db)

/-- A surface stops a command. -/
def stopCommand (db : Database V) (nodes : Nodes) (principalId : PrincipalId) (taskId : TaskId)
    (commandId : CommandId) : Except ControlError (Handled V × Database V) := do
  let task ← db.loadTaskForPrincipal taskId principalId
  let node := nodes task.nodeId
  let (admission, db) ← db.admitStop taskId commandId
  match admission with
  | .alreadyEnded => return ({ accepted := none, actions := [] }, db)
  | .recorded delivered =>
    return (
      { accepted := none
        actions := if delivered then [] else deliverOn node (.stop taskId commandId) }, db)

end Database

/-! ## What is pending -/

section

variable {db : Database V} {nid : NodeId}

/-- The command is stored, and its task runs on the node. -/
def Database.RunsOn (db : Database V) (nodeId : NodeId) (row : CommandRow) : Prop :=
  row ∈ db.commands ∧ ∃ task ∈ db.tasks, task.taskId = row.taskId ∧ task.nodeId = nodeId

/-- What a node has not acknowledged: executions of commands, and stops of them. -/
inductive Database.Pending (db : Database V) (nodeId : NodeId) : Delivery → Prop
  | execute {pending : PendingExecutionRow} {row : CommandRow}
      (hpending : pending ∈ db.pendingExecutions) (hrow : db.RunsOn nodeId row)
      (hid : row.commandId = pending.commandId) :
      Pending db nodeId (.execute row.taskId row.command)
  | stop {stop : StopRequestRow} {row : CommandRow} (hstop : stop ∈ db.stopRequests)
      (hopen : stop.delivered = false) (hrow : db.RunsOn nodeId row)
      (hid : row.commandId = stop.commandId) :
      Pending db nodeId (.stop row.taskId row.commandId)

theorem Database.mem_pendingExecutions {execution : PendingExecution} :
    execution ∈ db.loadPendingExecutions nid ↔
      ∃ pend ∈ db.pendingExecutions, ∃ row, db.RunsOn nid row ∧
        row.commandId = pend.commandId ∧ execution = ⟨row.taskId, row.command⟩ := by
  unfold loadPendingExecutions
  simp only [mem_map, mem_orderBy, mem_filterMap]
  constructor
  · rintro ⟨⟨found, sequence⟩, ⟨pend, hpend, hfnd⟩, rfl⟩
    obtain ⟨row, hrow, hfnd⟩ := Option.bind_eq_some_iff.mp hfnd
    obtain ⟨task, htask, hfnd⟩ := Option.bind_eq_some_iff.mp hfnd
    obtain ⟨hnode, hfnd⟩ := Option.ite_none_right_eq_some.mp hfnd
    cases hfnd
    exact ⟨pend, hpend, row, ⟨mem_of_find? hrow, task, mem_of_find? htask,
      key_of_find? htask, hnode⟩, key_of_find? hrow, rfl⟩
  · rintro ⟨pend, hpend, row, ⟨hrow, task, htask, htid, rfl⟩, hid, rfl⟩
    refine ⟨(⟨row.taskId, row.command⟩, pend.taskSequence), ⟨pend, hpend, ?_⟩, rfl⟩
    unfold pendingExecution?
    rw [← hid, find?_of_mem hrow]
    simp [← htid, find?_of_mem htask]

theorem Database.mem_pendingStops {pendingStop : PendingStop} :
    pendingStop ∈ db.loadPendingStops nid ↔
      ∃ stop ∈ db.stopRequests, stop.delivered = false ∧ ∃ row, db.RunsOn nid row ∧
        row.commandId = stop.commandId ∧ pendingStop = ⟨row.taskId, row.commandId⟩ := by
  unfold loadPendingStops
  simp only [mem_orderBy, mem_filterMap]
  constructor
  · rintro ⟨stop, hstop, hfnd⟩
    obtain ⟨row, hrow, hfnd⟩ := Option.bind_eq_some_iff.mp hfnd
    obtain ⟨task, htask, hfnd⟩ := Option.bind_eq_some_iff.mp hfnd
    obtain ⟨hcond, hfnd⟩ := Option.ite_none_right_eq_some.mp hfnd
    cases hfnd
    simp only [Bool.and_eq_true, decide_eq_true_eq, Bool.not_eq_true'] at hcond
    refine ⟨stop, hstop, hcond.2, row, ⟨mem_of_find? hrow, task, mem_of_find? htask,
      key_of_find? htask, hcond.1⟩, key_of_find? hrow, ?_⟩
    rw [key_of_find? hrow]
  · rintro ⟨stop, hstop, hopen, row, ⟨hrow, task, htask, htid, rfl⟩, hid, rfl⟩
    refine ⟨stop, hstop, ?_⟩
    unfold pendingStop?
    rw [← hid, find?_of_mem hrow]
    simp [← htid, find?_of_mem htask, hopen]

/-- What a connecting node is sent is what it has not acknowledged. -/
theorem Database.mem_pendingDeliveries {delivery : Delivery} :
    delivery ∈ db.pendingDeliveries nid ↔ db.Pending nid delivery := by
  unfold pendingDeliveries
  rw [mem_append, mem_map, mem_map]
  constructor
  · rintro (⟨execution, hmem, rfl⟩ | ⟨stop, hmem, rfl⟩)
    · obtain ⟨_, hpend, _, hrow, hid, rfl⟩ := mem_pendingExecutions.mp hmem
      exact .execute hpend hrow hid
    · obtain ⟨_, hstop, hopen, _, hrow, hid, rfl⟩ := mem_pendingStops.mp hmem
      exact .stop hstop hopen hrow hid
  · intro h
    cases h with
    | execute hpend hrow hid =>
      exact .inl ⟨_, mem_pendingExecutions.mpr ⟨_, hpend, _, hrow, hid, rfl⟩, rfl⟩
    | stop hstop hopen hrow hid =>
      exact .inr ⟨_, mem_pendingStops.mpr ⟨_, hstop, hopen, _, hrow, hid, rfl⟩, rfl⟩

end

/-! ## Requests -/

/-- The requests of surfaces, nodes and the operator that touch tasks and commands. -/
inductive Request (V : Type) where
  | createNodeEnrollment (nodeId : NodeId) (owner : PrincipalId)
  | createTask (task : TaskSpec)
  | openTask (task : TaskSpec) (availability : Availability)
  | submitCommand (eventId : TaskEventId) (taskId : TaskId) (principalId : PrincipalId)
      (surface : SurfaceRef) (commandId : CommandId) (input : CommandInput)
  | sendAgentMessage (eventId : TaskEventId) (nodeId : NodeId) (message : OutgoingMessage)
  | publishExecutionEvents (nodeId : NodeId) (newId : Nat → TaskEventId)
      (replyEventId : TaskEventId) (taskId : TaskId) (commandId : CommandId)
      (events : List (ExecutionEvent V))
  | acknowledgeExecution (nodeId : NodeId) (taskId : TaskId) (commandId : CommandId)
  | stopCommand (principalId : PrincipalId) (taskId : TaskId) (commandId : CommandId)
  | acknowledgeStop (nodeId : NodeId) (taskId : TaskId) (commandId : CommandId)
  | deleteTask (principalId : PrincipalId) (taskId : TaskId)

/-- A transaction nothing follows. -/
def silently (committed : Except ControlError (Database V)) :
    Except ControlError (Handled V × Database V) :=
  (fun db => ({ accepted := none, actions := [] }, db)) <$> committed

/-- The handler of a request, with the connections as they are before and after its transaction. -/
def Request.handle [JsonText V] (ids : DerivedIds) (nodes later : Nodes) (db : Database V) :
    Request V → Except ControlError (Handled V × Database V)
  | .createNodeEnrollment nodeId owner => silently (db.createNodeEnrollment nodeId owner)
  | .createTask task => silently (db.createTask task)
  | .openTask task availability => silently (Prod.snd <$> db.openTask task availability)
  | .submitCommand eventId taskId principalId surface commandId input =>
    db.submitCommand nodes eventId taskId principalId surface commandId input
  | .sendAgentMessage eventId nodeId message => db.sendAgentMessage ids nodes eventId nodeId message
  | .publishExecutionEvents nodeId newId replyEventId taskId commandId events =>
    db.handleExecutionEvents ids nodes later nodeId newId replyEventId taskId commandId events
  | .acknowledgeExecution nodeId taskId commandId =>
    silently (db.acknowledgeExecution nodeId taskId commandId)
  | .stopCommand principalId taskId commandId => db.stopCommand nodes principalId taskId commandId
  | .acknowledgeStop nodeId taskId commandId =>
    silently (db.acknowledgeStop nodeId taskId commandId)
  | .deleteTask principalId taskId => silently (db.deleteTask principalId taskId)

end Renoa.Control
