import Renoa.Control.Handlers

/-!
# The coordinator as a machine

The parts of a running coordinator that interleave: the database, the table of node connections,
the connection-lifecycle lock, the handlers that committed and still have actions to carry out, and
the live feeds of attached surfaces. One `Input` is one step that another may precede or follow.

* A request that can make a node's work pending takes the lock, looks the connections up and commits
  under it. Its actions are carried out one by one after the lock is free.
* An activation holds the lock from the removal of the node's earlier connection until its own is in
  the table. It reads the pending executions and the pending stops in two reads, and sends them.
* A connection that ends leaves the table without the lock.
* A feed subscribes, reads the suffix of the journal after its cursor, and then forwards what it
  receives. A receiver with more unread records than the channel holds is told to replay.

What a task's deletion does to its live channel is left out: the runs the results speak of delete no
task.
-/

namespace Renoa.Control

open Protocol List

variable {V : Type}

/-- The records the live channel of a task holds for a slow receiver. -/
def taskBroadcastCapacity : Nat := 256

/-- A node's activation: the parts of its snapshot that are read and not sent yet. -/
structure Activation where
  nodeId : NodeId
  connectionId : Nat
  executions : Option (List Delivery)
  stops : Option (List Delivery)
  deriving DecidableEq, Repr

/-- Who holds the connection-lifecycle lock; a handler with the connections it looked up. -/
inductive Lifecycle (V : Type) where
  | free
  | handling (request : Request V) (nodes : Nodes)
  | activating (activation : Activation)

/-- What a feed does next. -/
inductive FeedPhase (V : Type) where
  | subscribed
  | replaying (rest : List (TaskEvent V)) (through : Option Nat)
  | live (through : Option Nat)
  | replayRequired
  | ended
  deriving DecidableEq, Repr

/-- The feed of an attached surface: the records in its receiver, and those the surface was sent. -/
structure Feed (V : Type) where
  taskId : TaskId
  principalId : PrincipalId
  afterSequence : Option Nat
  phase : FeedPhase V
  waiting : List (TaskEvent V)
  received : List (TaskEvent V)
  deriving DecidableEq, Repr

/-- A running coordinator. Connections are numbered as they are activated, so no two have the same
identity, and `sent` holds what each was sent. -/
structure Coordinator (V : Type) where
  db : Database V
  nodes : Nodes
  connections : Nat
  lifecycle : Lifecycle V
  jobs : List (List (Action V))
  sent : List (Nat × Delivery)
  feeds : List (Feed V)

/-- A coordinator that has just started over a database. -/
def Coordinator.start (db : Database V) : Coordinator V where
  db := db
  nodes := fun _ => none
  connections := 0
  lifecycle := .free
  jobs := []
  sent := []
  feeds := []

inductive Input (V : Type) where
  | request (request : Request V)
  | acquire (request : Request V)
  | commit
  | proceed (job : Nat)
  | activate (nodeId : NodeId)
  | snapshotExecutions
  | snapshotStops
  | sendNext
  | abandon
  | disconnect (nodeId : NodeId) (connectionId : Nat)
  | advertise (nodeId : NodeId) (connectionId : Nat) (targets : List TargetCard)
  | attach (taskId : TaskId) (principalId : PrincipalId) (afterSequence : Option Nat)
  | readSuffix (feed : Nat)
  | forward (feed : Nat)
  | leave (feed : Nat)

/-- The handler of the request takes the lifecycle lock. -/
def Request.locks : Request V → Bool
  | .submitCommand .. | .sendAgentMessage .. | .stopCommand .. => true
  | .publishExecutionEvents _ _ _ _ _ events => endsExecution events
  | _ => false

/-! ## Connections -/

/-- The table without the connection, if it is still the node's. -/
def Nodes.cleanupConnection (nodes : Nodes) (nodeId : NodeId) (connectionId : Nat) : Nodes :=
  match nodes nodeId with
  | some node =>
    if node.connectionId = connectionId then Function.update nodes nodeId none else nodes
  | none => nodes

/-- The targets of the connection, if it is still the node's, are replaced. -/
def Nodes.advertiseTargets (nodes : Nodes) (nodeId : NodeId) (connectionId : Nat)
    (targets : List TargetCard) : Nodes :=
  match nodes nodeId with
  | some node =>
    if node.connectionId = connectionId then
      Function.update nodes nodeId (some { node with targets })
    else nodes
  | none => nodes

/-! ## Feeds -/

namespace Feed

variable (feed : Feed V)

/-- A published record reaches the receivers of its task. -/
def receive (event : TaskEvent V) : Feed V :=
  if feed.taskId = event.taskId then { feed with waiting := feed.waiting ++ [event] } else feed

/-- The suffix of the journal after the cursor is read. -/
def readSuffix (db : Database V) : Feed V :=
  match feed.phase with
  | .subscribed =>
    match db.loadSuffix feed.taskId feed.principalId feed.afterSequence with
    | .ok suffix => { feed with phase := .replaying suffix.events suffix.throughSequence }
    | .error _ => { feed with phase := .ended }
  | _ => feed

/-- The next record of the receiver, forwarded when the suffix did not hold it. -/
def forwardLive (through : Option Nat) : Feed V :=
  if taskBroadcastCapacity < feed.waiting.length then { feed with phase := .replayRequired }
  else
    match feed.waiting with
    | [] => feed
    | event :: rest =>
      if through.all fun sequence => sequence < event.sequence then
        { feed with waiting := rest, received := feed.received ++ [event] }
      else { feed with waiting := rest }

/-- The feed sends its next record: one of the suffix, or one of the receiver. -/
def forward : Feed V :=
  match feed.phase with
  | .replaying (event :: rest) through =>
    { feed with phase := .replaying rest through, received := feed.received ++ [event] }
  | .replaying [] through => { feed with phase := .live through }
  | .live through => feed.forwardLive through
  | _ => feed

def leave : Feed V := { feed with phase := .ended }

end Feed

/-! ## Steps -/

namespace Coordinator

section

variable (c : Coordinator V)

def perform : Action V → Coordinator V
  | .publish event => { c with feeds := c.feeds.map fun feed => feed.receive event }
  | .deliver connectionId delivery => { c with sent := c.sent ++ [(connectionId, delivery)] }

/-- A handler carries out its next action. -/
def proceed (job : Nat) : Coordinator V :=
  match c.jobs[job]? with
  | some (action :: rest) => { c with jobs := c.jobs.set job rest }.perform action
  | _ => c

/-- A node's connection is activated: the earlier one leaves the table. -/
def activate (nodeId : NodeId) : Coordinator V :=
  match c.lifecycle with
  | .free =>
    { c with
      nodes := Function.update c.nodes nodeId none
      connections := c.connections + 1
      lifecycle := .activating ⟨nodeId, c.connections, none, none⟩ }
  | _ => c

/-- The pending executions of the node are read. -/
def snapshotExecutions : Coordinator V :=
  match c.lifecycle with
  | .activating activation =>
    if activation.executions.isNone then
      { c with
        lifecycle := .activating { activation with
          executions := some ((c.db.loadPendingExecutions activation.nodeId).map
            fun pending => .execute pending.taskId pending.command) } }
    else c
  | _ => c

/-- The pending stops of the node are read. -/
def snapshotStops : Coordinator V :=
  match c.lifecycle with
  | .activating activation =>
    if activation.stops.isNone then
      { c with
        lifecycle := .activating { activation with
          stops := some ((c.db.loadPendingStops activation.nodeId).map
            fun stop => .stop stop.taskId stop.commandId) } }
    else c
  | _ => c

/-- The next delivery of the snapshot is sent; after the last the connection is the node's. -/
def sendNext : Coordinator V :=
  match c.lifecycle with
  | .activating activation =>
    match activation.executions, activation.stops with
    | some (delivery :: rest), some _ =>
      { c with
        sent := c.sent ++ [(activation.connectionId, delivery)]
        lifecycle := .activating { activation with executions := some rest } }
    | some [], some (delivery :: rest) =>
      { c with
        sent := c.sent ++ [(activation.connectionId, delivery)]
        lifecycle := .activating { activation with stops := some rest } }
    | some [], some [] =>
      { c with
        nodes := Function.update c.nodes activation.nodeId
          (some ⟨activation.connectionId, []⟩)
        lifecycle := .free }
    | _, _ => c
  | _ => c

/-- The activation fails. -/
def abandon : Coordinator V :=
  match c.lifecycle with
  | .activating _ => { c with lifecycle := .free }
  | _ => c

/-- A surface attaches: its task is checked, and it subscribes. -/
def attach (taskId : TaskId) (principalId : PrincipalId) (afterSequence : Option Nat) :
    Coordinator V :=
  match c.db.loadTaskForPrincipal taskId principalId with
  | .ok _ =>
    { c with feeds := c.feeds ++ [⟨taskId, principalId, afterSequence, .subscribed, [], []⟩] }
  | .error _ => c

end

variable [JsonText V]

/-- The request with the lock commits; the lock is free, and its actions are left to do. -/
def commit (ids : DerivedIds) (c : Coordinator V) : Coordinator V :=
  match c.lifecycle with
  | .handling request nodes =>
    match request.handle ids nodes c.nodes c.db with
    | .ok (handled, db) => { c with db, lifecycle := .free, jobs := c.jobs ++ [handled.actions] }
    | .error _ => { c with lifecycle := .free }
  | _ => c

/-- A request that takes no lock commits. -/
def handle (ids : DerivedIds) (c : Coordinator V) (request : Request V) : Coordinator V :=
  if request.locks then c
  else
    match request.handle ids c.nodes c.nodes c.db with
    | .ok (handled, db) => { c with db, jobs := c.jobs ++ [handled.actions] }
    | .error _ => c

/-- A request takes the lock and looks the connections up. -/
def acquire (c : Coordinator V) (request : Request V) : Coordinator V :=
  match c.lifecycle with
  | .free => if request.locks then { c with lifecycle := .handling request c.nodes } else c
  | _ => c

def step (ids : DerivedIds) (c : Coordinator V) : Input V → Coordinator V
  | .request request => c.handle ids request
  | .acquire request => c.acquire request
  | .commit => c.commit ids
  | .proceed job => c.proceed job
  | .activate nodeId => c.activate nodeId
  | .snapshotExecutions => c.snapshotExecutions
  | .snapshotStops => c.snapshotStops
  | .sendNext => c.sendNext
  | .abandon => c.abandon
  | .disconnect nodeId connectionId =>
    { c with nodes := c.nodes.cleanupConnection nodeId connectionId }
  | .advertise nodeId connectionId targets =>
    { c with nodes := c.nodes.advertiseTargets nodeId connectionId targets }
  | .attach taskId principalId afterSequence => c.attach taskId principalId afterSequence
  | .readSuffix feed => { c with feeds := c.feeds.modify feed fun feed => feed.readSuffix c.db }
  | .forward feed => { c with feeds := c.feeds.modify feed Feed.forward }
  | .leave feed => { c with feeds := c.feeds.modify feed Feed.leave }

def run (ids : DerivedIds) (c : Coordinator V) (inputs : List (Input V)) : Coordinator V :=
  inputs.foldl (step ids) c

end Coordinator

/-! ## The actions that are left -/

/-- Taking the first action of one handler takes it from the actions of all. -/
theorem flatten_perm_cons_set {α : Type} {jobs : List (List α)} {job : Nat} {action : α}
    {rest : List α} (h : jobs[job]? = some (action :: rest)) :
    jobs.flatten.Perm (action :: (jobs.set job rest).flatten) := by
  induction jobs generalizing job with
  | nil => cases h
  | cons first others ih =>
    cases job with
    | zero =>
      cases h
      simp
    | succ job =>
      exact ((ih h).append_left first).trans perm_middle

/-- An action touches neither the database nor the connections. -/
theorem Coordinator.proceed_eq (c : Coordinator V) (job : Nat) : c.proceed job = { c with
      jobs := (c.proceed job).jobs
      sent := (c.proceed job).sent
      feeds := (c.proceed job).feeds } := by
  unfold proceed
  split
  next action rest _ =>
    cases action <;> rfl
  · rfl

end Renoa.Control
