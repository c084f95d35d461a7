import Renoa.Node.Session
import Renoa.Node.Stopping
import Renoa.Control.Acceptance

/-!
# Nodes and their coordinator

`Network` is the coordinator's database and the nodes; a `Site` is a node's ledger with its
connection. Messages on a connection arrive in order. When it ends, those still on their way to the
node are lost; of those on their way to the coordinator some may already be in its hands, so they
stay `late` and are handled at any later time or never, and nobody reads the answer. A crash of
either side is the end of its connections: the databases are all that either side keeps.

A node draws a new identity for every event it writes. The arguments of its events stand here as
the coordinator reads them from a message, which the text in the ledger determines.

What surfaces and agents do is any transaction of the coordinator. An `Execute` may come at any
time, for any task and command: one that was looked up before a deletion is sent behind it, and one
that repeats a submission names the task of the request.
-/

namespace Renoa.Node

open Protocol
open Control (TaskId TaskEventId NodeId Database Transaction DerivedIds)

variable {V : Type}

/-! ## The coordinator's side -/

/-- An identity no record has. -/
def unusedId (db : Database V) : Nat :=
  (db.taskEvents.rows.map fun row => row.eventId.uuid).foldr max 0 + 1

/-- The identities drawn for the records of a batch, and for the record of its answer. -/
def newRecordId (db : Database V) (n : Nat) : TaskEventId := ⟨unusedId db + 1 + n⟩

def newReplyId (db : Database V) : TaskEventId := ⟨unusedId db⟩

/-- The coordinator's answer to a message of a node. -/
def answer [JsonText V] (ids : DerivedIds) (db : Database V) (nodeId : NodeId)
    (replier : String) : ClientMessage V → ServerMessage × Database V
  | .acknowledgeExecution taskId commandId =>
    match db.acknowledgeExecution nodeId taskId commandId with
    | .ok db' => (.executionAcknowledged commandId, db')
    | .error error => (.error error, db)
  | .publishExecutionEvents taskId commandId events =>
    match db.publishExecutionEvents ids nodeId (newRecordId db) (newReplyId db) taskId commandId
      events replier with
    | .ok (admission, db') =>
      (.executionEventsAccepted commandId admission.throughExecutionSequence, db')
    | .error error => (.error error, db)

/-! ## A node -/

/-- A node: its ledger, its connection, and what it sent on connections that ended. -/
structure Site (V : Type) where
  ledger : Ledger V
  session : Option (Session V)
  late : List (ClientMessage V)

/-- One step of a node. -/
inductive Site.Input (V : Type) where
  | connect
  | disconnect
  | receive (draining : Bool) (sessionId : Nat) (clock : Nat → Int)
  | commit
  | turnStarted (commandId : CommandId) (clock : Nat → Int)
  | progress (commandId : CommandId) (kind : ExecutionEventKind V) (clock : Nat → Int)
  | finish (commandId : CommandId)
      (reports : List { kind : ExecutionEventKind V // isReport kind = true })
      (terminal : ExecutionTerminal) (clock : Nat → Int)
  | stop (taskId : TaskId) (commandId : CommandId)
  | forget (taskId : TaskId)

namespace Site

def empty : Site V := ⟨.empty, none, []⟩

variable (site : Site V) (bytes : MessageBytes V)

def setSession (session : Session V) : Site V := { site with session := some session }

/-- The session ends; what it sent may still be handled. -/
def endSession (session : Session V) : Site V :=
  { site with session := none, late := site.late ++ session.outgoing }

def disconnect : Site V := site.session.elim site site.endSession

/-- Sends what the session's publications owe. The events of a command are read at one time, and
no other step reads or writes the session meanwhile. -/
def send (session : Session V) : Site V :=
  let pending := sendPending bytes site.ledger session.publications
  let sent := { session with outgoing := session.outgoing ++ pending.1 }
  match pending.2 with
  | .ok publications => site.setSession { sent with publications }
  | .error _ => site.endSession sent

/-- Reads what the ledger owes, and sends it. -/
def publish (session : Session V) : Site V :=
  site.send bytes
    { session with publications := refreshPublications site.ledger session.publications }

/-- What is drawn for the event a ledger writes at a sequence. -/
def draws (low : Nat) (clock : Nat → Int) (sequence : Nat) : Drawn :=
  ⟨⟨low + sequence⟩, clock sequence⟩

/-- The node handles the next message of its connection. -/
def receive (home : Home) (draining : Bool) (sessionId : Nat) (drawn : Drawn)
    (session : Session V) : Site V :=
  match session.incoming with
  | [] => site
  | message :: rest =>
    let session := { session with incoming := rest }
    match message with
    | .execute taskId command =>
      match handleExecute home site.ledger draining sessionId drawn taskId command with
      | .ok ledger => { site with ledger }.publish bytes session
      | .error _ => site.endSession session
    | .executionAcknowledged commandId =>
      match acknowledgeAdmission site.ledger session.publications commandId with
      | .ok (ledger, publications) => { site with ledger }.setSession { session with publications }
      | .error _ => site.endSession session
    | .executionEventsAccepted commandId through =>
      match eventsAccepted site.ledger session.publications commandId through with
      | .ok (ledger, publications) => { site with ledger }.send bytes { session with publications }
      | .error _ => site.endSession session
    | .error _ => site.endSession session

/-- A write to the ledger by an execution; a refused one changes nothing. -/
def write (written : Except NodeStoreError (Ledger V)) : Site V :=
  match written with
  | .ok ledger => { site with ledger }
  | .error _ => site

def step (home : Home) (low : Nat) : Input V → Site V
  | .connect => site.disconnect.publish bytes .opened
  | .disconnect => site.disconnect
  | .receive draining sessionId clock =>
    site.session.elim site (site.receive bytes home draining sessionId (draws low clock 0))
  | .commit => site.session.elim site (site.publish bytes)
  | .turnStarted commandId clock =>
    site.write (site.ledger.appendTurnStarted (draws low clock 1) commandId)
  | .progress commandId kind clock =>
    site.write (Prod.snd <$> site.ledger.appendProgress
      (draws low clock (site.ledger.nextEventSequence commandId)) commandId kind)
  | .finish commandId reports terminal clock =>
    site.write (site.ledger.finish (draws low clock) commandId (closingKinds reports terminal))
  | .stop taskId commandId =>
    match site.ledger.recordStop taskId commandId with
    | .ok (_, ledger) => { site with ledger }
    | .error _ => site.disconnect
  | .forget taskId =>
    match site.ledger.taskSession taskId with
    | .ok (some _) => { site with ledger := site.ledger.forgetTask taskId }
    | _ => site

end Site

/-! ## The network -/

/-- The coordinator's database and the nodes; identities from `drawn` on are new. -/
structure Network (V : Type) where
  db : Database V
  site : NodeId → Site V
  drawn : Nat

/-- One step of the coordinator or of a node. -/
inductive Network.Input (V : Type) where
  | transaction (transaction : Transaction V)
  | deliver (nodeId : NodeId) (taskId : TaskId) (command : CommandEnvelope)
  | handle (nodeId : NodeId) (replier : String)
  | handleLate (nodeId : NodeId) (i : Nat) (replier : String)
  | node (nodeId : NodeId) (input : Site.Input V)

/-- A transaction that appends events; only nodes cause one. -/
def isBatch : Transaction V → Bool
  | .appendExecutionEvents .. => true
  | _ => false

namespace Network

def empty : Network V := ⟨.empty, fun _ => .empty, 0⟩

/-- A node after a step; what was drawn for it is not drawn again. -/
def setSite (s : Network V) (nodeId : NodeId) (site : Site V) : Network V :=
  { s with
    site := Function.update s.site nodeId site
    drawn := s.drawn + site.ledger.events.rows.length + 1 }

/-- An `Execute` is on its way to the node. -/
def deliver (s : Network V) (nodeId : NodeId) (taskId : TaskId) (command : CommandEnvelope) :
    Network V :=
  match (s.site nodeId).session with
  | some session => s.setSite nodeId ((s.site nodeId).setSession
      { session with incoming := session.incoming ++ [.execute taskId command] })
  | none => s

variable [JsonText V]

/-- The coordinator handles the next message of a connection and answers it. -/
def handle (s : Network V) (ids : DerivedIds) (nodeId : NodeId) (replier : String)
    (session : Session V) : Network V :=
  match session.outgoing with
  | [] => s
  | message :: rest =>
    let answered := answer ids s.db nodeId replier message
    { s with db := answered.2 }.setSite nodeId ((s.site nodeId).setSession
      { session with outgoing := rest, incoming := session.incoming ++ [answered.1] })

/-- The coordinator handles a message of a connection that ended. -/
def handleLate (s : Network V) (ids : DerivedIds) (nodeId : NodeId) (i : Nat) (replier : String) :
    Network V :=
  match (s.site nodeId).late[i]? with
  | some message => { s with db := (answer ids s.db nodeId replier message).2 }.setSite nodeId
      { s.site nodeId with late := (s.site nodeId).late.eraseIdx i }
  | none => s

def step (ids : DerivedIds) (bytes : MessageBytes V) (home : NodeId → Home) (s : Network V) :
    Input V → Network V
  | .transaction transaction =>
    if isBatch transaction then s else { s with db := s.db.apply ids transaction }
  | .deliver nodeId taskId command => s.deliver nodeId taskId command
  | .handle nodeId replier => (s.site nodeId).session.elim s (s.handle ids nodeId replier)
  | .handleLate nodeId i replier => s.handleLate ids nodeId i replier
  | .node nodeId input =>
    s.setSite nodeId ((s.site nodeId).step bytes (home nodeId) s.drawn input)

def run (ids : DerivedIds) (bytes : MessageBytes V) (home : NodeId → Home) (s : Network V)
    (inputs : List (Input V)) : Network V := inputs.foldl (step ids bytes home) s

/-- Every step of the run meets a condition on it and the state before it. -/
def RunMeets (ids : DerivedIds) (bytes : MessageBytes V) (home : NodeId → Home)
    (condition : Network V → Input V → Prop) : Network V → List (Input V) → Prop
  | _, [] => True
  | s, input :: rest =>
    condition s input ∧ RunMeets ids bytes home condition (step ids bytes home s input) rest

instance decidableRunMeets (ids : DerivedIds) (bytes : MessageBytes V) (home : NodeId → Home)
    (condition : Network V → Input V → Prop) [∀ s input, Decidable (condition s input)] :
    ∀ s inputs, Decidable (RunMeets ids bytes home condition s inputs)
  | _, [] => isTrue trivial
  | s, input :: rest =>
    have := decidableRunMeets ids bytes home condition (step ids bytes home s input) rest
    inferInstanceAs (Decidable (_ ∧ _))

end Network

end Renoa.Node
