import Renoa.Control.AgentReplies

/-!
# Messages between agents

A node sends a message for an agent it executes. The message becomes a command in the thread task
of the pair of agents, which is opened with its first message. Every check runs before the first
write.
-/

namespace Renoa.Control

open Foundation Protocol

variable {V : Type}

/-- The deepest chain of agent requests. -/
def maxChainDepth : Nat := 100

/-- A message as the sending node asks for it. -/
structure OutgoingMessage where
  fromCommand : CommandId
  messageId : CommandId
  toNode : NodeId
  toTarget : TargetRef
  text : String
  deriving DecidableEq, Repr

inductive MessageAdmission (V : Type) where
  | admitted (taskId fromTask : TaskId) (command : CommandEnvelope) (event : TaskEvent V)
  | existing (taskId fromTask : TaskId) (command : CommandEnvelope) (pending : Bool)
  deriving DecidableEq, Repr

/-- The text limits, and the depth the message has in its chain. -/
def messageDepth (sourceCommand : CommandEnvelope) (message : OutgoingMessage) :
    Except ControlError Nat :=
  let bytes := message.text.utf8ByteSize
  let depth := min ((sourceCommand.origin.elim 0 AgentOrigin.depth) + 1) maxU32
  do
    ensure (!isBlank message.text) (.invalid
      "The message text is empty. Write what you want the other agent to know or do.")
    ensure (bytes ≤ maxMessageBytes) (.invalid <|
      s!"The message text is {bytes} bytes and the limit is {maxMessageBytes}. Shorten it and " ++
        "send it again.")
    ensure (depth ≤ maxChainDepth) (.invalid <|
      "This exchange between agents has gone on too long and was stopped. Do not message " ++
        "another agent about it; tell your owner what you were trying to do.")
    return depth

/-- The command a message becomes. -/
def messageCommand (principalId : PrincipalId) (message : OutgoingMessage) (source : TaskRow)
    (sourceCommand : CommandEnvelope) (depth : Nat) (name : String) : CommandEnvelope where
  commandId := message.messageId
  principalId
  surface := agentSurface
  target := message.toTarget
  input := (CommandInput.fromText message.text).quietIf sourceCommand.input.quiet
  origin := some
    { fromCommand := message.fromCommand
      source := source.target
      name
      depth
      kind := .request }

/-- The destination agent is advertised by its node now. -/
def requireDestination (message : OutgoingMessage) :
    Option (List TargetCard) → Except ControlError Unit
  | none => .error (.nodeOfflineWith "That agent's machine is not connected right now.")
  | some cards =>
    ensure (cards.any fun card => card.target = message.toTarget) (.notFound <|
      "That agent is no longer available on its machine. Look up the agents again and choose " ++
        "a name from the list.")

namespace Database

variable (db : Database V)

/-- The task, its binding and the command the message is sent from. -/
def loadSource (nodeId : NodeId) (principalId : PrincipalId) (message : OutgoingMessage) :
    Except ControlError (TaskRow × CommandEnvelope) :=
  let notFound := ControlError.notFound <|
    "Renoa cannot tell which conversation this message is sent from. If it keeps failing, " ++
      "tell your owner."
  do
    let row ← require notFound (db.commands.find? message.fromCommand)
    let task ← db.loadTask row.taskId
    ensure (task.nodeId = nodeId && task.principalId = principalId) notFound
    return (task, row.command)

/-- Opens the thread task, or checks the binding of an earlier opening. -/
def openThread (task : TaskSpec) : Except ControlError (Database V) :=
  match db.tasks.find? task.taskId with
  | none => db.insertTask task
  | some row => do
    ensure (boundAs row task) (.conflict <|
      "The conversation with that agent could not be opened, because its identity is already " ++
        "in use. Tell your owner.")
    return db

/-- The answer to a message that is stored already, whatever the sender is called now. -/
def admitExistingMessage (taskId fromTask : TaskId) (stored : CommandRow)
    (commandWith : String → CommandEnvelope) :
    Except ControlError (MessageAdmission V × Database V) := do
  ensure (stored.command = commandWith (stored.command.origin.elim "" AgentOrigin.name) &&
      stored.taskId = taskId) (.conflict
    "That message was already sent with different content. Send the new content as a new message.")
  return (.existing taskId fromTask stored.command (db.isPending stored.commandId), db)

/-- Admits a new message in the thread task. -/
def admitNewMessage (eventId : TaskEventId) (task : TaskSpec) (fromTask : TaskId)
    (sender : TargetRef) (senderCards : List TargetCard) (destination : Option (List TargetCard))
    (message : OutgoingMessage) (commandWith : String → CommandEnvelope) :
    Except ControlError (MessageAdmission V × Database V) := do
  let card ← require (.invalid <|
    "Renoa does not yet know this agent's name, so the message cannot say who it is from. " ++
      "Wait a moment and try again.")
    (senderCards.find? fun card => card.target = sender)
  requireDestination message destination
  let db ← db.openThread task
  let (event, db) ← db.insertCommand eventId task.taskId (commandWith card.name)
  return (.admitted task.taskId fromTask (commandWith card.name) event, db)

/-- Admits a message for the node. `senderCards` are the targets the node advertises and
`destination` those of the destination node, or none while it is offline. -/
def admitAgentMessage (ids : DerivedIds) (eventId : TaskEventId) (nodeId : NodeId)
    (senderCards : List TargetCard) (destination : Option (List TargetCard))
    (message : OutgoingMessage) : Except ControlError (MessageAdmission V × Database V) := do
  let principalId ← require (.role <|
    "This machine has no owner, so its agents cannot message other agents. Tell the person " ++
      "you are working with.")
    (db.nodeOwner nodeId)
  let (source, sourceCommand) ← db.loadSource nodeId principalId message
  let depth ← messageDepth sourceCommand message
  ensure (db.nodeOwner message.toNode = some principalId) (.notFound <|
    "That agent is not one of your owner's agents. Look up the agents again and choose a name " ++
      "from the list.")
  ensure (!(nodeId = message.toNode && source.target = message.toTarget)) (.invalid
    "An agent cannot message itself. Choose a different agent.")
  let taskId := ids.threadTaskId principalId (nodeId, source.target)
    (message.toNode, message.toTarget)
  let commandWith := messageCommand principalId message source sourceCommand depth
  match db.commands.find? message.messageId with
  | some stored => db.admitExistingMessage taskId source.taskId stored commandWith
  | none =>
    db.admitNewMessage eventId
      { taskId, principalId, nodeId := message.toNode, target := message.toTarget }
      source.taskId source.target senderCards destination message commandWith

end Database

end Renoa.Control
