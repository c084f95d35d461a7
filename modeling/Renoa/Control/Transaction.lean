import Renoa.Control.Growth

/-!
# Runs of the coordinator's transactions

A `Transaction` names one store operation with its arguments; identities it draws are among them.
`runAll` commits a list of transactions one after the other, where a failing one changes nothing.
`commit_grown` says once what a transaction can do, and the invariant holds after every run.
-/

namespace Renoa.Control

open Foundation Protocol List Table Database

variable {V : Type} {db db' : Database V} {nid : NodeId} {task : TaskSpec}
  {evId : TaskEventId} {tid : TaskId} {pid : PrincipalId} {cid : CommandId}
  {admission : CommandAdmission V} {message : OutgoingMessage} {ids : DerivedIds}
  {appended : List (TaskEvent V)} {replier : String} {reply : Option (AgentReply V)}
  {command : CommandEnvelope} {owner : PrincipalId}

inductive Transaction (V : Type) where
  | createNodeEnrollment (nodeId : NodeId) (owner : PrincipalId)
  | createTask (task : TaskSpec)
  | openTask (task : TaskSpec) (availability : Availability)
  | admitCommand (eventId : TaskEventId) (taskId : TaskId) (principalId : PrincipalId)
      (surface : SurfaceRef) (commandId : CommandId) (input : CommandInput) (allowNew : Bool)
  | admitAgentMessage (eventId : TaskEventId) (nodeId : NodeId) (senderCards : List TargetCard)
      (destination : Option (List TargetCard)) (message : OutgoingMessage)
  | appendExecutionEvents (newId : Nat → TaskEventId) (replyEventId : TaskEventId)
      (taskId : TaskId) (commandId : CommandId) (events : List (ExecutionEvent V))
      (replier : String)
  | acknowledgeExecution (nodeId : NodeId) (taskId : TaskId) (commandId : CommandId)
  | admitStop (taskId : TaskId) (commandId : CommandId)
  | acknowledgeStop (nodeId : NodeId) (taskId : TaskId) (commandId : CommandId)
  | deleteTask (principalId : PrincipalId) (taskId : TaskId)

section

variable [JsonText V]

/-- The database after the transaction, or the error that rolled it back. -/
def Transaction.commit (ids : DerivedIds) (db : Database V) :
    Transaction V → Except ControlError (Database V)
  | .createNodeEnrollment nodeId owner => db.createNodeEnrollment nodeId owner
  | .createTask task => db.createTask task
  | .openTask task availability => Prod.snd <$> db.openTask task availability
  | .admitCommand eventId taskId principalId surface commandId input allowNew =>
    Prod.snd <$> db.admitCommand eventId taskId principalId surface commandId input allowNew
  | .admitAgentMessage eventId nodeId senderCards destination message =>
    Prod.snd <$> db.admitAgentMessage ids eventId nodeId senderCards destination message
  | .appendExecutionEvents newId replyEventId taskId commandId events replier =>
    Prod.snd <$>
      db.appendExecutionEvents ids newId replyEventId taskId commandId events replier
  | .acknowledgeExecution nodeId taskId commandId => db.acknowledgeExecution nodeId taskId commandId
  | .admitStop taskId commandId => Prod.snd <$> db.admitStop taskId commandId
  | .acknowledgeStop nodeId taskId commandId => db.acknowledgeStop nodeId taskId commandId
  | .deleteTask principalId taskId => db.deleteTask principalId taskId

namespace Database

variable (ids : DerivedIds)

/-- A failing transaction is rolled back. -/
def apply (db : Database V) (transaction : Transaction V) : Database V :=
  match transaction.commit ids db with
  | .ok db' => db'
  | .error _ => db

def runAll (db : Database V) (transactions : List (Transaction V)) :
    Database V := transactions.foldl (apply ids) db

/-- The state a coordinator reaches from an empty store. -/
def reached (history : List (Transaction V)) : Database V := Database.empty.runAll ids history

end Database

end

/-! ## What a transaction does -/

/-- A change that leaves the tasks, commands, records and streams alone and adds no pending
execution; a stop it adds is one of a stored command. -/
structure Quiet (db db' : Database V) : Prop where
  tasks : db'.tasks = db.tasks
  commands : db'.commands = db.commands
  events : db'.taskEvents = db.taskEvents
  streams : db'.executionEventStreams = db.executionEventStreams
  pending : ∀ p ∈ db'.pendingExecutions, p ∈ db.pendingExecutions
  stops : ∀ s ∈ db'.stopRequests, (∃ q ∈ db.stopRequests, q.commandId = s.commandId) ∨
    ∃ c ∈ db.commands, c.commandId = s.commandId

theorem Quiet.refl (db : Database V) : Quiet db db :=
  ⟨rfl, rfl, rfl, rfl, fun _ hp => hp, fun s hs => .inl ⟨s, hs, rfl⟩⟩

theorem Quiet.grown (h : Quiet db db') : Relation.ReflTransGen Grown db db' :=
  .single (.kept h.tasks h.commands h.events h.streams h.pending h.stops)

theorem Database.createNodeEnrollment_ok (h : db.createNodeEnrollment nid owner = .ok db') :
    db' = { db with nodeOwners := db'.nodeOwners } := by
  unfold createNodeEnrollment at h
  split at h
  · obtain ⟨_, _, h⟩ := bind_ok h
    cases h
    rfl
  · obtain ⟨nodeOwners, _, h⟩ := bind_ok h
    cases h
    rfl

theorem Database.createNodeEnrollment_quiet (h : db.createNodeEnrollment nid owner = .ok db') :
    Quiet db db' := by
  rw [createNodeEnrollment_ok h]
  exact ⟨rfl, rfl, rfl, rfl, fun _ hp => hp, fun s hs => .inl ⟨s, hs, rfl⟩⟩

theorem Database.openTask_ok {availability : Availability} {opening : Opening}
    (h : db.openTask task availability = .ok (opening, db')) :
    db' = db ∨ OpenedTask db db' task := by
  unfold openTask at h
  split at h
  · obtain ⟨_, _, h⟩ := bind_ok h
    cases h
    exact .inl rfl
  · obtain ⟨_, _, h⟩ := bind_ok h
    obtain ⟨_, _, h⟩ := bind_ok h
    obtain ⟨opened, hins, h⟩ := bind_ok h
    cases h
    exact .inr (insertTask_ok hins)

/-- What the admission of a surface's command did. -/
inductive AdmittedCommand (db db' : Database V) (taskId : TaskId) (command : CommandEnvelope) :
    CommandAdmission V → Prop
  | notAdmitted (hnew : db.commands.find? command.commandId = none) (hdb : db' = db) :
      AdmittedCommand db db' taskId command .notAdmitted
  | existing (stored : CommandRow) (hstored : db.commands.find? command.commandId = some stored)
      (hcontent : stored.command = command) (hdb : db' = db) :
      AdmittedCommand db db' taskId command
        (.existing command (db.isPending command.commandId))
  | admitted (row : TaskEventRow V) (h : InsertedCommand db db' taskId command row) :
      AdmittedCommand db db' taskId command (.admitted command row.event)

theorem Database.admitCommand_ok {surface : SurfaceRef} {input : CommandInput} {allowNew : Bool}
    (h : db.admitCommand evId tid pid surface cid input allowNew = .ok (admission, db')) :
    ∃ task ∈ db.tasks, task.taskId = tid ∧ task.principalId = pid ∧ AdmittedCommand db db' tid
        { commandId := cid, principalId := pid, surface, target := task.target, input,
          origin := none }
        admission := by
  obtain ⟨task, hload, h⟩ := bind_ok h
  obtain ⟨row, hrow, hload⟩ := require_bind_ok hload
  obtain ⟨hprin, hload⟩ := ensure_bind_ok hload
  cases hload
  refine ⟨task, mem_of_find? hrow, key_of_find? hrow, of_decide_eq_true hprin, ?_⟩
  cases hfind : db.commands.find? cid with
  | some st =>
    rw [hfind] at h
    obtain ⟨hcontent, h⟩ := ensure_bind_ok h
    cases h
    exact .existing st hfind (of_decide_eq_true hcontent) rfl
  | none =>
    rw [hfind] at h
    cases allowNew with
    | false =>
      cases h
      exact .notAdmitted hfind rfl
    | true =>
      obtain ⟨⟨ev, inserted⟩, hinsert, h⟩ := bind_ok h
      cases h
      obtain ⟨row, hins, rfl⟩ := insertCommand_ok hinsert
      exact .admitted row hins

theorem AdmittedCommand.grown (h : AdmittedCommand db db' tid command admission) :
    Relation.ReflTransGen Grown db db' := by
  cases h with
  | notAdmitted _ hdb | existing _ _ _ hdb => rw [hdb]
  | admitted row h => exact .single (.admitted tid command row h)

theorem AdmittedCommand.streams_eq (h : AdmittedCommand db db' tid command admission) :
    db'.executionEventStreams = db.executionEventStreams := by
  cases h with
  | notAdmitted _ hdb | existing _ _ _ hdb => rw [hdb]
  | admitted row h => exact h.streams_eq

/-! ## Messages and answers -/

/-- The command the message is sent from, its task, and the thread task the message goes to. -/
structure MessageRoute (ids : DerivedIds) (db : Database V) (nodeId : NodeId)
    (message : OutgoingMessage) (principalId : PrincipalId) (source : TaskRow)
    (asking : CommandRow) (depth : Nat) (task : TaskSpec) : Prop where
  owner : db.nodeOwner nodeId = some principalId
  asking_mem : asking ∈ db.commands
  asking_id : asking.commandId = message.fromCommand
  asking_task : asking.taskId = source.taskId
  source_mem : source ∈ db.tasks
  source_node : source.nodeId = nodeId
  source_principal : source.principalId = principalId
  depth_eq : messageDepth asking.command message = .ok depth
  destination_owner : db.nodeOwner message.toNode = some principalId
  task_eq : task = ⟨ids.threadTaskId principalId (nodeId, source.target)
    (message.toNode, message.toTarget), principalId, message.toNode, message.toTarget⟩

/-- The thread task stands with the binding the message needs. -/
def OpenedThread (db db' : Database V) (task : TaskSpec) : Prop :=
  OpenedTask db db' task ∨
    (db' = db ∧ ∃ t ∈ db.tasks, t.taskId = task.taskId ∧ t.principalId = task.principalId ∧
      t.nodeId = task.nodeId ∧ t.target = task.target)

/-- What the admission of an agent's message did. -/
inductive AdmittedMessage (ids : DerivedIds) (db db' : Database V) (nodeId : NodeId)
    (message : OutgoingMessage) : MessageAdmission V → Prop
  | existing {principalId : PrincipalId} {source : TaskRow} {asking : CommandRow} {depth : Nat}
      {task : TaskSpec}
      (hroute : MessageRoute ids db nodeId message principalId source asking depth task)
      (stored : CommandRow) (hstored : db.commands.find? message.messageId = some stored)
      (htask : stored.taskId = task.taskId) (hdb : db' = db) :
      AdmittedMessage ids db db' nodeId message
        (.existing task.taskId source.taskId stored.command (db.isPending stored.commandId))
  | admitted {principalId : PrincipalId} {source : TaskRow} {asking : CommandRow} {depth : Nat}
      {task : TaskSpec}
      (hroute : MessageRoute ids db nodeId message principalId source asking depth task)
      (name : String) (mid : Database V) (row : TaskEventRow V)
      (hthread : OpenedThread db mid task)
      (h : InsertedCommand mid db' task.taskId
        (messageCommand principalId message source asking.command depth name) row) :
      AdmittedMessage ids db db' nodeId message
        (.admitted task.taskId source.taskId
          (messageCommand principalId message source asking.command depth name) row.event)

theorem Database.openThread_ok (h : db.openThread task = .ok db') : OpenedThread db db' task := by
  unfold openThread at h
  cases hfind : db.tasks.find? task.taskId with
  | none =>
    rw [hfind] at h
    exact .inl (insertTask_ok h)
  | some row =>
    rw [hfind] at h
    obtain ⟨hbnd, h⟩ := ensure_bind_ok h
    cases h
    simp only [boundAs, Bool.and_eq_true, decide_eq_true_eq] at hbnd
    exact .inr ⟨rfl, row, mem_of_find? hfind, key_of_find? hfind, hbnd.1.1, hbnd.1.2, hbnd.2⟩

theorem Database.loadSource_ok {source : TaskRow} {sourceCommand : CommandEnvelope}
    (h : db.loadSource nid pid message = .ok (source, sourceCommand)) :
    ∃ asking ∈ db.commands, asking.commandId = message.fromCommand ∧
      asking.taskId = source.taskId ∧ asking.command = sourceCommand ∧ source ∈ db.tasks ∧
      source.nodeId = nid ∧ source.principalId = pid := by
  obtain ⟨row, hrow, h⟩ := require_bind_ok h
  obtain ⟨task, htask, h⟩ := require_bind_ok h
  obtain ⟨hbnd, h⟩ := ensure_bind_ok h
  cases h
  simp only [Bool.and_eq_true, decide_eq_true_eq] at hbnd
  exact ⟨row, mem_of_find? hrow, key_of_find? hrow, (key_of_find? htask).symm,
    rfl, mem_of_find? htask, hbnd.1, hbnd.2⟩

theorem Database.admitAgentMessage_ok {senderCards : List TargetCard}
    {destination : Option (List TargetCard)} {admission : MessageAdmission V}
    (h : db.admitAgentMessage ids evId nid senderCards destination message = .ok (admission,
      db')) : AdmittedMessage ids db db' nid message admission := by
  obtain ⟨pid, hown, h⟩ := require_bind_ok h
  obtain ⟨⟨source, sourceCommand⟩, hsrc, h⟩ := bind_ok h
  obtain ⟨depth, hdepth, h⟩ := bind_ok h
  obtain ⟨hdestination, h⟩ := ensure_bind_ok h
  obtain ⟨_, _, h⟩ := bind_ok h
  obtain ⟨asking, hmem, hid, htask, rfl, hsourceMem, hnode, hprin⟩ := loadSource_ok hsrc
  have hrte : MessageRoute ids db nid message pid source asking depth _ :=
    ⟨hown, hmem, hid, htask, hsourceMem, hnode, hprin, hdepth, of_decide_eq_true hdestination, rfl⟩
  cases hfind : db.commands.find? message.messageId with
  | some st =>
    simp only [hfind] at h
    obtain ⟨hsame, h⟩ := ensure_bind_ok h
    cases h
    simp only [Bool.and_eq_true, decide_eq_true_eq] at hsame
    exact .existing hrte st hfind hsame.2 rfl
  | none =>
    simp only [hfind] at h
    obtain ⟨card, _, h⟩ := bind_ok h
    obtain ⟨_, _, h⟩ := bind_ok h
    obtain ⟨mid, hthr, h⟩ := bind_ok h
    obtain ⟨⟨ev, inserted⟩, hinsert, h⟩ := bind_ok h
    cases h
    obtain ⟨row, hins, rfl⟩ := insertCommand_ok hinsert
    exact .admitted hrte card.name mid row (openThread_ok hthr) hins

theorem OpenedThread.grown (h : OpenedThread db db' task) : Relation.ReflTransGen Grown db db' := by
  rcases h with h | ⟨rfl, _⟩
  · exact .single (.opened task h)
  · exact .refl

theorem AdmittedMessage.grown {admission : MessageAdmission V}
    (h : AdmittedMessage ids db db' nid message admission) :
    Relation.ReflTransGen Grown db db' := by
  cases h with
  | existing _ _ _ _ hdb => rw [hdb]
  | admitted _ name mid row hthr h => exact hthr.grown.tail (.admitted _ _ row h)

/-- The thread of a message stands with the binding the message needs. -/
theorem OpenedThread.exists_task (h : OpenedThread db db' task) :
    ∃ t ∈ db'.tasks, t.taskId = task.taskId ∧ t.principalId = task.principalId ∧
      t.nodeId = task.nodeId := by
  rcases h with h | ⟨rfl, t, ht, hid, hprin, hnode, _⟩
  · refine ⟨⟨task.taskId, task.principalId, task.nodeId, task.target, 0⟩, ?_, rfl, rfl, rfl⟩
    rw [← mem_rows, h.tasks]
    exact mem_append_right _ mem_cons_self
  · exact ⟨t, ht, hid, hprin, hnode⟩

theorem OpenedThread.streams_eq (h : OpenedThread db db' task) :
    db'.executionEventStreams = db.executionEventStreams := by
  rcases h with h | ⟨rfl, _⟩
  · exact h.streams_eq
  · rfl

theorem AdmittedMessage.streams_eq {admission : MessageAdmission V}
    (h : AdmittedMessage ids db db' nid message admission) :
    db'.executionEventStreams = db.executionEventStreams := by
  cases h with
  | existing _ _ _ _ hdb => rw [hdb]
  | admitted _ name mid row hthr h => exact h.streams_eq.trans hthr.streams_eq

/-- What the records appended for a command led to. -/
inductive AdmittedReply (ids : DerivedIds) (db db' : Database V) (taskId : TaskId)
    (commandId : CommandId) (appended : List (TaskEvent V)) (replier : String) :
    Option (AgentReply V) → Prop
  | unended (hnone : appended.findSome? TaskEvent.terminal? = none) (hdb : db' = db) :
      AdmittedReply ids db db' taskId commandId appended replier none
  | unasked (row : CommandRow) (hrow : db.commands.find? commandId = some row)
      (hasking : ∀ origin, row.command.request? = some origin →
        db.commands.find? origin.fromCommand = none) (hdb : db' = db) :
      AdmittedReply ids db db' taskId commandId appended replier none
  | answered {row asking : CommandRow} {origin : AgentOrigin} {terminal : ExecutionTerminal}
      {asker task : TaskRow} (record : TaskEventRow V)
      (hterminal : appended.findSome? TaskEvent.terminal? = some terminal)
      (hrow : db.commands.find? commandId = some row)
      (hrequest : row.command.request? = some origin)
      (hasking : db.commands.find? origin.fromCommand = some asking)
      (hasker : db.tasks.find? asking.taskId = some asker)
      (htask : db.tasks.find? taskId = some task)
      (h : InsertedCommand db db' asking.taskId (db.replyCommand ids taskId commandId replier
        terminal origin asking.command asker task) record) :
      AdmittedReply ids db db' taskId commandId appended replier
        (some ⟨asking.taskId, taskId, asker.nodeId, db.replyCommand ids taskId commandId replier
          terminal origin asking.command asker task, record.event⟩)

theorem Database.admitReply_ok
    (h : db.admitReply ids evId tid cid appended replier = .ok (reply, db')) :
    AdmittedReply ids db db' tid cid appended replier reply := by
  unfold admitReply at h
  cases hterm : appended.findSome? TaskEvent.terminal? with
  | none =>
    rw [hterm] at h
    cases h
    exact .unended hterm rfl
  | some terminal =>
    rw [hterm] at h
    obtain ⟨row, hrow, h⟩ := require_bind_ok h
    cases hreq : row.command.request? with
    | none =>
      simp only [CommandEnvelope.request?] at hreq
      rw [hreq] at h
      cases h
      refine .unasked row hrow (fun origin horig => ?_) rfl
      rw [CommandEnvelope.request?, hreq] at horig
      cases horig
    | some origin =>
      have horig := hreq
      simp only [CommandEnvelope.request?] at horig
      rw [horig] at h
      unfold answerRequest at h
      cases hask : db.commands.find? origin.fromCommand with
      | none =>
        simp only [hask] at h
        cases h
        refine .unasked row hrow (fun other hoth => ?_) rfl
        rw [hreq] at hoth
        cases hoth
        exact hask
      | some asking =>
        simp only [hask] at h
        obtain ⟨asker, hasker, h⟩ := require_bind_ok h
        obtain ⟨task, htask, h⟩ := require_bind_ok h
        obtain ⟨⟨ev, inserted⟩, hinsert, h⟩ := bind_ok h
        cases h
        obtain ⟨record, hins, rfl⟩ := insertCommand_ok hinsert
        exact .answered record hterm hrow hreq hask hasker htask hins

theorem AdmittedReply.grown (h : AdmittedReply ids db db' tid cid appended replier reply) :
    Relation.ReflTransGen Grown db db' := by
  cases h with
  | unended _ hdb | unasked _ _ _ hdb => rw [hdb]
  | answered record _ _ _ _ _ _ h => exact .single (.admitted _ _ record h)

theorem AdmittedReply.streams_eq (h : AdmittedReply ids db db' tid cid appended replier reply) :
    db'.executionEventStreams = db.executionEventStreams := by
  cases h with
  | unended _ hdb | unasked _ _ _ hdb => rw [hdb]
  | answered record _ _ _ _ _ _ h => exact h.streams_eq

/-- An accepted batch is journalled, and then its answer is admitted. -/
theorem Database.appendExecutionEvents_ok [JsonText V] (hc : Consistent db)
    {newId : Nat → TaskEventId} {rid : TaskEventId} {evs : List (ExecutionEvent V)}
    {admission : ExecutionEventAdmission V}
    (h : db.appendExecutionEvents ids newId rid tid cid evs replier = .ok (admission, db')) :
    ∃ mid, JournalledBatch db mid tid cid evs { admission with reply := none } ∧
      AdmittedReply ids mid db' tid cid admission.events replier admission.reply := by
  obtain ⟨⟨batch, mid⟩, hbat, h⟩ := bind_ok h
  obtain ⟨⟨reply, replied⟩, hrep, h⟩ := bind_ok h
  cases h
  obtain ⟨hjrn, -⟩ := admitExecutionEventBatch_ok hc hbat
  have hnone := hjrn.reply
  refine ⟨mid, ?_, admitReply_ok hrep⟩
  have hbatchEq : { batch with reply := none } = batch := by rw [← hnone]
  rw [hbatchEq]
  exact hjrn

/-! ## Any transaction -/

/-- An acknowledged execution of a command of the node's task is pending no more. -/
theorem Database.acknowledgeExecution_ok (h : db.acknowledgeExecution nid tid cid = .ok db') :
    (∃ row ∈ db.commands, row.commandId = cid ∧ row.taskId = tid) ∧
      (∃ task ∈ db.tasks, task.taskId = tid ∧ task.nodeId = nid) ∧
      db' = { db with pendingExecutions :=
        db.pendingExecutions.deleteWhere fun row => row.commandId = cid } := by
  obtain ⟨row, hrow, h⟩ := require_bind_ok h
  obtain ⟨task, htask, h⟩ := require_bind_ok h
  obtain ⟨hnode, h⟩ := ensure_bind_ok h
  cases h
  obtain ⟨hfind, hof⟩ := Option.filter_eq_some_iff.mp hrow
  obtain rfl := of_decide_eq_true hof
  have hstand := htask
  exact ⟨⟨row, mem_of_find? hfind, key_of_find? hfind, rfl⟩,
    ⟨task, mem_of_find? hstand, key_of_find? hstand, of_decide_eq_true hnode⟩, rfl⟩

theorem Database.acknowledgeExecution_quiet
    (h : db.acknowledgeExecution nid tid cid = .ok db') : Quiet db db' := by
  obtain ⟨_, _, rfl⟩ := acknowledgeExecution_ok h
  exact ⟨rfl, rfl, rfl, rfl, fun p hp => (mem_deleteWhere.mp hp).1, fun s hs => .inl ⟨s, hs, rfl⟩⟩

/-- A stop is recorded once, for a command of the task. -/
theorem Database.admitStop_ok {admission : StopAdmission}
    (h : db.admitStop tid cid = .ok (admission, db')) :
    (∃ row ∈ db.commands, row.commandId = cid ∧ row.taskId = tid) ∧
      (db' = db ∨ admission = .recorded false ∧
        db'.stopRequests.rows = db.stopRequests.rows ++ [⟨cid, false⟩] ∧
        db' = { db with stopRequests := db'.stopRequests }) := by
  obtain ⟨hcmd, h⟩ := ensure_bind_ok h
  constructor
  · obtain ⟨row, hrow, htask⟩ := Option.any_eq_true _ _ |>.mp hcmd
    exact ⟨row, mem_of_find? hrow, key_of_find? hrow, of_decide_eq_true htask⟩
  · unfold recordStop at h
    split at h
    · cases h
      exact .inl rfl
    · split at h
      · cases h
        exact .inl rfl
      · obtain ⟨stopRequests, hins, h⟩ := require_bind_ok h
        cases h
        exact .inr ⟨rfl, (insert_eq_some hins).2.2, rfl⟩

theorem Database.admitStop_quiet {admission : StopAdmission}
    (h : db.admitStop tid cid = .ok (admission, db')) : Quiet db db' := by
  obtain ⟨⟨row, hrow, hid, _⟩, rfl | ⟨_, hrows, hdb⟩⟩ := admitStop_ok h
  · exact .refl db'
  · refine ⟨congrArg (·.tasks) hdb, congrArg (·.commands) hdb,
      congrArg (·.taskEvents) hdb, congrArg (·.executionEventStreams) hdb,
      ?_, ?_⟩
    · intro p hp
      rw [hdb] at hp
      exact hp
    · intro s hs
      rcases (mem_concat hrows).mp hs with hs | rfl
      · exact .inl ⟨s, hs, rfl⟩
      · exact .inr ⟨row, hrow, hid⟩

/-- An acknowledged stop of a command of the node's task is delivered. -/
theorem Database.acknowledgeStop_ok (h : db.acknowledgeStop nid tid cid = .ok db') :
    db' = db ∨ (∃ row ∈ db.commands, row.commandId = cid ∧ row.taskId = tid) ∧
      (∃ task ∈ db.tasks, task.taskId = tid ∧ task.nodeId = nid) ∧
      db' = { db with stopRequests := db.stopRequests.put ⟨cid, true⟩ } := by
  unfold acknowledgeStop at h
  cases htask : db.tasks.find? tid with
  | none =>
    rw [htask] at h
    cases h
    exact .inl rfl
  | some task =>
    rw [htask] at h
    obtain ⟨hnode, h⟩ := ensure_bind_ok h
    cases h
    unfold deliverStop
    cases hrow : db.commands.find? cid with
    | none => exact .inl rfl
    | some row =>
      dsimp only
      split
      next hof =>
        exact .inr ⟨⟨row, mem_of_find? hrow, key_of_find? hrow, hof⟩,
          ⟨task, mem_of_find? htask, key_of_find? htask, of_decide_eq_true hnode⟩, rfl⟩
      · exact .inl rfl

theorem Database.acknowledgeStop_quiet (h : db.acknowledgeStop nid tid cid = .ok db') :
    Quiet db db' := by
  obtain rfl | ⟨⟨row, hrow, hid, _⟩, _, rfl⟩ := acknowledgeStop_ok h
  · exact .refl db'
  · refine ⟨rfl, rfl, rfl, rfl, fun _ hp => hp, fun s hs => ?_⟩
    rcases mem_put_cases hs with rfl | ⟨hs, _⟩
    · exact .inr ⟨row, hrow, hid⟩
    · exact .inl ⟨s, hs, rfl⟩

/-- A deletion removes a task whose commands have all settled, or finds none. -/
theorem Database.deleteTask_ok (h : db.deleteTask pid tid = .ok db') :
    db' = db ∨ (db' = db.removeTask tid ∧
      (∃ task ∈ db.tasks, task.taskId = tid ∧ task.principalId = pid) ∧
      ∀ c ∈ db.commands, c.taskId = tid → db.settled c.commandId = true) := by
  unfold deleteTask at h
  cases hfind : db.tasks.find? tid with
  | none =>
    rw [hfind] at h
    cases h
    exact .inl rfl
  | some task =>
    rw [hfind] at h
    obtain ⟨hprin, h⟩ := ensure_bind_ok h
    obtain ⟨_, hdone, h⟩ := bind_ok h
    cases h
    have hdone := all_eq_true.mp (ensure_ok hdone)
    refine .inr ⟨rfl, ⟨task, mem_of_find? hfind, key_of_find? hfind, of_decide_eq_true hprin⟩, ?_⟩
    intro c hc htask
    have hrow := hdone c hc
    simpa [htask] using hrow

section

variable [JsonText V] {ids : DerivedIds} {transaction : Transaction V}
  {transactions : List (Transaction V)} {motive : Database V → Prop}

/-- What a committed transaction did. -/
inductive Committed (ids : DerivedIds) (db db' : Database V) : Transaction V → Prop
  | quiet {transaction : Transaction V} (h : Quiet db db') : Committed ids db db' transaction
  | opened {transaction : Transaction V} (task : TaskSpec) (h : OpenedTask db db' task) :
      Committed ids db db' transaction
  | submitted (eventId : TaskEventId) {task : TaskRow} {surface : SurfaceRef}
      {commandId : CommandId} {input : CommandInput} (allowNew : Bool)
      {admission : CommandAdmission V} (htask : task ∈ db.tasks)
      (h : AdmittedCommand db db' task.taskId
        ⟨commandId, task.principalId, surface, task.target, input, none⟩ admission) :
      Committed ids db db'
        (.admitCommand eventId task.taskId task.principalId surface commandId input allowNew)
  | messaged (eventId : TaskEventId) {nodeId : NodeId} (senderCards : List TargetCard)
      (destination : Option (List TargetCard)) {message : OutgoingMessage}
      {admission : MessageAdmission V} (h : AdmittedMessage ids db db' nodeId message admission) :
      Committed ids db db' (.admitAgentMessage eventId nodeId senderCards destination message)
  | batch (newId : Nat → TaskEventId) (replyEventId : TaskEventId) {taskId : TaskId}
      {commandId : CommandId} {events : List (ExecutionEvent V)} {replier : String}
      {admission : ExecutionEventAdmission V} (mid : Database V)
      (h : JournalledBatch db mid taskId commandId events { admission with reply := none })
      (hreply : AdmittedReply ids mid db' taskId commandId admission.events replier
        admission.reply) :
      Committed ids db db'
        (.appendExecutionEvents newId replyEventId taskId commandId events replier)
  | deleted {principalId : PrincipalId} {taskId : TaskId}
      (htask : ∃ task ∈ db.tasks, task.taskId = taskId ∧ task.principalId = principalId)
      (hsettled : ∀ c ∈ db.commands, c.taskId = taskId → db.settled c.commandId = true)
      (hdb : db' = db.removeTask taskId) :
      Committed ids db db' (.deleteTask principalId taskId)

section

variable (hc : Consistent db) (h : transaction.commit ids db = .ok db')

include hc h

theorem Transaction.commit_committed : Committed ids db db' transaction := by
  cases transaction with
  | createNodeEnrollment nid owner => exact .quiet (createNodeEnrollment_quiet h)
  | createTask task => exact .opened task (insertTask_ok h)
  | openTask task availability =>
    obtain ⟨⟨_, _⟩, hop, rfl⟩ := map_ok h
    rcases openTask_ok hop with hdb | hopn
    · exact .quiet (hdb ▸ .refl db)
    · exact .opened task hopn
  | admitCommand evId tid pid surface cid input allowNew =>
    obtain ⟨⟨_, _⟩, hop, rfl⟩ := map_ok h
    obtain ⟨task, htask, rfl, rfl, hadm⟩ := admitCommand_ok hop
    exact .submitted evId allowNew htask hadm
  | admitAgentMessage evId nid senderCards destination message =>
    obtain ⟨⟨_, _⟩, hop, rfl⟩ := map_ok h
    exact .messaged evId senderCards destination (admitAgentMessage_ok hop)
  | appendExecutionEvents newId rid tid cid evs replier =>
    obtain ⟨⟨_, _⟩, hop, rfl⟩ := map_ok h
    obtain ⟨mid, hbat, hrep⟩ := appendExecutionEvents_ok hc hop
    exact .batch newId rid mid hbat hrep
  | acknowledgeExecution nid tid cid => exact .quiet (acknowledgeExecution_quiet h)
  | admitStop tid cid =>
    obtain ⟨⟨_, _⟩, hop, rfl⟩ := map_ok h
    exact .quiet (admitStop_quiet hop)
  | acknowledgeStop nid tid cid => exact .quiet (acknowledgeStop_quiet h)
  | deleteTask pid tid =>
    rcases deleteTask_ok h with hdb | ⟨hdb, htask, hdone⟩
    · exact .quiet (hdb ▸ .refl db)
    · exact .deleted htask hdone hdb

/-- A transaction adds to the database, or deletes one task. -/
theorem Transaction.commit_grown : Relation.ReflTransGen Grown db db' ∨
      ∃ pid tid, transaction = .deleteTask pid tid ∧
        db' = db.removeTask tid := by
  cases transaction.commit_committed hc h with
  | quiet hquiet => exact .inl hquiet.grown
  | opened task hopn => exact .inl (.single (.opened task hopn))
  | submitted _ _ _ hadm | messaged _ _ _ hadm => exact .inl hadm.grown
  | batch _ _ _ hbat hrep =>
    exact .inl ((Relation.ReflTransGen.single (.batch _ _ _ _ hbat)).trans hrep.grown)
  | deleted _ _ hdb => exact .inr ⟨_, _, rfl, hdb⟩

theorem Transaction.consistent_commit : Consistent db' := by
  rcases commit_grown hc h with hgrown | ⟨_, tid, _, rfl⟩
  · exact consistent_of_grown hgrown hc
  · exact consistent_removeTask hc

end

theorem Database.consistent_apply (ids : DerivedIds) (hc : Consistent db)
    (transaction : Transaction V) :
    Consistent (db.apply ids transaction) := by
  unfold apply
  cases h : transaction.commit ids db with
  | error e => exact hc
  | ok db' => exact transaction.consistent_commit hc h

/-- What every committed transaction keeps holds after every run. -/
theorem Database.runAll_induction (hc : Consistent db) (hst : motive db) (hstep : ∀ (db :
      Database V) (transaction : Transaction V) (db' : Database V), Consistent db → motive db →
      transaction.commit ids db = .ok db' → motive db') (transactions : List (Transaction V)) :
    motive (db.runAll ids transactions) := by
  refine (List.foldlRecOn (motive := fun db => Consistent db ∧ motive db) transactions (apply ids)
    ⟨hc, hst⟩ fun db h transaction _ => ⟨consistent_apply ids h.1 transaction, ?_⟩).2
  unfold apply
  cases hcom : transaction.commit ids db with
  | error e => exact h.2
  | ok db' => exact hstep db transaction db' h.1 h.2 hcom

theorem Database.consistent_runAll (ids : DerivedIds) (hc : Consistent db)
    (transactions : List (Transaction V)) : Consistent (db.runAll ids transactions) :=
  runAll_induction hc hc (fun _ transaction _ hc _ h => transaction.consistent_commit hc h)
    transactions

theorem Database.consistent_reached (ids : DerivedIds) (history : List (Transaction V)) :
    Consistent (Database.reached ids history) := consistent_runAll ids consistent_empty history

theorem Database.reached_append (history later : List (Transaction V)) :
    Database.reached ids (history ++ later) = (Database.reached ids history).runAll ids later :=
  foldl_append

/-- Every transaction of the run meets a condition on it and the database before it. -/
def Database.RunMeets (ids : DerivedIds) (condition : Database V → Transaction V → Prop) :
    Database V → List (Transaction V) → Prop
  | _, [] => True
  | db, transaction :: rest =>
    condition db transaction ∧ RunMeets ids condition (db.apply ids transaction) rest

/-- What every committed transaction that meets a condition keeps holds after every run whose
transactions meet it. -/
theorem Database.runMeets_induction {condition : Database V → Transaction V → Prop}
    (hc : Consistent db) (hst : motive db) (hstep : ∀ (db : Database V) (transaction :
      Transaction V) (db' : Database V), Consistent db → motive db → condition db transaction →
      Committed ids db db' transaction → motive db')
    (hmeets : db.RunMeets ids condition transactions) : motive (db.runAll ids transactions) := by
  induction transactions generalizing db with
  | nil => exact hst
  | cons transaction rest ih =>
    refine ih (consistent_apply ids hc transaction) ?_ hmeets.2
    unfold apply
    cases hcom : transaction.commit ids db with
    | error e => exact hst
    | ok db' =>
      exact hstep db transaction db' hc hst hmeets.1 (transaction.commit_committed hc hcom)

/-- The transaction deletes the task. -/
def Transaction.Deletes (taskId : TaskId) : Transaction V → Prop
  | .deleteTask _ deleted => deleted = taskId
  | _ => False

theorem Transaction.keepsTask_commit (hc : Consistent db) (h : transaction.commit ids db = .ok db')
    (hkept : ¬ transaction.Deletes tid) : KeepsTask tid db db' := by
  rcases commit_grown hc h with hgrown | ⟨_, deleted, rfl, rfl⟩
  · exact keepsTask_of_grown hgrown tid
  · exact keepsTask_removeTask fun heq => hkept heq.symm

theorem Database.keepsTask_runAll (hc : Consistent db)
    (hkept : ∀ t ∈ transactions, ¬ t.Deletes tid) :
    KeepsTask tid db (db.runAll ids transactions) := by
  induction transactions generalizing db with
  | nil => exact keepsTask_refl tid db
  | cons transaction rest ih =>
    have hrest := ih (consistent_apply ids hc transaction)
      fun t ht => hkept t (mem_cons_of_mem _ ht)
    refine KeepsTask.trans ?_ hrest
    unfold apply
    cases h : transaction.commit ids db with
    | error e => exact keepsTask_refl tid db
    | ok db' => exact transaction.keepsTask_commit hc h (hkept transaction mem_cons_self)

end

end Renoa.Control
