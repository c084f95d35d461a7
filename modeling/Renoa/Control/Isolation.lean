import Renoa.Control.Answering

/-!
# Answers and principals

The asking command of a request is found again by its identity when the answer is admitted. While
every command that is admitted under an identity some stored request names as its asker belongs to
the request's principal (`AsksOwn`), each request and its asking command are of one principal
(`AskedByOwner`), and so no answer is admitted in another principal's task (`reply_same_principal`).
A deletion that frees the identity of the asking command for another principal breaks this
(`reply_crosses_principals`).
-/

namespace Renoa.Control

open Foundation Protocol Table Database

variable {V : Type} {db db' : Database V} {task : TaskRow} {tid : TaskId}
  {cmd : CommandEnvelope}

/-- The principal that owns a task. -/
def Database.principalOf (db : Database V) (taskId : TaskId) : Option PrincipalId :=
  (db.tasks.find? taskId).map TaskRow.principalId

/-- The command a transaction would admit, and the principal of the task it would stand in. -/
def Transaction.admits (ids : DerivedIds) (db : Database V) :
    Transaction V → Option (CommandId × Option PrincipalId)
  | .admitCommand _ _ principalId _ commandId _ _ => some (commandId, some principalId)
  | .admitAgentMessage _ nodeId _ _ message => some (message.messageId, db.nodeOwner nodeId)
  | .appendExecutionEvents _ _ _ commandId _ _ =>
    (db.askingOf? commandId).map fun asking => (ids.replyId commandId, db.principalOf asking.taskId)
  | _ => none

/-- A command that is newly admitted under the identity a stored request names as its asker belongs
to the request's principal. -/
def AsksOwn (ids : DerivedIds) (db : Database V) (transaction : Transaction V) : Prop :=
  ∀ commandId principal, transaction.admits ids db = some (commandId, principal) →
    db.commands.find? commandId = none →
    ∀ c ∈ db.commands, ∀ origin, c.command.request? = some origin →
      origin.fromCommand = commandId → db.principalOf c.taskId = principal

/-- Every request is of the same principal as the command stored as its asker. -/
def AskedByOwner (db : Database V) : Prop :=
  ∀ c ∈ db.commands, ∀ origin, c.command.request? = some origin →
    ∀ asking ∈ db.commands, asking.commandId = origin.fromCommand →
      db.principalOf c.taskId = db.principalOf asking.taskId

/-! ## One step -/

theorem Database.principalOf_of_mem (h : task ∈ db.tasks) :
    db.principalOf task.taskId = some task.principalId := by
  unfold principalOf
  rw [find?_of_mem h]
  rfl

/-- A task that stands keeps its principal. -/
theorem KeepsTask.principalOf (h : KeepsTask tid db db')
    (hstand : ∃ task ∈ db.tasks, task.taskId = tid) :
    db'.principalOf tid = db.principalOf tid := by
  obtain ⟨task, htask, rfl⟩ := hstand
  obtain ⟨task', htask', hid, hprin, _⟩ := h.task task htask rfl
  rw [principalOf_of_mem htask, ← hid, principalOf_of_mem htask', hprin]

/-- A step that adds one command keeps requests and askers of one principal, if the command does
not come between a request and its asker, and is of its own asker's principal. -/
theorem AskedByOwner.insert (h : AskedByOwner db) (hc : Consistent db)
    (hkp : ∀ tid, KeepsTask tid db db') {new : CommandRow}
    (hrows : db'.commands.rows = db.commands.rows ++ [new])
    (hnamed : ∀ c ∈ db.commands, ∀ origin, c.command.request? = some origin →
      origin.fromCommand = new.commandId → db.principalOf c.taskId = db'.principalOf new.taskId)
    (hnaming : ∀ origin, new.command.request? = some origin →
      ∀ asking ∈ db'.commands, asking.commandId = origin.fromCommand →
        db'.principalOf new.taskId = db'.principalOf asking.taskId) :
    AskedByOwner db' := by
  have hmem : ∀ c ∈ db'.commands, c ∈ db.commands ∨ c = new := fun _ => (mem_concat hrows).mp
  have hsame : ∀ c ∈ db.commands, db'.principalOf c.taskId = db.principalOf c.taskId :=
    fun c hcmem => (hkp c.taskId).principalOf (hc.journal.command_task c hcmem)
  intro c hcmem origin horig asking hask hid
  rcases hmem c hcmem with hold | rfl
  · rw [hsame c hold]
    rcases hmem asking hask with holdAsking | rfl
    · rw [hsame asking holdAsking]
      exact h c hold origin horig asking holdAsking hid
    · exact hnamed c hold origin horig hid.symm
  · exact hnaming origin horig asking hask hid

/-- A step that adds no command keeps requests and askers of one principal. -/
theorem AskedByOwner.mono (h : AskedByOwner db) (hcmds : ∀ c ∈ db'.commands, c ∈ db.commands)
    (hsame : ∀ c ∈ db'.commands, db'.principalOf c.taskId = db.principalOf c.taskId) :
    AskedByOwner db' := by
  intro c hcmem origin horig asking hask hid
  rw [hsame c hcmem, hsame asking hask]
  exact h c (hcmds c hcmem) origin horig asking (hcmds asking hask) hid

/-- An answer asks for none itself. -/
theorem Database.replyCommand_request? (ids : DerivedIds) (tid : TaskId)
    (cid : CommandId) (replier : String) (terminal : ExecutionTerminal)
    (origin : AgentOrigin) (asking : CommandEnvelope) (asker task : TaskRow) :
    (db.replyCommand ids tid cid replier terminal origin asking asker task).request? =
      none := by
  cases terminal <;> rfl

theorem InsertedCommand.principalOf {row : TaskEventRow V}
    (h : InsertedCommand db db' tid cmd row) (htask : task ∈ db.tasks) :
    db'.principalOf task.taskId = some task.principalId := by
  rw [(h.keepsTask task.taskId).principalOf ⟨task, htask, rfl⟩, principalOf_of_mem htask]

variable {ids : DerivedIds} {tx : Transaction V}

theorem AskedByOwner.submitted (h : AskedByOwner db) (hc : Consistent db) (htask : task ∈ db.tasks)
    (horig : cmd.origin = none) {adm : CommandAdmission V}
    (hadm : AdmittedCommand db db' task.taskId cmd adm) (hown : db.commands.find?
      cmd.commandId = none → ∀ c ∈ db.commands, ∀ origin, c.command.request? = some origin →
      origin.fromCommand = cmd.commandId → db.principalOf c.taskId = some task.principalId) :
    AskedByOwner db' := by
  have hkp := keepsTask_of_grown hadm.grown
  cases hadm with
  | notAdmitted _ hdb | existing _ _ _ hdb =>
    rw [hdb]
    exact h
  | admitted row hins =>
    refine h.insert hc hkp hins.commands (fun c hcmem origin hreq hid => ?_) ?_
    · rw [hins.principalOf htask]
      exact hown (find?_eq_none.mpr hins.fresh) c hcmem origin hreq hid
    · intro origin hreq
      rw [CommandEnvelope.request?, horig] at hreq
      cases hreq

theorem OpenedThread.commands_eq {task : TaskSpec} (h : OpenedThread db db' task) :
    db'.commands = db.commands := by
  rcases h with h | ⟨rfl, _⟩
  · exact h.commands_eq
  · rfl

section

variable (h : AskedByOwner db) (hc : Consistent db)

include h hc

theorem AskedByOwner.messaged {nid : NodeId} {msg : OutgoingMessage} {adm : MessageAdmission V}
    (hadm : AdmittedMessage ids db db' nid msg adm)
    (hown : db.commands.find? msg.messageId = none → ∀ c ∈ db.commands, ∀ origin,
      c.command.request? = some origin → origin.fromCommand = msg.messageId → db.principalOf
      c.taskId = db.nodeOwner nid) : AskedByOwner db' := by
  have hkp := keepsTask_of_grown hadm.grown
  cases hadm with
  | existing _ _ _ _ hdb =>
    rw [hdb]
    exact h
  | @admitted pid source asking depth task hrte name mid row hthr hins =>
    obtain ⟨t, ht, htid, htprincipal, _⟩ := hthr.exists_task
    have hthreadPrincipal : db'.principalOf task.taskId = some pid := by
      rw [← htid, hins.principalOf ht, htprincipal, hrte.task_eq]
    have hrows := hins.commands
    have hfsh := hins.fresh
    rw [hthr.commands_eq] at hrows hfsh
    refine h.insert hc hkp hrows (fun c hcmem origin hreq hid => ?_) ?_
    · rw [hthreadPrincipal, ← hrte.owner]
      exact hown (find?_eq_none.mpr hfsh) c hcmem origin hreq hid
    · -- The asking command stood in a task of the node's owner before the message.
      intro origin hreq other hoth hid
      cases hreq
      have hask : asking ∈ db'.commands := (hkp asking.taskId).command asking hrte.asking_mem rfl
      obtain rfl : other = asking := key_inj hoth hask (hid.trans hrte.asking_id.symm)
      rw [hthreadPrincipal, hrte.asking_task,
        (hkp source.taskId).principalOf ⟨source, hrte.source_mem, rfl⟩,
        principalOf_of_mem hrte.source_mem, hrte.source_principal]

theorem AskedByOwner.replied {cid : CommandId} {appended : List (TaskEvent V)}
    {replier : String} {reply : Option (AgentReply V)}
    (hrep : AdmittedReply ids db db' tid cid appended replier reply)
    (hown : ∀ asking, db.askingOf? cid = some asking → db.commands.find? (ids.replyId
      cid) = none → ∀ c ∈ db.commands, ∀ origin, c.command.request? = some origin →
      origin.fromCommand = ids.replyId cid → db.principalOf c.taskId = db.principalOf
      asking.taskId) : AskedByOwner db' := by
  have hkp := keepsTask_of_grown hrep.grown
  cases hrep with
  | unended _ hdb | unasked _ _ _ hdb =>
    rw [hdb]
    exact h
  | @answered row asking origin terminal asker task record _ hrow hreq hask hasker _
      hins =>
      have hasked : db.askingOf? cid = some asking := by simp [Database.askingOf?, hrow, hreq, hask]
      refine h.insert hc hkp hins.commands (fun c hcmem other hoth hid => ?_) ?_
      · rw [(hkp asking.taskId).principalOf ⟨asker, mem_of_find? hasker, key_of_find? hasker⟩]
        exact hown asking hasked (find?_eq_none.mpr hins.fresh) c hcmem other hoth hid
      · intro other hoth
        rw [replyCommand_request?] at hoth
        cases hoth

theorem AskedByOwner.committed (hown : AsksOwn ids db tx)
    (hcomm : Committed ids db db' tx) : AskedByOwner db' := by
  cases hcomm with
  | quiet hquiet =>
    refine h.mono (fun c hcmem => hquiet.commands ▸ hcmem) fun c _ => ?_
    unfold Database.principalOf
    rw [hquiet.tasks]
  | opened task hopn =>
    refine h.mono (fun c hcmem => hopn.commands_eq ▸ hcmem) fun c hcmem => ?_
    rw [hopn.commands_eq] at hcmem
    exact (hopn.keepsTask c.taskId).principalOf (hc.journal.command_task c hcmem)
  | submitted _ _ htask hadm => exact h.submitted hc htask rfl hadm fun hfsh => hown _ _ rfl hfsh
  | messaged _ _ _ hadm => exact h.messaged hc hadm fun hfsh => hown _ _ rfl hfsh
  | @batch newId rid tid cid evs replier adm mid hbat hrep =>
    have hsame : ∀ c ∈ db.commands, mid.principalOf c.taskId = db.principalOf c.taskId :=
      fun c hcmem => (hbat.keeps c.taskId).principalOf (hc.journal.command_task c hcmem)
    have hmid : AskedByOwner mid :=
      h.mono (fun c hcmem => hbat.commands_eq ▸ hcmem)
        fun c hcmem => hsame c (hbat.commands_eq ▸ hcmem)
    refine hmid.replied hbat.consistent hrep fun asking hask hfsh => ?_
    rw [askingOf?_congr hbat.commands_eq] at hask
    rw [hbat.commands_eq] at hfsh ⊢
    intro c hcmem origin hreq hid
    rw [hsame c hcmem, hsame asking (askingOf?_mem hask)]
    refine hown _ _ ?_ hfsh c hcmem origin hreq hid
    simp [Transaction.admits, hask]
  | deleted _ _ hdb =>
    subst hdb
    refine h.mono (fun c hcmem => (mem_commands_removeTask.mp hcmem).1) fun c hcmem => ?_
    obtain ⟨hcmem, hne⟩ := mem_commands_removeTask.mp hcmem
    exact (keepsTask_removeTask hne).principalOf (hc.journal.command_task c hcmem)

end

/-! ## Every run -/

section

variable [JsonText V]

omit [JsonText V] in
theorem askedByOwner_empty : AskedByOwner (Database.empty : Database V) :=
  fun _ hc => absurd hc List.not_mem_nil

/-- **No answer crosses principals**: in every run whose admissions respect the principals of the
requests that name them, an answer is admitted in a task of the principal that owns the task of the
request. -/
theorem reply_same_principal (ids : DerivedIds) (history : List (Transaction V))
    (hmeets : Database.empty.RunMeets ids (AsksOwn ids) history) (newId : Nat → TaskEventId)
    (replyEventId : TaskEventId) (taskId : TaskId) (commandId : CommandId)
    (events : List (ExecutionEvent V)) (replier : String) (admission : ExecutionEventAdmission V)
    (db' : Database V) (reply : AgentReply V)
    (hok : (Database.reached ids history).appendExecutionEvents ids newId replyEventId taskId
      commandId events replier = .ok (admission, db'))
    (hreply : admission.reply = some reply) :
    ∃ principalId, (Database.reached ids history).principalOf taskId = some principalId ∧
      db'.principalOf taskId = some principalId ∧
      db'.principalOf reply.taskId = some principalId := by
  have hc := consistent_reached ids history
  have howner : AskedByOwner (Database.reached ids history) :=
    runMeets_induction consistent_empty askedByOwner_empty
      (fun _ _ _ hc h hown hcommitted => h.committed hc hown hcommitted) hmeets
  obtain ⟨mid, hbatch, hadmitted⟩ := appendExecutionEvents_ok hc hok
  have hkeeps : ∀ taskId, KeepsTask taskId (Database.reached ids history) db' :=
    fun taskId => (hbatch.keeps taskId).trans (keepsTask_of_grown hadmitted.grown taskId)
  rw [hreply] at hadmitted
  cases hadmitted with
  | @answered row asking origin terminal asker task record _ hrow hrequest hasking hasker _
      hinserted =>
      rw [hbatch.commands_eq] at hrow hasking
      obtain ⟨c, hcmem, hid, htask⟩ := hbatch.command
      obtain rfl : row = c := key_inj (mem_of_find? hrow) hcmem ((key_of_find? hrow).trans hid.symm)
      have hasked := mem_of_find? hasking
      have hsame := howner row hcmem origin hrequest asking hasked (key_of_find? hasking)
      obtain ⟨request, hstands, hrequestId⟩ := hc.journal.command_task row hcmem
      have hprincipal := principalOf_of_mem hstands
      rw [hrequestId, htask] at hprincipal
      rw [htask, hprincipal] at hsame
      refine ⟨request.principalId, hprincipal, ?_, ?_⟩
      · rw [(hkeeps taskId).principalOf ⟨request, hstands, hrequestId.trans htask⟩, hprincipal]
      · rw [(hkeeps asking.taskId).principalOf (hc.journal.command_task asking hasked), ← hsame]

end

theorem asksOwn_of_no_request {ids : DerivedIds} {tx : Transaction V}
    (h : ∀ c ∈ db.commands.rows, c.command.request? = none) : AsksOwn ids db tx := by
  intro _ _ _ _ c hc origin hreq
  rw [h c hc] at hreq
  cases hreq

theorem reply_same_principal_asked :
    ∃ (db' : Database Unit) (reply : AgentReply Unit) (principalId : PrincipalId),
      answeringBatch.reply? offsetIds (Database.reached offsetIds askedHistory) = some reply ∧
      (Database.reached offsetIds askedHistory).principalOf ⟨50⟩ = some principalId ∧
      db'.principalOf reply.taskId = some principalId := by
  have hmeets : Database.empty.RunMeets offsetIds (AsksOwn offsetIds) askedHistory :=
    ⟨asksOwn_of_no_request (by decide), asksOwn_of_no_request (by decide),
      asksOwn_of_no_request (by decide), asksOwn_of_no_request (by decide), trivial⟩
  have hsome : (answeringBatch.reply? offsetIds
      (Database.reached offsetIds askedHistory)).isSome = true := by decide
  obtain ⟨reply, hreply⟩ := Option.isSome_iff_exists.mp hsome
  cases hop : (Database.reached offsetIds askedHistory).appendExecutionEvents offsetIds
      (fun n => ⟨n + 2⟩) ⟨4⟩ ⟨50⟩ ⟨2⟩ (wholeExecution ⟨0⟩) "Reader" with
  | error e => simp [answeringBatch, Transaction.reply?, hop] at hreply
  | ok committed =>
    have hadmitted : committed.1.reply = some reply := by
      simpa [answeringBatch, Transaction.reply?, hop] using hreply
    obtain ⟨principalId, hrequest, _, hanswer⟩ := reply_same_principal offsetIds askedHistory
      hmeets _ _ _ _ _ _ committed.1 committed.2 reply hop hadmitted
    exact ⟨committed.2, reply, principalId, hreply, hrequest, hanswer⟩

/-- The writer's task is deleted once its command has ended, and another principal submits a
command under the identity of the deleted one. -/
def reusedHistory : List (Transaction Unit) :=
  askedHistory ++
    [.appendExecutionEvents (fun n => ⟨n + 10⟩) ⟨20⟩ ⟨1⟩ ⟨1⟩ (wholeExecution ⟨7⟩) "Writer",
      .deleteTask ⟨0⟩ ⟨1⟩, .createNodeEnrollment ⟨1⟩ ⟨1⟩, .createTask ⟨⟨3⟩, ⟨1⟩, ⟨1⟩, writer⟩,
      .admitCommand ⟨30⟩ ⟨3⟩ ⟨1⟩ ⟨"web"⟩ ⟨1⟩ (.fromText "Hello.") true]

/-- The answer to the first principal's request is admitted in the second principal's task. -/
theorem reply_crosses_principals :
    (Database.reached offsetIds reusedHistory).principalOf ⟨50⟩ = some ⟨0⟩ ∧
      (answeringBatch.reply? offsetIds (Database.reached offsetIds reusedHistory)).map
        (fun reply => (reply.command.origin.map AgentOrigin.fromCommand, reply.taskId)) =
          some (some ⟨2⟩, ⟨3⟩) ∧
      (Database.reached offsetIds (reusedHistory ++ [answeringBatch])).principalOf ⟨3⟩ =
        some ⟨1⟩ := by
  decide

end Renoa.Control
