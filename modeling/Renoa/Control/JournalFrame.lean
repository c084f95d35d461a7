import Renoa.Control.Acceptance
import Renoa.Control.Isolation

/-!
# What a transaction leaves of a command

The journal of a command and its place in a task change in two ways only: a batch of that command
is taken in, or its task is deleted. `Unaffected` collects what every other transaction keeps of
the command. `runsAt` says that the command stands in a task of a node, and `journalAt` is its
journal as far as that node wrote it.
-/

namespace Renoa.Control

open Foundation Protocol List Database

variable {V : Type} {db db' : Database V} {ids : DerivedIds} {task : TaskSpec} {tid : TaskId}
  {command : CommandEnvelope} {adm : ExecutionEventAdmission V} {nid : NodeId}
  {cause cid : CommandId} {evs : List (ExecutionEvent V)} {tx : Transaction V}
  {reply : Option (AgentReply V)} {appended : List (TaskEvent V)} {message : OutgoingMessage}
  {ev : ExecutionEvent V}

/-! ## Journals -/

theorem OpenedTask.journalOf_eq (h : OpenedTask db db' task) (cid : CommandId) :
    db'.journalOf cid = db.journalOf cid :=
  journalOf_congr (congrArg Table.rows h.taskEvents_eq) cid

theorem AdmittedCommand.journalOf_eq {adm : CommandAdmission V}
    (h : AdmittedCommand db db' tid command adm) (cid : CommandId) :
    db'.journalOf cid = db.journalOf cid := by
  cases h with
  | notAdmitted _ hdb | existing _ _ _ hdb => rw [hdb]
  | admitted row h => exact h.journalOf_eq cid

theorem OpenedThread.journalOf_eq (h : OpenedThread db db' task) (cid : CommandId) :
    db'.journalOf cid = db.journalOf cid := by
  rcases h with hopn | ⟨rfl, _⟩
  · exact hopn.journalOf_eq cid
  · rfl

theorem AdmittedMessage.journalOf_eq {adm : MessageAdmission V}
    (h : AdmittedMessage ids db db' nid message adm) (cid : CommandId) :
    db'.journalOf cid = db.journalOf cid := by
  cases h with
  | existing _ _ _ _ hdb => rw [hdb]
  | admitted _ _ mid row hthr h => rw [h.journalOf_eq cid, hthr.journalOf_eq cid]

theorem AdmittedReply.journalOf_eq {replier : String}
    (h : AdmittedReply ids db db' tid cause appended replier reply) (cid : CommandId) :
    db'.journalOf cid = db.journalOf cid := by
  cases h with
  | unended _ hdb | unasked _ _ _ hdb => rw [hdb]
  | answered record _ _ _ _ _ _ h => exact h.journalOf_eq cid

/-- A batch is journalled behind what its command has. -/
theorem JournalledBatch.journalOf_append (h : JournalledBatch db db' tid cause evs adm)
    (cid : CommandId) :
    ∃ new, db'.journalOf cid = db.journalOf cid ++ new ∧
      (cid ≠ cause → new = []) := by
  obtain ⟨rows, hrows, _, hkinds⟩ := h.rows
  refine ⟨rows.filterMap fun row => row.kind.eventOf? cid, ?_, ?_⟩
  · rw [journalOf_eq, hrows, filterMap_append, ← journalOf_eq]
  · intro hne
    refine filterMap_eq_nil_iff.mpr fun row hrow => ?_
    obtain ⟨_, ev, hkind⟩ := hkinds row hrow
    rw [hkind]
    exact if_neg fun heq => hne heq.symm

theorem JournalledBatch.mem_journalOf (h : JournalledBatch db db' tid cause evs adm)
    (hev : ev ∈ db'.journalOf cid) :
    ev ∈ db.journalOf cid ∨ (cid = cause ∧ ev ∈ evs) := by
  obtain ⟨row, hrow, hkind⟩ := Database.mem_journalOf.mp hev
  rcases h.new row hrow with hold | ⟨other, hoth, hnew⟩
  · exact .inl (Database.mem_journalOf.mpr ⟨row, hold, hkind⟩)
  · rw [hkind, TaskEventKind.executionEvent.injEq] at hnew
    exact .inr ⟨hnew.1, hnew.2 ▸ hoth⟩

theorem Consistent.cursorOf_eq (hc : Consistent db) (cid : CommandId) :
    db.cursorOf cid = (db.journalOf cid).length := by
  have hstr := hc.journal.streams cid
  unfold Database.cursorOf
  cases hfind : db.executionEventStreams.find? cid with
  | none =>
    rw [hfind] at hstr
    rw [show db.journalOf cid = [] from hstr]
    rfl
  | some stream =>
    rw [hfind] at hstr
    exact (OpenStream.length_eq hstr).symm

/-- Only batches are journalled. -/
theorem Committed.mem_journalOf [JsonText V] (h : Committed ids db db' tx) (hbat : ∀
      newId rid tid cause evs replier, tx ≠ .appendExecutionEvents newId
      rid tid cause evs replier) (hev : ev ∈ db'.journalOf cid) :
    ev ∈ db.journalOf cid := by
  cases h with
  | quiet h => rwa [journalOf_congr (congrArg Table.rows h.events)] at hev
  | opened _ h | submitted _ _ _ h | messaged _ _ _ h => rwa [h.journalOf_eq] at hev
  | batch newId rid => exact absurd rfl (hbat newId rid _ _ _ _)
  | deleted _ _ hdb =>
    subst hdb
    obtain ⟨row, hrow, hkind⟩ := mem_journalOf.mp hev
    exact mem_journalOf.mpr ⟨row, (mem_taskEvents_removeTask.mp hrow).1, hkind⟩

/-! ## Where a command runs -/

/-- The command stands in the task, and the task runs on the node. -/
def Database.runsAt (db : Database V) (nodeId : NodeId) (taskId : TaskId) (commandId : CommandId) :
    Bool :=
  db.commandOf taskId commandId && (db.tasks.find? taskId).any fun task => task.nodeId = nodeId

theorem Database.runsAt_iff : db.runsAt nid tid cid = true ↔
    (∃ c ∈ db.commands, c.commandId = cid ∧ c.taskId = tid) ∧
      ∃ t ∈ db.tasks, t.taskId = tid ∧ t.nodeId = nid := by
  unfold runsAt commandOf
  simp only [Bool.and_eq_true, Option.any_eq_true, decide_eq_true_eq]
  refine and_congr ⟨?_, ?_⟩ ⟨?_, ?_⟩
  · rintro ⟨c, hfind, htask⟩
    exact ⟨c, Table.mem_of_find? hfind, Table.key_of_find? hfind, htask⟩
  · rintro ⟨c, hmem, rfl, htask⟩
    exact ⟨c, Table.find?_of_mem hmem, htask⟩
  · rintro ⟨t, hfind, hnode⟩
    exact ⟨t, Table.mem_of_find? hfind, Table.key_of_find? hfind, hnode⟩
  · rintro ⟨t, hmem, rfl, hnode⟩
    exact ⟨t, Table.find?_of_mem hmem, hnode⟩

/-- A command runs in one place. -/
theorem Database.runsAt_unique {other : NodeId} {tid' : TaskId}
    (h : db.runsAt nid tid cid = true) (h' : db.runsAt other tid' cid = true) :
    nid = other ∧ tid = tid' := by
  obtain ⟨⟨c, hc, hid, rfl⟩, t, ht, htask, rfl⟩ := runsAt_iff.mp h
  obtain ⟨⟨c', hc', hid', rfl⟩, t', ht', htask', rfl⟩ := runsAt_iff.mp h'
  obtain rfl := Table.key_inj hc hc' (hid.trans hid'.symm)
  obtain rfl := Table.key_inj ht ht' (htask.trans htask'.symm)
  exact ⟨rfl, rfl⟩

/-- A command with a journal runs somewhere. -/
theorem Consistent.exists_runsAt (hc : Consistent db) (h : db.journalOf cid ≠ []) :
    ∃ nid tid, db.runsAt nid tid cid = true := by
  obtain ⟨ev, hev⟩ := exists_mem_of_ne_nil _ h
  obtain ⟨r, hr, hkind⟩ := Database.mem_journalOf.mp hev
  obtain ⟨c, hmem, hid, _⟩ := hc.journal.cause r hr
  obtain ⟨t, ht, htask⟩ := hc.journal.command_task c hmem
  rw [hkind] at hid
  exact ⟨t.nodeId, c.taskId, runsAt_iff.mpr ⟨⟨c, hmem, hid, rfl⟩, t, ht, htask, rfl⟩⟩

/-- The journal of the command, if it runs in the task on the node. -/
def Database.journalAt (db : Database V) (nodeId : NodeId) (commandId : CommandId)
    (taskId : TaskId) : List (ExecutionEvent V) :=
  if db.runsAt nodeId taskId commandId then db.journalOf commandId else []

/-! ## Transactions that do not concern the command -/

/-- What a transaction that does not concern the command keeps of it. -/
structure Unaffected (commandId : CommandId) (db db' : Database V) : Prop where
  keeps : ∀ row ∈ db.commands, row.commandId = commandId → KeepsTask row.taskId db db'
  journal : db'.journalOf commandId = db.journalOf commandId

theorem Database.runsAt_of_keeps (hkp : ∀ row ∈ db.commands, row.commandId = cid →
    KeepsTask row.taskId db db') (h : db.runsAt nid tid cid = true) :
    db'.runsAt nid tid cid = true := by
  obtain ⟨⟨c, hc, hid, rfl⟩, t, ht, htask, hnode⟩ := runsAt_iff.mp h
  obtain ⟨t', ht', htask', _, hnode', _⟩ := (hkp c hc hid).task t ht htask
  exact runsAt_iff.mpr ⟨⟨c, (hkp c hc hid).command c hc rfl, hid, rfl⟩,
    t', ht', htask'.trans htask, hnode'.trans hnode⟩

/-- A command that is admitted meanwhile has no journal yet. -/
theorem Unaffected.journalAt_eq (h : Unaffected cid db db') (hc : Consistent db) (nid : NodeId) :
    db'.journalAt nid cid = db.journalAt nid cid := by
  funext tid
  unfold Database.journalAt
  rw [h.journal]
  by_cases hjnl : db.journalOf cid = []
  · rw [hjnl, ite_self, ite_self]
  · obtain ⟨home, own, hold⟩ := hc.exists_runsAt hjnl
    have hnew := runsAt_of_keeps h.keeps hold
    have hsame : db'.runsAt nid tid cid = db.runsAt nid tid cid := by
      rw [Bool.eq_iff_iff]
      constructor <;> intro hruns
      · obtain ⟨rfl, rfl⟩ := runsAt_unique hruns hnew
        exact hold
      · obtain ⟨rfl, rfl⟩ := runsAt_unique hruns hold
        exact hnew
    rw [hsame]

theorem unaffected_refl (cid : CommandId) (db : Database V) : Unaffected cid db db :=
  ⟨fun _ _ _ => keepsTask_refl _ db, rfl⟩

/-- The transaction deletes the task of the command. -/
def Transaction.DeletesCommand (db : Database V) (commandId : CommandId) : Transaction V → Prop
  | .deleteTask principalId taskId =>
    db.commandOf taskId commandId = true ∧ ∃ db', db.deleteTask principalId taskId = .ok db'
  | _ => False

/-- **A transaction that takes in no batch and does not delete the command's task leaves the command
as it is.** -/
theorem Committed.unaffected [JsonText V] (h : Committed ids db db' tx) (hc : Consistent db)
    (hbat : ∀ newId rid tid cause evs replier, tx ≠ .appendExecutionEvents
      newId rid tid cause evs replier)
    (hkept : ∀ pid tid, tx = .deleteTask pid tid → db.commandOf tid cid = false) :
    Unaffected cid db db' := by
  cases h with
  | quiet h =>
    exact ⟨fun row _ _ => keepsTask_of_grown h.grown row.taskId,
      journalOf_congr (congrArg Table.rows h.events) cid⟩
  | opened task h => exact ⟨fun row _ _ => h.keepsTask row.taskId, h.journalOf_eq cid⟩
  | submitted _ _ _ h | messaged _ _ _ h =>
    exact ⟨fun row _ _ => keepsTask_of_grown h.grown row.taskId, h.journalOf_eq cid⟩
  | batch newId rid => exact absurd rfl (hbat newId rid _ _ _ _)
  | @deleted pid tid _ _ hdb =>
    subst hdb
    have hoth := hkept pid tid rfl
    refine ⟨fun row hrow hid => keepsTask_removeTask ?_, journalOf_removeTask_kept hc hoth⟩
    have hof : db.commandOf tid row.commandId = _ := commandOf_of_mem hrow
    rw [hid, hoth] at hof
    exact of_decide_eq_false hof.symm

theorem Database.apply_unaffected [JsonText V] (ids : DerivedIds) (hc : Consistent db)
    (hbat : ∀ newId rid tid cause evs replier, tx ≠ .appendExecutionEvents
      newId rid tid cause evs replier) (hkept : ¬ tx.DeletesCommand db cid) :
    Unaffected cid db (db.apply ids tx) := by
  unfold Database.apply
  cases hcom : tx.commit ids db with
  | error _ => exact unaffected_refl cid db
  | ok db' =>
    refine (Transaction.commit_committed hc hcom).unaffected hc hbat ?_
    rintro pid tid rfl
    by_contra hof
    exact hkept ⟨by simpa using hof, db', hcom⟩

end Renoa.Control
