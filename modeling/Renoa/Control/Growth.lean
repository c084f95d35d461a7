import Renoa.Control.Streams

/-!
# What a transaction of the coordinator does

Apart from a deletion, a transaction is made of a few changes that only add to the continuity
tables: `Grown` lists them. Each keeps the database consistent and every task standing. A deletion
removes one task with everything that refers to it.
-/

namespace Renoa.Control

open Foundation Protocol List Table Database

variable {V : Type} {db db' : Database V} {c : CommandRow} {cid : CommandId}
  {cursor : CommandId → Option ExecutionEventStreamRow}

/-! ## New commands and tasks -/

namespace InsertedCommand

variable {tid : TaskId} {command : CommandEnvelope} {row : TaskEventRow V}

section

variable (h : InsertedCommand db db' tid command row)

include h

theorem mem_commands : c ∈ db'.commands ↔ c ∈ db.commands ∨ c = ⟨command.commandId, tid, command⟩ :=
  mem_concat h.commands

theorem streams_eq : db'.executionEventStreams = db.executionEventStreams := h.journalled.streams_eq

/-- The record of the submission is no event of an execution. -/
theorem journalOf_eq (cid : CommandId) : db'.journalOf cid = db.journalOf cid := by
  rw [h.journalled.journalOf_eq, h.record.2.2]
  exact append_nil _

/-- The submission is journalled in the task of its command. -/
theorem journalInv (hinv : JournalInv db cursor) : JournalInv db' cursor := by
  obtain ⟨htask, hsrc, hkind⟩ := h.record
  have hmid : JournalInv
      { db with commands := db'.commands, pendingExecutions := db'.pendingExecutions } cursor := by
    refine { hinv with cause := ?_, command_task := ?_, command_id := ?_ }
    · intro r hr
      obtain ⟨c, hc, hcau⟩ := hinv.cause r hr
      exact ⟨c, h.mem_commands.mpr (.inl hc), hcau⟩
    · intro c hc
      rcases h.mem_commands.mp hc with hc | rfl
      · exact hinv.command_task c hc
      · obtain ⟨t, ht, hid, _⟩ := h.journalled.task
        exact ⟨t, ht, hid.trans htask⟩
    · intro c hc
      rcases h.mem_commands.mp hc with hc | rfl
      · exact hinv.command_id c hc
      · rfl
  apply h.journalled.journalInv hmid
  · rw [hsrc, hkind]
    rfl
  · rw [hkind, htask]
    exact ⟨_, h.mem_commands.mpr (.inr rfl), rfl, rfl⟩
  · intro cid
    rw [h.journalOf_eq]
    exact hinv.streams cid

theorem stops_eq : db'.stopRequests = db.stopRequests := congrArg (·.stopRequests) h.journalled.rest

/-- Stored commands stay. -/
theorem exists_command (hstored : ∃ c ∈ db.commands, c.commandId = cid) :
    ∃ c ∈ db'.commands, c.commandId = cid :=
  hstored.imp fun _ hc => ⟨h.mem_commands.mpr (.inl hc.1), hc.2⟩

theorem consistent (hc : Consistent db) : Consistent db' where
  journal := by
    rw [h.streams_eq]
    exact h.journalInv hc.journal
  stream_command s hs := by
    rw [h.streams_eq] at hs
    exact h.exists_command (hc.stream_command s hs)
  stream_opened := by
    rw [h.streams_eq]
    exact hc.stream_opened
  pending_command p hp := by
    rcases (mem_concat h.pending).mp hp with hp | rfl
    · exact h.exists_command (hc.pending_command p hp)
    · exact ⟨_, h.mem_commands.mpr (.inr rfl), rfl⟩
  stop_command s hs := by
    rw [h.stops_eq] at hs
    exact h.exists_command (hc.stop_command s hs)

theorem keepsTask (t : TaskId) : KeepsTask t db db' := by
  have hkept := h.journalled.keepsTask t
  exact ⟨hkept.task, fun c hc _ => h.mem_commands.mpr (.inl hc), hkept.journal,
    fun _ _ _ s hs _ => ⟨s, by rw [h.streams_eq]; exact hs, rfl, rfl⟩⟩

end

end InsertedCommand

/-- A task was added. -/
structure OpenedTask (db db' : Database V) (task : TaskSpec) : Prop where
  fresh : ∀ t ∈ db.tasks, t.taskId ≠ task.taskId
  tasks : db'.tasks.rows =
    db.tasks.rows ++ [⟨task.taskId, task.principalId, task.nodeId, task.target, 0⟩]
  rest : db' = { db with tasks := db'.tasks }

theorem Database.insertTask_ok {task : TaskSpec} (h : db.insertTask task = .ok db') :
    OpenedTask db db' task := by
  obtain ⟨tasks, hins, h⟩ := require_bind_ok h
  cases h
  obtain ⟨hfree, _, hrows⟩ := insert_eq_some hins
  exact ⟨hfree, hrows, rfl⟩

namespace OpenedTask

variable {task : TaskSpec}

section

variable (h : OpenedTask db db' task)

include h

theorem mem_tasks {t : TaskRow} : t ∈ db'.tasks ↔
      t ∈ db.tasks ∨ t = ⟨task.taskId, task.principalId, task.nodeId, task.target, 0⟩ :=
  mem_concat h.tasks

theorem taskEvents_eq : db'.taskEvents = db.taskEvents := congrArg (·.taskEvents) h.rest

theorem commands_eq : db'.commands = db.commands := congrArg (·.commands) h.rest

theorem streams_eq : db'.executionEventStreams = db.executionEventStreams :=
  congrArg (·.executionEventStreams) h.rest

/-- A record's task exists, so the new task has none. -/
theorem eventsOf_self (hc : Consistent db) : db.eventsOf task.taskId = [] := by
  rw [eq_nil_iff_forall_not_mem]
  intro r hr
  obtain ⟨hr, htask⟩ := mem_eventsOf.mp hr
  obtain ⟨c, hcmd, _, hcau⟩ := hc.journal.cause r hr
  obtain ⟨t, ht, hid⟩ := hc.journal.command_task c hcmd
  exact h.fresh t ht (hid.trans (hcau.trans htask))

theorem consistent (hc : Consistent db) : Consistent db' := by
  rw [h.rest]
  refine { hc with journal := { hc.journal with
    numbered := fun t ht => ?_, command_task := fun c hcmd => ?_ } }
  · rcases h.mem_tasks.mp ht with ht | rfl
    · exact hc.journal.numbered t ht
    · exact congrArg (map TaskEventRow.sequence) (h.eventsOf_self hc)
  · obtain ⟨t, ht, hid⟩ := hc.journal.command_task c hcmd
    exact ⟨t, h.mem_tasks.mpr (.inl ht), hid⟩

theorem keepsTask (t : TaskId) : KeepsTask t db db' := by
  rw [h.rest]
  exact { keepsTask_refl t db with
    task := fun p hp _ => ⟨p, h.mem_tasks.mpr (.inl hp), rfl, rfl, rfl, rfl⟩ }

end

end OpenedTask

/-! ## Changes that add -/

/-- One of the changes transactions other than a deletion are made of. -/
inductive Grown (db db' : Database V) : Prop
  | kept (htasks : db'.tasks = db.tasks) (hcommands : db'.commands = db.commands)
      (hevents : db'.taskEvents = db.taskEvents)
      (hstreams : db'.executionEventStreams = db.executionEventStreams)
      (hpending : ∀ p ∈ db'.pendingExecutions, p ∈ db.pendingExecutions)
      (hstops : ∀ s ∈ db'.stopRequests, (∃ q ∈ db.stopRequests, q.commandId = s.commandId) ∨
        ∃ c ∈ db.commands, c.commandId = s.commandId)
  | opened (task : TaskSpec) (h : OpenedTask db db' task)
  | admitted (taskId : TaskId) (command : CommandEnvelope) (row : TaskEventRow V)
      (h : InsertedCommand db db' taskId command row)
  | batch (taskId : TaskId) (commandId : CommandId) (events : List (ExecutionEvent V))
      (admission : ExecutionEventAdmission V)
      (h : JournalledBatch db db' taskId commandId events admission)

/-- One change keeps the invariant. -/
theorem Grown.consistent (h : Grown db db') (hc : Consistent db) : Consistent db' := by
  cases h with
  | kept htks hcmds hevs hstrs hpend hstops =>
    cases db'
    cases htks
    cases hcmds
    cases hevs
    cases hstrs
    refine { hc with
      journal := { hc.journal with }
      pending_command := fun p hp => hc.pending_command p (hpend p hp)
      stop_command := fun s hs => ?_ }
    rcases hstops s hs with ⟨q, hq, hid⟩ | hsto
    · rw [← hid]
      exact hc.stop_command q hq
    · exact hsto
  | opened task h | admitted tid cmd row h => exact h.consistent hc
  | batch tid cid evs adm h => exact h.consistent

/-- One change keeps every task standing. -/
theorem Grown.keepsTask (h : Grown db db') (tid : TaskId) : KeepsTask tid db db' := by
  cases h with
  | kept htks hcmds hevs hstrs _ _ =>
    cases db'
    cases htks
    cases hcmds
    cases hevs
    cases hstrs
    exact { keepsTask_refl tid db with }
  | opened task h | admitted _ cmd row h => exact h.keepsTask tid
  | batch _ cid evs adm h => exact h.keeps tid

/-- Several changes in a row, as one transaction makes them. -/
theorem consistent_of_grown (h : Relation.ReflTransGen Grown db db') (hc : Consistent db) :
    Consistent db' := by
  induction h with
  | refl => exact hc
  | tail _ hlast ih => exact hlast.consistent ih

theorem keepsTask_of_grown (h : Relation.ReflTransGen Grown db db') (tid : TaskId) :
    KeepsTask tid db db' := by
  induction h with
  | refl => exact keepsTask_refl tid db
  | tail _ hlast ih => exact ih.trans (hlast.keepsTask tid)

/-! ## Deletion of a task -/

section Removal

variable {tid : TaskId}

/-- The command belongs to the task. -/
def Database.commandOf (db : Database V) (taskId : TaskId) (commandId : CommandId) : Bool :=
  (db.commands.find? commandId).any fun row => row.taskId = taskId

theorem Database.commandOf_of_mem (hc : c ∈ db.commands) :
    db.commandOf tid c.commandId = decide (c.taskId = tid) := by
  rw [commandOf, find?_of_mem hc, Option.any_some]

theorem mem_commands_removeTask :
    c ∈ (db.removeTask tid).commands ↔ c ∈ db.commands ∧ c.taskId ≠ tid := by
  show c ∈ db.commands.deleteWhere _ ↔ _
  simp

theorem mem_tasks_removeTask {t : TaskRow} :
    t ∈ (db.removeTask tid).tasks ↔ t ∈ db.tasks ∧ t.taskId ≠ tid := by
  show t ∈ db.tasks.deleteWhere _ ↔ _
  simp

theorem mem_taskEvents_removeTask {r : TaskEventRow V} :
    r ∈ (db.removeTask tid).taskEvents ↔ r ∈ db.taskEvents ∧ r.taskId ≠ tid := by
  show r ∈ db.taskEvents.deleteWhere _ ↔ _
  simp

theorem mem_streams_removeTask {s : ExecutionEventStreamRow} :
    s ∈ (db.removeTask tid).executionEventStreams ↔
      s ∈ db.executionEventStreams ∧ db.commandOf tid s.commandId = false :=
  mem_deleteWhere

/-- The cursor of a command goes with its task. -/
theorem find?_streams_removeTask (cid : CommandId) :
    (db.removeTask tid).executionEventStreams.find? cid =
      if db.commandOf tid cid then none else db.executionEventStreams.find? cid := by
  show (db.executionEventStreams.deleteWhere fun s => db.commandOf tid s.commandId).find? cid = _
  rw [find?_deleteWhere]
  cases hs : db.executionEventStreams.find? cid with
  | none => simp
  | some s =>
    rw [Option.filter_some, key_of_find? hs]
    cases db.commandOf tid cid <;> rfl

theorem Database.settled_removeTask (cid : CommandId) : (db.removeTask tid).settled cid =
      (!db.commandOf tid cid && db.settled cid) := by
  unfold settled
  rw [find?_streams_removeTask]
  cases db.commandOf tid cid <;> rfl

theorem mem_pending_removeTask {p : PendingExecutionRow} :
    p ∈ (db.removeTask tid).pendingExecutions ↔
      p ∈ db.pendingExecutions ∧ db.commandOf tid p.commandId = false :=
  mem_deleteWhere

theorem mem_stops_removeTask {s : StopRequestRow} : s ∈ (db.removeTask tid).stopRequests ↔
      s ∈ db.stopRequests ∧ db.commandOf tid s.commandId = false :=
  mem_deleteWhere

/-- The journals of other tasks stay. -/
theorem eventsOf_removeTask {other : TaskId} (hne : other ≠ tid) :
    (db.removeTask tid).eventsOf other = db.eventsOf other := by
  show (db.taskEvents.rows.filter _).filter _ = db.taskEvents.rows.filter _
  rw [filter_filter]
  apply filter_congr
  intro r _
  by_cases hr : r.taskId = other
  · simp [hr, hne]
  · simp [hr]

/-- A command that stays was no command of the task. -/
theorem exists_command_removeTask (h : ∃ c ∈ db.commands, c.commandId = cid)
    (hkept : db.commandOf tid cid = false) :
    ∃ c ∈ (db.removeTask tid).commands, c.commandId = cid := by
  obtain ⟨c, hc, rfl⟩ := h
  rw [commandOf_of_mem hc, decide_eq_false_iff_not] at hkept
  exact ⟨c, mem_commands_removeTask.mpr ⟨hc, hkept⟩, rfl⟩

/-- The records of a command stand in the task of the command. -/
theorem JournalInv.commandOf_cause (h : JournalInv db cursor) {r : TaskEventRow V}
    (hr : r ∈ db.taskEvents) (tid : TaskId) :
    db.commandOf tid r.kind.cause = decide (r.taskId = tid) := by
  obtain ⟨c, hc, hcau, htask⟩ := h.cause r hr
  rw [← hcau, commandOf_of_mem hc, htask]

/-- Nothing is left of the executions of the deleted task. -/
theorem journalOf_removeTask_gone (hc : Consistent db) (hgone : db.commandOf tid cid = true) :
    (db.removeTask tid).journalOf cid = [] := by
  rw [eq_nil_iff_forall_not_mem]
  intro e he
  obtain ⟨r, hr, hkind⟩ := mem_journalOf.mp he
  obtain ⟨hr, hne⟩ := mem_taskEvents_removeTask.mp hr
  have hcau := hc.journal.commandOf_cause hr tid
  rw [hkind] at hcau
  exact hne (of_decide_eq_true (hcau.symm.trans hgone))

/-- The executions of other tasks keep their events. -/
theorem journalOf_removeTask_kept (hc : Consistent db) (hkept : db.commandOf tid cid = false) :
    (db.removeTask tid).journalOf cid = db.journalOf cid := by
  rw [journalOf_eq, journalOf_eq]
  show (db.taskEvents.rows.filter _).filterMap _ = _
  rw [filterMap_filter]
  apply filterMap_congr
  intro r hr
  -- A deleted record belongs to another command.
  by_cases htask : r.taskId = tid
  · have hcau := hc.journal.commandOf_cause hr tid
    rw [decide_eq_true htask] at hcau
    have hnone : r.kind.eventOf? cid = none := by
      rw [Option.eq_none_iff_forall_ne_some]
      intro e hev
      rw [TaskEventKind.eventOf?_eq_some.mp hev] at hcau
      rw [TaskEventKind.cause, hkept] at hcau
      cases hcau
    simp [hnone]
  · simp [htask]

/-- What stays refers to nothing that was deleted. -/
theorem consistent_removeTask (hc : Consistent db) : Consistent (db.removeTask tid) where
  journal := by
    refine ⟨?_, ?_, ?_, ?_, ?_, ?_, ?_⟩
    · intro t ht
      obtain ⟨ht, hne⟩ := mem_tasks_removeTask.mp ht
      rw [eventsOf_removeTask hne]
      exact hc.journal.numbered t ht
    · intro r hr
      exact hc.journal.source r (mem_taskEvents_removeTask.mp hr).1
    · intro r hr q hq
      exact hc.journal.source_unique r (mem_taskEvents_removeTask.mp hr).1 q
        (mem_taskEvents_removeTask.mp hq).1
    · intro r hr
      obtain ⟨hr, hne⟩ := mem_taskEvents_removeTask.mp hr
      obtain ⟨c, hcmd, hcau, htask⟩ := hc.journal.cause r hr
      exact ⟨c, mem_commands_removeTask.mpr ⟨hcmd, fun heq => hne (htask.symm.trans heq)⟩,
        hcau, htask⟩
    · intro c hcmd
      obtain ⟨hcmd, hne⟩ := mem_commands_removeTask.mp hcmd
      obtain ⟨t, ht, hid⟩ := hc.journal.command_task c hcmd
      exact ⟨t, mem_tasks_removeTask.mpr ⟨ht, fun heq => hne (hid.symm.trans heq)⟩, hid⟩
    · intro c hcmd
      exact hc.journal.command_id c (mem_commands_removeTask.mp hcmd).1
    · intro cid
      rw [find?_streams_removeTask]
      cases hkept : db.commandOf tid cid with
      | true =>
        rw [journalOf_removeTask_gone hc hkept]
        rfl
      | false =>
        rw [journalOf_removeTask_kept hc hkept]
        exact hc.journal.streams cid
  stream_command s hs := by
    obtain ⟨hs, hkept⟩ := mem_streams_removeTask.mp hs
    exact exists_command_removeTask (hc.stream_command s hs) hkept
  stream_opened s hs := hc.stream_opened s (mem_streams_removeTask.mp hs).1
  pending_command p hp := by
    obtain ⟨hp, hkept⟩ := mem_pending_removeTask.mp hp
    exact exists_command_removeTask (hc.pending_command p hp) hkept
  stop_command s hs := by
    obtain ⟨hs, hkept⟩ := mem_stops_removeTask.mp hs
    exact exists_command_removeTask (hc.stop_command s hs) hkept

/-- Deleting a task leaves the others. -/
theorem keepsTask_removeTask {other : TaskId} (hne : other ≠ tid) :
    KeepsTask other db (db.removeTask tid) where
  task t ht hid := ⟨t, mem_tasks_removeTask.mpr ⟨ht, fun heq => hne (hid.symm.trans heq)⟩,
    rfl, rfl, rfl, rfl⟩
  command c hc hid := mem_commands_removeTask.mpr ⟨hc, fun heq => hne (hid.symm.trans heq)⟩
  journal := by simp only [eventsOf_removeTask hne, prefix_refl]
  stream c hc hid s hs hcmd := by
    refine ⟨s, mem_streams_removeTask.mpr ⟨hs, ?_⟩, rfl, rfl⟩
    rw [hcmd, commandOf_of_mem hc, decide_eq_false_iff_not, hid]
    exact hne

end Removal

end Renoa.Control
