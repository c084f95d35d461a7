import Renoa.Control.Consistency

/-!
# Appending to the journal

`AppendedEvent` is what `appendEvent` does to the database and `InsertedCommand` what
`insertCommand` does; both keep the invariant of the journal.
-/

namespace Renoa.Control

open Foundation Protocol List Table

variable {V : Type} {db db' : Database V} {tid : TaskId} {command : CommandEnvelope}
  {evId : TaskEventId} {row : TaskEventRow V} {ev : TaskEvent V}

/-- A record was written behind the task's sequence; besides, only a wake may be marked. -/
structure AppendedEvent (db db' : Database V) (row : TaskEventRow V) : Prop where
  task : ∃ t ∈ db.tasks, t.taskId = row.taskId ∧ t.nextSequence = row.sequence ∧
    db'.tasks = db.tasks.put { t with nextSequence := t.nextSequence + 1 }
  fresh : ∀ q ∈ db.taskEvents, q.sourceId ≠ row.sourceId
  rows : db'.taskEvents.rows = db.taskEvents.rows ++ [row]
  rest : db' = { db with
    tasks := db'.tasks, taskEvents := db'.taskEvents, pushWakes := db'.pushWakes }

theorem Database.markWake_eq (db : Database V) (pid : PrincipalId) (kind : TaskEventKind V) :
    db.markWake pid kind =
      { db with pushWakes := (db.markWake pid kind).pushWakes } := by
  unfold markWake
  split <;> rfl

theorem Database.insertTaskEvent_ok (h : db.insertTaskEvent row = .ok db') :
    (∀ q ∈ db.taskEvents, q.sourceId ≠ row.sourceId) ∧
      db'.taskEvents.rows = db.taskEvents.rows ++ [row] ∧
      db' = { db with taskEvents := db'.taskEvents } := by
  obtain ⟨taskEvents, hins, h⟩ := require_bind_ok h
  cases h
  obtain ⟨_, hclash, hrows⟩ := insert_eq_some hins
  refine ⟨fun q hq hsrc => ?_, hrows, rfl⟩
  have hfalse := of_decide_eq_false (hclash q hq)
  exact hfalse (.inl hsrc)

theorem Database.appendEvent_ok {sourceId : SourceId} {kind : TaskEventKind V}
    (h : db.appendEvent evId tid sourceId kind = .ok (ev, db')) :
    ∃ row : TaskEventRow V, AppendedEvent db db' row ∧ ev = row.event ∧ row.taskId = tid ∧
      row.sourceId = sourceId ∧ row.kind = kind ∧ row.eventId = evId := by
  obtain ⟨task, htask, h⟩ := require_bind_ok h
  obtain ⟨mid, hins, h⟩ := bind_ok h
  cases h
  have hmark := db.markWake_eq task.principalId kind
  obtain ⟨hfsh, hrows, hmid⟩ := insertTaskEvent_ok hins
  rw [hmark] at hfsh hrows
  have htks : mid.tasks = db.tasks := by rw [hmid, hmark]
  refine ⟨_, ⟨⟨task, mem_of_find? htask, key_of_find? htask, rfl, ?_⟩, hfsh, hrows,
    ?_⟩, rfl, rfl, rfl, rfl, rfl⟩
  · rw [htks]
  · rw [hmid, hmark]

namespace AppendedEvent

variable {row : TaskEventRow V}

section

variable (h : AppendedEvent db db' row)

include h

theorem commands_eq : db'.commands = db.commands := congrArg (·.commands) h.rest

theorem streams_eq : db'.executionEventStreams = db.executionEventStreams :=
  congrArg (·.executionEventStreams) h.rest

theorem pending_eq : db'.pendingExecutions = db.pendingExecutions :=
  congrArg (·.pendingExecutions) h.rest

theorem mem_taskEvents {q : TaskEventRow V} : q ∈ db'.taskEvents ↔ q ∈ db.taskEvents ∨ q = row :=
  mem_concat h.rows

theorem journalOf_eq (cid : CommandId) :
    db'.journalOf cid = db.journalOf cid ++ (row.kind.eventOf? cid).toList := by
  rw [Database.journalOf_eq, Database.journalOf_eq, h.rows, filterMap_append]
  cases heq : row.kind.eventOf? cid <;> simp [heq]

theorem eventsOf_self : db'.eventsOf row.taskId = db.eventsOf row.taskId ++ [row] := by
  simp [Database.eventsOf, h.rows]

theorem eventsOf_other (hne : row.taskId ≠ tid) : db'.eventsOf tid = db.eventsOf tid := by
  simp [Database.eventsOf, h.rows, hne]

/-- Every task stands; only the sequence of the record's task moved. -/
theorem exists_task {t : TaskRow} (ht : t ∈ db.tasks) : ∃ t' ∈ db'.tasks, t'.taskId = t.taskId := by
  obtain ⟨p, hp, _, _, htks⟩ := h.task
  rw [htks]
  exact exists_mem_put hp rfl ht (fun heq => heq ▸ rfl) rfl

theorem numbered
    (hnum : ∀ t ∈ db.tasks, (db.eventsOf t.taskId).map TaskEventRow.sequence = List.range
      t.nextSequence) :
    ∀ t ∈ db'.tasks,
      (db'.eventsOf t.taskId).map TaskEventRow.sequence = List.range t.nextSequence := by
  intro t ht
  obtain ⟨p, hp, htask, hseq, htks⟩ := h.task
  rw [htks] at ht
  rcases mem_put_cases ht with rfl | ⟨ht, hne⟩
  · rw [htask, h.eventsOf_self, map_append, ← htask, hnum p hp, range_succ, map_singleton, hseq]
  · rw [h.eventsOf_other fun heq => hne (heq.symm.trans htask.symm)]
    exact hnum t ht

/-- A record whose command is admitted in its task keeps the journal consistent, with the cursors
that fit the grown journal. -/
theorem journalInv {cursor cursor' : CommandId → Option ExecutionEventStreamRow}
    (hinv : JournalInv db cursor) (hsrc : row.sourceId = row.kind.source)
    (hcau : ∃ c ∈ db.commands, c.commandId = row.kind.cause ∧ c.taskId = row.taskId)
    (hstrs : ∀ cid, StreamInv (db'.journalOf cid) (cursor' cid)) :
    JournalInv db' cursor' where
  numbered := h.numbered hinv.numbered
  source r hr := by
    rcases h.mem_taskEvents.mp hr with hr | rfl
    · exact hinv.source r hr
    · exact hsrc
  source_unique r hr q hq heq := by
    rcases h.mem_taskEvents.mp hr with hr | rfl <;> rcases h.mem_taskEvents.mp hq with hq | rfl
    · exact hinv.source_unique r hr q hq heq
    · exact absurd heq (h.fresh r hr)
    · exact absurd heq.symm (h.fresh q hq)
    · rfl
  cause r hr := by
    rw [h.commands_eq]
    rcases h.mem_taskEvents.mp hr with hr | rfl
    · exact hinv.cause r hr
    · exact hcau
  command_task c hc := by
    rw [h.commands_eq] at hc
    obtain ⟨t, ht, htask⟩ := hinv.command_task c hc
    obtain ⟨t', ht', hid⟩ := h.exists_task ht
    exact ⟨t', ht', hid.trans htask⟩
  command_id c hc := by
    rw [h.commands_eq] at hc
    exact hinv.command_id c hc
  streams := hstrs

end

end AppendedEvent

/-! ## A new command -/

/-- A command was admitted: its row, its record and its pending delivery. -/
structure InsertedCommand (db db' : Database V) (taskId : TaskId) (command : CommandEnvelope)
    (row : TaskEventRow V) : Prop where
  fresh : ∀ q ∈ db.commands, q.commandId ≠ command.commandId
  commands : db'.commands.rows = db.commands.rows ++ [⟨command.commandId, taskId, command⟩]
  pending : db'.pendingExecutions.rows =
    db.pendingExecutions.rows ++ [⟨command.commandId, row.sequence⟩]
  record : row.taskId = taskId ∧ row.sourceId = .command command.commandId ∧
    row.kind = .commandSubmitted command
  journalled : AppendedEvent
    { db with commands := db'.commands, pendingExecutions := db'.pendingExecutions } db' row

theorem Database.insertCommandRow_ok (h : db.insertCommandRow tid command = .ok db') :
    (∀ q ∈ db.commands, q.commandId ≠ command.commandId) ∧
      db'.commands.rows = db.commands.rows ++ [⟨command.commandId, tid, command⟩] ∧
      db' = { db with commands := db'.commands } := by
  obtain ⟨_, _, h⟩ := bind_ok h
  obtain ⟨commands, hins, h⟩ := require_bind_ok h
  cases h
  obtain ⟨hfree, _, hrows⟩ := insert_eq_some hins
  exact ⟨hfree, hrows, rfl⟩

theorem Database.insertPendingExecution_ok {cid : CommandId} {taskSequence : Nat}
    (h : db.insertPendingExecution cid taskSequence = .ok db') :
    db'.pendingExecutions.rows = db.pendingExecutions.rows ++ [⟨cid, taskSequence⟩] ∧
      db' = { db with pendingExecutions := db'.pendingExecutions } := by
  obtain ⟨pendingExecutions, hins, h⟩ := require_bind_ok h
  cases h
  exact ⟨(insert_eq_some hins).2.2, rfl⟩

theorem Database.insertCommand_ok (h : db.insertCommand evId tid command = .ok (ev, db')) :
    ∃ row, InsertedCommand db db' tid command row ∧ ev = row.event := by
  obtain ⟨withRow, hrow, h⟩ := bind_ok h
  obtain ⟨⟨record, withEvent⟩, hev, h⟩ := bind_ok h
  obtain ⟨withPending, hpend, h⟩ := bind_ok h
  cases h
  obtain ⟨hfsh, hcmds, hwithRow⟩ := insertCommandRow_ok hrow
  obtain ⟨row, happ, rfl, htask, hsrc, hkind, _⟩ := appendEvent_ok hev
  obtain ⟨hpends, hdb⟩ := insertPendingExecution_ok hpend
  have hcommandsEq : db'.commands = withRow.commands := by
    rw [hdb]
    exact happ.commands_eq
  have htasksEq : db'.tasks = withEvent.tasks := by rw [hdb]
  have heventsEq : db'.taskEvents = withEvent.taskEvents := by rw [hdb]
  refine ⟨row, ⟨hfsh, ?_, ?_, ⟨htask, hsrc, hkind⟩, ⟨?_, ?_, ?_, ?_⟩⟩, rfl⟩
  · rw [hcommandsEq]
    exact hcmds
  · rw [hpends, happ.pending_eq, hwithRow]
    rfl
  · have htask := happ.task
    rw [hwithRow] at htask
    rw [htasksEq]
    exact htask
  · have hfreshSource := happ.fresh
    rw [hwithRow] at hfreshSource
    exact hfreshSource
  · rw [heventsEq, happ.rows, hwithRow]
  · rw [hdb, happ.rest, hwithRow]

/-! ## Tasks that stand -/

/-- The tasks are the same up to the sequence of their journal. -/
def TaskRow.SameBinding (t t' : TaskRow) : Prop :=
  t'.taskId = t.taskId ∧ t'.principalId = t.principalId ∧ t'.nodeId = t.nodeId ∧
    t'.target = t.target

/-- The task stands with its commands and their executions, and its journal has only grown. -/
structure KeepsTask (taskId : TaskId) (db db' : Database V) : Prop where
  task : ∀ t ∈ db.tasks, t.taskId = taskId → ∃ t' ∈ db'.tasks, t.SameBinding t'
  command : ∀ c ∈ db.commands, c.taskId = taskId → c ∈ db'.commands
  journal : db.eventsOf taskId <+: db'.eventsOf taskId
  stream : ∀ c ∈ db.commands, c.taskId = taskId → ∀ s ∈ db.executionEventStreams,
    s.commandId = c.commandId →
      ∃ s' ∈ db'.executionEventStreams, s'.commandId = s.commandId ∧ s'.executionId = s.executionId

theorem keepsTask_refl (tid : TaskId) (db : Database V) : KeepsTask tid db db where
  task t ht _ := ⟨t, ht, rfl, rfl, rfl, rfl⟩
  command _ hc _ := hc
  journal := prefix_refl _
  stream _ _ _ s hs _ := ⟨s, hs, rfl, rfl⟩

theorem KeepsTask.trans {mid : Database V} (h : KeepsTask tid db mid)
    (h' : KeepsTask tid mid db') : KeepsTask tid db db' where
  task t ht hid := by
    obtain ⟨p, hp, hpid, hprin, hnode, htgt⟩ := h.task t ht hid
    obtain ⟨q, hq, hqid, hprincipal', hnode', htarget'⟩ := h'.task p hp (hpid.trans hid)
    exact ⟨q, hq, hqid.trans hpid, hprincipal'.trans hprin, hnode'.trans hnode, htarget'.trans htgt⟩
  command c hc hid := h'.command c (h.command c hc hid) hid
  journal := h.journal.trans h'.journal
  stream c hc hid s hs hcmd := by
    obtain ⟨p, hp, hpid, hexec⟩ := h.stream c hc hid s hs hcmd
    obtain ⟨q, hq, hqid, hexecution'⟩ := h'.stream c (h.command c hc hid) hid p hp (hpid.trans hcmd)
    exact ⟨q, hq, hqid.trans hpid, hexecution'.trans hexec⟩

theorem AppendedEvent.keepsTask (h : AppendedEvent db db' row) (tid : TaskId) :
    KeepsTask tid db db' where
  task t ht _ := by
    obtain ⟨p, hp, _, _, htks⟩ := h.task
    rw [htks]
    exact exists_mem_put hp rfl ht (fun heq => heq ▸ ⟨rfl, rfl, rfl, rfl⟩) ⟨rfl, rfl, rfl, rfl⟩
  command c hc _ := by
    rw [h.commands_eq]
    exact hc
  journal := by
    by_cases heq : row.taskId = tid
    · rw [← heq, h.eventsOf_self]
      exact prefix_append _ _
    · simp only [h.eventsOf_other heq, prefix_refl]
  stream _ _ _ s hs _ := by
    rw [h.streams_eq]
    exact ⟨s, hs, rfl, rfl⟩

end Renoa.Control
