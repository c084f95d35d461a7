import Renoa.Control.Transaction

/-!
# Execution streams over whole runs

After every run the events journalled for a command are one execution from its start on, and the
flag of its stream tells whether its end is among them. A batch that is delivered again, at any
later time while its task stands, appends nothing and is answered with the current cursor. That
holds as long as the arguments of its tool calls are read back from the journal as they were sent:
a number that is not has the batch refused as a conflict with itself.
-/

namespace Renoa.Control

open Foundation Protocol List Table Database

variable {V : Type} {db db' : Database V} {cursor : CommandId → Option ExecutionEventStreamRow}
  {events : List (ExecutionEvent V)} {stream : ExecutionEventStreamRow}

/-! ## Events that are stored already -/

/-- A journalled record is found by its source. -/
theorem JournalInv.loadSourceEvent [JsonText V] (h : JournalInv db cursor) {r : TaskEventRow V}
    (hr : r ∈ db.taskEvents) :
    db.loadSourceEvent r.sourceId = some { r.event with kind := r.kind.reparsed } := by
  unfold Database.loadSourceEvent
  cases hfind : db.taskEvents.rows.find? fun row => row.sourceId = r.sourceId with
  | none =>
    have hno := find?_eq_none.mp hfind r hr
    simp at hno
  | some q =>
    have hq : q ∈ db.taskEvents := mem_of_find?_eq_some hfind
    have hsrc := find?_some hfind
    rw [h.source_unique q hq r hr (of_decide_eq_true hsrc)]
    rfl

/-- A journalled event of a command stands in the command's task. -/
theorem JournalInv.taskId_eq (h : JournalInv db cursor) {r : TaskEventRow V}
    (hr : r ∈ db.taskEvents) {c : CommandRow} (hc : c ∈ db.commands) {ev : ExecutionEvent V}
    (hkind : r.kind = .executionEvent c.commandId ev) : r.taskId = c.taskId := by
  obtain ⟨p, hp, hid, htask⟩ := h.cause r hr
  rw [hkind] at hid
  rw [← htask, key_inj hp hc hid]

/-- The journal of a command stands while its task does. -/
theorem KeepsTask.mem_journalOf {c : CommandRow} (h : KeepsTask c.taskId db db')
    (hinv : JournalInv db cursor) (hc : c ∈ db.commands) {ev : ExecutionEvent V}
    (hev : ev ∈ db.journalOf c.commandId) : ev ∈ db'.journalOf c.commandId := by
  obtain ⟨r, hr, hkind⟩ := Database.mem_journalOf.mp hev
  have hlast := h.journal.subset (mem_eventsOf.mpr ⟨hr, hinv.taskId_eq hr hc hkind⟩)
  exact Database.mem_journalOf.mpr ⟨r, (mem_eventsOf.mp hlast).1, hkind⟩

/-- The flag of a stream is set exactly when the end of the execution is journalled. -/
theorem Consistent.settled_iff (hc : Consistent db) (cid : CommandId) :
    db.settled cid = true ↔ ∃ e ∈ db.journalOf cid, e.isTerminal = true := by
  have hstr := hc.journal.streams cid
  unfold Database.settled
  cases hfind : db.executionEventStreams.find? cid with
  | none =>
    rw [hfind] at hstr
    have hnil : db.journalOf cid = [] := hstr
    simp [hnil]
  | some stream =>
    rw [hfind] at hstr
    exact OpenStream.terminal hstr

section

variable [JsonText V] {tid : TaskId} {cid : CommandId} {state : StreamState V}
  {newId : Nat → TaskEventId}

/-- A stored event below the cursor is passed over exactly if it is read back as it was sent. -/
theorem StreamState.admitEvent_stored (h : JournalInv state.db cursor)
    (hcmd : ∃ c ∈ state.db.commands, c.commandId = cid ∧ c.taskId = tid)
    {ev stored : ExecutionEvent V} (hsto : stored ∈ state.db.journalOf cid)
    (hid : stored.eventId = ev.eventId) (hlt : ev.sequence < state.nextSequence)
    {state' : StreamState V} :
    state.admitEvent newId tid cid ev = .ok state' ↔ stored.reparsed = ev ∧ state' = state := by
  obtain ⟨r, hr, hkind⟩ := mem_journalOf.mp hsto
  have hsrc : r.sourceId = .execution ev.eventId := by
    rw [h.source r hr, hkind, ← hid]
    rfl
  have hload := h.loadSourceEvent hr
  rw [hsrc] at hload
  have htask : r.event.taskId = tid := by
    obtain ⟨c, hc, rfl, rfl⟩ := hcmd
    exact h.taskId_eq hr hc hkind
  have hread : r.kind.reparsed = .executionEvent cid stored.reparsed := by rw [hkind]; rfl
  unfold StreamState.admitEvent
  rw [hload]
  by_cases hsame : stored.reparsed = ev
  · simp [validateExistingSource, ensure, htask, hread, hsame, hlt, pure, Except.pure, eq_comm]
  · simp [validateExistingSource, ensure, hread, hsame]

theorem appendContiguous_stored (h : JournalInv state.db cursor)
    (hcmd : ∃ c ∈ state.db.commands, c.commandId = cid ∧ c.taskId = tid)
    (hsto : ∀ e ∈ events, e.sequence < state.nextSequence ∧
      ∃ stored ∈ state.db.journalOf cid, stored.reparsed = e) :
    appendContiguousExecutionEvents newId tid cid events state = .ok state := by
  induction events with
  | nil => rfl
  | cons ev rest ih =>
    obtain ⟨hlt, stored, hmem, hread⟩ := hsto ev mem_cons_self
    have hadmit : state.admitEvent newId tid cid ev = .ok state :=
      (StreamState.admitEvent_stored h hcmd hmem (congrArg (·.eventId) hread) hlt).mpr ⟨hread, rfl⟩
    unfold appendContiguousExecutionEvents
    rw [foldlM_cons, hadmit]
    exact ih fun e he => hsto e (mem_cons_of_mem _ he)

/-- A batch whose events are all stored, and read back as they were sent, is answered with the
cursor and changes nothing. -/
theorem Database.appendExecutionEvents_stored (hc : Consistent db)
    (hcmd : ∃ c ∈ db.commands, c.commandId = cid ∧ c.taskId = tid)
    {first : ExecutionEvent V} {rest : List (ExecutionEvent V)}
    (hstr : db.executionEventStreams.find? cid = some stream)
    (hval : ContinuesExecution first.executionId first.sequence (first :: rest))
    (hsto : ∀ e ∈ first :: rest, ∃ stored ∈ db.journalOf cid, stored.reparsed = e)
    (ids : DerivedIds) (rid : TaskEventId) (replier : String) :
    db.appendExecutionEvents ids newId rid tid cid (first :: rest) replier =
      .ok (⟨stream.nextSequence - 1, [], none⟩, db) := by
  have hopen := hc.journal.streams cid
  rw [hstr] at hopen
  have hlt (e : ExecutionEvent V) (he : e ∈ first :: rest) : e.sequence < stream.nextSequence := by
    obtain ⟨stored, hstored, rfl⟩ := hsto e he
    exact (hopen.sequence_lt hstored : stored.sequence < _)
  have hexec : stream.executionId = first.executionId := by
    obtain ⟨stored, hstored, hread⟩ := hsto first mem_cons_self
    rw [← hread]
    exact (hopen.execution stored hstored).symm
  have hmem := mem_of_find? hstr
  have hpos := hc.stream_opened stream hmem
  have hrow : (⟨cid, first.executionId, stream.nextSequence, stream.terminal⟩ :
      ExecutionEventStreamRow) = stream := by
    rw [← hexec, ← key_of_find? hstr]
  have hput : db.storeExecutionEventCursor stream true = .ok db := by
    unfold storeExecutionEventCursor
    rw [if_pos rfl, put_eq_self hmem]
  have hcurs : initialExecutionEventCursor (db.executionEventStreams.find? cid) first cid =
      .ok stream.nextSequence := by
    rw [hstr]
    exact bind_eq_ok.mpr ⟨(), ensure_of_eq_true (decide_eq_true hexec), rfl⟩
  have hbat : db.admitExecutionEventBatch newId tid cid (first :: rest) =
      .ok (⟨stream.nextSequence - 1, [], none⟩, db) := by
    refine admitExecutionEventBatch_eq_ok.mpr ⟨first, rest, _,
      ⟨db, stream.nextSequence, stream.terminal, []⟩, rfl, hcmd, hcurs, hval,
      Nat.le_of_lt (hlt first mem_cons_self), ?_, ?_, Nat.ne_of_gt hpos, rfl⟩
    · rw [hstr]
      exact appendContiguous_stored hc.journal hcmd fun e he => ⟨hlt e he, hsto e he⟩
    · rw [hstr, hrow]
      exact hput
  exact bind_eq_ok.mpr ⟨_, hbat, bind_eq_ok.mpr ⟨(none, db), rfl, rfl⟩⟩

/-- **Redelivery.** An accepted batch that is delivered again while its task stands appends nothing
and is answered with the current cursor, if its events are read back as they were sent. -/
theorem Database.appendExecutionEvents_again (hc : Consistent db) {ids : DerivedIds}
    {rid : TaskEventId} {replier : String} {adm : ExecutionEventAdmission V}
    (h : db.appendExecutionEvents ids newId rid tid cid events replier = .ok
      (adm, db')) (hread : ∀ e ∈ events, e.reparsed = e) {later : List (Transaction V)}
    (hkept : ∀ t ∈ later, ¬ t.Deletes tid) (newId' : Nat → TaskEventId)
    (replyEventId' : TaskEventId) (replier' : String) :
    ∃ stream, (db'.runAll ids later).executionEventStreams.find? cid = some stream ∧
      (db'.runAll ids later).appendExecutionEvents ids newId' replyEventId' tid cid events
        replier' = .ok (⟨stream.nextSequence - 1, [], none⟩, db'.runAll ids later) := by
  obtain ⟨⟨batch, mid⟩, hadm, h⟩ := bind_ok h
  obtain ⟨⟨reply, replied⟩, hrep, h⟩ := bind_ok h
  cases h
  have hrep := admitReply_ok hrep
  obtain ⟨hbat, hholds⟩ := admitExecutionEventBatch_ok hc hadm
  obtain ⟨first, rest, _, _, rfl, _, _, hval, _⟩ := admitExecutionEventBatch_eq_ok.mp hadm
  have hc' : Consistent db' := consistent_of_grown hrep.grown hbat.consistent
  have hkp : KeepsTask tid mid (db'.runAll ids later) :=
    (keepsTask_of_grown hrep.grown tid).trans (keepsTask_runAll hc' hkept)
  obtain ⟨c, hcmem, rfl, rfl⟩ := hbat.command
  have hmid : c ∈ mid.commands := by
    rw [show mid.commands = db.commands from congrArg (·.commands) hbat.rest]
    exact hcmem
  obtain ⟨s, hfind, hsid, _⟩ := hbat.cursor
  have hs : s ∈ mid.executionEventStreams :=
    mem_of_find? (k := c.commandId) (by rw [hfind, Function.update_self])
  obtain ⟨stream, hstr, hstreamId, _⟩ := hkp.stream c hmid rfl s hs hsid
  have hlast : (db'.runAll ids later).executionEventStreams.find? c.commandId =
      some stream := by
    rw [← hsid, ← hstreamId]
    exact find?_of_mem hstr
  refine ⟨stream, hlast, appendExecutionEvents_stored (consistent_runAll ids hc' later)
    ⟨c, hkp.command c hmid rfl, rfl, rfl⟩ hlast hval (fun e he => ?_) ids _ _⟩
  obtain ⟨stored, hstored, hsame⟩ := hholds e he
  refine ⟨stored, hkp.mem_journalOf hbat.consistent.journal hmid hstored, ?_⟩
  rcases hsame with rfl | hsame
  · exact hread stored he
  · exact hsame

end

/-! ## The status of a task -/

theorem Consistent.exists_terminalOf (hc : Consistent db) {c : CommandRow} (hmem : c ∈ db.commands)
    (hdone : db.settled c.commandId = true) :
    ∃ terminal, db.terminalOf c.taskId c.commandId = .ok terminal := by
  obtain ⟨e, he, hterm⟩ := (hc.settled_iff c.commandId).mp hdone
  obtain ⟨r, hr, hkind⟩ := mem_journalOf.mp he
  have htask := hc.journal.taskId_eq hr hmem hkind
  have hread : r.terminalOf? c.commandId = e.kind.terminal? := by
    simp [TaskEventRow.terminalOf?, hkind]
  cases hfnd : (orderBy TaskEventRow.sequence (db.eventsOf c.taskId)).reverse.findSome?
      (TaskEventRow.terminalOf? c.commandId) with
  | some terminal => exact ⟨terminal, require_eq_ok.mpr hfnd⟩
  | none =>
    have hnone := findSome?_eq_none_iff.mp hfnd r (by simp [mem_eventsOf, hr, htask])
    rw [hread] at hnone
    simp [ExecutionEvent.isTerminal, hnone] at hterm

/-- The status of a task is always derived. -/
theorem Consistent.exists_deriveStatus (hc : Consistent db) (tid : TaskId) :
    ∃ status, db.deriveStatus tid = .ok status := by
  unfold Database.deriveStatus
  cases hlast : (db.commands.rows.filter fun row => row.taskId = tid).getLast? with
  | none => exact ⟨_, rfl⟩
  | some c =>
    obtain ⟨hc', htask⟩ := mem_filter.mp (mem_of_getLast? hlast)
    cases hdone : db.settled c.commandId with
    | false => exact ⟨.working, by simp [hdone]⟩
    | true =>
      obtain ⟨terminal, hterm⟩ := hc.exists_terminalOf hc' hdone
      rw [of_decide_eq_true htask] at hterm
      exact ⟨.after terminal, by simp [hdone, hterm]⟩

/-! ## Every run -/

/-- The events journalled for a command are one execution from its start on, and the flag of its
stream tells whether the end of the execution is among them. -/
structure Database.HoldsExecution (db : Database V) (commandId : CommandId) : Prop where
  sequences : (db.journalOf commandId).map ExecutionEvent.sequence =
    List.range (db.journalOf commandId).length
  execution : ∀ e ∈ db.journalOf commandId, ∀ f ∈ db.journalOf commandId,
    e.executionId = f.executionId
  started : ∀ e ∈ (db.journalOf commandId).head?, e.isStarted = true
  ended : ∀ e ∈ (db.journalOf commandId).dropLast, e.isTerminal = false
  settled : db.settled commandId = true ↔ ∃ e ∈ db.journalOf commandId, e.isTerminal = true

/-- Only the last event of a stream ends it. -/
theorem OpenStream.dropLast_not_terminal (h : OpenStream events stream) :
    ∀ e ∈ events.dropLast, e.isTerminal = false := by
  intro e he
  -- All but the last sequence of `0, …, n - 1` stay below `n - 1`.
  have hseq : e.sequence ∈ (List.range stream.nextSequence).dropLast := by
    rw [← h.sequences, ← map_dropLast]
    exact mem_map_of_mem he
  rw [dropLast_eq_take, length_range, take_range, mem_range] at hseq
  rw [← Bool.not_eq_true]
  intro hterm
  have hlast := h.ended e (dropLast_subset _ he) hterm
  omega

theorem OpenStream.head_started (h : OpenStream events stream) :
    ∀ e ∈ events.head?, e.isStarted = true := by
  intro e he
  obtain ⟨rest, rfl⟩ := head?_eq_some_iff.mp he
  have hfst : (List.range stream.nextSequence).head? = some e.sequence := by
    rw [← h.sequences]
    rfl
  rw [h.started e mem_cons_self]
  cases hnext : stream.nextSequence with
  | zero => simp [hnext] at hfst
  | succ n => simpa [hnext, range_succ_eq_map] using hfst.symm

theorem Consistent.holdsExecution (hc : Consistent db) (cid : CommandId) :
    db.HoldsExecution cid := by
  have hstr := hc.journal.streams cid
  cases hfind : db.executionEventStreams.find? cid with
  | none =>
    rw [hfind] at hstr
    have hnil : db.journalOf cid = [] := hstr
    constructor
    case settled => exact hc.settled_iff cid
    all_goals simp [hnil]
  | some stream =>
    rw [hfind] at hstr
    have hopen : OpenStream (db.journalOf cid) stream := hstr
    constructor
    case sequences => rw [hopen.sequences, hopen.length_eq]
    case execution =>
      intro e he f hf
      rw [hopen.execution e he, hopen.execution f hf]
    case started => exact hopen.head_started
    case ended => exact hopen.dropLast_not_terminal
    case settled => exact hc.settled_iff cid

section

variable [JsonText V]

/-- **Execution streams.** After every run, each command's journalled events are one execution and
the status of each task is derived; an accepted batch delivered again while its task stands appends
nothing and is answered with the current cursor, if its events are read back as they were sent; a
batch from a node that does not own the task is refused, and a refused batch changes nothing. -/
theorem execution_streams_reached (ids : DerivedIds) (history : List (Transaction V)) :
    (∀ commandId, (Database.reached ids history).HoldsExecution commandId) ∧
    (∀ taskId, ∃ status, (Database.reached ids history).deriveStatus taskId = .ok status) ∧
    (∀ newId replyEventId taskId commandId events replier admission db',
      (Database.reached ids history).appendExecutionEvents ids newId replyEventId taskId commandId
        events replier = .ok (admission, db') → (∀ e ∈ events, e.reparsed = e) →
      ∀ later : List (Transaction V), (∀ t ∈ later, ¬ t.Deletes taskId) →
      ∀ newId' replyEventId' replier',
        ∃ stream, (db'.runAll ids later).executionEventStreams.find? commandId = some stream ∧
          (db'.runAll ids later).appendExecutionEvents ids newId' replyEventId' taskId commandId
            events replier' = .ok (⟨stream.nextSequence - 1, [], none⟩, db'.runAll ids later)) ∧
    (∀ nodeId newId replyEventId taskId commandId events replier,
      ∀ task ∈ (Database.reached ids history).tasks, task.taskId = taskId → task.nodeId ≠ nodeId →
        (Database.reached ids history).publishExecutionEvents ids nodeId newId replyEventId taskId
            commandId events replier =
          .error (.invalid s!"node {nodeId} does not own task {taskId}")) ∧
    (∀ newId replyEventId taskId commandId events replier e,
      (Database.reached ids history).appendExecutionEvents ids newId replyEventId taskId commandId
        events replier = .error e →
      Database.reached ids (history ++
        [.appendExecutionEvents newId replyEventId taskId commandId events replier]) =
          Database.reached ids history) := by
  have hc := consistent_reached ids history
  refine ⟨hc.holdsExecution, hc.exists_deriveStatus, ?_, ?_, ?_⟩
  · intro newId replyEventId taskId commandId events replier admission db' hok hread later hkept
    exact appendExecutionEvents_again hc hok hread hkept
  · rintro nodeId newId replyEventId _ commandId events replier task htask rfl hnode
    have hload : (Database.reached ids history).loadTask task.taskId = .ok task :=
      require_eq_ok.mpr (find?_of_mem htask)
    simp [Database.publishExecutionEvents, hload, ensure, hnode]
  · intro newId replyEventId taskId commandId events replier e herror
    have hcommit : (Transaction.appendExecutionEvents newId replyEventId taskId commandId events
        replier).commit ids (Database.reached ids history) = .error e := by
      simp [Transaction.commit, herror]
    simp only [Database.reached, Database.runAll] at hcommit ⊢
    simp [Database.apply, hcommit]

/-! ### A number that is not read back -/

def writer : TargetRef := ⟨"writer"⟩

/-- Derived identities that stay clear of the drawn ones. -/
def offsetIds : DerivedIds where
  replyId commandId := ⟨commandId.uuid + 100⟩
  threadTaskId _ _ _ := ⟨50⟩

/-- The number `5.644569759748174e-16` and the six behind it, told apart by their last digits. -/
structure Double where
  digit : Fin 7
  deriving DecidableEq

/-- The text of every one but the last is read as the next. -/
instance : JsonText Double := ⟨inferInstance, fun number => ⟨⟨min (number.digit + 1) 6, by omega⟩⟩⟩

/-- An execution that starts and calls a tool with the number. -/
def calling : List (ExecutionEvent Double) :=
  [⟨⟨0⟩, ⟨0⟩, 0, 0, .executionStarted⟩, ⟨⟨1⟩, ⟨0⟩, 1, 0, .toolStarted "c" "t" ⟨0⟩⟩]

/-- A command whose execution was published. -/
def calledHistory : List (Transaction Double) :=
  [.createNodeEnrollment ⟨0⟩ ⟨0⟩, .createTask ⟨⟨1⟩, ⟨0⟩, ⟨0⟩, writer⟩,
    .admitCommand ⟨0⟩ ⟨1⟩ ⟨0⟩ ⟨"web"⟩ ⟨1⟩ (.fromText "Call.") true,
    .appendExecutionEvents (fun n => ⟨1 + n⟩) ⟨9⟩ ⟨1⟩ ⟨1⟩ calling "Writer"]

/-- The accepted batch is refused when it comes again. -/
theorem redelivery_refused :
    (Database.reached offsetIds calledHistory).journalOf ⟨1⟩ = calling ∧
      (Database.reached offsetIds calledHistory).appendExecutionEvents offsetIds
        (fun n => ⟨10 + n⟩) ⟨20⟩ ⟨1⟩ ⟨1⟩ calling "Writer" = .error (.conflict
          "event source execution:1 was already used with different content") := by
  refine ⟨?_, ?_⟩
  · decide
  · rfl

/-! ## Deleting a task -/

omit [JsonText V]

/-- The rows of a task and of its commands are gone, and every other row is as it was. -/
structure Removed (db db' : Database V) (taskId : TaskId) : Prop where
  task : ∀ t, t ∈ db'.tasks ↔ t ∈ db.tasks ∧ t.taskId ≠ taskId
  command : ∀ c, c ∈ db'.commands ↔ c ∈ db.commands ∧ c.taskId ≠ taskId
  record : ∀ r, r ∈ db'.taskEvents ↔ r ∈ db.taskEvents ∧ r.taskId ≠ taskId
  pending : ∀ p, p ∈ db'.pendingExecutions ↔
    p ∈ db.pendingExecutions ∧ db.commandOf taskId p.commandId = false
  stream : ∀ s, s ∈ db'.executionEventStreams ↔
    s ∈ db.executionEventStreams ∧ db.commandOf taskId s.commandId = false
  stop : ∀ s, s ∈ db'.stopRequests ↔
    s ∈ db.stopRequests ∧ db.commandOf taskId s.commandId = false
  nodeOwners_eq : db'.nodeOwners = db.nodeOwners
  pushWakes_eq : db'.pushWakes = db.pushWakes

theorem removed_removeTask (tid : TaskId) : Removed db (db.removeTask tid) tid where
  task _ := mem_tasks_removeTask
  command _ := mem_commands_removeTask
  record _ := mem_taskEvents_removeTask
  pending _ := mem_pending_removeTask
  stream _ := mem_streams_removeTask
  stop _ := mem_stops_removeTask
  nodeOwners_eq := rfl
  pushWakes_eq := rfl

section

variable {task : TaskRow} (htask : task ∈ db.tasks)

include htask

theorem Database.deleteTask_eq_ok : db.deleteTask task.principalId task.taskId = .ok db' ↔
    (∀ c ∈ db.commands, c.taskId = task.taskId → db.settled c.commandId = true) ∧
      db.removeTask task.taskId = db' := by
  simp [deleteTask, find?_of_mem htask, bind_eq_ok, mem_rows, ← imp_iff_not_or, pure, Except.pure]

/-- The owner is refused exactly while a command of the task has no terminal event. -/
theorem Consistent.deleteTask_refused_iff (hc : Consistent db) :
    (∃ e, db.deleteTask task.principalId task.taskId = .error e) ↔
      ∃ c ∈ db.commands, c.taskId = task.taskId ∧
        ∀ e ∈ db.journalOf c.commandId, e.isTerminal = false := by
  have hopen : ∀ cid, (∀ e ∈ db.journalOf cid, e.isTerminal = false) ↔ ¬ db.settled cid = true := by
    intro cid
    rw [hc.settled_iff]
    simp
  simp only [hopen]
  cases hdelete : db.deleteTask task.principalId task.taskId with
  | ok db' =>
    obtain ⟨hdone, _⟩ := (deleteTask_eq_ok htask).mp hdelete
    apply iff_of_false (fun ⟨_, h⟩ => nomatch h)
    rintro ⟨c, hmem, hid, hno⟩
    exact hno (hdone c hmem hid)
  | error e =>
    apply iff_of_true ⟨e, rfl⟩
    by_contra hnone
    simp only [not_exists, not_and, not_not] at hnone
    cases hdelete.symm.trans ((deleteTask_eq_ok htask).mpr ⟨hnone, rfl⟩)

end

/-- **A task is deleted with all its rows and no others**, in every reached state. A task that does
not stand is deleted already. The owner is refused exactly while a command has no terminal event,
and another principal is told that there is no such task; a refused deletion changes nothing. -/
theorem task_deletion_exact [JsonText V] (ids : DerivedIds) (history : List (Transaction V)) :
    let db := Database.reached ids history
    (∀ principalId taskId, (∀ t ∈ db.tasks, t.taskId ≠ taskId) →
      db.deleteTask principalId taskId = .ok db) ∧
    ∀ task ∈ db.tasks, ((∃ e, db.deleteTask task.principalId task.taskId = .error e) ↔
        ∃ c ∈ db.commands, c.taskId = task.taskId ∧
          ∀ e ∈ db.journalOf c.commandId, e.isTerminal = false) ∧
      (∀ db', db.deleteTask task.principalId task.taskId = .ok db' → Removed db db' task.taskId ∧
        ∀ principalId, db'.deleteTask principalId task.taskId = .ok db') ∧
      ∀ principalId, principalId ≠ task.principalId →
        db.deleteTask principalId task.taskId = .error (taskNotFound task.taskId) := by
  intro db
  have hc : Consistent db := consistent_reached ids history
  have hgone : ∀ {db : Database V} {principalId taskId}, (∀ t ∈ db.tasks, t.taskId ≠ taskId) →
      db.deleteTask principalId taskId = .ok db := by
    intro db principalId taskId hnone
    rw [Database.deleteTask, find?_eq_none.mpr hnone]
  refine ⟨fun _ _ => hgone, fun task htask => ⟨hc.deleteTask_refused_iff htask, ?_, ?_⟩⟩
  · intro db' hdelete
    obtain ⟨_, rfl⟩ := (deleteTask_eq_ok htask).mp hdelete
    refine ⟨removed_removeTask _, fun _ => hgone fun t ht => ?_⟩
    exact (mem_tasks_removeTask.mp ht).2
  · intro principalId hne
    simp [Database.deleteTask, find?_of_mem htask, ensure, Ne.symm hne]

end

end Renoa.Control
