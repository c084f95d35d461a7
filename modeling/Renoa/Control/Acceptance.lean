import Renoa.Control.Answering

/-!
# Which batches are accepted

A `ValidBatch` is one its node may send: it continues the execution of an admitted command that has
not ended, from the cursor or before it, repeats what is stored exactly and draws new identities
for the rest. Journalling it always succeeds (`exists_admitExecutionEventBatch`). What can still
refuse it is the answer it admits when it ends a request, whose derived identity may be taken: the
batch is accepted exactly when it is free (`valid_batch_accepted_iff`), and after the thread of an
answered request was deleted and the request admitted again, it is not (`valid_batch_refused`).
-/

namespace Renoa.Control

open Foundation Protocol List Table Database

variable {V : Type} {db db' : Database V} {task : TaskRow} {events rest : List (ExecutionEvent V)}
  {nid : NodeId} {first : ExecutionEvent V} {replyEventId : TaskEventId} {ids : DerivedIds}
  {evId : TaskEventId} {cid : CommandId} {sourceId : SourceId}

/-! ## Writes that succeed -/

/-- A record with a new identity and a new source is appended to its task. -/
theorem Database.exists_appendEvent (htask : task ∈ db.tasks)
    (hnum : (db.eventsOf task.taskId).map TaskEventRow.sequence = List.range task.nextSequence)
    (heventId : ∀ q ∈ db.taskEvents, q.eventId ≠ evId)
    (hsrc : ∀ q ∈ db.taskEvents, q.sourceId ≠ sourceId) (kind : TaskEventKind V) :
    ∃ appended, db.appendEvent evId task.taskId sourceId kind = .ok appended := by
  have hmark := db.markWake_eq task.principalId kind
  -- The task's sequence stands behind all of its records.
  have hseq : ∀ q ∈ db.taskEvents,
      ¬ (q.taskId = task.taskId ∧ q.sequence = task.nextSequence) := by
    rintro q hq ⟨hqtask, hqsequence⟩
    have hlt : q.sequence ∈ (db.eventsOf task.taskId).map TaskEventRow.sequence :=
      mem_map_of_mem (mem_eventsOf.mpr ⟨hq, hqtask⟩)
    rw [hnum, mem_range] at hlt
    omega
  obtain ⟨taskEvents, hins⟩ : ∃ taskEvents,
      (db.markWake task.principalId kind).taskEvents.insert
        (fun q => q.sourceId = sourceId ∨
          (q.taskId = task.taskId ∧ q.sequence = task.nextSequence))
        ⟨evId, task.taskId, task.nextSequence, sourceId, kind⟩ = some taskEvents := by
    rw [hmark]
    refine exists_insert heventId fun q hq => ?_
    simpa using ⟨hsrc q hq, fun hqtask hqsequence => hseq q hq ⟨hqtask, hqsequence⟩⟩
  refine exists_bind_eq_ok (require_eq_ok.mpr (find?_of_mem htask)) ?_
  refine exists_bind_eq_ok (bind_eq_ok.mpr ⟨taskEvents, require_eq_ok.mpr hins, rfl⟩) ?_
  exact ⟨_, rfl⟩

theorem TaskEventKind.cause_of_source {kind : TaskEventKind V}
    (h : kind.source = .command cid) : kind.cause = cid := by
  cases kind with
  | commandSubmitted cmd => exact SourceId.command.inj h
  | executionEvent cause ev => cases h

/-- A command with a new identity is admitted in a task that stands. -/
theorem Database.exists_insertCommand (hc : Consistent db) (htask : task ∈ db.tasks)
    (heventId : ∀ q ∈ db.taskEvents, q.eventId ≠ evId) {cmd : CommandEnvelope}
    (hfsh : ∀ q ∈ db.commands, q.commandId ≠ cmd.commandId) :
    ∃ inserted, db.insertCommand evId task.taskId cmd = .ok inserted := by
  obtain ⟨withRow, hrow⟩ : ∃ withRow, db.insertCommandRow task.taskId cmd = .ok withRow := by
    obtain ⟨commands, hins⟩ : ∃ commands, db.commands.insert (fun _ => false)
        ⟨cmd.commandId, task.taskId, cmd⟩ = some commands :=
      exists_insert hfsh fun _ _ => rfl
    refine exists_bind_eq_ok (ensure_of_eq_true ?_) ?_
    · rw [find?_of_mem htask]
      rfl
    · exact exists_bind_eq_ok (require_eq_ok.mpr hins) ⟨_, rfl⟩
  obtain ⟨_, _, hwithRow⟩ := insertCommandRow_ok hrow
  -- No record was made from a command that is not stored.
  have hsrc : ∀ q ∈ withRow.taskEvents, q.sourceId ≠ .command cmd.commandId := by
    rw [hwithRow]
    intro q hq hsrc
    rw [hc.journal.source q hq] at hsrc
    obtain ⟨c, hmem, hid, _⟩ := hc.journal.cause q hq
    exact hfsh c hmem (hid.trans (TaskEventKind.cause_of_source hsrc))
  obtain ⟨⟨ev, withEvent⟩, hev⟩ : ∃ appended, withRow.appendEvent evId task.taskId
      (.command cmd.commandId) (.commandSubmitted cmd) = .ok appended := by
    refine exists_appendEvent ?_ ?_ ?_ hsrc _
    · rw [hwithRow]
      exact htask
    · rw [hwithRow]
      exact hc.journal.numbered task htask
    · rw [hwithRow]
      exact heventId
  obtain ⟨pendingExecutions, hpend⟩ : ∃ pendingExecutions,
      withEvent.pendingExecutions.insert (fun _ => false) ⟨cmd.commandId, ev.sequence⟩ =
        some pendingExecutions := by
    obtain ⟨record, happ, _⟩ := appendEvent_ok hev
    rw [happ.pending_eq, hwithRow]
    refine exists_insert (fun p hp heq => ?_) fun _ _ => rfl
    obtain ⟨c, hmem, hid⟩ := hc.pending_command p hp
    exact hfsh c hmem (hid.trans heq)
  refine exists_bind_eq_ok hrow (exists_bind_eq_ok hev ?_)
  exact exists_bind_eq_ok (bind_eq_ok.mpr ⟨_, require_eq_ok.mpr hpend, rfl⟩) ⟨_, rfl⟩

/-! ## Batches -/

/-- The sequence the next event of the command's execution has. -/
def Database.cursorOf (db : Database V) (commandId : CommandId) : Nat :=
  (db.executionEventStreams.find? commandId).elim 0 ExecutionEventStreamRow.nextSequence

/-- The identities an appending transaction draws are new. -/
structure DrawsNew (db : Database V) (newId : Nat → TaskEventId) (replyEventId : TaskEventId) :
    Prop where
  injective : Function.Injective newId
  reply : ∀ n, newId n ≠ replyEventId
  unused : ∀ r ∈ db.taskEvents, r.eventId ≠ replyEventId ∧ ∀ n, r.eventId ≠ newId n

/-- A batch the node of an admitted command may send while its execution has not ended. -/
structure ValidBatch (db : Database V) (nodeId : NodeId) (taskId : TaskId)
    (commandId : CommandId) (first : ExecutionEvent V) (rest : List (ExecutionEvent V)) :
    Prop where
  bound : ∃ task ∈ db.tasks, task.taskId = taskId ∧ task.nodeId = nodeId
  command : ∃ c ∈ db.commands, c.commandId = commandId ∧ c.taskId = taskId
  unended : db.settled commandId = false
  continues : ContinuesExecution first.executionId first.sequence (first :: rest)
  starts : first.sequence ≤ db.cursorOf commandId
  execution : ∀ s ∈ db.executionEventStreams,
    s.commandId = commandId ↔ s.executionId = first.executionId
  repeats : ∀ e ∈ first :: rest, e.sequence < db.cursorOf commandId → e ∈ db.journalOf commandId
  new : ∀ e ∈ first :: rest, db.cursorOf commandId ≤ e.sequence →
    ∀ r ∈ db.taskEvents, r.sourceId ≠ .execution e.eventId
  distinct : ((first :: rest).map ExecutionEvent.eventId).Nodup

section

variable [JsonText V] {tid : TaskId} {cid : CommandId} {xid : ExecutionId}
  {state : StreamState V} {newId : Nat → TaskEventId} {admission : ExecutionEventAdmission V}

theorem Database.loadSourceEvent_eq_none (h : ∀ r ∈ db.taskEvents, r.sourceId ≠ sourceId) :
    db.loadSourceEvent sourceId = none := by
  unfold loadSourceEvent
  rw [Option.map_eq_none_iff, find?_eq_none]
  intro r hr
  simpa using h r hr

/-- The next event of an execution that has not ended is taken. -/
theorem Appending.exists_admit_next (h : Appending db tid cid xid state)
    {ev : ExecutionEvent V} (hseq : ev.sequence = state.nextSequence)
    (hopen : state.terminal = false)
    (hsrc : ∀ r ∈ state.db.taskEvents, r.sourceId ≠ .execution ev.eventId)
    (hid : ∀ r ∈ state.db.taskEvents, r.eventId ≠ newId state.appended.length) :
    ∃ (row : TaskEventRow V) (next : Database V), AppendedEvent state.db next row ∧
      row.taskId = tid ∧ row.sourceId = .execution ev.eventId ∧
      row.kind = .executionEvent cid ev ∧ row.eventId = newId state.appended.length ∧
      state.admitEvent newId tid cid ev = .ok
        { db := next
          nextSequence := state.nextSequence + 1
          terminal := ev.isTerminal
          appended := state.appended ++ [row.event] } := by
  obtain ⟨c, hc, _, rfl⟩ := h.exists_command
  obtain ⟨task, htask, htid⟩ := h.journal.command_task c hc
  obtain ⟨⟨record, next⟩, happend⟩ := exists_appendEvent htask
    (h.journal.numbered task htask) hid hsrc (.executionEvent cid ev)
  rw [htid] at happend
  obtain ⟨row, happ, rfl, hrow⟩ := appendEvent_ok happend
  refine ⟨row, next, happ, hrow.1, hrow.2.1, hrow.2.2.1, hrow.2.2.2, ?_⟩
  unfold StreamState.admitEvent
  rw [loadSourceEvent_eq_none hsrc]
  simp [validateExistingSource, ensure, hseq, hopen, StreamState.journal, happend]

omit [JsonText V] in
theorem ContinuesExecution.start_le {start : Nat} (h : ContinuesExecution xid start events)
    : ∀ e ∈ events, start ≤ e.sequence := by
  intro e he
  have hmem : e.sequence ∈ List.range' start events.length := by
    rw [← h.sequences]
    exact mem_map_of_mem he
  exact (mem_range'_1.mp hmem).1

/-- The loop takes a batch that repeats what is stored and goes on from the cursor. -/
theorem Appending.exists_admitAll {start : Nat}
    (h : Appending db tid cid xid state)
    (hconts : ContinuesExecution xid start events) (hst : start ≤ state.nextSequence)
    (hopen : state.terminal = true → ∀ e ∈ events, e.sequence < state.nextSequence)
    (hold : ∀ e ∈ events, e.sequence < state.nextSequence →
      e ∈ state.db.journalOf cid ∧ e.reparsed = e)
    (hnew : ∀ e ∈ events, state.nextSequence ≤ e.sequence → ∀ r ∈ state.db.taskEvents, r.sourceId ≠
      .execution e.eventId) (hdist : (events.map ExecutionEvent.eventId).Nodup)
    (hinj : Function.Injective newId)
    (hids : ∀ r ∈ state.db.taskEvents, ∀ n, state.appended.length ≤ n → r.eventId ≠ newId n) :
    ∃ state', appendContiguousExecutionEvents newId tid cid events state = .ok state' ∧
      ∀ r ∈ state'.db.taskEvents, r ∈ state.db.taskEvents ∨ ∃ n, r.eventId = newId n := by
  induction events generalizing state start with
  | nil => exact ⟨state, rfl, fun r hr => .inl hr⟩
  | cons ev rest ih =>
    obtain ⟨hnotMem, hdist⟩ := nodup_cons.mp hdist
    obtain ⟨hexec, rfl, hstarted, hfinal, hrest⟩ := continuesExecution_cons.mp hconts
    unfold appendContiguousExecutionEvents at ih ⊢
    rw [foldlM_cons]
    by_cases hlt : ev.sequence < state.nextSequence
    · -- A repeated event leaves the state as it is.
      obtain ⟨hmem, hread⟩ := hold ev mem_cons_self hlt
      rw [(StreamState.admitEvent_stored h.journal h.exists_command hmem rfl hlt).mpr ⟨hread, rfl⟩]
      exact ih h hrest hlt (fun hend e he => hopen hend e (mem_cons_of_mem _ he))
        (fun e he => hold e (mem_cons_of_mem _ he))
        (fun e he => hnew e (mem_cons_of_mem _ he)) hdist hids
    · have hseq : ev.sequence = state.nextSequence := by omega
      have hunended : state.terminal = false := by
        rw [← Bool.not_eq_true]
        exact fun hend => hlt (hopen hend ev mem_cons_self)
      obtain ⟨row, next, happ, htask, hsrc, hkind, heventId, hadmit⟩ :=
        h.exists_admit_next hseq hunended
          (hnew ev mem_cons_self (Nat.le_of_eq hseq.symm))
          fun r hr => hids r hr _ (Nat.le_refl _)
      have hmid := h.append hexec hstarted hseq hunended happ htask hsrc hkind
      have hlat : ∀ e ∈ rest, state.nextSequence < e.sequence := by
        rw [← hseq]
        exact hrest.start_le
      refine (ih hmid hrest (Nat.le_of_eq (congrArg (· + 1) hseq)) ?_ ?_ ?_ hdist ?_).imp
        fun state' hstate => ⟨bind_eq_ok.mpr ⟨_, hadmit, hstate.1⟩, fun r hr => ?_⟩
      · -- The end of the execution is the last event of the batch.
        intro hend e he
        rw [isEmpty_iff.mp (hfinal hend)] at he
        exact absurd he not_mem_nil
      · intro e he hbelow
        exact absurd (hlat e he) (Nat.not_lt.mpr (Nat.le_of_lt_succ hbelow))
      · intro e he _ r hr
        rcases happ.mem_taskEvents.mp hr with hr | rfl
        · exact hnew e (mem_cons_of_mem _ he) (Nat.le_of_lt (hlat e he)) r hr
        · rw [hsrc]
          intro heq
          apply hnotMem
          rw [SourceId.execution.inj heq]
          exact mem_map_of_mem he
      · intro r hr n hn
        have hn : state.appended.length + 1 ≤ n := by simpa using hn
        rcases happ.mem_taskEvents.mp hr with hr | rfl
        · exact hids r hr n (Nat.le_of_succ_le hn)
        · rw [heventId]
          exact fun heq => absurd (hinj heq) (by omega)
      · rcases hstate.2 r hr with hmem | hdrawn
        · rcases happ.mem_taskEvents.mp hmem with hmem | rfl
          · exact .inl hmem
          · exact .inr ⟨_, heventId⟩
        · exact .inr hdrawn

omit [JsonText V] in
/-- The stream of a valid batch is the command's, at its cursor, or there is none. -/
theorem ValidBatch.initialCursor (h : ValidBatch db nid tid cid first rest) :
    initialExecutionEventCursor (db.executionEventStreams.find? cid) first cid =
      .ok (db.cursorOf cid) := by
  have hstarts := h.starts
  unfold Database.cursorOf at hstarts ⊢
  cases hfind : db.executionEventStreams.find? cid with
  | none =>
    rw [hfind] at hstarts
    exact bind_eq_ok.mpr ⟨(), ensure_of_eq_true (decide_eq_true (Nat.le_zero.mp hstarts)), rfl⟩
  | some stream =>
    have hexec := (h.execution stream (mem_of_find? hfind)).mp
      (key_of_find? hfind)
    exact bind_eq_ok.mpr ⟨(), ensure_of_eq_true (decide_eq_true hexec), rfl⟩

omit [JsonText V] in
theorem ValidBatch.exists_storeCursor (h : ValidBatch db nid tid cid first rest)
    {mid : Database V} (hstrs : mid.executionEventStreams = db.executionEventStreams)
    (nextSequence : Nat) (terminal : Bool) :
    ∃ st, mid.storeExecutionEventCursor
      ⟨cid, first.executionId, nextSequence, terminal⟩
      (db.executionEventStreams.find? cid).isSome = .ok st := by
  cases hfind : db.executionEventStreams.find? cid with
  | some stream => exact ⟨_, rfl⟩
  | none =>
    have hnone : ∀ s ∈ mid.executionEventStreams, s.commandId ≠ cid := by
      rw [hstrs]
      exact find?_eq_none.mp hfind
    obtain ⟨streams, hins⟩ : ∃ streams, mid.executionEventStreams.insert
        (fun q => q.executionId = first.executionId)
        ⟨cid, first.executionId, nextSequence, terminal⟩ = some streams := by
      refine exists_insert hnone fun s hs => decide_eq_false fun heq => hnone s hs ?_
      rw [hstrs] at hs
      exact (h.execution s hs).mpr heq
    exact exists_bind_eq_ok (require_eq_ok.mpr hins) ⟨_, rfl⟩

/-- What a batch repeats is read back as it was sent. -/
def ReadsBack (db : Database V) (commandId : CommandId) (events : List (ExecutionEvent V)) : Prop :=
  ∀ e ∈ events, e.sequence < db.cursorOf commandId → e.reparsed = e

/-- A valid batch is journalled if what it repeats is read back. -/
theorem Database.exists_admitExecutionEventBatch (hc : Consistent db)
    (h : ValidBatch db nid tid cid first rest) (hread : ReadsBack db cid (first :: rest))
    (hdraws : DrawsNew db newId replyEventId) :
    ∃ admission mid, db.admitExecutionEventBatch newId tid cid (first :: rest) =
      .ok (admission, mid) ∧ ∀ r ∈ mid.taskEvents, r.eventId ≠ replyEventId := by
  have hst := appending_start hc h.command h.initialCursor
  have hunended : (db.executionEventStreams.find? cid).any
      ExecutionEventStreamRow.terminal = false := by
    have hdone := h.unended
    unfold settled at hdone
    cases hfind : db.executionEventStreams.find? cid with
    | none => rfl
    | some stream => simpa [hfind] using hdone
  obtain ⟨state, happ, hrows⟩ := hst.exists_admitAll h.continues h.starts
    (fun hended => by rw [hunended] at hended; cases hended)
    (fun e he hlt => ⟨h.repeats e he hlt, hread e he hlt⟩) h.new h.distinct hdraws.injective
    (fun r hr n _ => (hdraws.unused r hr).2 n)
  obtain ⟨hend, hsto, -⟩ := hst.admitAll h.continues.execution h.continues.started happ
  have hmvd : state.nextSequence ≠ 0 := by
    obtain ⟨stored, hstored, -⟩ := hsto first mem_cons_self
    exact Nat.ne_of_gt (Nat.zero_lt_of_lt (hend.openStream.sequence_lt hstored))
  obtain ⟨st, hstore⟩ := h.exists_storeCursor hend.streams_eq state.nextSequence state.terminal
  obtain ⟨_, hdb⟩ := storeExecutionEventCursor_ok (by rw [hend.streams_eq]) hstore
  refine ⟨⟨state.nextSequence - 1, state.appended, none⟩, st, ?_, ?_⟩
  · exact admitExecutionEventBatch_eq_ok.mpr ⟨first, rest, _, state, rfl, h.command,
      h.initialCursor, h.continues, h.starts, happ, hstore, hmvd, rfl⟩
  · rw [show st.taskEvents = state.db.taskEvents by rw [hdb]]
    intro r hr
    rcases hrows r hr with hmem | ⟨n, hn⟩
    · exact (hdraws.unused r hmem).1
    · rw [hn]
      exact hdraws.reply n

/-- The identity of the answer the batch would admit is free. -/
def AnswerFree (ids : DerivedIds) (db : Database V) (commandId : CommandId)
    (events : List (ExecutionEvent V)) : Prop :=
  (∃ e ∈ events, e.isTerminal = true) → (db.askingOf? commandId).isSome →
    ∀ q ∈ db.commands, q.commandId ≠ ids.replyId commandId

omit [JsonText V] in
theorem Database.exists_answerRequest (hc : Consistent db) (htask : task ∈ db.tasks)
    {origin : AgentOrigin}
    (hfree : (db.commands.find? origin.fromCommand).isSome → ∀ q ∈ db.commands, q.commandId ≠
      ids.replyId cid) (hunused : ∀ r ∈ db.taskEvents, r.eventId ≠ replyEventId)
    (replier : String) (terminal : ExecutionTerminal) :
    ∃ replied, db.answerRequest ids replyEventId task.taskId cid replier terminal origin =
      .ok replied := by
  unfold answerRequest
  cases hask : db.commands.find? origin.fromCommand with
  | none => exact ⟨_, rfl⟩
  | some asking =>
    obtain ⟨asker, hasker, hid⟩ := hc.journal.command_task asking (mem_of_find? hask)
    have hloadAsker : db.loadTask asking.taskId = .ok asker := by
      rw [← hid]
      exact require_eq_ok.mpr (find?_of_mem hasker)
    have hload : db.loadTask task.taskId = .ok task := require_eq_ok.mpr (find?_of_mem htask)
    obtain ⟨inserted, hins⟩ : ∃ inserted, db.insertCommand replyEventId asker.taskId
        (db.replyCommand ids task.taskId cid replier terminal origin asking.command asker
          task) = .ok inserted :=
      exists_insertCommand hc hasker hunused (hfree (by rw [hask]; rfl))
    rw [hid] at hins
    refine exists_bind_eq_ok hloadAsker (exists_bind_eq_ok hload ?_)
    exact exists_bind_eq_ok hins ⟨_, rfl⟩

omit [JsonText V] in
/-- The answer of a journalled batch is admitted when its identity is free. -/
theorem JournalledBatch.exists_admitReply {mid : Database V} (hc : Consistent db)
    (h : JournalledBatch db mid tid cid events admission)
    (hfree : AnswerFree ids db cid events)
    (hunused : ∀ r ∈ mid.taskEvents, r.eventId ≠ replyEventId) (replier : String) :
    ∃ replied, mid.admitReply ids replyEventId tid cid admission.events replier =
      .ok replied := by
  unfold Database.admitReply
  cases hterm : admission.events.findSome? TaskEvent.terminal? with
  | none => exact ⟨_, rfl⟩
  | some terminal =>
    obtain ⟨c, hmem, rfl, rfl⟩ := h.command
    rw [← h.commands_eq] at hmem
    have hfind := find?_of_mem hmem
    apply exists_bind_eq_ok (require_eq_ok.mpr hfind)
    cases hreq : c.command.request? with
    | none =>
      rw [CommandEnvelope.request?] at hreq
      rw [hreq]
      exact ⟨_, rfl⟩
    | some origin =>
      obtain ⟨task, htask, htid⟩ := h.consistent.journal.command_task c hmem
      have hident : (mid.commands.find? origin.fromCommand).isSome →
          ∀ q ∈ mid.commands, q.commandId ≠ ids.replyId c.commandId := by
        intro hsome
        have hask : (db.askingOf? c.commandId).isSome := by
          rw [← askingOf?_congr h.commands_eq]
          simpa [Database.askingOf?, hfind, hreq] using hsome
        have hends := (h.terminal_iff hc).mp (by rw [hterm]; rfl)
        rw [h.commands_eq]
        exact hfree (h.terminal_mem hc hends) hask
      rw [CommandEnvelope.request?] at hreq
      rw [hreq, ← htid]
      exact exists_answerRequest h.consistent htask hident hunused replier terminal

/-- The answer an accepted batch admits has a free identity. -/
theorem ValidBatch.answerFree_of_ok (hc : Consistent db)
    (h : ValidBatch db nid tid cid first rest) {replier : String} (hok :
      db.appendExecutionEvents ids newId replyEventId tid cid (first :: rest) replier = .ok
      (admission, db')) : AnswerFree ids db cid (first :: rest) := by
  rintro ⟨e, he, hend⟩ hask
  obtain ⟨mid, hbat, hrep⟩ := appendExecutionEvents_ok hc hok
  have hdone : db'.settled cid = true := by
    rw [settled_congr hrep.streams_eq]
    obtain ⟨stored, hstored, -, -, hsame⟩ := hbat.stored e he
    exact (hbat.consistent.settled_iff cid).mpr ⟨stored, hstored, hsame.trans hend⟩
  have hans := appendExecutionEvents_answered hc hok
  generalize admission.reply = reply at hans
  cases hans with
  | silent hnone _ =>
    rw [hnone ⟨h.unended, hdone⟩] at hask
    cases hask
  | answered _ _ hanswer => exact hanswer.fresh

/-- A repeated event is taken only if it is read back as it was sent. -/
theorem Appending.reads_back (h : Appending db tid cid xid state) {start : Nat}
    (hconts : ContinuesExecution xid start events) {state' : StreamState V}
    (hok : appendContiguousExecutionEvents newId tid cid events state = .ok state') :
    ∀ e ∈ events, e.sequence < state.nextSequence → e ∈ state.db.journalOf cid →
      e.reparsed = e := by
  induction events generalizing state start with
  | nil => exact fun e he => absurd he not_mem_nil
  | cons ev rest ih =>
    obtain ⟨hexec, rfl, hstarted, -, hrest⟩ := continuesExecution_cons.mp hconts
    obtain ⟨mid, hfst, hok⟩ := bind_ok hok
    obtain ⟨hmid, -, hkept, -⟩ := h.admitEvent hexec hstarted hfst
    intro e he hlt hmem
    rcases mem_cons.mp he with rfl | he
    · exact ((StreamState.admitEvent_stored h.journal h.exists_command hmem rfl hlt).mp hfst).1
    · obtain ⟨r, hr, hkind⟩ := mem_journalOf.mp hmem
      have hmem' := mem_journalOf.mpr ⟨r, hkept r hr, hkind⟩
      exact ih hmid hrest hok e he (hmid.openStream.sequence_lt hmem') hmem'

theorem ValidBatch.readsBack_of_ok (hc : Consistent db)
    (h : ValidBatch db nid tid cid first rest)
    (hok : db.admitExecutionEventBatch newId tid cid (first :: rest) = .ok (admission, db')) :
    ReadsBack db cid (first :: rest) := by
  intro e he hlt
  obtain ⟨_, _, next, state, ⟨⟩, _, hcurs, _, _, happ, _⟩ := admitExecutionEventBatch_eq_ok.mp hok
  cases hcurs.symm.trans h.initialCursor
  exact (appending_start hc h.command h.initialCursor).reads_back h.continues happ e he hlt
    (h.repeats e he hlt)

theorem ValidBatch.exists_accepted (hc : Consistent db)
    (h : ValidBatch db nid tid cid first rest) (hdraws : DrawsNew db newId replyEventId)
    (hread : ReadsBack db cid (first :: rest)) (hfree : AnswerFree ids db cid (first :: rest))
    (replier : String) :
    ∃ admission db', db.publishExecutionEvents ids nid newId replyEventId tid cid
      (first :: rest) replier = .ok (admission, db') := by
  obtain ⟨task, htask, rfl, rfl⟩ := h.bound
  obtain ⟨admission, mid, hbat, hunused⟩ := exists_admitExecutionEventBatch hc h hread hdraws
  obtain ⟨⟨reply, db'⟩, hrep⟩ :=
    (admitExecutionEventBatch_ok hc hbat).1.exists_admitReply hc hfree hunused replier
  refine ⟨{ admission with reply }, db', ?_⟩
  refine bind_eq_ok.mpr ⟨task, require_eq_ok.mpr (find?_of_mem htask), ?_⟩
  refine bind_eq_ok.mpr ⟨(), ensure_of_eq_true (decide_eq_true rfl), ?_⟩
  exact bind_eq_ok.mpr ⟨_, hbat, bind_eq_ok.mpr ⟨_, hrep, rfl⟩⟩

/-- **A valid batch is accepted** in a reached state exactly when the identity of the answer it
would admit is free and what it repeats is read back as it was sent. -/
theorem valid_batch_accepted_iff (ids : DerivedIds) (history : List (Transaction V))
    (nodeId : NodeId) (newId : Nat → TaskEventId) (replyEventId : TaskEventId) (taskId : TaskId)
    (commandId : CommandId) (first : ExecutionEvent V) (rest : List (ExecutionEvent V))
    (replier : String)
    (hvalid : ValidBatch (Database.reached ids history) nodeId taskId commandId first rest)
    (hdraws : DrawsNew (Database.reached ids history) newId replyEventId) :
    (∃ admission db', (Database.reached ids history).publishExecutionEvents ids nodeId newId
      replyEventId taskId commandId (first :: rest) replier = .ok (admission, db')) ↔
      AnswerFree ids (Database.reached ids history) commandId (first :: rest) ∧
        ReadsBack (Database.reached ids history) commandId (first :: rest) := by
  have hc := consistent_reached ids history
  constructor
  · rintro ⟨admission, db', hok⟩
    iterate 2 obtain ⟨_, _, hok⟩ := bind_ok hok
    obtain ⟨_, hbat, _⟩ := bind_ok hok
    exact ⟨hvalid.answerFree_of_ok hc hok, hvalid.readsBack_of_ok hc hbat⟩
  · rintro ⟨hfree, hread⟩
    exact hvalid.exists_accepted hc hdraws hread hfree replier

end

/-! ## A request that is admitted again -/

theorem drawsNew_of_lt {bound : Nat} (h : ∀ r ∈ db.taskEvents.rows, r.eventId.uuid < bound) :
    DrawsNew db (fun n => ⟨bound + 1 + n⟩) ⟨bound⟩ where
  injective m n heq := by
    have := congrArg TaskEventId.uuid heq
    simpa using this
  reply n heq := by
    have := congrArg TaskEventId.uuid heq
    simp at this
    omega
  unused r hr := by
    have hlt := h r hr
    refine ⟨fun heq => ?_, fun n heq => ?_⟩
    · rw [heq] at hlt
      exact Nat.lt_irrefl _ hlt
    · rw [heq] at hlt
      simp at hlt
      omega

/-- A whole execution is a valid batch for a command that has not started. -/
theorem wholeExecution_valid {db : Database Unit} {tid : TaskId} {xid : ExecutionId}
    (hbnd : ∃ task ∈ db.tasks.rows, task.taskId = tid ∧ task.nodeId = nid)
    (hcmd : ∃ c ∈ db.commands.rows, c.commandId = cid ∧ c.taskId = tid)
    (hnone : db.executionEventStreams.find? cid = none)
    (hexec : ∀ s ∈ db.executionEventStreams.rows, s.executionId ≠ xid) (hsrc : ∀ e ∈
      wholeExecution xid, ∀ r ∈ db.taskEvents.rows, r.sourceId ≠ .execution e.eventId) :
    ValidBatch db nid tid cid (startOf xid) [endOf xid] where
  bound := hbnd
  command := hcmd
  unended := by simp [Database.settled, hnone]
  continues := by
    apply validateExecutionEvents_eq_ok.mp
    simp [validateExecutionEvents, validateEventKind, ensure, startOf, endOf]
  starts := Nat.zero_le _
  execution s hs := by
    refine iff_of_false (fun heq => ?_) (hexec s hs)
    exact find?_eq_none.mp hnone s hs heq
  repeats e _ hlt := by
    rw [Database.cursorOf, hnone] at hlt
    exact absurd hlt (Nat.not_lt_zero _)
  new e he _ := hsrc e he
  distinct := by simp [startOf, endOf]

theorem valid_batch_accepted_iff_asked : ∃ admission db',
    (Database.reached offsetIds askedHistory).publishExecutionEvents offsetIds ⟨0⟩
      (fun n => ⟨3 + n⟩) ⟨2⟩ ⟨50⟩ ⟨2⟩ (wholeExecution ⟨0⟩) "Reader" = .ok (admission, db') := by
  refine (valid_batch_accepted_iff offsetIds askedHistory ⟨0⟩ _ ⟨2⟩ ⟨50⟩ ⟨2⟩ (startOf ⟨0⟩)
    [endOf ⟨0⟩] "Reader" ?_ (drawsNew_of_lt (by decide))).mpr ⟨fun _ _ => ?_, ?_⟩
  · exact wholeExecution_valid (by decide) (by decide) (by decide) (by decide) (by decide)
  · decide
  · rw [ReadsBack]
    decide

/-- The request is answered, its thread is deleted and the same message is admitted again. -/
def readmittedHistory : List (Transaction Unit) :=
  askedHistory ++ [answeringBatch, .deleteTask ⟨0⟩ ⟨50⟩,
    .admitAgentMessage ⟨5⟩ ⟨0⟩ bothCards (some bothCards) question]

/-- The first answer still stands in the asker's task, so its identity refuses the second one and
the whole batch with it. -/
theorem valid_batch_refused :
    ValidBatch (Database.reached offsetIds readmittedHistory) ⟨0⟩ ⟨50⟩ ⟨2⟩ (startOf ⟨1⟩)
      [endOf ⟨1⟩] ∧
    DrawsNew (Database.reached offsetIds readmittedHistory) (fun n => ⟨7 + n⟩) ⟨6⟩ ∧
    (Database.reached offsetIds readmittedHistory).publishExecutionEvents offsetIds ⟨0⟩
      (fun n => ⟨7 + n⟩) ⟨6⟩ ⟨50⟩ ⟨2⟩ [startOf ⟨1⟩, endOf ⟨1⟩] "Reader" = .error .sqlite :=
  ⟨wholeExecution_valid (by decide) (by decide) (by decide) (by decide) (by decide),
    drawsNew_of_lt (by decide), rfl⟩

end Renoa.Control
