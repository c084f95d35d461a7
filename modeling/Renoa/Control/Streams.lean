import Renoa.Control.Appending

/-!
# Appending a batch of execution events

A batch passes validation exactly when it continues one execution (`ContinuesExecution`). While
its events are taken one by one, the journal stays consistent with the running cursor
(`Appending`); the stored cursor catches up at the end.
-/

namespace Renoa.Control

open Foundation Protocol List Table Database Function

variable {V : Type} {db db' : Database V} {event : ExecutionEvent V} {xid : ExecutionId}
  {events : List (ExecutionEvent V)} {newId : Nat → TaskEventId} {tid : TaskId}
  {cid : CommandId}

/-! ## Validation -/

/-- The events have the sequences from `start` on, belong to one execution, and begin and end it
only at its first event and at the last of the list. -/
structure ContinuesExecution (executionId : ExecutionId) (start : Nat)
    (events : List (ExecutionEvent V)) : Prop where
  sequences : events.map ExecutionEvent.sequence = List.range' start events.length
  execution : ∀ e ∈ events, e.executionId = executionId
  started : ∀ e ∈ events, e.isStarted = true ↔ e.sequence = 0
  ended : ∀ e ∈ events, e.isTerminal = true → e.sequence + 1 = start + events.length

theorem validateEventKind_eq_ok {finalEvent : Bool} :
    validateEventKind event.sequence finalEvent event.kind = .ok () ↔
      (event.isStarted = true ↔ event.sequence = 0) ∧
        (event.isTerminal = true → finalEvent = true) := by
  unfold ExecutionEvent.isStarted ExecutionEvent.isTerminal
  cases event.kind with
  | executionStarted =>
    simp [validateEventKind, ExecutionEventKind.isStarted, ExecutionEventKind.terminal?]
  | executionTerminated terminal =>
    simp [validateEventKind, ExecutionEventKind.isStarted, ExecutionEventKind.terminal?,
      bind_eq_ok, and_comm]
  | turnStarted | assistantMessage _ | toolStarted _ _ _ | toolFinished _ _ _ =>
    simp [validateEventKind, ExecutionEventKind.isStarted, ExecutionEventKind.terminal?]

theorem continuesExecution_cons {start : Nat} {rest : List (ExecutionEvent V)} :
    ContinuesExecution xid start (event :: rest) ↔
      event.executionId = xid ∧ event.sequence = start ∧
        (event.isStarted = true ↔ event.sequence = 0) ∧
        (event.isTerminal = true → rest.isEmpty = true) ∧
        ContinuesExecution xid (start + 1) rest := by
  constructor
  · intro h
    have hseqs := h.sequences
    rw [map_cons, length_cons, range'_succ, List.cons.injEq] at hseqs
    refine ⟨h.execution event mem_cons_self, hseqs.1, h.started event mem_cons_self,
      fun hterm => ?_, hseqs.2, fun e he => h.execution e (mem_cons_of_mem _ he),
      fun e he => h.started e (mem_cons_of_mem _ he), fun e he hterm => ?_⟩
    · have hlast := h.ended event mem_cons_self hterm
      rw [hseqs.1, length_cons] at hlast
      rw [isEmpty_iff_length_eq_zero]
      omega
    · have hlast := h.ended e (mem_cons_of_mem _ he) hterm
      rw [length_cons] at hlast
      omega
  · rintro ⟨hexec, hseq, hst, hfinal, hrest⟩
    refine ⟨?_, ?_, ?_, ?_⟩
    · rw [map_cons, hrest.sequences, hseq, length_cons, range'_succ]
    · intro e he
      rcases mem_cons.mp he with rfl | he
      · exact hexec
      · exact hrest.execution e he
    · intro e he
      rcases mem_cons.mp he with rfl | he
      · exact hst
      · exact hrest.started e he
    · intro e he hterm
      rcases mem_cons.mp he with rfl | he
      · have hemp := isEmpty_iff_length_eq_zero.mp (hfinal hterm)
        rw [hseq, length_cons, hemp]
      · have hlast := hrest.ended e he hterm
        rw [length_cons]
        omega

/-- Validation accepts exactly the lists that continue the execution. -/
theorem validateExecutionEvents_eq_ok {start : Nat} :
    validateExecutionEvents xid start events = .ok () ↔
      ContinuesExecution xid start events := by
  induction events generalizing start with
  | nil => refine iff_of_true rfl ⟨rfl, ?_, ?_, ?_⟩ <;> exact fun e he => absurd he not_mem_nil
  | cons event rest ih =>
    rw [continuesExecution_cons, validateExecutionEvents]
    constructor
    · intro h
      obtain ⟨hplace, h⟩ := ensure_bind_ok h
      obtain ⟨_, hkind, h⟩ := bind_ok h
      simp only [Bool.and_eq_true, decide_eq_true_eq] at hplace
      obtain ⟨hexec, rfl⟩ := hplace
      obtain ⟨hst, hfinal⟩ := validateEventKind_eq_ok.mp hkind
      exact ⟨hexec, rfl, hst, hfinal, ih.mp h⟩
    · rintro ⟨hexec, rfl, hst, hfinal, hrest⟩
      refine bind_eq_ok.mpr ⟨(), ensure_of_eq_true (by simp [hexec]), ?_⟩
      exact bind_eq_ok.mpr ⟨(), validateEventKind_eq_ok.mpr ⟨hst, hfinal⟩, ih.mpr hrest⟩

/-! ## The events of a batch -/

/-- Appending a batch has reached `state`: the journal agrees with the running cursor, and besides
the records of the batch only the task's sequence and the wakes changed. -/
structure Appending (db : Database V) (taskId : TaskId) (commandId : CommandId)
    (executionId : ExecutionId) (state : StreamState V) : Prop where
  journal : JournalInv state.db (Function.update db.executionEventStreams.find? commandId
    (some ⟨commandId, executionId, state.nextSequence, state.terminal⟩))
  command : ∃ c ∈ db.commands, c.commandId = commandId ∧ c.taskId = taskId
  rows : ∃ rows, state.db.taskEvents.rows = db.taskEvents.rows ++ rows ∧
    state.appended = rows.map TaskEventRow.event ∧
    ∀ r ∈ rows, r.taskId = taskId ∧ ∃ event, r.kind = .executionEvent commandId event
  keeps : ∀ taskId, KeepsTask taskId db state.db
  rest : state.db = { db with
    tasks := state.db.tasks, taskEvents := state.db.taskEvents, pushWakes := state.db.pushWakes }

theorem Database.loadSourceEvent_eq_some [JsonText V] {sourceId : SourceId} {event : TaskEvent V}
    (h : db.loadSourceEvent sourceId = some event) :
    ∃ r ∈ db.taskEvents, event.kind = r.kind.reparsed := by
  obtain ⟨r, hr, rfl⟩ := Option.map_eq_some_iff.mp h
  exact ⟨r, mem_of_find?_eq_some hr, rfl⟩

theorem TaskEventKind.reparsed_eq_executionEvent [JsonText V] {kind : TaskEventKind V}
    {cid : CommandId} (h : kind.reparsed = .executionEvent cid event) :
    ∃ stored, kind = .executionEvent cid stored ∧ stored.reparsed = event := by
  cases kind with
  | commandSubmitted command => cases h
  | executionEvent commandId stored =>
    cases h
    exact ⟨stored, rfl, rfl⟩

/-- An event of a batch is journalled: as it is, or it was and is read back as the event. -/
def Database.Journals [JsonText V] (db : Database V) (commandId : CommandId)
    (event : ExecutionEvent V) : Prop :=
  ∃ stored ∈ db.journalOf commandId, stored = event ∨ stored.reparsed = event

/-- The place of an event in its execution is journalled, whatever was read back of the event. -/
def Database.Records (db : Database V) (commandId : CommandId) (event : ExecutionEvent V) : Prop :=
  ∃ stored ∈ db.journalOf commandId, stored.eventId = event.eventId ∧
    stored.sequence = event.sequence ∧ stored.isTerminal = event.isTerminal

theorem Database.Journals.records [JsonText V] {cid : CommandId} (h : db.Journals cid event) :
    db.Records cid event := by
  obtain ⟨stored, hsto, rfl | rfl⟩ := h
  · exact ⟨stored, hsto, rfl, rfl, rfl⟩
  · exact ⟨stored, hsto, rfl, rfl, stored.isTerminal_reparsed.symm⟩

namespace Appending

variable {tid : TaskId} {cid : CommandId} {xid : ExecutionId}
  {state state' : StreamState V}

section

variable (h : Appending db tid cid xid state)

include h

theorem openStream :
    OpenStream (state.db.journalOf cid)
      ⟨cid, xid, state.nextSequence, state.terminal⟩ := by
  have hstr := h.journal.streams cid
  rwa [update_self] at hstr

theorem commands_eq : state.db.commands = db.commands := congrArg (·.commands) h.rest

theorem exists_command : ∃ c ∈ state.db.commands, c.commandId = cid ∧ c.taskId = tid := by
  rw [h.commands_eq]
  exact h.command

theorem streams_eq : state.db.executionEventStreams = db.executionEventStreams :=
  congrArg (·.executionEventStreams) h.rest

/-- The next event of the execution is journalled. -/
theorem append (hexec : event.executionId = xid)
    (hst : event.isStarted = true ↔ event.sequence = 0)
    (hseq : event.sequence = state.nextSequence) (hopen : state.terminal = false)
    {row : TaskEventRow V} {next : Database V} (happ : AppendedEvent state.db next row)
    (htask : row.taskId = tid) (hsrc : row.sourceId = .execution event.eventId)
    (hkind : row.kind = .executionEvent cid event) :
    Appending db tid cid xid
      { db := next
        nextSequence := state.nextSequence + 1
        terminal := event.isTerminal
        appended := state.appended ++ [row.event] } where
  journal := by
    apply happ.journalInv h.journal
    · rw [hsrc, hkind]
      rfl
    · rw [h.commands_eq, hkind, htask]
      exact h.command
    · intro other
      rw [happ.journalOf_eq, hkind]
      by_cases hoth : other = cid
      · rw [hoth, update_self]
        have hself : (TaskEventKind.executionEvent cid event).eventOf? cid =
            some event := TaskEventKind.eventOf?_eq_some.mpr rfl
        rw [hself]
        exact h.openStream.append hseq hexec hst hopen
      · have hnone : (TaskEventKind.executionEvent cid event).eventOf? other = none :=
          if_neg fun heq => hoth heq.symm
        have hstr := h.journal.streams other
        rw [update_of_ne hoth] at hstr ⊢
        rw [hnone, Option.toList_none, append_nil]
        exact hstr
  command := h.command
  rows := by
    obtain ⟨rows, hrows, hevs, htks⟩ := h.rows
    refine ⟨rows ++ [row], ?_, ?_, ?_⟩
    · rw [happ.rows, hrows, append_assoc]
    · rw [hevs, map_append, map_singleton]
    · intro r hr
      rcases mem_append.mp hr with hr | hr
      · exact htks r hr
      · rw [mem_singleton.mp hr]
        exact ⟨htask, event, hkind⟩
  keeps t := (h.keeps t).trans (happ.keepsTask t)
  rest := by rw [happ.rest, h.rest]

end

variable [JsonText V]

/-- An event that is taken is journalled: it was before, or it is the next one. -/
theorem admitEvent (h : Appending db tid cid xid state)
    (hexec : event.executionId = xid)
    (hst : event.isStarted = true ↔ event.sequence = 0)
    (hok : state.admitEvent newId tid cid event = .ok state') :
    Appending db tid cid xid state' ∧
      state'.db.Journals cid event ∧
      (∀ r ∈ state.db.taskEvents, r ∈ state'.db.taskEvents) ∧
      ∀ r ∈ state'.db.taskEvents, r ∈ state.db.taskEvents ∨
        r.kind = .executionEvent cid event := by
  obtain ⟨hexist, hok⟩ := ensure_bind_ok hok
  -- A stored record of the source is one of this event.
  have hjrn : ∀ st, state.db.loadSourceEvent (.execution event.eventId) = some st →
      state.db.Journals cid event := by
    intro st hload
    obtain ⟨r, hr, hkind⟩ := loadSourceEvent_eq_some hload
    rw [hload] at hexist
    simp only [Option.all_some, Bool.and_eq_true, decide_eq_true_eq, hkind] at hexist
    obtain ⟨stored, hstored, hread⟩ := TaskEventKind.reparsed_eq_executionEvent hexist.2
    exact ⟨stored, mem_journalOf.mpr ⟨r, hr, hstored⟩, .inr hread⟩
  split at hok
  · obtain ⟨hsto, hok⟩ := ensure_bind_ok hok
    cases hok
    obtain ⟨st, hload⟩ := Option.isSome_iff_exists.mp hsto
    exact ⟨h, hjrn st hload, fun _ hr => hr, fun _ hr => .inl hr⟩
  · obtain ⟨_, hle, hok⟩ := bind_ok hok
    obtain ⟨_, hopen, hok⟩ := bind_ok hok
    have hle := of_decide_eq_true (ensure_ok hle)
    have hopen : state.terminal = false := by simpa using ensure_ok hopen
    have hseq : event.sequence = state.nextSequence := by omega
    cases hload : state.db.loadSourceEvent (.execution event.eventId) with
    | some st =>
      -- What is journalled lies below the cursor.
      obtain ⟨stored, hmem, -, hsame, -⟩ := (hjrn st hload).records
      have hlt := h.openStream.sequence_lt hmem
      rw [hsame] at hlt
      exact absurd hseq (Nat.ne_of_lt hlt)
    | none =>
      rw [hload] at hok
      obtain ⟨⟨record, next⟩, happend, hok⟩ := bind_ok hok
      cases hok
      obtain ⟨row, happ, rfl, htask, hsrc, hkind, _⟩ := appendEvent_ok happend
      refine ⟨h.append hexec hst hseq hopen happ htask hsrc hkind, ?_,
        fun r hr => happ.mem_taskEvents.mpr (.inl hr), fun r hr => ?_⟩
      · exact ⟨event, mem_journalOf.mpr ⟨row, happ.mem_taskEvents.mpr (.inr rfl), hkind⟩, .inl rfl⟩
      · rcases happ.mem_taskEvents.mp hr with hold | rfl
        · exact .inl hold
        · exact .inr hkind

/-- The events of a batch are all journalled. -/
theorem admitAll (h : Appending db tid cid xid state)
    (hexec : ∀ e ∈ events, e.executionId = xid)
    (hst : ∀ e ∈ events, e.isStarted = true ↔ e.sequence = 0)
    (hok : appendContiguousExecutionEvents newId tid cid events state = .ok state') :
    Appending db tid cid xid state' ∧
      (∀ e ∈ events, state'.db.Journals cid e) ∧
      (∀ r ∈ state.db.taskEvents, r ∈ state'.db.taskEvents) ∧
      ∀ r ∈ state'.db.taskEvents, r ∈ state.db.taskEvents ∨
        ∃ e ∈ events, r.kind = .executionEvent cid e := by
  induction events generalizing state with
  | nil =>
    cases hok
    exact ⟨h, fun e he => absurd he not_mem_nil, fun _ hr => hr, fun _ hr => .inl hr⟩
  | cons event rest ih =>
    obtain ⟨mid, hfst, hok⟩ := bind_ok hok
    obtain ⟨hmid, hjrn, hkept, hnew⟩ := h.admitEvent (hexec event mem_cons_self)
      (hst event mem_cons_self) hfst
    obtain ⟨hend, hrest, hkept', hnew'⟩ := ih hmid
      (fun e he => hexec e (mem_cons_of_mem _ he))
      (fun e he => hst e (mem_cons_of_mem _ he)) hok
    refine ⟨hend, ?_, fun r hr => hkept' r (hkept r hr), ?_⟩
    · intro e he
      rcases mem_cons.mp he with rfl | he
      · obtain ⟨stored, hmem, hread⟩ := hjrn
        obtain ⟨r, hr, hkind⟩ := mem_journalOf.mp hmem
        exact ⟨stored, mem_journalOf.mpr ⟨r, hkept' r hr, hkind⟩, hread⟩
      · exact hrest e he
    · intro r hr
      rcases hnew' r hr with hr | ⟨e, he, hkind⟩
      · exact (hnew r hr).imp id fun hkind => ⟨event, mem_cons_self, hkind⟩
      · exact .inr ⟨e, mem_cons_of_mem _ he, hkind⟩

end Appending

/-! ## A batch -/

/-- What an accepted batch did: its events are journalled, the cursor stands behind the journal of
the command, and besides the new records, the task's sequence, the cursor and the wakes nothing
changed. -/
structure JournalledBatch (db db' : Database V) (taskId : TaskId) (commandId : CommandId)
    (events : List (ExecutionEvent V)) (admission : ExecutionEventAdmission V) : Prop where
  consistent : Consistent db'
  command : ∃ c ∈ db.commands, c.commandId = commandId ∧ c.taskId = taskId
  stored : ∀ e ∈ events, db'.Records commandId e
  new : ∀ r ∈ db'.taskEvents, r ∈ db.taskEvents ∨
    ∃ e ∈ events, r.kind = .executionEvent commandId e
  cursor : ∃ s, db'.executionEventStreams.find? = Function.update db.executionEventStreams.find?
      commandId (some s) ∧ s.commandId = commandId ∧
    s.nextSequence = admission.throughExecutionSequence + 1
  rows : ∃ rows, db'.taskEvents.rows = db.taskEvents.rows ++ rows ∧
    admission.events = rows.map TaskEventRow.event ∧
    ∀ r ∈ rows, r.taskId = taskId ∧ ∃ event, r.kind = .executionEvent commandId event
  keeps : ∀ taskId, KeepsTask taskId db db'
  reply : admission.reply = none
  rest : db' = { db with
    tasks := db'.tasks
    taskEvents := db'.taskEvents
    executionEventStreams := db'.executionEventStreams
    pushWakes := db'.pushWakes }

theorem Database.storeExecutionEventCursor_ok {stream : ExecutionEventStreamRow} {isStored : Bool}
    (hsto : isStored = (db.executionEventStreams.find? stream.commandId).isSome)
    (h : db.storeExecutionEventCursor stream isStored = .ok db') :
    db'.executionEventStreams.find? =
        Function.update db.executionEventStreams.find? stream.commandId (some stream) ∧
      db' = { db with executionEventStreams := db'.executionEventStreams } := by
  unfold storeExecutionEventCursor at h
  split at h
  next hyes =>
    cases h
    rw [hsto, Option.isSome_iff_exists] at hyes
    obtain ⟨p, hp⟩ := hyes
    exact ⟨find?_put (mem_of_find? hp) (key_of_find? hp), rfl⟩
  · obtain ⟨executionEventStreams, hins, h⟩ := require_bind_ok h
    cases h
    exact ⟨find?_insert hins, rfl⟩

theorem ensureAdmittedCommand_eq_ok :
    ensureAdmittedCommand db tid cid = .ok () ↔
      ∃ c ∈ db.commands, c.commandId = cid ∧ c.taskId = tid := by
  unfold ensureAdmittedCommand
  rw [ensure_eq_ok, Option.any_eq_true]
  constructor
  · rintro ⟨c, hc, htask⟩
    exact ⟨c, mem_of_find? hc, key_of_find? hc, of_decide_eq_true htask⟩
  · rintro ⟨c, hc, rfl, htask⟩
    exact ⟨c, find?_of_mem hc, decide_eq_true htask⟩

/-- A batch starts where the stored cursor stands. -/
theorem appending_start (hc : Consistent db)
    (hcmd : ∃ c ∈ db.commands, c.commandId = cid ∧ c.taskId = tid)
    {first : ExecutionEvent V} {next : Nat}
    (h : initialExecutionEventCursor (db.executionEventStreams.find? cid) first cid =
      .ok next) :
    Appending db tid cid first.executionId
      { db
        nextSequence := next
        terminal := (db.executionEventStreams.find? cid).any ExecutionEventStreamRow.terminal
        appended := [] } where
  journal := by
    refine { hc.journal with streams := fun other => ?_ }
    by_cases hoth : other = cid
    · rw [hoth, update_self]
      have hstr := hc.journal.streams cid
      cases hfind : db.executionEventStreams.find? cid with
      | none =>
        rw [hfind] at h hstr
        obtain ⟨_, _, h⟩ := bind_ok h
        cases h
        have hnil : db.journalOf cid = [] := hstr
        rw [hnil]
        exact openStream_nil cid first.executionId
      | some stream =>
        obtain rfl : stream.commandId = cid := key_of_find? hfind
        rw [hfind] at h hstr
        obtain ⟨hexec, h⟩ := ensure_bind_ok h
        cases h
        rw [← of_decide_eq_true hexec]
        exact hstr
    · rw [update_of_ne hoth]
      exact hc.journal.streams other
  command := hcmd
  rows := ⟨[], by simp, rfl, fun r hr => absurd hr not_mem_nil⟩
  keeps t := keepsTask_refl t db
  rest := rfl

/-- Storing the running cursor commits the batch. -/
theorem Appending.journalledBatch (hc : Consistent db) {state : StreamState V}
    (h : Appending db tid cid xid state)
    (hexec : ∀ s, db.executionEventStreams.find? cid = some s → s.executionId =
      xid) (hsto : ∀ e ∈ events, state.db.Records cid e)
    (hnew : ∀ r ∈ state.db.taskEvents, r ∈ db.taskEvents ∨ ∃ e ∈ events, r.kind = .executionEvent
      cid e) (hmvd : state.nextSequence ≠ 0)
    (hok : state.db.storeExecutionEventCursor ⟨cid, xid, state.nextSequence,
      state.terminal⟩ (db.executionEventStreams.find? cid).isSome = .ok db') :
    JournalledBatch db db' tid cid events
      { throughExecutionSequence := state.nextSequence - 1
        events := state.appended
        reply := none } := by
  obtain ⟨hfind, hdb⟩ := storeExecutionEventCursor_ok (by rw [h.streams_eq]) hok
  rw [h.streams_eq] at hfind
  have hcmds : db'.commands = state.db.commands := by rw [hdb]
  have hevs : db'.taskEvents = state.db.taskEvents := by rw [hdb]
  have hcommands' : db'.commands = db.commands := hcmds.trans h.commands_eq
  -- A stored stream is the batch's own or an old one.
  have hcas : ∀ s ∈ db'.executionEventStreams,
      s = ⟨cid, xid, state.nextSequence, state.terminal⟩ ∨
        s ∈ db.executionEventStreams := by
    intro s hs
    have hs := find?_of_mem hs
    rw [hfind] at hs
    by_cases heq : s.commandId = cid
    · rw [heq, update_self] at hs
      exact .inl (Option.some.inj hs).symm
    · rw [update_of_ne heq] at hs
      exact .inr (mem_of_find? hs)
  refine ⟨⟨?_, ?_, ?_, ?_, ?_⟩, h.command, ?_, hevs ▸ hnew,
    ⟨_, hfind, rfl, (Nat.succ_pred hmvd).symm⟩, ?_, ?_, rfl, ?_⟩
  · rw [hfind]
    exact h.journal.congr (by rw [hdb]) hcmds hevs
  · intro s hs
    rw [hcommands']
    rcases hcas s hs with rfl | hs
    · obtain ⟨c, hc, hid, _⟩ := h.command
      exact ⟨c, hc, hid⟩
    · exact hc.stream_command s hs
  · intro s hs
    rcases hcas s hs with rfl | hs
    · exact Nat.pos_of_ne_zero hmvd
    · exact hc.stream_opened s hs
  · rw [hdb, h.rest]
    exact hc.pending_command
  · rw [hdb, h.rest]
    exact hc.stop_command
  · intro e he
    rw [Database.Records, journalOf_congr (congrArg Table.rows hevs)]
    exact hsto e he
  · rw [hevs]
    exact h.rows
  · intro t
    refine (h.keeps t).trans ?_
    rw [hdb]
    refine { keepsTask_refl t state.db with stream := fun c _ _ s hs _ => ?_ }
    rw [h.streams_eq] at hs
    have hs := find?_of_mem hs
    by_cases heq : s.commandId = cid
    · rw [heq] at hs ⊢
      refine ⟨⟨cid, xid, state.nextSequence, state.terminal⟩,
        mem_of_find? (k := cid) ?_, rfl, (hexec s hs).symm⟩
      rw [hfind, update_self]
    · refine ⟨s, mem_of_find? (k := s.commandId) ?_, rfl, rfl⟩
      rw [hfind, update_of_ne heq]
      exact hs
  · rw [hdb, h.rest]

theorem initialExecutionEventCursor_ok {stream : Option ExecutionEventStreamRow}
    {first : ExecutionEvent V} {next : Nat}
    (h : initialExecutionEventCursor stream first cid = .ok next) :
    ∀ s, stream = some s → s.executionId = first.executionId := by
  rintro s rfl
  obtain ⟨hexec, _⟩ := ensure_bind_ok h
  exact of_decide_eq_true hexec

/-- A batch is admitted exactly if its command is, it continues one execution from the cursor or
before it, its events are taken one by one and the cursor is stored behind them. -/
theorem Database.admitExecutionEventBatch_eq_ok [JsonText V] {adm : ExecutionEventAdmission V} :
    db.admitExecutionEventBatch newId tid cid events = .ok (adm, db') ↔
      ∃ first rest next state, events = first :: rest ∧
        (∃ c ∈ db.commands, c.commandId = cid ∧ c.taskId = tid) ∧
        initialExecutionEventCursor (db.executionEventStreams.find? cid) first cid = .ok next ∧
        ContinuesExecution first.executionId first.sequence events ∧ first.sequence ≤ next ∧
        appendContiguousExecutionEvents newId tid cid events ⟨db, next,
          (db.executionEventStreams.find? cid).any ExecutionEventStreamRow.terminal, []⟩ =
            .ok state ∧
        state.db.storeExecutionEventCursor ⟨cid, first.executionId, state.nextSequence,
          state.terminal⟩ (db.executionEventStreams.find? cid).isSome = .ok db' ∧
        state.nextSequence ≠ 0 ∧ adm = ⟨state.nextSequence - 1, state.appended, none⟩ := by
  unfold admitExecutionEventBatch validateExecutionEventBatch
  simp only [bind_eq_ok, require_eq_ok, ensure_eq_ok, decide_eq_true_eq, head?_eq_some_iff]
  constructor
  · rintro ⟨_, hcmd, first, ⟨rest, rfl⟩, next, hcurs, _, hval, _, hle, state, happ, _, hstore, _,
      hmvd, ⟨⟩⟩
    exact ⟨first, rest, next, state, rfl, ensureAdmittedCommand_eq_ok.mp hcmd, hcurs,
      validateExecutionEvents_eq_ok.mp hval, hle, happ, hstore, hmvd, rfl⟩
  · rintro ⟨first, rest, next, state, rfl, hcmd, hcurs, hval, hle, happ, hstore, hmvd, rfl⟩
    exact ⟨(), ensureAdmittedCommand_eq_ok.mpr hcmd, first, ⟨rest, rfl⟩, next, hcurs, (),
      validateExecutionEvents_eq_ok.mpr hval, (), hle, state, happ, _, hstore, (), hmvd, rfl⟩

theorem Database.admitExecutionEventBatch_ok [JsonText V] (hc : Consistent db)
    {adm : ExecutionEventAdmission V}
    (h : db.admitExecutionEventBatch newId tid cid events = .ok (adm, db')) :
    JournalledBatch db db' tid cid events adm ∧ ∀ e ∈ events, db'.Journals cid e := by
  obtain ⟨first, _, next, state, _, hcmd, hcurs, hconts, _, happ, hstore, hmvd, rfl⟩ :=
    admitExecutionEventBatch_eq_ok.mp h
  obtain ⟨hend, hsto, _, hnew⟩ :=
    (appending_start hc hcmd hcurs).admitAll hconts.execution hconts.started happ
  refine ⟨hend.journalledBatch hc (initialExecutionEventCursor_ok hcurs)
    (fun e he => (hsto e he).records) hnew hmvd hstore, fun e he => ?_⟩
  obtain ⟨-, hdb⟩ := storeExecutionEventCursor_ok (by rw [hend.streams_eq]) hstore
  have hevs : db'.taskEvents = state.db.taskEvents := by rw [hdb]
  rw [Database.Journals, journalOf_congr (congrArg Table.rows hevs)]
  exact hsto e he

end Renoa.Control
