import Renoa.Node.Ledger
import Renoa.Control.Streams

/-!
# The invariant of the node's ledger

Each operation of the ledger does one of three things: it admits a command (`Admitted`), it changes
the row of one execution and writes events behind those it has (`ExecutionChange`), or it keeps a
stop (`KeptStop`). All of them only grow the ledger (`Grows`), and all keep it `Consistent`: the
events of a command are numbered from zero, begin with its start, and its end is their last exactly
when the row says so.
-/

namespace Renoa.Node

open Foundation Protocol List Table Function
open Control (TaskId ExecutionEventStreamRow OpenStream ContinuesExecution)

variable {V : Type} {l l' : Ledger V} {cid : CommandId} {record : ExecutionRecord}
  {new : List (ExecutionEvent V)} {sequence : Nat} {xid : ExecutionId} {drawn : Drawn}
  {kinds : List (ExecutionEventKind V)} {kind : ExecutionEventKind V} {row row' q : ExecutionRow}
  {tid : TaskId} {given binding : TargetBinding} {command : CommandEnvelope}
  {out : StopRecord} {selected : ExecutionRow → Bool}

/-! ## Reading rows -/

theorem Ledger.loadRecord_eq_some : l.loadRecord cid = some record ↔
      ∃ task ∈ l.tasks, record.toExecutionRow ∈ l.executions ∧ record.commandId = cid ∧
        task.taskId = record.taskId ∧ record.binding = task.binding := by
  constructor
  · intro h
    obtain ⟨row, hrow, h⟩ := Option.bind_eq_some_iff.mp h
    obtain ⟨task, htask, h⟩ := Option.bind_eq_some_iff.mp h
    cases h
    exact ⟨task, mem_of_find? htask, mem_of_find? hrow, key_of_find? hrow, key_of_find? htask, rfl⟩
  · rintro ⟨task, htask, hrow, rfl, htid, hbinding⟩
    refine Option.bind_eq_some_iff.mpr ⟨record.toExecutionRow, find?_of_mem hrow, ?_⟩
    refine Option.bind_eq_some_iff.mpr ⟨task, ?_, ?_⟩
    · rw [← htid]
      exact find?_of_mem htask
    · rw [← hbinding]
      rfl

theorem Ledger.mem_eventsOf {ev : ExecutionEvent V} :
    ev ∈ l.eventsOf cid ↔ (⟨cid, ev⟩ : EventRow V) ∈ l.events := by
  unfold eventsOf
  rw [mem_map]
  constructor
  · rintro ⟨row, hrow, rfl⟩
    obtain ⟨hrow, hid⟩ := mem_filter.mp hrow
    rw [← of_decide_eq_true hid]
    exact hrow
  · intro h
    exact ⟨_, mem_filter.mpr ⟨h, decide_eq_true rfl⟩, rfl⟩

/-- Writing events of one command leaves those of the others as they are. -/
theorem Ledger.eventsOf_write {cause : CommandId}
    (h : l'.events.rows = l.events.rows ++ new.map (EventRow.mk cause)) (cid : CommandId) :
    l'.eventsOf cid =
      l.eventsOf cid ++ if cause = cid then new else [] := by
  unfold eventsOf
  rw [h, filter_append, map_append, filter_map]
  congr 1
  by_cases hcau : cause = cid
  · subst hcau
    simp [comp_def]
  · simp [hcau]

theorem Ledger.mem_eventsOf_write {cause : CommandId} {ev : ExecutionEvent V}
    (h : l'.events.rows = l.events.rows ++ new.map (EventRow.mk cause)) :
    ev ∈ l'.eventsOf cid ↔ ev ∈ l.eventsOf cid ∨ (cid = cause ∧ ev ∈ new) := by
  rw [eventsOf_write h, mem_append, mem_ite_nil_right, eq_comm]

theorem Ledger.eventsOf_prefix {cause : CommandId}
    (h : l'.events.rows = l.events.rows ++ new.map (EventRow.mk cause)) (cid : CommandId) :
    l.eventsOf cid <+: l'.eventsOf cid := by
  rw [eventsOf_write h]
  exact prefix_append _ _

theorem Ledger.mem_recordsWhere (h : record ∈ l.recordsWhere selected) :
    record.toExecutionRow ∈ l.executions ∧ selected record.toExecutionRow = true := by
  obtain ⟨row, hrow, h⟩ := mem_filterMap.mp h
  obtain ⟨task, _, rfl⟩ := Option.map_eq_some_iff.mp h
  exact mem_filter.mp (mem_orderBy.mp hrow)

/-! ## Gapless events -/

theorem max?_range (n : Nat) : ((List.range n).max?).elim 0 (· + 1) = n := by
  cases n with
  | zero => rfl
  | succ n =>
    have hmax : (List.range (n + 1)).max? = some n :=
      max?_eq_some_iff.mpr ⟨mem_range.mpr (Nat.lt_succ_self n),
        fun m hm => Nat.le_of_lt_succ (mem_range.mp hm)⟩
    rw [hmax]
    rfl

theorem Ledger.nextEventSequence_eq
    (h : (l.eventsOf cid).map ExecutionEvent.sequence = List.range (l.eventsOf
      cid).length) : l.nextEventSequence cid = (l.eventsOf cid).length := by
  unfold nextEventSequence maxSequence
  rw [h, max?_range]

/-- Without an event at a sequence, the gapless events end before it. -/
theorem Ledger.length_le_of_loadEvent_eq_none
    (h : (l.eventsOf cid).map ExecutionEvent.sequence = List.range (l.eventsOf
      cid).length) (hnone : l.loadEvent cid sequence = none) :
    (l.eventsOf cid).length ≤ sequence := by
  rw [← Nat.not_lt]
  intro hlt
  rw [← mem_range, ← h] at hlt
  obtain ⟨ev, hmem, hseq⟩ := mem_map.mp hlt
  have hfind : l.events.find? (cid, sequence) = some ⟨cid, ev⟩ := by
    rw [← hseq]
    exact find?_of_mem (mem_eventsOf.mp hmem)
  simp [loadEvent, hfind] at hnone

/-- Events behind a stream that is open continue it. -/
theorem OpenStream.append {evs : List (ExecutionEvent V)} {stream : ExecutionEventStreamRow}
    (h : OpenStream evs stream) (hopen : stream.terminal = false)
    (hnew : ContinuesExecution stream.executionId stream.nextSequence new) :
    OpenStream (evs ++ new) { stream with
        nextSequence := stream.nextSequence + new.length
        terminal := new.any ExecutionEvent.isTerminal } := by
  -- The end stands among the new events.
  have hend : ∀ e ∈ evs ++ new, e.isTerminal = true → e ∈ new := by
    intro e he hend
    refine (mem_append.mp he).resolve_left fun hold => ?_
    have hterm := h.terminal.mpr ⟨e, hold, hend⟩
    rw [hopen] at hterm
    cases hterm
  refine ⟨?_, fun e he => (mem_append.mp he).elim (h.execution e) (hnew.execution e),
    fun e he => (mem_append.mp he).elim (h.started e) (hnew.started e),
    fun e he hterm => hnew.ended e (hend e he hterm) hterm, any_eq_true.trans ?_⟩
  · rw [map_append, h.sequences, hnew.sequences, range_eq_range',
      range_eq_range', range'_append_1 |>.symm, Nat.zero_add]
  · exact ⟨fun ⟨e, he, hterm⟩ => ⟨e, mem_append_right _ he, hterm⟩,
      fun ⟨e, he, hterm⟩ => ⟨e, hend e he hterm, hterm⟩⟩

/-! ## What the operations do -/

/-- The events written behind each other from a sequence on. -/
def newEvents (executionId : ExecutionId) (drawn : Nat → Drawn) :
    Nat → List (ExecutionEventKind V) → List (ExecutionEvent V)
  | _, [] => []
  | sequence, kind :: rest =>
    { eventId := (drawn sequence).eventId, executionId, sequence,
      recordedAtMs := (drawn sequence).recordedAtMs, kind } ::
    newEvents executionId drawn (sequence + 1) rest

@[simp] theorem newEvents_kind (xid : ExecutionId) (drawn : Nat → Drawn)
    (sequence : Nat) (kinds : List (ExecutionEventKind V)) :
    (newEvents xid drawn sequence kinds).map ExecutionEvent.kind = kinds := by
  induction kinds generalizing sequence with
  | nil => rfl
  | cons kind rest ih => simp [newEvents, ih]

@[simp] theorem length_newEvents (xid : ExecutionId) (drawn : Nat → Drawn)
    (sequence : Nat) (kinds : List (ExecutionEventKind V)) :
    (newEvents xid drawn sequence kinds).length = kinds.length := by
  rw [← length_map ExecutionEvent.kind, newEvents_kind]

theorem newEvents_sequence (xid : ExecutionId) (drawn : Nat → Drawn)
    (sequence : Nat) (kinds : List (ExecutionEventKind V)) :
    (newEvents xid drawn sequence kinds).map ExecutionEvent.sequence =
      List.range' sequence kinds.length := by
  induction kinds generalizing sequence with
  | nil => rfl
  | cons kind rest ih => simp [newEvents, ih, range'_succ]

/-- What every new event is made of. -/
theorem mem_newEvents {drawn : Nat → Drawn} {ev : ExecutionEvent V}
    (h : ev ∈ newEvents xid drawn sequence kinds) :
    ev.executionId = xid ∧ ev.eventId = (drawn ev.sequence).eventId ∧
      ∃ i, ev.sequence = sequence + i ∧ kinds[i]? = some ev.kind := by
  induction kinds generalizing sequence with
  | nil => cases h
  | cons kind rest ih =>
    rcases mem_cons.mp h with rfl | h
    · exact ⟨rfl, rfl, 0, rfl, rfl⟩
    · obtain ⟨hexec, hid, i, hseq, hkind⟩ := ih h
      exact ⟨hexec, hid, i + 1, by omega, hkind⟩

theorem Ledger.insertEvent_ok (h : l.insertEvent cid xid sequence drawn kind = .ok l') :
    l'.events.rows = l.events.rows ++ (newEvents xid (fun _ => drawn) sequence [kind]).map
      (EventRow.mk cid) ∧ l' = { l with events := l'.events } := by
  obtain ⟨evs, hins, h⟩ := require_bind_ok h
  cases h
  exact ⟨(insert_eq_some hins).2.2, rfl⟩

theorem Ledger.insertEvents_ok {drawn : Nat → Drawn}
    (h : insertEvents cid xid drawn l sequence kinds = .ok l') :
    l'.events.rows = l.events.rows ++ (newEvents xid drawn sequence kinds).map
      (EventRow.mk cid) ∧ l' = { l with events := l'.events } := by
  induction kinds generalizing l sequence with
  | nil =>
    cases h
    exact ⟨(append_nil _).symm, rfl⟩
  | cons kind rest ih =>
    obtain ⟨mid, hmid, h⟩ := bind_ok h
    obtain ⟨hrows, hrest⟩ := insertEvent_ok hmid
    obtain ⟨hrows', hrest'⟩ := ih h
    refine ⟨?_, ?_⟩
    · rw [hrows', hrows, append_assoc]
      rfl
    · rw [hrest', hrest]

/-- The row keeps who it is for. -/
structure ExecutionRow.SameCommand (row row' : ExecutionRow) : Prop where
  admissionSequence : row'.admissionSequence = row.admissionSequence
  commandId : row'.commandId = row.commandId
  taskId : row'.taskId = row.taskId
  command : row'.command = row.command
  executionId : row'.executionId = row.executionId

/-- The row of one execution became `row'` and the execution's events were continued by `new`. -/
structure ExecutionChange (l l' : Ledger V) (row row' : ExecutionRow)
    (new : List (ExecutionEvent V)) : Prop where
  mem : row ∈ l.executions
  same : row.SameCommand row'
  executions : l'.executions = l.executions.put row'
  events : l'.events.rows = l.events.rows ++ new.map (EventRow.mk row.commandId)
  rest : l' = { l with executions := l'.executions, events := l'.events }

theorem Ledger.updateExecution_ok {f : ExecutionRow → ExecutionRow}
    (hf : ∀ row : ExecutionRow, row.SameCommand (f row))
    (h : l.updateExecution cid f = some l') :
    ∃ row, row.commandId = cid ∧ ExecutionChange l l' row (f row) [] := by
  obtain ⟨executions, hupd, rfl⟩ := Option.map_eq_some_iff.mp h
  obtain ⟨row, hrow, _, rfl⟩ := updateOne_eq_some.mp hupd
  refine ⟨row, key_of_find? hrow, mem_of_find? hrow, hf row, rfl, ?_, rfl⟩
  exact (append_nil _).symm

theorem Ledger.setAdmissionAck_ok {acknowledged : Bool}
    (h : l.setAdmissionAck cid acknowledged = .ok l') :
    ∃ row, row.commandId = cid ∧
      ExecutionChange l l' row { row with admissionAcked := acknowledged } [] :=
  updateExecution_ok (fun _ => ⟨rfl, rfl, rfl, rfl, rfl⟩) (require_ok h)

theorem Ledger.advancePublication_ok {throughSequence : Nat}
    (h : l.advancePublication cid throughSequence = .ok l') :
    ∃ row, row.commandId = cid ∧ ExecutionChange l l' row (row.publishThrough throughSequence) [] :=
  updateExecution_ok (fun _ => ⟨rfl, rfl, rfl, rfl, rfl⟩) (require_ok h)

/-- What a running execution writes: events behind those it has, none of which starts it again and
of which only the last ends it; nothing is written once it ended. -/
structure Continued (l l' : Ledger V) (row : ExecutionRow) (drawn : Nat → Drawn)
    (kinds : List (ExecutionEventKind V)) : Prop where
  change : ExecutionChange l l' row
    { row with terminal := row.terminal || kinds.any fun kind => kind.terminal?.isSome }
    (newEvents row.executionId drawn (l.eventsOf row.commandId).length kinds)
  unended : kinds ≠ [] → row.terminal = false
  unstarted : ∀ kind ∈ kinds, kind.isStarted = false
  ended : ∀ kind ∈ kinds.dropLast, kind.terminal? = none

/-! ## The invariant -/

/-- The row as the cursor behind its events. -/
def Ledger.streamOf (l : Ledger V) (row : ExecutionRow) : ExecutionEventStreamRow where
  commandId := row.commandId
  executionId := row.executionId
  nextSequence := (l.eventsOf row.commandId).length
  terminal := row.terminal

/-- What every committed state of the ledger satisfies. -/
structure Ledger.Consistent (l : Ledger V) : Prop where
  task : ∀ row ∈ l.executions, ∃ task ∈ l.tasks, task.taskId = row.taskId
  command : ∀ row ∈ l.executions, row.command.commandId = row.commandId
  execution : ∀ row ∈ l.executions, row.executionId = ⟨row.commandId.uuid⟩
  admission : ∀ row ∈ l.executions, row.admissionSequence < l.nextAdmission
  event : ∀ row ∈ l.events, ∃ execution ∈ l.executions, execution.commandId = row.commandId
  opened : ∀ row ∈ l.executions, l.eventsOf row.commandId ≠ []
  stream : ∀ row ∈ l.executions, OpenStream (l.eventsOf row.commandId) (l.streamOf row)

theorem Ledger.consistent_empty : (empty : Ledger V).Consistent := by
  constructor <;> exact fun _ h => absurd h not_mem_empty

namespace Ledger.Consistent

section

variable (hc : l.Consistent) (h : row ∈ l.executions)

include hc h

theorem nextEventSequence : l.nextEventSequence row.commandId = (l.eventsOf row.commandId).length :=
  nextEventSequence_eq (hc.stream row h).sequences

/-- The row says that the execution ended exactly when its end is among its events. -/
theorem terminal_iff : row.terminal = true ↔ ∃ e ∈ l.eventsOf row.commandId, e.isTerminal = true :=
  (hc.stream row h).terminal

/-- A selected row has its record. -/
theorem exists_record (hselected : selected row = true) :
    ∃ record ∈ l.recordsWhere selected, record.toExecutionRow = row := by
  obtain ⟨task, htask, htid⟩ := hc.task row h
  refine ⟨{ row with binding := task.binding }, mem_filterMap.mpr
    ⟨row, mem_orderBy.mpr (mem_filter.mpr ⟨h, hselected⟩), ?_⟩, rfl⟩
  rw [← htid, find?_of_mem htask]
  rfl

/-- The record of a command that has a row is found. -/
theorem exists_loadRecord : ∃ binding, l.loadRecord row.commandId = some { row with binding } := by
  obtain ⟨task, htask, htid⟩ := hc.task row h
  exact ⟨task.binding, loadRecord_eq_some.mpr ⟨task, htask, h, rfl, htid, rfl⟩⟩

end

end Ledger.Consistent

/-! ## Events of a running execution -/

theorem continued_nil (h : row ∈ l.executions) (drawn : Nat → Drawn) :
    Continued l l row drawn [] where
  change :=
    { mem := h
      same := ⟨rfl, rfl, rfl, rfl, rfl⟩
      executions := by simp [put_eq_self h]
      events := (append_nil _).symm
      rest := rfl }
  unended hne := absurd rfl hne
  unstarted _ hkind := absurd hkind not_mem_nil
  ended _ hkind := absurd hkind not_mem_nil

/-- One event that neither starts nor ends the execution, written behind the others. -/
theorem Ledger.insertEvent_continued (hmem : row ∈ l.executions) (hopen : row.terminal = false)
    (hst : kind.isStarted = false) (hterm : kind.terminal? = none)
    (h : l.insertEvent row.commandId row.executionId (l.eventsOf row.commandId).length drawn kind =
      .ok l') : Continued l l' row (fun _ => drawn) [kind] where
  change := by
    obtain ⟨hrows, hrest⟩ := insertEvent_ok h
    refine ⟨hmem, ⟨rfl, rfl, rfl, rfl, rfl⟩, ?_, hrows, ?_⟩
    · simp [hterm, put_eq_self hmem, congrArg (·.executions) hrest]
    · rw [hrest]
  unended _ := hopen
  unstarted k hk := by
    rw [mem_singleton.mp hk]
    exact hst
  ended _ hk := absurd hk not_mem_nil

theorem Ledger.appendTurnStarted_ok (hc : l.Consistent)
    (h : l.appendTurnStarted drawn cid = .ok l') :
    ∃ row kinds, row.commandId = cid ∧ kinds.Sublist [.turnStarted] ∧
      Continued l l' row (fun _ => drawn) kinds := by
  obtain ⟨record, hrec, h⟩ := require_bind_ok h
  obtain ⟨hterm, h⟩ := ensure_bind_ok h
  obtain ⟨_, _, hmem, rfl, _⟩ := loadRecord_eq_some.mp hrec
  have hopen : record.terminal = false := by simpa using hterm
  cases hev : l.loadEvent record.commandId 1 with
  | some existing =>
    rw [hev] at h
    obtain ⟨_, _, h⟩ := bind_ok h
    cases h
    exact ⟨_, [], rfl, nil_sublist _, continued_nil hmem _⟩
  | none =>
    rw [hev] at h
    -- The start is the only event the execution has.
    have hone : (l.eventsOf record.commandId).length = 1 := by
      have hle := length_le_of_loadEvent_eq_none (hc.stream _ hmem).sequences hev
      have hpos := length_pos_iff.mpr (hc.opened _ hmem)
      omega
    refine ⟨_, [.turnStarted], rfl, .refl _, insertEvent_continued hmem hopen rfl rfl ?_⟩
    rw [hone]
    exact h

theorem isReport_spec (h : isReport kind = true) :
    kind.isStarted = false ∧ kind.terminal? = none := by
  cases kind with
  | executionStarted | turnStarted | executionTerminated _ => cases h
  | assistantMessage _ | toolStarted _ _ _ | toolFinished _ _ _ => exact ⟨rfl, rfl⟩

theorem Ledger.appendProgress_ok (hc : l.Consistent) {recorded : Bool}
    (h : l.appendProgress drawn cid kind = .ok (recorded, l')) :
    ∃ row, row.commandId = cid ∧
      Continued l l' row (fun _ => drawn) (if row.terminal then [] else [kind]) := by
  obtain ⟨hreport, h⟩ := ensure_bind_ok h
  obtain ⟨record, hrec, h⟩ := require_bind_ok h
  obtain ⟨_, _, hmem, rfl, _⟩ := loadRecord_eq_some.mp hrec
  obtain ⟨hst, hterm⟩ := isReport_spec hreport
  refine ⟨_, rfl, ?_⟩
  split at h
  · rename_i hend
    cases h
    rw [if_pos hend]
    exact continued_nil hmem _
  · rename_i hopen
    obtain ⟨_, hins, h⟩ := bind_ok h
    cases h
    rw [hc.nextEventSequence hmem] at hins
    rw [if_neg hopen]
    exact insertEvent_continued hmem (by simpa using hopen) hst hterm hins

theorem Recorded.unrecorded_sublist (counts : Recorded) (kinds : List (ExecutionEventKind V)) :
    (counts.unrecorded kinds).Sublist kinds := by
  induction kinds generalizing counts with
  | nil => exact List.Sublist.refl _
  | cons kind rest ih =>
    unfold unrecorded
    dsimp only
    split
    · exact (ih _).cons kind
    · exact (ih _).cons_cons kind

/-- Kinds that end once have their end in the last place only. -/
theorem Ledger.endsOnce_spec (h : endsOnce kinds = true) :
    kinds.any (fun kind => kind.terminal?.isSome) = true ∧
      ∀ kind ∈ kinds.dropLast, kind.terminal? = none := by
  obtain ⟨hcnt, hlast⟩ := Bool.and_eq_true_iff.mp h
  have hcnt := of_decide_eq_true hcnt
  cases hkinds : kinds.getLast? with
  | none =>
    rw [hkinds] at hlast
    cases hlast
  | some last =>
    rw [hkinds] at hlast
    have hlast : last.terminal?.isSome = true := hlast
    have hsplit := dropLast_append_getLast? last hkinds
    rw [← hsplit, countP_append, countP_singleton, if_pos hlast] at hcnt
    have hnone := countP_eq_zero.mp (Nat.succ.inj hcnt)
    refine ⟨any_eq_true.mpr ⟨last, mem_of_getLast? hkinds, hlast⟩, ?_⟩
    intro kind hkind
    simpa using hnone kind hkind

theorem Ledger.finish_ok (hc : l.Consistent) {drawn : Nat → Drawn}
    (hkinds : ∀ kind ∈ kinds, kind.isStarted = false)
    (h : l.finish drawn cid kinds = .ok l') :
    ∃ row, row.commandId = cid ∧ Continued l l' row drawn
      (if row.terminal then [] else (Recorded.load l cid).unrecorded kinds) := by
  obtain ⟨record, hrec, h⟩ := require_bind_ok h
  obtain ⟨_, _, hmem, rfl, _⟩ := loadRecord_eq_some.mp hrec
  refine ⟨_, rfl, ?_⟩
  split at h
  · rename_i hend
    cases h
    rw [if_pos hend]
    exact continued_nil hmem _
  · rename_i hopen
    obtain ⟨hends, h⟩ := ensure_bind_ok h
    obtain ⟨mid, hins, h⟩ := bind_ok h
    cases h
    obtain ⟨hany, hend⟩ := endsOnce_spec hends
    rw [hc.nextEventSequence hmem] at hins
    obtain ⟨hrows, hrest⟩ := insertEvents_ok hins
    have hexs : mid.executions = l.executions := congrArg (·.executions) hrest
    -- The row is still there, so the last write finds it.
    have hupd : mid.updateExecution record.commandId (fun row => { row with terminal := true }) =
        some { mid with
          executions := l.executions.put { record.toExecutionRow with terminal := true } } := by
      unfold updateExecution
      rw [hexs, updateOne_eq_some.mpr ⟨_, find?_of_mem hmem, rfl, rfl⟩]
      rfl
    rw [hupd, Option.getD_some, if_neg hopen]
    refine ⟨⟨hmem, ⟨rfl, rfl, rfl, rfl, rfl⟩, ?_, hrows, ?_⟩, fun _ => by simpa using hopen,
      fun kind hkind => hkinds kind ((Recorded.unrecorded_sublist _ _).subset hkind), hend⟩
    · rw [hany, Bool.or_true]
    · rw [hrest]

/-! ## Keeping the invariant -/

section

variable (h : ExecutionChange l l' row row' new)

include h

theorem ExecutionChange.eventsOf_self :
    l'.eventsOf row.commandId = l.eventsOf row.commandId ++ new := by
  rw [Ledger.eventsOf_write h.events, if_pos rfl]

theorem ExecutionChange.eventsOf_other (hne : cid ≠ row.commandId) :
    l'.eventsOf cid = l.eventsOf cid := by
  rw [Ledger.eventsOf_write h.events, if_neg hne.symm, append_nil]

/-- A row after the change is the changed one or another one from before. -/
theorem ExecutionChange.mem_executions :
    q ∈ l'.executions ↔ q = row' ∨ (q ∈ l.executions ∧ q.commandId ≠ row.commandId) := by
  rw [h.executions]
  exact mem_put_iff h.mem h.same.commandId

theorem ExecutionChange.mem_new : row' ∈ l'.executions := h.mem_executions.mpr (.inl rfl)

/-- A row from before is still there, or the changed one stands in its place. -/
theorem ExecutionChange.exists_row {P : ExecutionRow → Prop} (hq : q ∈ l.executions)
    (hnew : q = row → P row') (hold : P q) : ∃ q' ∈ l'.executions, P q' := by
  rw [h.executions]
  exact exists_mem_put h.mem h.same.commandId hq hnew hold

/-- A change keeps the invariant when the execution's events do. -/
theorem ExecutionChange.consistent (hc : l.Consistent)
    (hstr : OpenStream (l.eventsOf row.commandId ++ new) { l.streamOf row with
        nextSequence := (l.eventsOf row.commandId).length + new.length
        terminal := row'.terminal }) :
    l'.Consistent where
  task q hq := by
    rw [h.rest]
    rcases h.mem_executions.mp hq with rfl | ⟨hmem, _⟩
    · rw [h.same.taskId]
      exact hc.task row h.mem
    · exact hc.task q hmem
  command q hq := by
    rcases h.mem_executions.mp hq with rfl | ⟨hmem, _⟩
    · rw [h.same.command, h.same.commandId]
      exact hc.command row h.mem
    · exact hc.command q hmem
  execution q hq := by
    rcases h.mem_executions.mp hq with rfl | ⟨hmem, _⟩
    · rw [h.same.executionId, h.same.commandId]
      exact hc.execution row h.mem
    · exact hc.execution q hmem
  admission q hq := by
    rw [h.rest]
    rcases h.mem_executions.mp hq with rfl | ⟨hmem, _⟩
    · rw [h.same.admissionSequence]
      exact hc.admission row h.mem
    · exact hc.admission q hmem
  event e he := by
    have hold : ∃ q ∈ l.executions, q.commandId = e.commandId := by
      rw [← mem_rows, h.events, mem_append] at he
      rcases he with he | he
      · exact hc.event e he
      · obtain ⟨ev, _, rfl⟩ := mem_map.mp he
        exact ⟨row, h.mem, rfl⟩
    obtain ⟨q, hq, hid⟩ := hold
    refine h.exists_row hq ?_ hid
    rintro rfl
    exact h.same.commandId.trans hid
  opened q hq := by
    rcases h.mem_executions.mp hq with rfl | ⟨hmem, hne⟩
    · rw [h.same.commandId, h.eventsOf_self]
      exact append_ne_nil_of_left_ne_nil (hc.opened row h.mem) _
    · rw [h.eventsOf_other hne]
      exact hc.opened q hmem
  stream q hq := by
    rcases h.mem_executions.mp hq with rfl | ⟨hmem, hne⟩
    · unfold Ledger.streamOf at hstr ⊢
      rw [h.same.commandId, h.same.executionId, h.eventsOf_self, length_append]
      exact hstr
    · unfold Ledger.streamOf
      rw [h.eventsOf_other hne]
      exact hc.stream q hmem

end

/-- A change of the row alone keeps the invariant. -/
theorem ExecutionChange.consistent_of_nil (h : ExecutionChange l l' row row' [])
    (hterm : row'.terminal = row.terminal) (hc : l.Consistent) : l'.Consistent := by
  refine h.consistent hc ?_
  rw [append_nil, hterm]
  exact hc.stream row h.mem

/-- The new events continue the execution. -/
theorem Continued.continuesExecution {drawn : Nat → Drawn} (h : Continued l l' row drawn kinds)
    (hc : l.Consistent) :
    ContinuesExecution row.executionId (l.eventsOf row.commandId).length
      (newEvents row.executionId drawn (l.eventsOf row.commandId).length kinds) where
  sequences := by rw [newEvents_sequence, length_newEvents]
  execution e he := (mem_newEvents he).1
  started e he := by
    obtain ⟨_, _, i, hseq, hkind⟩ := mem_newEvents he
    have hunstarted : e.isStarted = false := h.unstarted _ (mem_of_getElem? hkind)
    have hpos := length_pos_iff.mpr (hc.opened row h.change.mem)
    rw [hunstarted]
    exact ⟨fun hfalse => absurd hfalse (by simp), fun hzero => by omega⟩
  ended e he hterm := by
    obtain ⟨_, _, i, hseq, hkind⟩ := mem_newEvents he
    obtain ⟨hlt, hget⟩ := List.getElem?_eq_some_iff.mp hkind
    rw [length_newEvents, hseq]
    by_contra hne
    -- An event before the last one does not end the execution.
    have hbef : i < kinds.dropLast.length := by
      rw [length_dropLast]
      omega
    have hmem : e.kind ∈ kinds.dropLast := by
      rw [← hget, ← getElem_dropLast hbef]
      exact getElem_mem hbef
    have hnone := h.ended _ hmem
    unfold ExecutionEvent.isTerminal at hterm
    rw [hnone] at hterm
    cases hterm

theorem Continued.any_isTerminal {drawn : Nat → Drawn} :
    (newEvents row.executionId drawn sequence kinds).any ExecutionEvent.isTerminal =
      kinds.any fun kind => kind.terminal?.isSome := by
  conv_rhs => rw [← newEvents_kind row.executionId drawn sequence kinds]
  rw [any_map]
  rfl

theorem Continued.consistent {drawn : Nat → Drawn} (h : Continued l l' row drawn kinds)
    (hc : l.Consistent) : l'.Consistent := by
  refine h.change.consistent hc ?_
  by_cases hkinds : kinds = []
  · subst hkinds
    simpa [newEvents, Ledger.streamOf] using hc.stream row h.change.mem
  · have hopen := h.unended hkinds
    have happ := OpenStream.append (hc.stream row h.change.mem) hopen (h.continuesExecution hc)
    rw [any_isTerminal] at happ
    rw [hopen, Bool.false_or]
    exact happ

/-! ## Admission -/

/-- The task is bound, to what it was bound to before or to the binding it is given. -/
structure BoundTask (l l' : Ledger V) (taskId : TaskId) (given binding : TargetBinding) :
    Prop where
  task : (⟨taskId, binding⟩ : TaskRow) ∈ l'.tasks
  kept : ∀ t ∈ l.tasks, t ∈ l'.tasks
  new : ∀ t ∈ l'.tasks, t ∈ l.tasks ∨ t = ⟨taskId, given⟩
  target : binding.target = given.target
  rest : l' = { l with tasks := l'.tasks }

theorem Ledger.ensureTaskBinding_ok (h : l.ensureTaskBinding tid given = .ok (binding, l')) :
    BoundTask l l' tid given binding := by
  unfold ensureTaskBinding at h
  cases hfind : l.tasks.find? tid with
  | some existing =>
    rw [hfind] at h
    obtain ⟨hmatch, h⟩ := ensure_bind_ok h
    cases h
    simp only [Bool.and_eq_true, decide_eq_true_eq] at hmatch
    have htask : (⟨tid, existing.binding⟩ : TaskRow) = existing := by rw [← key_of_find? hfind]
    refine ⟨?_, fun t ht => ht, fun t ht => .inl ht, hmatch.1.1, rfl⟩
    rw [htask]
    exact mem_of_find? hfind
  | none =>
    rw [hfind] at h
    dsimp only at h
    split at h
    · cases h
    · obtain ⟨tasks, hins, h⟩ := require_bind_ok h
      cases h
      have hrows := (insert_eq_some hins).2.2
      have hmem : ∀ t, t ∈ tasks ↔ t ∈ l.tasks ∨ t = ⟨tid, given⟩ := fun _ => mem_concat hrows
      exact ⟨(hmem _).mpr (.inr rfl), fun t ht => (hmem t).mpr (.inl ht),
        fun t ht => (hmem t).mp ht, rfl, rfl⟩

theorem BoundTask.consistent (h : BoundTask l l' tid given binding) (hc : l.Consistent) :
    l'.Consistent := by
  rw [h.rest]
  refine { hc with task := fun row hrow => ?_ }
  obtain ⟨task, htask, hid⟩ := hc.task row hrow
  exact ⟨task, h.kept task htask, hid⟩

/-- The row an admitted command gets. -/
def admittedRow (l : Ledger V) (taskId : TaskId) (command : CommandEnvelope) : ExecutionRow where
  admissionSequence := l.nextAdmission
  commandId := command.commandId
  taskId := taskId
  command := command
  executionId := ⟨command.commandId.uuid⟩
  admissionAcked := false
  terminal := false
  publishedThrough := none

/-- A command that had no row got one, with the start of its execution. -/
structure Admitted (l l' : Ledger V) (drawn : Drawn) (taskId : TaskId)
    (command : CommandEnvelope) : Prop where
  fresh : ∀ q ∈ l.executions, q.commandId ≠ command.commandId
  executions : l'.executions.rows = l.executions.rows ++ [admittedRow l taskId command]
  events : l'.events.rows = l.events.rows ++
    (newEvents ⟨command.commandId.uuid⟩ (fun _ => drawn) 0 [.executionStarted]).map
      (EventRow.mk command.commandId)
  nextAdmission : l'.nextAdmission = l.nextAdmission + 1
  rest : l' = { l with
    executions := l'.executions, events := l'.events, nextAdmission := l'.nextAdmission }

/-- What an admission that succeeded found or did. -/
inductive AdmitOutcome (l l' : Ledger V) (drawn : Drawn) (taskId : TaskId)
    (command : CommandEnvelope) (record : ExecutionRecord) : Prop
  | existing (hl : l' = l) (hmem : record.toExecutionRow ∈ l.executions)
      (htask : record.taskId = taskId) (hcommand : record.command = command)
  | new (hadmitted : Admitted l l' drawn taskId command)
      (hrow : record.toExecutionRow = admittedRow l taskId command)

theorem Ledger.admitCommand_ok (h : l.admitCommand drawn tid command given = .ok (record, l')) :
    command.target.value = given.target ∧ ∃ mid, BoundTask l mid tid given record.binding ∧
        AdmitOutcome mid l' drawn tid command record := by
  obtain ⟨htgt, h⟩ := ensure_bind_ok h
  refine ⟨of_decide_eq_true htgt, ?_⟩
  obtain ⟨⟨binding, mid⟩, hbinding, h⟩ := bind_ok h
  have hbnd := ensureTaskBinding_ok hbinding
  dsimp only at h
  cases hrec : mid.loadRecord command.commandId with
  | some existing =>
    rw [hrec] at h
    obtain ⟨hsame, h⟩ := ensure_bind_ok h
    cases h
    simp only [Bool.and_eq_true, decide_eq_true_eq] at hsame
    obtain ⟨_, _, hmem, _⟩ := loadRecord_eq_some.mp hrec
    refine ⟨l', ?_, .existing rfl hmem hsame.1.1 hsame.1.2⟩
    rw [hsame.2]
    exact hbnd
  | none =>
    rw [hrec] at h
    obtain ⟨withRow, hins, h⟩ := bind_ok h
    obtain ⟨executions, hexs, hwithRow⟩ := require_bind_ok hins
    obtain ⟨final, hev, h⟩ := bind_ok h
    cases h
    cases hwithRow
    obtain ⟨hfsh, _, hrows⟩ := insert_eq_some hexs
    obtain ⟨hevs, hrest⟩ := insertEvent_ok hev
    refine ⟨mid, hbnd, .new ⟨hfsh, ?_, hevs, ?_, ?_⟩ rfl⟩
    · rw [hrest]
      exact hrows
    · rw [hrest]
    · rw [hrest]

namespace Admitted

variable {drawn : Drawn} {tid : TaskId} {command : CommandEnvelope}

section

variable (h : Admitted l l' drawn tid command)

include h

theorem mem_executions : q ∈ l'.executions ↔ q ∈ l.executions ∨ q = admittedRow l tid command :=
  mem_concat h.executions

/-- A command without a row has no events. -/
theorem eventsOf_self (hc : l.Consistent) : l'.eventsOf command.commandId =
      newEvents ⟨command.commandId.uuid⟩ (fun _ => drawn) 0 [.executionStarted] := by
  have hnone : l.eventsOf command.commandId = [] := by
    rw [eq_nil_iff_forall_not_mem]
    intro ev hev
    obtain ⟨q, hq, hid⟩ := hc.event _ (Ledger.mem_eventsOf.mp hev)
    exact h.fresh q hq hid
  rw [Ledger.eventsOf_write h.events, if_pos rfl, hnone, nil_append]

theorem eventsOf_other (hne : cid ≠ command.commandId) : l'.eventsOf cid = l.eventsOf cid := by
  rw [Ledger.eventsOf_write h.events, if_neg hne.symm, append_nil]

theorem consistent (hc : l.Consistent) (htask : ∃ task ∈ l.tasks, task.taskId = tid) :
    l'.Consistent where
  task q hq := by
    rw [h.rest]
    rcases h.mem_executions.mp hq with hq | rfl
    · exact hc.task q hq
    · exact htask
  command q hq := by
    rcases h.mem_executions.mp hq with hq | rfl
    · exact hc.command q hq
    · rfl
  execution q hq := by
    rcases h.mem_executions.mp hq with hq | rfl
    · exact hc.execution q hq
    · rfl
  admission q hq := by
    rw [h.nextAdmission]
    rcases h.mem_executions.mp hq with hq | rfl
    · exact Nat.lt_succ_of_lt (hc.admission q hq)
    · exact Nat.lt_succ_self _
  event e he := by
    rw [← mem_rows, h.events, mem_append] at he
    rcases he with he | he
    · obtain ⟨q, hq, hid⟩ := hc.event e he
      exact ⟨q, h.mem_executions.mpr (.inl hq), hid⟩
    · obtain ⟨ev, _, rfl⟩ := mem_map.mp he
      exact ⟨_, h.mem_executions.mpr (.inr rfl), rfl⟩
  opened q hq := by
    rcases h.mem_executions.mp hq with hq | rfl
    · rw [h.eventsOf_other (h.fresh q hq)]
      exact hc.opened q hq
    · show l'.eventsOf command.commandId ≠ []
      rw [h.eventsOf_self hc]
      exact cons_ne_nil _ _
  stream q hq := by
    rcases h.mem_executions.mp hq with hq | rfl
    · unfold Ledger.streamOf
      rw [h.eventsOf_other (h.fresh q hq)]
      exact hc.stream q hq
    · have hevs : l'.eventsOf (admittedRow l tid command).commandId = _ :=
        h.eventsOf_self hc
      unfold Ledger.streamOf
      rw [hevs]
      constructor <;> simp [newEvents, admittedRow, ExecutionEvent.isStarted,
        ExecutionEvent.isTerminal, ExecutionEventKind.isStarted, ExecutionEventKind.terminal?]

end

end Admitted

theorem Ledger.admitCommand_consistent (hc : l.Consistent)
    (h : l.admitCommand drawn tid command given = .ok (record, l')) : l'.Consistent := by
  obtain ⟨_, mid, hbnd, hout⟩ := admitCommand_ok h
  have hmid := hbnd.consistent hc
  cases hout with
  | existing hl => exact hl ▸ hmid
  | new hadm => exact hadm.consistent hmid ⟨_, hbnd.task, rfl⟩

/-! ## Stops -/

/-- What recording a stop found or did. -/
inductive StopOutcome (l l' : Ledger V) (taskId : TaskId) (commandId : CommandId) :
    StopRecord → Prop
  | ended {row : ExecutionRow} (hl : l' = l) (hmem : row ∈ l.executions)
      (hid : row.commandId = commandId) (hterminal : row.terminal = true) :
      StopOutcome l l' taskId commandId .alreadyEnded
  | kept (hopen : ∀ row ∈ l.executions, row.commandId = commandId → row.terminal = false)
      (hl : l' = l.insertStop { commandId, taskId }) :
      StopOutcome l l' taskId commandId .recorded

theorem Ledger.recordStop_ok (hc : l.Consistent) (h : l.recordStop tid cid = .ok (out, l')) :
    StopOutcome l l' tid cid out := by
  unfold recordStop at h
  cases hrec : l.loadRecord cid with
  | some record =>
    rw [hrec] at h
    obtain ⟨_, _, h⟩ := bind_ok h
    obtain ⟨_, _, hmem, hid, _⟩ := loadRecord_eq_some.mp hrec
    split at h
    · rename_i hterm
      cases h
      exact .ended rfl hmem hid hterm
    · rename_i hopen
      cases h
      refine .kept (fun row hrow hrowId => ?_) rfl
      rw [key_inj hrow hmem (hrowId.trans hid.symm)]
      simpa using hopen
  | none =>
    rw [hrec] at h
    cases h
    refine .kept (fun row hrow hrowId => ?_) rfl
    obtain ⟨_, hfnd⟩ := hc.exists_loadRecord hrow
    rw [hrowId, hrec] at hfnd
    cases hfnd

/-- A kept stop stands beside all that were kept before. -/
theorem Ledger.mem_insertStop {row q : StopRow} (h : q ∈ l.stops) :
    q ∈ (l.insertStop row).stops := mem_upsert_id.mpr (.inl h)

theorem Ledger.exists_insertStop (row : StopRow) :
    ∃ q ∈ (l.insertStop row).stops, q.commandId = row.commandId := by
  by_cases h : ∃ q ∈ l.stops, q.commandId = row.commandId
  · obtain ⟨q, hq, hid⟩ := h
    exact ⟨q, mem_insertStop hq, hid⟩
  · exact ⟨row, mem_upsert_id.mpr (.inr ⟨rfl, fun q hq hid => h ⟨q, hq, hid⟩⟩), rfl⟩

/-- A stop is no part of the invariant. -/
theorem Ledger.insertStop_consistent (hc : l.Consistent) (row : StopRow) :
    (l.insertStop row).Consistent := { hc with }

/-! ## Growth -/

/-- Nothing of the ledger is lost: rows keep who they are for, what ended stays ended, events are
only continued and stops stay. -/
structure Ledger.Grows (l l' : Ledger V) : Prop where
  tasks : ∀ task ∈ l.tasks, task ∈ l'.tasks
  executions : ∀ row ∈ l.executions, ∃ row' ∈ l'.executions, row.SameCommand row' ∧
    (row.terminal = true → row'.terminal = true)
  events : ∀ commandId, l.eventsOf commandId <+: l'.eventsOf commandId
  stops : ∀ stop ∈ l.stops, stop ∈ l'.stops

theorem Ledger.grows_refl (l : Ledger V) : l.Grows l where
  tasks _ h := h
  executions row h := ⟨row, h, ⟨rfl, rfl, rfl, rfl, rfl⟩, id⟩
  events _ := prefix_refl _
  stops _ h := h

theorem Ledger.Grows.trans {mid : Ledger V} (h : l.Grows mid) (h' : mid.Grows l') : l.Grows l' where
  tasks task ht := h'.tasks task (h.tasks task ht)
  executions row hrow := by
    obtain ⟨row₁, hrow₁, hsame₁, hterminal₁⟩ := h.executions row hrow
    obtain ⟨row₂, hrow₂, hsame₂, hterminal₂⟩ := h'.executions row₁ hrow₁
    refine ⟨row₂, hrow₂, ⟨?_, ?_, ?_, ?_, ?_⟩, fun hend => hterminal₂ (hterminal₁ hend)⟩
    · rw [hsame₂.admissionSequence, hsame₁.admissionSequence]
    · rw [hsame₂.commandId, hsame₁.commandId]
    · rw [hsame₂.taskId, hsame₁.taskId]
    · rw [hsame₂.command, hsame₁.command]
    · rw [hsame₂.executionId, hsame₁.executionId]
  events cid := (h.events cid).trans (h'.events cid)
  stops stop hs := h'.stops stop (h.stops stop hs)

theorem ExecutionChange.grows (h : ExecutionChange l l' row row' new)
    (hterm : row.terminal = true → row'.terminal = true) : l.Grows l' := by
  have hrows : ∀ q ∈ l.executions, ∃ q' ∈ l'.executions, q.SameCommand q' ∧
      (q.terminal = true → q'.terminal = true) := by
    intro q hq
    refine h.exists_row hq ?_ ⟨⟨rfl, rfl, rfl, rfl, rfl⟩, id⟩
    rintro rfl
    exact ⟨h.same, hterm⟩
  have hevs := Ledger.eventsOf_prefix h.events
  rw [h.rest] at hevs ⊢
  exact { l.grows_refl with executions := hrows, events := hevs }

theorem Continued.grows {drawn : Nat → Drawn} (h : Continued l l' row drawn kinds) :
    l.Grows l' :=
  h.change.grows fun hend => by simp [hend]

theorem BoundTask.grows (h : BoundTask l l' tid given binding) : l.Grows l' := by
  rw [h.rest]
  exact { l.grows_refl with tasks := h.kept }

theorem Admitted.grows (h : Admitted l l' drawn tid command) : l.Grows l' := by
  have hevs := Ledger.eventsOf_prefix h.events
  rw [h.rest] at hevs ⊢
  exact { l.grows_refl with
    executions := fun row hrow =>
      ⟨row, h.mem_executions.mpr (.inl hrow), ⟨rfl, rfl, rfl, rfl, rfl⟩, id⟩
    events := hevs }

theorem Ledger.insertStop_grows (l : Ledger V) (row : StopRow) : l.Grows (l.insertStop row) :=
  { l.grows_refl with stops := fun _ => mem_insertStop }

/-- A step of the ledger keeps its invariant and loses nothing. -/
structure Ledger.Steps (l l' : Ledger V) : Prop where
  consistent : l'.Consistent
  grows : l.Grows l'

theorem Ledger.Consistent.steps_refl (hc : l.Consistent) : l.Steps l := ⟨hc, l.grows_refl⟩

theorem Continued.steps {drawn : Nat → Drawn} (h : Continued l l' row drawn kinds)
    (hc : l.Consistent) : l.Steps l' := ⟨h.consistent hc, h.grows⟩

theorem ExecutionChange.steps_of_nil (h : ExecutionChange l l' row row' [])
    (hterm : row'.terminal = row.terminal) (hc : l.Consistent) : l.Steps l' :=
  ⟨h.consistent_of_nil hterm hc, h.grows fun hend => by rw [hterm, hend]⟩

/-! ## Admission order -/

/-- A step that admits commands only behind those it found. -/
structure Ledger.Extends (l l' : Ledger V) : Prop extends Steps l l' where
  behind : ∀ row' ∈ l'.executions, (∃ row ∈ l.executions, row.commandId = row'.commandId) ∨
    l.nextAdmission ≤ row'.admissionSequence

theorem Ledger.Steps.extends_of_eq (h : l.Steps l') (heq : l'.executions = l.executions) :
    l.Extends l' :=
  ⟨h, fun row' hrow' => .inl ⟨row', heq ▸ hrow', rfl⟩⟩

theorem ExecutionChange.extends (h : ExecutionChange l l' row row' new) (hsteps : l.Steps l') :
    l.Extends l' := by
  refine ⟨hsteps, fun q hq => .inl ?_⟩
  rcases h.mem_executions.mp hq with rfl | ⟨hmem, _⟩
  · exact ⟨row, h.mem, h.same.commandId.symm⟩
  · exact ⟨q, hmem, rfl⟩

theorem Ledger.admitCommand_extends (hc : l.Consistent)
    (h : l.admitCommand drawn tid command given = .ok (record, l')) : l.Extends l' := by
  have hcons := admitCommand_consistent hc h
  obtain ⟨_, mid, hbnd, hout⟩ := admitCommand_ok h
  have hmid : mid.executions = l.executions := congrArg (·.executions) hbnd.rest
  cases hout with
  | existing hl =>
    subst hl
    exact Steps.extends_of_eq ⟨hcons, hbnd.grows⟩ hmid
  | new hadm =>
    refine ⟨⟨hcons, hbnd.grows.trans hadm.grows⟩, fun q hq => ?_⟩
    rcases hadm.mem_executions.mp hq with hq | rfl
    · exact .inl ⟨q, hmid ▸ hq, rfl⟩
    · exact .inr (Nat.le_of_eq (congrArg (·.nextAdmission) hbnd.rest).symm)

theorem Ledger.recordStop_extends (hc : l.Consistent)
    (h : l.recordStop tid cid = .ok (out, l')) : l.Extends l' := by
  cases recordStop_ok hc h with
  | ended hl =>
    subst hl
    exact hc.steps_refl.extends_of_eq rfl
  | kept _ hl =>
    subst hl
    exact Steps.extends_of_eq ⟨insertStop_consistent hc _, insertStop_grows _ _⟩ rfl

end Renoa.Node
