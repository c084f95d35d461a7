import Renoa.Node.Flow
import Renoa.Node.Identities

/-!
# Batches the coordinator takes in

A node sends consecutive events of its ledger. When the coordinator runs the command in a task of
that node, with a journal that is a prefix of the ledger and reaches to the node's cursor, such a
batch is valid (`Network.Sound.validBatch`). It is taken in if what it repeats is read back as it
was sent and the identity of the answer it calls for is free (`Network.Sound.accepts`); the journal
then reaches to the end of the batch or stays where it was (`Network.Sound.journalled`).
-/

namespace Renoa.Node

open Foundation Protocol List
open Control (TaskId TaskEventId NodeId Database DerivedIds JournalledBatch
  ExecutionEventAdmission ContinuesExecution ValidBatch DrawsNew AnswerFree ReadsBack OpenStream
  ExecutionEventStreamRow SourceId)

variable {V : Type} {bytes : MessageBytes V} {ids : DerivedIds} {stream : ExecutionEventStreamRow}

/-! ## Numbered events -/

section Numbered

variable {events journal batch : List (ExecutionEvent V)} {first : Nat}

section

variable (h : events.map ExecutionEvent.sequence = List.range events.length)
  {ev : ExecutionEvent V}

include h

theorem getElem_sequence {i : Nat} (hi : i < events.length) : (events[i]).sequence = i := by
  have hget : (events.map ExecutionEvent.sequence)[i]? = (List.range events.length)[i]? := by rw [h]
  rw [getElem?_map, getElem?_eq_getElem hi, getElem?_range hi] at hget
  exact Option.some.inj hget

/-- Numbered events are found at their number. -/
theorem getElem?_of_mem (hmem : ev ∈ events) : events[ev.sequence]? = some ev := by
  obtain ⟨i, hi, rfl⟩ := mem_iff_getElem.mp hmem
  rw [getElem_sequence h hi]
  exact getElem?_eq_getElem hi

theorem mem_of_sequence_lt (hjnl : journal <+: events) (hmem : ev ∈ events)
    (hlt : ev.sequence < journal.length) : ev ∈ journal := by
  have hget := getElem?_of_mem h hmem
  obtain ⟨later, rfl⟩ := hjnl
  rw [getElem?_append_left hlt] at hget
  exact mem_of_getElem? hget

/-- Numbered events that are all among numbered events are the first of them. -/
theorem isPrefix_of_subset (hjnl : journal.map ExecutionEvent.sequence = List.range journal.length)
    (hsub : journal ⊆ events) : journal <+: events := by
  refine prefix_iff_getElem?.mpr fun i hi => ?_
  have hmem := getElem?_of_mem h (hsub (getElem_mem hi))
  rwa [getElem_sequence hjnl hi] at hmem

theorem eventIds_nodup (hunique : ∀ e ∈ events, ∀ f ∈ events, e.eventId = f.eventId → e = f)
    (hbat : batch <+: events.drop first) : (batch.map ExecutionEvent.eventId).Nodup := by
  have hnd : events.Nodup := by
    refine List.Nodup.of_map ExecutionEvent.sequence ?_
    rw [h]
    exact nodup_range
  have hsub : batch.Sublist events := hbat.sublist.trans (drop_sublist first events)
  exact (hsub.nodup hnd).map_on fun e he f hf => hunique e (hsub.subset he) f (hsub.subset hf)

end

/-- Consecutive events of a well-formed stream are a valid batch. -/
theorem continues_of_segment (h : OpenStream events stream) (hbat : batch <+: events.drop first) :
    ContinuesExecution stream.executionId first batch := by
  have hseqs : events.map ExecutionEvent.sequence = List.range events.length := by
    rw [h.sequences, h.length_eq]
  have hnums := sequences_of_segment hseqs hbat
  have hmem : ∀ e ∈ batch, e ∈ events := fun e he => mem_of_mem_drop (hbat.subset he)
  have hle := hbat.length_le
  rw [length_drop, h.length_eq] at hle
  refine ⟨hnums, fun e he => h.execution e (hmem e he), fun e he => h.started e (hmem e he), ?_⟩
  intro e he hterm
  have hend := h.ended e (hmem e he) hterm
  have hnumber : e.sequence ∈ batch.map ExecutionEvent.sequence := mem_map_of_mem he
  rw [hnums, mem_range'_1] at hnumber
  omega

/-- A journal that holds the end of the stream holds all of it. -/
theorem eq_of_terminal (h : OpenStream events stream) (hjnl : journal <+: events)
    (hterm : ∃ e ∈ journal, e.isTerminal = true) : journal = events := by
  obtain ⟨e, he, hterm⟩ := hterm
  have hseqs : events.map ExecutionEvent.sequence = List.range events.length := by
    rw [h.sequences, h.length_eq]
  have hend := h.ended e (hjnl.subset he) hterm
  obtain ⟨i, hi, hget⟩ := mem_iff_getElem.mp he
  have hnumber : e.sequence = i := by
    have hat := getElem_sequence hseqs (Nat.lt_of_lt_of_le hi hjnl.length_le)
    rw [hjnl.getElem hi] at hget
    rw [← hget]
    exact hat
  refine hjnl.eq_of_length_le ?_
  rw [h.length_eq]
  omega

end Numbered

/-! ## The coordinator takes a batch -/

namespace Network

/-- The node executes the command where the coordinator keeps it, ahead of the journal. -/
structure Holds (s : Network V) (nodeId : NodeId) (row : ExecutionRow) : Prop where
  mem : row ∈ (s.site nodeId).ledger.executions
  runs : s.db.runsAt nodeId row.taskId row.commandId = true
  journal : s.db.journalOf row.commandId <+: (s.site nodeId).ledger.eventsOf row.commandId
  published : row.start ≤ (s.db.journalOf row.commandId).length

variable {s : Network V} {nid : NodeId} {row : ExecutionRow}
  {batch : TaskId × List (ExecutionEvent V)} {bound : Nat} {rest : List (ExecutionEvent V)}
  {first : ExecutionEvent V}

/-- The stream of a command is the execution the command gives its name to. -/
theorem Sound.stream_executionId (h : s.Sound) (hstr : stream ∈ s.db.executionEventStreams) :
    stream.executionId = ⟨stream.commandId.uuid⟩ := by
  have hopen := h.db.journal.streams stream.commandId
  rw [Table.find?_of_mem hstr] at hopen
  have hlen := OpenStream.length_eq hopen
  have hpos := h.db.stream_opened stream hstr
  obtain ⟨e, he⟩ := exists_mem_of_length_pos (Nat.lt_of_lt_of_eq hpos hlen.symm)
  rw [← OpenStream.execution hopen e he]
  exact h.identified.execution _ e (.inl he)

theorem Sound.validBatch (h : s.Sound) (hhld : s.Holds nid row)
    (hopen : s.db.settled row.commandId = false) (hbat : batch.2 = first :: rest)
    (hseg : Segment row ((s.site nid).ledger.eventsOf row.commandId) bound batch) :
    ValidBatch s.db nid batch.1 row.commandId first rest := by
  obtain ⟨start, hst, hevs, _⟩ := hseg.segment
  rw [hbat] at hevs
  have hstr := (h.ledger nid).stream row hhld.mem
  have hseqs := hstr.sequences
  have hconts := continues_of_segment hstr hevs
  have hfst : first.sequence = start := (List.cons.inj hconts.sequences).1
  have hexec : first.executionId = ⟨row.commandId.uuid⟩ :=
    (hconts.execution first mem_cons_self).trans ((h.ledger nid).execution row hhld.mem)
  have hmem : ∀ e ∈ first :: rest, e ∈ (s.site nid).ledger.eventsOf row.commandId :=
    fun e he => mem_of_mem_drop (hevs.subset he)
  have hknown : ∀ e ∈ (s.site nid).ledger.eventsOf row.commandId, s.Known row.commandId e :=
    fun e he => .inr ⟨nid, .inl he⟩
  obtain ⟨hcmd, htask⟩ := Database.runsAt_iff.mp hhld.runs
  rw [← hseg.task] at hcmd htask
  refine ⟨htask, hcmd, hopen, ?_, ?_, ?_, ?_, ?_, ?_⟩
  · rw [hfst, hexec, ← (h.ledger nid).execution row hhld.mem]
    exact hconts
  · rw [hfst, h.db.cursorOf_eq]
    exact Nat.le_trans hst hhld.published
  · intro stream hmem
    rw [h.stream_executionId hmem, hexec, ExecutionId.mk.injEq]
    exact ⟨fun hid => congrArg CommandId.uuid hid, fun hid => congrArg CommandId.mk hid⟩
  · intro e he hlt
    rw [h.db.cursorOf_eq] at hlt
    exact mem_of_sequence_lt hseqs hhld.journal (hmem e he) hlt
  · -- A record with the identity of the event is the event itself, journalled already.
    intro e he hle r hr hsrc
    rw [h.db.journal.source r hr] at hsrc
    obtain ⟨cause, other, hkind, hid⟩ : ∃ cause other, r.kind = .executionEvent cause other ∧
        other.eventId = e.eventId := by
      cases hkind : r.kind with
      | commandSubmitted cmd =>
        rw [hkind] at hsrc
        cases hsrc
      | executionEvent cause other =>
        rw [hkind] at hsrc
        exact ⟨cause, other, rfl, SourceId.execution.inj hsrc⟩
    have hjrn := Database.mem_journalOf.mpr ⟨r, hr, hkind⟩
    obtain ⟨rfl, rfl⟩ := h.identified.unique _ _ _ _ (.inl hjrn) (hknown e (hmem e he)) hid
    obtain ⟨i, hi, hget⟩ := mem_iff_getElem.mp hjrn
    have hat := getElem_sequence hseqs (Nat.lt_of_lt_of_le hi hhld.journal.length_le)
    rw [hhld.journal.getElem hi] at hget
    rw [hget] at hat
    rw [h.db.cursorOf_eq] at hle
    omega
  · exact eventIds_nodup hseqs (fun e he f hf hid =>
      (h.identified.unique _ e _ f (hknown e he) (hknown f hf) hid).2) hevs

variable [JsonText V]

/-- A batch of a settled command is stored already. -/
theorem Sound.accepts_settled (h : s.Sound) (hhld : s.Holds nid row)
    (hdone : s.db.settled row.commandId = true) (hbat : batch.2 = first :: rest)
    (hseg : Segment row ((s.site nid).ledger.eventsOf row.commandId) bound batch)
    (hread : ReadsBack s.db row.commandId batch.2) (ids : DerivedIds)
    (newId : Nat → TaskEventId) (rid : TaskEventId) (replier : String) :
    ∃ adm db', s.db.publishExecutionEvents ids nid newId rid batch.1
      row.commandId batch.2 replier = .ok (adm, db') := by
  obtain ⟨start, hst, hevs, _⟩ := hseg.segment
  have hstr := (h.ledger nid).stream row hhld.mem
  have hwhole := eq_of_terminal hstr hhld.journal ((h.db.settled_iff _).mp hdone)
  have hconts := continues_of_segment hstr hevs
  rw [hbat] at hconts hevs hread
  have hfst : first.sequence = start := (List.cons.inj hconts.sequences).1
  have hexec := hconts.execution first mem_cons_self
  obtain ⟨stream, hfind⟩ : ∃ stream,
      s.db.executionEventStreams.find? row.commandId = some stream := by
    unfold Database.settled at hdone
    cases hfind : s.db.executionEventStreams.find? row.commandId with
    | none =>
      rw [hfind] at hdone
      cases hdone
    | some stream => exact ⟨stream, rfl⟩
  obtain ⟨hcmd, t, ht, htask, hnode⟩ := Database.runsAt_iff.mp hhld.runs
  have htask : t.taskId = batch.1 := htask.trans hseg.task.symm
  have happ : s.db.appendExecutionEvents ids newId rid batch.1 row.commandId batch.2
      replier = .ok (⟨stream.nextSequence - 1, [], none⟩, s.db) := by
    rw [hbat]
    refine Database.appendExecutionEvents_stored h.db (hseg.task ▸ hcmd) hfind ?_
      (fun e he => ?_) ids rid replier
    · rw [hfst, hexec]
      exact hconts
    · have hmem : e ∈ s.db.journalOf row.commandId := by
        rw [hwhole]
        exact mem_of_mem_drop (hevs.subset he)
      have hnums := (h.db.holdsExecution row.commandId).sequences
      refine ⟨e, hmem, hread e he ?_⟩
      rw [h.db.cursorOf_eq]
      exact (List.getElem?_eq_some_iff.mp (getElem?_of_mem hnums hmem)).1
  have hload : s.db.loadTask batch.1 = .ok t := require_eq_ok.mpr (htask ▸ Table.find?_of_mem ht)
  exact ⟨_, _, bind_eq_ok.mpr ⟨t, hload,
    bind_eq_ok.mpr ⟨(), ensure_of_eq_true (decide_eq_true hnode), happ⟩⟩⟩

/-- The coordinator can take a batch of the command: what it repeats is read back as it was sent,
and the identity derived for the answer it calls for is free. -/
structure Takes (ids : DerivedIds) (db : Database V) (commandId : CommandId)
    (events : List (ExecutionEvent V)) : Prop where
  readsBack : ReadsBack db commandId events
  answerFree : db.settled commandId = false → AnswerFree ids db commandId events

/-- **The coordinator refuses no batch of a command it holds that it can take.** -/
theorem Sound.accepts (h : s.Sound) (hhld : s.Holds nid row)
    (hseg : Segment row ((s.site nid).ledger.eventsOf row.commandId) bound batch)
    (htakes : Takes ids s.db row.commandId batch.2) {newId : Nat → TaskEventId}
    {rid : TaskEventId} (hdraws : DrawsNew s.db newId rid) (replier : String) :
    ∃ adm db', s.db.publishExecutionEvents ids nid newId rid batch.1
      row.commandId batch.2 replier = .ok (adm, db') := by
  obtain ⟨first, rest, hbat⟩ := exists_cons_of_ne_nil hseg.nonempty
  cases hdone : s.db.settled row.commandId with
  | true =>
    exact h.accepts_settled hhld hdone hbat hseg htakes.readsBack ids newId rid replier
  | false =>
    have hval := h.validBatch hhld hdone hbat hseg
    have hfree := htakes.answerFree hdone
    have hread := htakes.readsBack
    rw [hbat] at hfree hread ⊢
    exact hval.exists_accepted h.db hdraws hread hfree replier

omit [JsonText V] in
/-- What a batch that was taken in makes of the journal. -/
theorem Sound.journalled (h : s.Sound) (hmem : row ∈ (s.site nid).ledger.executions)
    (hjnl : s.db.journalOf row.commandId <+: (s.site nid).ledger.eventsOf row.commandId)
    (hseg : Segment row ((s.site nid).ledger.eventsOf row.commandId) bound batch)
    {mid : Database V} {adm : ExecutionEventAdmission V}
    (hbat : JournalledBatch s.db mid batch.1 row.commandId batch.2 adm)
    {last : ExecutionEvent V} (hlast : batch.2.getLast? = some last) :
    mid.journalOf row.commandId <+: (s.site nid).ledger.eventsOf row.commandId ∧
      (s.db.journalOf row.commandId).length ≤ (mid.journalOf row.commandId).length ∧
      last.sequence < (mid.journalOf row.commandId).length ∧
      (mid.journalOf row.commandId).length ≤
        max (s.db.journalOf row.commandId).length (last.sequence + 1) ∧
      adm.throughExecutionSequence + 1 = (mid.journalOf row.commandId).length := by
  obtain ⟨start, _, hevs, _⟩ := hseg.segment
  have hseqs := ((h.ledger nid).stream row hmem).sequences
  have hnums := (hbat.consistent.holdsExecution row.commandId).sequences
  have hend := last_of_segment hseqs hevs hlast
  have hsub : mid.journalOf row.commandId ⊆ (s.site nid).ledger.eventsOf row.commandId := by
    intro e he
    rcases hbat.mem_journalOf he with hold | ⟨_, hnew⟩
    · exact hjnl.subset hold
    · exact mem_of_mem_drop (hevs.subset hnew)
  refine ⟨isPrefix_of_subset hseqs hnums hsub, ?_, ?_, ?_, ?_⟩
  · obtain ⟨new, hnew, _⟩ := hbat.journalOf_append row.commandId
    rw [hnew, length_append]
    exact Nat.le_add_right _ _
  · obtain ⟨stored, hsto, _, hsame, _⟩ := hbat.stored last (mem_of_getLast? hlast)
    rw [← hsame]
    exact (List.getElem?_eq_some_iff.mp (getElem?_of_mem hnums hsto)).1
  · -- The last event of the journal was journalled before or is in the batch.
    rcases Nat.eq_zero_or_pos (mid.journalOf row.commandId).length with hzero | hpos
    · rw [hzero]
      exact Nat.zero_le _
    · have hlt : (mid.journalOf row.commandId).length - 1 <
          (mid.journalOf row.commandId).length := Nat.sub_lt hpos Nat.one_pos
      have hnumber := getElem_sequence hnums hlt
      rcases hbat.mem_journalOf (getElem_mem hlt) with hold | ⟨_, hnew⟩
      · have hnums := (h.db.holdsExecution row.commandId).sequences
        have hbef := (List.getElem?_eq_some_iff.mp (getElem?_of_mem hnums hold)).1
        omega
      · have hmem := mem_map_of_mem (f := ExecutionEvent.sequence) hnew
        rw [sequences_of_segment hseqs hevs, mem_range'_1] at hmem
        omega
  · obtain ⟨stream, hfind, _, hnext⟩ := hbat.cursor
    have hcurs := hbat.consistent.cursorOf_eq row.commandId
    rw [Database.cursorOf, hfind, Function.update_self] at hcurs
    exact hnext.symm.trans hcurs

end Network

end Renoa.Node
