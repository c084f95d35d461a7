import Renoa.Node.SessionSpec

/-!
# The flow of one execution's events

`Flow` ties together what one command's execution looks like on both sides: the ledger's row and
events, what the coordinator journalled, the session and the batches of connections that ended. The
journal is a prefix of the ledger and stands behind the publication cursor. Neither it nor a batch
on its way reaches beyond a bound: the end of the batch in flight, or, with none in flight, the end
of the batch that would be sent next. That batch covers every earlier one, because it is built from
the same cursor over at least the same events.
-/

namespace Renoa.Node

open Foundation Protocol List
open Control (TaskId)

variable {V : Type} {bytes : MessageBytes V} {batch events' : List (ExecutionEvent V)}
  {l : Ledger V} {through : Nat} {last : ExecutionEvent V}

/-- The sequence an acceptance of the command names. -/
def ServerMessage.accepted? (commandId : CommandId) : ServerMessage → Option Nat
  | .executionEventsAccepted cause through => if cause = commandId then some through else none
  | _ => none

/-- The sequences the acceptances of the command name. -/
def acceptedOf (commandId : CommandId) (messages : List ServerMessage) : List Nat :=
  messages.filterMap (ServerMessage.accepted? commandId)

/-- The last sequences of batches. -/
def endsOf (batches : List (TaskId × List (ExecutionEvent V))) : List Nat :=
  batches.filterMap fun batch => batch.2.getLast?.map ExecutionEvent.sequence

/-- What the connection carries for the command: batches, and acceptances of them. -/
def Session.flights (session : Session V) (commandId : CommandId) : List Nat :=
  endsOf (batchesOf commandId session.outgoing) ++ acceptedOf commandId session.incoming

/-- Every batch of the command on the connection, and every acceptance of one, is of the batch in
flight. -/
def Session.Accounted (session : Session V) (commandId : CommandId) : Prop :=
  List.Sublist (session.flights commandId) (session.inFlight commandId).toList

/-- Where the journal and the batches of a row must end: with the batch in flight, or else with
the batch the session would send next. -/
def flowBound (bytes : MessageBytes V) (row : ExecutionRow) (events : List (ExecutionEvent V)) :
    Option Nat → Nat
  | some through => through + 1
  | none => row.start + (nextBatch bytes row events).length

/-- A batch of consecutive events from the cursor or before it. -/
structure Segment (row : ExecutionRow) (events : List (ExecutionEvent V)) (bound : Nat)
    (batch : TaskId × List (ExecutionEvent V)) : Prop where
  task : batch.1 = row.taskId
  nonempty : batch.2 ≠ []
  segment : ∃ first ≤ row.start, batch.2 <+: events.drop first ∧
    first + batch.2.length ≤ bound

/-- What the session has of the row's command has the row's cursor and task. -/
def Agrees (publications : List Publication) (row : ExecutionRow) : Prop :=
  ∀ flight ∈ flightOf publications row.commandId,
    flight.1.publishedThrough = row.publishedThrough ∧ flight.1.taskId = row.taskId

/-- What a session has in flight for the row. -/
structure Flight (bytes : MessageBytes V) (row : ExecutionRow) (events : List (ExecutionEvent V))
    (session : Session V) : Prop where
  record : Agrees session.publications row
  accounted : session.Accounted row.commandId
  ahead : ∀ through, session.inFlight row.commandId = some through →
    row.start ≤ through ∧ through < row.start + (nextBatch bytes row events).length
  outgoing : ∀ batch ∈ batchesOf row.commandId session.outgoing,
    Segment row events (flowBound bytes row events (session.inFlight row.commandId)) batch

/-- The row's events on both sides and on their way. -/
structure Flow (bytes : MessageBytes V) (row : ExecutionRow)
    (events journal : List (ExecutionEvent V)) (session : Option (Session V))
    (late : List (TaskId × List (ExecutionEvent V))) : Prop where
  inLedger : journal <+: events
  published : row.start ≤ journal.length
  cursor : journal.length ≤
    flowBound bytes row events (session.bind (Session.inFlight · row.commandId))
  segments : ∀ batch ∈ late, Segment row events
    (flowBound bytes row events (session.bind (Session.inFlight · row.commandId))) batch
  flight : ∀ σ, session = some σ → Flight bytes row events σ
  accepted : ∀ σ, session = some σ → ∀ through ∈ acceptedOf row.commandId σ.incoming,
    through < journal.length

variable {row : ExecutionRow} {events journal : List (ExecutionEvent V)}
  {sess : Option (Session V)} {σ : Session V} {late : List (TaskId × List (ExecutionEvent V))}
  {rest : List (ClientMessage V)}

theorem Segment.mono {bound bound' : Nat} {batch : TaskId × List (ExecutionEvent V)}
    (h : Segment row events bound batch) (hle : bound ≤ bound') :
    Segment row events bound' batch := by
  obtain ⟨first, hfst, hseg, hbnd⟩ := h.segment
  exact ⟨h.task, h.nonempty, first, hfst, hseg, Nat.le_trans hbnd hle⟩

/-- The batch in flight ends no later than the batch that would be sent now. -/
theorem Flight.bound_le (h : Flight bytes row events σ) :
    flowBound bytes row events (σ.inFlight row.commandId) ≤ flowBound bytes row events none := by
  cases hfl : σ.inFlight row.commandId with
  | none => exact Nat.le_refl _
  | some through => exact (h.ahead through hfl).2

/-! ## What is in flight -/

theorem endsOf_append (first rest : List (TaskId × List (ExecutionEvent V))) :
    endsOf (first ++ rest) = endsOf first ++ endsOf rest := filterMap_append

theorem acceptedOf_cons (cid : CommandId) (through : Nat) (rest : List ServerMessage) :
    acceptedOf cid (.executionEventsAccepted cid through :: rest) =
      through :: acceptedOf cid rest := by
  rw [acceptedOf, filterMap_cons]
  simp [ServerMessage.accepted?, acceptedOf]

namespace Session.Accounted

variable {cid : CommandId} {σ' : Session V}

section

variable (h : σ.Accounted cid)

include h

/-- What is on its way is in flight, and nothing else is on its way. -/
theorem of_mem (hmem : through ∈ σ.flights cid) :
    σ.inFlight cid = some through ∧ σ.flights cid = [through] := by
  unfold Accounted at h
  cases hfl : σ.inFlight cid with
  | none =>
    rw [hfl] at h
    rw [sublist_nil.mp h] at hmem
    cases hmem
  | some sent =>
    rw [hfl] at h
    rcases sublist_singleton.mp h with hnone | hone
    · rw [hnone] at hmem
      cases hmem
    · rw [hone] at hmem ⊢
      rw [mem_singleton.mp hmem]
      exact ⟨rfl, rfl⟩

/-- Nothing is in flight for the command, so the connection carries nothing for it. -/
theorem idle (hfl : σ.inFlight cid = none) :
    endsOf (batchesOf cid σ.outgoing) = [] ∧ acceptedOf cid σ.incoming = [] := by
  unfold Accounted at h
  rw [hfl] at h
  exact append_eq_nil_iff.mp (sublist_nil.mp h)

theorem replace (hfl : σ'.inFlight cid = σ.inFlight cid)
    (hout : List.Sublist (batchesOf cid σ'.outgoing) (batchesOf cid σ.outgoing))
    (hin : List.Sublist (acceptedOf cid σ'.incoming) (acceptedOf cid σ.incoming)) :
    σ'.Accounted cid := by
  unfold Accounted
  rw [hfl]
  exact ((hout.filterMap _).append hin).trans h

/-- A pass sends a batch of a command that has none in flight. -/
theorem send {sent : List (ClientMessage V)} {result : Except NodeError (List Publication)}
    (hpass : SentFor bytes l cid σ.publications sent result) {after : List Publication}
    (haft : result = .ok after) :
    (⟨after, σ.outgoing ++ sent, σ.incoming⟩ : Session V).Accounted cid := by
  cases hpass with
  | nothing hsent hfl =>
    refine h.replace ?_ ?_ (List.Sublist.refl _)
    · rw [Session.inFlight, inFlightOf_eq, hfl after haft, ← inFlightOf_eq, Session.inFlight]
    · rw [batchesOf_append, hsent, append_nil]
  | @batch pub last hpubl hfree hlast hsent hfl =>
    have hidle : σ.inFlight cid = none := by
      rw [Session.inFlight, inFlightOf, hpubl, Option.bind_some, hfree]
    obtain ⟨hout, hin⟩ := h.idle hidle
    unfold Accounted Session.flights Session.inFlight
    rw [batchesOf_append, endsOf_append, hout, hin, hsent, inFlightOf_eq, hfl after haft]
    simp [endsOf, hlast]

/-- The coordinator answers the message at the front, a batch by its end. -/
theorem answered {message : ClientMessage V} (hout : σ.outgoing = message :: rest)
    {reply : ServerMessage} (hans : ∀ through, reply.accepted? cid = some through →
      ((message.batch? cid).any fun batch =>
        batch.2.getLast?.map ExecutionEvent.sequence = some through) = true) :
    (⟨σ.publications, rest, σ.incoming ++ [reply]⟩ : Session V).Accounted cid := by
  cases hrep : reply.accepted? cid with
  | none =>
    refine h.replace rfl ?_ ?_
    · rw [hout]
      exact (sublist_cons_self message rest).filterMap _
    · simp [acceptedOf, hrep]
  | some through =>
    -- The acceptance takes the place of the batch, which is the only flight.
    obtain ⟨batch, hbat, hend⟩ := (Option.any_eq_true _ _).mp (hans through hrep)
    have hfls : σ.flights cid =
        through :: (endsOf (batchesOf cid rest) ++ acceptedOf cid σ.incoming) := by
      rw [Session.flights, hout, batchesOf, filterMap_cons, hbat, endsOf, filterMap_cons,
        of_decide_eq_true hend]
      rfl
    obtain ⟨hfly, hone⟩ := h.of_mem (hfls ▸ mem_cons_self)
    obtain ⟨hends, hacc⟩ := append_eq_nil_iff.mp (List.cons.inj (hfls.symm.trans hone)).2
    have hnew :
        acceptedOf cid (σ.incoming ++ [reply]) = acceptedOf cid σ.incoming ++ [through] := by
      simp [acceptedOf, hrep]
    show List.Sublist (endsOf (batchesOf cid rest) ++ acceptedOf cid (σ.incoming ++ [reply]))
      (σ.inFlight cid).toList
    rw [hnew, hends, hacc, hfly]
    exact List.Sublist.refl _

/-- An acceptance that is received is the only flight. -/
theorem received {rest : List ServerMessage}
    (hin : σ.incoming = .executionEventsAccepted cid through :: rest) :
    σ.inFlight cid = some through ∧
      endsOf (batchesOf cid σ.outgoing) = [] ∧ acceptedOf cid rest = [] := by
  have hcons : acceptedOf cid σ.incoming = through :: acceptedOf cid rest := by
    rw [hin, acceptedOf_cons]
  have hmem : through ∈ σ.flights cid := mem_append_right _ (hcons ▸ mem_cons_self)
  obtain ⟨hfly, hone⟩ := h.of_mem hmem
  rw [Session.flights, hcons] at hone
  have hlen := congrArg List.length hone
  rw [length_append, length_cons, length_singleton] at hlen
  exact ⟨hfly, eq_nil_of_length_eq_zero (by omega), eq_nil_of_length_eq_zero (by omega)⟩

end

end Session.Accounted

/-! ## The end of a connection -/

/-- When the connection ends, what was on its way may still arrive. -/
theorem Flow.disconnect (h : Flow bytes row events journal (some σ) late) :
    Flow bytes row events journal none (late ++ batchesOf row.commandId σ.outgoing) where
  inLedger := h.inLedger
  published := h.published
  cursor := Nat.le_trans h.cursor (h.flight σ rfl).bound_le
  segments batch hbat := by
    have hle := (h.flight σ rfl).bound_le
    rcases mem_append.mp hbat with hbat | hbat
    · exact (h.segments batch hbat).mono hle
    · exact ((h.flight σ rfl).outgoing batch hbat).mono hle
  flight _ hσ := by cases hσ
  accepted _ hσ := by cases hσ

/-! ## A growing ledger -/

theorem flowBound_mono (hgrow : events <+: events') (inFlight : Option Nat) :
    flowBound bytes row events inFlight ≤ flowBound bytes row events' inFlight := by
  cases inFlight with
  | some through => exact Nat.le_refl _
  | none => exact Nat.add_le_add_left (nextBatch_mono row hgrow).length_le _

theorem Segment.grow {bound bound' : Nat} {batch : TaskId × List (ExecutionEvent V)}
    (h : Segment row events bound batch) (hgrow : events <+: events') (hle : bound ≤ bound') :
    Segment row events' bound' batch := by
  obtain ⟨first, hfst, hseg, hbnd⟩ := h.segment
  obtain ⟨later, rfl⟩ := hgrow
  refine ⟨h.task, h.nonempty, first, hfst, ?_, Nat.le_trans hbnd hle⟩
  rw [drop_append]
  exact hseg.trans (prefix_append _ _)

/-- Events written behind the others leave the flow as it is. -/
theorem Flow.grow (h : Flow bytes row events journal sess late) (hgrow : events <+: events') :
    Flow bytes row events' journal sess late where
  inLedger := h.inLedger.trans hgrow
  published := h.published
  cursor := Nat.le_trans h.cursor (flowBound_mono hgrow _)
  segments batch hbat := (h.segments batch hbat).grow hgrow (flowBound_mono hgrow _)
  flight σ hσ :=
    { record := (h.flight σ hσ).record
      accounted := (h.flight σ hσ).accounted
      ahead := fun through hthru => by
        have hahead := (h.flight σ hσ).ahead through hthru
        have hle : (nextBatch bytes row events).length ≤ (nextBatch bytes row events').length :=
          (nextBatch_mono row hgrow).length_le
        omega
      outgoing := fun batch hbat =>
        ((h.flight σ hσ).outgoing batch hbat).grow hgrow (flowBound_mono hgrow _) }
  accepted := h.accepted

/-- The flow reads of the row its command, its task and its cursor. -/
theorem Flow.congr_row (h : Flow bytes row events journal sess late) {row' : ExecutionRow}
    (hcmd : row'.commandId = row.commandId) (htask : row'.taskId = row.taskId)
    (hpub : row'.publishedThrough = row.publishedThrough) :
    Flow bytes row' events journal sess late := by
  have hst : row'.start = row.start := by rw [ExecutionRow.start, hpub, ExecutionRow.start]
  have hnext : nextBatch bytes row' events = nextBatch bytes row events := by
    rw [nextBatch, hst, hcmd, htask, nextBatch]
  have hbnd : flowBound bytes row' events = flowBound bytes row events := by
    funext inFlight
    cases inFlight with
    | some through => rfl
    | none => rw [flowBound, flowBound, hnext, hst]
  have hseg : ∀ bound batch, Segment row events bound batch → Segment row' events bound batch := by
    intro bound batch hbat
    obtain ⟨first, hfst, hrest⟩ := hbat.segment
    exact ⟨hbat.task.trans htask.symm, hbat.nonempty, first, hst ▸ hfst, hrest⟩
  refine ⟨h.inLedger, hst ▸ h.published, ?_, ?_, fun σ hσ => ⟨?_, ?_, ?_, ?_⟩, ?_⟩
  · rw [hbnd, hcmd]
    exact h.cursor
  · rw [hbnd, hcmd]
    exact fun batch hbat => hseg _ batch (h.segments batch hbat)
  · rw [Agrees, hcmd, hpub, htask]
    exact (h.flight σ hσ).record
  · rw [hcmd]
    exact (h.flight σ hσ).accounted
  · rw [hcmd, hst, hnext]
    exact (h.flight σ hσ).ahead
  · rw [hcmd, hbnd]
    exact fun batch hbat => hseg _ batch ((h.flight σ hσ).outgoing batch hbat)
  · rw [hcmd]
    exact h.accepted

/-! ## Another session -/

/-- A session with the same record and flight of the command, and no more batches and acceptances
of it. -/
theorem Flow.replace (h : Flow bytes row events journal (some σ) late) {σ' : Session V}
    (hrec : Agrees σ'.publications row)
    (hfl : σ'.inFlight row.commandId = σ.inFlight row.commandId)
    (hout : List.Sublist (batchesOf row.commandId σ'.outgoing)
      (batchesOf row.commandId σ.outgoing))
    (hin : List.Sublist (acceptedOf row.commandId σ'.incoming)
      (acceptedOf row.commandId σ.incoming)) :
    Flow bytes row events journal (some σ') late := by
  have hold := h.flight σ rfl
  refine ⟨h.inLedger, h.published, ?_, ?_, ?_, ?_⟩
  · rw [Option.bind_some, hfl]
    exact h.cursor
  · rw [Option.bind_some, hfl]
    exact h.segments
  · rintro _ ⟨⟩
    refine ⟨hrec, hold.accounted.replace hfl hout hin, ?_, ?_⟩
    · rw [hfl]
      exact hold.ahead
    · rw [hfl]
      exact fun batch hbat => hold.outgoing batch (hout.subset hbat)
  · rintro _ ⟨⟩ through hthru
    exact h.accepted σ rfl through (hin.subset hthru)

/-- A row with a batch in flight has something left to publish. -/
theorem Flight.pending (hc : l.Consistent) (hrow : row ∈ l.executions)
    (h : Flight bytes row (l.eventsOf row.commandId) σ)
    (hfl : σ.inFlight row.commandId = some through) : l.isPendingPublication row = true := by
  have hahead := h.ahead through hfl
  have hle : (nextBatch bytes row (l.eventsOf row.commandId)).length ≤
      (l.eventsOf row.commandId).length - row.start := by
    have hfst : nextBatch bytes row (l.eventsOf row.commandId) <+: _ := nextBatch_isPrefix row _
    have hlen := hfst.length_le
    rwa [length_drop] at hlen
  have hnext : (l.maxSequence row.commandId).elim 0 (· + 1) =
      (l.eventsOf row.commandId).length := hc.nextEventSequence hrow
  unfold Ledger.isPendingPublication
  unfold ExecutionRow.start at hahead hle
  cases hpub : row.publishedThrough with
  | none => simp
  | some published =>
    rw [hpub] at hahead hle
    cases hmax : l.maxSequence row.commandId with
    | none =>
      rw [hmax] at hnext
      simp only [Option.elim] at hahead hle hnext
      omega
    | some last =>
      rw [hmax] at hnext
      simp only [Option.elim] at hahead hle hnext
      have hlt : published < last := by omega
      simp [hlt]

theorem Reads.agrees {pubs : List Publication} (h : Reads l pubs) (hrow : row ∈ l.executions) :
    Agrees pubs row := by
  intro flight hfl
  obtain ⟨p, hp, rfl⟩ := Option.map_eq_some_iff.mp hfl
  obtain ⟨hmem, hid⟩ := publicationOf_eq_some hp
  rw [← Table.key_inj (h.record p hmem) hrow hid]
  exact ⟨rfl, rfl⟩

/-- Reading the ledger again keeps what is in flight. -/
theorem Flow.refresh (hc : l.Consistent) (hrow : row ∈ l.executions)
    (h : Flow bytes row (l.eventsOf row.commandId) journal (some σ) late) :
    Flow bytes row (l.eventsOf row.commandId) journal
      (some { σ with publications := refreshPublications l σ.publications }) late := by
  refine h.replace ((reads_refresh l _).agrees hrow) ?_ (List.Sublist.refl _) (List.Sublist.refl _)
  show inFlightOf (refreshPublications l σ.publications) row.commandId = _
  rw [inFlightOf_refresh hc hrow]
  split
  · rfl
  · rename_i hpend
    cases hfl : σ.inFlight row.commandId with
    | none => rfl
    | some through => exact absurd ((h.flight σ rfl).pending hc hrow hfl) hpend

/-! ## Sending -/

/-- The sequences of consecutive events. -/
theorem sequences_of_segment {first : Nat}
    (hseqs : events.map ExecutionEvent.sequence = List.range events.length)
    (h : batch <+: events.drop first) :
    batch.map ExecutionEvent.sequence = List.range' first batch.length := by
  have hle := h.length_le
  rw [length_drop] at hle
  have hmap := h.map ExecutionEvent.sequence
  rw [map_drop, hseqs, range_eq_range', drop_range'] at hmap
  have htake := prefix_iff_eq_take.mp hmap
  rw [htake, length_map]
  apply ext_getElem
  · simp only [length_take, length_range']
    omega
  · intro i _ _
    simp only [getElem_take, getElem_range']
    omega

theorem last_of_segment {first : Nat}
    (hseqs : events.map ExecutionEvent.sequence = List.range events.length)
    (h : batch <+: events.drop first) (hlast : batch.getLast? = some last) :
    last.sequence + 1 = first + batch.length := by
  have hmap := sequences_of_segment hseqs h
  have hlastSequence : (batch.map ExecutionEvent.sequence).getLast? = some last.sequence := by
    rw [getLast?_map, hlast]
    rfl
  have hpos : 0 < batch.length := length_pos_iff.mpr fun hnil => by simp [hnil] at hlast
  rw [hmap, getLast?_range', if_neg (Nat.ne_of_gt hpos)] at hlastSequence
  have hvalue := Option.some.inj hlastSequence
  omega

/-- What a pass sent for the row, read with the ledger it was read from. -/
inductive SentRow (bytes : MessageBytes V) (row : ExecutionRow) (events : List (ExecutionEvent V))
    (publications : List Publication) (sent : List (ClientMessage V))
    (result : Except NodeError (List Publication)) : Prop
  | nothing (hsent : batchesOf row.commandId sent = [])
      (hflight : ∀ after, result = .ok after →
        flightOf after row.commandId = flightOf publications row.commandId)
  | batch {record : ExecutionRecord} {last : ExecutionEvent V}
      (hfree : flightOf publications row.commandId = some (record, none))
      (hlast : (nextBatch bytes row events).getLast? = some last)
      (hsent : batchesOf row.commandId sent = [(row.taskId, nextBatch bytes row events)])
      (hflight : ∀ after, result = .ok after →
        flightOf after row.commandId = some (record, some last.sequence))

theorem Flight.sends (hc : l.Consistent) (hrow : row ∈ l.executions)
    (h : Flight bytes row (l.eventsOf row.commandId) σ) (hrds : Reads l σ.publications) :
    SentRow bytes row (l.eventsOf row.commandId) σ.publications
      (sendPending bytes l σ.publications).1 (sendPending bytes l σ.publications).2 := by
  have hpass : SentFor bytes l row.commandId σ.publications _ _ :=
    sendPending_spec l σ.publications hrds.nodup
  cases hpass with
  | nothing hsent hfl => exact .nothing hsent hfl
  | @batch pub last hpubl hfree hlast hsent hfl =>
    have hflight : flightOf σ.publications row.commandId = some (pub.record, none) := by
      rw [flightOf, hpubl, Option.map_some, hfree]
    obtain ⟨hpub, htask⟩ := h.record _ hflight
    have hbat : pub.due bytes l = nextBatch bytes row (l.eventsOf row.commandId) := by
      rw [Publication.due, (publicationOf_eq_some hpubl).2, htask, hpub, hc.loadEventsAfter hrow,
        nextBatch]
    rw [hbat] at hlast hsent
    rw [htask] at hsent
    exact .batch hflight hlast hsent hfl

/-- The batch that is sent next is a segment of the ledger. -/
theorem segment_nextBatch (hlast : (nextBatch bytes row events).getLast? = some last) :
    Segment row events (flowBound bytes row events none)
      (row.taskId, nextBatch bytes row events) where
  task := rfl
  nonempty := fun hnil => by
    rw [show nextBatch bytes row events = [] from hnil] at hlast
    cases hlast
  segment := ⟨row.start, Nat.le_refl _, nextBatch_isPrefix row events, Nat.le_refl _⟩

/-- A pass over the publications that was sent whole. -/
theorem Flow.send (hc : l.Consistent) (hrow : row ∈ l.executions) (hrds : Reads l σ.publications)
    (h : Flow bytes row (l.eventsOf row.commandId) journal (some σ) late) {after : List Publication}
    (haft : (sendPending bytes l σ.publications).2 = .ok after) :
    Flow bytes row (l.eventsOf row.commandId) journal
      (some ⟨after, σ.outgoing ++ (sendPending bytes l σ.publications).1, σ.incoming⟩) late := by
  have hfl := h.flight σ rfl
  have hacc := hfl.accounted.send (sendPending_spec l σ.publications hrds.nodup) haft
  cases hfl.sends hc hrow hrds with
  | nothing hsent hfly =>
    refine h.replace ?_ ?_ ?_ (List.Sublist.refl _)
    · rw [Agrees, hfly after haft]
      exact hfl.record
    · rw [Session.inFlight, inFlightOf_eq, hfly after haft, ← inFlightOf_eq, Session.inFlight]
    · rw [batchesOf_append, hsent, append_nil]
  | @batch record last hfree hlast hsent hfly =>
    have hend := last_of_segment (hc.stream row hrow).sequences (nextBatch_isPrefix row _) hlast
    have hseg := segment_nextBatch hlast
    have hbnd : flowBound bytes row (l.eventsOf row.commandId) (some last.sequence) =
        flowBound bytes row (l.eventsOf row.commandId) none := hend
    have hnew : Session.inFlight (⟨after, σ.outgoing ++ (sendPending bytes l σ.publications).1,
        σ.incoming⟩ : Session V) row.commandId = some last.sequence := by
      rw [Session.inFlight, inFlightOf_eq, hfly after haft, Option.bind_some]
    have hnone : σ.inFlight row.commandId = none := by
      rw [Session.inFlight, inFlightOf_eq, hfree, Option.bind_some]
    have hcurs := h.cursor
    have hlate := h.segments
    have hout := hfl.outgoing
    rw [Option.bind_some, hnone] at hcurs hlate
    rw [hnone] at hout
    refine ⟨h.inLedger, h.published, ?_, ?_, ?_, ?_⟩
    · rw [Option.bind_some, hnew, hbnd]
      exact hcurs
    · rw [Option.bind_some, hnew, hbnd]
      exact hlate
    · rintro _ ⟨⟩
      refine ⟨?_, hacc, ?_, ?_⟩
      · rw [Agrees, hfly after haft]
        rintro _ ⟨⟩
        exact hfl.record (record, none) hfree
      · rw [hnew]
        rintro through ⟨⟩
        have hpos : 0 < (nextBatch bytes row (l.eventsOf row.commandId)).length :=
          length_pos_iff.mpr hseg.nonempty
        omega
      · rw [hnew, hbnd, batchesOf_append, hsent]
        intro batch hbat
        rcases mem_append.mp hbat with hbat | hbat
        · exact hout batch hbat
        · rw [mem_singleton.mp hbat]
          exact hseg
    · rintro _ ⟨⟩
      exact h.accepted σ rfl

/-- A pass over the publications that an oversized event of some command cut short. -/
theorem Flow.send_error (hc : l.Consistent) (hrow : row ∈ l.executions)
    (hrds : Reads l σ.publications)
    (h : Flow bytes row (l.eventsOf row.commandId) journal (some σ) late) :
    Flow bytes row (l.eventsOf row.commandId) journal none (late ++ batchesOf row.commandId
      (σ.outgoing ++ (sendPending bytes l σ.publications).1)) := by
  have hend := h.disconnect
  rw [batchesOf_append, ← append_assoc]
  cases (h.flight σ rfl).sends hc hrow hrds with
  | nothing hsent =>
    rw [hsent, append_nil]
    exact hend
  | batch _ hlast hsent =>
    rw [hsent]
    refine ⟨hend.inLedger, hend.published, hend.cursor, fun batch hbat => ?_,
      hend.flight, hend.accepted⟩
    rcases mem_append.mp hbat with hbat | hbat
    · exact hend.segments batch hbat
    · rw [mem_singleton.mp hbat]
      exact segment_nextBatch hlast

/-! ## The journal -/

/-- The coordinator took in more of the ledger, within the bound. -/
theorem Flow.journalled (h : Flow bytes row events journal sess late)
    {journal' : List (ExecutionEvent V)} (hinLedger : journal' <+: events)
    (hgrows : journal.length ≤ journal'.length)
    (hbnd : journal'.length ≤
      flowBound bytes row events (sess.bind (Session.inFlight · row.commandId))) :
    Flow bytes row events journal' sess late where
  __ := h
  inLedger := hinLedger
  published := Nat.le_trans h.published hgrows
  cursor := hbnd
  accepted σ hσ through hthru := Nat.lt_of_lt_of_le (h.accepted σ hσ through hthru) hgrows

/-- Batches of ended connections that were handled are on their way no longer. -/
theorem Flow.of_subset (h : Flow bytes row events journal sess late)
    {late' : List (TaskId × List (ExecutionEvent V))} (hsub : late' ⊆ late) :
    Flow bytes row events journal sess late' :=
  { h with segments := fun batch hbat => h.segments batch (hsub hbat) }

/-- The batch at the front of the connection is the one in flight. -/
theorem Flight.front (h : Flight bytes row events σ) {tid : TaskId}
    (hout : σ.outgoing = .publishExecutionEvents tid row.commandId batch :: rest)
    (hlast : batch.getLast? = some last) : σ.inFlight row.commandId = some last.sequence := by
  refine (h.accounted.of_mem (mem_append_left _ ?_)).1
  refine mem_filterMap.mpr ⟨(tid, batch), mem_batchesOf.mpr ?_, by rw [hlast]; rfl⟩
  rw [hout]
  exact mem_cons_self

/-- The coordinator accepted the batch at the front of the connection. -/
theorem Flow.handled (h : Flow bytes row events journal (some σ) late) {tid : TaskId}
    (hout : σ.outgoing = .publishExecutionEvents tid row.commandId batch :: rest)
    (hlast : batch.getLast? = some last) (hjrn : last.sequence < journal.length) :
    Flow bytes row events journal (some ⟨σ.publications, rest,
        σ.incoming ++ [.executionEventsAccepted row.commandId last.sequence]⟩) late := by
  have hfl := h.flight σ rfl
  refine ⟨h.inLedger, h.published, h.cursor, h.segments, ?_, ?_⟩
  · rintro _ ⟨⟩
    refine ⟨hfl.record, hfl.accounted.answered hout ?_, hfl.ahead, fun other hoth => ?_⟩
    · intro through hthru
      simp only [ServerMessage.accepted?, if_pos, Option.some.injEq] at hthru
      simp [ClientMessage.batch?, hlast, hthru]
    · refine hfl.outgoing other (mem_batchesOf.mpr ?_)
      rw [hout]
      exact mem_cons_of_mem _ (mem_batchesOf.mp hoth)
  · rintro _ ⟨⟩ through hthru
    rw [acceptedOf, filterMap_append] at hthru
    rcases mem_append.mp hthru with hold | hnew
    · exact h.accepted σ rfl through hold
    · simp only [ServerMessage.accepted?, filterMap_cons, if_pos, filterMap_nil,
        mem_singleton] at hnew
      rwa [hnew]

/-- The cursor that moves with an acceptance stands behind it. -/
theorem ExecutionRow.publishThrough_start (h : row.start ≤ through) :
    (row.publishThrough through).publishedThrough = some through := by
  unfold ExecutionRow.publishThrough
  unfold ExecutionRow.start at h
  cases hpub : row.publishedThrough with
  | none => rfl
  | some published =>
    rw [hpub] at h
    simp only [Option.elim] at h
    exact if_pos (by omega)

/-- The node moved its cursor behind the batch it had in flight. -/
theorem Flow.advance (h : Flow bytes row events journal (some σ) late) {rest : List ServerMessage}
    (hin : σ.incoming = .executionEventsAccepted row.commandId through :: rest)
    {pubs : List Publication}
    (hrec : Agrees pubs (row.publishThrough through))
    (hcleared : inFlightOf pubs row.commandId = none) :
    Flow bytes (row.publishThrough through) events journal
      (some ⟨pubs, σ.outgoing, rest⟩) late := by
  have hfl := h.flight σ rfl
  obtain ⟨hfly, hends, hrest⟩ := hfl.accounted.received hin
  have hmem : through ∈ acceptedOf row.commandId σ.incoming := by
    rw [hin, acceptedOf_cons]
    exact mem_cons_self
  have hle := (hfl.ahead through hfly).1
  have hpub := ExecutionRow.publishThrough_start hle
  have hst : (row.publishThrough through).start = through + 1 := by
    rw [ExecutionRow.start, hpub]
    rfl
  have hnone : Session.inFlight (⟨pubs, σ.outgoing, rest⟩ : Session V) row.commandId =
      none := hcleared
  have hbnd : flowBound bytes row events (σ.inFlight row.commandId) ≤
      flowBound bytes (row.publishThrough through) events none := by
    rw [hfly]
    show through + 1 ≤ (row.publishThrough through).start + _
    rw [hst]
    exact Nat.le_add_right _ _
  have hseg : ∀ batch, Segment row events
      (flowBound bytes row events (σ.inFlight row.commandId)) batch →
      Segment (row.publishThrough through) events
        (flowBound bytes (row.publishThrough through) events none) batch := by
    intro batch hbat
    obtain ⟨first, hfst, hseg, hend⟩ := hbat.segment
    refine ⟨hbat.task, hbat.nonempty, first, ?_, hseg, Nat.le_trans hend hbnd⟩
    omega
  refine ⟨h.inLedger, ?_, ?_, ?_, ?_, ?_⟩
  · rw [hst]
    exact h.accepted σ rfl through hmem
  · show journal.length ≤ flowBound bytes _ events (Session.inFlight _ row.commandId)
    rw [hnone]
    exact Nat.le_trans h.cursor hbnd
  · intro batch hbat
    show Segment _ events (flowBound bytes _ events (Session.inFlight _ row.commandId)) batch
    rw [hnone]
    exact hseg batch (h.segments batch hbat)
  · rintro _ ⟨⟩
    refine ⟨hrec, ?_, ?_, ?_⟩
    · show List.Sublist (endsOf (batchesOf row.commandId σ.outgoing) ++
        acceptedOf row.commandId rest) _
      rw [hends, hrest]
      exact nil_sublist _
    · intro other hoth
      have hoth : Session.inFlight _ row.commandId = some other := hoth
      rw [hnone] at hoth
      cases hoth
    · intro batch hbat
      show Segment _ events (flowBound bytes _ events (Session.inFlight _ row.commandId)) batch
      rw [hnone]
      exact hseg batch (hfl.outgoing batch hbat)
  · rintro _ ⟨⟩ other hoth
    have hoth : other ∈ acceptedOf row.commandId rest := hoth
    rw [hrest] at hoth
    cases hoth

/-! ## Beginning -/

/-- A command the node took in, and nothing of it has been sent. -/
theorem flow_admitted (hpub : row.publishedThrough = none)
    (events : List (ExecutionEvent V)) (sess : Option (Session V))
    (hsess : ∀ σ, sess = some σ → publicationOf σ.publications row.commandId = none ∧
      batchesOf row.commandId σ.outgoing = [] ∧ acceptedOf row.commandId σ.incoming = []) :
    Flow bytes row events [] sess [] := by
  have hst : row.start = 0 := by rw [ExecutionRow.start, hpub]; rfl
  have hnil : [] <+: events := nil_prefix
  refine ⟨hnil, ?_, Nat.zero_le _, fun _ h => absurd h not_mem_nil, ?_, ?_⟩
  · rw [hst]
    exact Nat.zero_le _
  · intro σ hσ
    obtain ⟨hnone, hout, hin⟩ := hsess σ hσ
    have hfly : σ.inFlight row.commandId = none := by
      rw [Session.inFlight, inFlightOf, hnone]
      rfl
    refine ⟨?_, ?_, ?_, ?_⟩
    · rw [Agrees, flightOf, hnone]
      rintro flight ⟨⟩
    · rw [Session.Accounted, Session.flights, hout, hin]
      exact nil_sublist _
    · rw [hfly]
      rintro through ⟨⟩
    · rw [hout]
      exact fun _ h => absurd h not_mem_nil
  · intro σ hσ through hthru
    rw [(hsess σ hσ).2.2] at hthru
    cases hthru

/-- A connection opens with nothing in flight. -/
theorem Flow.connect (h : Flow bytes row events journal none late) :
    Flow bytes row events journal (some .opened) late where
  __ := h
  flight σ hσ := by
    cases hσ
    exact ⟨by rintro p ⟨⟩, nil_sublist _, by rintro through ⟨⟩, fun _ h => absurd h not_mem_nil⟩
  accepted σ hσ := by
    cases hσ
    exact fun _ h => absurd h not_mem_nil

end Renoa.Node
