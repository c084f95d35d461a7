import Renoa.Node.MessageSize
import Renoa.Node.TurnOrder

/-!
# Acknowledgements and the deletion of a task

A session takes an acknowledgement only for what it has in flight, and then writes it to the row of
the command. `Waiting` says that this works out: whatever is in flight has its row, and what is on
its way in either direction is in flight. A node that forgets a task deletes the rows, so the two
fit together as long as nothing of the task is in flight when the node forgets it. Behind an
acceptance the session also sends what is next, which fails on an event that does not fit a message
by itself; apart from that no acknowledgement ends a session (`acknowledgements_taken`).

The code does not wait for what is in flight. The coordinator deletes a task once it has accepted
the last event, and the node forgets it as soon as the coordinator has deleted it, while the
acceptance may still be on its way to the session (`acknowledgement_of_forgotten`).
-/

namespace Renoa.Node

open Foundation Protocol List Table Function
open Control (TaskId NodeId Database Transaction DerivedIds)

variable {V : Type} {bytes : MessageBytes V} {cid : CommandId} {l l' : Ledger V} {σ : Session V}
  {row row' : ExecutionRow} {tid : TaskId} {rest : List ServerMessage}

/-! ## What is in flight -/

/-- The acknowledgement of the command is in flight. -/
def admissionInFlightOf (publications : List Publication) (commandId : CommandId) : Bool :=
  (publicationOf publications commandId).any Publication.admissionInFlight

def ClientMessage.acknowledges (commandId : CommandId) : ClientMessage V → Bool
  | .acknowledgeExecution _ cause => cause = commandId
  | .publishExecutionEvents .. => false

/-- How many acknowledgements of the command are among messages. -/
def acknowledgementsOf (commandId : CommandId) (messages : List (ClientMessage V)) : Nat :=
  messages.countP (ClientMessage.acknowledges commandId)

def acknowledgedOf (commandId : CommandId) (messages : List ServerMessage) : Nat :=
  messages.count (.executionAcknowledged commandId)

namespace Session

def admissionInFlight (session : Session V) (commandId : CommandId) : Bool :=
  admissionInFlightOf session.publications commandId

/-- The acknowledgements of the command on their way, and the answers to them. -/
def admissions (session : Session V) (commandId : CommandId) : Nat :=
  acknowledgementsOf commandId session.outgoing + acknowledgedOf commandId session.incoming

end Session

/-- The command has a row whose acknowledgement the coordinator has not confirmed. -/
def Ledger.Unacked (l : Ledger V) (commandId : CommandId) : Prop :=
  ∃ row ∈ l.executions, row.commandId = commandId ∧ row.admissionAcked = false

/-- What the session waits for about a command: every batch and acknowledgement on its way, and
every answer to one, is in flight, and what is in flight has its row in the ledger. -/
structure Waiting (l : Ledger V) (session : Session V) (commandId : CommandId) : Prop where
  events : session.Accounted commandId
  ahead : ∀ through, session.inFlight commandId = some through → ∃ row ∈ l.executions,
    row.commandId = commandId ∧ row.start ≤ through ∧ through < (l.eventsOf commandId).length
  admissions : session.admissions commandId ≤ (session.admissionInFlight commandId).toNat
  unacked : session.admissionInFlight commandId = true → l.Unacked commandId

theorem waiting_opened (l : Ledger V) (cid : CommandId) : Waiting l .opened cid where
  events := List.Sublist.refl _
  ahead _ h := by cases h
  admissions := Nat.le_refl _
  unacked h := by cases h

namespace Waiting

variable (h : Waiting l σ cid)

include h

/-- A session that has the same in flight, and no more on its way. -/
theorem replace {σ' : Session V} (hfl : σ'.inFlight cid = σ.inFlight cid)
    (hadmn : σ'.admissionInFlight cid = σ.admissionInFlight cid) (hevs : σ'.Accounted cid)
    (hadmissions : σ'.admissions cid ≤ σ.admissions cid) : Waiting l σ' cid where
  events := hevs
  ahead thru hthru := h.ahead thru (hfl ▸ hthru)
  admissions := hadmn ▸ Nat.le_trans hadmissions h.admissions
  unacked hunack := h.unacked (hadmn ▸ hunack)

/-- Of a command with nothing in flight, no row is needed. -/
theorem of_idle (hfl : σ.inFlight cid = none) (hadmn : σ.admissionInFlight cid = false)
    (l' : Ledger V) : Waiting l' σ cid where
  events := h.events
  ahead thru hthru := by
    rw [hfl] at hthru
    cases hthru
  admissions := h.admissions
  unacked hunack := by
    rw [hadmn] at hunack
    cases hunack

/-- Of a command without a row, nothing is in flight. -/
theorem idle_of_absent (hnone : ∀ row ∈ l.executions, row.commandId ≠ cid) :
    σ.inFlight cid = none ∧ σ.admissionInFlight cid = false := by
  constructor
  · refine Option.eq_none_iff_forall_ne_some.mpr fun thru hthru => ?_
    obtain ⟨row, hrow, hid, _⟩ := h.ahead thru hthru
    exact hnone row hrow hid
  · refine Bool.eq_false_iff.mpr fun hunack => ?_
    obtain ⟨row, hrow, hid, _⟩ := h.unacked hunack
    exact hnone row hrow hid

/-- An answer to an acknowledgement on its way is of the one in flight, and the only one. -/
theorem of_acknowledged (hmem : .executionAcknowledged cid ∈ σ.incoming) :
    σ.admissionInFlight cid = true ∧ σ.admissions cid = 1 := by
  have hcnt : 0 < acknowledgedOf cid σ.incoming := count_pos_iff.mpr hmem
  have hle := h.admissions
  have hsum : σ.admissions cid =
    acknowledgementsOf cid σ.outgoing + acknowledgedOf cid σ.incoming := rfl
  cases hfl : σ.admissionInFlight cid with
  | false =>
    rw [hfl, Bool.toNat_false] at hle
    omega
  | true =>
    rw [hfl, Bool.toNat_true] at hle
    exact ⟨rfl, by omega⟩

end Waiting

/-! ## Reading the ledger -/

theorem refreshed_admissionInFlight (pubs : List Publication) (record : ExecutionRecord) :
    (refreshed pubs record).admissionInFlight =
      admissionInFlightOf pubs record.commandId := by
  unfold refreshed admissionInFlightOf
  cases publicationOf pubs record.commandId <;> rfl

/-- A publication that is read again keeps what is in flight. -/
theorem publicationOf_refresh (l : Ledger V) (pubs : List Publication) (cid : CommandId) :
    publicationOf (refreshPublications l pubs) cid = none ∨
      ∃ record : ExecutionRecord, record.commandId = cid ∧
        publicationOf (refreshPublications l pubs) cid =
          some (refreshed pubs record) := by
  cases hfnd : publicationOf (refreshPublications l pubs) cid with
  | none => exact .inl rfl
  | some p =>
    obtain ⟨hmem, hid⟩ := publicationOf_eq_some hfnd
    obtain ⟨record, _, rfl⟩ := mem_map.mp hmem
    refine .inr ⟨record, ?_, rfl⟩
    rw [← hid, Publication.commandId, refreshed_record]

/-- What is in flight is pending, so the session keeps it when it reads the ledger again. -/
theorem Waiting.refresh (h : Waiting l σ cid) (hc : l.Consistent) :
    Waiting l { σ with publications := refreshPublications l σ.publications } cid := by
  have hkept : ∀ row ∈ l.executions, row.commandId = cid → l.isPendingPublication row = true →
        publicationOf (refreshPublications l σ.publications) cid ≠ none := by
    intro row hrow hid hpend hnone
    obtain ⟨p, hp, hprow⟩ := hc.exists_refreshed hrow hpend σ.publications
    exact publicationOf_eq_none.mp hnone p hp ((congrArg ExecutionRow.commandId hprow).trans hid)
  have hfly : inFlightOf (refreshPublications l σ.publications) cid =
      inFlightOf σ.publications cid := by
    rcases publicationOf_refresh l σ.publications cid with hnone | ⟨record, hid, hsome⟩
    · cases hfl : inFlightOf σ.publications cid with
      | none => rw [inFlightOf, hnone, Option.bind_none]
      | some thru =>
        obtain ⟨row, hrow, hid, hst, hend⟩ := h.ahead thru hfl
        refine absurd hnone (hkept row hrow hid ?_)
        -- An execution that is not pending is published to its end.
        by_contra hdone
        have hcompl := hc.complete_of_not_pending hrow (Bool.eq_false_iff.mpr hdone)
        have hpub := hcompl.published
        rw [hid] at hpub
        omega
    · rw [inFlightOf, hsome, Option.bind_some, refreshed_eventInFlight, hid]
  have hadmn : admissionInFlightOf (refreshPublications l σ.publications) cid =
      admissionInFlightOf σ.publications cid := by
    rcases publicationOf_refresh l σ.publications cid with hnone | ⟨record, hid, hsome⟩
    · cases hfl : admissionInFlightOf σ.publications cid with
      | false => rw [admissionInFlightOf, hnone, Option.any_none]
      | true =>
        obtain ⟨row, hrow, hid, hunack⟩ := h.unacked hfl
        refine absurd hnone (hkept row hrow hid ?_)
        unfold Ledger.isPendingPublication
        rw [hunack]
        simp
    · rw [admissionInFlightOf, hsome, Option.any_some, refreshed_admissionInFlight, hid]
  exact h.replace hfly hadmn
    (h.events.replace hfly (List.Sublist.refl _) (List.Sublist.refl _)) (Nat.le_refl _)

/-! ## A pass over the publications -/

section Pass

theorem acknowledgementsOf_append (first rest : List (ClientMessage V)) :
    acknowledgementsOf cid (first ++ rest) =
      acknowledgementsOf cid first + acknowledgementsOf cid rest :=
  countP_append

theorem SentOne.acknowledges {blk : List TaskId} {pub : Publication}
    {sent : List (ClientMessage V)} {one : Except NodeError (Publication × List TaskId)}
    (h : SentOne bytes l blk pub sent one) :
    acknowledgementsOf pub.commandId sent = pub.owesAdmission.toNat ∧
      ∀ next blocked, one = .ok (next, blocked) →
        next.admissionInFlight = (pub.admissionInFlight || pub.owesAdmission) := by
  have hadmn : acknowledgementsOf pub.commandId (pub.admission : List (ClientMessage V)) =
      pub.owesAdmission.toNat := by
    unfold Publication.admission
    cases pub.owesAdmission <;> simp [acknowledgementsOf, ClientMessage.acknowledges]
  cases h with
  | failed => exact ⟨hadmn, by rintro _ _ ⟨⟩⟩
  | nothing =>
    refine ⟨hadmn, ?_⟩
    rintro _ _ ⟨⟩
    rfl
  | batch =>
    refine ⟨?_, ?_⟩
    · rw [acknowledgementsOf_append, hadmn]
      rfl
    · rintro _ _ ⟨⟩
      rfl

/-- A pass that succeeds sends every acknowledgement that is owed, once. -/
theorem sendPending_acknowledges (cid : CommandId) (pubs : List Publication)
    (hnd : (pubs.map Publication.commandId).Nodup) {after : List Publication}
    (h : (sendPending bytes l pubs).2 = .ok after) :
    acknowledgementsOf cid (sendPending bytes l pubs).1 =
        ((publicationOf pubs cid).any Publication.owesAdmission).toNat ∧
      admissionInFlightOf after cid = (publicationOf pubs cid).any
        fun p => p.admissionInFlight || p.owesAdmission := by
  have hown : ∀ sent : List (ClientMessage V), acknowledgementsOf cid sent =
      acknowledgementsOf cid (sent.filter (·.commandId = cid)) := by
    intro sent
    rw [acknowledgementsOf, acknowledgementsOf, countP_filter]
    refine countP_congr fun message _ => ?_
    cases message <;> simp +contextual [ClientMessage.acknowledges, ClientMessage.commandId]
  have hpass : Passed bytes l cid _ _ _ := sendPending_passed l pubs hnd
  generalize sendPending bytes l pubs = pass at hpass h ⊢
  rw [hown, admissionInFlightOf]
  cases hpass with
  | missed hsent hafter =>
    obtain ⟨hnone, hnone'⟩ := hafter after h
    rw [hnone, hnone', filter_eq_nil_iff.mpr (by simpa using hsent)]
    exact ⟨rfl, rfl⟩
  | reached hfound hsent hone hafter =>
    obtain ⟨next, blocked, heq, hnext⟩ := hafter after h
    obtain ⟨hcnt, hfly⟩ := hone.acknowledges
    rw [(publicationOf_eq_some hfound).2] at hcnt
    rw [hfound, hnext, hsent, hcnt]
    exact ⟨rfl, hfly next blocked heq⟩

end Pass

/-- The last event of a batch that is sent stands behind the row's cursor. -/
theorem Ledger.Consistent.last_of_batch (hc : l.Consistent) (hrow : row ∈ l.executions)
    {last : ExecutionEvent V}
    (hlast : (fitting bytes row.taskId row.commandId [] (l.loadEventsAfter row.commandId
      row.publishedThrough)).getLast? = some last) :
    row.start ≤ last.sequence ∧ last.sequence < (l.eventsOf row.commandId).length := by
  rw [hc.loadEventsAfter hrow] at hlast
  have hseg : nextBatch bytes row (l.eventsOf row.commandId) <+: _ := nextBatch_isPrefix row _
  have hend : last.sequence + 1 = row.start + _ :=
    last_of_segment (hc.stream row hrow).sequences hseg hlast
  have hlen := hseg.length_le
  rw [length_drop] at hlen
  have hpos : 0 < (nextBatch bytes row (l.eventsOf row.commandId)).length :=
    length_pos_of_mem (mem_of_getLast? hlast)
  omega

/-- What a pass sends is in flight behind it. -/
theorem Waiting.send (h : Waiting l σ cid) (hc : l.Consistent) (hrds : Reads l σ.publications)
    {after : List Publication} (haft : (sendPending bytes l σ.publications).2 = .ok after) :
    Waiting l ⟨after, σ.outgoing ++ (sendPending bytes l σ.publications).1, σ.incoming⟩
      cid := by
  obtain ⟨hcnt, hadmn⟩ := sendPending_acknowledges cid σ.publications hrds.nodup haft
  have hpass : SentFor bytes l cid σ.publications _ _ :=
    sendPending_spec l σ.publications hrds.nodup
  refine ⟨h.events.send hpass haft, ?_, ?_, ?_⟩
  · intro thru hthru
    cases hpass with
    | nothing _ hfl =>
      rw [Session.inFlight, inFlightOf_eq, hfl after haft, ← inFlightOf_eq] at hthru
      exact h.ahead thru hthru
    | @batch pub last hpubl _ hlast _ hfl =>
      obtain ⟨hmem, hid⟩ := publicationOf_eq_some hpubl
      rw [Session.inFlight, inFlightOf_eq, hfl after haft] at hthru
      cases hthru
      subst hid
      exact ⟨_, hrds.record pub hmem, rfl, hc.last_of_batch (hrds.record _ hmem) hlast⟩
  · show acknowledgementsOf cid _ + acknowledgedOf cid σ.incoming ≤
      (admissionInFlightOf after cid).toNat
    have hold : acknowledgementsOf cid σ.outgoing + acknowledgedOf cid σ.incoming ≤
      (admissionInFlightOf σ.publications cid).toNat := h.admissions
    rw [acknowledgementsOf_append, hcnt, hadmn]
    rw [admissionInFlightOf] at hold
    cases hfnd : publicationOf σ.publications cid with
    | none =>
      rw [hfnd] at hold
      simpa using hold
    | some p =>
      rw [hfnd, Option.any_some] at hold
      rw [Option.any_some, Option.any_some, Publication.owesAdmission]
      generalize p.admissionInFlight = inFlight at hold ⊢
      generalize p.record.admissionAcked = acked at hold ⊢
      cases inFlight <;> cases acked <;> simp at hold ⊢ <;> omega
  · intro hunack
    have hfl : admissionInFlightOf after cid = true := hunack
    rw [hadmn] at hfl
    obtain ⟨p, hp, hfl⟩ := (Option.any_eq_true _ _).mp hfl
    obtain ⟨hmem, hid⟩ := publicationOf_eq_some hp
    by_cases hold : p.admissionInFlight = true
    · refine h.unacked ?_
      rw [Session.admissionInFlight, admissionInFlightOf, hp]
      exact hold
    · refine ⟨_, hrds.record p hmem, hid, ?_⟩
      rw [Bool.not_eq_true] at hold
      rw [hold, Bool.false_or, Publication.owesAdmission, Bool.and_eq_true,
        Bool.not_eq_true'] at hfl
      exact hfl.1

/-- The next event of an execution fits a message by itself. -/
def Ledger.nextFits (bytes : MessageBytes V) (l : Ledger V) (row : ExecutionRow) : Bool :=
  (l.loadEventsAfter row.commandId row.publishedThrough).head?.all fun event =>
    bytes row.taskId row.commandId [event] ≤ maxApplicationMessageBytes

theorem exists_publicationBatch {evs : List (ExecutionEvent V)} (hfits : (evs.head?.all fun event =>
    bytes tid cid [event] ≤ maxApplicationMessageBytes) = true) :
    ∃ batch, publicationBatch bytes tid cid [] evs = .ok batch := by
  cases evs with
  | nil => exact ⟨[], rfl⟩
  | cons event rest =>
    have hle : bytes tid cid ([] ++ [event]) ≤ maxApplicationMessageBytes := of_decide_eq_true hfits
    rw [publicationBatch, if_neg (Nat.not_lt.mpr hle)]
    exact ⟨_, publicationBatch_eq_fitting rest (by simp)⟩

/-- A pass fails only on an event that is next and does not fit a message. -/
theorem SentAll.exists_ok {blk : List TaskId} {pubs : List Publication}
    {sent : List (ClientMessage V)} {result : Except NodeError (List Publication)}
    (h : SentAll bytes l blk pubs sent result)
    (hfits : ∀ p ∈ pubs, l.nextFits bytes p.record.toExecutionRow = true) :
    ∃ after, result = .ok after := by
  induction h with
  | nil => exact ⟨[], rfl⟩
  | failed hone =>
    cases hone with
    | failed hbat =>
      obtain ⟨batch, hok⟩ := exists_publicationBatch (hfits _ mem_cons_self)
      cases hok.symm.trans hbat
  | cons _ _ ih =>
    obtain ⟨after, rfl⟩ := ih fun p hp => hfits p (mem_cons_of_mem _ hp)
    exact ⟨_, rfl⟩

/-! ## Writes of the ledger -/

theorem ExecutionChange.unacked {new : List (ExecutionEvent V)}
    (h : ExecutionChange l l' row row' new) (hacked : row.commandId = cid →
      row.admissionAcked = false → row'.admissionAcked = false) (hold : l.Unacked cid) :
    l'.Unacked cid := by
  obtain ⟨q, hq, hid, hunack⟩ := hold
  refine h.exists_row hq ?_ ⟨hid, hunack⟩
  rintro rfl
  exact ⟨h.same.commandId.trans hid, hacked hid hunack⟩

theorem Executed.unacked {drawn : Drawn} {cmd : CommandEnvelope}
    (h : Executed l l' drawn tid cmd) (hold : l.Unacked cid) : l'.Unacked cid := by
  cases h with
  | drained hl => exact hl ▸ hold
  | existing hbnd _ _ _ hchg =>
    have hexs : _ = l.executions := congrArg (·.executions) hbnd.rest
    obtain ⟨row, hrow, hid, hunack⟩ := hold
    exact hchg.unacked (fun _ _ => rfl) ⟨row, hexs ▸ hrow, hid, hunack⟩
  | admitted hbnd hadm hchg =>
    have hexs : _ = l.executions := congrArg (·.executions) hbnd.rest
    obtain ⟨row, hrow, hid, hunack⟩ := hold
    exact hchg.unacked (fun _ => id)
      ⟨row, hadm.mem_executions.mpr (.inl (hexs ▸ hrow)), hid, hunack⟩

namespace Waiting

variable (h : Waiting l σ cid)

include h

theorem keeps (hkp : KeepsCommand cid l l') (hunacked : l.Unacked cid → l'.Unacked cid) :
    Waiting l' σ cid where
  events := h.events
  ahead thru hthru := by
    obtain ⟨row, hrow, hid, hst, hend⟩ := h.ahead thru hthru
    obtain ⟨row', hrow', hid', _⟩ := hkp.forth row hrow hid
    obtain ⟨q, hq, hqid, _, hpub⟩ := hkp.back row' hrow' hid'
    obtain rfl : q = row := key_inj hq hrow (hqid.symm.trans (hid'.trans hid.symm))
    have hstart : row'.start = q.start := congrArg (Option.elim · 0 (· + 1)) hpub
    exact ⟨row', hrow', hid', hstart ▸ hst, Nat.lt_of_lt_of_le hend hkp.events.length_le⟩
  admissions := h.admissions
  unacked hfl := hunacked (h.unacked hfl)

/-- The node handles an `Execute`. Of a command it takes in, nothing was in flight. -/
theorem executed {drawn : Drawn} {cmd : CommandEnvelope} (hexec : Executed l l' drawn tid cmd) :
    Waiting l' σ cid := by
  rcases hexec.keepsCommand cid with hkp | ⟨hnone, _⟩
  · exact h.keeps hkp hexec.unacked
  · obtain ⟨hfl, hadmn⟩ := h.idle_of_absent hnone
    exact h.of_idle hfl hadmn l'

/-- The node forgets a task of which nothing is in flight. -/
theorem forget (hidle : ∀ row ∈ l.executions, row.taskId = tid →
      σ.inFlight row.commandId = none ∧ σ.admissionInFlight row.commandId = false) :
    Waiting (l.forgetTask tid) σ cid := by
  by_cases hrow : ∃ row ∈ l.executions, row.commandId = cid ∧ row.taskId = tid
  · obtain ⟨row, hrow, rfl, htask⟩ := hrow
    exact h.of_idle (hidle row hrow htask).1 (hidle row hrow htask).2 _
  · have hother : ∀ row ∈ l.executions, row.commandId = cid → row.taskId ≠ tid :=
      fun row hmem hid htask => hrow ⟨row, hmem, hid, htask⟩
    refine h.keeps (Ledger.forgetTask_keepsCommand hother) ?_
    rintro ⟨row, hmem, hid, hunack⟩
    exact ⟨row, Ledger.mem_executions_forgetTask.mpr ⟨hmem, hother row hmem hid⟩, hid, hunack⟩

end Waiting

/-! ## Answers -/

/-- The coordinator answers what it was sent: an acknowledgement by its command, a batch by its
end, and anything by an error. -/
def answersOnly (message : ClientMessage V) : ServerMessage → Bool
  | .executionAcknowledged commandId => message.acknowledges commandId
  | .executionEventsAccepted commandId through => (message.batch? commandId).any fun batch =>
    batch.2.getLast?.map ExecutionEvent.sequence = some through
  | .execute .. | .error _ => true

namespace Waiting

section

variable (h : Waiting l σ cid)

include h

/-- A message is read. -/
theorem read {message : ServerMessage} (hin : σ.incoming = message :: rest) :
    Waiting l { σ with incoming := rest } cid := by
  refine h.replace rfl rfl (h.events.replace rfl (List.Sublist.refl _) ?_) ?_
  · rw [hin]
    exact (sublist_cons_self message rest).filterMap _
  · refine Nat.add_le_add_left ?_ _
    rw [hin]
    exact List.Sublist.count_le _ (sublist_cons_self message rest)

/-- An answer about another command is written, and the publication of that command rewritten. -/
theorem other {cause : CommandId} (hcau : cause ≠ cid) (hid : row.commandId = cause)
    (hchg : ExecutionChange l l' row row' []) {f : Publication → Publication}
    (hf : ∀ p, (f p).record = p.record) :
    Waiting l' { σ with publications := updatePublication σ.publications cause f } cid := by
  have hne : row.commandId = cid → False := fun hsame => hcau (hid.symm.trans hsame)
  have hkept := h.keeps (hchg.keepsCommand fun hsame => (hne hsame).elim)
    (hchg.unacked fun hsame => (hne hsame).elim)
  have hsame : publicationOf (updatePublication σ.publications cause f) cid =
      publicationOf σ.publications cid := by
    simp [publicationOf_update _ _ _ hf, hcau]
  have hfly : inFlightOf (updatePublication σ.publications cause f) cid =
      inFlightOf σ.publications cid := congrArg (Option.bind · Publication.eventInFlight) hsame
  exact hkept.replace hfly (congrArg (Option.any Publication.admissionInFlight) hsame)
    (h.events.replace hfly (List.Sublist.refl _) (List.Sublist.refl _)) (Nat.le_refl _)

/-- The node takes the answer to an acknowledgement. -/
theorem acknowledged {cause : CommandId} (hin : σ.incoming = .executionAcknowledged cause :: rest)
    (hid : row.commandId = cause)
    (hchg : ExecutionChange l l' row { row with admissionAcked := true } []) :
    Waiting l' ⟨updatePublication σ.publications cause
      fun p => { p with admissionInFlight := false }, σ.outgoing, rest⟩ cid := by
  have hread := h.read hin
  by_cases hcau : cause = cid
  · subst hcau
    have hfnd := publicationOf_update σ.publications cause cause
      (f := fun p => { p with admissionInFlight := false }) fun _ => rfl
    have hfly : inFlightOf (updatePublication σ.publications cause
        fun p => { p with admissionInFlight := false }) cause =
      inFlightOf σ.publications cause := by
      rw [inFlightOf, hfnd, inFlightOf]
      cases publicationOf σ.publications cause <;> simp
    have hadmn : admissionInFlightOf (updatePublication σ.publications cause
        fun p => { p with admissionInFlight := false }) cause = false := by
      rw [admissionInFlightOf, hfnd]
      cases publicationOf σ.publications cause <;> simp
    refine ⟨hread.events.replace hfly (List.Sublist.refl _) (List.Sublist.refl _),
      fun thru hthru => ?_, ?_, fun hunack => ?_⟩
    · obtain ⟨q, hq, hqid, hst, hend⟩ := h.ahead thru (hfly.symm.trans hthru)
      obtain rfl : q = row := key_inj hq hchg.mem (hqid.trans hid.symm)
      exact ⟨_, hchg.mem_new, hid, hst, (hchg.eventsOf_eq cause).symm ▸ hend⟩
    · -- The answer that was read is the only one.
      have hone := (h.of_acknowledged (hin ▸ mem_cons_self)).2
      rw [Session.admissions, hin, acknowledgedOf, count_cons_self] at hone
      have hnone : acknowledgementsOf cause σ.outgoing + acknowledgedOf cause rest = 0 := by
        rw [acknowledgedOf]
        omega
      exact Nat.le_trans (Nat.le_of_eq hnone) (Nat.zero_le _)
    · rw [Session.admissionInFlight, hadmn] at hunack
      cases hunack
  · exact hread.other hcau hid hchg fun _ => rfl

/-- The node takes the acceptance of the batch in flight. -/
theorem accepted {cause : CommandId} {thru : Nat}
    (hin : σ.incoming = .executionEventsAccepted cause thru :: rest)
    (hid : row.commandId = cause)
    (hchg : ExecutionChange l l' row (row.publishThrough thru) []) :
    Waiting l' ⟨updatePublication σ.publications cause
      fun p => { p with eventInFlight := none }, σ.outgoing, rest⟩ cid := by
  have hread := h.read hin
  by_cases hcau : cause = cid
  · subst hcau
    have hfnd := publicationOf_update σ.publications cause cause
      (f := fun p => { p with eventInFlight := none }) fun _ => rfl
    have hfly : inFlightOf (updatePublication σ.publications cause
        fun p => { p with eventInFlight := none }) cause = none := by
      rw [inFlightOf, hfnd]
      cases publicationOf σ.publications cause <;> simp
    have hadmn : admissionInFlightOf (updatePublication σ.publications cause
        fun p => { p with eventInFlight := none }) cause =
          admissionInFlightOf σ.publications cause := by
      rw [admissionInFlightOf, hfnd, admissionInFlightOf]
      cases publicationOf σ.publications cause <;> simp
    refine ⟨?_, fun other hoth => ?_, ?_, fun hunack => ?_⟩
    · -- The acceptance that was read is the only flight.
      obtain ⟨_, hout, hrest⟩ := h.events.received hin
      rw [Session.Accounted, Session.flights, hout, hrest]
      exact nil_sublist _
    · rw [Session.inFlight, hfly] at hoth
      cases hoth
    · show _ ≤ (admissionInFlightOf (updatePublication _ _ _) cause).toNat
      rw [hadmn]
      exact hread.admissions
    · exact hchg.unacked (fun _ => id) (h.unacked (hadmn.symm.trans hunack))
  · exact hread.other hcau hid hchg fun _ => rfl

/-- The coordinator answers the message at the front of the connection. -/
theorem answered {message : ClientMessage V} {rest : List (ClientMessage V)}
    (hout : σ.outgoing = message :: rest) {reply : ServerMessage}
    (hans : answersOnly message reply = true) :
    Waiting l ⟨σ.publications, rest, σ.incoming ++ [reply]⟩ cid := by
  refine h.replace rfl rfl (h.events.answered hout fun thru hthru => ?_) ?_
  · rwa [ServerMessage.accepted?_eq_some.mp hthru] at hans
  · show acknowledgementsOf cid rest + acknowledgedOf cid (σ.incoming ++ [reply]) ≤ σ.admissions cid
    rw [Session.admissions, hout, acknowledgedOf, count_append, acknowledgedOf,
      acknowledgementsOf, acknowledgementsOf, countP_cons]
    by_cases hrep : reply = .executionAcknowledged cid
    · subst hrep
      have hmsg : message.acknowledges cid = true := hans
      rw [hmsg, if_pos rfl, count_singleton_self]
      omega
    · have hnone : List.count (.executionAcknowledged cid) [reply] = 0 :=
        count_eq_zero.mpr fun hmem => hrep (mem_singleton.mp hmem).symm
      omega

/-- A command is on its way to the node. -/
theorem deliver (tid : TaskId) (cmd : CommandEnvelope) :
    Waiting l { σ with incoming := σ.incoming ++ [.execute tid cmd] } cid := by
  refine h.replace rfl rfl (h.events.replace rfl (List.Sublist.refl _) ?_) ?_
  · simp [acceptedOf, ServerMessage.accepted?]
  · refine Nat.add_le_add_left ?_ _
    simp [acknowledgedOf]

end

end Waiting

/-! ## A node -/

namespace Site

variable {site site' : Site V}

/-- The session waits for what is in flight, and for nothing else. -/
def Waits (site : Site V) : Prop :=
  ∀ σ, site.session = some σ → ∀ commandId, Waiting site.ledger σ commandId

theorem waits_of_none (h : site.session = none) : site.Waits := fun σ hσ => by
  rw [h] at hσ
  cases hσ

theorem waits_setSession (h : ∀ cid, Waiting site.ledger σ cid) : (site.setSession σ).Waits := by
  rintro _ ⟨⟩
  exact h

theorem waits_send (hc : site.ledger.Consistent) (hrds : Reads site.ledger σ.publications)
    (h : ∀ cid, Waiting site.ledger σ cid) : (site.send bytes σ).Waits := by
  unfold Site.send
  dsimp only
  split
  · rename_i after haft
    exact waits_setSession fun cid => (h cid).send hc hrds haft
  · exact waits_of_none rfl

theorem waits_publish (hc : site.ledger.Consistent) (h : ∀ cid, Waiting site.ledger σ cid) :
    (site.publish bytes σ).Waits :=
  waits_send hc (reads_refresh _ _) fun cid => (h cid).refresh hc

/-- When the node forgets a task, nothing of its commands is in flight. -/
def Input.forgetsIdle (site : Site V) : Input V → Bool
  | .forget taskId => site.session.all fun session =>
    site.ledger.executions.rows.all fun row => row.taskId ≠ taskId ||
      ((session.inFlight row.commandId).isNone && !session.admissionInFlight row.commandId)
  | _ => true

/-- When the node reads an acceptance, the next event of every execution fits a message by itself,
the accepted batch being published. -/
def Input.nextFits (bytes : MessageBytes V) (site : Site V) : Input V → Bool
  | .receive .. => (site.session.bind fun session => session.incoming.head?).all fun
    | .executionEventsAccepted commandId through => site.ledger.executions.rows.all fun row =>
      site.ledger.nextFits bytes
        (if row.commandId = commandId then row.publishThrough through else row)
    | _ => true
  | _ => true

/-- **A step keeps the session waiting for what is in flight**, unless the node forgets a task of
which something is. -/
theorem Stepped.waits {low : Nat} {input : Input V} (hstep : Stepped bytes low site input site')
    (h : site.Waits) (hc : site.ledger.Consistent) (hidle : input.forgetsIdle site = true) :
    site'.Waits := by
  cases hstep with
  | same => exact h
  | connect =>
    refine waits_publish ?_ fun cid => waiting_opened _ cid
    rw [disconnect_eq]
    exact hc
  | ended => exact waits_of_none rfl
  | execute hσ hin hexec hdrawn =>
    exact waits_publish (hexec.writes hc hdrawn).consistent
      fun cid => ((h _ hσ cid).read hin).executed hexec
  | acknowledged hσ hin hid hchg =>
    have hcons := hchg.consistent_of_nil rfl hc
    exact waits_setSession fun cid => ((h _ hσ cid).acknowledged hin hid hchg).refresh hcons
  | accepted hσ hin hid hchg =>
    have hcons := hchg.consistent_of_nil rfl hc
    exact waits_send hcons (reads_refresh _ _)
      fun cid => ((h _ hσ cid).accepted hin hid hchg).refresh hcons
  | commit hσ => exact waits_publish hc (h _ hσ)
  | written hcont =>
    exact fun σ hσ cid => (h σ hσ cid).keeps (hcont.change.keepsCommand fun _ => rfl)
      (hcont.change.unacked fun _ => id)
  | stopped => exact fun σ hσ cid => (h σ hσ cid).keeps (keepsCommand_of_eq rfl rfl) id
  | forget =>
    refine fun σ hσ cid => (h σ hσ cid).forget fun row hrow htask => ?_
    rw [Input.forgetsIdle, hσ, Option.all_some] at hidle
    have hrow := all_eq_true.mp hidle row hrow
    simpa [htask] using hrow

end Site

/-! ## The nodes and their coordinator -/

namespace Network

variable {s s' : Network V}

/-- Every session waits for what is in flight, and for nothing else. -/
def Waits (s : Network V) : Prop := ∀ nodeId, (s.site nodeId).Waits

def Input.forgetsIdle (s : Network V) : Input V → Bool
  | .node nodeId input => input.forgetsIdle (s.site nodeId)
  | _ => true

variable [JsonText V]

/-- The coordinator answers only what it was sent. -/
def Input.answered (ids : DerivedIds) (s : Network V) : Input V → Bool
  | .handle nodeId replier => (s.site nodeId).session.all fun session =>
    session.outgoing.head?.all fun message =>
      answersOnly message (answer ids s.db nodeId replier message).1
  | _ => true

omit [JsonText V] in
theorem Waits.setSite (h : s.Waits) {nid : NodeId} {site : Site V} {db : Database V}
    (hsite : site.Waits) : ({ s with db }.setSite nid site).Waits :=
  (forall_update_iff s.site fun _ site => site.Waits).mpr ⟨hsite, fun other _ => h other⟩

/-- **A step keeps every session waiting for what is in flight**, when the coordinator answers what
it was sent and a node forgets only tasks of which nothing is in flight. -/
theorem Stepped.waits {ids : DerivedIds} {input : Input V} (hstep : Stepped ids bytes s input s')
    (h : s.Waits) (hsound : s.Sound) (hans : input.answered ids s = true)
    (hidle : input.forgetsIdle s = true) : s'.Waits := by
  cases hstep with
  | same | transaction => exact h
  | @deliver nid tid cmd σ hσ =>
    exact h.setSite (Site.waits_setSession fun cid => (h nid σ hσ cid).deliver tid cmd)
  | @handle nid replier σ message rest hσ hout =>
    rw [Input.answered, hσ, Option.all_some, hout, head?_cons, Option.all_some] at hans
    exact h.setSite (Site.waits_setSession fun cid => (h nid σ hσ cid).answered hout hans)
  | handleLate => exact h.setSite (h _)
  | node hsite => exact h.setSite (hsite.waits (h _) (hsound.ledger _) hidle)

end Network

/-! ## Acknowledgements -/

/-- The answer to an acknowledgement in flight is taken. -/
theorem exists_acknowledgeAdmission {pubs : List Publication}
    (hrow : ∃ row ∈ l.executions, row.commandId = cid)
    (hfl : admissionInFlightOf pubs cid = true) :
    ∃ after, acknowledgeAdmission l pubs cid = .ok after := by
  obtain ⟨pub, hpubl, hexp⟩ := (Option.any_eq_true _ _).mp hfl
  obtain ⟨ledger, hled⟩ := Network.exists_updateExecution
    (f := fun row => { row with admissionAcked := true }) hrow
  exact ⟨_, bind_eq_ok.mpr ⟨pub, require_eq_ok.mpr hpubl,
    bind_eq_ok.mpr ⟨(), ensure_of_eq_true hexp,
      bind_eq_ok.mpr ⟨ledger, stored_eq_ok.mpr (require_eq_ok.mpr hled), rfl⟩⟩⟩⟩

/-- The message confirms an acknowledgement, or accepts events. -/
def ServerMessage.isAcknowledgement : ServerMessage → Bool
  | .executionAcknowledged _ | .executionEventsAccepted .. => true
  | .execute .. | .error _ => false

namespace Site

variable {site : Site V}

/-- A pass over what the ledger owes succeeds when every next event fits a message. -/
theorem send_isSome (hrds : Reads site.ledger σ.publications)
    (hfits : ∀ row ∈ site.ledger.executions, site.ledger.nextFits bytes row = true) :
    (site.send bytes σ).session.isSome = true := by
  obtain ⟨after, haft⟩ := (sendAll_spec site.ledger [] _).exists_ok
    fun p hp => hfits _ (hrds.record p ((sendOrder_perm σ.publications).mem_iff.mpr hp))
  unfold Site.send
  dsimp only
  rw [show (sendPending bytes site.ledger σ.publications).2 = .ok after from haft]
  rfl

/-- The rows behind an acceptance are those before it, with the cursor of the command moved. -/
theorem nextFits_of_accepted {thru : Nat} (hadv : l.advancePublication cid thru = .ok l')
    (hfits : ∀ row ∈ l.executions, l.nextFits bytes
      (if row.commandId = cid then row.publishThrough thru else row) = true)
    {q : ExecutionRow} (hq : q ∈ l'.executions) : l'.nextFits bytes q = true := by
  obtain ⟨row, hid, hchg⟩ := Ledger.advancePublication_ok hadv
  rw [Ledger.nextFits, Ledger.loadEventsAfter, hchg.eventsOf_eq]
  rcases hchg.mem_executions.mp hq with rfl | ⟨hold, hne⟩
  · have hfit := hfits row hchg.mem
    rwa [if_pos hid] at hfit
  · have hfit := hfits q hold
    rwa [if_neg (hid ▸ hne)] at hfit

/-- **A session that waits takes the acknowledgement it reads.** -/
theorem Waits.receive_isSome (h : site.Waits) (home : Home) (low : Nat)
    (hσ : site.session = some σ) {message : ServerMessage} (hin : σ.incoming = message :: rest)
    (hack : message.isAcknowledgement = true) (draining : Bool) (sessionId : Nat)
    (clock : Nat → Int)
    (hfits : (Input.receive draining sessionId clock).nextFits bytes site = true) :
    (site.step bytes home low (.receive draining sessionId clock)).session.isSome = true := by
  have hmem : message ∈ σ.incoming := hin ▸ mem_cons_self
  rw [Site.step, hσ, Option.elim_some, Site.receive, hin]
  cases message with
  | execute | error => cases hack
  | executionAcknowledged cause =>
    have hfly := ((h σ hσ cause).of_acknowledged hmem).1
    obtain ⟨row, hrow, hid, _⟩ := (h σ hσ cause).unacked hfly
    obtain ⟨after, haft⟩ := exists_acknowledgeAdmission ⟨row, hrow, hid⟩ hfly
    simp only [haft]
    rfl
  | executionEventsAccepted cause thru =>
    obtain ⟨hfly, _⟩ := (h σ hσ cause).events.received hin
    obtain ⟨row, hrow, hid, _⟩ := (h σ hσ cause).ahead thru hfly
    obtain ⟨⟨l', pubs⟩, haft⟩ := Network.exists_eventsAccepted ⟨row, hrow, hid⟩ hfly
    obtain ⟨_, hadv, rfl⟩ := eventsAccepted_ok haft
    simp only [haft]
    refine send_isSome (reads_refresh _ _) fun q hq => ?_
    rw [Input.nextFits, hσ, Option.bind_some, hin] at hfits
    exact nextFits_of_accepted hadv (fun row hrow => all_eq_true.mp hfits row hrow) hq

end Site

/-- **No acknowledgement ends a session**, along every run in which the coordinator answers only
what it was sent, and a node forgets a task only when nothing of its commands is in flight, as long
as no event that is next to be published is too long for a message. -/
theorem acknowledgements_taken [JsonText V] (ids : DerivedIds) (bytes : MessageBytes V)
    (home : NodeId → Home) (inputs : List (Network.Input V))
    (hanswered : Network.RunMeets ids bytes home (fun s input => input.answered ids s = true)
      .empty inputs)
    (hidle : Network.RunMeets ids bytes home (fun s input => input.forgetsIdle s = true)
      .empty inputs) (nodeId : NodeId) (σ : Session V) (message : ServerMessage)
    (rest : List ServerMessage)
    (hσ : ((Network.run ids bytes home .empty inputs).site nodeId).session = some σ)
    (hincoming : σ.incoming = message :: rest) (hmessage : message.isAcknowledgement = true)
    (draining : Bool) (sessionId : Nat) (clock : Nat → Int)
    (hfits : (Site.Input.receive draining sessionId clock).nextFits bytes
      ((Network.run ids bytes home .empty inputs).site nodeId) = true) :
    (((Network.run ids bytes home .empty inputs).step ids bytes home
      (.node nodeId (.receive draining sessionId clock))).site nodeId).session.isSome = true := by
  obtain ⟨_, hwaits⟩ := Network.RunMeets.induction (motive := fun s => s.Sound ∧ s.Waits)
    (fun s input h hmeets => by
      have hstep := Network.stepped h.1.ledger ids bytes home input
      exact ⟨hstep.sound h.1, hstep.waits h.2 h.1 hmeets.1 hmeets.2⟩)
    ⟨Network.sound_empty, fun _ => Site.waits_of_none rfl⟩ (hanswered.and hidle)
  simp only [Network.step, Network.setSite, update_self]
  exact (hwaits nodeId).receive_isSome _ _ hσ hincoming hmessage _ _ _ hfits

/-! ## A task that is deleted -/

/-- The only command of a task is executed and published; the coordinator has accepted its last
event, and the acceptance is on its way. -/
def publishedTurn : List (Network.Input Unit) :=
  started ++ [.node ⟨0⟩ (.finish ⟨1⟩ [] .completed fun _ => 0), .handle ⟨0⟩ "", .handle ⟨0⟩ "",
    .node ⟨0⟩ (.receive false 8 fun _ => 0), .node ⟨0⟩ (.receive false 8 fun _ => 0),
    .handle ⟨0⟩ ""]

/-- The node deletes the conversation: the coordinator's task first, then its own rows. -/
def deletion : List (Network.Input Unit) :=
  [.transaction (.deleteTask ⟨0⟩ ⟨1⟩), .node ⟨0⟩ (.forget ⟨1⟩)]

/-- A command of another task is taken in, and the answers to it are on their way. -/
def nextTurn : List (Network.Input Unit) :=
  [.transaction (.createTask ⟨⟨2⟩, ⟨0⟩, ⟨0⟩, ⟨"agent"⟩⟩),
    .transaction (.admitCommand ⟨1⟩ ⟨2⟩ ⟨0⟩ ⟨"web"⟩ ⟨2⟩ (.fromText "Go on.") true),
    .deliver ⟨0⟩ ⟨2⟩ ⟨⟨2⟩, ⟨0⟩, ⟨"web"⟩, ⟨"agent"⟩, .fromText "Go on.", none⟩,
    .node ⟨0⟩ (.receive false 9 fun _ => 0), .handle ⟨0⟩ "", .handle ⟨0⟩ ""]

/-- The node reads its next message. -/
def reading : Network.Input Unit := .node ⟨0⟩ (.receive false 9 fun _ => 0)

/-- The acceptance is read before the task is deleted. -/
def deletedIdle : List (Network.Input Unit) := publishedTurn ++ reading :: deletion ++ nextTurn

/-- The task is deleted while the acceptance is on its way. -/
def deletedInFlight : List (Network.Input Unit) := publishedTurn ++ deletion

theorem acknowledgements_taken_deleted :
    ((after deletedIdle).site ⟨0⟩).ledger.executions.rows.map ExecutionRow.commandId = [⟨2⟩] ∧
      ((after deletedIdle).site ⟨0⟩).session.map Session.incoming =
        some [.executionAcknowledged ⟨2⟩, .executionEventsAccepted ⟨2⟩ 0] ∧
      ((after (deletedIdle ++ [reading])).site ⟨0⟩).session.isSome = true ∧
      ((after (deletedIdle ++ [reading, reading])).site ⟨0⟩).session.isSome = true := by
  have hincoming : ((after deletedIdle).site ⟨0⟩).session.map Session.incoming =
    some [.executionAcknowledged ⟨2⟩, .executionEventsAccepted ⟨2⟩ 0] := by decide
  have hsecond : ((after (deletedIdle ++ [reading])).site ⟨0⟩).session.map Session.incoming =
    some [.executionEventsAccepted ⟨2⟩ 0] := by decide
  obtain ⟨σ, hσ, hin⟩ := Option.map_eq_some_iff.mp hincoming
  obtain ⟨σ', hσ', hin'⟩ := Option.map_eq_some_iff.mp hsecond
  refine ⟨by decide, hincoming, ?_, ?_⟩
  · have htaken := acknowledgements_taken Renoa.Control.offsetIds (fun _ _ events => events.length)
      anyHome deletedIdle (by decide) (by decide) ⟨0⟩ σ _ _ hσ hin rfl false 9 (fun _ => 0)
      (by decide)
    rwa [after, Network.run, foldl_append]
  · have htaken := acknowledgements_taken Renoa.Control.offsetIds (fun _ _ events => events.length)
      anyHome (deletedIdle ++ [reading]) (by decide) (by decide) ⟨0⟩ σ' _ _ hσ' hin' rfl false 9
      (fun _ => 0) (by decide)
    rwa [after, Network.run, show deletedIdle ++ [reading, reading] =
      (deletedIdle ++ [reading]) ++ [reading] by simp, foldl_append]

/-- The node ends its session over the acceptance of the deleted command. -/
theorem acknowledgement_of_forgotten :
    Network.RunMeets Renoa.Control.offsetIds (fun _ _ events => events.length) anyHome
        (fun s input => input.answered Renoa.Control.offsetIds s = true) .empty deletedInFlight ∧
      (∃ σ, ((after deletedInFlight).site ⟨0⟩).session = some σ ∧
        σ.incoming = [.executionEventsAccepted ⟨1⟩ 1] ∧
        eventsAccepted ((after deletedInFlight).site ⟨0⟩).ledger σ.publications ⟨1⟩ 1 =
          .error (.store (executionNotFound ⟨1⟩))) ∧
      ((after (deletedInFlight ++ [reading])).site ⟨0⟩).session.isNone = true :=
  ⟨by decide, ⟨_, rfl, rfl, rfl⟩, by decide⟩

end Renoa.Node
