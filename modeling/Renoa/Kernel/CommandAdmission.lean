import Renoa.Kernel.Lifecycle

/-!
# Admission of commands along a run

Redelivery, exclusive admission and the order of activation are checked in three transactions that
share only the database. `Queues` is what they keep together: a command belongs to one operation,
the operations of a session stand in the order of their admission, and those before one that left
the queue have ended. `command_admission` says what follows for clients.
-/

namespace Renoa.Kernel

open Foundation List Table Database

variable {V : Type} {db db' : Database V} {q o : OperationRow V} {t : Transaction V}
  {c : CommandRow V} {command : Command V} {sessionId : SessionId}

/-! ## The invariant -/

/-- What admissions and activations keep. -/
structure Queues (db : Database V) : Prop where
  consistent : Consistent db
  command_operation : ∀ c ∈ db.commands, c.content.commandId = c.commandId ∧
    ∃ o ∈ db.operations, o.commandId = c.commandId ∧ o.sessionId = c.sessionId
  command_unique : ∀ o ∈ db.operations, ∀ q ∈ db.operations, o.commandId = q.commandId → o = q
  ordered : ∀ sessionId, ((db.operationsOf sessionId).map OperationRow.position).Pairwise (· < ·)
  fifo : ∀ o ∈ db.operations, ∀ q ∈ db.operations, o.sessionId = q.sessionId →
    o.position < q.position → q.phase ≠ .queued → o.phase.isTerminal = true

theorem queues_empty : Queues (Database.empty : Database V) where
  consistent := consistent_empty
  command_operation _ hc := absurd hc not_mem_empty
  command_unique _ ho := absurd ho not_mem_empty
  ordered _ := List.Pairwise.nil
  fifo _ ho := absurd ho not_mem_empty

/-- The operations of a session have the positions from zero on, in the order of admission. -/
theorem Queues.positions (h : Queues db) {s : SessionRow} (hs : s ∈ db.sessions) :
    (db.operationsOf s.sessionId).map OperationRow.position =
      List.range s.nextCommandPosition := by
  refine (h.consistent.operation_numbered s hs).eq_of_pairwise
    (fun a b _ _ => Nat.le_antisymm) ?_ ?_
  · exact (h.ordered s.sessionId).imp Nat.le_of_lt
  · exact pairwise_lt_range.imp Nat.le_of_lt

/-- An operation is queued, active or ended. -/
theorem OperationPhase.terminal_of_not {phase : OperationPhase} (hq : phase ≠ .queued)
    (hact : phase.isCancellable ≠ true) : phase.isTerminal = true := by
  cases phase <;> first | rfl | exact absurd rfl hq | exact absurd rfl hact

/-! ## Activation -/

/-- Every operation before the first queued one of an idle session has ended. -/
theorem Consistent.ended_of_first (h : Consistent db) (hfst : db.firstQueued q.sessionId = some q)
    (hidle : ∀ s ∈ db.sessions, s.sessionId = q.sessionId → s.activeOperationId = none)
    (ho : o ∈ db.operations) (hsess : o.sessionId = q.sessionId) (hlt : o.position < q.position)
    : o.phase.isTerminal = true := by
  apply OperationPhase.terminal_of_not
  · intro hq
    have hmem : o ∈ (db.operationsOf q.sessionId).filter fun op =>
        op.phase = .queued := by
      rw [mem_filter, mem_operationsOf]
      exact ⟨⟨ho, hsess⟩, decide_eq_true hq⟩
    exact absurd (orderBy_head?_le hfst hmem) (Nat.not_le.mpr hlt)
  · intro hact
    obtain ⟨s, hs, hid⟩ := h.operation_session o ho
    have hptr := (h.active s hs o.operationId).mpr ⟨o, ho, rfl, hid.symm, hact⟩
    rw [hidle s hs (hid.trans hsess)] at hptr
    cases hptr

/-- A row leaves the queue by the activation of its operation only. -/
theorem OperationStep.ended_before (h : Consistent db) {q' : OperationRow V}
    (hstep : OperationStep db q q') (hq : q.phase = .queued) (hleft : q'.phase ≠ .queued)
    (ho : o ∈ db.operations) (hsess : o.sessionId = q.sessionId) (hlt : o.position < q.position)
    : o.phase.isTerminal = true := by
  cases hstep with
  | same => exact absurd hq hleft
  | activated mf hfst hidle => exact h.ended_of_first hfst hidle ho hsess hlt
  | moved _ _ _ _ hact =>
    rw [hq] at hact
    cases hact

/-! ## Steps -/

theorem operationsOf_map {move : OperationRow V → OperationRow V}
    (hrows : db'.operations.rows = db.operations.rows.map move)
    (hstep : ∀ o ∈ db.operations, OperationStep db o (move o)) (sid : SessionId) :
    db'.operationsOf sid = (db.operationsOf sid).map move := by
  unfold Database.operationsOf
  rw [hrows, filter_map]
  congr 1
  refine filter_congr fun o ho => ?_
  show decide ((move o).sessionId = sid) = _
  rw [(hstep o ho).sessionId_eq]

theorem Queues.moved (h : Queues db) (hmvd : RowsMoved db db') (hc : Consistent db') :
    Queues db' := by
  obtain ⟨⟨move, hrows, hstep⟩, hcmds⟩ := hmvd
  have hmem : ∀ o, o ∈ db'.operations ↔ ∃ q ∈ db.operations, move q = o := by
    intro o
    rw [← mem_rows, hrows, mem_map]
    rfl
  refine ⟨hc, ?_, ?_, ?_, ?_⟩
  · rw [hcmds]
    intro c hcom
    obtain ⟨hcontent, o, ho, hid, hsess⟩ := h.command_operation c hcom
    exact ⟨hcontent, move o, (hmem _).mpr ⟨o, ho, rfl⟩, (hstep o ho).commandId_eq.trans hid,
      (hstep o ho).sessionId_eq.trans hsess⟩
  · intro o' ho' q' hq' heq
    obtain ⟨o, ho, rfl⟩ := (hmem _).mp ho'
    obtain ⟨q, hq, rfl⟩ := (hmem _).mp hq'
    rw [(hstep o ho).commandId_eq, (hstep q hq).commandId_eq] at heq
    rw [h.command_unique o ho q hq heq]
  · intro sessionId
    rw [operationsOf_map hrows hstep, map_map]
    have hpositions : (db.operationsOf sessionId).map (OperationRow.position ∘ move) =
        (db.operationsOf sessionId).map OperationRow.position :=
      map_congr_left fun o ho => (hstep o (mem_operationsOf.mp ho).1).position_eq
    rw [hpositions]
    exact h.ordered sessionId
  · intro o' ho' q' hq' hsess hlt hleft
    obtain ⟨o, ho, rfl⟩ := (hmem _).mp ho'
    obtain ⟨q, hq, rfl⟩ := (hmem _).mp hq'
    rw [(hstep o ho).sessionId_eq, (hstep q hq).sessionId_eq] at hsess
    rw [(hstep o ho).position_eq, (hstep q hq).position_eq] at hlt
    have hend : o.phase.isTerminal = true := by
      by_cases hqueued : q.phase = .queued
      · exact (hstep q hq).ended_before h.consistent hqueued hleft ho hsess hlt
      · exact h.fifo o ho q hq hsess hlt hqueued
    rw [(hstep o ho).eq_of_terminal hend]
    exact hend

section NewOperation

variable {opId : OperationId} {sessionId : SessionId} {cmd : Command V}
  (a : AdmittedOperation db opId sessionId cmd db')

include a

/-- Every operation of the session was admitted before the new one. -/
theorem AdmittedOperation.position_lt (h : Consistent db) (ho : o ∈ db.operations)
    (hsess : o.sessionId = sessionId) : o.position < a.operation.position := by
  apply (h.operation_numbered a.session a.session_mem).lt
  exact mem_operationsOf.mpr ⟨ho, hsess.trans a.sessionId_eq.symm⟩

theorem AdmittedOperation.commandId_ne (h : Consistent db) (ho : o ∈ db.operations) :
    o.commandId ≠ cmd.commandId := by
  obtain ⟨c, hc, hid, _⟩ := h.operation_command o ho
  rw [← hid]
  exact a.fresh_command c hc

theorem Queues.admitted (h : Queues db) (hc : Consistent db') : Queues db' := by
  refine ⟨hc, ?_, ?_, ?_, ?_⟩
  · intro c hcom
    rcases a.mem_commands.mp hcom with hold | rfl
    · obtain ⟨hcontent, o, ho, hid, hsess⟩ := h.command_operation c hold
      exact ⟨hcontent, o, a.mem_operations.mpr (.inl ho), hid, hsess⟩
    · exact ⟨rfl, a.operation, a.mem_operations.mpr (.inr rfl), rfl, rfl⟩
  · intro o ho q hq heq
    rcases a.mem_operations.mp ho with ho | rfl <;> rcases a.mem_operations.mp hq with hq | rfl
    · exact h.command_unique o ho q hq heq
    · exact absurd heq (a.commandId_ne h.consistent ho)
    · exact absurd heq.symm (a.commandId_ne h.consistent hq)
    · rfl
  · intro sid
    rw [a.operationsOf]
    split
    next hsame =>
      subst hsame
      rw [map_append, pairwise_append]
      refine ⟨h.ordered sid, pairwise_singleton _ _, ?_⟩
      intro i hi j hj
      obtain ⟨o, ho, rfl⟩ := mem_map.mp hi
      obtain rfl := mem_singleton.mp hj
      obtain ⟨ho, hsess⟩ := mem_operationsOf.mp ho
      exact a.position_lt h.consistent ho hsess
    · rw [append_nil]
      exact h.ordered sid
  · intro o ho q hq hsess hlt hleft
    rcases a.mem_operations.mp hq with hq | rfl
    · rcases a.mem_operations.mp ho with ho | rfl
      · exact h.fifo o ho q hq hsess hlt hleft
      · exact absurd hlt (Nat.lt_asymm (a.position_lt h.consistent hq hsess.symm))
    · exact absurd rfl hleft

end NewOperation

/-! ## Runs -/

section Runs

variable [DecidableEq V] {opId : OperationId} {admission : Admission} {mode : AdmissionMode}
  {command' : Command V}

theorem Queues.commit (h : Queues db) (hcom : t.commit db = .ok db') : Queues db' := by
  have hc := (committed_commit h.consistent hcom).consistent h.consistent
  cases rowsStep_commit h.consistent hcom with
  | moved hmvd => exact h.moved hmvd hc
  | admitted _ _ a => exact Queues.admitted a h hc

theorem Queues.runAll (h : Queues db) (ts : List (Transaction V)) : Queues (db.runAll ts) :=
  runAll_induction h (fun _ _ _ h hcom => h.commit hcom) ts

/-- No transaction removes or rewrites a command. -/
theorem Queues.command_kept (h : Queues db) (hc : c ∈ db.commands) (ts : List (Transaction V)) :
    c ∈ (db.runAll ts).commands := by
  refine h.consistent.runAll_induction (motive := fun db => c ∈ db.commands) hc ?_ ts
  intro mid t mid' hmid hmem hcom
  cases rowsStep_commit hmid hcom with
  | moved hmvd =>
    rw [hmvd.commands_eq]
    exact hmem
  | admitted _ _ a => exact a.mem_commands.mpr (.inl hmem)

/-- The operations of a session keep their order. -/
theorem Queues.operationsOf_kept (h : Queues db) (ts : List (Transaction V))
    (sid : SessionId) : (db.operationsOf sid).map OperationRow.operationId <+:
      ((db.runAll ts).operationsOf sid).map OperationRow.operationId := by
  refine h.consistent.runAll_induction (motive := fun later =>
    (db.operationsOf sid).map OperationRow.operationId <+:
      (later.operationsOf sid).map OperationRow.operationId) (prefix_refl _) ?_ ts
  intro mid t mid' hmid hgrown hcom
  refine hgrown.trans ?_
  cases rowsStep_commit hmid hcom with
  | moved hmvd =>
    obtain ⟨move, hrows, hstep⟩ := hmvd.rows
    rw [operationsOf_map hrows hstep, map_map]
    have hids : (mid.operationsOf sid).map (OperationRow.operationId ∘ move) =
        (mid.operationsOf sid).map OperationRow.operationId :=
      map_congr_left fun o ho => (hstep o (mem_operationsOf.mp ho).1).operationId_eq
    exact ⟨[], by rw [append_nil, hids]⟩
  | admitted _ _ a =>
    rw [a.operationsOf, map_append]
    exact prefix_append _ _

/-! ## Redelivery -/

/-- A stored command is answered with its admission or refused. -/
theorem Queues.existingAdmission (h : Queues db) (hc : c ∈ db.commands) (ho : o ∈ db.operations)
    (hoc : o.commandId = c.commandId) (sid : SessionId)
    (hid : command.commandId = c.commandId) :
    db.existingAdmission sid command =
      if c.sessionId = sid ∧ c.content = command then .ok (some ⟨o.operationId, o.position⟩)
      else .error (.commandConflict command.commandId o.operationId) := by
  have hjoin : db.operations.rows.find? (fun q => decide (q.commandId = c.commandId)) = some o := by
    cases hfind : db.operations.rows.find? fun q => decide (q.commandId = c.commandId) with
    | none => exact absurd (decide_eq_true hoc) (find?_eq_none.mp hfind o ho)
    | some q =>
      have hq := find?_some hfind
      rw [decide_eq_true_eq] at hq
      rw [h.command_unique q (mem_of_find?_eq_some hfind) o ho (hq.trans hoc.symm)]
  unfold Database.existingAdmission
  rw [hid, find?_of_mem hc]
  dsimp only
  rw [hjoin]
  by_cases hsess : c.sessionId = sid <;> by_cases hcontent : c.content = command <;>
    simp only [hsess, hcontent, decide_true, decide_false, Bool.and_true, Bool.and_false,
      and_self, and_false, false_and, if_true, if_false] <;> rfl

/-- What a successful submission left: the command and its operation. -/
theorem Queues.submitted (h : Queues db)
    (hrun : db.submitWithMode mode opId sessionId command = .ok (admission, db')) :
    Queues db' ∧ ⟨command.commandId, sessionId, command⟩ ∈ db'.commands ∧
      ∃ o ∈ db'.operations, o.commandId = command.commandId ∧
        admission = ⟨o.operationId, o.position⟩ := by
  have hcom : (Transaction.submit mode opId sessionId command).commit db = .ok db' := by
    show Prod.snd <$> db.submitWithMode mode opId sessionId command = .ok db'
    rw [hrun]
    rfl
  refine ⟨h.commit hcom, ?_⟩
  rcases submitWithMode_ok hrun with ⟨heq, hexist⟩ | ⟨_, _, hins⟩
  · obtain rfl : db' = db := heq
    cases hfind : db'.commands.find? command.commandId with
    | none =>
      unfold Database.existingAdmission at hexist
      rw [hfind] at hexist
      cases hexist
    | some c =>
      obtain ⟨hc, hid⟩ := find?_eq_some.mp hfind
      obtain ⟨_, o, ho, hoc, _⟩ := h.command_operation c hc
      rw [h.existingAdmission hc ho hoc sessionId hid.symm] at hexist
      split at hexist
      next hsame =>
        obtain ⟨rfl, rfl⟩ := hsame
        have hrow : c = ⟨c.content.commandId, c.sessionId, c.content⟩ := by rw [← hid]
        rw [← hrow]
        exact ⟨hc, o, ho, hoc.trans hid, (Option.some.inj (Except.ok.inj hexist)).symm⟩
      · cases hexist
  · obtain ⟨a, hadmn⟩ := insertOperation_ok hins
    exact ⟨a.mem_commands.mpr (.inr rfl), a.operation, a.mem_operations.mpr (.inr rfl), rfl, hadmn⟩

/-- What a stored command answers to every later submission of its identity. -/
theorem Queues.resubmitted (h : Queues db)
    (hc : ⟨command.commandId, sessionId, command⟩ ∈ db.commands) (ho : o ∈ db.operations)
    (hoc : o.commandId = command.commandId) (mode : AdmissionMode) (opId : OperationId)
    (sessionId' : SessionId) (hid : command'.commandId = command.commandId) :
    db.submitWithMode mode opId sessionId' command' =
      if sessionId = sessionId' ∧ command = command' then .ok (⟨o.operationId, o.position⟩, db)
      else .error (.commandConflict command.commandId o.operationId) := by
  have hexist := h.existingAdmission hc ho hoc sessionId' hid
  unfold Database.submitWithMode
  rw [hexist]
  split
  · rfl
  · rw [hid]
    rfl

/-! ## Exclusive sessions -/

/-- The transaction submits to the session exclusively, if at all. -/
def Transaction.ExclusiveTo (sessionId : SessionId) (t : Transaction V) : Prop :=
  ∀ mode operationId command, t = .submit mode operationId sessionId command →
    mode = .requireNoUnfinishedOperation

/-- At most one operation of the session is unfinished. -/
def Database.OneUnfinished (db : Database V) (sessionId : SessionId) : Prop :=
  ∀ o ∈ db.operations, ∀ q ∈ db.operations, o.sessionId = sessionId → q.sessionId = sessionId →
    o.outcome = none → q.outcome = none → o = q

omit [DecidableEq V] in
theorem firstUnfinished_eq_none (h : db.firstUnfinished sessionId = none) (ho : o ∈ db.operations)
    (hsess : o.sessionId = sessionId) : o.outcome ≠ none := by
  intro hnone
  have hemp := orderBy_eq_nil.mp (head?_eq_none_iff.mp h)
  have hmem : o ∈ (db.operationsOf sessionId).filter fun op => op.outcome.isNone := by
    rw [mem_filter, mem_operationsOf, hnone]
    exact ⟨⟨ho, hsess⟩, rfl⟩
  rw [hemp] at hmem
  cases hmem

omit [DecidableEq V] in
/-- An operation without an outcome had none before. -/
theorem OperationStep.unfinished (h : Consistent db) {o' : OperationRow V} (ho : o ∈ db.operations)
    (hstep : OperationStep db o o') (hnone : o'.outcome = none) : o.outcome = none := by
  by_contra hsome
  have hterm : o.phase.isTerminal = true := by
    rw [← (h.operation_row o ho).outcome_isSome]
    exact Option.isSome_iff_ne_none.mpr hsome
  rw [hstep.eq_of_terminal hterm] at hnone
  exact hsome hnone

theorem Queues.oneUnfinished_commit (h : Queues db) (hone : db.OneUnfinished sessionId)
    (hexcl : t.ExclusiveTo sessionId) (hcom : t.commit db = .ok db') :
    db'.OneUnfinished sessionId := by
  intro o' ho' q' hq' hos hqs honone hqnone
  cases rowsStep_commit h.consistent hcom with
  | moved hmvd =>
    obtain ⟨move, hrows, hstep⟩ := hmvd.rows
    rw [← mem_rows, hrows, mem_map] at ho' hq'
    obtain ⟨o, ho, rfl⟩ := ho'
    obtain ⟨q, hq, rfl⟩ := hq'
    rw [(hstep o ho).sessionId_eq] at hos
    rw [(hstep q hq).sessionId_eq] at hqs
    rw [hone o ho q hq hos hqs ((hstep o ho).unfinished h.consistent ho honone)
      ((hstep q hq).unfinished h.consistent hq hqnone)]
  | @admitted mode opId sid command ht hmode a =>
    rcases a.mem_operations.mp ho' with ho | rfl <;> rcases a.mem_operations.mp hq' with hq | rfl
    · exact hone o' ho q' hq hos hqs honone hqnone
    · obtain rfl : sid = sessionId := hqs
      exact absurd honone (firstUnfinished_eq_none (hmode (hexcl _ _ _ ht)) ho hos)
    · obtain rfl : sid = sessionId := hos
      exact absurd hqnone (firstUnfinished_eq_none (hmode (hexcl _ _ _ ht)) hq hqs)
    · rfl

theorem Queues.oneUnfinished_runAll (h : Queues db) (hone : db.OneUnfinished sessionId)
    {ts : List (Transaction V)} (hexcl : ∀ t ∈ ts, Transaction.ExclusiveTo sessionId t) :
    (db.runAll ts).OneUnfinished sessionId := by
  induction ts generalizing db with
  | nil => exact hone
  | cons t ts ih =>
    have hrest : ∀ t ∈ ts, Transaction.ExclusiveTo sessionId t :=
      fun t' ht' => hexcl t' (mem_cons_of_mem t ht')
    refine ih (h.runAll [t]) ?_ hrest
    unfold Database.apply
    cases hcom : t.commit db with
    | error e => exact hone
    | ok db' => exact h.oneUnfinished_commit hone (hexcl t mem_cons_self) hcom

/-! ## Admission as clients see it -/

/-- **What holds of the commands and queues of a database.** -/
structure Database.AdmitsCommands (db : Database V) : Prop where
  /-- A command belongs to one operation, with one session and content, for ever. -/
  bound : ∀ c ∈ db.commands, ∃ o ∈ db.operations, o.commandId = c.commandId ∧
    o.sessionId = c.sessionId ∧ ∀ later, c ∈ (db.runAll later).commands ∧
      (∃ o' ∈ (db.runAll later).operations, o'.operationId = o.operationId ∧
        o'.commandId = o.commandId ∧ o'.sessionId = o.sessionId ∧ o'.position = o.position) ∧
      ∀ q ∈ (db.runAll later).operations, q.commandId = c.commandId →
        q.operationId = o.operationId
  redelivered : ∀ mode operationId sessionId command admission db',
    db.submitWithMode mode operationId sessionId command = .ok (admission, db') →
    ∀ later mode' operationId',
      (db'.runAll later).submitWithMode mode' operationId' sessionId command =
        .ok (admission, db'.runAll later)
  /-- The identity of an admitted command is not reused. -/
  reused : ∀ mode operationId sessionId command admission db',
    db.submitWithMode mode operationId sessionId command = .ok (admission, db') →
    ∀ later mode' operationId' sessionId' command', command'.commandId = command.commandId →
      ¬ (sessionId = sessionId' ∧ command = command') →
      (db'.runAll later).submitWithMode mode' operationId' sessionId' command' =
        .error (.commandConflict command.commandId admission.operationId)
  positions : ∀ s ∈ db.sessions,
    (db.operationsOf s.sessionId).map OperationRow.position = List.range s.nextCommandPosition
  /-- The operations of a session stand in the order of their admission. -/
  behind : ∀ mode operationId sessionId command admission db',
    db.submitWithMode mode operationId sessionId command = .ok (admission, db') →
    db' = db ∨ db'.operationsOf sessionId = db.operationsOf sessionId ++
      [queuedOperation admission.operationId sessionId command.commandId admission.position]
  kept : ∀ later sessionId, (db.operationsOf sessionId).map OperationRow.operationId <+:
    ((db.runAll later).operationsOf sessionId).map OperationRow.operationId
  /-- When an operation leaves the queue, those before it have ended and those behind it wait. -/
  activated : ∀ t db', Transaction.commit db t = .ok db' → ∀ q ∈ db.operations,
    q.phase = .queued → ∀ q' ∈ db'.operations, q'.operationId = q.operationId →
    q'.phase ≠ .queued → ∀ o ∈ db.operations, o.sessionId = q.sessionId →
      (o.position < q.position → o.outcome ≠ none) ∧
        (q.position < o.position → o.phase = .queued)
  fifo : ∀ o ∈ db.operations, ∀ q ∈ db.operations, o.sessionId = q.sessionId →
    o.position < q.position → q.phase ≠ .queued → o.outcome ≠ none
  refused : ∀ mode operationId sessionId command e,
    db.submitWithMode mode operationId sessionId command = .error e →
    db.apply (.submit mode operationId sessionId command) = db

omit [DecidableEq V] in
theorem Consistent.outcome_ne_none (h : Consistent db) (ho : o ∈ db.operations)
    (hterm : o.phase.isTerminal = true) : o.outcome ≠ none := by
  rw [← Option.isSome_iff_ne_none, (h.operation_row o ho).outcome_isSome]
  exact hterm

theorem Queues.bound (h : Queues db) (hc : c ∈ db.commands) :
    ∃ o ∈ db.operations, o.commandId = c.commandId ∧
      o.sessionId = c.sessionId ∧ ∀ later, c ∈ (db.runAll later).commands ∧
        (∃ o' ∈ (db.runAll later).operations, o'.operationId = o.operationId ∧
          o'.commandId = o.commandId ∧ o'.sessionId = o.sessionId ∧ o'.position = o.position) ∧
        ∀ q ∈ (db.runAll later).operations, q.commandId = c.commandId →
          q.operationId = o.operationId := by
  obtain ⟨_, o, ho, hoc, hos⟩ := h.command_operation c hc
  refine ⟨o, ho, hoc, hos, fun later => ?_⟩
  obtain ⟨o', ho', hlat⟩ := exists_later_runAll h.consistent ho later
  refine ⟨h.command_kept hc later, ⟨o', ho', hlat.operationId, hlat.commandId,
    hlat.sessionId, hlat.position⟩, fun q hq hqc => ?_⟩
  rw [(h.runAll later).command_unique q hq o' ho' (hqc.trans (hoc.symm.trans hlat.commandId.symm)),
    hlat.operationId]

/-- Every later submission of an admitted command. -/
theorem Queues.submitted_later (h : Queues db)
    (hrun : db.submitWithMode mode opId sessionId command = .ok (admission, db'))
    (later : List (Transaction V)) (mode' : AdmissionMode) (operationId' : OperationId)
    (sessionId' : SessionId) (hid : command'.commandId = command.commandId) :
    (db'.runAll later).submitWithMode mode' operationId' sessionId' command' =
      if sessionId = sessionId' ∧ command = command' then .ok (admission, db'.runAll later)
      else .error (.commandConflict command.commandId admission.operationId) := by
  obtain ⟨h', hc, o, ho, hoc, rfl⟩ := h.submitted hrun
  obtain ⟨o', ho', hlat⟩ := exists_later_runAll h'.consistent ho later
  have hagain := (h'.runAll later).resubmitted (h'.command_kept hc later) ho'
    (hlat.commandId.trans hoc) mode' operationId' sessionId' hid
  rwa [hlat.operationId, hlat.position] at hagain

theorem Queues.activated (h : Queues db) (hcom : t.commit db = .ok db') {q' : OperationRow V}
    (hq : q ∈ db.operations) (hqueued : q.phase = .queued) (hq' : q' ∈ db'.operations)
    (hid : q'.operationId = q.operationId) (hleft : q'.phase ≠ .queued) (ho : o ∈ db.operations)
    (hsess : o.sessionId = q.sessionId) :
    (o.position < q.position → o.outcome ≠ none) ∧
      (q.position < o.position → o.phase = .queued) := by
  refine ⟨fun hlt => ?_, fun hlt => ?_⟩
  · cases rowsStep_commit h.consistent hcom with
    | moved hmvd =>
      obtain ⟨move, hrows, hstep⟩ := hmvd.rows
      have hmoved' : move q ∈ db'.operations := by
        rw [← mem_rows, hrows]
        exact mem_map_of_mem hq
      have hsame : q' = move q := key_inj hq' hmoved' (hid.trans (hstep q hq).operationId_eq.symm)
      rw [hsame] at hleft
      exact h.consistent.outcome_ne_none ho
        ((hstep q hq).ended_before h.consistent hqueued hleft ho hsess hlt)
    | admitted _ _ a =>
      have hsame : q' = q := key_inj hq' (a.mem_operations.mpr (.inl hq)) hid
      rw [hsame] at hleft
      exact absurd hqueued hleft
  · by_contra hph
    have hend := h.fifo q hq o ho hsess.symm hlt hph
    rw [hqueued] at hend
    cases hend

theorem Queues.admitsCommands (h : Queues db) : db.AdmitsCommands where
  bound c hc := h.bound hc
  redelivered mode opId sessionId command admission db' hrun later mode' operationId' := by
    rw [h.submitted_later hrun later mode' operationId' sessionId rfl, if_pos ⟨rfl, rfl⟩]
  reused mode opId sessionId command admission db' hrun later mode' operationId' sessionId'
      command' hid hoth := by
    rw [h.submitted_later hrun later mode' operationId' sessionId' hid, if_neg hoth]
  positions s hs := h.positions hs
  behind mode opId sessionId command admission db' hrun := by
    rcases submitWithMode_ok hrun with ⟨heq, _⟩ | ⟨_, _, hins⟩
    · exact .inl heq
    · obtain ⟨a, hadmn⟩ := insertOperation_ok hins
      refine .inr ?_
      rw [a.operationsOf, if_pos rfl, show admission = _ from hadmn]
      rfl
  kept later sessionId := h.operationsOf_kept later sessionId
  activated t db' hcom q hq hqueued q' hq' hid hleft o ho hsess :=
    h.activated hcom hq hqueued hq' hid hleft ho hsess
  fifo o ho q hq hsess hlt hleft :=
    h.consistent.outcome_ne_none ho (h.fifo o ho q hq hsess hlt hleft)
  refused mode opId sessionId command e hrefused := by
    have hcom : (Transaction.submit mode opId sessionId command).commit db = .error e := by
      show Prod.snd <$> db.submitWithMode mode opId sessionId command = .error e
      rw [hrefused]
      rfl
    exact apply_of_error hcom

/-- **Command admission.** In every run, and a session that only ever received exclusive submissions
never has two unfinished operations. -/
theorem command_admission (ts : List (Transaction V)) :
    (Database.empty.runAll ts).AdmitsCommands ∧
      ∀ sessionId, (∀ t ∈ ts, Transaction.ExclusiveTo sessionId t) →
        (Database.empty.runAll ts).OneUnfinished sessionId := by
  refine ⟨(queues_empty.runAll ts).admitsCommands, fun sessionId hexclusive => ?_⟩
  exact queues_empty.oneUnfinished_runAll (fun o ho => absurd ho not_mem_empty) hexclusive

end Runs

end Renoa.Kernel
