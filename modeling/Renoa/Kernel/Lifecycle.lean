import Renoa.Kernel.CommitCase

/-!
# The life of an operation row

A transaction does little to an operation row: it leaves it, it activates the first queued
operation of an idle session, or it moves an active operation to its next transition
(`OperationStep`). Rows stay in place in their table and a new one is queued behind them
(`RowsStep`). So a row keeps its identity for ever, its transitions only go up, and an operation
that has ended is never touched again.
-/

namespace Renoa.Kernel

open Foundation Table

variable {V : Type} {db db' : Database V} {o o' : OperationRow V} {t : Transaction V}

/-! ## Steps of one operation row -/

/-- What one transaction may do to one operation row. -/
inductive OperationStep (db : Database V) (o : OperationRow V) : OperationRow V → Prop
  | same : OperationStep db o o
  | activated (manifest : RuntimeManifest) (hfirst : db.firstQueued o.sessionId = some o)
      (hidle : ∀ s ∈ db.sessions, s.sessionId = o.sessionId → s.activeOperationId = none) :
      OperationStep db o (o.activate manifest)
  | moved {o' : OperationRow V} (hid : o'.operationId = o.operationId)
      (hsession : o'.sessionId = o.sessionId) (hcommand : o'.commandId = o.commandId)
      (hposition : o'.position = o.position) (hactive : o.phase.isCancellable = true)
      (hphase : o'.phase ≠ .queued)
      (htransition : o'.transitionVersion = o.transitionVersion + 1) : OperationStep db o o'

namespace OperationStep

variable {o o' : OperationRow V}

section

variable (h : OperationStep db o o')

include h

theorem operationId_eq : o'.operationId = o.operationId := by
  cases h with
  | same | activated => rfl
  | moved hid => exact hid

theorem sessionId_eq : o'.sessionId = o.sessionId := by
  cases h with
  | same | activated => rfl
  | moved _ hsess => exact hsess

theorem commandId_eq : o'.commandId = o.commandId := by
  cases h with
  | same | activated => rfl
  | moved _ _ hcmd => exact hcmd

theorem position_eq : o'.position = o.position := by
  cases h with
  | same | activated => rfl
  | moved _ _ _ hpos => exact hpos

theorem transitionVersion_le : o.transitionVersion ≤ o'.transitionVersion := by
  cases h with
  | same => exact Nat.le_refl _
  | activated => exact Nat.le_succ _
  | moved _ _ _ _ _ _ htrn =>
    rw [htrn]
    exact Nat.le_succ _

/-- A row that no longer waits in the queue does not return to it. -/
theorem not_queued (hph : o.phase ≠ .queued) : o'.phase ≠ .queued := by
  cases h with
  | same => exact hph
  | activated => exact fun hq => by cases hq
  | moved _ _ _ _ _ hphase' => exact hphase'

/-- An operation that has ended keeps its row. -/
theorem eq_of_terminal (hterm : o.phase.isTerminal = true) : o' = o := by
  cases h with
  | same => rfl
  | activated _ hfst =>
    rw [(firstQueued_eq_some hfst).2.2] at hterm
    cases hterm
  | moved _ _ _ _ hact =>
    rw [OperationPhase.not_terminal_of_cancellable hact] at hterm
    cases hterm

end

end OperationStep

/-! ## Steps of the operation table -/

/-- Rows move in place, and no command comes. -/
structure RowsMoved (db db' : Database V) : Prop where
  rows : ∃ move : OperationRow V → OperationRow V,
    db'.operations.rows = db.operations.rows.map move ∧
      ∀ o ∈ db.operations, OperationStep db o (move o)
  commands_eq : db'.commands = db.commands

/-- What a transaction does to the operations and the commands: only a submission adds a row. -/
inductive RowsStep (t : Transaction V) (db db' : Database V) : Prop
  | moved (h : RowsMoved db db')
  | admitted {mode : AdmissionMode} {operationId : OperationId} {sessionId : SessionId}
      {command : Command V} (ht : t = .submit mode operationId sessionId command)
      (hmode : mode = .requireNoUnfinishedOperation → db.firstUnfinished sessionId = none)
      (a : AdmittedOperation db operationId sessionId command db')

theorem rowsMoved_of_eq (hops : db'.operations = db.operations)
    (hcmds : db'.commands = db.commands) : RowsMoved db db' :=
  ⟨⟨id, by rw [hops, List.map_id], fun _ _ => .same⟩, hcmds⟩

/-- One row moves in place. -/
theorem rowsMoved_of_put (ho : o ∈ db.operations)
    (hops : db'.operations = db.operations.put o') (hcmds : db'.commands = db.commands)
    (hstep : OperationStep db o o') : RowsMoved db db' := by
  refine ⟨⟨fun q => if q.operationId = o'.operationId then o' else q, ?_, ?_⟩, hcmds⟩
  · rw [hops, rows_put]
  · intro q hq
    dsimp only
    by_cases hid : q.operationId = o'.operationId
    · rw [if_pos hid, key_inj hq ho (hid.trans hstep.operationId_eq)]
      exact hstep
    · rw [if_neg hid]
      exact .same

/-- A rewritten row is activated or moves on. -/
theorem RowWrite.operationStep (h : RowWrite db o o') : OperationStep db o o' := by
  cases h with
  | activated mf hfst hidle => exact .activated mf hfst hidle
  | dispatched hact => exact .moved rfl rfl rfl rfl hact (fun hq => by cases hq) rfl
  | finished blocked hact _ =>
    refine .moved rfl rfl rfl rfl hact ?_ rfl
    cases blocked <;> exact fun hq => by cases hq

/-- What every transaction does to the operations and the commands. -/
theorem rowsStep_commit [DecidableEq V] (h : Consistent db) (hcom : t.commit db = .ok db') :
    RowsStep t db db' := by
  cases commitCase_commit h hcom with
  | unchanged heq => exact .moved (rowsMoved_of_eq (by rw [heq]) (by rw [heq]))
  | rewritten r _ =>
    rcases r.operations with hsame | ⟨o, ho, o', hwrt, hput⟩
    · exact .moved (rowsMoved_of_eq hsame r.commands)
    · exact .moved (rowsMoved_of_put ho hput r.commands hwrt.operationStep)
  | admitted ht hmode a => exact .admitted ht hmode a
  | intended _ i =>
    exact .moved (rowsMoved_of_put i.operation_mem (congrArg Database.operations i.db'_eq)
      (congrArg (·.commands) i.db'_eq)
      (.moved rfl rfl rfl rfl (by rw [i.phase_eq]; rfl) (fun hq => by cases hq) rfl))
  | continued c hph hnext _ _ =>
    refine .moved (rowsMoved_of_put (mem_of_find? c.operation_find)
      (congrArg Database.operations c.db'_eq) (congrArg (·.commands) c.db'_eq)
      (.moved rfl rfl rfl rfl (by rw [hph]; rfl) ?_ rfl))
    exact fun hq => by cases hnext.symm.trans hq
  | ended e hact hsame hph hnext _ =>
    exact .moved (rowsMoved_of_put (mem_of_find? e.operation_find)
      (congrArg Database.operations e.db'_eq) (congrArg (·.commands) e.db'_eq)
      (.moved hsame.operationId hsame.sessionId hsame.commandId hsame.position hact hph hnext))

/-! ## Rows along a run -/

/-- What the row `o` of an operation and a later row `o'` of it have in common. -/
structure OperationRow.Later (o o' : OperationRow V) : Prop where
  operationId : o'.operationId = o.operationId
  sessionId : o'.sessionId = o.sessionId
  commandId : o'.commandId = o.commandId
  position : o'.position = o.position
  transition : o.transitionVersion ≤ o'.transitionVersion
  not_queued : o.phase ≠ .queued → o'.phase ≠ .queued
  ended : o.phase.isTerminal = true → o' = o

theorem OperationRow.later_refl (o : OperationRow V) : o.Later o :=
  ⟨rfl, rfl, rfl, rfl, Nat.le_refl _, id, fun _ => rfl⟩

theorem OperationStep.later (h : OperationStep db o o') : o.Later o' :=
  ⟨h.operationId_eq, h.sessionId_eq, h.commandId_eq, h.position_eq, h.transitionVersion_le,
    h.not_queued, h.eq_of_terminal⟩

theorem OperationRow.Later.trans {o'' : OperationRow V} (h : o.Later o') (h' : o'.Later o'') :
    o.Later o'' where
  operationId := h'.operationId.trans h.operationId
  sessionId := h'.sessionId.trans h.sessionId
  commandId := h'.commandId.trans h.commandId
  position := h'.position.trans h.position
  transition := Nat.le_trans h.transition h'.transition
  not_queued hph := h'.not_queued (h.not_queued hph)
  ended hterm := by
    obtain rfl := h.ended hterm
    exact h'.ended hterm

/-- Every operation has a row in the database after a transaction. -/
theorem RowsStep.exists_step (h : RowsStep t db db') (ho : o ∈ db.operations) :
    ∃ o' ∈ db'.operations, OperationStep db o o' := by
  cases h with
  | moved h =>
    obtain ⟨move, hrows, hstep⟩ := h.rows
    refine ⟨move o, ?_, hstep o ho⟩
    rw [← mem_rows, hrows]
    exact List.mem_map_of_mem ho
  | admitted _ _ a => exact ⟨o, a.mem_operations.mpr (.inl ho), .same⟩

theorem RowsStep.exists_later (h : RowsStep t db db') (ho : o ∈ db.operations) :
    ∃ o' ∈ db'.operations, o.Later o' := by
  obtain ⟨o', ho', hstep⟩ := h.exists_step ho
  exact ⟨o', ho', hstep.later⟩

/-- Every operation has a row in the database after a run. -/
theorem exists_later_runAll [DecidableEq V] (h : Consistent db) (ho : o ∈ db.operations)
    (ts : List (Transaction V)) : ∃ o' ∈ (db.runAll ts).operations, o.Later o' := by
  refine h.runAll_induction (motive := fun db => ∃ o' ∈ db.operations, o.Later o')
    ⟨o, ho, o.later_refl⟩ ?_ ts
  rintro mid t mid' hmid ⟨q, hq, hlat⟩ hcom
  obtain ⟨q', hq', hlater'⟩ := (rowsStep_commit hmid hcom).exists_later hq
  exact ⟨q', hq', hlat.trans hlater'⟩

end Renoa.Kernel
