import Renoa.Foundation.Fallible
import Renoa.Kernel.Model

/-!
# Admission of agents, sessions and commands

`createAgent` and `createSession` are idempotent. `submitWithMode` admits a command as a queued
operation at the session's next position, or answers a resubmission with the admission it
already has. The `_ok` lemmas say what a successful admission did to the database.
-/

namespace Renoa.Kernel

open Foundation Table

variable {V : Type} {db : Database V} {sid : SessionId} {operationId : OperationId}
  {command : Command V}

/-- The operation and position a command was admitted at. -/
structure Admission where
  operationId : OperationId
  position : Nat
  deriving DecidableEq, Repr

inductive AdmissionMode where
  | ordered
  | requireNoUnfinishedOperation
  deriving DecidableEq, Repr

/-- The row of a newly admitted operation. -/
def queuedOperation (operationId : OperationId) (sessionId : SessionId) (commandId : CommandId)
    (position : Nat) : OperationRow V where
  operationId
  sessionId
  commandId
  position
  phase := .queued
  stateVersion := operationStateVersion
  transitionVersion := 0
  manifest := none
  checkpoint := none
  currentEffectBatchId := none
  inputEffectBatchId := none
  outcome := none
  nextEffectBatchPosition := 0

namespace Database

section

variable (db : Database V)

def createAgent (agentId : AgentId) : Database V :=
  match db.agents.insert (fun _ => false) agentId with
  | some agents => { db with agents }
  | none => db

def createSession (sessionId : SessionId) (agentId : AgentId) : Except KernelError (Database V) :=
  match db.sessions.find? sessionId with
  | some existing => do
    ensure (existing.agentId = agentId) (.sessionConflict sessionId existing.agentId)
    return db
  | none => do
    let _ ← require (.agentNotFound agentId) (db.agents.find? agentId)
    let sessions ← require .store (db.sessions.insert (fun _ => false)
      { sessionId
        agentId
        nextCommandPosition := 0
        activeOperationId := none
        nextEventSequence := 0 })
    return { db with sessions }

/-- The admission of a command that the database already holds. -/
def existingAdmission [DecidableEq V] (db : Database V) (sessionId : SessionId)
    (command : Command V) : Except KernelError (Option Admission) :=
  match db.commands.find? command.commandId with
  | none => .ok none
  | some stored =>
    match db.operations.rows.find? fun operation => operation.commandId = stored.commandId with
    | none => .ok none
    | some operation => do
      ensure (decide (stored.sessionId = sessionId) && decide (stored.content = command))
        (.commandConflict command.commandId operation.operationId)
      return some { operation with }

/-- The first operation of a session without an outcome, by position. -/
def firstUnfinished (sessionId : SessionId) : Option (OperationRow V) :=
  (orderBy OperationRow.position
    ((db.operationsOf sessionId).filter fun operation => operation.outcome.isNone)).head?

def requireNoUnfinishedOperation (sessionId : SessionId) : Except KernelError Unit :=
  match db.firstUnfinished sessionId with
  | some operation => .error (.unfinishedOperation operation.operationId operation.commandId)
  | none => .ok ()

/-- Inserts a command and its queued operation and moves the session's admission cursor. -/
def insertOperation (operationId : OperationId) (sessionId : SessionId) (command : Command V) :
    Except KernelError (Admission × Database V) := do
  let session ← require (.sessionNotFound sessionId) (db.sessions.find? sessionId)
  let position := session.nextCommandPosition
  let commands ← require .store (db.commands.insert (fun _ => false)
    { commandId := command.commandId, sessionId, content := command })
  let operations ← require .store (db.operations.insert
    (fun operation => operation.commandId = command.commandId ∨
      (operation.sessionId = sessionId ∧ operation.position = position))
    (queuedOperation operationId sessionId command.commandId position))
  let sessions ← require (.corrupt "session admission cursor update failed")
    (db.sessions.updateOne sessionId (fun _ => true) fun session =>
      { session with nextCommandPosition := session.nextCommandPosition + 1 })
  return ({ operationId, position }, { db with commands, operations, sessions })

end

/-- Admits a command. `operationId` is the identity drawn for a new operation. -/
def submitWithMode [DecidableEq V] (db : Database V) (mode : AdmissionMode)
    (operationId : OperationId) (sessionId : SessionId) (command : Command V) :
    Except KernelError (Admission × Database V) := do
  match ← db.existingAdmission sessionId command with
  | some admission => return (admission, db)
  | none =>
    if mode = .requireNoUnfinishedOperation then
      db.requireNoUnfinishedOperation sessionId
    db.insertOperation operationId sessionId command

/-! ## What an admission did -/

theorem createAgent_eq (db : Database V) (aid : AgentId) :
    db.createAgent aid = { db with agents := (db.createAgent aid).agents } := by
  unfold createAgent
  split <;> rfl

theorem createSession_ok {db' : Database V} {aid : AgentId}
    (h : db.createSession sid aid = .ok db') :
    db' = db ∨ ((∀ s ∈ db.sessions, s.sessionId ≠ sid) ∧
        db'.sessions.rows = db.sessions.rows ++ [⟨sid, aid, 0, none, 0⟩] ∧
        db' = { db with sessions := db'.sessions }) := by
  unfold createSession at h
  split at h
  · obtain ⟨_, _, h⟩ := bind_ok h
    cases h
    exact .inl rfl
  · obtain ⟨_, _, h⟩ := bind_ok h
    obtain ⟨sessions, hins, h⟩ := require_bind_ok h
    cases h
    obtain ⟨hfree, _, hrows⟩ := insert_eq_some hins
    exact .inr ⟨hfree, hrows, rfl⟩

end Database

/-- What the insertion of a new operation did. -/
structure AdmittedOperation (db : Database V) (operationId : OperationId) (sessionId : SessionId)
    (command : Command V) (db' : Database V) where
  session : SessionRow
  commands : Table (CommandRow.commandId (V := V))
  operations : Table (OperationRow.operationId (V := V))
  session_find : db.sessions.find? sessionId = some session
  fresh : ∀ o ∈ db.operations, o.operationId ≠ operationId
  fresh_command : ∀ c ∈ db.commands, c.commandId ≠ command.commandId
  commands_eq : commands.rows = db.commands.rows ++ [⟨command.commandId, sessionId, command⟩]
  operations_eq : operations.rows = db.operations.rows ++
    [queuedOperation operationId sessionId command.commandId session.nextCommandPosition]
  db'_eq : db' = { db with
    commands
    operations
    sessions := db.sessions.put
      { session with nextCommandPosition := session.nextCommandPosition + 1 } }

namespace Database

theorem insertOperation_ok {res : Admission × Database V}
    (h : db.insertOperation operationId sid command = .ok res) :
    ∃ a : AdmittedOperation db operationId sid command res.2,
      res.1 = ⟨operationId, a.session.nextCommandPosition⟩ := by
  obtain ⟨sess, hsess, h⟩ := require_bind_ok h
  obtain ⟨commands, hcmds, h⟩ := require_bind_ok h
  obtain ⟨operations, hops, h⟩ := require_bind_ok h
  obtain ⟨sessions, hsessions, h⟩ := require_bind_ok h
  cases h
  obtain ⟨hfreeCommand, _, hcommandRows⟩ := insert_eq_some hcmds
  obtain ⟨hfree, _, hrows⟩ := insert_eq_some hops
  obtain ⟨session', hsession', _, rfl⟩ := updateOne_eq_some.mp hsessions
  obtain rfl : session' = sess := by
    rw [hsess] at hsession'
    exact (Option.some.inj hsession').symm
  exact ⟨⟨session', commands, operations, hsess, hfree, hfreeCommand, hcommandRows, hrows, rfl⟩,
    rfl⟩

/-- A successful submission answers a stored admission and writes nothing, or inserts. -/
theorem submitWithMode_ok [DecidableEq V] {mode : AdmissionMode} {res : Admission × Database V}
    (h : db.submitWithMode mode operationId sid command = .ok res) :
    (res.2 = db ∧ db.existingAdmission sid command = .ok (some res.1)) ∨
      (db.existingAdmission sid command = .ok none ∧
        (mode = .requireNoUnfinishedOperation → db.firstUnfinished sid = none) ∧
        db.insertOperation operationId sid command = .ok res) := by
  obtain ⟨existing, hexist, h⟩ := bind_ok h
  cases existing with
  | some adm =>
    cases h
    exact .inl ⟨rfl, hexist⟩
  | none =>
    refine .inr ⟨hexist, ?_⟩
    by_cases hmode : mode = .requireNoUnfinishedOperation
    · simp only [hmode] at h
      obtain ⟨_, hnone, h⟩ := bind_ok h
      refine ⟨fun _ => ?_, h⟩
      unfold requireNoUnfinishedOperation at hnone
      split at hnone
      · cases hnone
      · assumption
    · simp only [hmode] at h
      exact ⟨fun heq => absurd heq hmode, h⟩

end Database

end Renoa.Kernel
