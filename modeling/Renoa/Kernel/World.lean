import Renoa.Kernel.Admission
import Renoa.Kernel.Driver

/-!
# The running kernel

A `World` is the database together with what the process holds in memory: a lease for each
session that is driven, with its driver and the adapter tasks spawned for it. `World.next` moves
it by one `Action`: a call from another thread, a step of a driver, an adapter task that starts
or ends, a dropped driver, or a crash that loses everything but the database.

A spawned task holds the lease until it ends, also when its driver is gone. Calling the adapter is
an action of the task, so it may come after the driver was dropped.

`errors`, `handovers` and `decisions` are history: the errors the kernel returned, the adapter
calls with the database they were made in, and the inputs of the committed loop decisions.
-/

namespace Renoa.Kernel

variable {V : Type}

/-- A spawned adapter task; `invoked` once it has called its adapter. -/
structure EffectTask (V : Type) where
  effect : PendingEffect V
  invoked : Bool
  deriving DecidableEq, Repr

/-- The lease of a session: held by its driver and by every adapter task spawned for it. -/
structure Lease (V : Type) where
  runtime : Runtime
  driver : Option (DriverState V)
  tasks : List (EffectTask V)
  deriving DecidableEq, Repr

/-- The task after it called the adapter of the effect. -/
def EffectTask.call (effectId : EffectId) (task : EffectTask V) : EffectTask V :=
  if task.effect.effectId = effectId then { task with invoked := true } else task

/-- The lease without a task that has ended. -/
def Lease.endTask (lease : Lease V) (effectId : EffectId) : Lease V :=
  { lease with tasks := lease.tasks.filter fun task => task.effect.effectId ≠ effectId }

/-- One call of an adapter, with the database at that moment. -/
structure Handover (V : Type) where
  effect : PendingEffect V
  db : Database V

structure World (V : Type) where
  db : Database V
  leases : SessionId → Option (Lease V)
  errors : List KernelError
  handovers : List (Handover V)
  decisions : List (LoopInput V)

inductive Action (V : Type) where
  | createAgent (agentId : AgentId)
  | createSession (sessionId : SessionId) (agentId : AgentId)
  | submit (mode : AdmissionMode) (operationId : OperationId) (sessionId : SessionId)
      (command : Command V)
  | requestCancellation (sessionId : SessionId) (operationId : OperationId)
      (cancellationId : CancellationId)
  | inspect (sessionId : SessionId)
  | commandStanding (sessionId : SessionId) (commandId : CommandId)
  | observeSession (sessionId : SessionId)
  | eventsAfter (sessionId : SessionId) (cursor : Nat)
  | drive (sessionId : SessionId) (runtime : Runtime)
  | abandon (sessionId : SessionId) (operationId : OperationId) (runtime : Runtime)
  | advance (sessionId : SessionId) (choice : Choice V)
  | spawn (sessionId : SessionId) (effectId : EffectId)
  | invoke (sessionId : SessionId) (effectId : EffectId)
  | complete (sessionId : SessionId) (effectId : EffectId) (completion : EffectCompletion V)
  | taskFailed (sessionId : SessionId) (effectId : EffectId)
  | dropDriver (sessionId : SessionId)
  | crash

namespace World

/-- A newly opened kernel over an empty database. -/
def initial : World V where
  db := .empty
  leases := fun _ => none
  errors := []
  handovers := []
  decisions := []

section

variable (w : World V)

/-- A call that runs one transaction. -/
def transaction (result : Except KernelError (Database V)) : World V :=
  match result with
  | .ok db => { w with db }
  | .error e => { w with errors := e :: w.errors }

/-- A call that only reads. -/
def read {α : Type} (w : World V) (result : Except KernelError α) : World V :=
  match result with
  | .ok _ => w
  | .error e => { w with errors := e :: w.errors }

/-- Stores a lease; the last holder to go releases it. -/
def putLease (sessionId : SessionId) (lease : Lease V) : World V :=
  { w with
    leases := Function.update w.leases sessionId
      (if lease.driver.isNone && lease.tasks.isEmpty then none else some lease) }

/-- Takes the lease of a session for a new driver. -/
def acquire (sessionId : SessionId) (runtime : Runtime) (driver : DriverState V) : World V :=
  match w.leases sessionId with
  | some _ => { w with errors := .busy sessionId :: w.errors }
  | none => w.putLease sessionId { runtime, driver := some driver, tasks := [] }

/-- The inputs a driver's step adds to the committed decisions. -/
def decided : DriverState V → List (LoopInput V)
  | .deciding active input => if w.db.cancellationRequested active.operationId then [] else [input]
  | _ => []

/-- The world after a driver's step. A driver that returns drops its attempts; its tasks go on. -/
def settle (sessionId : SessionId) (lease : Lease V) (driver : DriverState V) (db : Database V) :
    Except KernelError (Control V) → World V
  | .error e =>
    { w with db, errors := e :: w.errors }.putLease sessionId { lease with driver := none }
  | .ok (.done _) =>
    { w with db, decisions := w.decided driver ++ w.decisions }.putLease sessionId
      { lease with driver := none }
  | .ok (.next state) =>
    { w with db, decisions := w.decided driver ++ w.decisions }.putLease sessionId
      { lease with driver := some state }

def advance (sessionId : SessionId) (lease : Lease V) (driver : DriverState V) (choice : Choice V) :
    World V :=
  let (db, result) := driver.step w.db sessionId lease.runtime choice (!lease.tasks.isEmpty)
  w.settle sessionId lease driver db result

/-- The first poll of an attempt spawns its task. -/
def spawn (sessionId : SessionId) (lease : Lease V) (active : ActiveOperation V)
    (round : EffectRound V) (effect : PendingEffect V) : World V :=
  w.putLease sessionId
    { lease with
      driver := some (.invoking active
        { round with attempts := round.attempts.filter fun a => a.effectId ≠ effect.effectId })
      tasks := { effect, invoked := false } :: lease.tasks }

/-- A task calls its adapter. -/
def invoke (sessionId : SessionId) (lease : Lease V) (task : EffectTask V) : World V :=
  { w with handovers := { effect := task.effect, db := w.db } :: w.handovers }.putLease sessionId
    { lease with tasks := lease.tasks.map (EffectTask.call task.effect.effectId) }

/-- An adapter task ends with a completion. A waiting driver records it; without one it is
lost. -/
def complete (sessionId : SessionId) (lease : Lease V) (task : EffectTask V)
    (completion : EffectCompletion V) : World V :=
  let lease := lease.endTask task.effect.effectId
  match lease.driver with
  | some (.invoking active round) =>
    match w.db.recordCompletion active.operationId round.batchId task.effect completion with
    | .error e =>
      { w with errors := e :: w.errors }.putLease sessionId { lease with driver := none }
    | .ok (finished, db) =>
      { w with db }.putLease sessionId
        { lease with driver := some (.invoking active (round.received task.effect finished)) }
  | _ => w.putLease sessionId lease

/-- An adapter task ends without a completion, and a waiting driver with it. -/
def taskFailed (sessionId : SessionId) (lease : Lease V) (task : EffectTask V) : World V :=
  let lease := lease.endTask task.effect.effectId
  match lease.driver with
  | some _ =>
    { w with errors := .effectTask :: w.errors }.putLease sessionId { lease with driver := none }
  | none => w.putLease sessionId lease

end

/-- The spawned task of an effect. -/
def task? (lease : Lease V) (effectId : EffectId) : Option (EffectTask V) :=
  lease.tasks.find? fun task => task.effect.effectId = effectId

variable [DecidableEq V]

/-- The world after an action; an action that does not apply changes nothing. -/
def next (w : World V) : Action V → World V
  | .createAgent agentId => { w with db := w.db.createAgent agentId }
  | .createSession sessionId agentId => w.transaction (w.db.createSession sessionId agentId)
  | .submit mode operationId sessionId command =>
    w.transaction (Prod.snd <$> w.db.submitWithMode mode operationId sessionId command)
  | .requestCancellation sessionId operationId cancellationId =>
    w.transaction (w.db.requestCancellation sessionId operationId cancellationId)
  | .inspect sessionId => w.read (w.db.inspect sessionId)
  | .commandStanding sessionId commandId => w.read (w.db.commandStanding sessionId commandId)
  | .observeSession sessionId => w.read (w.db.observeSession sessionId)
  | .eventsAfter sessionId cursor => w.read (w.db.eventsAfter sessionId cursor)
  | .drive sessionId runtime => w.acquire sessionId runtime .activating
  | .abandon sessionId operationId runtime => w.acquire sessionId runtime (.abandoning operationId)
  | .advance sessionId choice =>
    match w.leases sessionId with
    | some lease =>
      match lease.driver with
      | some driver => w.advance sessionId lease driver choice
      | none => w
    | none => w
  | .spawn sessionId effectId =>
    match w.leases sessionId with
    | some lease =>
      match lease.driver with
      | some (.invoking active round) =>
        match round.attempts.find? fun a => a.effectId = effectId with
        | some effect => w.spawn sessionId lease active round effect
        | none => w
      | _ => w
    | none => w
  | .invoke sessionId effectId =>
    match w.leases sessionId with
    | some lease =>
      match task? lease effectId with
      | some task => if task.invoked then w else w.invoke sessionId lease task
      | none => w
    | none => w
  | .complete sessionId effectId completion =>
    match w.leases sessionId with
    | some lease =>
      match task? lease effectId with
      | some task => if task.invoked then w.complete sessionId lease task completion else w
      | none => w
    | none => w
  | .taskFailed sessionId effectId =>
    match w.leases sessionId with
    | some lease =>
      match task? lease effectId with
      | some task => w.taskFailed sessionId lease task
      | none => w
    | none => w
  | .dropDriver sessionId =>
    match w.leases sessionId with
    | some lease => w.putLease sessionId { lease with driver := none }
    | none => w
  | .crash => { w with leases := fun _ => none }

/-- The world after a run of actions. -/
def run (w : World V) (actions : List (Action V)) : World V := actions.foldl next w

theorem run_append (w : World V) (as bs : List (Action V)) :
    w.run (as ++ bs) = (w.run as).run bs := List.foldl_append

end World

end Renoa.Kernel
