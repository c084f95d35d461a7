import Renoa.Node.LedgerInvariant

/-!
# Stopping a command

A stop writes the ledger and then cancels the token of the command, if one is registered. An
execution registers its token and then reads the ledger. Whichever happens second sees the other,
so once both are done the token is cancelled, also when the process was lost in between: the
registry goes with it, but every execution that starts again reads the ledger.

`Runtime` is the node's process beside its ledger. Executions, stops and the session loop run
concurrently; every access to the ledger or to the registry is one `Input`.
-/

namespace Renoa.Node

open Foundation Protocol List Function
open Control (TaskId)

variable {V : Type} {ledger : Ledger V}

/-! ## The process -/

/-- Where an execution stands. Its cancellation token is an index. -/
inductive ExecutionPhase where
  | spawned
  | registered (token : Nat)
  | read (token : Nat) (stopRequested : Bool)
  | started (token : Nat)
  | returned
  deriving DecidableEq, Repr

variable {phase : ExecutionPhase}

/-- The token the execution has registered. -/
def ExecutionPhase.token? : ExecutionPhase → Option Nat
  | .spawned | .returned => none
  | .registered token | .read token _ | .started token => some token

/-- An execution the session loop spawned and has not joined. -/
structure Execution where
  taskId : TaskId
  commandId : CommandId
  phase : ExecutionPhase
  deriving DecidableEq, Repr

variable {e : Execution}

/-- A stop that is recorded and has not cancelled its command yet. -/
structure StopHandler where
  id : Nat
  commandId : CommandId
  deriving DecidableEq, Repr

/-- The ledger and the process: the executions, the registered tokens of running turns, the tokens
that are cancelled and the stops in progress. -/
structure Runtime (V : Type) where
  ledger : Ledger V
  executions : List Execution
  tokens : CommandId → Option Nat
  cancelled : List Nat
  nextToken : Nat
  stopping : List StopHandler
  nextStop : Nat

namespace Runtime

/-- A process that was just started over a ledger. -/
def boot (ledger : Ledger V) (nextStop : Nat) : Runtime V where
  ledger := ledger
  executions := []
  tokens := fun _ => none
  cancelled := []
  nextToken := 0
  stopping := []
  nextStop := nextStop

section

variable (s : Runtime V)

/-- The tasks that have an execution. -/
def runningTasks : List TaskId := s.executions.map Execution.taskId

/-- The step that leads to a new ledger, or nothing when the ledger refused. -/
def commit (written : Except NodeStoreError (Ledger V)) : Runtime V :=
  match written with
  | .ok ledger => { s with ledger }
  | .error _ => s

/-- Spawns an execution for the record when its task has none. -/
def spawn (record : ExecutionRecord) : Runtime V :=
  if record.taskId ∈ s.runningTasks then s
  else { s with executions := s.executions ++ [⟨record.taskId, record.commandId, .spawned⟩] }

/-- Spawns the unfinished records in admission order. A record that was read here cannot end
before its execution is spawned: only executions end records, and a task with an execution is
passed over. -/
def schedulePending : Runtime V := s.ledger.loadUnfinished.foldl spawn s

/-- Rewriting the phase of one execution. -/
def setPhase (i : Nat) (phase : ExecutionPhase) : Runtime V :=
  { s with executions := s.executions.modify i fun execution => { execution with phase } }

/-- Registers a new token for the execution. -/
def register (i : Nat) : Runtime V :=
  match s.executions[i]? with
  | some ⟨_, commandId, .spawned⟩ =>
    { s.setPhase i (.registered s.nextToken) with
      tokens := Function.update s.tokens commandId (some s.nextToken)
      nextToken := s.nextToken + 1 }
  | _ => s

/-- Reads whether a stop is recorded for the command. -/
def readStop (i : Nat) : Runtime V :=
  match s.executions[i]? with
  | some ⟨_, commandId, .registered token⟩ =>
    s.setPhase i (.read token (s.ledger.stopRequested commandId))
  | _ => s

/-- Cancels the token when a stop was recorded; the command starts. -/
def start (i : Nat) : Runtime V :=
  match s.executions[i]? with
  | some ⟨_, _, .read token stopRequested⟩ =>
    { s.setPhase i (.started token) with
      cancelled := if stopRequested then token :: s.cancelled else s.cancelled }
  | _ => s

/-- What an execution that has started writes to the ledger. -/
def write (i : Nat) (operation : Ledger V → CommandId → Except NodeStoreError (Ledger V)) :
    Runtime V :=
  match s.executions[i]? with
  | some ⟨_, commandId, .started _⟩ => s.commit (operation s.ledger commandId)
  | _ => s

/-- The execution returns, which drops its registration. -/
def leave (i : Nat) : Runtime V :=
  match s.executions[i]? with
  | some ⟨_, commandId, phase⟩ =>
    if phase.token?.isSome then
      { s.setPhase i .returned with tokens := Function.update s.tokens commandId none }
    else s
  | none => s

/-- The session loop joins an execution that returned. -/
def finishExecution (i : Nat) : Runtime V :=
  match s.executions[i]? with
  | some ⟨_, _, .returned⟩ => { s with executions := s.executions.eraseIdx i }
  | _ => s

/-- A stop is recorded; one that found the command ended has nothing more to do. -/
def recordStop (s : Runtime V) (taskId : TaskId) (commandId : CommandId) : Runtime V :=
  let next := { s with nextStop := s.nextStop + 1 }
  match s.ledger.recordStop taskId commandId with
  | .ok (.recorded, ledger) =>
    { next with ledger, stopping := s.stopping ++ [⟨s.nextStop, commandId⟩] }
  | .ok (.alreadyEnded, ledger) => { next with ledger }
  | .error _ => next

/-- A stop cancels the registered token of its command, which ends its handler. -/
def cancel (i : Nat) : Runtime V :=
  match s.stopping[i]? with
  | some handler =>
    { s with
      cancelled := match s.tokens handler.commandId with
        | some token => token :: s.cancelled
        | none => s.cancelled
      stopping := s.stopping.eraseIdx i }
  | none => s

end

end Runtime

/-- The kinds a turn ends with: its reports, then its one terminal event. -/
def closingKinds (reports : List { kind : ExecutionEventKind V // isReport kind = true })
    (terminal : ExecutionTerminal) : List (ExecutionEventKind V) :=
  reports.map Subtype.val ++ [.executionTerminated terminal]

/-- One step of the process. -/
inductive Runtime.Input (V : Type) where
  | execute (drawn : Drawn) (taskId : TaskId) (command : CommandEnvelope) (binding : TargetBinding)
  | requireAdmissionAck (commandId : CommandId)
  | acknowledgeAdmission (commandId : CommandId)
  | eventsAccepted (commandId : CommandId) (throughSequence : Nat)
  | schedulePending
  | register (i : Nat)
  | readStop (i : Nat)
  | start (i : Nat)
  | turnStarted (i : Nat) (drawn : Drawn)
  | progress (i : Nat) (drawn : Drawn) (kind : ExecutionEventKind V)
  | finish (i : Nat) (drawn : Nat → Drawn)
      (reports : List { kind : ExecutionEventKind V // isReport kind = true })
      (terminal : ExecutionTerminal)
  | leave (i : Nat)
  | finishExecution (i : Nat)
  | stop (taskId : TaskId) (commandId : CommandId)
  | cancel (i : Nat)
  | crash

namespace Runtime

def step (s : Runtime V) : Input V → Runtime V
  | .execute drawn taskId command binding =>
    s.commit (Prod.snd <$> s.ledger.admitCommand drawn taskId command binding)
  | .requireAdmissionAck commandId => s.commit (s.ledger.requireAdmissionAck commandId)
  | .acknowledgeAdmission commandId => s.commit (s.ledger.acknowledgeAdmission commandId)
  | .eventsAccepted commandId through => s.commit (s.ledger.advancePublication commandId through)
  | .schedulePending => s.schedulePending
  | .register i => s.register i
  | .readStop i => s.readStop i
  | .start i => s.start i
  | .turnStarted i drawn => s.write i fun l commandId => l.appendTurnStarted drawn commandId
  | .progress i drawn kind =>
    s.write i fun l commandId => Prod.snd <$> l.appendProgress drawn commandId kind
  | .finish i drawn reports terminal =>
    s.write i fun l commandId => l.finish drawn commandId (closingKinds reports terminal)
  | .leave i => s.leave i
  | .finishExecution i => s.finishExecution i
  | .stop taskId commandId => s.recordStop taskId commandId
  | .cancel i => s.cancel i
  -- The ledger is all that is left; the next process starts over it.
  | .crash => boot s.ledger s.nextStop

def run (s : Runtime V) (inputs : List (Input V)) : Runtime V := inputs.foldl step s

end Runtime

/-! ## One execution for a command -/

/-- The token of an execution that has read the ledger and is not about to cancel it. -/
def ExecutionPhase.checked? : ExecutionPhase → Option Nat
  | .read token false | .started token => some token
  | _ => none

/-- What holds between any two steps: a task has one execution at most, an execution belongs to an
admitted command, and its token is the registered one. -/
structure Runtime.Inv (s : Runtime V) : Prop where
  ledger : s.ledger.Consistent
  tasks : s.runningTasks.Nodup
  row : ∀ e ∈ s.executions, ∃ row ∈ s.ledger.executions,
    row.commandId = e.commandId ∧ row.taskId = e.taskId
  token : ∀ e ∈ s.executions, ∀ t, e.phase.token? = some t → s.tokens e.commandId = some t

variable {s s' : Runtime V}

theorem Runtime.inv_boot (hc : ledger.Consistent) (nextStop : Nat) :
    (boot ledger nextStop).Inv where
  ledger := hc
  tasks := nodup_nil
  row _ he := absurd he not_mem_nil
  token _ he := absurd he not_mem_nil

/-- Executions of different tasks are of different commands. -/
theorem Runtime.Inv.command_ne (h : s.Inv) {e' : Execution} (he : e ∈ s.executions)
    (he' : e' ∈ s.executions) (hne : e'.taskId ≠ e.taskId) : e'.commandId ≠ e.commandId := by
  intro heq
  obtain ⟨row, hrow, hid, htask⟩ := h.row e he
  obtain ⟨row', hrow', hid', htask'⟩ := h.row e' he'
  have hsame := Table.key_inj hrow' hrow (hid'.trans (heq.trans hid.symm))
  exact hne (by rw [← htask, ← htask', hsame])

/-! ## What a step does to the process -/

/-- The phase of one execution changed; tokens of other commands stayed, and none was revived. -/
structure PhaseChange (s s' : Runtime V) (e : Execution) (phase : ExecutionPhase) : Prop where
  mem : e ∈ s.executions
  executions : ∀ e' ∈ s'.executions,
    e' = { e with phase } ∨ (e' ∈ s.executions ∧ e'.taskId ≠ e.taskId)
  tasks : s'.runningTasks = s.runningTasks
  ledger : s'.ledger = s.ledger
  stopping : s'.stopping = s.stopping
  tokens : ∀ commandId, commandId ≠ e.commandId → s'.tokens commandId = s.tokens commandId
  token : ∀ t, phase.token? = some t → s'.tokens e.commandId = some t
  cancelled : ∀ t ∈ s.cancelled, t ∈ s'.cancelled

theorem PhaseChange.inv (h : PhaseChange s s' e phase) (hs : s.Inv) : s'.Inv where
  ledger := by
    rw [h.ledger]
    exact hs.ledger
  tasks := by
    rw [h.tasks]
    exact hs.tasks
  row e' he' := by
    rw [h.ledger]
    rcases h.executions e' he' with rfl | ⟨hmem, _⟩
    · exact hs.row e h.mem
    · exact hs.row e' hmem
  token e' he' t ht := by
    rcases h.executions e' he' with rfl | ⟨hmem, hne⟩
    · exact h.token t ht
    · rw [h.tokens _ (hs.command_ne h.mem hmem hne)]
      exact hs.token e' hmem t ht

theorem Runtime.runningTasks_setPhase (s : Runtime V) (i : Nat) (phase : ExecutionPhase) :
    (s.setPhase i phase).runningTasks = s.runningTasks := by
  unfold runningTasks setPhase
  apply ext_getElem?
  intro j
  simp only [getElem?_map, getElem?_modify]
  cases s.executions[j]? with
  | none => rfl
  | some e => by_cases hij : i = j <;> simp [hij]

/-- The executions after the phase of one was set. -/
theorem Runtime.Inv.mem_setPhase (h : s.Inv) {i : Nat} (he : s.executions[i]? = some e) :
    ∀ e' ∈ (s.setPhase i phase).executions,
      e' = { e with phase } ∨ (e' ∈ s.executions ∧ e'.taskId ≠ e.taskId) :=
  fun _ he' => mem_modify_of_nodup h.tasks he he'

/-! ## A recorded stop -/

/-- The stop is in the ledger, and its handler is about to cancel the command, or every execution
of the command that has read the ledger is cancelled. -/
structure StopHolds (s : Runtime V) (id : Nat) (commandId : CommandId) : Prop where
  row : ∃ stop ∈ s.ledger.stops, stop.commandId = commandId
  effect : (∃ handler ∈ s.stopping, handler.id = id ∧ handler.commandId = commandId) ∨
    ∀ e ∈ s.executions, e.commandId = commandId → ∀ t, e.phase.checked? = some t → t ∈ s.cancelled

/-- The process keeps its invariant, and the recorded stops keep theirs. -/
structure Keeps (s s' : Runtime V) : Prop where
  inv : s'.Inv
  stop : ∀ id commandId, StopHolds s id commandId → StopHolds s' id commandId

/-- A step that spawns nothing: its executions were there, and the ledger was extended. -/
structure Kept (s s' : Runtime V) : Prop extends Keeps s s' where
  ledger : s.ledger.Extends s'.ledger
  executions : ∀ e' ∈ s'.executions, ∃ e ∈ s.executions, e.commandId = e'.commandId

theorem Runtime.Inv.keeps_refl (h : s.Inv) : Keeps s s := ⟨h, fun _ _ hstop => hstop⟩

theorem Runtime.Inv.extends_refl (h : s.Inv) : s.ledger.Extends s.ledger :=
  h.ledger.steps_refl.extends_of_eq rfl

theorem Runtime.Inv.kept_refl (h : s.Inv) : Kept s s :=
  ⟨h.keeps_refl, h.extends_refl, fun e he => ⟨e, he, rfl⟩⟩

theorem PhaseChange.kept (h : PhaseChange s s' e phase) (hs : s.Inv)
    (hchecked : ∀ t, phase.checked? = some t → (∃ stop ∈ s.ledger.stops, stop.commandId =
      e.commandId) → e.phase.checked? = some t ∨ t ∈ s'.cancelled) : Kept s s' where
  inv := h.inv hs
  ledger := h.ledger ▸ hs.extends_refl
  executions e' he' := by
    rcases h.executions e' he' with rfl | ⟨hmem, _⟩
    · exact ⟨e, h.mem, rfl⟩
    · exact ⟨e', hmem, rfl⟩
  stop id cid hstop := by
    refine ⟨by rw [h.ledger]; exact hstop.row, ?_⟩
    rw [h.stopping]
    refine hstop.effect.imp_right fun hall e' he' hid t ht => ?_
    rcases h.executions e' he' with rfl | ⟨hmem, _⟩
    · rcases hchecked t ht (by rw [hid]; exact hstop.row) with hold | hcanc
      · exact h.cancelled t (hall e h.mem hid t hold)
      · exact hcanc
    · exact h.cancelled t (hall e' hmem hid t ht)

section

variable (h : s.Inv)

include h

theorem Runtime.Inv.kept_register (i : Nat) : Kept s (s.register i) := by
  unfold register
  split
  · rename_i tid cid he
    refine PhaseChange.kept (e := ⟨tid, cid, .spawned⟩) ⟨mem_of_getElem? he, h.mem_setPhase he,
      s.runningTasks_setPhase i _, rfl, rfl, fun c hc => update_of_ne hc _ _, fun t ht => ?_,
      fun t ht => ht⟩ h fun t ht => by cases ht
    cases ht
    exact update_self _ _ _
  · exact h.kept_refl

theorem Runtime.Inv.kept_readStop (i : Nat) : Kept s (s.readStop i) := by
  unfold readStop
  split
  · rename_i tid cid token he
    have hmem := mem_of_getElem? he
    refine PhaseChange.kept (e := ⟨tid, cid, .registered token⟩) ⟨hmem, h.mem_setPhase he,
      s.runningTasks_setPhase i _, rfl, rfl, fun _ _ => rfl, fun t ht => ?_, fun t ht => ht⟩ h ?_
    · cases ht
      exact h.token _ hmem token rfl
    · -- A stop that is recorded is read, so the execution is about to cancel itself.
      rintro t ht ⟨stop, hmem, (hid : _ = cid)⟩
      have hread : s.ledger.stopRequested cid = true := by
        rw [Ledger.stopRequested, ← hid, Table.find?_of_mem hmem]
        rfl
      rw [hread] at ht
      cases ht
  · exact h.kept_refl

theorem Runtime.Inv.kept_start (i : Nat) : Kept s (s.start i) := by
  unfold start
  split
  · rename_i tid cid token stopRequested he
    have hmem := mem_of_getElem? he
    refine PhaseChange.kept (e := ⟨tid, cid, .read token stopRequested⟩) ⟨hmem, h.mem_setPhase he,
      s.runningTasks_setPhase i _, rfl, rfl, fun _ _ => rfl, fun t ht => ?_, fun t ht => ?_⟩ h
      fun t ht _ => ?_
    · cases ht
      exact h.token _ hmem token rfl
    · split
      · exact mem_cons_of_mem _ ht
      · exact ht
    · cases ht
      cases stopRequested with
      | false => exact .inl rfl
      | true => exact .inr mem_cons_self
  · exact h.kept_refl

theorem Runtime.Inv.kept_leave (i : Nat) : Kept s (s.leave i) := by
  unfold leave
  split
  · rename_i tid cid phase he
    split
    · exact PhaseChange.kept (e := ⟨tid, cid, phase⟩) ⟨mem_of_getElem? he, h.mem_setPhase he,
        s.runningTasks_setPhase i _, rfl, rfl, fun c hc => update_of_ne hc _ _,
        fun t ht => (by cases ht), fun t ht => ht⟩ h fun t ht => by cases ht
    · exact h.kept_refl
  · exact h.kept_refl

/-- A write to the ledger that loses nothing. -/
theorem Runtime.Inv.kept_ledger (hsteps : s.ledger.Extends ledger) : Kept s { s with ledger } where
  ledger := hsteps
  executions e he := ⟨e, he, rfl⟩
  inv :=
    { ledger := hsteps.consistent
      tasks := h.tasks
      row := fun e he => by
        obtain ⟨row, hrow, hid, htask⟩ := h.row e he
        obtain ⟨row', hrow', hsame, _⟩ := hsteps.grows.executions row hrow
        exact ⟨row', hrow', hsame.commandId.trans hid, hsame.taskId.trans htask⟩
      token := h.token }
  stop id cid hstop := by
    obtain ⟨stop, hmem, hid⟩ := hstop.row
    exact ⟨⟨stop, hsteps.grows.stops stop hmem, hid⟩, hstop.effect⟩

theorem Runtime.Inv.kept_commit {written : Except NodeStoreError (Ledger V)}
    (hwritten : ∀ ledger, written = .ok ledger → s.ledger.Extends ledger) :
    Kept s (s.commit written) := by
  cases hres : written with
  | ok ledger => exact h.kept_ledger (hwritten ledger hres)
  | error _ => exact h.kept_refl

theorem Runtime.Inv.kept_write (i : Nat)
    {op : Ledger V → CommandId → Except NodeStoreError (Ledger V)}
    (hop : ∀ cid ledger, op s.ledger cid = .ok ledger → s.ledger.Extends
      ledger) : Kept s (s.write i op) := by
  unfold write
  split
  · exact h.kept_commit (hop _)
  · exact h.kept_refl

/-- An execution that was just spawned has no token. -/
theorem Runtime.Inv.keeps_spawn {row : ExecutionRow} (hrow : row ∈ s.ledger.executions)
    (hfree : row.taskId ∉ s.runningTasks) :
    Keeps s { s with executions := s.executions ++ [⟨row.taskId, row.commandId, .spawned⟩] } where
  inv :=
    { ledger := h.ledger
      tasks := by
        unfold runningTasks
        rw [map_append, map_singleton]
        refine List.Nodup.append h.tasks (nodup_singleton _) fun tid hmem hnew => ?_
        cases mem_singleton.mp hnew
        exact hfree hmem
      row := fun e he => by
        rcases mem_append.mp he with he | he
        · exact h.row e he
        · rw [mem_singleton.mp he]
          exact ⟨row, hrow, rfl, rfl⟩
      token := fun e he t ht => by
        rcases mem_append.mp he with he | he
        · exact h.token e he t ht
        · rw [mem_singleton.mp he] at ht
          cases ht }
  stop id cid hstop := by
    refine ⟨hstop.row, hstop.effect.imp_right fun hall e he hid t ht => ?_⟩
    rcases mem_append.mp he with he | he
    · exact hall e he hid t ht
    · rw [mem_singleton.mp he] at ht
      cases ht

theorem Runtime.Inv.keeps_schedulePending : Keeps s s.schedulePending := by
  -- The ledger stays what it was when the records were read.
  refine (List.foldlRecOn (motive := fun s' => Keeps s s' ∧ s'.ledger = s.ledger) _ _
    ⟨h.keeps_refl, rfl⟩ ?_).1
  rintro s' ⟨hkp, hled⟩ record hrec
  unfold spawn
  split
  · exact ⟨hkp, hled⟩
  · rename_i hfree
    have hrow := (Ledger.mem_recordsWhere hrec).1
    rw [← hled] at hrow
    have hspawn := hkp.inv.keeps_spawn hrow hfree
    exact ⟨⟨hspawn.inv, fun id c hstop => hspawn.stop id c (hkp.stop id c hstop)⟩, hled⟩

theorem Runtime.Inv.kept_finishExecution (i : Nat) : Kept s (s.finishExecution i) := by
  unfold finishExecution
  split
  · have hsub : (s.executions.eraseIdx i).Sublist s.executions := eraseIdx_sublist _ _
    refine ⟨⟨⟨h.ledger, h.tasks.sublist (hsub.map _), fun e he => h.row e (hsub.subset he),
      fun e he => h.token e (hsub.subset he)⟩, fun id c hstop => ⟨hstop.row, ?_⟩⟩,
      h.extends_refl, fun e he => ⟨e, hsub.subset he, rfl⟩⟩
    exact hstop.effect.imp_right fun hall e he => hall e (hsub.subset he)
  · exact h.kept_refl

/-- The end of a stop's handler: a token of its command that is registered now is cancelled. -/
theorem Runtime.Inv.kept_cancel (i : Nat) : Kept s (s.cancel i) := by
  unfold cancel
  split
  · rename_i handler hhandler
    refine { h.kept_refl with inv := { h with }, stop := fun id c hstop => ⟨hstop.row, ?_⟩ }
    have hkept : ∀ t ∈ s.cancelled, t ∈ match s.tokens handler.commandId with
        | some token => token :: s.cancelled
        | none => s.cancelled := by
      intro t ht
      split
      · exact mem_cons_of_mem _ ht
      · exact ht
    by_cases hid : handler.commandId = c
    · refine .inr fun e he heid t ht => ?_
      have htoken : e.phase.token? = some t := by
        cases hph : e.phase with
        | spawned | returned | registered _ =>
          rw [hph] at ht
          cases ht
        | started token =>
          rw [hph] at ht
          exact ht
        | read token stopRequested =>
          rw [hph] at ht
          cases stopRequested with
          | false => exact ht
          | true => cases ht
      have hreg := h.token e he t htoken
      rw [heid, ← hid] at hreg
      simp only [hreg]
      exact mem_cons_self
    · rcases hstop.effect with ⟨other, hmem, hoth, hcmd⟩ | hall
      · refine .inl ⟨other, ?_, hoth, hcmd⟩
        obtain ⟨j, hj⟩ := mem_iff_getElem?.mp hmem
        have hij : j ≠ i := by
          rintro rfl
          cases hj.symm.trans hhandler
          exact hid hcmd
        exact mem_eraseIdx_iff_getElem?.mpr ⟨j, hij, hj⟩
      · exact .inr fun e he heid t ht => hkept t (hall e he heid t ht)
  · exact h.kept_refl

theorem Runtime.Inv.kept_recordStop (tid : TaskId) (cid : CommandId) :
    Kept s (s.recordStop tid cid) := by
  unfold recordStop
  cases hrec : s.ledger.recordStop tid cid with
  | error _ =>
    exact { h.kept_refl with inv := { h with }, stop := fun _ _ hstop => { hstop with } }
  | ok recorded =>
    obtain ⟨out, ledger⟩ := recorded
    have hkept := h.kept_ledger (Ledger.recordStop_extends h.ledger hrec)
    cases out with
    | alreadyEnded =>
      exact { hkept with
        inv := { hkept.inv with }
        stop := fun id c hstop => { hkept.stop id c hstop with } }
    | recorded =>
      refine { hkept with
        inv := { hkept.inv with }
        stop := fun id c hstop => ⟨(hkept.stop id c hstop).row, hstop.effect.imp_left ?_⟩ }
      rintro ⟨handler, hmem, hhandler⟩
      exact ⟨handler, mem_append_left _ hmem, hhandler⟩

/-- After the stop is recorded it is in the ledger and its handler is in progress. -/
theorem Runtime.Inv.recordStop_holds {tid : TaskId} {cid : CommandId}
    (hrec : s.ledger.recordStop tid cid = .ok (.recorded, ledger)) :
    StopHolds (s.recordStop tid cid) s.nextStop cid := by
  have hrow : ∃ stop ∈ ledger.stops, stop.commandId = cid := by
    cases Ledger.recordStop_ok h.ledger hrec with
    | kept _ hl => exact hl ▸ Ledger.exists_insertStop _
  unfold recordStop
  rw [hrec]
  exact ⟨hrow, .inl ⟨_, mem_append_right _ mem_cons_self, rfl, rfl⟩⟩

end

/-! ## Runs -/

theorem closingKinds_unstarted
    (reports : List { kind : ExecutionEventKind V // isReport kind = true })
    (terminal : ExecutionTerminal) :
    ∀ kind ∈ closingKinds reports terminal, kind.isStarted = false := by
  intro kind hkind
  rcases mem_append.mp hkind with hkind | hkind
  · obtain ⟨report, _, rfl⟩ := mem_map.mp hkind
    exact (isReport_spec report.property).1
  · rw [mem_singleton.mp hkind]
    rfl

theorem Runtime.Inv.step_kept (h : s.Inv) {input : Runtime.Input V}
    (hinp : input ≠ .schedulePending) : Kept s (s.step input) := by
  have hc := h.ledger
  cases input with
  | execute drawn tid cmd binding =>
    refine h.kept_commit fun ledger hok => ?_
    obtain ⟨⟨record, _⟩, hadmit, rfl⟩ := map_ok hok
    exact Ledger.admitCommand_extends hc hadmit
  | requireAdmissionAck cid | acknowledgeAdmission cid =>
    refine h.kept_commit fun ledger hok => ?_
    obtain ⟨row, _, hchg⟩ := Ledger.setAdmissionAck_ok hok
    exact hchg.extends (hchg.steps_of_nil rfl hc)
  | eventsAccepted cid thru =>
    refine h.kept_commit fun ledger hok => ?_
    obtain ⟨row, _, hchg⟩ := Ledger.advancePublication_ok hok
    exact hchg.extends (hchg.steps_of_nil rfl hc)
  | schedulePending => exact absurd rfl hinp
  | register i => exact h.kept_register i
  | readStop i => exact h.kept_readStop i
  | start i => exact h.kept_start i
  | turnStarted i drawn =>
    show Kept s (s.write i fun l cid => l.appendTurnStarted drawn cid)
    refine h.kept_write i fun cid ledger hok => ?_
    obtain ⟨row, kinds, _, _, hcont⟩ := Ledger.appendTurnStarted_ok hc hok
    exact hcont.change.extends (hcont.steps hc)
  | progress i drawn kind =>
    show Kept s (s.write i fun l cid => Prod.snd <$> l.appendProgress drawn cid kind)
    refine h.kept_write i fun cid ledger hok => ?_
    obtain ⟨⟨recorded, _⟩, happ, rfl⟩ := map_ok hok
    obtain ⟨row, _, hcont⟩ := Ledger.appendProgress_ok hc happ
    exact hcont.change.extends (hcont.steps hc)
  | finish i drawn reports terminal =>
    show Kept s (s.write i fun l cid => l.finish drawn cid (closingKinds reports terminal))
    refine h.kept_write i fun cid ledger hok => ?_
    obtain ⟨row, _, hcont⟩ := Ledger.finish_ok hc (closingKinds_unstarted reports terminal) hok
    exact hcont.change.extends (hcont.steps hc)
  | leave i => exact h.kept_leave i
  | finishExecution i => exact h.kept_finishExecution i
  | stop tid cid => exact h.kept_recordStop tid cid
  | cancel i => exact h.kept_cancel i
  | crash =>
    exact ⟨⟨inv_boot hc _, fun _ _ hstop =>
      ⟨hstop.row, .inr fun _ he => absurd he not_mem_nil⟩⟩, h.extends_refl,
      fun _ he => absurd he not_mem_nil⟩

theorem Runtime.Inv.step_keeps (h : s.Inv) (input : Runtime.Input V) : Keeps s (s.step input) := by
  by_cases hinp : input = .schedulePending
  · subst hinp
    exact h.keeps_schedulePending
  · exact (h.step_kept hinp).toKeeps

theorem Runtime.Inv.run_keeps (h : s.Inv) (inputs : List (Runtime.Input V)) :
    Keeps s (s.run inputs) := by
  induction inputs generalizing s with
  | nil => exact h.keeps_refl
  | cons input rest ih =>
    have hstep := h.step_keeps input
    have hrest := ih hstep.inv
    exact ⟨hrest.inv, fun id c hstop => hrest.stop id c (hstep.stop id c hstop)⟩

/-- The state a node reaches from its first start. -/
def Runtime.reached (inputs : List (Runtime.Input V)) : Runtime V := (boot .empty 0).run inputs

theorem Runtime.inv_reached (inputs : List (Runtime.Input V)) : (reached inputs).Inv :=
  ((inv_boot Ledger.consistent_empty 0).run_keeps inputs).inv

/-- **A recorded stop takes effect.** A stop finds its command ended only when a terminal event is
in the ledger. Otherwise it is recorded, and whatever happens next, crashes included, once its
handler is no longer in progress every execution of the command that has started is cancelled. -/
theorem recorded_stop_takes_effect (before after : List (Runtime.Input V)) (taskId : TaskId)
    (commandId : CommandId) (outcome : StopRecord) (ledger : Ledger V)
    (hstop : (Runtime.reached before).ledger.recordStop taskId commandId =
      .ok (outcome, ledger)) :
    (outcome = .alreadyEnded →
      ∃ e ∈ (Runtime.reached before).ledger.eventsOf commandId, e.isTerminal = true) ∧
    ((∀ e ∈ (Runtime.reached before).ledger.eventsOf commandId, e.isTerminal = false) →
      outcome = .recorded ∧
      ((∀ handler ∈ (Runtime.reached (before ++ .stop taskId commandId :: after)).stopping,
          handler.id ≠ (Runtime.reached before).nextStop) →
        ∀ e ∈ (Runtime.reached (before ++ .stop taskId commandId :: after)).executions,
          e.commandId = commandId → ∀ token, e.phase = .started token →
            token ∈ (Runtime.reached (before ++ .stop taskId commandId :: after)).cancelled)) := by
  have hinv := Runtime.inv_reached before
  have hended : outcome = .alreadyEnded →
      ∃ e ∈ (Runtime.reached before).ledger.eventsOf commandId, e.isTerminal = true := by
    rintro rfl
    cases Ledger.recordStop_ok hinv.ledger hstop with
    | ended _ hmem hid hterminal => exact hid ▸ (hinv.ledger.terminal_iff hmem).mp hterminal
  refine ⟨hended, fun hopen => ?_⟩
  have houtcome : outcome = .recorded := by
    cases outcome with
    | recorded => rfl
    | alreadyEnded =>
      obtain ⟨e, he, hterminal⟩ := hended rfl
      rw [hopen e he] at hterminal
      cases hterminal
  refine ⟨houtcome, fun hanswered e he hid token hphase => ?_⟩
  subst houtcome
  have hrun : Runtime.reached (before ++ .stop taskId commandId :: after) =
      ((Runtime.reached before).recordStop taskId commandId).run after := by
    unfold Runtime.reached Runtime.run
    rw [foldl_append, foldl_cons]
    rfl
  rw [hrun] at hanswered he ⊢
  have hholds := ((hinv.kept_recordStop taskId commandId).inv.run_keeps after).stop _ _
    (hinv.recordStop_holds hstop)
  rcases hholds.effect with ⟨handler, hmem, hhandler, _⟩ | hall
  · exact absurd hhandler (hanswered handler hmem)
  · refine hall e he hid token ?_
    rw [hphase]
    rfl

/-- A command that is admitted, scheduled and has read that no stop is recorded. -/
def raced : List (Runtime.Input Unit) :=
  [.execute ⟨⟨7⟩, 0⟩ ⟨1⟩ ⟨⟨2⟩, ⟨3⟩, ⟨"phone"⟩, ⟨"agent:4"⟩, .fromText "Go.", none⟩
      ⟨"agent:4", 4, 5, "/agents/4"⟩,
    .schedulePending, .register 0, .readStop 0]

/-- The stop is recorded after the execution read the ledger, and cancels it through its token. -/
theorem recorded_stop_takes_effect_raced :
    0 ∈ (Runtime.reached (raced ++ .stop ⟨1⟩ ⟨2⟩ :: [.start 0, .cancel 0])).cancelled :=
  ((recorded_stop_takes_effect raced [.start 0, .cancel 0] ⟨1⟩ ⟨2⟩ .recorded
    ((Runtime.reached raced).ledger.insertStop ⟨⟨2⟩, ⟨1⟩⟩) rfl).2 (by decide)).2 (by decide)
    ⟨⟨1⟩, ⟨2⟩, .started 0⟩ (by decide) rfl 0 rfl

end Renoa.Node
