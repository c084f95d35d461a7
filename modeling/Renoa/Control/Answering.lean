import Renoa.Control.ExecutionStreams

/-!
# An agent's request is answered once

The batch that ends the execution of an agent's request admits the answer in the same transaction:
one command, with the identity derived from the request, in the task that holds the asking command
if there is one (`request_answered`). No other batch admits an answer, so while the task of the
request stands its runs answer it once (`answers_eq`).
-/

namespace Renoa.Control

open Foundation Protocol List Database Function

variable {V : Type} {db db' : Database V} {cid : CommandId} {asking row : CommandRow}
  {reply : AgentReply V} {later : List (Transaction V)} {admission : ExecutionEventAdmission V}
  {events : List (ExecutionEvent V)}

/-- The stored command that asked for an answer to this one, if this one is an agent's request. -/
def Database.askingOf? (db : Database V) (commandId : CommandId) : Option CommandRow := do
  let row ← db.commands.find? commandId
  let origin ← row.command.request?
  db.commands.find? origin.fromCommand

theorem Database.askingOf?_mem (h : db.askingOf? cid = some asking) : asking ∈ db.commands := by
  obtain ⟨row, _, h⟩ := Option.bind_eq_some_iff.mp h
  obtain ⟨origin, _, h⟩ := Option.bind_eq_some_iff.mp h
  exact Table.mem_of_find? h

/-! ## The batch that ends an execution -/

theorem TaskEventRow.event_terminal? {r : TaskEventRow V} {e : ExecutionEvent V}
    (hkind : r.kind = .executionEvent cid e) : r.event.terminal? = e.kind.terminal? := by
  simp [TaskEvent.terminal?, TaskEventRow.event, hkind]

namespace JournalledBatch

variable {tid : TaskId} {cid : CommandId} {evs : List (ExecutionEvent V)}
  {adm : ExecutionEventAdmission V}

/-- The batch appends the end of the execution exactly when it settles the command. -/
theorem terminal_iff (hc : Consistent db) (h : JournalledBatch db db' tid cid evs adm) :
    (adm.events.findSome? TaskEvent.terminal?).isSome = true ↔
      db.settled cid = false ∧ db'.settled cid = true := by
  obtain ⟨rows, hrows, hevs, hkinds⟩ := h.rows
  have hjnl : db'.journalOf cid =
      db.journalOf cid ++ rows.filterMap fun r => r.kind.eventOf? cid := by
    rw [journalOf_eq, journalOf_eq, hrows, filterMap_append]
  rw [hevs, findSome?_map, isSome_findSome?, any_eq_true, ← Bool.not_eq_true,
    hc.settled_iff, h.consistent.settled_iff]
  constructor
  · rintro ⟨r, hr, hterm⟩
    obtain ⟨_, e, hkind⟩ := hkinds r hr
    rw [comp_apply, TaskEventRow.event_terminal? hkind] at hterm
    have hnew : e ∈ rows.filterMap fun r => r.kind.eventOf? cid :=
      mem_filterMap.mpr ⟨r, hr, TaskEventKind.eventOf?_eq_some.mpr hkind⟩
    refine ⟨?_, e, ?_, hterm⟩
    · -- An ending that was journalled before would not be the last event any more.
      rintro ⟨old, hold, hend⟩
      have hlast : old ∈ (db'.journalOf cid).dropLast := by
        rw [hjnl, dropLast_append_of_ne_nil (ne_nil_of_mem hnew)]
        exact mem_append_left _ hold
      rw [(h.consistent.holdsExecution cid).ended old hlast] at hend
      cases hend
    · rw [hjnl]
      exact mem_append_right _ hnew
  · rintro ⟨hopen, e, he, hend⟩
    rw [hjnl] at he
    rcases mem_append.mp he with hold | hnew
    · exact absurd ⟨e, hold, hend⟩ hopen
    · obtain ⟨r, hr, hev⟩ := mem_filterMap.mp hnew
      refine ⟨r, hr, ?_⟩
      rw [comp_apply, TaskEventRow.event_terminal? (TaskEventKind.eventOf?_eq_some.mp hev)]
      exact hend

theorem commands_eq (h : JournalledBatch db db' tid cid evs adm) :
    db'.commands = db.commands := congrArg (·.commands) h.rest

end JournalledBatch

/-! ## What a batch answers -/

/-- The step to `db'` ends the execution of the command. -/
def Settles (db db' : Database V) (commandId : CommandId) : Prop :=
  db.settled commandId = false ∧ db'.settled commandId = true

/-- A batch that settles the command holds the end of its execution. -/
theorem JournalledBatch.terminal_mem {mid : Database V} {tid : TaskId}
    (h : JournalledBatch db mid tid cid events admission) (hc : Consistent db)
    (hends : Settles db mid cid) : ∃ e ∈ events, e.isTerminal = true := by
  obtain ⟨hopen, hdone⟩ := hends
  obtain ⟨e, he, hend⟩ := (h.consistent.settled_iff cid).mp hdone
  obtain ⟨r, hr, hkind⟩ := mem_journalOf.mp he
  rcases h.new r hr with hold | ⟨e', he', hkind'⟩
  · have hbef := (hc.settled_iff cid).mpr ⟨e, mem_journalOf.mpr ⟨r, hold, hkind⟩, hend⟩
    rw [hopen] at hbef
    cases hbef
  · rw [hkind] at hkind'
    cases hkind'
    exact ⟨e, he', hend⟩

/-- The answer to a request is one new command, in the task of the asking command. -/
structure Answer (ids : DerivedIds) (db db' : Database V) (commandId : CommandId)
    (asking : CommandRow) (reply : AgentReply V) : Prop where
  task : reply.taskId = asking.taskId
  identity : reply.command.commandId = ids.replyId commandId
  request : ∃ origin, reply.command.origin = some origin ∧ origin.fromCommand = commandId
  fresh : ∀ q ∈ db.commands, q.commandId ≠ ids.replyId commandId
  commands : db'.commands.rows =
    db.commands.rows ++ [⟨ids.replyId commandId, asking.taskId, reply.command⟩]

/-- An answer is admitted exactly when the execution of a request ends whose asking command is
still stored. -/
inductive Answered (ids : DerivedIds) (db db' : Database V) (commandId : CommandId) :
    Option (AgentReply V) → Prop
  | silent (hnone : Settles db db' commandId → db.askingOf? commandId = none)
      (hcommands : db'.commands = db.commands) : Answered ids db db' commandId none
  | answered {asking : CommandRow} {reply : AgentReply V} (hsettles : Settles db db' commandId)
      (hasking : db.askingOf? commandId = some asking)
      (h : Answer ids db db' commandId asking reply) : Answered ids db db' commandId (some reply)

theorem Database.settled_congr (h : db'.executionEventStreams = db.executionEventStreams)
    (cid : CommandId) : db'.settled cid = db.settled cid := by
  unfold settled
  rw [h]

theorem Database.askingOf?_congr (h : db'.commands = db.commands) (cid : CommandId) :
    db'.askingOf? cid = db.askingOf? cid := by
  unfold askingOf?
  rw [h]

/-- **A request is answered** by the batch that ends it, and by no other. -/
theorem Database.appendExecutionEvents_answered [JsonText V] (hc : Consistent db)
    {ids : DerivedIds} {newId : Nat → TaskEventId} {rid : TaskEventId} {tid : TaskId}
    {replier : String} (h : db.appendExecutionEvents ids newId rid tid cid events
      replier = .ok (admission, db')) : Answered ids db db' cid admission.reply := by
  obtain ⟨mid, hbat, hrep⟩ := appendExecutionEvents_ok hc h
  have hterm := hbat.terminal_iff hc
  have hasked := askingOf?_congr hbat.commands_eq cid
  generalize admission.reply = reply at hrep ⊢
  cases hrep with
  | unended hnone hdb =>
    subst hdb
    refine .silent (fun hends => ?_) hbat.commands_eq
    have hsome := hterm.mpr hends
    rw [hnone] at hsome
    cases hsome
  | unasked row hrow hask hdb =>
    subst hdb
    refine .silent (fun _ => ?_) hbat.commands_eq
    rw [← hasked]
    unfold askingOf?
    rw [hrow]
    cases hreq : row.command.request? with
    | none => simp [hreq]
    | some origin => simp [hreq, hask origin hreq]
  | @answered row asking origin terminal asker task record hend hrow hreq hask hasker htask
      hins =>
      have hends : Settles db mid cid := hterm.mp (by rw [hend]; rfl)
      refine @Answered.answered _ _ _ _ _ asking _ ⟨hends.1, ?_⟩ ?_
        ⟨rfl, rfl, ⟨_, rfl, rfl⟩, ?_, ?_⟩
      · rw [settled_congr hins.streams_eq]
        exact hends.2
      · rw [← hasked]
        simp [askingOf?, hrow, hreq, hask]
      · rw [← hbat.commands_eq]
        exact hins.fresh
      · rw [← hbat.commands_eq]
        exact hins.commands

/-! ## Runs -/

section

variable [JsonText V]

/-- The answer the transaction admits. -/
def Transaction.reply? (ids : DerivedIds) (db : Database V) :
    Transaction V → Option (AgentReply V)
  | .appendExecutionEvents newId replyEventId taskId commandId events replier =>
    match db.appendExecutionEvents ids newId replyEventId taskId commandId events replier with
    | .ok (admission, _) => admission.reply
    | .error _ => none
  | _ => none

/-- The answer is one to the command. -/
def AgentReply.answers (reply : AgentReply V) (commandId : CommandId) : Bool :=
  reply.command.origin.any fun origin => origin.fromCommand = commandId

/-- The answers to a command that a run admits. -/
def Database.answersTo (ids : DerivedIds) (commandId : CommandId) (db : Database V) :
    List (Transaction V) → List (AgentReply V)
  | [] => []
  | transaction :: rest =>
    ((transaction.reply? ids db).filter fun reply => reply.answers commandId).toList ++
      (db.apply ids transaction).answersTo ids commandId rest

variable {ids : DerivedIds} {tx : Transaction V}

theorem Transaction.reply?_eq_some (hc : Consistent db) (h : tx.reply? ids db = some reply) :
    ∃ cid asking, Settles db (db.apply ids tx) cid ∧ db.askingOf? cid = some asking ∧
      Answer ids db (db.apply ids tx) cid asking reply := by
  cases tx with
  | appendExecutionEvents newId rid tid cid events replier =>
    cases hop : db.appendExecutionEvents ids newId rid tid cid events replier
    with
    | error e => simp [reply?, hop] at h
    | ok committed =>
      obtain ⟨admission, db'⟩ := committed
      have hans := appendExecutionEvents_answered hc hop
      have hrep : admission.reply = some reply := by simpa [reply?, hop] using h
      have hdb : db.apply ids (.appendExecutionEvents newId rid tid cid events replier) = db' := by
        simp [Database.apply, commit, hop]
      rw [hrep] at hans
      rw [hdb]
      cases hans with
      | answered hends hask hanswer => exact ⟨cid, _, hends, hask, hanswer⟩
  | _ => cases h

omit [JsonText V] in
/-- Only a batch for the command ends its execution. -/
theorem Committed.batch_of_settles (h : Committed ids db db' tx) (hends : Settles db db' cid) :
    ∃ newId rid tid events replier,
      tx = .appendExecutionEvents newId rid tid cid events replier := by
  obtain ⟨hopen, hdone⟩ := hends
  -- Every other step leaves the stream of the command as it was, or removes it.
  have hsame : db'.settled cid ≠ db.settled cid := by simp [hopen, hdone]
  cases h with
  | quiet hquiet => exact absurd (settled_congr hquiet.streams cid) hsame
  | opened task hopn => exact absurd (settled_congr hopn.streams_eq cid) hsame
  | submitted _ _ _ hadm | messaged _ _ _ hadm =>
    exact absurd (settled_congr hadm.streams_eq cid) hsame
  | @batch newId rid tid cause events replier admission mid hbat hrep =>
    by_cases heq : cause = cid
    · subst heq
      exact ⟨newId, rid, tid, events, replier, rfl⟩
    · refine absurd ?_ hsame
      rw [settled_congr hrep.streams_eq]
      obtain ⟨s, hfind, _⟩ := hbat.cursor
      simp [Database.settled, hfind, Ne.symm heq]
  | @deleted pid tid _ _ hdb =>
    apply absurd hdone
    rw [hdb, settled_removeTask]
    simp [hopen]

/-- The step that ends the execution of a request whose asking command is stored answers it. -/
theorem Transaction.exists_reply? (hc : Consistent db) (hends : Settles db (db.apply ids tx) cid)
    (hask : db.askingOf? cid = some asking) :
    ∃ reply, tx.reply? ids db = some reply ∧
      Answer ids db (db.apply ids tx) cid asking reply := by
  cases hcom : tx.commit ids db with
  | error e =>
    obtain ⟨hopen, hdone⟩ := hends
    simp [Database.apply, hcom, hopen] at hdone
  | ok db' =>
    have hdb : db.apply ids tx = db' := by simp [Database.apply, hcom]
    rw [hdb] at hends ⊢
    obtain ⟨newId, rid, tid, events, replier, rfl⟩ :=
      (tx.commit_committed hc hcom).batch_of_settles hends
    obtain ⟨⟨admission, _⟩, hop, rfl⟩ := map_ok hcom
    have hrep : Transaction.reply? ids db (.appendExecutionEvents newId rid tid
        cid events replier) = admission.reply := by
      simp [reply?, hop]
    have hans := appendExecutionEvents_answered hc hop
    rw [hrep]
    generalize admission.reply = reply at hans ⊢
    cases hans with
    | silent hnone _ =>
      rw [hnone hends] at hask
      cases hask
    | answered _ hsto hanswer =>
      rw [hask] at hsto
      cases hsto
      exact ⟨_, rfl, hanswer⟩

/-- What the step answers to a command, it answers by ending its execution. -/
theorem Transaction.reply?_filter (hc : Consistent db)
    (h : (tx.reply? ids db).filter (fun reply => reply.answers cid) = some reply) :
    Settles db (db.apply ids tx) cid ∧
      ∃ asking, db.askingOf? cid = some asking := by
  obtain ⟨hrep, hanswers⟩ := Option.filter_eq_some_iff.mp h
  obtain ⟨cause, asking, hends, hask, hans⟩ := reply?_eq_some hc hrep
  obtain ⟨origin, horig, hcau⟩ := hans.request
  have heq : origin.fromCommand = cid := by simpa [AgentReply.answers, horig] using hanswers
  obtain rfl : cause = cid := hcau.symm.trans heq
  exact ⟨hends, asking, hask⟩

omit [JsonText V] in
/-- While its task stands, an ended command stays ended. -/
theorem KeepsTask.settled (hkp : KeepsTask row.taskId db db') (hc : Consistent db)
    (hc' : Consistent db') (hrow : row ∈ db.commands) (hdone : db.settled row.commandId = true) :
    db'.settled row.commandId = true := by
  obtain ⟨e, he, hend⟩ := (hc.settled_iff _).mp hdone
  exact (hc'.settled_iff _).mpr ⟨e, hkp.mem_journalOf hc.journal hrow he, hend⟩

/-- A run over a standing command: the command, its consistency and its ending carry over. -/
theorem Database.apply_standing (ids : DerivedIds) (hc : Consistent db) (hrow : row ∈ db.commands)
    (hkept : ¬ tx.Deletes row.taskId) :
    row ∈ (db.apply ids tx).commands ∧ (db.settled row.commandId = true →
        (db.apply ids tx).settled row.commandId = true) := by
  have hsingle : ∀ t ∈ [tx], ¬ t.Deletes row.taskId := fun t ht => mem_singleton.mp ht ▸ hkept
  have hkp : KeepsTask row.taskId db (db.apply ids tx) := keepsTask_runAll hc hsingle
  exact ⟨hkp.command row hrow rfl, hkp.settled hc (consistent_apply ids hc tx) hrow⟩

/-- A run answers a command at most once, and then it ends the command. -/
theorem Database.answersTo_cases (ids : DerivedIds) (hc : Consistent db) (hrow : row ∈ db.commands)
    (hkept : ∀ t ∈ later, ¬ t.Deletes row.taskId) :
    db.answersTo ids row.commandId later = [] ∨
      (∃ reply, db.answersTo ids row.commandId later = [reply]) ∧
        Settles db (db.runAll ids later) row.commandId := by
  induction later generalizing db with
  | nil => exact .inl rfl
  | cons tx rest ih =>
    obtain ⟨hrow', hsettled'⟩ := apply_standing ids hc hrow (hkept tx mem_cons_self)
    have hc' := consistent_apply ids hc tx
    have hkept' : ∀ t ∈ rest, ¬ t.Deletes row.taskId := fun t ht => hkept t (mem_cons_of_mem _ ht)
    have hrest := ih hc' hrow' hkept'
    cases hrep : (tx.reply? ids db).filter fun reply => reply.answers row.commandId with
    | none =>
      have hsame : db.answersTo ids row.commandId (tx :: rest) =
          (db.apply ids tx).answersTo ids row.commandId rest := by
        simp [answersTo, hrep]
      rw [hsame]
      refine hrest.imp id fun ⟨hone, hopen, hend⟩ => ⟨hone, ?_, hend⟩
      exact Bool.eq_false_iff.mpr fun hdone => Bool.eq_false_iff.mp hopen (hsettled' hdone)
    | some reply =>
      -- The answer ended the command, for the rest of the run.
      obtain ⟨hopen, hdone⟩ := (Transaction.reply?_filter hc hrep).1
      rcases hrest with hnil | ⟨_, hopen', _⟩
      · refine .inr ⟨⟨reply, by simp [answersTo, hrep, hnil]⟩, hopen, ?_⟩
        exact (keepsTask_runAll hc' hkept').settled hc' (consistent_runAll ids hc' rest) hrow' hdone
      · cases hdone.symm.trans hopen'

theorem Database.answersTo_append (cid : CommandId) (first rest : List (Transaction V)) :
    db.answersTo ids cid (first ++ rest) =
      db.answersTo ids cid first ++ (db.runAll ids first).answersTo ids cid rest := by
  induction first generalizing db with
  | nil => rfl
  | cons tx first ih =>
    rw [cons_append, answersTo, answersTo, ih, append_assoc]
    rfl

/-- A run answers a command by what the step that ends its execution answers. -/
theorem Database.answersTo_settling {before after : List (Transaction V)} {step : Transaction V}
    (hc : Consistent db) (hrow : row ∈ db.commands)
    (hkept : ∀ t ∈ before ++ step :: after, ¬ t.Deletes row.taskId)
    (hends : Settles (db.runAll ids before) ((db.runAll ids before).apply ids step) row.commandId) :
    db.answersTo ids row.commandId (before ++ step :: after) =
      ((step.reply? ids (db.runAll ids before)).filter
        fun reply => reply.answers row.commandId).toList := by
  have hkeptBefore : ∀ t ∈ before, ¬ t.Deletes row.taskId :=
    fun t ht => hkept t (mem_append_left _ ht)
  have hkeptAfter : ∀ t ∈ step :: after, ¬ t.Deletes row.taskId :=
    fun t ht => hkept t (mem_append_right _ ht)
  have hcMid := consistent_runAll ids hc before
  have hrowMid : row ∈ (db.runAll ids before).commands :=
    (keepsTask_runAll hc hkeptBefore).command row hrow rfl
  obtain ⟨hrowStep, -⟩ := apply_standing ids hcMid hrowMid (hkeptAfter step mem_cons_self)
  have hbefore := (answersTo_cases ids hc hrow hkeptBefore).resolve_right fun h => by
    cases hends.1.symm.trans h.2.2
  have haft := (answersTo_cases ids (consistent_apply ids hcMid step) hrowStep
    fun t ht => hkeptAfter t (mem_cons_of_mem _ ht)).resolve_right fun h => by
    cases hends.2.symm.trans h.2.1
  rw [answersTo_append, hbefore, answersTo, haft]
  simp

omit [JsonText V] in
theorem Answer.answers (h : Answer ids db db' cid asking reply) : reply.answers cid = true := by
  obtain ⟨origin, horig, hcau⟩ := h.request
  simp [AgentReply.answers, horig, hcau]

/-- **Agents' requests are answered exactly once.** In every reached state an accepted batch admits
an answer exactly when it ends the execution of an agent's request whose asking command is stored.
The answer is one new command with the identity derived from the request, in the task of the asking
command, and that task stands. While the task of a command stands, a run answers it at most once:
not at all before it ends, and where it ends by what that step answers. -/
theorem agent_request_answered_once (ids : DerivedIds) (history : List (Transaction V)) :
    (∀ newId replyEventId taskId commandId events replier admission db',
      (Database.reached ids history).appendExecutionEvents ids newId replyEventId taskId commandId
        events replier = .ok (admission, db') →
      Answered ids (Database.reached ids history) db' commandId admission.reply) ∧
    (∀ commandId asking, (Database.reached ids history).askingOf? commandId = some asking →
      ∃ task ∈ (Database.reached ids history).tasks, task.taskId = asking.taskId) ∧
    (∀ row ∈ (Database.reached ids history).commands,
      ∀ later : List (Transaction V), (∀ t ∈ later, ¬ t.Deletes row.taskId) →
      ((Database.reached ids history).answersTo ids row.commandId later).length ≤ 1 ∧
      ((Database.reached ids (history ++ later)).settled row.commandId = false →
        (Database.reached ids history).answersTo ids row.commandId later = []) ∧
      ∀ before step after, later = before ++ step :: after →
        Settles (Database.reached ids (history ++ before))
          (Database.reached ids (history ++ before ++ [step])) row.commandId →
        match (Database.reached ids (history ++ before)).askingOf? row.commandId with
        | none => (Database.reached ids history).answersTo ids row.commandId later = []
        | some asking => ∃ reply,
            (Database.reached ids history).answersTo ids row.commandId later = [reply] ∧
            Answer ids (Database.reached ids (history ++ before))
              (Database.reached ids (history ++ before ++ [step])) row.commandId asking reply) := by
  have hc := consistent_reached ids history
  refine ⟨?_, ?_, ?_⟩
  · intro newId replyEventId taskId commandId events replier admission db' hok
    exact appendExecutionEvents_answered hc hok
  · intro commandId asking hasking
    exact hc.journal.command_task asking (askingOf?_mem hasking)
  · intro row hrow later hkept
    have hcases := answersTo_cases ids hc hrow hkept
    refine ⟨?_, ?_, ?_⟩
    · rcases hcases with h | ⟨⟨_, h⟩, _⟩ <;> simp [h]
    · rw [reached_append]
      intro hopen
      exact hcases.resolve_right fun h => by cases hopen.symm.trans h.2.2
    · rintro before step after rfl hsettles
      rw [reached_append, reached_append, reached_append] at *
      have hstep : Settles ((Database.reached ids history).runAll ids before)
          (((Database.reached ids history).runAll ids before).apply ids step) row.commandId :=
        hsettles
      have hcMid := consistent_runAll ids hc before
      rw [answersTo_settling hc hrow hkept hstep]
      cases hasking :
          ((Database.reached ids history).runAll ids before).askingOf? row.commandId with
      | none =>
        cases hreply : (step.reply? ids ((Database.reached ids history).runAll ids before)).filter
            fun reply => reply.answers row.commandId with
        | none => rfl
        | some reply =>
          obtain ⟨_, asking, hsome⟩ := Transaction.reply?_filter hcMid hreply
          rw [hasking] at hsome
          cases hsome
      | some asking =>
        obtain ⟨reply, hreply, hanswer⟩ := step.exists_reply? hcMid hstep hasking
        exact ⟨reply, by simp [hreply, hanswer.answers], hanswer⟩

end

/-! ## A run that asks and is answered -/

def reader : TargetRef := ⟨"reader"⟩

/-- Both agents of the node are advertised. -/
def bothCards : List TargetCard := [⟨writer, "Writer"⟩, ⟨reader, "Reader"⟩]

/-- Message `2`, sent from command `1`. -/
def question : OutgoingMessage := ⟨⟨1⟩, ⟨2⟩, ⟨0⟩, reader, "Why?"⟩

/-- Command `1` of the writer's task, and the message it sends to the reader. -/
def askedHistory : List (Transaction Unit) :=
  [.createNodeEnrollment ⟨0⟩ ⟨0⟩, .createTask ⟨⟨1⟩, ⟨0⟩, ⟨0⟩, writer⟩,
    .admitCommand ⟨0⟩ ⟨1⟩ ⟨0⟩ ⟨"web"⟩ ⟨1⟩ (.fromText "Ask.") true,
    .admitAgentMessage ⟨1⟩ ⟨0⟩ bothCards (some bothCards) question]

def startOf (executionId : ExecutionId) : ExecutionEvent Unit :=
  ⟨⟨2 * executionId.uuid⟩, executionId, 0, 0, .executionStarted⟩

def endOf (executionId : ExecutionId) : ExecutionEvent Unit :=
  ⟨⟨2 * executionId.uuid + 1⟩, executionId, 1, 0, .executionTerminated .completed⟩

/-- A whole execution: it starts and completes. -/
def wholeExecution (executionId : ExecutionId) : List (ExecutionEvent Unit) :=
  [startOf executionId, endOf executionId]

/-- The batch that ends the request. -/
def answeringBatch : Transaction Unit :=
  .appendExecutionEvents (fun n => ⟨n + 2⟩) ⟨4⟩ ⟨50⟩ ⟨2⟩ (wholeExecution ⟨0⟩) "Reader"

theorem agent_request_answered_once_asked :
    ∃ reply, (Database.reached offsetIds askedHistory).answersTo offsetIds ⟨2⟩ [answeringBatch] =
      [reply] ∧ reply.taskId = ⟨1⟩ ∧ reply.command.commandId = ⟨102⟩ := by
  have hstored : (Database.reached offsetIds askedHistory).commands.rows.any
      (fun row => row.commandId = ⟨2⟩) = true := by decide
  obtain ⟨row, hrow, hid⟩ := any_eq_true.mp hstored
  have honce := ((agent_request_answered_once offsetIds askedHistory).2.2 row hrow [answeringBatch]
    (fun t ht => by rw [mem_singleton.mp ht]; exact id)).2.2 [] answeringBatch [] rfl
  rw [of_decide_eq_true hid] at honce
  have hasking : ((Database.reached offsetIds (askedHistory ++ [])).askingOf? ⟨2⟩).map
      CommandRow.taskId = some ⟨1⟩ := by decide
  obtain ⟨asking, hsome, htask⟩ := Option.map_eq_some_iff.mp hasking
  rw [hsome] at honce
  obtain ⟨reply, hreply, hanswer⟩ := honce (by unfold Settles; decide)
  exact ⟨reply, hreply, hanswer.task.trans htask, hanswer.identity⟩

end Renoa.Control
