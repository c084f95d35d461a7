import Renoa.Control.Answering
import Renoa.Foundation.Following

/-!
# The journal of a task

The records of a task are numbered from zero by the task's own counter, whatever module writes
them. While the task lives its journal only grows, and a suffix is the journal after a cursor. So a
surface that reads again from the last sequence it saw reads every record once, whatever is
committed between its reads (`task_journal_composes`).
-/

namespace Renoa.Control

open Foundation Protocol List Table Database

variable {V : Type} {db db' : Database V} {task : TaskRow}

/-! ## The records of a task -/

/-- The journal of a task as surfaces see it. -/
def Database.recordsOf (db : Database V) (taskId : TaskId) : List (TaskEvent V) :=
  (db.eventsOf taskId).map TaskEventRow.event

/-- The records of a task carry the sequences from zero on, in journal order. -/
theorem Consistent.recordsOf_sequences (hc : Consistent db) (tid : TaskId) :
    (db.recordsOf tid).map TaskEvent.sequence = List.range (db.recordsOf tid).length := by
  have hmap : (db.recordsOf tid).map TaskEvent.sequence =
      (db.eventsOf tid).map TaskEventRow.sequence := by
    unfold Database.recordsOf
    rw [map_map]
    rfl
  have hlen : (db.recordsOf tid).length = (db.eventsOf tid).length := length_map _
  rw [hmap, hlen]
  cases hrows : db.eventsOf tid with
  | nil => rfl
  | cons row rest =>
    -- A record's command is stored in its task, so the task stands.
    obtain ⟨hrow, htid⟩ := mem_eventsOf.mp (hrows ▸ mem_cons_self)
    obtain ⟨cmd, hcmd, _, hof⟩ := hc.journal.cause row hrow
    obtain ⟨task, htask, hid⟩ := hc.journal.command_task cmd hcmd
    have hnum := hc.journal.numbered task htask
    rw [hid, hof, htid, hrows] at hnum
    have hcnt := congrArg List.length hnum
    rw [length_map, length_range] at hcnt
    rw [hnum, hcnt]

theorem Consistent.length_recordsOf (hc : Consistent db) (h : task ∈ db.tasks) :
    (db.recordsOf task.taskId).length = task.nextSequence := by
  have hcnt := congrArg List.length (hc.journal.numbered task h)
  rw [length_map, length_range] at hcnt
  exact (length_map _).trans hcnt

/-- The suffix of a task is its journal after the cursor. -/
theorem Database.loadSuffix_ok (hc : Consistent db) {tid : TaskId} {pid : PrincipalId}
    {afterSequence : Option Nat} {suffix : TaskSuffix V}
    (h : db.loadSuffix tid pid afterSequence = .ok suffix) :
    minimumAfter afterSequence ≤ (db.recordsOf tid).length ∧
      suffix.throughSequence = throughSequence (db.recordsOf tid).length ∧
      suffix.events = (db.recordsOf tid).drop (minimumAfter afterSequence) := by
  obtain ⟨task, htask, h⟩ := bind_ok h
  obtain ⟨_, hcurs, h⟩ := bind_ok h
  cases h
  obtain ⟨hfind, _⟩ := Option.filter_eq_some_iff.mp (require_ok htask)
  obtain rfl : task.taskId = tid := key_of_find? hfind
  have hnum := hc.journal.numbered task (mem_of_find? hfind)
  have hrecords := hc.length_recordsOf (mem_of_find? hfind)
  have hlen : (db.eventsOf task.taskId).length = task.nextSequence :=
    (length_map _).symm.trans hrecords
  refine ⟨?_, by rw [hrecords], ?_⟩
  · rw [hrecords]
    cases afterSequence with
    | none => exact Nat.zero_le _
    | some cursor =>
      have hcurs := ensure_ok hcurs
      unfold throughSequence at hcurs
      split at hcurs
      · cases hcurs
      · have hle := of_decide_eq_true hcurs
        show cursor + 1 ≤ task.nextSequence
        omega
  · have hrange : (db.eventsOf task.taskId).map TaskEventRow.sequence =
        List.range' 0 (db.eventsOf task.taskId).length := by
      rw [hnum, hlen, range_eq_range']
    have hsort : (((db.eventsOf task.taskId).drop (minimumAfter afterSequence)).map
        TaskEventRow.sequence).Pairwise (· ≤ ·) := by
      rw [map_drop, hnum]
      exact (pairwise_lt_range.imp Nat.le_of_lt).sublist (drop_sublist _ _)
    have hfilt := filter_eq_drop (minimumAfter afterSequence) hrange
    rw [Nat.sub_zero] at hfilt
    rw [hfilt, orderBy_eq_self hsort, map_drop]
    rfl

/-- The owner of a task reads its journal when the cursor is checked. -/
theorem Database.loadSuffix_of_mem (htask : task ∈ db.tasks) (cursor : Option Nat) :
    db.loadSuffix task.taskId task.principalId cursor =
      checkCursor (throughSequence task.nextSequence) cursor >>= fun _ =>
        .ok ⟨throughSequence task.nextSequence,
          (orderBy TaskEventRow.sequence ((db.eventsOf task.taskId).filter fun row =>
            minimumAfter cursor ≤ row.sequence)).map TaskEventRow.event⟩ := by
  have hfnd : require (taskNotFound task.taskId) ((db.tasks.find? task.taskId).filter
      fun found => found.principalId = task.principalId) = .ok task := by
    rw [require_eq_ok, find?_of_mem htask]
    exact Option.filter_eq_some_iff.mpr ⟨rfl, decide_eq_true rfl⟩
  unfold loadSuffix
  rw [hfnd]
  rfl

/-- A cursor within the journal is served. -/
theorem Consistent.loadSuffix_of_le (hc : Consistent db) (htask : task ∈ db.tasks)
    {cursor : Option Nat} (hle : minimumAfter cursor ≤ (db.recordsOf task.taskId).length) :
    db.loadSuffix task.taskId task.principalId cursor =
      .ok ⟨throughSequence (db.recordsOf task.taskId).length,
        (db.recordsOf task.taskId).drop (minimumAfter cursor)⟩ := by
  have hlen : (db.recordsOf task.taskId).length = task.nextSequence := hc.length_recordsOf htask
  have hcurs : checkCursor (throughSequence task.nextSequence) cursor = .ok () := by
    cases cursor with
    | none => rfl
    | some cursor =>
      have hlt : cursor < task.nextSequence := hlen ▸ hle
      apply ensure_of_eq_true
      rw [throughSequence, if_neg (Nat.ne_zero_of_lt hlt)]
      exact decide_eq_true (Nat.le_pred_of_lt hlt)
  cases hload : db.loadSuffix task.taskId task.principalId cursor with
  | error e =>
    rw [loadSuffix_of_mem htask, hcurs] at hload
    cases hload
  | ok suffix =>
    obtain ⟨_, hthru, hevs⟩ := loadSuffix_ok hc hload
    rw [← hthru, ← hevs]

/-- A cursor beyond the journal is refused. -/
theorem Consistent.loadSuffix_of_lt (hc : Consistent db) (htask : task ∈ db.tasks) {cursor : Nat}
    (hlt : (db.recordsOf task.taskId).length ≤ cursor) :
    db.loadSuffix task.taskId task.principalId (some cursor) =
      .error (.invalid s!"task cursor {cursor} is ahead of durable task history") := by
  have hlen : (db.recordsOf task.taskId).length = task.nextSequence := hc.length_recordsOf htask
  have hcurs : checkCursor (throughSequence task.nextSequence) (some cursor) =
      .error (.invalid s!"task cursor {cursor} is ahead of durable task history") := by
    have hbeyond : (throughSequence task.nextSequence).any (fun last => cursor ≤ last) = false := by
      unfold throughSequence
      split
      · rfl
      · exact decide_eq_false (by omega)
    show ensure _ _ = _
    rw [hbeyond]
    rfl
  rw [loadSuffix_of_mem htask, hcurs]
  rfl

/-- The last record after a position carries the last sequence. -/
theorem Consistent.lastSequence (hc : Consistent db) (tid : TaskId) (start : Nat) :
    ((((db.recordsOf tid).drop start).getLast?).map TaskEvent.sequence) =
      if start < (db.recordsOf tid).length then some ((db.recordsOf tid).length - 1)
      else none := by
  have hseqs := hc.recordsOf_sequences tid
  split
  next hlt =>
    rw [getLast?_drop, if_neg (Nat.not_le.mpr hlt), ← getLast?_map, hseqs,
      getLast?_range, if_neg (Nat.ne_zero_of_lt hlt)]
  next hge =>
    rw [drop_of_length_le (Nat.not_lt.mp hge)]
    rfl

/-! ## A task that lives -/

theorem KeepsTask.recordsOf {tid : TaskId} (h : KeepsTask tid db db') :
    db.recordsOf tid <+: db'.recordsOf tid := h.journal.map _

section

variable [JsonText V] {ids : DerivedIds} {tid : TaskId} {transaction : Transaction V}

/-- The task stands after each of the transactions. -/
def Database.Lives (ids : DerivedIds) (taskId : TaskId) (db : Database V)
    (transactions : List (Transaction V)) : Prop :=
  db.RunMeets ids
    (fun db transaction => ∃ task ∈ (db.apply ids transaction).tasks, task.taskId = taskId)
    transactions

/-- A transaction after which the task stands kept it. -/
theorem Database.keepsTask_apply (hc : Consistent db)
    (hstand : ∃ task ∈ (db.apply ids transaction).tasks, task.taskId = tid) :
    KeepsTask tid db (db.apply ids transaction) := by
  unfold apply at hstand ⊢
  cases hcom : transaction.commit ids db with
  | error e => exact keepsTask_refl tid db
  | ok db' =>
    rw [hcom] at hstand
    rcases Transaction.commit_grown hc hcom with hgrown | ⟨_, deleted, _, rfl⟩
    · exact keepsTask_of_grown hgrown tid
    · obtain ⟨task, htask, rfl⟩ := hstand
      exact keepsTask_removeTask (mem_tasks_removeTask.mp htask).2

theorem Database.Lives.keepsTask {transactions : List (Transaction V)} (hc : Consistent db)
    (h : db.Lives ids tid transactions) :
    KeepsTask tid db (db.runAll ids transactions) := by
  induction transactions generalizing db with
  | nil => exact keepsTask_refl tid db
  | cons transaction rest ih =>
    exact (keepsTask_apply hc h.1).trans (ih (consistent_apply ids hc transaction) h.2)

/-! ## A surface that reads again -/

/-- A surface that follows a task of the coordinator: the last sequence it saw, and the records. -/
structure TaskReader (V : Type) where
  db : Database V
  cursor : Option Nat
  seen : List (TaskEvent V)

inductive ReaderStep (V : Type) where
  | commit (transaction : Transaction V)
  | read

namespace TaskReader

def start (db : Database V) : TaskReader V := ⟨db, none, []⟩

def step (ids : DerivedIds) (taskId : TaskId) (principalId : PrincipalId) (r : TaskReader V) :
    ReaderStep V → TaskReader V
  | .commit transaction => { r with db := r.db.apply ids transaction }
  | .read =>
    match r.db.loadSuffix taskId principalId r.cursor with
    | .ok suffix =>
      { r with
        cursor := (suffix.events.getLast?.map TaskEvent.sequence).or r.cursor
        seen := r.seen ++ suffix.events }
    | .error _ => r

def run (ids : DerivedIds) (taskId : TaskId) (principalId : PrincipalId) (r : TaskReader V)
    (steps : List (ReaderStep V)) : TaskReader V := steps.foldl (step ids taskId principalId) r

end TaskReader

def ReaderStep.transaction? : ReaderStep V → Option (Transaction V)
  | .commit transaction => some transaction
  | .read => none

/-- What a surface has: the records up to its cursor, of a task that stands. -/
structure TaskReader.Follows (r : TaskReader V) (taskId : TaskId) (principalId : PrincipalId) :
    Prop where
  consistent : Consistent r.db
  task : ∃ task ∈ r.db.tasks, task.taskId = taskId ∧ task.principalId = principalId
  seen : Foundation.Follows (r.db.recordsOf taskId) (minimumAfter r.cursor) r.seen

variable {pid : PrincipalId} {r : TaskReader V}

theorem TaskReader.Follows.commit (h : r.Follows tid pid)
    (hstand : ∃ task ∈ (r.db.apply ids transaction).tasks, task.taskId = tid) :
    (r.step ids tid pid (.commit transaction)).Follows tid pid := by
  have hkp := keepsTask_apply h.consistent hstand
  obtain ⟨task, htask, rfl, rfl⟩ := h.task
  obtain ⟨task', htask', hid, hprin, _, _⟩ := hkp.task task htask rfl
  exact ⟨consistent_apply ids h.consistent transaction,
    ⟨task', htask', hid, hprin⟩, h.seen.grow hkp.recordsOf⟩

theorem TaskReader.Follows.read (h : r.Follows tid pid) :
    (r.step ids tid pid .read).Follows tid pid := by
  obtain ⟨task, htask, rfl, rfl⟩ := h.task
  have hload := h.consistent.loadSuffix_of_le htask h.seen.position_le
  have hread := h.seen.read
  refine ⟨?_, ?_, ?_⟩ <;> unfold TaskReader.step <;> rw [hload]
  · exact h.consistent
  · exact ⟨task, htask, rfl, rfl⟩
  · -- The cursor stands at the last record, also when there was nothing to read.
    dsimp only
    rw [h.consistent.lastSequence]
    split
    next hlt =>
      have hpos : (r.db.recordsOf task.taskId).length - 1 + 1 =
          (r.db.recordsOf task.taskId).length := Nat.succ_pred (Nat.ne_zero_of_lt hlt)
      show Foundation.Follows _ ((r.db.recordsOf task.taskId).length - 1 + 1) _
      rwa [hpos]
    next hge =>
      have hpos : minimumAfter r.cursor = (r.db.recordsOf task.taskId).length :=
        Nat.le_antisymm h.seen.position_le (Nat.not_lt.mp hge)
      rw [← hpos] at hread
      exact hread

theorem TaskReader.Follows.run {steps : List (ReaderStep V)} (h : r.Follows tid pid)
    (hlives : r.db.Lives ids tid (steps.filterMap ReaderStep.transaction?)) :
    (r.run ids tid pid steps).Follows tid pid := by
  induction steps generalizing r with
  | nil => exact h
  | cons first rest ih =>
    cases first with
    | commit transaction => exact ih (h.commit hlives.1) hlives.2
    | read =>
      apply ih h.read
      have hdb : (r.step ids tid pid .read).db = r.db := by
        unfold TaskReader.step
        dsimp only
        split <;> rfl
      rwa [hdb]

omit [JsonText V] in
/-- What was seen is the journal up to the cursor, and the next read completes it. -/
theorem TaskReader.Follows.completes (h : r.Follows tid pid) : r.seen <+: r.db.recordsOf tid ∧
      ∃ suffix, r.db.loadSuffix tid pid r.cursor = .ok suffix ∧
        r.seen ++ suffix.events = r.db.recordsOf tid := by
  obtain ⟨task, htask, rfl, rfl⟩ := h.task
  exact ⟨h.seen.isPrefix, _, h.consistent.loadSuffix_of_le htask h.seen.position_le,
    h.seen.append_drop⟩

/-- **What holds of the journal of a task that stands.** -/
structure Database.ComposesJournal (ids : DerivedIds) (db : Database V) (task : TaskRow) :
    Prop where
  numbered : (db.recordsOf task.taskId).map TaskEvent.sequence = List.range task.nextSequence
  sources : ((db.eventsOf task.taskId).map TaskEventRow.sourceId).Nodup
  /-- While the task lives, no record changes. -/
  kept : ∀ later, db.Lives ids task.taskId later →
    db.eventsOf task.taskId <+: (db.runAll ids later).eventsOf task.taskId
  suffix : ∀ cursor, minimumAfter cursor ≤ task.nextSequence →
    db.loadSuffix task.taskId task.principalId cursor =
      .ok ⟨throughSequence task.nextSequence,
        (db.recordsOf task.taskId).drop (minimumAfter cursor)⟩
  refused : ∀ cursor, task.nextSequence ≤ cursor →
    db.loadSuffix task.taskId task.principalId (some cursor) =
      .error (.invalid s!"task cursor {cursor} is ahead of durable task history")
  /-- Whatever was committed between the reads, the next one completes the journal. -/
  reread : ∀ steps, db.Lives ids task.taskId (steps.filterMap ReaderStep.transaction?) →
    ∀ r, (TaskReader.start db).run ids task.taskId task.principalId steps = r →
      r.seen <+: r.db.recordsOf task.taskId ∧
        ∃ suffix, r.db.loadSuffix task.taskId task.principalId r.cursor = .ok suffix ∧
          r.seen ++ suffix.events = r.db.recordsOf task.taskId

omit [JsonText V] in
/-- No two records of a task come from one source. -/
theorem Consistent.sources_nodup (hc : Consistent db) (tid : TaskId) :
    ((db.eventsOf tid).map TaskEventRow.sourceId).Nodup := by
  refine List.Nodup.map_on (fun r hr q hq heq => ?_)
    (List.Nodup.of_map _ db.taskEvents.keys_nodup |>.filter _)
  exact hc.journal.source_unique r (mem_filter.mp hr).1 q (mem_filter.mp hq).1 heq

/-- **The journal of a task is gapless and its suffixes compose.** -/
theorem task_journal_composes (ids : DerivedIds) (history : List (Transaction V)) (task : TaskRow)
    (htask : task ∈ (Database.reached ids history).tasks) :
    (Database.reached ids history).ComposesJournal ids task := by
  have hc := consistent_reached ids history
  have hlength := hc.length_recordsOf htask
  refine ⟨?_, hc.sources_nodup task.taskId, fun later hlives => (hlives.keepsTask hc).journal,
    fun cursor hle => ?_, fun cursor hle => ?_, ?_⟩
  · rw [hc.recordsOf_sequences, hlength]
  · rw [← hlength] at hle ⊢
    exact hc.loadSuffix_of_le htask hle
  · exact hc.loadSuffix_of_lt htask (hlength ▸ hle)
  · rintro steps hlives r rfl
    have hstart : (TaskReader.start (Database.reached ids history)).Follows task.taskId
        task.principalId := ⟨hc, ⟨task, htask, rfl, rfl⟩, follows_start _⟩
    exact (hstart.run hlives).completes

end

/-- The writer's task of `askedHistory` holds the question of the owner. -/
theorem task_journal_composes_asked :
    ∃ task ∈ (Database.reached offsetIds askedHistory).tasks, 0 < task.nextSequence ∧
      (Database.reached offsetIds askedHistory).ComposesJournal offsetIds task := by
  have htask : ∃ task ∈ (Database.reached offsetIds askedHistory).tasks.rows,
      0 < task.nextSequence := by decide
  obtain ⟨task, hmem, hpos⟩ := htask
  exact ⟨task, hmem, hpos, task_journal_composes offsetIds askedHistory task hmem⟩

end Renoa.Control
