import Renoa.Node.Stopping

/-!
# One command of a task at a time

`schedulePending` reads the unfinished commands in admission order and spawns an execution for each
task that has none. What runs was chosen from an earlier ledger, and commands are admitted and end
meanwhile; since they are admitted behind all others, what was first stays first until it ends
(`Ledger.Extends.isNext`). A process that is started again chooses from the ledger alone.
-/

namespace Renoa.Node

open Foundation Protocol List

variable {V : Type} {l l' : Ledger V} {s s' : Runtime V} {cid : CommandId}

/-- No unfinished command of the row's task was admitted before it. -/
def Ledger.IsFirst (l : Ledger V) (row : ExecutionRow) : Prop :=
  ∀ other ∈ l.executions, other.taskId = row.taskId → other.terminal = false →
    row.admissionSequence ≤ other.admissionSequence

/-- The command ended, or is the first of its task that has not. -/
def Ledger.IsNext (l : Ledger V) (commandId : CommandId) : Prop :=
  ∀ row ∈ l.executions, row.commandId = commandId → row.terminal = false → l.IsFirst row

theorem Ledger.Extends.isNext (h : l.Extends l') (hc : l.Consistent)
    (hrow : ∃ row ∈ l.executions, row.commandId = cid) (hnext : l.IsNext cid) :
    l'.IsNext cid := by
  -- A row that has not ended had not before, and its order and its task are what they were.
  have hbef : ∀ row ∈ l.executions, ∀ row' ∈ l'.executions, row.commandId = row'.commandId →
      row'.terminal = false → row.terminal = false ∧ row'.taskId = row.taskId ∧
        row'.admissionSequence = row.admissionSequence := by
    intro row hrow row' hrow' hid hopen
    obtain ⟨q, hq, hsame, hend⟩ := h.grows.executions row hrow
    obtain rfl : q = row' := Table.key_inj hq hrow' (hsame.commandId.trans hid)
    refine ⟨Bool.eq_false_iff.mpr fun hterm => ?_, hsame.taskId, hsame.admissionSequence⟩
    rw [hend hterm] at hopen
    cases hopen
  intro row' hrow' hid' hopen' other' hother' htask hoth
  obtain ⟨row, hrow, hid⟩ := hrow
  obtain ⟨hopen, hsame, hpos⟩ := hbef row hrow row' hrow' (hid.trans hid'.symm) hopen'
  rcases h.behind other' hother' with ⟨other, hmem, hkey⟩ | hbehind
  · obtain ⟨hotherOpen, hotherTask, hotherPosition⟩ := hbef other hmem other' hother' hkey hoth
    rw [hpos, hotherPosition]
    exact hnext row hrow hid hopen other hmem (by rw [← hotherTask, htask, hsame]) hotherOpen
  · rw [hpos]
    exact Nat.le_of_lt (Nat.lt_of_lt_of_le (hc.admission row hrow) hbehind)

namespace Runtime

/-- Every execution is of the next command of its task. -/
def InOrder (s : Runtime V) : Prop := ∀ e ∈ s.executions, s.ledger.IsNext e.commandId

/-- The loop of `schedulePending` over the records that are left. Each unfinished command is among
them or its task has an execution, so the first record of a free task is its next command. -/
theorem inOrder_spawns (recs : List ExecutionRecord) (hs : s.InOrder)
    (hsort : recs.Pairwise fun a b => a.admissionSequence ≤ b.admissionSequence)
    (hrows : ∀ record ∈ recs, record.toExecutionRow ∈ s.ledger.executions)
    (hcover : ∀ row ∈ s.ledger.executions, row.terminal = false →
      (∃ record ∈ recs, record.toExecutionRow = row) ∨ row.taskId ∈ s.runningTasks) :
    (recs.foldl spawn s).ledger = s.ledger ∧ (recs.foldl spawn s).InOrder ∧
      ∀ row ∈ s.ledger.executions, row.terminal = false →
        row.taskId ∈ (recs.foldl spawn s).runningTasks := by
  induction recs generalizing s with
  | nil =>
    refine ⟨rfl, hs, fun row hrow hopen => ?_⟩
    rcases hcover row hrow hopen with ⟨_, hnone, _⟩ | hrun
    · cases hnone
    · exact hrun
  | cons record rest ih =>
    obtain ⟨hfst, hsort⟩ := pairwise_cons.mp hsort
    have hled : (s.spawn record).ledger = s.ledger := by
      unfold spawn
      split <;> rfl
    have hrun : ∀ tid, tid ∈ s.runningTasks ∨ tid = record.taskId →
        tid ∈ (s.spawn record).runningTasks := by
      intro tid hor
      unfold spawn
      split
      · rename_i hbusy
        exact hor.elim id fun heq => heq ▸ hbusy
      · simpa [runningTasks] using hor
    have hnext : (s.spawn record).InOrder := by
      intro e he
      rw [hled]
      unfold spawn at he
      split at he
      · exact hs e he
      · rename_i hfree
        rcases mem_append.mp he with he | he
        · exact hs e he
        · cases mem_singleton.mp he
          intro row hrow hid hopen other hoth htask hotherOpen
          obtain rfl : row = record.toExecutionRow :=
            Table.key_inj hrow (hrows record mem_cons_self) hid
          rcases hcover other hoth hotherOpen with ⟨later, hlat, rfl⟩ | hbusy
          · rcases mem_cons.mp hlat with rfl | hlat
            · exact Nat.le_refl _
            · exact hfst later hlat
          · exact absurd (htask ▸ hbusy) hfree
    have hrest := ih hnext hsort (fun later hlat => hled ▸ hrows later (mem_cons_of_mem _ hlat))
      fun row hrow hopen => by
        rw [hled] at hrow
        rcases hcover row hrow hopen with ⟨later, hlat, rfl⟩ | hbusy
        · rcases mem_cons.mp hlat with rfl | hlat
          · exact .inr (hrun _ (.inr rfl))
          · exact .inl ⟨later, hlat, rfl⟩
        · exact .inr (hrun _ (.inl hbusy))
    rwa [hled] at hrest

theorem Inv.inOrder_schedulePending (h : s.Inv) (hs : s.InOrder) :
    s.schedulePending.ledger = s.ledger ∧ s.schedulePending.InOrder ∧
      ∀ row ∈ s.ledger.executions, row.terminal = false →
        row.taskId ∈ s.schedulePending.runningTasks := by
  refine inOrder_spawns s.ledger.loadUnfinished hs ?_
    (fun record hrec => (Ledger.mem_recordsWhere hrec).1) fun row hrow hopen => .inl ?_
  · refine pairwise_filterMap.mpr ((orderBy_sorted _ _).imp fun hle a ha b hb => ?_)
    obtain ⟨_, _, rfl⟩ := Option.map_eq_some_iff.mp ha
    obtain ⟨_, _, rfl⟩ := Option.map_eq_some_iff.mp hb
    exact hle
  · exact h.ledger.exists_record hrow (by rw [hopen]; rfl)

theorem Inv.inOrder_run (h : s.Inv) (hs : s.InOrder) (inputs : List (Input V)) :
    (s.run inputs).InOrder := by
  induction inputs generalizing s with
  | nil => exact hs
  | cons input rest ih =>
    refine ih (h.step_keeps input).inv ?_
    by_cases hinp : input = .schedulePending
    · subst hinp
      exact (h.inOrder_schedulePending hs).2.1
    · have hkept := h.step_kept hinp
      intro e' he'
      obtain ⟨e, he, hid⟩ := hkept.executions e' he'
      obtain ⟨row, hrow, hrowId, _⟩ := h.row e he
      rw [← hid]
      exact hkept.ledger.isNext h.ledger ⟨row, hrow, hrowId⟩ (hs e he)

end Runtime

/-- **One command of a task at a time, in admission order.** After any admissions, ends, stops and
restarts a task has one execution at most, and its command is the first of the task that has not
ended unless it ended itself. A scheduling step leaves every task that has an unfinished command
with exactly one execution. -/
theorem scheduled_in_admission_order (inputs : List (Runtime.Input V)) :
    let s := Runtime.reached inputs
    s.runningTasks.Nodup ∧
      (∀ e ∈ s.executions, ∃ row ∈ s.ledger.executions, row.commandId = e.commandId ∧
        row.taskId = e.taskId ∧ (row.terminal = false → s.ledger.IsFirst row)) ∧
      ∀ row ∈ s.schedulePending.ledger.executions, row.terminal = false →
        ∃! e, e ∈ s.schedulePending.executions ∧ e.taskId = row.taskId := by
  intro s
  have hinv : s.Inv := Runtime.inv_reached inputs
  have horder : s.InOrder := (Runtime.inv_boot Ledger.consistent_empty 0).inOrder_run
    (fun _ he => absurd he not_mem_nil) inputs
  refine ⟨hinv.tasks, fun e he => ?_, fun row hrow hopen => ?_⟩
  · obtain ⟨row, hrow, hid, htask⟩ := hinv.row e he
    exact ⟨row, hrow, hid, htask, horder e he row hrow hid⟩
  · obtain ⟨hledger, _, hcovered⟩ := hinv.inOrder_schedulePending horder
    obtain ⟨e, he, htask⟩ := mem_map.mp (hcovered row (hledger ▸ hrow) hopen)
    refine ⟨e, ⟨he, htask⟩, fun e' ⟨he', htask'⟩ => ?_⟩
    exact inj_on_of_nodup_map hinv.keeps_schedulePending.inv.tasks he' he (htask'.trans htask.symm)

end Renoa.Node
