import Renoa.Kernel.Completion

/-!
# What holds in every state of the running kernel

`WorldInv` ties the memory of the process to the database: every child a lease holds is open, and
every driver knows of the database what its point needs. `Moves` lists what an action can do, and
`moves_next` is the one case analysis over the actions; the facts about whole runs are proved over
`Moves`. `worldInv_run` is the invariant of all runs, and `run_errors_not_corrupt` the consequence
that no call, step or recording ever finds the database corrupt.
-/

namespace Renoa.Kernel

open Foundation List Function

variable {V : Type} {db db' : Database V} {s : SessionId} {lease : Lease V} {d : DriverState V}
  {task : EffectTask V} {w w' : World V} {active : ActiveOperation V} {round : EffectRound V}
  {effect : PendingEffect V} {eid : EffectId}

/-! ## Leases -/

/-- What the memory of a leased session has in common with the database. -/
structure LeaseInv (db : Database V) (s : SessionId) (lease : Lease V) : Prop where
  distinct : (lease.outstanding.map PendingEffect.effectId).Nodup
  opened : ∀ p ∈ lease.outstanding, Open db s p
  knows : ∀ d, lease.driver = some d → Knows db s lease.outstanding d
  awaiting : ∀ d, lease.driver = some d → lease.tasks ≠ [] →
    ∃ active round, d = .invoking active round

theorem LeaseInv.untouched (h : LeaseInv db s lease) (hfrm : Untouched s db db') :
    LeaseInv db' s lease where
  distinct := h.distinct
  opened p hp := (h.opened p hp).untouched hfrm
  knows d hd := (h.knows d hd).untouched hfrm
  awaiting := h.awaiting

theorem Lease.outstanding_of_driver (h : lease.driver = some d) :
    lease.outstanding = d.attempts ++ lease.tasks.map EffectTask.effect := by
  rw [outstanding, h]

theorem Lease.outstanding_of_none (h : lease.driver = none) :
    lease.outstanding = lease.tasks.map EffectTask.effect := by
  rw [outstanding, h, nil_append]

theorem Lease.mem_outstanding_of_task (h : task ∈ lease.tasks) : task.effect ∈ lease.outstanding :=
  mem_append_right _ (mem_map_of_mem h)

/-- The tasks that are left when the driver of a lease is gone. -/
theorem leaseInv_of_tasks {lease' : Lease V} (h : LeaseInv db s lease)
    (hdrv : lease'.driver = none) (htks : lease'.tasks.Sublist lease.tasks) :
    LeaseInv db s lease' := by
  have hsub : lease'.outstanding.Sublist lease.outstanding := by
    rw [Lease.outstanding_of_none hdrv]
    exact (htks.map _).trans (sublist_append_right _ _)
  refine ⟨h.distinct.sublist (hsub.map _), fun p hp => h.opened p (hsub.subset hp), ?_, ?_⟩
  · intro d hd
    rw [hdrv] at hd
    cases hd
  · intro d hd
    rw [hdrv] at hd
    cases hd

/-- Knowledge depends on the children held, not on who holds them. -/
theorem Knows.congr {l l' : List (PendingEffect V)} (h : Knows db s l d) (hperm : l'.Perm l) :
    Knows db s l' d := by
  cases d with
  | invoking active round =>
    obtain ⟨hhld, hbat, hrecv, hunfin⟩ := h
    refine ⟨hhld, fun p hp => hbat p (hperm.subset hp), ?_, hunfin⟩
    intro hnone hnil
    rw [hnil] at hperm
    exact hrecv hnone hperm.symm.eq_nil
  | _ => exact h

/-- The children of a lease move from attempt to task. -/
theorem leaseInv_of_perm {lease' : Lease V} (h : LeaseInv db s lease)
    (hperm : lease'.outstanding.Perm lease.outstanding)
    (hdrv : ∀ d', lease'.driver = some d' → ∃ active round, d' = .invoking active round ∧ Knows
      db s lease.outstanding d') : LeaseInv db s lease' := by
  refine ⟨(hperm.map _).nodup_iff.mpr h.distinct, fun p hp => h.opened p (hperm.subset hp), ?_, ?_⟩
  · intro d hd
    obtain ⟨_, _, _, hkn⟩ := hdrv d hd
    exact hkn.congr hperm
  · intro d hd _
    obtain ⟨active, round, heq, _⟩ := hdrv d hd
    exact ⟨active, round, heq⟩

/-! ## Moves -/

/-- What holds in every state of a run. -/
structure WorldInv (w : World V) : Prop where
  consistent : Consistent w.db
  bound : Bound w.db
  lease : ∀ s lease, w.leases s = some lease → LeaseInv w.db s lease

/-- What an action does to a world that keeps its invariant. -/
inductive Moves (w : World V) : World V → Prop
  | idle : Moves w w
  | called {db' : Database V} (hcall : Called w.db db') : Moves w { w with db := db' }
  | refused {e : KernelError} (he : ¬ e.IsCorrupt) : Moves w { w with errors := e :: w.errors }
  | crashed : Moves w { w with leases := fun _ => none }
  | acquired {s : SessionId} {lease : Lease V} (hfree : w.leases s = none)
      (hnone : lease.outstanding = []) (hlease : LeaseInv w.db s lease) :
      Moves w (w.putLease s lease)
  | stepped {s : SessionId} {lease : Lease V} {d : DriverState V} (choice : Choice V)
      (hlease : w.leases s = some lease) (hdriver : lease.driver = some d)
      (hidle : lease.outstanding = []) : Moves w (w.advance s lease d choice)
  | spawned {s : SessionId} {lease : Lease V} {active : ActiveOperation V}
      {round : EffectRound V} {effect : PendingEffect V} (hlease : w.leases s = some lease)
      (hdriver : lease.driver = some (.invoking active round)) (heffect : effect ∈ round.attempts) :
      Moves w (w.spawn s lease active round effect)
  | invoked {s : SessionId} {lease : Lease V} {task : EffectTask V}
      (hlease : w.leases s = some lease) (htask : task ∈ lease.tasks)
      (hnew : task.invoked = false) : Moves w (w.invoke s lease task)
  | recorded {s : SessionId} {lease : Lease V} {active : ActiveOperation V}
      {round : EffectRound V} {task : EffectTask V} {completion : EffectCompletion V}
      {finished : Bool} {db' : Database V} (hlease : w.leases s = some lease)
      (hdriver : lease.driver = some (.invoking active round)) (htask : task ∈ lease.tasks)
      (hinvoked : task.invoked = true)
      (hrecorded : Recorded w.db active.operationId task.effect completion finished db') :
      Moves w ({ w with db := db' }.putLease s
        { lease.endTask task.effect.effectId with
          driver := some (.invoking active (round.received task.effect finished)) })
  | released {s : SessionId} {lease lease' : Lease V} {errors : List KernelError}
      (hlease : w.leases s = some lease) (hdriver : lease'.driver = none)
      (htasks : lease'.tasks.Sublist lease.tasks)
      (herrors : errors = w.errors ∨ errors = .effectTask :: w.errors) :
      Moves w ({ w with errors }.putLease s lease')

/-! ## The moves keep the invariant -/

theorem putLease_leases {l : Lease V} {t : SessionId} (h : (w.putLease s lease).leases t = some l) :
    (t = s ∧ l = lease) ∨ (t ≠ s ∧ w.leases t = some l) := by
  unfold World.putLease at h
  by_cases ht : t = s
  · subst ht
    simp only [update_self] at h
    split at h
    · cases h
    · exact .inl ⟨rfl, (Option.some.inj h).symm⟩
  · simp only [update_of_ne ht] at h
    exact .inr ⟨ht, h⟩

/-- A session's turn: its database moves and its lease is stored anew. -/
theorem worldInv_putLease (h : WorldInv w) (hmvd : Moved s w.db w'.db) (lease : Lease V)
    (hls : LeaseInv w'.db s lease) (hlss : w'.leases = w.leases) :
    WorldInv (w'.putLease s lease) where
  consistent := hmvd.committed.consistent h.consistent
  bound := hmvd.bound
  lease t l hl := by
    rcases putLease_leases hl with ⟨rfl, rfl⟩ | ⟨hne, hl⟩
    · exact hls
    · rw [hlss] at hl
      exact (h.lease t l hl).untouched (hmvd.frame t hne)

theorem worldInv_lease (h : WorldInv w) (lease : Lease V) (hls : LeaseInv w.db s lease)
    (hdb : w'.db = w.db) (hlss : w'.leases = w.leases) : WorldInv (w'.putLease s lease) := by
  refine worldInv_putLease h ?_ lease ?_ hlss
  · rw [hdb]
    exact moved_refl s h.bound
  · rw [hdb]
    exact hls

/-- A lease that holds nothing. -/
theorem leaseInv_empty (hdrv : lease.driver = none) (htks : lease.tasks = []) :
    LeaseInv db s lease := by
  have hnil : lease.outstanding = [] := by
    rw [Lease.outstanding_of_none hdrv, htks]
    rfl
  refine ⟨?_, ?_, ?_, ?_⟩
  · rw [hnil]
    exact nodup_nil
  · rw [hnil]
    exact fun p hp => absurd hp not_mem_nil
  · intro d hd
    rw [hdrv] at hd
    cases hd
  · exact fun _ _ hne => absurd htks hne

/-- The lease of a driver after its step. -/
theorem After.leaseInv (h : After s db' db (.ok (.next d))) (hdrv : lease.driver = some d)
    (htks : lease.tasks = []) : LeaseInv db s lease := by
  obtain ⟨hkn, hdist, hopen, _⟩ := h
  have hheld : d.attempts = lease.outstanding := by
    rw [Lease.outstanding_of_driver hdrv, htks, map_nil, append_nil]
  rw [hheld] at hkn hdist hopen
  refine ⟨hdist, hopen, fun d' hd' => ?_, fun _ _ hne => absurd htks hne⟩
  obtain rfl : d = d' := Option.some.inj (hdrv.symm.trans hd')
  exact hkn

theorem World.db_settle {res : Except KernelError (Control V)} :
    (w.settle s lease d db res).db = db := by
  unfold World.settle
  split <;> rfl

theorem worldInv_settle (h : WorldInv w) (d : DriverState V)
    {r : Database V × Except KernelError (Control V)} (hinv : StepInv s w.db r)
    (htks : lease.tasks = []) : WorldInv (w.settle s lease d r.1 r.2) := by
  obtain ⟨db', control⟩ := r
  obtain ⟨hmvd, haft⟩ := hinv
  rcases control with e | (state | answer)
  · exact worldInv_putLease h hmvd { lease with driver := none } (leaseInv_empty rfl htks) rfl
  · exact worldInv_putLease h hmvd { lease with driver := some state } (haft.leaseInv rfl htks) rfl
  · exact worldInv_putLease h hmvd { lease with driver := none } (leaseInv_empty rfl htks) rfl

/-- The step of a driver with nothing outstanding, with what `stepInv_step` says of it. -/
theorem advance_idle (h : WorldInv w) (ch : Choice V) (hls : w.leases s = some lease)
    (hdrv : lease.driver = some d) (hidle : lease.outstanding = []) :
    ∃ r, d.step w.db s lease.runtime ch false = r ∧ StepInv s w.db r ∧ lease.tasks = [] ∧
      w.advance s lease d ch = w.settle s lease d r.1 r.2 := by
  have hkn := (h.lease s lease hls).knows d hdrv
  rw [hidle] at hkn
  rw [Lease.outstanding_of_driver hdrv] at hidle
  obtain ⟨hatts, htks⟩ := append_eq_nil_iff.mp hidle
  have htks : lease.tasks = [] := map_eq_nil_iff.mp htks
  refine ⟨_, rfl, stepInv_step h.consistent h.bound hatts hkn, htks, ?_⟩
  unfold World.advance
  rw [htks]
  rfl

theorem worldInv_stepped (h : WorldInv w) (ch : Choice V) (hls : w.leases s = some lease)
    (hdrv : lease.driver = some d) (hidle : lease.outstanding = []) :
    WorldInv (w.advance s lease d ch) := by
  obtain ⟨r, _, hstep, htks, heq⟩ := advance_idle h ch hls hdrv hidle
  rw [heq]
  exact worldInv_settle h d hstep htks

/-- A spawned attempt moves to the tasks. -/
theorem spawn_perm {attempts rest : List (PendingEffect V)}
    (hdist : ((attempts ++ rest).map PendingEffect.effectId).Nodup)
    (heff : effect ∈ attempts) :
    ((attempts.filter fun a => a.effectId ≠ effect.effectId) ++ effect :: rest).Perm
      (attempts ++ rest) := by
  rw [map_append] at hdist
  exact perm_middle.trans ((perm_cons_filter_key hdist.of_append_left heff).symm.append_right _)

theorem worldInv_spawned (h : WorldInv w) (hls : w.leases s = some lease)
    (hdrv : lease.driver = some (.invoking active round)) (heff : effect ∈ round.attempts) :
    WorldInv (w.spawn s lease active round effect) := by
  have hinv := h.lease s lease hls
  refine worldInv_lease h _ (leaseInv_of_perm hinv ?_ ?_) (by rfl) (by rfl)
  · have hdist := hinv.distinct
    rw [Lease.outstanding_of_driver hdrv] at hdist ⊢
    exact spawn_perm hdist heff
  · rintro _ ⟨⟩
    have hkn := hinv.knows _ hdrv
    exact ⟨_, _, rfl, hkn⟩

/-- The children of a lease are the child of a task and those left when it ends. -/
theorem endTask_perm (hdist : (lease.outstanding.map PendingEffect.effectId).Nodup)
    (htask : task ∈ lease.tasks) :
    lease.outstanding.Perm (task.effect :: (lease.endTask task.effect.effectId).outstanding) := by
  have htks : (lease.tasks.map fun t => t.effect.effectId).Nodup := by
    unfold Lease.outstanding at hdist
    rw [map_append, map_map] at hdist
    exact hdist.of_append_right
  exact (((perm_cons_filter_key htks htask).map EffectTask.effect).append_left _).trans perm_middle

theorem worldInv_recorded (h : WorldInv w) {compl : EffectCompletion V} {finished : Bool}
    (hls : w.leases s = some lease) (hdrv : lease.driver = some (.invoking active round))
    (htask : task ∈ lease.tasks)
    (hrec : Recorded w.db active.operationId task.effect compl finished db') :
    WorldInv ({ w with db := db' }.putLease s { lease.endTask task.effect.effectId with
        driver := some (.invoking active (round.received task.effect finished)) }) := by
  have hinv := h.lease s lease hls
  have hopen := hinv.opened _ (Lease.mem_outstanding_of_task htask)
  obtain ⟨hhld, hbat, _, hunfin⟩ := hinv.knows _ hdrv
  have hmvd := (hrec.changedBy h.consistent).moved h.consistent h.bound hhld
  have hperm := endTask_perm hinv.distinct htask
  have hheld : ({ lease.endTask task.effect.effectId with
      driver := some (.invoking active (round.received task.effect finished)) } :
        Lease V).outstanding = (lease.endTask task.effect.effectId).outstanding := by
    have hend : (lease.endTask task.effect.effectId).driver = some (.invoking active round) := hdrv
    rw [Lease.outstanding_of_driver rfl, Lease.outstanding_of_driver hend]
    rfl
  have hnd := (hperm.map PendingEffect.effectId).nodup_iff.mp hinv.distinct
  rw [map_cons, nodup_cons] at hnd
  have hleft : ∀ q ∈ (lease.endTask task.effect.effectId).outstanding,
      q ∈ lease.outstanding ∧ q.effectId ≠ task.effect.effectId := by
    intro q hq
    exact ⟨hperm.mem_iff.mpr (mem_cons_of_mem _ hq), fun heq => hnd.1 (mem_map.mpr ⟨q, hq, heq⟩)⟩
  refine worldInv_putLease h hmvd _ ⟨?_, ?_, ?_, ?_⟩ rfl
  · rw [hheld]
    exact hnd.2
  · rw [hheld]
    intro q hq
    obtain ⟨hold, hne⟩ := hleft q hq
    refine hrec.opens h.consistent hhld (hinv.opened q hold) ?_ hne
    rw [hbat q hold, hbat _ (Lease.mem_outstanding_of_task htask)]
  · rw [hheld]
    rintro _ ⟨⟩
    refine ⟨hrec.holds hhld, fun q hq => hbat q (hleft q hq).1,
      fun hnone => (Option.some_ne_none _ hnone).elim, fun hfalse => ?_⟩
    refine ⟨task.effect.transitionVersion, fun t' ht' => (Option.some.inj ht').symm, ?_⟩
    obtain ⟨_, hfin⟩ := Bool.or_eq_false_iff.mp hfalse
    have hdisp := hrec.dispatches h.consistent hopen hhld hfin
    rw [hbat _ (Lease.mem_outstanding_of_task htask)] at hdisp
    exact hdisp
  · rintro _ ⟨⟩ _
    exact ⟨_, _, rfl⟩

theorem map_effect_call (eid : EffectId) (tasks : List (EffectTask V)) :
    (tasks.map (EffectTask.call eid)).map EffectTask.effect =
      tasks.map EffectTask.effect := by
  rw [map_map]
  refine map_congr_left fun t _ => ?_
  show (EffectTask.call eid t).effect = t.effect
  unfold EffectTask.call
  split <;> rfl

theorem worldInv_invoked (h : WorldInv w) (hls : w.leases s = some lease)
    (htask : task ∈ lease.tasks) : WorldInv (w.invoke s lease task) := by
  have hinv := h.lease s lease hls
  refine worldInv_lease h _ (leaseInv_of_perm hinv (.of_eq ?_) fun d hd => ?_) (by rfl) (by rfl)
  · exact congrArg (_ ++ ·) (map_effect_call _ _)
  · obtain ⟨active, round, rfl⟩ := hinv.awaiting d hd (ne_nil_of_mem htask)
    exact ⟨active, round, rfl, hinv.knows _ hd⟩

theorem worldInv_moves (h : WorldInv w) (hmvs : Moves w w') : WorldInv w' := by
  cases hmvs with
  | idle => exact h
  | called hcall =>
    exact ⟨hcall.committed.consistent h.consistent, hcall.bound h.bound,
      fun s lease hls => (h.lease s lease hls).untouched (hcall.untouched s)⟩
  | refused _ => exact ⟨h.consistent, h.bound, h.lease⟩
  | crashed => exact ⟨h.consistent, h.bound, fun _ _ hls => by cases hls⟩
  | acquired _ _ hls => exact worldInv_lease h _ hls (by rfl) (by rfl)
  | stepped ch hls hdrv hidle => exact worldInv_stepped h ch hls hdrv hidle
  | spawned hls hdrv heff => exact worldInv_spawned h hls hdrv heff
  | invoked hls htask _ => exact worldInv_invoked h hls htask
  | recorded hls hdrv htask _ hrec => exact worldInv_recorded h hls hdrv htask hrec
  | released hls hdrv htks _ =>
    exact worldInv_lease h _ (leaseInv_of_tasks (h.lease _ _ hls) hdrv htks) (by rfl) (by rfl)

/-- No move reports a corrupt state. -/
theorem errors_moves (h : WorldInv w) (hmvs : Moves w w') :
    ∀ e ∈ w'.errors, e ∈ w.errors ∨ ¬ e.IsCorrupt := by
  intro e he
  cases hmvs with
  | refused hsnd =>
    rcases mem_cons.mp he with rfl | he
    · exact .inr hsnd
    · exact .inl he
  | stepped ch hls hdrv hidle =>
    obtain ⟨⟨db', control⟩, _, ⟨_, haft⟩, _, heq⟩ := advance_idle h ch hls hdrv hidle
    rw [heq] at he
    rcases control with failure | (state | answer)
    · rcases mem_cons.mp he with rfl | he
      · exact .inr haft
      · exact .inl he
    · exact .inl he
    · exact .inl he
  | released _ _ _ herrors =>
    rcases herrors with rfl | rfl
    · exact .inl he
    · rcases mem_cons.mp he with rfl | he
      · exact .inr not_false
      · exact .inl he
  | _ => exact .inl he

/-! ## The actions are moves -/

theorem moves_transaction {t : Except KernelError (Database V)} (hsnd : Sound t)
    (hcall : ∀ db', t = .ok db' → Called w.db db') : Moves w (w.transaction t) := by
  cases t with
  | error e => exact .refused (avoids_error.mp hsnd)
  | ok db' => exact .called (hcall db' rfl)

theorem moves_read {α : Type} {t : Except KernelError α} (hsnd : Sound t) : Moves w (w.read t) := by
  cases t with
  | error e => exact .refused (avoids_error.mp hsnd)
  | ok _ => exact .idle

/-- A driver that begins knows nothing yet. -/
theorem moves_acquire (w : World V) (runtime : Runtime) (hatts : d.attempts = [])
    (hkn : Knows w.db s [] d) : Moves w (w.acquire s runtime d) := by
  unfold World.acquire
  split
  · exact .refused not_false
  next hfree =>
    have hnil : ({ runtime, driver := some d, tasks := [] } : Lease V).outstanding = [] := by
      rw [Lease.outstanding_of_driver rfl, hatts]
      rfl
    have haft : After s w.db w.db (.ok (.next d)) := after_next hatts hkn
    exact .acquired hfree hnil (haft.leaseInv rfl rfl)

/-- A driver whose round is not over waits. -/
theorem advance_waiting (ch : Choice V) (hls : w.leases s = some lease)
    (hdrv : lease.driver = some (.invoking active round)) (hheld : lease.outstanding ≠ []) :
    w.advance s lease (.invoking active round) ch = w := by
  rw [Lease.outstanding_of_driver hdrv] at hheld
  have hwait : (!lease.tasks.isEmpty || !round.attempts.isEmpty) = true := by
    cases htks : lease.tasks with
    | cons task rest => rfl
    | nil =>
      cases hatts : round.attempts with
      | cons p rest => rfl
      | nil =>
        rw [htks, map_nil, append_nil] at hheld
        exact absurd hatts hheld
  have hsame : ({ lease with driver := some (.invoking active round) } : Lease V) = lease := by
    rw [← hdrv]
  have hstep : (DriverState.invoking active round).step w.db s lease.runtime ch
      (!lease.tasks.isEmpty) = (w.db, .ok (.next (.invoking active round))) := if_pos hwait
  unfold World.advance
  rw [hstep]
  show World.putLease _ s { lease with driver := some (.invoking active round) } = w
  rw [hsame, World.putLease, hdrv, ← hls]
  exact congrArg (fun leases => { w with leases }) (update_eq_self s w.leases)

theorem moves_advance (h : WorldInv w) (ch : Choice V) (hls : w.leases s = some lease)
    (hdrv : lease.driver = some d) : Moves w (w.advance s lease d ch) := by
  by_cases hidle : lease.outstanding = []
  · exact .stepped ch hls hdrv hidle
  have hround : ∃ active round, d = .invoking active round := by
    by_cases htks : lease.tasks = []
    · rw [Lease.outstanding_of_driver hdrv, htks, map_nil, append_nil] at hidle
      cases d with
      | invoking active round => exact ⟨active, round, rfl⟩
      | _ => exact absurd rfl hidle
    · exact (h.lease s lease hls).awaiting d hdrv htks
  obtain ⟨active, round, rfl⟩ := hround
  rw [advance_waiting ch hls hdrv hidle]
  exact .idle

theorem task?_mem (h : World.task? lease eid = some task) : task ∈ lease.tasks :=
  mem_of_find?_eq_some h

theorem task?_effectId (h : World.task? lease eid = some task) : task.effect.effectId = eid := by
  have hid := find?_some h
  exact of_decide_eq_true hid

/-- The driver that waits for a completion records it. -/
theorem complete_recorded (h : WorldInv w) (compl : EffectCompletion V)
    (hls : w.leases s = some lease) (hdrv : lease.driver = some (.invoking active round))
    (htask : task ∈ lease.tasks) :
    ∃ finished db', Recorded w.db active.operationId task.effect compl finished db' ∧
      w.complete s lease task compl = { w with db := db' }.putLease s
        { lease.endTask task.effect.effectId with
          driver := some (.invoking active (round.received task.effect finished)) } := by
  have hinv := h.lease s lease hls
  have hheld := Lease.mem_outstanding_of_task htask
  have hend : (lease.endTask task.effect.effectId).driver = some (.invoking active round) := hdrv
  obtain ⟨hhld, hbat, _⟩ := hinv.knows _ hdrv
  obtain ⟨⟨finished, db'⟩, hrun⟩ :=
    exists_recordCompletion h.consistent (hinv.opened _ hheld) hhld compl
  refine ⟨finished, db',
    recordCompletion_ok h.consistent hrun (hinv.opened _ hheld).child_batch, ?_⟩
  rw [hbat _ hheld] at hrun
  unfold World.complete
  simp only [hend, hrun]

/-- A completion is recorded by the driver that waits for it, or lost without one. -/
theorem moves_complete (h : WorldInv w) (compl : EffectCompletion V)
    (hls : w.leases s = some lease) (htask : task ∈ lease.tasks)
    (hinvoked : task.invoked = true) :
    Moves w (w.complete s lease task compl) := by
  cases hdrv : lease.driver with
  | none =>
    have hend : (lease.endTask task.effect.effectId).driver = none := hdrv
    unfold World.complete
    simp only [hend]
    exact .released hls hend filter_sublist (.inl rfl)
  | some d =>
    obtain ⟨active, round, rfl⟩ := (h.lease s lease hls).awaiting d hdrv (ne_nil_of_mem htask)
    obtain ⟨finished, db', hrec, heq⟩ := complete_recorded h compl hls hdrv htask
    rw [heq]
    exact .recorded hls hdrv htask hinvoked hrec

theorem moves_taskFailed (hls : w.leases s = some lease) : Moves w (w.taskFailed s lease task) := by
  unfold World.taskFailed
  simp only
  split
  · exact .released hls rfl filter_sublist (.inr rfl)
  next hdrv =>
    exact .released hls hdrv filter_sublist (.inl rfl)

/-! ## Runs -/

theorem worldInv_initial : WorldInv (World.initial : World V) :=
  ⟨consistent_empty, bound_empty, fun _ _ hls => by cases hls⟩

variable [DecidableEq V]

/-- Every action of the kernel is one of the moves. -/
theorem moves_next (h : WorldInv w) (action : Action V) : Moves w (w.next action) := by
  cases action with
  | createAgent agentId => exact .called (called_createAgent w.db agentId)
  | createSession sid agentId =>
    exact moves_transaction (sound_createSession _ _ _) fun _ hrun => called_createSession hrun
  | submit mode opId sid cmd =>
    refine moves_transaction (sound_map _ (sound_submitWithMode _ _ _ _ _)) fun db' hrun => ?_
    obtain ⟨r, hsubmit, rfl⟩ := map_ok hrun
    exact called_submitWithMode hsubmit
  | requestCancellation sid opId cancellationId =>
    exact moves_transaction (sound_requestCancellation _ _ _ _)
      fun _ hrun => called_requestCancellation h.consistent hrun
  | inspect sid => exact moves_read (h.consistent.sound_inspect sid)
  | commandStanding sid cid => exact moves_read (sound_commandStanding _ _ _)
  | observeSession sid => exact moves_read (h.consistent.sound_observeSession sid)
  | eventsAfter sid cursor => exact moves_read (h.consistent.sound_loadEventPage sid cursor)
  | drive sid runtime | abandon sid opId runtime => exact moves_acquire w runtime rfl trivial
  | advance sid ch =>
    simp only [World.next]
    split
    next lease hls =>
      split
      next d hdrv =>
        exact moves_advance h ch hls hdrv
      · exact .idle
    · exact .idle
  | spawn sid eid =>
    simp only [World.next]
    split
    next lease hls =>
      split
      next active round hdrv =>
        split
        next effect heff =>
          exact .spawned hls hdrv (mem_of_find?_eq_some heff)
        · exact .idle
      · exact .idle
    · exact .idle
  | invoke sid eid =>
    simp only [World.next]
    split
    next lease hls =>
      split
      next task htask =>
        split
        · exact .idle
        next hnew =>
          exact .invoked hls (task?_mem htask) (Bool.eq_false_iff.mpr hnew)
      · exact .idle
    · exact .idle
  | complete sid eid compl =>
    simp only [World.next]
    split
    next lease hls =>
      split
      next task htask =>
        split
        next hinvoked =>
          exact moves_complete h compl hls (task?_mem htask) hinvoked
        · exact .idle
      · exact .idle
    · exact .idle
  | taskFailed sid eid =>
    simp only [World.next]
    split
    next lease hls =>
      split
      · exact moves_taskFailed hls
      · exact .idle
    · exact .idle
  | dropDriver sid =>
    simp only [World.next]
    split
    next lease hls =>
      exact .released hls rfl (List.Sublist.refl _) (.inl rfl)
    · exact .idle
  | crash => exact .crashed

/-- What every move preserves holds after every run, together with the invariant. -/
theorem run_induction {motive : World V → Prop} (hw : WorldInv w) (hst : motive w)
    (hmvs : ∀ w w', WorldInv w → motive w → Moves w w' → motive w') (actions : List (Action V)) :
    WorldInv (w.run actions) ∧ motive (w.run actions) :=
  List.foldlRecOn (motive := fun w => WorldInv w ∧ motive w) actions World.next ⟨hw, hst⟩
    fun w h action _ =>
      ⟨worldInv_moves h.1 (moves_next h.1 action), hmvs w _ h.1 h.2 (moves_next h.1 action)⟩

/-- In every run of calls, drivers, adapter tasks and crashes, no operation of the kernel reports
the state it reached as corrupt. -/
theorem run_errors_not_corrupt (actions : List (Action V)) :
    ∀ e ∈ (World.initial.run actions).errors, ¬ e.IsCorrupt := by
  refine (run_induction (motive := fun w => ∀ e ∈ w.errors, ¬ e.IsCorrupt) worldInv_initial
    (fun e he => absurd he not_mem_nil) ?_ actions).2
  intro w w' hw hnone hmoves e he
  rcases errors_moves hw hmoves e he with hold | hsound
  · exact hnone e hold
  · exact hsound

/-- A session is driven twice, and a session of no agent is opened. -/
def refusedRun : List (Action Nat) :=
  [.createAgent ⟨0⟩, .createSession ⟨0⟩ ⟨0⟩, .drive ⟨0⟩ ⟨⟨"agent", "1", 1, [], ""⟩, []⟩,
    .drive ⟨0⟩ ⟨⟨"agent", "1", 1, [], ""⟩, []⟩, .createSession ⟨1⟩ ⟨7⟩]

theorem run_errors_not_corrupt_refusedRun :
    (World.initial.run refusedRun).errors = [.agentNotFound ⟨7⟩, .busy ⟨0⟩] ∧
      ¬ (KernelError.busy ⟨0⟩).IsCorrupt :=
  ⟨by decide, run_errors_not_corrupt refusedRun _ (by decide)⟩

end Renoa.Kernel
