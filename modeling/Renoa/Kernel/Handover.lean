import Renoa.Kernel.WorldInvariant

/-!
# Hand-overs to adapters

A task hands its child to the adapter at most once, and each preparation of a batch counts a new
dispatch of the children it hands out. So no two hand-overs of a run carry the same effect and
dispatch count (`HandoverInv`), whatever was lost in between: a crash or a dropped driver loses the
children in memory but not the counts.

`no_duplicate_side_effect` is the consequence for the adapters: a child that must never be replayed
is handed over at most once, a closed child never again, and each hand-over finds its whole batch
and the started dispatch of its child in the database.
-/

namespace Renoa.Kernel

open Foundation List Table

variable {V : Type} {db db' : Database V} {s t : SessionId} {w w' : World V}
  {lease lease' : Lease V} {p : PendingEffect V} {handover : Handover V} {task : EffectTask V}

/-- The children of a lease that no adapter was called for yet. -/
def Lease.waiting (lease : Lease V) : List (PendingEffect V) :=
  (match lease.driver with
    | some driver => driver.attempts
    | none => []) ++ (lease.tasks.filter fun task => !task.invoked).map EffectTask.effect

/-- What tells one dispatch of a child from another. -/
def PendingEffect.dispatch (p : PendingEffect V) : EffectId × Nat := (p.effectId, p.dispatchCount)

theorem Lease.waiting_sublist (lease : Lease V) : lease.waiting.Sublist lease.outstanding :=
  (filter_sublist.map _).append_left _

/-- The whole batch of a handed-over child, committed at the hand-over and still that of `db`. -/
def Handover.WholeBatch (handover : Handover V) (db : Database V) : Prop :=
  ∃ b ∈ handover.db.effectBatches,
    (∃ e ∈ handover.db.effects, e.effectId = handover.effect.effectId ∧ e.batchId = b.batchId ∧
      e.status = .dispatchStarted ∧ e.request = some handover.effect.request) ∧
    (∀ e ∈ handover.db.childrenOf b.batchId, e.request ≠ none) ∧
    b ∈ db.effectBatches ∧
    (db.childrenOf b.batchId).map EffectRow.effectId =
      (handover.db.childrenOf b.batchId).map EffectRow.effectId

/-- What holds of the hand-overs in every state of a run. -/
structure HandoverInv (w : World V) : Prop where
  distinct : (w.handovers.map fun handover => handover.effect.dispatch).Nodup
  counted : ∀ handover ∈ w.handovers, 0 < handover.effect.dispatchCount ∧
    ∃ e ∈ w.db.effects, e.effectId = handover.effect.effectId ∧
      handover.effect.dispatchCount ≤ e.dispatchCount
  fresh : ∀ s lease, w.leases s = some lease → ∀ p ∈ lease.waiting, ∀ handover ∈ w.handovers,
    handover.effect.dispatch ≠ p.dispatch
  whole : ∀ handover ∈ w.handovers, handover.WholeBatch w.db

/-! ## What a move does -/

theorem committed_moves (h : WorldInv w) (hmvs : Moves w w') : Committed w.db w'.db := by
  cases hmvs with
  | called hcall => exact hcall.committed
  | stepped ch hls hdrv hidle =>
    obtain ⟨_, _, hinv, _, heq⟩ := advance_idle h ch hls hdrv hidle
    rw [heq, World.db_settle]
    exact hinv.moved.committed
  | recorded _ _ _ _ hrec => exact (hrec.changedBy h.consistent).committed
  | _ => exact .unchanged rfl

theorem handovers_moves (h : WorldInv w) (hmvs : Moves w w') :
    w'.handovers = w.handovers ∨ ∃ s lease task, w.leases s = some lease ∧
      task ∈ lease.tasks ∧ task.invoked = false ∧ w' = w.invoke s lease task := by
  cases hmvs with
  | stepped ch hls hdrv hidle =>
    obtain ⟨⟨db', control⟩, _, _, _, heq⟩ := advance_idle h ch hls hdrv hidle
    rw [heq]
    rcases control with failure | (state | answer) <;> exact .inl rfl
  | invoked hls htask hnew => exact .inr ⟨_, _, _, hls, htask, hnew, rfl⟩
  | _ => exact .inl rfl

theorem Lease.mem_waiting : p ∈ lease.waiting ↔ (∃ d, lease.driver = some d ∧ p ∈ d.attempts) ∨
      ∃ task ∈ lease.tasks, task.invoked = false ∧ task.effect = p := by
  unfold waiting
  rw [mem_append, mem_map]
  apply or_congr
  · cases lease.driver with
    | none | some d => simp
  · simp [and_assoc]

/-- The child was waiting before, or is dispatched once more than the database counted. -/
def WaitsOrNew (w : World V) (s : SessionId) (p : PendingEffect V) : Prop :=
  (∃ lease, w.leases s = some lease ∧ p ∈ lease.waiting) ∨
    ∃ e ∈ w.db.effects, e.effectId = p.effectId ∧ e.dispatchCount < p.dispatchCount

/-- Only the lease that was stored has other waiting children. -/
theorem waitsOrNew_putLease (hp : p ∈ lease'.waiting)
    (hlease' : (w'.putLease s lease).leases t = some lease')
    (hown : p ∈ lease.waiting → WaitsOrNew w s p) (hlss : w'.leases = w.leases) :
    WaitsOrNew w t p := by
  rcases putLease_leases hlease' with ⟨rfl, rfl⟩ | ⟨_, hold⟩
  · exact hown hp
  · rw [hlss] at hold
    exact .inl ⟨lease', hold, hp⟩

theorem waiting_stepped (h : WorldInv w) {d : DriverState V} (ch : Choice V)
    (hls : w.leases s = some lease) (hdrv : lease.driver = some d)
    (hidle : lease.outstanding = []) (hlease' : (w.advance s lease d ch).leases t = some lease')
    (hp : p ∈ lease'.waiting) : WaitsOrNew w t p := by
  obtain ⟨⟨db', control⟩, _, ⟨_, haft⟩, htks, heq⟩ := advance_idle h ch hls hdrv hidle
  rw [heq] at hlease'
  -- the driver had no tasks, so what waits are the attempts of its new point
  rcases control with failure | (state | answer) <;>
    refine waitsOrNew_putLease hp hlease' (fun hws => ?_) (by rfl) <;>
    rcases Lease.mem_waiting.mp hws with ⟨state, hstate, hatt⟩ | ⟨task, htask, _⟩
  case ok.next.inl =>
    cases hstate
    exact .inr (haft.2.2.2 p hatt)
  case error.inl | ok.done.inl => cases hstate
  all_goals exact absurd (htks ▸ htask) not_mem_nil

/-- A task that called its adapter does not wait any more. -/
theorem waiting_call {eid : EffectId}
    (hp : p ∈ ({ lease with tasks := lease.tasks.map (EffectTask.call eid) } : Lease V).waiting) :
    (∃ d, lease.driver = some d ∧ p ∈ d.attempts) ∨
      ∃ task ∈ lease.tasks, task.invoked = false ∧ task.effect = p ∧ p.effectId ≠ eid := by
  rcases Lease.mem_waiting.mp hp with hatt | ⟨task, htask, hnew, rfl⟩
  · exact .inl hatt
  · obtain ⟨old, hold, rfl⟩ := mem_map.mp htask
    unfold EffectTask.call at hnew ⊢
    by_cases hid : old.effect.effectId = eid
    · rw [if_pos hid] at hnew
      cases hnew
    · rw [if_neg hid] at hnew ⊢
      exact .inr ⟨old, hold, hnew, rfl, hid⟩

theorem waiting_moves (h : WorldInv w) (hmvs : Moves w w') (hlease' : w'.leases t = some lease')
    (hp : p ∈ lease'.waiting) : WaitsOrNew w t p := by
  cases hmvs with
  | crashed => cases hlease'
  | @acquired _ lease _ hnone _ =>
    refine waitsOrNew_putLease hp hlease' (fun hws => ?_) (by rfl)
    have hheld := lease.waiting_sublist.subset hws
    rw [hnone] at hheld
    exact absurd hheld not_mem_nil
  | stepped ch hls hdrv hidle => exact waiting_stepped h ch hls hdrv hidle hlease' hp
  | spawned hls hdrv heff =>
    refine waitsOrNew_putLease hp hlease' (fun hws => ?_) (by rfl)
    refine .inl ⟨_, hls, Lease.mem_waiting.mpr ?_⟩
    rcases Lease.mem_waiting.mp hws with ⟨d, hd, hatt⟩ | ⟨task, htask, hnew, rfl⟩
    · cases hd
      exact .inl ⟨_, hdrv, mem_of_mem_filter hatt⟩
    · rcases mem_cons.mp htask with rfl | htask
      · exact .inl ⟨_, hdrv, heff⟩
      · exact .inr ⟨task, htask, hnew, rfl⟩
  | invoked hls _ _ =>
    refine waitsOrNew_putLease hp hlease' (fun hws => ?_) (by rfl)
    refine .inl ⟨_, hls, Lease.mem_waiting.mpr ?_⟩
    rcases waiting_call hws with hatt | ⟨task, htask, hnew, heff, _⟩
    · exact .inl hatt
    · exact .inr ⟨task, htask, hnew, heff⟩
  | recorded hls hdrv _ _ _ =>
    refine waitsOrNew_putLease hp hlease' (fun hws => ?_) (by rfl)
    refine .inl ⟨_, hls, Lease.mem_waiting.mpr ?_⟩
    rcases Lease.mem_waiting.mp hws with ⟨d, hd, hatt⟩ | ⟨task, htask, hnew, rfl⟩
    · cases hd
      exact .inl ⟨_, hdrv, hatt⟩
    · exact .inr ⟨task, mem_of_mem_filter htask, hnew, rfl⟩
  | released hls hdrv htks _ =>
    refine waitsOrNew_putLease hp hlease' (fun hws => ?_) (by rfl)
    refine .inl ⟨_, hls, Lease.mem_waiting.mpr ?_⟩
    rcases Lease.mem_waiting.mp hws with ⟨d, hd, _⟩ | ⟨task, htask, hnew, rfl⟩
    · rw [hdrv] at hd
      cases hd
    · exact .inr ⟨task, htks.subset htask, hnew, rfl⟩
  | _ => exact .inl ⟨lease', hlease', hp⟩

/-! ## The hand-over -/

/-- Two sessions hold no open child in common. -/
theorem Open.session_eq {q : PendingEffect V} (hp : Open db s p) (hq : Open db t q)
    (hid : p.effectId = q.effectId) : s = t := by
  obtain ⟨o, ho, rfl, _, e, ⟨he, b, hb, hbe, hown⟩, hch⟩ := hp
  obtain ⟨o', ho', rfl, _, e', ⟨he', b', hb', hbe', hown'⟩, hchild'⟩ := hq
  obtain rfl : e = e' := key_inj he he' (hch.effectId.trans (hid.trans hchild'.effectId.symm))
  obtain rfl : b = b' := key_inj hb hb' (hbe.trans hbe'.symm)
  rw [key_inj ho ho' (hown.symm.trans hown')]

/-- An open child is handed over with its whole batch committed. -/
theorem Open.wholeBatch (h : Consistent db) (hp : Open db s p) :
    Handover.WholeBatch ⟨p, db⟩ db := by
  obtain ⟨o, ho, rfl, hdisp, e, ⟨he, b, hb, hbe, hown⟩, hch⟩ := hp
  have hact : o.phase.isCancellable = true := by
    rw [(dispatchesBatch_iff.mp hdisp).1]
    rfl
  refine ⟨b, hb, ⟨e, he, hch.effectId, hbe.symm, hch.status, hch.request⟩, ?_, hb, rfl⟩
  intro c hc
  obtain ⟨hmem, hbat⟩ := Database.mem_childrenOf.mp hc
  exact h.request_ne_none ho hact hb hown hmem hbat

theorem Handover.WholeBatch.committed (h : handover.WholeBatch db) (hcom : Committed db db') :
    handover.WholeBatch db' := by
  obtain ⟨b, hb, hch, hreqs, hkept, hids⟩ := h
  obtain ⟨hkept', hids'⟩ := hcom.batch_kept hkept
  exact ⟨b, hb, hch, hreqs, hkept', hids'.trans hids⟩

/-- No child that waits after a move was handed over before it in the same dispatch. -/
theorem HandoverInv.fresh_moves (hinv : HandoverInv w) (h : WorldInv w) (hmvs : Moves w w')
    (hlease' : w'.leases t = some lease') (hp : p ∈ lease'.waiting)
    (hhand : handover ∈ w.handovers) : handover.effect.dispatch ≠ p.dispatch := by
  rcases waiting_moves h hmvs hlease' hp with ⟨lease, hls, hws⟩ | ⟨e, he, hid, hlt⟩
  · exact hinv.fresh t lease hls p hws handover hhand
  · intro heq
    obtain ⟨hsame, hcnt⟩ := Prod.mk.inj heq
    obtain ⟨_, e', he', hid', hle⟩ := hinv.counted handover hhand
    have hrow : e' = e := key_inj he' he (hid'.trans (hsame.trans hid.symm))
    rw [hrow] at hle
    omega

theorem HandoverInv.counted_committed (hinv : HandoverInv w) (hcom : Committed w.db db')
    (hhand : handover ∈ w.handovers) :
    0 < handover.effect.dispatchCount ∧ ∃ e ∈ db'.effects,
      e.effectId = handover.effect.effectId ∧ handover.effect.dispatchCount ≤ e.dispatchCount := by
  obtain ⟨hpos, e, he, hid, hle⟩ := hinv.counted handover hhand
  obtain ⟨e', he', hstep⟩ := hcom.effect_step he
  exact ⟨hpos, e', he', hstep.effectId_eq.trans hid, hle.trans hstep.dispatchCount_le⟩

/-- An attempt of a lease is not the child of one of its tasks. -/
theorem LeaseInv.attempt_ne_task (h : LeaseInv db s lease) {d : DriverState V}
    (hd : lease.driver = some d) (hp : p ∈ d.attempts) (htask : task ∈ lease.tasks) :
    p.effectId ≠ task.effect.effectId := by
  have hdist := h.distinct
  rw [Lease.outstanding_of_driver hd, map_append, nodup_append] at hdist
  exact hdist.2.2 _ (mem_map_of_mem hp) _ (mem_map_of_mem (mem_map_of_mem htask))

theorem handoverInv_invoked (h : WorldInv w) (hinv : HandoverInv w)
    (hls : w.leases s = some lease) (htask : task ∈ lease.tasks) (hnew : task.invoked = false) :
    HandoverInv (w.invoke s lease task) := by
  have hopen := (h.lease s lease hls).opened _ (Lease.mem_outstanding_of_task htask)
  have hmvs : Moves w (w.invoke s lease task) := .invoked hls htask hnew
  have hws : task.effect ∈ lease.waiting := Lease.mem_waiting.mpr (.inr ⟨task, htask, hnew, rfl⟩)
  refine ⟨?_, ?_, ?_, ?_⟩
  · refine nodup_cons.mpr ⟨?_, hinv.distinct⟩
    intro hmem
    obtain ⟨handover, hhand, heq⟩ := mem_map.mp hmem
    exact hinv.fresh s lease hls _ hws handover hhand heq
  · intro handover hhand
    rcases mem_cons.mp hhand with rfl | hold
    · obtain ⟨_, _, _, _, e, ⟨he, _⟩, hch⟩ := hopen
      have hpos := (h.consistent.effect_row e he).dispatched hch.status
      rw [hch.dispatchCount] at hpos
      exact ⟨hpos, e, he, hch.effectId, hch.dispatchCount.ge⟩
    · exact hinv.counted handover hold
  · intro t lease' hlease' p hp handover hhand
    rcases mem_cons.mp hhand with rfl | hold
    · -- the handed-over child does not wait any more, and nobody else holds it
      intro heq
      have hid : task.effect.effectId = p.effectId := (Prod.mk.inj heq).1
      rcases putLease_leases hlease' with ⟨rfl, rfl⟩ | ⟨hne, hoth⟩
      · rcases waiting_call hp with ⟨d, hd, hatt⟩ | ⟨_, _, _, _, hne⟩
        · exact (h.lease t lease hls).attempt_ne_task hd hatt htask hid.symm
        · exact hne hid.symm
      · have hheld := lease'.waiting_sublist.subset hp
        exact hne (hopen.session_eq ((h.lease t lease' hoth).opened p hheld) hid).symm
    · exact hinv.fresh_moves h hmvs hlease' hp hold
  · intro handover hhand
    rcases mem_cons.mp hhand with rfl | hold
    · exact hopen.wholeBatch h.consistent
    · exact hinv.whole handover hold

theorem handoverInv_moves (h : WorldInv w) (hinv : HandoverInv w) (hmvs : Moves w w') :
    HandoverInv w' := by
  rcases handovers_moves h hmvs with hsame | ⟨s, lease, task, hls, htask, hnew, rfl⟩
  · have hcom := committed_moves h hmvs
    refine ⟨by rw [hsame]; exact hinv.distinct, ?_, ?_, ?_⟩
    · rw [hsame]
      exact fun handover hhand => hinv.counted_committed hcom hhand
    · rw [hsame]
      exact fun t lease' hlease' p hp handover hhand => hinv.fresh_moves h hmvs hlease' hp hhand
    · rw [hsame]
      exact fun handover hhand => (hinv.whole handover hhand).committed hcom
  · exact handoverInv_invoked h hinv hls htask hnew

/-! ## Runs -/

/-- The hand-overs of one effect. -/
def World.handoversOf (w : World V) (effectId : EffectId) : List (Handover V) :=
  w.handovers.filter fun handover => handover.effect.effectId = effectId

theorem handoverInv_initial : HandoverInv (World.initial : World V) where
  distinct := nodup_nil
  counted _ hmem := absurd hmem not_mem_nil
  fresh _ _ hls := by cases hls
  whole _ hmem := absurd hmem not_mem_nil

/-- A child that must not be replayed has been dispatched once at most. -/
theorem HandoverInv.handoversOf_neverReplay (hinv : HandoverInv w) (h : WorldInv w)
    {e : EffectRow V} (he : e ∈ w.db.effects) (hrecov : e.recovery = .neverReplay) :
    (w.handoversOf e.effectId).length ≤ 1 := by
  have hall : (w.handoversOf e.effectId).map (fun handover => handover.effect.dispatch) =
      List.replicate (w.handoversOf e.effectId).length (e.effectId, 1) := by
    refine map_eq_replicate_iff.mpr fun handover hmem => ?_
    obtain ⟨hmem, hid⟩ := mem_filter.mp hmem
    have hid : handover.effect.effectId = e.effectId := of_decide_eq_true hid
    obtain ⟨hpos, e', he', hid', hle⟩ := hinv.counted handover hmem
    rw [key_inj he' he (hid'.trans hid)] at hle
    have hone := (h.consistent.effect_row e he).neverReplay hrecov
    exact Prod.ext hid (by show handover.effect.dispatchCount = 1; omega)
  have hnd : ((w.handoversOf e.effectId).map fun handover => handover.effect.dispatch).Nodup :=
    hinv.distinct.sublist (filter_sublist.map _)
  rw [hall] at hnd
  exact nodup_replicate.mp hnd

/-- A closed child stays closed and is not handed over. -/
theorem handoversOf_moves (h : WorldInv w) (hmvs : Moves w w') {e : EffectRow V}
    (he : e ∈ w.db.effects) (hcls : e.status = .settled ∨ e.status = .outcomeUnknown) :
    w'.handoversOf e.effectId = w.handoversOf e.effectId := by
  unfold World.handoversOf
  rcases handovers_moves h hmvs with hsame | ⟨s, lease, task, hls, htask, _, rfl⟩
  · rw [hsame]
  · obtain ⟨_, _, _, _, q, ⟨hq, _⟩, hch⟩ :=
      (h.lease s lease hls).opened _ (Lease.mem_outstanding_of_task htask)
    apply filter_cons_of_neg
    rw [decide_eq_true_eq]
    intro hid
    have hsame : q = e := key_inj hq he (hch.effectId.trans hid)
    have hopen := hch.status
    rw [hsame] at hopen
    rcases hcls with hs | hs <;> rw [hs] at hopen <;> cases hopen

variable [DecidableEq V]

/-- In every run, an effect that must never be replayed is handed to its adapter at most once, a
settled or unknown effect is not handed over again by any continuation, and each hand-over was
made with its whole batch and the started dispatch of its child committed. -/
theorem no_duplicate_side_effect (before after : List (Action V)) :
    (∀ e ∈ (World.initial.run before).db.effects, e.recovery = .neverReplay →
      ((World.initial.run before).handoversOf e.effectId).length ≤ 1) ∧
    (∀ e ∈ (World.initial.run before).db.effects,
      e.status = .settled ∨ e.status = .outcomeUnknown →
      (World.initial.run (before ++ after)).handoversOf e.effectId =
        (World.initial.run before).handoversOf e.effectId) ∧
    ∀ handover ∈ (World.initial.run before).handovers,
      handover.WholeBatch (World.initial.run before).db := by
  obtain ⟨hw, hinv⟩ := run_induction worldInv_initial handoverInv_initial
    (fun _ _ hw hinv hmoves => handoverInv_moves hw hinv hmoves) before
  refine ⟨fun e he hrecovery => hinv.handoversOf_neverReplay hw he hrecovery, ?_, hinv.whole⟩
  intro e he hclosed
  rw [World.run_append]
  -- along the continuation the row of the effect stays closed
  refine (run_induction (motive := fun w => (∃ q ∈ w.db.effects, q.effectId = e.effectId ∧
    (q.status = .settled ∨ q.status = .outcomeUnknown)) ∧ w.handoversOf e.effectId =
      (World.initial.run before).handoversOf e.effectId) hw ⟨⟨e, he, rfl, hclosed⟩, rfl⟩ ?_
    after).2.2
  rintro w w' hw ⟨⟨q, hq, hid, hclosed⟩, hsame⟩ hmoves
  obtain ⟨q', hq', hstep⟩ := (committed_moves hw hmoves).effect_step hq
  refine ⟨⟨q', hq', hstep.effectId_eq.trans hid, ?_⟩, ?_⟩
  · rw [hstep.closed_stays hclosed]
    exact hclosed
  · rw [← hsame, ← hid]
    exact handoversOf_moves hw hmoves hq hclosed

end Renoa.Kernel
