import Renoa.Kernel.WorldInvariant

/-!
# The order of completions

The adapters of a batch run concurrently and their completions are recorded in the order they
arrive. What a round leaves behind depends on the reports of its children alone: along the round
the database is `roundDb`, a function of the children whose completion is still to come
(`RoundInv`). So any two orders end in the same database and the same memory
(`completesRound_agrees`), and any two runs that differ in such orders only agree all along
(`reordered_agrees`).
-/

namespace Renoa.Kernel

open Foundation List Table Database Function

variable {V : Type} {db db' : Database V} {s : SessionId} {bid : EffectBatchId} {w w' : World V}
  {active : ActiveOperation V} {round₀ : EffectRound V}

/-! ## The database along a round -/

/-- The row of a child once the completions of `held` are recorded, but for those of `left`. -/
def closeRow (report : EffectId → EffectCompletion V) (held left : List (PendingEffect V))
    (e : EffectRow V) : EffectRow V :=
  match held.find? fun p => p.effectId = e.effectId with
  | none => e
  | some p =>
    if e.effectId ∈ left.map PendingEffect.effectId ∨ p.retries (report e.effectId) = true then e
    else (report e.effectId).apply e

theorem closeRow_effectId (report : EffectId → EffectCompletion V)
    (held left : List (PendingEffect V)) (e : EffectRow V) :
    (closeRow report held left e).effectId = e.effectId := by
  unfold closeRow
  split
  · rfl
  · split
    · rfl
    · exact apply_effectId _ e

namespace Database

variable (db : Database V)

/-- A child of the batch has a status. -/
def anyChild (batchId : EffectBatchId) (status : EffectStatus) : Bool :=
  (db.childrenOf batchId).any fun e => e.status = status

/-- The closing step of a batch: the operation moves on when no child is open. -/
def closeBatch (o : OperationRow V) (batchId : EffectBatchId) : Database V :=
  if db.anyChild batchId .dispatchStarted then db
  else { db with
    operations := db.operations.put (o.finishBatch batchId (db.anyChild batchId .outcomeUnknown)) }

/-- The database with the completions of `held` recorded, but for those of `left`. -/
def roundDb (o : OperationRow V) (batchId : EffectBatchId) (report : EffectId → EffectCompletion V)
    (held left : List (PendingEffect V)) : Database V :=
  closeBatch { db with
    effects := db.effects.mapRows (closeRow report held left) (closeRow_effectId report held left) }
    o batchId

end Database

theorem anyChild_iff {status : EffectStatus} :
    db.anyChild bid status = true ↔ ∃ e ∈ db.effects, e.batchId = bid ∧ e.status = status := by
  unfold Database.anyChild
  rw [any_eq_true]
  constructor
  · rintro ⟨e, he, hstat⟩
    obtain ⟨he, heb⟩ := mem_childrenOf.mp he
    exact ⟨e, he, heb, of_decide_eq_true hstat⟩
  · rintro ⟨e, he, heb, hstat⟩
    exact ⟨e, mem_childrenOf.mpr ⟨he, heb⟩, decide_eq_true hstat⟩

theorem anyChild_congr {status : EffectStatus} (h : db.effects = db'.effects) :
    db.anyChild bid status = db'.anyChild bid status := by
  unfold Database.anyChild Database.childrenOf
  rw [h]

/-- The closing step is a function of the database. -/
theorem BatchClosing.eq_closeBatch {o : OperationRow V} {finished : Option Bool}
    (h : BatchClosing db o bid finished db') :
    db' = db.closeBatch o bid ∧
      finished.isSome = !db.anyChild bid .dispatchStarted := by
  unfold Database.closeBatch
  rcases h with ⟨rfl, rfl, hopen⟩ | ⟨blocked, rfl, hcls, hblk, rfl⟩
  · rw [anyChild_iff.mpr hopen, if_pos rfl]
    exact ⟨rfl, rfl⟩
  · have hnone : db.anyChild bid .dispatchStarted = false := by
      rw [Bool.eq_false_iff, ne_eq, anyChild_iff]
      rintro ⟨e, he, heb, hopen⟩
      exact hcls e he heb hopen
    have hunk : db.anyChild bid .outcomeUnknown = blocked := by
      rw [Bool.eq_iff_iff, anyChild_iff, hblk]
    rw [hnone, hunk, if_neg Bool.false_ne_true]
    exact ⟨rfl, rfl⟩

section Round

variable {o : OperationRow V} {bid : EffectBatchId} {report : EffectId → EffectCompletion V}
  {held left left' : List (PendingEffect V)} {p : PendingEffect V} {e : EffectRow V}

/-- The row of a child of the round. -/
theorem closeRow_of_held (hheld : (held.map PendingEffect.effectId).Nodup) (hp : p ∈ held)
    (hid : e.effectId = p.effectId) :
    closeRow report held left e =
      if e.effectId ∈ left.map PendingEffect.effectId ∨ p.retries (report e.effectId) = true then e
      else (report e.effectId).apply e := by
  have hfind : held.find? (fun q => q.effectId = e.effectId) = some p := by
    cases hfind : held.find? fun q => q.effectId = e.effectId with
    | none => exact absurd (decide_eq_true hid.symm) (find?_eq_none.mp hfind p hp)
    | some q =>
      have hq := find?_some hfind
      have hq : q.effectId = e.effectId := of_decide_eq_true hq
      rw [inj_on_of_nodup_map hheld (mem_of_find?_eq_some hfind) hp (hq.trans hid)]
  rw [closeRow, hfind]

/-- The row depends on `left` through its own child only. -/
theorem closeRow_congr (hiff : e.effectId ∈ left'.map PendingEffect.effectId ↔
    e.effectId ∈ left.map PendingEffect.effectId) :
    closeRow report held left' e = closeRow report held left e := by
  unfold closeRow
  split
  · rfl
  · simp only [hiff]

/-- A child whose completion is still to come. -/
theorem closeRow_of_left (hleft : e.effectId ∈ left.map PendingEffect.effectId) :
    closeRow report held left e = e := by
  unfold closeRow
  split
  · rfl
  · rw [if_pos (.inl hleft)]

theorem roundDb_congr (h : ∀ id, id ∈ left'.map PendingEffect.effectId ↔
    id ∈ left.map PendingEffect.effectId) :
    db.roundDb o bid report held left' = db.roundDb o bid report held left := by
  have hrow : closeRow report held left' = closeRow report held left :=
    funext fun e => closeRow_congr (h e.effectId)
  unfold Database.roundDb
  simp only [hrow]

theorem closeBatch_effects (o : OperationRow V) (bid : EffectBatchId) :
    (db.closeBatch o bid).effects = db.effects := by
  unfold Database.closeBatch
  split <;> rfl

/-- While a child is open the operation has not moved. -/
theorem roundDb_of_open (hopen : ∃ e ∈ (db.roundDb o bid report held left).effects,
    e.batchId = bid ∧ e.status = .dispatchStarted) :
    db.roundDb o bid report held left = { db with
      effects := db.effects.mapRows (closeRow report held left)
        (closeRow_effectId report held left) } := by
  unfold Database.roundDb at hopen ⊢
  rw [closeBatch_effects] at hopen
  rw [Database.closeBatch, anyChild_iff.mpr hopen, if_pos rfl]

/-- Recording one completion takes its child from `left`. -/
theorem recorded_roundDb {opId : OperationId} (ho : db.operations.find? opId = some o)
    (hheld : (held.map PendingEffect.effectId).Nodup) (hp : p ∈ held)
    (hleft : p.effectId ∈ left.map PendingEffect.effectId)
    (hleft' : ∀ id, id ∈ left'.map PendingEffect.effectId ↔
      id ∈ left.map PendingEffect.effectId ∧ id ≠ p.effectId)
    (hopen : Open (db.roundDb o p.batchId report held left) s p) {finished : Bool}
    (hrec : Recorded (db.roundDb o p.batchId report held left) opId p
      (report p.effectId) finished db') :
    db' = db.roundDb o p.batchId report held left' ∧
      finished = !db'.anyChild p.batchId .dispatchStarted := by
  have hch : ∃ e ∈ (db.roundDb o p.batchId report held left).effects,
      e.batchId = p.batchId ∧ e.status = .dispatchStarted := by
    obtain ⟨_, _, _, _, e, ⟨he, _⟩, hch⟩ := hopen
    exact ⟨e, he, hch.batchId, hch.status⟩
  have hoth : ∀ e : EffectRow V, e.effectId ≠ p.effectId →
      closeRow report held left' e = closeRow report held left e :=
    fun e hne => closeRow_congr ((hleft' e.effectId).trans (and_iff_left hne))
  have hself : ∀ e : EffectRow V, e.effectId = p.effectId →
      e.effectId ∉ left'.map PendingEffect.effectId :=
    fun e hid hmem => ((hleft' e.effectId).mp hmem).2 hid
  have hmid := roundDb_of_open hch
  cases hrec with
  | retried hretry =>
    have hrow : closeRow report held left' = closeRow report held left := by
      funext e
      by_cases hid : e.effectId = p.effectId
      · have hold : closeRow report held left e = e :=
          closeRow_of_left (by rw [hid]; exact hleft)
        rw [hold, closeRow_of_held hheld hp hid, hid, if_pos (.inr hretry)]
      · exact hoth e hid
    refine ⟨?_, by rw [anyChild_iff.mpr hch]; rfl⟩
    unfold Database.roundDb
    simp only [hrow]
  | closed hretry r _ =>
    have hrow : r.child ∈ db.effects ∧ r.child.effectId = p.effectId := by
      have hkey : r.child.effectId = p.effectId := key_of_find? r.child_find
      have hmem := mem_of_find? r.child_find
      rw [congrArg Database.effects hmid] at hmem
      obtain ⟨q, hq, heq⟩ := mem_map.mp hmem
      have hqid : q.effectId = p.effectId := by
        rw [← closeRow_effectId report held left q, heq, hkey]
      rw [closeRow_of_left (by rw [hqid]; exact hleft)] at heq
      exact ⟨heq ▸ hq, hkey⟩
    have hput : (db.roundDb o p.batchId report held left).effects.put
        ((report p.effectId).apply r.child) = db.effects.mapRows (closeRow report held left')
          (closeRow_effectId report held left') := by
      rw [congrArg Database.effects hmid]
      apply ext_rows
      rw [rows_put]
      show (db.effects.rows.map _).map _ = db.effects.rows.map _
      rw [map_map]
      refine map_congr_left fun q hq => ?_
      show (if (closeRow report held left q).effectId =
        ((report p.effectId).apply r.child).effectId then _ else _) = _
      rw [closeRow_effectId, apply_effectId, hrow.2]
      by_cases hid : q.effectId = p.effectId
      · have hsame : q = r.child :=
          key_inj hq hrow.1 (hid.trans hrow.2.symm)
        rw [if_pos hid, closeRow_of_held hheld hp hid, if_neg, hid, hsame]
        rintro (hmem | hretries)
        · exact hself q hid hmem
        · rw [hid, hretry] at hretries
          cases hretries
      · rw [if_neg hid, hoth q hid]
    have hop : r.operation = o := by
      have hfind := r.operation_find
      rw [congrArg Database.operations hmid] at hfind
      exact Option.some.inj (hfind.symm.trans ho)
    obtain ⟨hdb, hfin⟩ := r.closing.eq_closeBatch
    rw [hput, hop, hmid] at hdb
    rw [hput] at hfin
    refine ⟨hdb, hfin.trans (congrArg (!·) (anyChild_congr ?_))⟩
    rw [hdb, closeBatch_effects]

/-- Before the first completion the database is as the round found it. -/
theorem roundDb_self (hopen : ∃ e ∈ db.effects, e.batchId = bid ∧
    e.status = .dispatchStarted) : db.roundDb o bid report held held = db := by
  have hrow : closeRow report held held = id := by
    funext e
    unfold closeRow
    split
    · rfl
    next p hfind =>
      have hp := find?_some hfind
      have hp : p.effectId = e.effectId := of_decide_eq_true hp
      rw [if_pos (.inl (hp ▸ mem_map_of_mem (mem_of_find?_eq_some hfind)))]
      rfl
  have heffs : db.effects.mapRows (closeRow report held held)
      (closeRow_effectId report held held) = db.effects := by
    apply ext_rows
    show db.effects.rows.map _ = db.effects.rows
    rw [hrow, map_id]
  unfold Database.roundDb
  simp only [heffs]
  rw [Database.closeBatch, anyChild_iff.mpr hopen, if_pos rfl]

end Round

/-! ## A round of a session -/

/-- What a round consists of: its attempts are polled, its tasks call their adapters, and each
child reports its completion. -/
def RoundAction (s : SessionId) (report : EffectId → EffectCompletion V) : Action V → Prop
  | .spawn t _ | .invoke t _ => t = s
  | .complete t effectId completion => t = s ∧ completion = report effectId
  | _ => False

/-- The world up to the histories of errors, hand-overs and decisions. -/
def World.Agrees (w w' : World V) : Prop := w.db = w'.db ∧ w.leases = w'.leases

/-- The round with all its completions received, at the operation's transition. -/
def EffectRound.over (round : EffectRound V) (transition : Nat) (db : Database V) :
    EffectRound V where
  batchId := round.batchId
  attempts := []
  expectedTransition := some transition
  batchFinished := round.batchFinished || !db.anyChild round.batchId .dispatchStarted

/-- Where a round stands that began in the world `w₀` with the lease `lease₀`. -/
structure RoundInv (w₀ : World V) (s : SessionId) (lease₀ : Lease V) (active : ActiveOperation V)
    (round₀ : EffectRound V) (o : OperationRow V) (report : EffectId → EffectCompletion V)
    (tasks : List (EffectTask V)) (round : EffectRound V) (w : World V) : Prop where
  leases : w.leases = Function.update w₀.leases s
    (some ⟨lease₀.runtime, some (.invoking active round), tasks⟩)
  batchId : round.batchId = round₀.batchId
  held : ∀ p ∈ round.attempts ++ tasks.map EffectTask.effect, p ∈ lease₀.outstanding
  db : w.db = w₀.db.roundDb o round₀.batchId report lease₀.outstanding
    (round.attempts ++ tasks.map EffectTask.effect)
  progress :
    ((∀ p ∈ lease₀.outstanding, p ∈ round.attempts ++ tasks.map EffectTask.effect) ∧
      round.expectedTransition = round₀.expectedTransition ∧
      round.batchFinished = round₀.batchFinished) ∨
    ((∃ p ∈ lease₀.outstanding, p ∉ round.attempts ++ tasks.map EffectTask.effect) ∧
      round.expectedTransition = some o.transitionVersion ∧
      round.batchFinished =
        (round₀.batchFinished || !w.db.anyChild round₀.batchId .dispatchStarted))

theorem putLease_of_driver {lease : Lease V} {d : DriverState V} (h : lease.driver = some d) :
    w.putLease s lease = { w with leases := Function.update w.leases s (some lease) } := by
  unfold World.putLease
  rw [h]
  rfl

/-- The children of the round belong to one operation, at one transition. -/
theorem exists_round_operation {w₀ : World V} (h₀ : WorldInv w₀) {lease₀ : Lease V}
    (hlease₀ : w₀.leases s = some lease₀)
    (hdriver₀ : lease₀.driver = some (.invoking active round₀)) (hne : lease₀.outstanding ≠ []) :
    (∃ e ∈ w₀.db.effects, e.batchId = round₀.batchId ∧ e.status = .dispatchStarted) ∧
      ∃ o, w₀.db.operations.find? active.operationId = some o ∧
        ∀ p ∈ lease₀.outstanding, p.transitionVersion = o.transitionVersion := by
  have hinv := h₀.lease s lease₀ hlease₀
  obtain ⟨hhld, hbat, _⟩ := hinv.knows _ hdriver₀
  obtain ⟨p, hp⟩ := exists_mem_of_ne_nil _ hne
  obtain ⟨o, ho, hid, _, hdisp, e, ⟨he, _⟩, hch⟩ := (hinv.opened p hp).of_holds h₀.consistent hhld
  refine ⟨⟨e, he, hch.batchId.trans (hbat p hp), hch.status⟩, o,
    find?_eq_some.mpr ⟨ho, hid⟩, fun q hq => ?_⟩
  obtain ⟨o', ho', hid', _, hdispatches', _⟩ := (hinv.opened q hq).of_holds h₀.consistent hhld
  obtain rfl : o = o' := key_inj ho ho' (hid.trans hid'.symm)
  exact (dispatchesBatch_iff.mp hdispatches').2.1.symm

theorem roundInv_start {w₀ : World V} {lease₀ : Lease V} (hlease₀ : w₀.leases s = some lease₀)
    (hdriver₀ : lease₀.driver = some (.invoking active round₀)) {o : OperationRow V}
    (report : EffectId → EffectCompletion V)
    (hopen : ∃ e ∈ w₀.db.effects, e.batchId = round₀.batchId ∧ e.status = .dispatchStarted) :
    RoundInv w₀ s lease₀ active round₀ o report lease₀.tasks round₀ w₀ := by
  have hheld := Lease.outstanding_of_driver hdriver₀
  have hsame : (⟨lease₀.runtime, some (.invoking active round₀), lease₀.tasks⟩ : Lease V) =
      lease₀ := by
    rw [← hdriver₀]
  refine ⟨?_, rfl, ?_, ?_, .inl ⟨?_, rfl, rfl⟩⟩
  · rw [hsame, ← hlease₀, update_eq_self]
  · rw [hheld]
    exact fun _ hp => hp
  · rw [hheld]
    exact (roundDb_self hopen).symm
  · rw [hheld]
    exact fun _ hp => hp

namespace RoundInv

variable {w₀ w w' : World V} {lease₀ : Lease V} {act : ActiveOperation V}
  {round₀ round : EffectRound V} {o : OperationRow V} {report : EffectId → EffectCompletion V}
  {tasks tasks' : List (EffectTask V)}
  (hinv : RoundInv w₀ s lease₀ act round₀ o report tasks round w)

include hinv

theorem lease_eq : w.leases s = some ⟨lease₀.runtime, some (.invoking act round), tasks⟩ := by
  rw [hinv.leases, update_self]

/-- Children that move from attempt to task leave the round where it stands. -/
theorem of_perm {attempts : List (PendingEffect V)}
    (hperm : (attempts ++ tasks'.map EffectTask.effect).Perm
      (round.attempts ++ tasks.map EffectTask.effect)) (hdb : w'.db = w.db)
    (hlss : w'.leases = Function.update w.leases s
      (some ⟨lease₀.runtime, some (.invoking act { round with attempts }), tasks'⟩)) :
    RoundInv w₀ s lease₀ act round₀ o report tasks' { round with attempts } w' := by
  refine ⟨?_, hinv.batchId, fun p hp => hinv.held p (hperm.subset hp), ?_, ?_⟩
  · rw [hlss, hinv.leases, update_idem]
  · rw [hdb, hinv.db]
    exact (roundDb_congr fun id => (hperm.map PendingEffect.effectId).mem_iff).symm
  · rw [hdb]
    rcases hinv.progress with ⟨hall, hrest⟩ | ⟨⟨p, hp, hnot⟩, hrest⟩
    · exact .inl ⟨fun p hp => hperm.mem_iff.mpr (hall p hp), hrest⟩
    · exact .inr ⟨⟨p, hp, fun hmem => hnot (hperm.subset hmem)⟩, hrest⟩

/-- A reported child is closed, or left open for a retry. -/
theorem complete (hw : WorldInv w) (hfind : w₀.db.operations.find? act.operationId = some o)
    (hdist : (lease₀.outstanding.map PendingEffect.effectId).Nodup)
    (hheld : ∀ p ∈ lease₀.outstanding,
      p.batchId = round₀.batchId ∧ p.transitionVersion = o.transitionVersion)
    {task : EffectTask V} (htask : task ∈ tasks) :
    ∃ finished, RoundInv w₀ s lease₀ act round₀ o report
      (tasks.filter fun t => t.effect.effectId ≠ task.effect.effectId)
      (round.received task.effect finished)
      (w.complete s ⟨lease₀.runtime, some (.invoking act round), tasks⟩ task
        (report task.effect.effectId)) := by
  have hlinv := hw.lease s _ hinv.lease_eq
  obtain ⟨finished, db', hrec, heq⟩ :=
    complete_recorded hw (report task.effect.effectId) hinv.lease_eq rfl htask
  have hmem : task.effect ∈ round.attempts ++ tasks.map EffectTask.effect :=
    mem_append_right _ (mem_map_of_mem htask)
  have hopen : Open w.db s task.effect := hlinv.opened _ hmem
  have hp := hinv.held _ hmem
  obtain ⟨hbat, hver⟩ := hheld _ hp
  -- the children left are those of the lease without the child of the task
  have hperm := endTask_perm hlinv.distinct htask
  have hids := hperm.map PendingEffect.effectId
  have hnd := hids.nodup_iff.mp hlinv.distinct
  rw [map_cons, nodup_cons] at hnd
  have hleft : ∀ id, id ∈ (round.attempts ++ (tasks.filter fun t =>
      t.effect.effectId ≠ task.effect.effectId).map EffectTask.effect).map PendingEffect.effectId ↔
        id ∈ (round.attempts ++ tasks.map EffectTask.effect).map PendingEffect.effectId ∧
          id ≠ task.effect.effectId := by
    intro id
    have hiff := hids.mem_iff (a := id)
    rw [map_cons, mem_cons] at hiff
    constructor
    · intro hid
      exact ⟨hiff.mpr (.inr hid), fun heq => hnd.1 (heq ▸ hid)⟩
    · rintro ⟨hid, hne⟩
      exact (hiff.mp hid).resolve_left hne
  have hdb := hinv.db
  rw [← hbat] at hdb
  rw [hdb] at hrec
  obtain ⟨hdb', hfin⟩ := recorded_roundDb hfind hdist hp (mem_map_of_mem hmem) hleft
    (hdb ▸ hopen) hrec
  rw [hbat] at hdb' hfin
  refine ⟨finished, ?_⟩
  rw [heq, putLease_of_driver rfl]
  refine ⟨?_, hinv.batchId, ?_, hdb', .inr ⟨⟨task.effect, hp, ?_⟩, congrArg some hver, ?_⟩⟩
  · show Function.update w.leases s _ = _
    rw [hinv.leases, update_idem]
    rfl
  · intro q hq
    exact hinv.held q (hperm.mem_iff.mpr (mem_cons_of_mem _ hq))
  · exact fun hq => ((hleft _).mp (mem_map_of_mem hq)).2 rfl
  · have hflag : round.batchFinished = round₀.batchFinished := by
      rcases hinv.progress with ⟨_, _, hflag⟩ | ⟨_, _, hflag⟩
      · exact hflag
      · obtain ⟨_, _, _, _, e, ⟨he, _⟩, hch⟩ := hopen
        rw [hflag, anyChild_iff.mpr ⟨e, he, hch.batchId.trans hbat, hch.status⟩,
          Bool.not_true, Bool.or_false]
    show (round.batchFinished || finished) = _
    rw [hflag, hfin]

/-- A round with nothing outstanding is determined by what it began with. -/
theorem ended (hne : lease₀.outstanding ≠ [])
    (hnone : round.attempts ++ tasks.map EffectTask.effect = []) :
    w.db = w₀.db.roundDb o round₀.batchId report lease₀.outstanding [] ∧
      w.leases = Function.update w₀.leases s (some ⟨lease₀.runtime, some (.invoking act
        (round₀.over o.transitionVersion
          (w₀.db.roundDb o round₀.batchId report lease₀.outstanding []))), []⟩) := by
  have hdb := hinv.db
  rw [hnone] at hdb
  refine ⟨hdb, ?_⟩
  obtain ⟨hatts, htks⟩ := append_eq_nil_iff.mp hnone
  have htks : tasks = [] := map_eq_nil_iff.mp htks
  rcases hinv.progress with ⟨hall, _⟩ | ⟨_, htrn, hflag⟩
  · obtain ⟨p, hp⟩ := exists_mem_of_ne_nil _ hne
    rw [hnone] at hall
    exact absurd (hall p hp) not_mem_nil
  · rw [hdb] at hflag
    have hround : round = round₀.over o.transitionVersion
        (w₀.db.roundDb o round₀.batchId report lease₀.outstanding []) :=
      EffectRound.ext hinv.batchId hatts htrn hflag
    rw [hinv.leases, htks, hround]

variable [DecidableEq V]

theorem next (hw : WorldInv w) (hfind : w₀.db.operations.find? act.operationId = some o)
    (hdist : (lease₀.outstanding.map PendingEffect.effectId).Nodup)
    (hheld : ∀ p ∈ lease₀.outstanding,
      p.batchId = round₀.batchId ∧ p.transitionVersion = o.transitionVersion)
    {action : Action V} (hac : RoundAction s report action) :
    ∃ tasks' round', RoundInv w₀ s lease₀ act round₀ o report tasks' round' (w.next action) := by
  have hls := hinv.lease_eq
  have hlinv := hw.lease s _ hls
  cases action with
  | spawn t eid =>
    obtain rfl : t = s := hac
    simp only [World.next, hls]
    split
    next eff heff =>
      refine ⟨{ effect := eff, invoked := false } :: tasks, _,
        hinv.of_perm (spawn_perm hlinv.distinct (mem_of_find?_eq_some heff)) (by rfl) ?_⟩
      exact congrArg World.leases (putLease_of_driver rfl)
    · exact ⟨tasks, round, hinv⟩
  | invoke t eid =>
    obtain rfl : t = s := hac
    simp only [World.next, hls]
    split
    next task _ =>
      split
      · exact ⟨tasks, round, hinv⟩
      · refine ⟨tasks.map (EffectTask.call task.effect.effectId), round,
          hinv.of_perm (List.Perm.of_eq ?_) (by rfl) ?_⟩
        · exact congrArg (round.attempts ++ ·) (map_effect_call _ _)
        · exact congrArg World.leases (putLease_of_driver rfl)
    · exact ⟨tasks, round, hinv⟩
  | complete t eid compl =>
    obtain ⟨rfl, rfl⟩ := hac
    simp only [World.next, hls]
    split
    next task htask =>
      split
      · obtain ⟨finished, hnext⟩ :=
          hinv.complete hw hfind hdist hheld (task?_mem htask)
        rw [task?_effectId htask] at hnext
        exact ⟨_, _, hnext⟩
      · exact ⟨tasks, round, hinv⟩
    · exact ⟨tasks, round, hinv⟩
  | _ => exact hac.elim

end RoundInv

/-! ## Rounds and runs -/

variable [DecidableEq V] {as bs : List (Action V)}

/-- The actions take the children in flight of the session through one whole round, each with the
completion its report assigns to it. -/
structure CompletesRound (s : SessionId) (report : EffectId → EffectCompletion V) (w : World V)
    (actions : List (Action V)) : Prop where
  only : ∀ action ∈ actions, RoundAction s report action
  started : ∃ lease active round, w.leases s = some lease ∧
    lease.driver = some (.invoking active round) ∧ lease.outstanding ≠ []
  ended : ∀ lease, (w.run actions).leases s = some lease → lease.outstanding = []

/-- Any two orders of one round end in the same database and the same memory. -/
theorem completesRound_agrees (h : WorldInv w) {report : EffectId → EffectCompletion V}
    (ha : CompletesRound s report w as) (hb : CompletesRound s report w bs) :
    (w.run as).Agrees (w.run bs) := by
  obtain ⟨lease, active, round, hls, hdrv, hne⟩ := ha.started
  have hlinv := h.lease s lease hls
  obtain ⟨_, hbat, _⟩ := hlinv.knows _ hdrv
  obtain ⟨hopen, o, hfind, hver⟩ := exists_round_operation h hls hdrv hne
  have hrun : ∀ actions, CompletesRound s report w actions → ∃ tasks round', RoundInv w s lease
      active round o report tasks round' (w.run actions) := by
    intro actions hround
    refine (List.foldlRecOn (motive := fun w' => WorldInv w' ∧ ∃ tasks round', RoundInv w s lease
      active round o report tasks round' w') actions World.next
      ⟨h, _, _, roundInv_start hls hdrv report hopen⟩ ?_).2
    rintro w' ⟨hw', tasks, round', hinv⟩ action hac
    exact ⟨worldInv_moves hw' (moves_next hw' action), hinv.next hw' hfind hlinv.distinct
      (fun p hp => ⟨hbat p hp, hver p hp⟩) (hround.only action hac)⟩
  have hend : ∀ actions, CompletesRound s report w actions → _ := fun actions hround =>
    let ⟨_, _, hinv⟩ := hrun actions hround
    hinv.ended hne (hround.ended _ hinv.lease_eq)
  obtain ⟨hdb, hlss⟩ := hend as ha
  obtain ⟨hdb', hleases'⟩ := hend bs hb
  exact ⟨hdb.trans hdb'.symm, hlss.trans hleases'.symm⟩

/-- The histories take no part in the actions. -/
theorem next_agrees (h : w.Agrees w') (action : Action V) :
    (w.next action).Agrees (w'.next action) := by
  obtain ⟨db, leases, errors, handovers, decisions⟩ := w
  obtain ⟨_, _, errors', handovers', decisions'⟩ := w'
  obtain ⟨rfl, rfl⟩ := h
  -- The worlds differ in their histories only, so every branch is taken on both sides.
  cases action <;> simp only [World.next, World.transaction, World.read, World.acquire,
    World.advance, World.settle, World.spawn, World.invoke, World.complete, World.taskFailed]
  all_goals
    repeat' split
    all_goals exact ⟨rfl, rfl⟩

theorem run_agrees (h : w.Agrees w') (actions : List (Action V)) :
    (w.run actions).Agrees (w'.run actions) := by
  induction actions generalizing w w' with
  | nil => exact h
  | cons action rest ih => exact ih (next_agrees h action)

/-- Two runs from one world that differ only in the order of whole rounds. -/
inductive Reordered : World V → List (Action V) → List (Action V) → Prop
  | nil (w : World V) : Reordered w [] []
  | same {w : World V} (action : Action V) {as bs : List (Action V)}
      (h : Reordered (w.next action) as bs) : Reordered w (action :: as) (action :: bs)
  | round {w : World V} {s : SessionId} {report : EffectId → EffectCompletion V}
      {as bs as' bs' : List (Action V)} (ha : CompletesRound s report w as)
      (hb : CompletesRound s report w bs) (h : Reordered (w.run as) as' bs') :
      Reordered w (as ++ as') (bs ++ bs')

/-- Such runs end in the same database and the same memory. -/
theorem reordered_agrees (hr : Reordered w as bs) (hw : WorldInv w) (h : w.Agrees w') :
    (w.run as).Agrees (w'.run bs) := by
  induction hr generalizing w' with
  | nil => exact h
  | same action _ ih => exact ih (worldInv_moves hw (moves_next hw action)) (next_agrees h action)
  | @round w s report as bs as' bs' ha hb _ ih =>
    have hround := completesRound_agrees hw ha hb
    have hoth := run_agrees h bs
    rw [World.run_append, World.run_append]
    exact ih (run_induction hw trivial (fun _ _ _ _ _ => trivial) as).1
      ⟨hround.1.trans hoth.1, hround.2.trans hoth.2⟩

end Renoa.Kernel
