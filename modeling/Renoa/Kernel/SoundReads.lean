import Renoa.Kernel.Driver
import Renoa.Kernel.Frame

/-!
# Reads of a consistent database find nothing corrupt

`Sound x` says that `x` does not fail with `KernelError.corrupt`. Every read of a consistent
database with frozen bindings is sound: loading an operation, a page of the journal and the facts
of a batch, and the views of other threads.
-/

namespace Renoa.Kernel

open Foundation List Table Database

variable {V : Type} {db : Database V} {sid : SessionId} {opId : OperationId}
  {o : OperationRow V} {active : ActiveOperation V} {start : Nat} {evs : List (SemanticEvent V)}
  {st : StoredOperation V} {rows : List (EffectRow V)} {cmd : Command V}

/-- The computation does not report a corrupt state. -/
def Sound {α : Type} (x : Except KernelError α) : Prop := Avoids KernelError.IsCorrupt x

theorem sound_map {α β : Type} {x : Except KernelError α} (f : α → β) (h : Sound x) :
    Sound (f <$> x) := by
  cases x with
  | error e => exact avoids_error.mpr (avoids_error.mp h)
  | ok a => exact avoids_ok (f a)

/-! ## Operations -/

theorem sound_requireCompatibleCheckpoint (mf : RuntimeManifest) (ckpt : Option (Checkpoint V)) :
    Sound (requireCompatibleCheckpoint mf ckpt) := by
  cases ckpt with
  | none => exact avoids_ok ()
  | some ckpt => exact avoids_ensure False.elim

theorem sound_decode (h : o.WellFormed) (hcmd : cmd.commandId = o.commandId) :
    Sound (o.decode cmd) := by
  refine avoids_bind ?_ fun _ _ => avoids_bind ?_ fun _ _ => avoids_bind ?_ fun _ _ => avoids_ok _
  · unfold requireStateVersion
    rw [if_pos h.stateVersion]
    exact avoids_ok ()
  · exact avoids_ensure fun _ => decide_eq_true hcmd
  · unfold requireStoredCheckpoint
    split
    · exact sound_requireCompatibleCheckpoint _ _
    next hman =>
      refine avoids_ensure fun _ => ?_
      rw [h.queued (h.manifest.mp hman)]
      rfl

theorem decode_ok (h : o.decode cmd = .ok st) : st = o.stored cmd := by
  iterate 3 obtain ⟨_, _, h⟩ := bind_ok h
  cases h
  rfl

/-- The join of a stored operation with its command. -/
theorem Consistent.operationWithCommand? (h : Consistent db) (ho : o ∈ db.operations)
    : ∃ c, c.content.commandId = o.commandId ∧
      db.operationWithCommand? o.sessionId o.operationId = some (o, c) := by
  obtain ⟨c, hc, hid, hs, hcontent⟩ := h.operation_command o ho
  refine ⟨c, hcontent.trans hid, ?_⟩
  have hcmd : db.commands.find? o.commandId = some c := find?_eq_some.mpr ⟨hc, hid⟩
  simp [Database.operationWithCommand?, find?_of_mem ho, hcmd, hs]

theorem operationWithCommand?_eq_some {c : CommandRow V}
    (h : db.operationWithCommand? sid opId = some (o, c)) :
    o ∈ db.operations ∧ o.operationId = opId ∧ o.sessionId = sid := by
  simp only [Database.operationWithCommand?, Option.bind_eq_bind, Option.bind_eq_some_iff,
    Option.guard_eq_some', Option.pure_def, Option.some.injEq, Prod.mk.injEq] at h
  obtain ⟨row, hrow, _, hs, cmd, _, _, _, rfl, _⟩ := h
  exact ⟨mem_of_find? hrow, key_of_find? hrow, hs⟩

theorem Consistent.sound_loadOperation (h : Consistent db) (sid : SessionId)
    (opId : OperationId) : Sound (db.loadOperation sid opId) := by
  unfold Database.loadOperation
  split
  · exact avoids_ok none
  next o c hjoin =>
    obtain ⟨ho, rfl, rfl⟩ := operationWithCommand?_eq_some hjoin
    obtain ⟨c', hcontent, hjoin'⟩ := h.operationWithCommand? ho
    rw [hjoin'] at hjoin
    cases hjoin
    exact avoids_bind (sound_decode (h.operation_row o ho) hcontent) fun _ _ => avoids_ok _

/-- A loaded operation is the decoded row. -/
theorem loadOperation_ok (h : db.loadOperation sid opId = .ok (some st)) :
    ∃ o ∈ db.operations, o.operationId = opId ∧ o.sessionId = sid ∧
      ∃ cmd, st = o.stored cmd := by
  unfold Database.loadOperation at h
  split at h
  · cases h
  next o c hjoin =>
    obtain ⟨ho, hid, hs⟩ := operationWithCommand?_eq_some hjoin
    obtain ⟨stored', hdecode, h⟩ := bind_ok h
    cases h
    exact ⟨o, ho, hid, hs, c.content, decode_ok hdecode⟩

/-- A stored operation is found under its session and identity. -/
theorem Consistent.loadOperation_ne_none (h : Consistent db) (ho : o ∈ db.operations) :
    db.loadOperation o.sessionId o.operationId ≠ .ok none := by
  obtain ⟨c, _, hjoin⟩ := h.operationWithCommand? ho
  unfold Database.loadOperation
  rw [hjoin]
  intro hnone
  obtain ⟨_, _, hnone⟩ := bind_ok hnone
  cases hnone

/-- The value in a driver's memory agrees with the stored row. -/
structure Tracks (active : ActiveOperation V) (o : OperationRow V) : Prop where
  manifest : o.manifest = some active.manifest
  transitionVersion : o.transitionVersion = active.transitionVersion
  phase : o.phase = active.phase
  input : o.inputEffectBatchId = active.inputEffectBatchId

theorem Consistent.sound_loadActiveQuery (h : Consistent db) (ho : o ∈ db.operations)
    (hph : o.phase.isCancellable = true) (aid : AgentId) :
    Sound (db.loadActiveQuery aid o.sessionId o.operationId) := by
  refine avoids_bind (h.sound_loadOperation _ _) fun loaded hload => ?_
  refine avoids_require_bind ?_ fun st hsto => ?_
  · rintro _ rfl
    exact h.loadOperation_ne_none ho hload
  · rw [hsto] at hload
    obtain ⟨o', ho', hid, _, cmd, rfl⟩ := loadOperation_ok hload
    obtain rfl : o' = o := key_inj ho' ho hid
    refine avoids_require_bind (fun _ => ?_) fun _ _ => avoids_ok _
    exact (h.operation_row o' ho).manifest_ne_none (OperationPhase.ne_queued_of_cancellable hph)

theorem loadActiveQuery_ok {aid : AgentId} (h : db.loadActiveQuery aid sid opId = .ok active) :
    active.operationId = opId ∧ ∃ o ∈ db.operations, o.operationId = opId ∧
      o.sessionId = sid ∧ Tracks active o := by
  obtain ⟨loaded, hload, h⟩ := bind_ok h
  obtain ⟨st, hsto, h⟩ := require_bind_ok h
  obtain ⟨mf, hman, h⟩ := require_bind_ok h
  cases h
  rw [hsto] at hload
  obtain ⟨o, ho, hid, hs, cmd, rfl⟩ := loadOperation_ok hload
  exact ⟨rfl, o, ho, hid, hs, hman, rfl, rfl, rfl⟩

/-! ## The journal -/

theorem map_filterMap_of_forall {α β γ : Type} {f : α → Option β} {g : β → γ} {k : α → γ}
    {l : List α} (h : ∀ a ∈ l, ∃ b, f a = some b ∧ g b = k a) :
    (l.filterMap f).map g = l.map k := by
  induction l with
  | nil => rfl
  | cons a rest ih =>
    obtain ⟨b, hb, hg⟩ := h a mem_cons_self
    rw [filterMap_cons_some hb, map_cons, map_cons, hg, ih fun c hc => h c (mem_cons_of_mem a hc)]

/-- The events from a cursor on carry the sequences from there to the high-water mark. -/
theorem Consistent.map_sequence_loadEvents (h : Consistent db) {row : SessionRow}
    (hrow : row ∈ db.sessions) (hst : start ≤ row.nextEventSequence) :
    (db.loadEvents row.sessionId start).map SemanticEvent.sequence =
      List.range' start (row.nextEventSequence - start) := by
  rw [← orderBy_map_of_numbered_from (h.event_numbered row hrow) hst]
  refine map_filterMap_of_forall fun ev hev => ?_
  rw [mem_orderBy, mem_filter, mem_eventsOf] at hev
  obtain ⟨o, ho, hid, hs⟩ := h.event_owner ev hev.1.1
  cases hfind : db.eventOperation? ev with
  | none =>
    have hno := find?_eq_none.mp hfind o ho
    exact absurd (decide_eq_true ⟨hs, hid⟩) hno
  | some q => exact ⟨_, rfl, rfl⟩

theorem validateGapless_eq_ok {n : Nat} (h : evs.map SemanticEvent.sequence = List.range' start n) :
    validateGapless start (start + n) evs = .ok () := by
  induction evs generalizing start n with
  | nil =>
    obtain rfl : n = 0 := by simpa using (congrArg List.length h).symm
    exact ensure_eq_ok.mpr (decide_eq_true rfl)
  | cons ev rest ih =>
    cases n with
    | zero => simp at h
    | succ n =>
      obtain ⟨hfst, hrest⟩ := List.cons.inj h
      refine bind_eq_ok.mpr ⟨(), ensure_eq_ok.mpr (decide_eq_true hfst), ?_⟩
      have := ih hrest
      rwa [Nat.add_right_comm, Nat.add_assoc] at this

theorem Consistent.loadEventPage_eq_ok (h : Consistent db) {row : SessionRow}
    (hrow : row ∈ db.sessions) : ∃ page, db.loadEventPage row.sessionId 0 = .ok page := by
  have hok := validateGapless_eq_ok (h.map_sequence_loadEvents hrow (Nat.zero_le _))
  rw [Nat.add_sub_of_le (Nat.zero_le _)] at hok
  refine exists_bind_eq_ok (require_eq_ok.mpr (find?_of_mem hrow)) ?_
  apply exists_bind_eq_ok (ensure_of_eq_true (decide_eq_true (Nat.zero_le _)))
  exact exists_bind_eq_ok hok ⟨_, rfl⟩

theorem Consistent.sound_loadEventPage (h : Consistent db) (sid : SessionId)
    (cursor : Nat) : Sound (db.loadEventPage sid cursor) := by
  refine avoids_require_bind False.elim fun row hrow => ?_
  refine avoids_ensure_bind False.elim fun hcurs => ?_
  refine avoids_bind ?_ fun _ _ => avoids_ok _
  obtain ⟨hmem, rfl⟩ := find?_eq_some.mp hrow
  have hcurs : cursor ≤ row.nextEventSequence := of_decide_eq_true hcurs
  have hok := validateGapless_eq_ok (h.map_sequence_loadEvents hmem hcurs)
  rw [Nat.add_sub_of_le hcurs] at hok
  rw [hok]
  exact avoids_ok ()

theorem loadEventPage_ok {cursor : Nat} {page : EventPage V}
    (h : db.loadEventPage sid cursor = .ok page) : HighWater db sid page.nextCursor := by
  obtain ⟨row, hrow, h⟩ := require_bind_ok h
  iterate 2 obtain ⟨_, _, h⟩ := bind_ok h
  cases h
  obtain ⟨hmem, hkey⟩ := find?_eq_some.mp hrow
  exact ⟨row, hmem, hkey, rfl⟩

/-! ## Facts of a batch -/

/-- The fact is what the child's row says. -/
def FactOf (e : EffectRow V) (fact : EffectFact V) : Prop :=
  ∃ request, e.request = some request ∧ e.fact request = .ok fact

/-- The settled effect is what the child's row says. -/
structure SettledOf (e : EffectRow V) (effect : SettledEffect V) : Prop where
  effectId : effect.effectId = e.effectId
  binding : effect.binding = e.binding
  bindingRevision : effect.bindingRevision = e.bindingRevision
  request : e.request = some effect.request
  outcome : e.outcome = some effect.outcome

theorem EffectRow.WellFormed.exists_fact {e : EffectRow V} (h : e.WellFormed)
    (hreq : e.request ≠ none) : ∃ fact, FactOf e fact := by
  obtain ⟨req, hreq⟩ := Option.ne_none_iff_exists'.mp hreq
  have hout := h.outcome
  cases hstat : e.status <;> rw [hstat] at hout
  case settled =>
    obtain ⟨out, hsome⟩ := Option.isSome_iff_exists.mp hout
    exact ⟨_, req, hreq, by simp only [EffectRow.fact, hstat, hsome]; rfl⟩
  all_goals
    have hnone : e.outcome = none := Option.not_isSome_iff_eq_none.mp (by rw [hout]; decide)
    refine ⟨_, req, hreq, by simp only [EffectRow.fact, hstat, hnone]; rfl⟩

/-- The kind of a fact is the status of its row. -/
theorem FactOf.kind {e : EffectRow V} {fact : EffectFact V} (h : FactOf e fact) :
    fact.isSettled = decide (e.status = .settled) ∧
      fact.isNotDispatched = decide (e.status = .intentCommitted) ∧
      fact.isOutcomeUnknown =
        (decide (e.status = .dispatchStarted) || decide (e.status = .outcomeUnknown)) := by
  obtain ⟨req, _, h⟩ := h
  unfold EffectRow.fact at h
  split at h <;> rename_i hstat _ <;> try cases h
  all_goals
    rw [hstat]
    exact ⟨rfl, rfl, rfl⟩

theorem effectFacts_eq_ok (mf : Option RuntimeManifest)
    (hpos : gaplessFrom EffectRow.position start rows = true) (hrow : ∀ e ∈ rows, e.WellFormed)
    (hrequest : ∀ e ∈ rows, e.request ≠ none) (hbnd : ∀ e ∈ rows, mf.all e.boundBy = true) :
    ∃ facts, effectFacts mf start rows = .ok facts ∧ List.Forall₂ FactOf rows facts := by
  induction rows generalizing start with
  | nil => exact ⟨[], rfl, .nil⟩
  | cons e rest ih =>
    simp only [gaplessFrom, Bool.and_eq_true, decide_eq_true_eq] at hpos
    have hrest : ∀ {P : EffectRow V → Prop}, (∀ q ∈ e :: rest, P q) → ∀ q ∈ rest, P q :=
      fun hall q hq => hall q (mem_cons_of_mem e hq)
    obtain ⟨facts, hfacts, hforall⟩ := ih hpos.2 (hrest hrow) (hrest hrequest) (hrest hbnd)
    obtain ⟨fact, req, hreq, hfact⟩ := (hrow e mem_cons_self).exists_fact (hrequest e mem_cons_self)
    refine ⟨fact :: facts, ?_, .cons ⟨req, hreq, hfact⟩ hforall⟩
    exact bind_eq_ok.mpr ⟨(), ensure_eq_ok.mpr (decide_eq_true hpos.1),
      bind_eq_ok.mpr ⟨(), ensure_eq_ok.mpr (hbnd e mem_cons_self),
        bind_eq_ok.mpr ⟨req, require_eq_ok.mpr hreq,
          bind_eq_ok.mpr ⟨fact, hfact, bind_eq_ok.mpr ⟨facts, hfacts, rfl⟩⟩⟩⟩⟩

/-- The children of a stored batch: gapless, and at least one. -/
theorem Consistent.orderedChildren_gapless (h : Consistent db) {b : EffectBatchRow}
    (hb : b ∈ db.effectBatches) :
    gaplessFrom EffectRow.position 0 (db.orderedChildren b.batchId) = true ∧
      db.orderedChildren b.batchId ≠ [] := by
  obtain ⟨n, hn, hnum⟩ := h.effect_numbered b hb
  refine ⟨gaplessFrom_orderBy hnum, fun hnil => ?_⟩
  have hlen := hnum.length_rows
  rw [orderBy_eq_nil.mp hnil, length_nil] at hlen
  omega

/-- The facts of a batch whose children still have their requests. -/
theorem Consistent.loadEffectBatchFacts_eq_ok (h : Consistent db)
    (mf : Option RuntimeManifest) {b : EffectBatchRow} (hb : b ∈ db.effectBatches)
    (hreq : ∀ e ∈ db.effects, e.batchId = b.batchId → e.request ≠ none)
    (hbnd : ∀ e ∈ db.effects, e.batchId = b.batchId → mf.all e.boundBy = true) :
    ∃ facts, db.loadEffectBatchFacts b.operationId b.batchId mf = .ok ⟨b.batchId, facts⟩ ∧
      List.Forall₂ FactOf (db.orderedChildren b.batchId) facts := by
  obtain ⟨hgapless, hne⟩ := h.orderedChildren_gapless hb
  obtain ⟨facts, hfacts, hall⟩ := effectFacts_eq_ok mf hgapless
    (fun e he => h.effect_row e (mem_orderedChildren.mp he).1)
    (fun e he => hreq e (mem_orderedChildren.mp he).1 (mem_orderedChildren.mp he).2)
    (fun e he => hbnd e (mem_orderedChildren.mp he).1 (mem_orderedChildren.mp he).2)
  refine ⟨facts, bind_eq_ok.mpr ⟨(), ensure_eq_ok.mpr ?_, bind_eq_ok.mpr ⟨facts, hfacts,
    bind_eq_ok.mpr ⟨(), ensure_eq_ok.mpr ?_, rfl⟩⟩⟩, hall⟩
  · rw [find?_of_mem hb]
    exact decide_eq_true rfl
  · rw [Bool.not_eq_true', isEmpty_eq_false_iff]
    rintro rfl
    exact hne (forall₂_nil_right_iff.mp hall)

/-- Facts of settled rows are settled effects, in the order of the rows. -/
theorem settledEffects_eq_ok {facts : List (EffectFact V)} (h : List.Forall₂ FactOf rows facts)
    (hdone : ∀ e ∈ rows, e.status = .settled) :
    ∃ effs, settledEffects facts = .ok effs ∧ List.Forall₂ SettledOf rows effs := by
  induction h with
  | nil => exact ⟨[], rfl, .nil⟩
  | @cons e fact rows facts hfact _ ih =>
    obtain ⟨effs, heffs, hall⟩ := ih fun q hq => hdone q (mem_cons_of_mem e hq)
    obtain ⟨req, hreq, hfact⟩ := hfact
    unfold EffectRow.fact at hfact
    rw [hdone e mem_cons_self] at hfact
    cases hout : e.outcome with
    | none => rw [hout] at hfact; cases hfact
    | some out =>
      rw [hout] at hfact
      cases hfact
      exact ⟨_ :: effs, bind_eq_ok.mpr ⟨effs, heffs, rfl⟩, .cons ⟨rfl, rfl, rfl, hreq, hout⟩ hall⟩

/-- The input batch of an operation loads as its settled children in declaration order. -/
theorem Consistent.loadSettledEffectBatch_eq_ok (h : Consistent db) (ho : o ∈ db.operations)
    {bid : EffectBatchId} (hinp : o.inputEffectBatchId = some bid) :
    ∃ effs, db.loadSettledEffectBatch o.operationId bid = .ok ⟨bid, effs⟩ ∧
      List.Forall₂ SettledOf (db.orderedChildren bid) effs := by
  have hph : o.phase = .needDecision :=
    (h.operation_row o ho).input (by rw [hinp]; exact Option.some_ne_none _)
  obtain ⟨b, hb, rfl, hown, hpos⟩ := h.input_last o ho bid hinp
  have hdone : ∀ e ∈ db.orderedChildren b.batchId, e.status = .settled := by
    intro e he
    obtain ⟨he, heb⟩ := mem_orderedChildren.mp he
    have hal := (h.batch_consistent o ho b hb hown).last hpos e he heb
    rw [hph] at hal
    exact of_decide_eq_true hal
  obtain ⟨facts, hfacts, hall⟩ := h.loadEffectBatchFacts_eq_ok none hb
    (fun e he heb => h.request_ne_none ho (by rw [hph]; rfl) hb hown he heb)
    fun _ _ _ => rfl
  obtain ⟨effs, heffs, hsettledOf⟩ := settledEffects_eq_ok hall hdone
  rw [← hown]
  exact ⟨effs, bind_eq_ok.mpr ⟨_, hfacts, bind_eq_ok.mpr ⟨effs, heffs, rfl⟩⟩, hsettledOf⟩

/-- The input of a loop decision: the batch the operation row names, bound by its manifest. -/
theorem Consistent.sound_loadLoopInput (h : Consistent db) (hbnd : Bound db)
    (ho : o ∈ db.operations) (hid : o.operationId = active.operationId) (htrack : Tracks active o)
    (evs : List (SemanticEvent V)) : Sound (db.loadLoopInput sid active evs) := by
  have hread : ∀ batch : Option (SettledEffectBatch V), db.loadInputBatch active = .ok batch →
      (batch.all fun batch => batch.effects.all fun eff =>
        decide (active.manifest.revision? eff.binding = some eff.bindingRevision)) = true →
      Sound (db.loadLoopInput sid active evs) := by
    intro batch hbat hcheck
    refine avoids_bind (by rw [hbat]; exact avoids_ok batch) fun batch' hbatch' => ?_
    rw [hbat] at hbatch'
    cases hbatch'
    exact avoids_ensure_bind (fun _ => hcheck) fun _ => avoids_ok _
  cases hinp : active.inputEffectBatchId with
  | none => exact hread none (by unfold Database.loadInputBatch; rw [hinp]) rfl
  | some bid =>
    have hrow := htrack.input.trans hinp
    obtain ⟨effs, hload, hall⟩ := h.loadSettledEffectBatch_eq_ok ho hrow
    obtain ⟨b, hb, rfl, hown, _⟩ := h.input_last o ho bid hrow
    apply hread (some ⟨b.batchId, effs⟩)
    · simp only [Database.loadInputBatch, hinp, ← hid, hload]
      rfl
    simp only [Option.all_some, all_eq_true, decide_eq_true_eq]
    intro eff heff
    obtain ⟨e, he, hdone⟩ := exists_of_forall₂_of_mem hall.flip heff
    obtain ⟨he, heb⟩ := mem_orderedChildren.mp he
    have := hbnd o ho _ htrack.manifest e ⟨he, b, hb, heb.symm, hown⟩
    rw [hdone.binding, hdone.bindingRevision]
    exact of_decide_eq_true this

theorem loadLoopInput_ok {input : LoopInput V} (h : db.loadLoopInput sid active evs = .ok input) :
    input.operationId = active.operationId ∧
      input.effectBatch.map SettledEffectBatch.batchId = active.inputEffectBatchId := by
  obtain ⟨effectBatch, hbat, h⟩ := bind_ok h
  obtain ⟨_, _, h⟩ := bind_ok h
  cases h
  refine ⟨rfl, ?_⟩
  unfold Database.loadInputBatch at hbat
  split at hbat
  next hnone =>
    cases hbat
    exact hnone.symm
  next bid hsome =>
    rw [hsome]
    cases hload : db.loadSettledEffectBatch active.operationId bid with
    | error e => rw [hload] at hbat; cases hbat
    | ok batch =>
      rw [hload] at hbat
      cases hbat
      iterate 2 obtain ⟨_, _, hload⟩ := bind_ok hload
      cases hload
      rfl

/-! ## Views of other threads -/

theorem Consistent.sound_batchSnapshots (h : Consistent db) {batches : List EffectBatchRow}
    (hmem : ∀ b ∈ batches, b ∈ db.effectBatches)
    (hpos : gaplessFrom EffectBatchRow.position start batches = true) :
    Sound (db.batchSnapshots start batches) := by
  induction batches generalizing start with
  | nil => exact avoids_ok []
  | cons b rest ih =>
    simp only [gaplessFrom, Bool.and_eq_true, decide_eq_true_eq] at hpos
    obtain ⟨hgapless, hne⟩ := h.orderedChildren_gapless (hmem b mem_cons_self)
    refine avoids_ensure_bind (fun _ => decide_eq_true hpos.1) fun _ => ?_
    refine avoids_bind ?_ fun _ _ =>
      avoids_bind (ih (fun q hq => hmem q (mem_cons_of_mem b hq)) hpos.2) fun _ _ => avoids_ok _
    refine avoids_ensure_bind (fun _ => hgapless) fun _ => ?_
    refine avoids_ensure_bind (fun _ => ?_) fun _ => avoids_ok _
    simpa using hne

theorem Consistent.sound_inspect (h : Consistent db) (sid : SessionId) :
    Sound (db.inspect sid) := by
  refine avoids_require_bind False.elim fun _ _ => ?_
  refine avoids_bind (avoids_mapM ?_) fun _ _ => avoids_ok _
  rintro ⟨o, c⟩ hjoin
  obtain ⟨q, hq, hjoin⟩ := mem_filterMap.mp hjoin
  obtain ⟨c', hc', hpair⟩ := Option.map_eq_some_iff.mp hjoin
  cases hpair
  rw [mem_orderBy, mem_operationsOf] at hq
  obtain ⟨st, hsto, hid, _, hcontent⟩ := h.operation_command o hq.1
  have hfind := (Option.filter_eq_some_iff.mp hc').1
  obtain rfl : c = st := key_inj (mem_of_find? hfind) hsto ((key_of_find? hfind).trans hid.symm)
  refine avoids_bind (sound_decode (h.operation_row o hq.1) (hcontent.trans hid)) fun _ _ => ?_
  refine avoids_bind ?_ fun _ _ => avoids_ok _
  refine h.sound_batchSnapshots (fun b hb => ?_) (gaplessFrom_orderBy (h.batch_numbered o hq.1))
  exact (mem_batchesOf.mp (mem_orderBy.mp hb)).1

theorem sound_observeOperation (o : OperationRow V) : Sound (Database.observeOperation o) :=
  avoids_ensure_bind False.elim fun _ => avoids_ok _

theorem Consistent.sound_observeSession (h : Consistent db) (sid : SessionId) :
    Sound (db.observeSession sid) := by
  refine avoids_require_bind False.elim fun row hrow => ?_
  obtain ⟨hmem, rfl⟩ := find?_eq_some.mp hrow
  refine avoids_bind ?_ fun _ _ => avoids_bind ?_ fun _ _ => avoids_ok _
  · unfold Database.observeActive
    split
    · exact avoids_ok none
    next id hact =>
      obtain ⟨o, ho, rfl, hs, _⟩ := (h.active row hmem id).mp hact
      refine avoids_require_bind (fun _ => ?_) fun _ _ => sound_map _ (sound_observeOperation _)
      rw [find?_of_mem ho, Option.filter_some, if_pos (decide_eq_true hs)]
      exact Option.some_ne_none o
  · unfold Database.observeLatest
    split
    · exact avoids_ok none
    · exact sound_map _ (sound_observeOperation _)

theorem sound_commandStanding (db : Database V) (sid : SessionId) (cid : CommandId) :
    Sound (db.commandStanding sid cid) :=
  avoids_require_bind False.elim fun _ _ => avoids_ok _

end Renoa.Kernel
