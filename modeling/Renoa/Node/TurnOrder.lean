import Renoa.Node.Publishing

/-!
# The turns of a task

The commands of a task execute one after another, but several of them can have events in the ledger
while the node is not connected. A pass over the publications sends the events of a command only
when every command of the task that was admitted before it ended and is published to its end
(`Ledger.Consistent.complete_of_sends`). What is published to its end stays so, whatever the
connections do, and the coordinator takes in only what the command's own node sent; so the turns of
a task follow one another in its journal (`turns_in_order`).
-/

namespace Renoa.Node

open Foundation Protocol List Table
open Control (TaskId NodeId Database Transaction DerivedIds)
open scoped List

variable {V : Type} {bytes : MessageBytes V} {cid : CommandId} {tid : TaskId}
  {publication : Publication} {cmd : CommandEnvelope}

/-! ## The order of a pass -/

namespace SentAll

variable {l : Ledger V} {blk : List TaskId} {pubs : List Publication}
  {sent : List (ClientMessage V)} {result : Except NodeError (List Publication)}

/-- Nothing is sent of a command whose task is blocked. -/
theorem batches_eq_nil (h : SentAll bytes l blk pubs sent result)
    (hblk : ∀ p ∈ pubs, p.commandId = cid → p.record.taskId ∈ blk) : batchesOf cid sent = [] := by
  induction h with
  | nil => rfl
  | failed hone =>
    by_contra hsent
    obtain ⟨hid, hopen⟩ := hone.batches hsent
    exact hopen (hblk _ mem_cons_self hid)
  | cons hone _ ih =>
    have hlater := ih fun p hp hid => hone.blocks.1 (hblk p (mem_cons_of_mem _ hp) hid)
    rw [batchesOf_append, hlater, append_nil]
    by_contra hsent
    obtain ⟨hid, hopen⟩ := hone.batches hsent
    exact hopen (hblk _ mem_cons_self hid)

/-- **A pass that sends a batch of a command found every publication of its task before it
finished.** -/
theorem finished (h : SentAll bytes l blk pubs sent result)
    (hnd : (pubs.map Publication.commandId).Nodup) (hsent : batchesOf cid sent ≠ [])
    {p q : Publication} (horder : [p, q] <+ pubs) (hid : q.commandId = cid)
    (htask : p.record.taskId = q.record.taskId) : p.Finished l := by
  -- The batch is of `q`, so it comes from the rest of the pass, also when the publication at hand
  -- is `p`.
  have hother : ∀ {pub : Publication} {rest : List Publication},
      ((pub :: rest).map Publication.commandId).Nodup → [p, q] <+ pub :: rest →
        q ∈ rest ∧ pub.commandId ≠ cid := by
    intro pub rest hnd horder
    have hq : q ∈ rest := by
      cases horder with
      | cons _ hrest => exact hrest.subset (mem_cons_of_mem _ mem_cons_self)
      | cons_cons _ hrest => exact hrest.subset mem_cons_self
    exact ⟨hq, fun heq => (nodup_cons.mp hnd).1 (mem_map.mpr ⟨q, hq, hid.trans heq.symm⟩)⟩
  induction h with
  | nil => cases horder
  | failed hone => exact absurd (hone.batches hsent).1 (hother hnd horder).2
  | cons hone hrest ih =>
    obtain ⟨hq, hne⟩ := hother hnd horder
    have hnd' := (nodup_cons.mp hnd).2
    have hnone := not_not.mp (mt hone.batches (not_and.mpr fun heq => absurd heq hne))
    rw [batchesOf_append, hnone, nil_append] at hsent
    cases horder with
    | cons _ hpq => exact ih hnd' hsent hpq
    | cons_cons _ _ =>
      refine hone.blocks.2.resolve_left fun hblk => hsent (hrest.batches_eq_nil fun r hr hrid => ?_)
      rw [inj_on_of_nodup_map hnd' hr hq (hrid.trans hid.symm), ← htask]
      exact hblk

end SentAll

/-! ## Executions published to their end -/

/-- A session that has just read the ledger sends a batch of the command. -/
def Ledger.Sends (bytes : MessageBytes V) (l : Ledger V) (commandId : CommandId) : Prop :=
  ∃ publications,
    batchesOf commandId (sendPending bytes l (refreshPublications l publications)).1 ≠ []

namespace Ledger.Consistent

variable {l : Ledger V} {row : ExecutionRow}

/-- An execution that owes nothing is published to its end. -/
theorem complete_of_not_pending (hc : l.Consistent) (hrow : row ∈ l.executions)
    (h : l.isPendingPublication row = false) : l.Complete row := by
  have hnext : (l.maxSequence row.commandId).elim 0 (· + 1) =
      (l.eventsOf row.commandId).length := hc.nextEventSequence hrow
  unfold Ledger.isPendingPublication at h
  simp only [Bool.or_eq_false_iff, Bool.not_eq_false'] at h
  obtain ⟨⟨⟨hterm, _⟩, hsome⟩, hbehind⟩ := h
  refine ⟨hterm, ?_⟩
  rw [← hnext, ExecutionRow.start]
  cases hpub : row.publishedThrough with
  | none =>
    rw [hpub] at hsome
    cases hsome
  | some thru =>
    cases hmax : l.maxSequence row.commandId with
    | none => exact Nat.zero_le _
    | some last =>
      rw [hpub, hmax] at hbehind
      exact Nat.succ_le_succ (Nat.not_lt.mp (of_decide_eq_false hbehind))

/-- **A batch of a command is sent only when every command of its task that was admitted before it
is published to its end.** -/
theorem complete_of_sends (hc : l.Consistent) (hsends : l.Sends bytes cid)
    {next : ExecutionRow} (hrow : row ∈ l.executions) (hnext : next ∈ l.executions)
    (hid : next.commandId = cid) (htask : row.taskId = next.taskId)
    (hbef : row.admissionSequence < next.admissionSequence) : l.Complete row := by
  obtain ⟨pubs, hsent⟩ := hsends
  cases hpend : l.isPendingPublication row with
  | false => exact hc.complete_of_not_pending hrow hpend
  | true =>
    have hrds := reads_refresh l pubs
    obtain ⟨p, hp, hprow⟩ := hc.exists_refreshed hrow hpend pubs
    obtain ⟨q, hq, hqid⟩ : ∃ q ∈ refreshPublications l pubs, q.commandId = cid := by
      have hpass : SentFor bytes l cid _ _ _ := sendPending_spec l _ hrds.nodup
      cases hpass with
      | nothing hnothing => exact absurd hnothing hsent
      | batch hfnd => exact ⟨_, publicationOf_eq_some hfnd⟩
    have hqrow : q.record.toExecutionRow = next :=
      key_inj (hrds.record q hq) hnext (hqid.trans hid.symm)
    have horder : [p, q] <+ orderBy (fun publication => publication.record.taskId.uuid)
        (orderBy (fun publication => publication.record.admissionSequence)
          (refreshPublications l pubs)) := by
      refine orderBy_stable (pair_sublist_orderBy hp hq ?_) ?_
      · rw [hprow, hqrow]
        exact hbef
      · rw [hprow, hqrow, htask]
    have hnd := (((orderBy_perm (fun publication => publication.record.taskId.uuid) _).trans
      (orderBy_perm (fun publication => publication.record.admissionSequence) _)).map
        Publication.commandId).nodup_iff.mpr hrds.nodup
    have hfin := (sendAll_spec l [] _).finished hnd hsent horder hqid (by rw [hprow, hqrow, htask])
    refine ⟨hprow ▸ hfin.terminal, ?_⟩
    have hevs := hfin.events
    rw [Publication.commandId, hprow, hc.loadEventsAfter hrow] at hevs
    exact drop_eq_nil_iff.mp hevs

end Ledger.Consistent

/-! ## What a step brings forward -/

namespace Network

variable {s s' : Network V} {nid : NodeId} {ids : DerivedIds} {earlier later : CommandId}

/-- A batch of the command is on its way from the node to the coordinator. -/
def Underway (s : Network V) (nodeId : NodeId) (commandId : CommandId) : Prop :=
  batchesOf commandId (s.site nodeId).sent ≠ []

/-- A batch is sent by a session that has just read the ledger. -/
theorem Moved.underway {low : Nat} {site site' : Site V} (h : Moved bytes low site site')
    (hsent : batchesOf cid site'.sent ≠ []) :
    batchesOf cid site.sent ≠ [] ∨ site'.ledger.Sends bytes cid := by
  cases h with
  | coordinator _ hsub =>
    obtain ⟨batch, hbat⟩ := exists_mem_of_ne_nil _ hsent
    exact .inl (ne_nil_of_mem (mem_batchesOf.mpr (hsub (mem_batchesOf.mp hbat))))
  | node hsite =>
    rcases hsite.sent with heq | ⟨pubs, heq⟩
    · exact .inl (heq ▸ hsent)
    · rw [heq, batchesOf_append, Ne, append_eq_nil_iff, not_and_or] at hsent
      exact hsent.imp_right fun hnew => ⟨pubs, hnew⟩

theorem Tracked.exists_row_of_underway (h : s.Tracked bytes cid) (hunder : s.Underway nid cid) :
    ∃ row ∈ (s.site nid).ledger.executions, row.commandId = cid := by
  obtain ⟨batch, hbat⟩ := exists_mem_of_ne_nil _ hunder
  obtain ⟨row, hrow, hid, _⟩ := (h nid).exists_segment (mem_batchesOf.mp hbat)
  exact ⟨row, hrow, hid⟩

/-- A journal that grows, grows by a batch that was on its way from the command's own node. -/
theorem Stepped.mem_journalOf [JsonText V] {input : Input V}
    (hstep : Stepped ids bytes s input s') (hsound : s.Sound) {ev : ExecutionEvent V}
    (hev : ev ∈ s'.db.journalOf cid) : ev ∈ s.db.journalOf cid ∨
      ∃ nid tid, s.db.runsAt nid tid cid = true ∧ s.Underway nid cid := by
  have hans : ∀ {nid : NodeId} {replier : String} {message : ClientMessage V},
      message ∈ (s.site nid).sent → ev ∈ (answer ids s.db nid replier message).2.journalOf cid →
        ev ∈ s.db.journalOf cid ∨
          ∃ nid tid, s.db.runsAt nid tid cid = true ∧ s.Underway nid cid := by
    intro nid replier message hmem hev
    refine ((answer_handled hsound.db ids nid replier message).mem_journalOf hev).imp_right ?_
    rintro ⟨batch, hbat, _, hruns⟩
    have hsent := hmem
    rw [← mem_singleton.mp (mem_batchesOf.mp hbat)] at hsent
    exact ⟨nid, batch.1, hruns, ne_nil_of_mem (mem_batchesOf.mpr hsent)⟩
  cases hstep with
  | same | deliver | node => exact .inl hev
  | transaction hbat => exact .inl (mem_journalOf_apply hsound.db hbat hev)
  | handle hσ hout =>
    refine hans ?_ hev
    rw [Site.sent_of_session hσ, hout]
    exact mem_append_right _ mem_cons_self
  | handleLate hlate => exact hans (mem_append_left _ (mem_of_getElem? hlate)) hev

/-! ## Two commands of a task -/

/-- The node admitted both commands to one task, the first one before the second, and the task is
the one the coordinator has the second command in. -/
def AdmittedBefore (s : Network V) (nodeId : NodeId) (earlier later : CommandId) : Prop :=
  ∃ row ∈ (s.site nodeId).ledger.executions, ∃ next ∈ (s.site nodeId).ledger.executions,
    row.commandId = earlier ∧ next.commandId = later ∧ row.taskId = next.taskId ∧
      row.admissionSequence < next.admissionSequence ∧
        s.db.runsAt nodeId next.taskId later = true

/-- The coordinator has every event the node wrote of the command, its terminal event included. -/
structure AcceptedToEnd (s : Network V) (nodeId : NodeId) (commandId : CommandId) : Prop where
  all : s.db.journalOf commandId = (s.site nodeId).ledger.eventsOf commandId
  ended : ∃ event ∈ s.db.journalOf commandId, event.isTerminal = true

/-- Once a batch of the second command was sent, or taken in from the node, the first one is
published to its end. -/
def InOrder (s : Network V) (earlier later : CommandId) : Prop :=
  ∀ nodeId, ∀ row ∈ (s.site nodeId).ledger.executions,
    ∀ next ∈ (s.site nodeId).ledger.executions,
      row.commandId = earlier → next.commandId = later → row.taskId = next.taskId →
        row.admissionSequence < next.admissionSequence →
          s.db.journalAt nodeId later next.taskId ≠ [] ∨ s.Underway nodeId later →
            (s.site nodeId).ledger.Complete row

theorem inOrder_empty (earlier later : CommandId) : (empty : Network V).InOrder earlier later :=
  fun _ _ hrow => absurd hrow not_mem_empty

theorem journalAt_ne_nil {db : Database V} :
    db.journalAt nid cid tid ≠ [] ↔ db.runsAt nid tid cid = true ∧ db.journalOf cid ≠ [] := by
  unfold Database.journalAt
  split <;> simp [*]

/-- What has begun with a step had begun before, or the step sends it. -/
theorem Stepped.begun [JsonText V] {input : Input V} (hstep : Stepped ids bytes s input s')
    (hsound : s.Sound) (hkept : ¬ input.Deletes s cid)
    (h : s'.db.journalAt nid cid tid ≠ [] ∨ s'.Underway nid cid) :
    (s.db.journalAt nid cid tid ≠ [] ∨ s.Underway nid cid) ∨
      (s'.site nid).ledger.Sends bytes cid := by
  rcases h with hjnl | hunder
  · obtain ⟨hruns, hjnl⟩ := journalAt_ne_nil.mp hjnl
    have hplace : ∀ {other : NodeId} {task : TaskId}, s.db.runsAt other task cid = true →
        other = nid ∧ task = tid :=
      fun hold => Database.runsAt_unique (hstep.runsAt hsound hkept hold) hruns
    obtain ⟨ev, hev⟩ := exists_mem_of_ne_nil _ hjnl
    rcases hstep.mem_journalOf hsound hev with hold | ⟨other, task, hold, hunder⟩
    · have hbefore := ne_nil_of_mem hold
      obtain ⟨other, task, hat⟩ := hsound.db.exists_runsAt hbefore
      obtain ⟨rfl, rfl⟩ := hplace hat
      exact .inl (.inl (journalAt_ne_nil.mpr ⟨hat, hbefore⟩))
    · obtain ⟨rfl, rfl⟩ := hplace hold
      exact .inl (.inr hunder)
  · exact ((hstep.moved nid).underway hunder).imp_left .inr

/-- **A step keeps the order of the two commands.** -/
theorem InOrder.step [JsonText V] {input : Input V} (h : s.InOrder earlier later)
    (hstep : Stepped ids bytes s input s') (hsound : s.Sound) (htrack : s.Tracked bytes later)
    (hkept : ¬ input.Deletes s later) : s'.InOrder earlier later := by
  intro nid row hrow next hnext hid hnextId htask hbef hbegun
  rcases hstep.begun hsound hkept hbegun with hold | hsends
  · cases (hstep.moved nid).rows next hnext with
    | new hfsh =>
      -- Of a command the node has no row of, nothing was sent or taken in.
      rcases hold with hjnl | hunder
      · obtain ⟨q, hq, hqid, _⟩ := (htrack nid).journalled _ hjnl
        exact absurd (hqid.trans hnextId.symm) (hfsh q hq)
      · obtain ⟨q, hq, hqid⟩ := htrack.exists_row_of_underway hunder
        exact absurd (hqid.trans hnextId.symm) (hfsh q hq)
    | @kept next₀ hnext₀ hsame _ =>
      have hbefore₀ : row.admissionSequence < next₀.admissionSequence :=
        hsame.admissionSequence ▸ hbef
      cases (hstep.moved nid).rows row hrow with
      | new _ hlast _ =>
        -- A command that is admitted now comes behind the second one.
        have hadm := (hsound.ledger nid).admission next₀ hnext₀
        omega
      | @kept row₀ hrow₀ hsame' hcompl =>
        refine hcompl (h nid row₀ hrow₀ next₀ hnext₀ (hsame'.commandId.symm.trans hid)
          (hsame.commandId.symm.trans hnextId) ?_ (hsame'.admissionSequence ▸ hbefore₀)
          (hsame.taskId ▸ hold))
        rw [← hsame'.taskId, ← hsame.taskId, htask]
  · exact ((hstep.sound hsound).ledger nid).complete_of_sends hsends hrow hnext hnextId htask hbef

/-- A command that is published to its end is accepted to its end. -/
theorem Tracked.acceptedToEnd (h : s.Tracked bytes cid) (hsound : s.Sound) {row : ExecutionRow}
    (hrow : row ∈ (s.site nid).ledger.executions) (hid : row.commandId = cid)
    (hcompl : (s.site nid).ledger.Complete row) : s.AcceptedToEnd nid cid := by
  have hflow := (h nid).flow row hrow hid
  subst hid
  have hat : s.db.journalAt nid row.commandId row.taskId =
      (s.site nid).ledger.eventsOf row.commandId :=
    hflow.inLedger.eq_of_length_le (Nat.le_trans hcompl.published hflow.published)
  have hopen := (hsound.ledger nid).opened row hrow
  rw [← hat, journalAt_ne_nil] at hopen
  have hall : s.db.journalOf row.commandId = (s.site nid).ledger.eventsOf row.commandId :=
    (if_pos hopen.1).symm.trans hat
  exact ⟨hall, hall ▸ ((hsound.ledger nid).terminal_iff hrow).mp hcompl.terminal⟩

/-- What holds of two commands whose task is not deleted. -/
structure Turns (s : Network V) (bytes : MessageBytes V) (earlier later : CommandId) : Prop where
  sound : s.Sound
  first : s.Tracked bytes earlier
  second : s.Tracked bytes later
  order : s.InOrder earlier later

theorem Turns.accepted (h : s.Turns bytes earlier later)
    (hadm : s.AdmittedBefore nid earlier later)
    (hbegun : s.db.journalOf later ≠ [] ∨ s.Underway nid later) : s.AcceptedToEnd nid earlier := by
  obtain ⟨row, hrow, next, hnext, hid, hnextId, htask, hbef, hruns⟩ := hadm
  refine h.first.acceptedToEnd h.sound hrow hid
    (h.order nid row hrow next hnext hid hnextId htask hbef ?_)
  exact hbegun.imp_left fun hjnl => journalAt_ne_nil.mpr ⟨hruns, hjnl⟩

end Network

/-- **The turns of a task do not interleave.** Along every run in which the task of the two commands
is deleted on neither side, whenever the coordinator takes in an event of the later one, it has
every event of the earlier one, the terminal event included; and so it is in every state in which it
has an event of the later one. -/
theorem turns_in_order [JsonText V] (ids : DerivedIds) (bytes : MessageBytes V)
    (home : NodeId → Home) (inputs : List (Network.Input V)) (earlier later : CommandId)
    (hearlier : Network.RunMeets ids bytes home (fun s input => ¬ input.Deletes s earlier)
      .empty inputs)
    (hlater : Network.RunMeets ids bytes home (fun s input => ¬ input.Deletes s later)
      .empty inputs) (nodeId : NodeId)
    (hadmitted : (Network.run ids bytes home .empty inputs).AdmittedBefore nodeId earlier later) :
    (∀ input event,
      event ∈ ((Network.run ids bytes home .empty inputs).step ids bytes home
        input).db.journalOf later →
      event ∉ (Network.run ids bytes home .empty inputs).db.journalOf later →
        (Network.run ids bytes home .empty inputs).AcceptedToEnd nodeId earlier) ∧
    ((Network.run ids bytes home .empty inputs).db.journalOf later ≠ [] →
      (Network.run ids bytes home .empty inputs).AcceptedToEnd nodeId earlier) := by
  have hturns : (Network.run ids bytes home .empty inputs).Turns bytes earlier later := by
    refine Network.RunMeets.induction (motive := fun s => s.Turns bytes earlier later)
      (fun s input h hkept => ?_) ⟨Network.sound_empty, Network.tracked_empty bytes earlier,
        Network.tracked_empty bytes later, Network.inOrder_empty earlier later⟩
      (hearlier.and hlater)
    have hstep := Network.stepped h.sound.ledger ids bytes home input
    exact ⟨hstep.sound h.sound, hstep.tracked h.first h.sound hkept.1,
      hstep.tracked h.second h.sound hkept.2, h.order.step hstep h.sound h.second hkept.2⟩
  refine ⟨fun input event hevent hnew => hturns.accepted hadmitted (.inr ?_),
    fun h => hturns.accepted hadmitted (.inl h)⟩
  -- The batch was on its way from the node that has the later command.
  have hstep := Network.stepped hturns.sound.ledger ids bytes home input
  obtain ⟨other, task, hruns, hunderway⟩ :=
    (hstep.mem_journalOf hturns.sound hevent).resolve_left hnew
  obtain ⟨_, _, _, _, _, _, _, _, hown⟩ := hadmitted
  rw [(Database.runsAt_unique hown hruns).1]
  exact hunderway

/-! ## Two turns and a reconnect -/

/-- Two commands are taken in, the first one ends and the connection breaks. Behind the reconnect
the first one is published and accepted, and the batch of the second one is on its way. -/
def twoTurns : List (Network.Input Unit) :=
  started ++ [.transaction (.admitCommand ⟨1⟩ ⟨1⟩ ⟨0⟩ ⟨"web"⟩ ⟨2⟩ (.fromText "Go on.") true),
    .deliver ⟨0⟩ ⟨1⟩ ⟨⟨2⟩, ⟨0⟩, ⟨"web"⟩, ⟨"agent"⟩, .fromText "Go on.", none⟩,
    .node ⟨0⟩ (.receive false 8 fun _ => 0),
    .node ⟨0⟩ (.finish ⟨1⟩ [] .completed fun _ => 0), .node ⟨0⟩ .disconnect, .node ⟨0⟩ .connect,
    .handle ⟨0⟩ "", .handle ⟨0⟩ "", .node ⟨0⟩ (.receive false 9 fun _ => 0),
    .node ⟨0⟩ (.receive false 9 fun _ => 0), .handle ⟨0⟩ ""]

theorem turns_in_order_reconnected :
    (after twoTurns).db.journalOf ⟨2⟩ = [] ∧ (after twoTurns).AcceptedToEnd ⟨0⟩ ⟨1⟩ := by
  have hempty : (after twoTurns).db.journalOf ⟨2⟩ = [] := by decide
  have hlength : ((after (twoTurns ++ [.handle ⟨0⟩ ""])).db.journalOf ⟨2⟩).length = 1 := by decide
  obtain ⟨event, hevent⟩ := exists_mem_of_length_pos (hlength ▸ Nat.one_pos)
  have hrows : (((after twoTurns).site ⟨0⟩).ledger.executions.rows.any fun row =>
      ((after twoTurns).site ⟨0⟩).ledger.executions.rows.any fun next =>
        decide (row.commandId = ⟨1⟩ ∧ next.commandId = ⟨2⟩ ∧ row.taskId = next.taskId ∧
          row.admissionSequence < next.admissionSequence ∧
            (after twoTurns).db.runsAt ⟨0⟩ next.taskId ⟨2⟩ = true)) = true := by decide
  have hadmitted : (after twoTurns).AdmittedBefore ⟨0⟩ ⟨1⟩ ⟨2⟩ := by
    obtain ⟨row, hrow, hrest⟩ := any_eq_true.mp hrows
    obtain ⟨next, hnext, hboth⟩ := any_eq_true.mp hrest
    exact ⟨row, hrow, next, hnext, of_decide_eq_true hboth⟩
  have hkept : ∀ cid : CommandId, Network.RunMeets Renoa.Control.offsetIds
      (fun _ _ events => events.length) anyHome (fun s input => ¬ input.Deletes s cid) .empty
      twoTurns := fun _ =>
    ⟨id, id, id, id, id, id, id, id, id, id, id, id, id, id, id, id, id, trivial⟩
  refine ⟨hempty, (turns_in_order _ _ _ twoTurns ⟨1⟩ ⟨2⟩ (hkept ⟨1⟩) (hkept ⟨2⟩) ⟨0⟩
    hadmitted).1 (.handle ⟨0⟩ "") event ?_ (hempty ▸ not_mem_nil)⟩
  rwa [after, Network.run, foldl_append] at hevent

end Renoa.Node
