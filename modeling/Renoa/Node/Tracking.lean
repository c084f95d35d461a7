import Renoa.Node.BatchAcceptance

/-!
# What a node keeps of a command

`AtNode` ties one node to what the coordinator has of one command from it: the events of the node's
row flow (`Flow`), a node without a row has nothing of the command on its way, and where the
coordinator has events there is a row. A row in another task than the coordinator's is of no harm:
the coordinator has nothing from it. Each change of the ledger, of the session and of the journal
has its lemma here; `Site.Stepped.atNode` puts them together for the steps of a node.
-/

namespace Renoa.Node

open Foundation Protocol List Table Function
open Control (TaskId)

variable {V : Type} {bytes : MessageBytes V} {cid : CommandId} {row row' : ExecutionRow}
  {tid : TaskId} {journal : TaskId → List (ExecutionEvent V)} {site : Site V} {l l' : Ledger V}
  {σ σ' : Session V} {pubs : List Publication} {new : List (ExecutionEvent V)}
  {cmd : CommandEnvelope}

/-! ## One node -/

/-- The session has nothing of the command. -/
structure Session.Silent (σ : Session V) (commandId : CommandId) : Prop where
  publication : publicationOf σ.publications commandId = none
  outgoing : batchesOf commandId σ.outgoing = []
  incoming : acceptedOf commandId σ.incoming = []

/-- What a node keeps about a command; `journal` is what the coordinator has of it from the node,
in each task. -/
structure AtNode (bytes : MessageBytes V) (commandId : CommandId)
    (journal : TaskId → List (ExecutionEvent V)) (site : Site V) : Prop where
  flow : ∀ row ∈ site.ledger.executions, row.commandId = commandId →
    Flow bytes row (site.ledger.eventsOf row.commandId) (journal row.taskId) site.session
      (batchesOf row.commandId site.late)
  absent : (∀ row ∈ site.ledger.executions, row.commandId ≠ commandId) →
    batchesOf commandId site.late = [] ∧ ∀ σ, site.session = some σ → σ.Silent commandId
  journalled : ∀ taskId, journal taskId ≠ [] →
    ∃ row ∈ site.ledger.executions, row.commandId = commandId ∧ row.taskId = taskId

theorem atNode_empty (bytes : MessageBytes V) (cid : CommandId) (hjnl : ∀ tid, journal tid = []) :
    AtNode bytes cid journal .empty where
  flow _ h := absurd h not_mem_empty
  absent _ := ⟨rfl, fun _ h => by cases h⟩
  journalled tid h := absurd (hjnl tid) h

theorem Site.setSession_of_session (hσ : site.session = some σ) : site.setSession σ = site := by
  rw [setSession, ← hσ]

namespace AtNode

/-- Another session with the same publication and no more messages of the command. -/
theorem replace (h : AtNode bytes cid journal (site.setSession σ))
    (hpubl : flightOf σ'.publications cid = flightOf σ.publications cid)
    (hout : List.Sublist (batchesOf cid σ'.outgoing) (batchesOf cid σ.outgoing))
    (hin : List.Sublist (acceptedOf cid σ'.incoming) (acceptedOf cid σ.incoming)) :
    AtNode bytes cid journal (site.setSession σ') where
  flow row hrow hid := by
    have hold := h.flow row hrow hid
    subst hid
    refine hold.replace ?_ ?_ hout hin
    · rw [Agrees, hpubl]
      exact (hold.flight σ rfl).record
    · rw [Session.inFlight, inFlightOf_eq, hpubl, ← inFlightOf_eq, Session.inFlight]
  absent hnone := by
    obtain ⟨hlate, hsil⟩ := h.absent hnone
    refine ⟨hlate, ?_⟩
    rintro _ ⟨⟩
    have hold := hsil σ rfl
    refine ⟨?_, sublist_nil.mp (hold.outgoing ▸ hout), sublist_nil.mp (hold.incoming ▸ hin)⟩
    rw [flightOf, flightOf, hold.publication, Option.map_none] at hpubl
    exact Option.map_eq_none_iff.mp hpubl
  journalled := h.journalled

/-- The end of the session. -/
theorem endSession (h : AtNode bytes cid journal (site.setSession σ)) :
    AtNode bytes cid journal (site.endSession σ) where
  flow row hrow hid := by
    have hold := (h.flow row hrow hid).disconnect
    rw [← batchesOf_append] at hold
    exact hold
  absent hnone := by
    obtain ⟨hlate, hsil⟩ := h.absent hnone
    refine ⟨?_, fun _ hσ => by cases hσ⟩
    show batchesOf cid (site.late ++ σ.outgoing) = []
    rw [batchesOf_append, (hsil σ rfl).outgoing, append_nil]
    exact hlate
  journalled := h.journalled

theorem disconnect (h : AtNode bytes cid journal site) :
    AtNode bytes cid journal site.disconnect := by
  unfold Site.disconnect
  cases hσ : site.session with
  | none => exact h
  | some σ =>
    rw [← Site.setSession_of_session hσ] at h
    exact h.endSession

/-- A new session. -/
theorem connect (h : AtNode bytes cid journal site) (hnone : site.session = none) :
    AtNode bytes cid journal (site.setSession .opened) where
  flow row hrow hid := by
    have hold := h.flow row hrow hid
    rw [hnone] at hold
    exact hold.connect
  absent hrow := by
    refine ⟨(h.absent hrow).1, ?_⟩
    rintro _ ⟨⟩
    exact ⟨rfl, rfl, rfl⟩
  journalled := h.journalled

end AtNode

theorem publicationOf_absent (h : Reads l pubs)
    (hnone : ∀ row ∈ l.executions, row.commandId ≠ cid) :
    publicationOf pubs cid = none :=
  publicationOf_eq_none.mpr fun p hp => hnone _ (h.record p hp)

/-- Nothing is sent for a command the ledger has no row of. -/
theorem sent_absent (hrds : Reads l pubs) (hnone : ∀ row ∈ l.executions, row.commandId ≠ cid) :
    batchesOf cid (sendPending bytes l pubs).1 = [] ∧
      ∀ after, (sendPending bytes l pubs).2 = .ok after →
        publicationOf after cid = none := by
  have habsent := publicationOf_absent hrds hnone
  have hpass : SentFor bytes l cid pubs _ _ := sendPending_spec l pubs hrds.nodup
  cases hpass with
  | nothing hsent hfl =>
    refine ⟨hsent, fun after haft => Option.map_eq_none_iff.mp ((hfl after haft).trans ?_)⟩
    rw [flightOf, habsent]
    rfl
  | batch hpubl =>
    rw [habsent] at hpubl
    cases hpubl

namespace AtNode

section

variable (h : AtNode bytes cid journal (site.setSession σ)) (hc : site.ledger.Consistent)

include h hc

/-- The session reads the ledger again. -/
theorem refresh : AtNode bytes cid journal (site.setSession
    { σ with publications := refreshPublications site.ledger σ.publications }) where
  flow row hrow hid := (h.flow row hrow hid).refresh hc hrow
  absent hnone := by
    obtain ⟨hlate, hsil⟩ := h.absent hnone
    refine ⟨hlate, ?_⟩
    rintro _ ⟨⟩
    exact ⟨publicationOf_absent (reads_refresh site.ledger σ.publications) hnone,
      (hsil σ rfl).outgoing, (hsil σ rfl).incoming⟩
  journalled := h.journalled

/-- A pass over the publications, sent whole or cut short by an event that is too long. -/
theorem send (hrds : Reads site.ledger σ.publications) :
    AtNode bytes cid journal (site.send bytes σ) := by
  unfold Site.send
  dsimp only
  split
  · rename_i after haft
    refine ⟨fun row hrow hid => (h.flow row hrow hid).send hc hrow hrds haft, fun hnone => ?_,
      h.journalled⟩
    obtain ⟨hlate, hsil⟩ := h.absent hnone
    obtain ⟨hsent, hpubl⟩ := sent_absent hrds hnone
    refine ⟨hlate, ?_⟩
    rintro _ ⟨⟩
    refine ⟨hpubl after haft, ?_, (hsil σ rfl).incoming⟩
    rw [batchesOf_append, (hsil σ rfl).outgoing, hsent]
    rfl
  · refine ⟨fun row hrow hid => ?_, fun hnone => ⟨?_, fun _ hσ => by cases hσ⟩, h.journalled⟩
    · have hold := (h.flow row hrow hid).send_error hc hrow hrds
      rw [← batchesOf_append] at hold
      exact hold
    · obtain ⟨hlate, hsil⟩ := h.absent hnone
      show batchesOf cid (site.late ++ (σ.outgoing ++ _)) = []
      rw [batchesOf_append, batchesOf_append, (hsil σ rfl).outgoing, (sent_absent hrds hnone).1,
        append_nil, append_nil]
      exact hlate

theorem publish : AtNode bytes cid journal (site.publish bytes σ) :=
  (h.refresh hc).send hc (reads_refresh _ _)

end

end AtNode

/-! ## Writes of the ledger -/

/-- A write keeps the command's row as far as publication reads it, and its events. -/
structure KeepsCommand (commandId : CommandId) (l l' : Ledger V) : Prop where
  back : ∀ row' ∈ l'.executions, row'.commandId = commandId → ∃ row ∈ l.executions,
    row'.commandId = row.commandId ∧ row'.taskId = row.taskId ∧
      row'.publishedThrough = row.publishedThrough
  forth : ∀ row ∈ l.executions, row.commandId = commandId →
    ∃ row' ∈ l'.executions, row'.commandId = commandId ∧ row'.taskId = row.taskId
  events : l.eventsOf commandId <+: l'.eventsOf commandId

theorem keepsCommand_of_eq (hexs : l'.executions = l.executions)
    (hevs : l'.eventsOf cid = l.eventsOf cid) : KeepsCommand cid l l' where
  back row hrow _ := ⟨row, hexs ▸ hrow, rfl, rfl, rfl⟩
  forth row hrow hid := ⟨row, hexs ▸ hrow, hid, rfl⟩
  events := hevs ▸ prefix_rfl

theorem KeepsCommand.trans {mid : Ledger V} (h : KeepsCommand cid l mid)
    (h' : KeepsCommand cid mid l') : KeepsCommand cid l l' where
  back row' hrow' hid := by
    obtain ⟨row, hrow, hrowId, htask, hpub⟩ := h'.back row' hrow' hid
    obtain ⟨old, hold, holdId, htask', hpub'⟩ := h.back row hrow (hrowId.symm.trans hid)
    exact ⟨old, hold, hrowId.trans holdId, htask.trans htask', hpub.trans hpub'⟩
  forth row hrow hid := by
    obtain ⟨row', hrow', hid', htask'⟩ := h.forth row hrow hid
    obtain ⟨next, hnext, hnextId, htask⟩ := h'.forth row' hrow' hid'
    exact ⟨next, hnext, hnextId, htask.trans htask'⟩
  events := h.events.trans h'.events

theorem ExecutionChange.keepsCommand (h : ExecutionChange l l' row row' new)
    (hpub : row.commandId = cid → row'.publishedThrough = row.publishedThrough) :
    KeepsCommand cid l l' where
  back q hq hid := by
    rcases h.mem_executions.mp hq with rfl | ⟨hold, _⟩
    · have hrowId := h.same.commandId
      exact ⟨row, h.mem, hrowId, h.same.taskId, hpub (hrowId.symm.trans hid)⟩
    · exact ⟨q, hold, rfl, rfl, rfl⟩
  forth q hq hid := by
    refine h.exists_row hq ?_ ⟨hid, rfl⟩
    rintro rfl
    exact ⟨h.same.commandId.trans hid, h.same.taskId⟩
  events := Ledger.eventsOf_prefix h.events cid

theorem BoundTask.keepsCommand {given binding : TargetBinding}
    (h : BoundTask l l' tid given binding) (cid : CommandId) : KeepsCommand cid l l' :=
  keepsCommand_of_eq (congrArg (·.executions) h.rest) (h.eventsOf_eq cid)

theorem Admitted.keepsCommand {drawn : Drawn} (h : Admitted l l' drawn tid cmd)
    (hne : cmd.commandId ≠ cid) : KeepsCommand cid l l' where
  back row hrow hid := by
    rcases h.mem_executions.mp hrow with hold | rfl
    · exact ⟨row, hold, rfl, rfl, rfl⟩
    · exact absurd hid hne
  forth row hrow hid := ⟨row, h.mem_executions.mpr (.inl hrow), hid, rfl⟩
  events := by simp only [h.eventsOf_other hne.symm, prefix_refl]

theorem Ledger.forgetTask_keepsCommand
    (h : ∀ row ∈ l.executions, row.commandId = cid → row.taskId ≠ tid) :
    KeepsCommand cid l (l.forgetTask tid) where
  back row hrow _ := ⟨row, (mem_executions_forgetTask.mp hrow).1, rfl, rfl, rfl⟩
  forth row hrow hid := ⟨row, mem_executions_forgetTask.mpr ⟨hrow, h row hrow hid⟩, hid, rfl⟩
  events := by simp only [eventsOf_forgetTask h, prefix_refl]

/-- Handling an `Execute` keeps the command, unless it takes the command in. -/
theorem Executed.keepsCommand {drawn : Drawn} (h : Executed l l' drawn tid cmd)
    (cid : CommandId) : KeepsCommand cid l l' ∨ ((∀ row ∈ l.executions, row.commandId ≠ cid) ∧
      (∃ row ∈ l'.executions, row.commandId = cid) ∧
      ∀ row ∈ l'.executions, row.commandId = cid → row.publishedThrough = none) := by
  cases h with
  | drained hl => exact .inl (keepsCommand_of_eq (congrArg _ hl) (congrArg (·.eventsOf cid) hl))
  | existing hbnd _ _ _ hchg =>
    exact .inl ((hbnd.keepsCommand cid).trans (hchg.keepsCommand fun _ => rfl))
  | @admitted mid taken _ _ hbnd hadm hchg =>
    by_cases hid : cmd.commandId = cid
    · subst hid
      have hexs : mid.executions = l.executions := congrArg (·.executions) hbnd.rest
      refine .inr ⟨fun row hrow => hadm.fresh row (hexs ▸ hrow), ⟨_, hchg.mem_new, rfl⟩,
        fun row hrow hid => ?_⟩
      rw [key_inj hrow hchg.mem_new hid]
      rfl
    · exact .inl ((hbnd.keepsCommand cid).trans
        ((hadm.keepsCommand hid).trans (hchg.keepsCommand fun _ => rfl)))

namespace AtNode

theorem keeps (h : AtNode bytes cid journal site) (hkp : KeepsCommand cid site.ledger l') :
    AtNode bytes cid journal { site with ledger := l' } where
  flow row' hrow' hid := by
    obtain ⟨row, hrow, hrowId, htask, hpub⟩ := hkp.back row' hrow' hid
    have hold := h.flow row hrow (hrowId.symm.trans hid)
    have hevs := hkp.events
    subst hid
    rw [← hrowId, ← htask] at hold
    exact (hold.grow hevs).congr_row hrowId htask hpub
  absent hnone := h.absent fun row hrow hid => by
    obtain ⟨row', hrow', hid', _⟩ := hkp.forth row hrow hid
    exact hnone row' hrow' hid'
  journalled tid hjnl := by
    obtain ⟨row, hrow, hid, htask⟩ := h.journalled tid hjnl
    obtain ⟨row', hrow', hid', htask'⟩ := hkp.forth row hrow hid
    exact ⟨row', hrow', hid', htask'.trans htask⟩

/-- The node handles an `Execute`. Where it had no row, the coordinator has nothing from it. -/
theorem executed (h : AtNode bytes cid journal site) {drawn : Drawn}
    (hexec : Executed site.ledger l' drawn tid cmd) :
    AtNode bytes cid journal { site with ledger := l' } := by
  rcases hexec.keepsCommand cid with hkp | ⟨hfsh, ⟨row, hrow, hid⟩, hrows⟩
  · exact h.keeps hkp
  · have hjnl : ∀ tid, journal tid = [] := by
      intro tid
      by_contra hjnl
      obtain ⟨old, hold, holdId, _⟩ := h.journalled tid hjnl
      exact hfsh old hold holdId
    obtain ⟨hlate, hsil⟩ := h.absent hfsh
    refine ⟨fun row hrow hid => ?_, fun hnone => absurd hid (hnone row hrow),
      fun tid hne => absurd (hjnl tid) hne⟩
    have hpub := hrows row hrow hid
    subst hid
    rw [hjnl, hlate]
    exact flow_admitted hpub _ site.session fun σ hσ =>
      ⟨(hsil σ hσ).publication, (hsil σ hσ).outgoing, (hsil σ hσ).incoming⟩

/-- A message is read. -/
theorem read (h : AtNode bytes cid journal (site.setSession σ)) {message : ServerMessage}
    {rest : List ServerMessage} (hin : σ.incoming = message :: rest) :
    AtNode bytes cid journal (site.setSession { σ with incoming := rest }) := by
  refine h.replace rfl (List.Sublist.refl _) ?_
  rw [hin]
  exact (sublist_cons_self message rest).filterMap _

end AtNode

/-- Rewriting one command's publication. -/
theorem publicationOf_update (pubs : List Publication) (cause cid : CommandId)
    {f : Publication → Publication} (hf : ∀ p, (f p).record = p.record) :
    publicationOf (updatePublication pubs cause f) cid =
      (publicationOf pubs cid).map fun p => if cause = cid then f p else p := by
  have hid : ∀ p : Publication, (if p.commandId = cause then f p else p).commandId =
      p.commandId := by
    intro p
    split
    · rw [Publication.commandId, hf, Publication.commandId]
    · rfl
  unfold publicationOf updatePublication
  rw [find?_map]
  simp only [comp_def, hid]
  cases hfnd : pubs.find? fun p => p.commandId = cid with
  | none => rfl
  | some p =>
    have hp : p.commandId = cid := by simpa using find?_some hfnd
    rw [Option.map_some, Option.map_some, hp]
    by_cases hcau : cause = cid
    · rw [if_pos hcau, if_pos hcau.symm]
    · rw [if_neg hcau, if_neg fun heq => hcau heq.symm]

namespace AtNode

/-- Rewriting the publication of a command, with the flight of this one kept. -/
theorem update (h : AtNode bytes cid journal (site.setSession σ)) {cause : CommandId}
    {f : Publication → Publication} (hf : ∀ p, (f p).record = p.record)
    (hfl : cause = cid → ∀ p, (f p).eventInFlight = p.eventInFlight) :
    AtNode bytes cid journal (site.setSession
      { σ with publications := updatePublication σ.publications cause f }) := by
  refine h.replace ?_ (List.Sublist.refl _) (List.Sublist.refl _)
  rw [flightOf, publicationOf_update _ _ _ hf, Option.map_map]
  refine congrArg (Option.map · _) (funext fun p => ?_)
  by_cases hcau : cause = cid
  · simp [hcau, hf, hfl hcau]
  · simp [hcau]

/-- The node moved the command's cursor behind the batch it had in flight. -/
theorem advance (h : AtNode bytes cid journal (site.setSession σ)) (hc : l'.Consistent)
    {thru : Nat} {rest : List ServerMessage}
    (hin : σ.incoming = .executionEventsAccepted cid thru :: rest) (hid : row.commandId = cid)
    (hchg : ExecutionChange site.ledger l' row (row.publishThrough thru) []) :
    AtNode bytes cid journal ({ site with ledger := l' }.setSession
      ⟨refreshPublications l' (updatePublication σ.publications cid
        fun p => { p with eventInFlight := none }), σ.outgoing, rest⟩) := by
  subst hid
  have hrow : row.publishThrough thru ∈ l'.executions := hchg.mem_new
  have hrds := reads_refresh l' (updatePublication σ.publications row.commandId
    fun p => { p with eventInFlight := none })
  refine ⟨fun q hq hid => ?_, fun hnone => absurd rfl (hnone (row.publishThrough thru) hrow),
    fun tid hjnl => ?_⟩
  · have hsame : q = row.publishThrough thru := key_inj hq hrow hid
    subst hsame
    have hevs : l'.eventsOf row.commandId = site.ledger.eventsOf row.commandId :=
      hchg.eventsOf_eq row.commandId
    show Flow bytes (row.publishThrough thru) (l'.eventsOf row.commandId)
      (journal row.taskId) _ (batchesOf row.commandId site.late)
    rw [hevs]
    refine (h.flow row hchg.mem rfl).advance hin (hrds.agrees hrow) ?_
    have hcleared : inFlightOf (updatePublication σ.publications row.commandId
        fun p => { p with eventInFlight := none }) row.commandId = none := by
      rw [inFlightOf, publicationOf_update]
      · cases publicationOf σ.publications row.commandId with
        | none => rfl
        | some p => simp
      · exact fun _ => rfl
    have hrefresh := inFlightOf_refresh hc hrow (updatePublication σ.publications row.commandId
      fun p => { p with eventInFlight := none })
    rw [show (row.publishThrough thru).commandId = row.commandId from rfl, hcleared, ite_self]
      at hrefresh
    exact hrefresh
  · obtain ⟨q, hq, hqid, htask⟩ := h.journalled tid hjnl
    exact ⟨_, hrow, rfl, (congrArg _ (key_inj hq hchg.mem hqid)).symm.trans htask⟩

/-- The coordinator accepted the batch at the front of the connection. -/
theorem handled (h : AtNode bytes cid journal (site.setSession σ))
    {batch : List (ExecutionEvent V)} {rest : List (ClientMessage V)}
    (hout : σ.outgoing = .publishExecutionEvents tid cid batch :: rest)
    {last : ExecutionEvent V} (hlast : batch.getLast? = some last)
    (hjrn : ∀ row ∈ site.ledger.executions, row.commandId = cid →
      last.sequence < (journal row.taskId).length) :
    AtNode bytes cid journal (site.setSession ⟨σ.publications, rest,
      σ.incoming ++ [.executionEventsAccepted cid last.sequence]⟩) where
  flow row hrow hid := by
    subst hid
    exact (h.flow row hrow rfl).handled hout hlast (hjrn row hrow rfl)
  absent hnone := by
    have hsil := ((h.absent hnone).2 σ rfl).outgoing
    rw [hout, batchesOf, filterMap_cons] at hsil
    simp [ClientMessage.batch?] at hsil
  journalled := h.journalled

theorem of_late (h : AtNode bytes cid journal site) {late : List (ClientMessage V)}
    (hsub : late ⊆ site.late) : AtNode bytes cid journal { site with late } := by
  have hbats : ∀ d, batchesOf d late ⊆ batchesOf d site.late :=
    fun d batch hbat => mem_batchesOf.mpr (hsub (mem_batchesOf.mp hbat))
  refine ⟨fun row hrow hid => (h.flow row hrow hid).of_subset (hbats _),
    fun hnone => ⟨?_, (h.absent hnone).2⟩, h.journalled⟩
  have hemp := hbats cid
  rw [(h.absent hnone).1] at hemp
  exact subset_nil.mp hemp

end AtNode

/-- The node deletes the command's task. -/
def Site.Input.Deletes (site : Site V) (commandId : CommandId) : Site.Input V → Prop
  | .forget taskId => (∃ session, site.ledger.taskSession taskId = .ok (some session)) ∧
      ∃ row ∈ site.ledger.executions, row.commandId = commandId ∧ row.taskId = taskId
  | _ => False

/-- **A step of the node that does not delete the command's task.** -/
theorem Site.Stepped.atNode {low : Nat} {input : Site.Input V} {site' : Site V}
    (hstep : Site.Stepped bytes low site input site') (h : AtNode bytes cid journal site)
    (hc : site.ledger.Consistent) (hkept : ¬ input.Deletes site cid) :
    AtNode bytes cid journal site' := by
  have hat : ∀ {σ : Session V}, site.session = some σ →
      AtNode bytes cid journal (site.setSession σ) :=
    fun hσ => (Site.setSession_of_session hσ).symm ▸ h
  cases hstep with
  | same => exact h
  | connect =>
    refine (h.disconnect.connect ?_).publish ?_
    · rw [disconnect_eq]
    · rw [disconnect_eq]
      exact hc
  | @ended _ σ hσ rest => exact (hat hσ).endSession
  | execute hσ hin hexec hdrawn =>
    have hcons := (hexec.writes hc hdrawn).consistent
    have hwritten : AtNode bytes cid journal (Site.setSession { site with ledger := _ } _) :=
      (hat hσ).executed hexec
    exact (hwritten.read hin).publish hcons
  | acknowledged hσ hin hid hchg =>
    have hcons := hchg.consistent_of_nil rfl hc
    have hwritten : AtNode bytes cid journal (Site.setSession { site with ledger := _ } _) :=
      (hat hσ).keeps (hchg.keepsCommand fun _ => rfl)
    exact ((hwritten.read hin).update (f := fun p => { p with admissionInFlight := false })
      (fun _ => rfl) fun _ _ => rfl).refresh hcons
  | @accepted _ σ rest cause thru ledger row hσ hin hid hchg =>
    have hcons := hchg.consistent_of_nil rfl hc
    change AtNode bytes cid journal (Site.send { site with ledger } bytes _)
    refine AtNode.send ?_ hcons (reads_refresh _ _)
    by_cases hcau : cause = cid
    · subst hcau
      exact (hat hσ).advance hcons hin hid hchg
    · have hwritten : AtNode bytes cid journal (Site.setSession { site with ledger } σ) :=
        (hat hσ).keeps (hchg.keepsCommand fun hsame => absurd (hid.symm.trans hsame) hcau)
      exact ((hwritten.read hin).update (f := fun p => { p with eventInFlight := none })
        (fun _ => rfl) fun hsame => absurd hsame hcau).refresh hcons
  | commit hσ => exact (hat hσ).publish hc
  | written hcont => exact h.keeps (hcont.change.keepsCommand fun _ => rfl)
  | stopped => exact h.keeps (keepsCommand_of_eq rfl rfl)
  | @forget tid sess hsess =>
    exact h.keeps (Ledger.forgetTask_keepsCommand fun row hrow hid htask =>
      hkept ⟨⟨sess, hsess⟩, row, hrow, hid, htask⟩)

/-! ## Where rows come from -/

/-- The execution ended, and all its events are published. -/
structure Ledger.Complete (l : Ledger V) (row : ExecutionRow) : Prop where
  terminal : row.terminal = true
  published : (l.eventsOf row.commandId).length ≤ row.start

/-- Where a row of the ledger comes from: it was there, and is published to its end if it was, or
its command was on its way and is admitted behind all others. -/
inductive RowStep (incoming : List ServerMessage) (l l' : Ledger V) (row' : ExecutionRow) : Prop
  | kept {row : ExecutionRow} (hrow : row ∈ l.executions) (hsame : row.SameCommand row')
      (hcomplete : l.Complete row → l'.Complete row')
  | new (hfresh : ∀ row ∈ l.executions, row.commandId ≠ row'.commandId)
      (hlast : l.nextAdmission ≤ row'.admissionSequence)
      (hsent : .execute row'.taskId row'.command ∈ incoming)

/-- What the node's connection carries to it. -/
def Site.incoming (site : Site V) : List ServerMessage := site.session.elim [] Session.incoming

theorem Site.incoming_of_session (hσ : site.session = some σ) :
    site.incoming = σ.incoming := by
  rw [incoming, hσ]
  rfl

def Ledger.RowSteps (incoming : List ServerMessage) (l l' : Ledger V) : Prop :=
  ∀ row' ∈ l'.executions, RowStep incoming l l' row'

section Writes

variable {incoming : List ServerMessage} {l l' : Ledger V} {row row' : ExecutionRow}

theorem rowStep_of_mem (hrow : row ∈ l.executions)
    (hevs : l'.eventsOf row.commandId = l.eventsOf row.commandId) : RowStep incoming l l' row :=
  .kept hrow ⟨rfl, rfl, rfl, rfl, rfl⟩ fun h => ⟨h.terminal, hevs ▸ h.published⟩

theorem Ledger.rowSteps_refl (incoming : List ServerMessage) (l : Ledger V) :
    Ledger.RowSteps incoming l l := fun _ h => rowStep_of_mem h rfl

theorem ExecutionChange.rowSteps {new : List (ExecutionEvent V)}
    (h : ExecutionChange l l' row row' new) (hcompl : l.Complete row → l'.Complete row') :
    Ledger.RowSteps incoming l l' := by
  intro q hq
  rcases h.mem_executions.mp hq with rfl | ⟨hold, hne⟩
  · exact .kept h.mem h.same hcompl
  · exact rowStep_of_mem hold (h.eventsOf_other hne)

/-- A write that adds no event and moves no cursor back. -/
theorem ExecutionChange.rowSteps_of_nil (h : ExecutionChange l l' row row' [])
    (hterm : row'.terminal = row.terminal) (hst : row.start ≤ row'.start) :
    Ledger.RowSteps incoming l l' := by
  refine h.rowSteps fun hcompl => ⟨hterm.trans hcompl.terminal, ?_⟩
  rw [h.same.commandId, h.eventsOf_eq]
  exact Nat.le_trans hcompl.published hst

theorem Continued.rowSteps {drawn : Nat → Drawn} {kinds : List (ExecutionEventKind V)}
    (h : Continued l l' row drawn kinds) : Ledger.RowSteps incoming l l' := by
  refine h.change.rowSteps fun hcompl => ?_
  -- An execution that ended writes no more events.
  have hkinds : kinds = [] := by
    by_contra hne
    have hopen := h.unended hne
    rw [hcompl.terminal] at hopen
    cases hopen
  subst hkinds
  refine ⟨?_, ?_⟩
  · rw [hcompl.terminal, Bool.true_or]
  · rw [h.change.eventsOf_self, show newEvents row.executionId drawn _ [] = [] from rfl, append_nil]
    exact hcompl.published

theorem ExecutionRow.start_le_publishThrough (row : ExecutionRow) (thru : Nat) :
    row.start ≤ (row.publishThrough thru).start := by
  unfold ExecutionRow.start ExecutionRow.publishThrough
  cases row.publishedThrough with
  | none => exact Nat.zero_le _
  | some published =>
    dsimp only
    split
    · exact Nat.succ_le_succ (Nat.le_of_lt ‹_›)
    · exact Nat.le_refl _

theorem Executed.rowSteps {drawn : Drawn} (h : Executed l l' drawn tid cmd)
    (hmem : .execute tid cmd ∈ incoming) : Ledger.RowSteps incoming l l' := by
  cases h with
  | drained hl => exact hl ▸ l.rowSteps_refl incoming
  | @existing mid _ _ row hbnd _ _ _ hchg =>
    have hexs : mid.executions = l.executions := congrArg (·.executions) hbnd.rest
    intro q hq
    have hstep : RowStep incoming mid l' q := hchg.rowSteps_of_nil rfl (Nat.le_refl _) q hq
    cases hstep with
    | kept hrow hsame hcompl =>
      refine .kept (hexs ▸ hrow) hsame fun hl => hcompl ⟨hl.terminal, ?_⟩
      rw [hbnd.eventsOf_eq]
      exact hl.published
    | new hfsh hlast hsent =>
      refine .new (hexs ▸ hfsh) ?_ hsent
      rwa [congrArg (·.nextAdmission) hbnd.rest] at hlast
  | @admitted mid taken _ _ hbnd hadm hchg =>
    have hexs : mid.executions = l.executions := congrArg (·.executions) hbnd.rest
    intro q hq
    rcases hchg.mem_executions.mp hq with rfl | ⟨hold, hne⟩
    · refine .new (fun row hrow => hadm.fresh row (hexs ▸ hrow)) (Nat.le_of_eq ?_) hmem
      exact (congrArg (·.nextAdmission) hbnd.rest).symm
    · have hnew : q ≠ admittedRow mid tid cmd := fun heq => hne (heq ▸ rfl)
      have hmid := (hadm.mem_executions.mp hold).resolve_right hnew
      refine rowStep_of_mem (hexs ▸ hmid) ?_
      rw [hchg.eventsOf_eq, hadm.eventsOf_other hne, hbnd.eventsOf_eq]

theorem Ledger.forgetTask_rowSteps (l : Ledger V) (tid : TaskId) :
    Ledger.RowSteps incoming l (l.forgetTask tid) := by
  intro q hq
  obtain ⟨hold, htask⟩ := mem_executions_forgetTask.mp hq
  refine rowStep_of_mem hold (eventsOf_forgetTask fun row hrow hid => ?_)
  rw [key_inj hrow hold hid]
  exact htask

theorem Site.Stepped.rows {low : Nat} {site site' : Site V} {input : Site.Input V}
    (h : Site.Stepped bytes low site input site') :
    Ledger.RowSteps site.incoming site.ledger site'.ledger := by
  have hrefl : Ledger.RowSteps site.incoming site.ledger site.ledger :=
    site.ledger.rowSteps_refl _
  cases h with
  | same | ended => exact hrefl
  | connect =>
    rw [publish, ledger_send, disconnect_eq]
    exact hrefl
  | execute hσ hin hexec =>
    rw [publish, ledger_send]
    refine hexec.rowSteps ?_
    rw [incoming_of_session hσ, hin]
    exact mem_cons_self
  | acknowledged _ _ _ hchg => exact hchg.rowSteps_of_nil rfl (Nat.le_refl _)
  | @accepted _ _ _ _ thru _ row _ _ _ hchg =>
    rw [ledger_send]
    exact hchg.rowSteps_of_nil rfl (row.start_le_publishThrough thru)
  | commit =>
    rw [publish, ledger_send]
    exact hrefl
  | written hcont => exact hcont.rowSteps
  | stopped stop => exact fun row hrow => rowStep_of_mem hrow rfl
  | forget => exact site.ledger.forgetTask_rowSteps _

end Writes

/-- A pass brings nothing to the node. -/
theorem Site.incoming_send (site : Site V) (σ : Session V) :
    (site.send bytes σ).incoming ⊆ σ.incoming := by
  unfold send
  dsimp only
  split
  · exact List.Subset.refl _
  · exact nil_subset _

/-- A step of the node only reads what is on its way to it. -/
theorem Site.Stepped.incoming {low : Nat} {site site' : Site V} {input : Site.Input V}
    (h : Site.Stepped bytes low site input site') : site'.incoming ⊆ site.incoming := by
  have hread : ∀ {σ : Session V} {message : ServerMessage} {rest : List ServerMessage},
      site.session = some σ → σ.incoming = message :: rest → rest ⊆ site.incoming := by
    intro σ message rest hσ hin
    rw [incoming_of_session hσ, hin]
    exact subset_cons_self _ _
  cases h with
  | same | written | stopped | forget => exact List.Subset.refl _
  | connect => exact List.Subset.trans (incoming_send _ _) (nil_subset _)
  | ended => exact nil_subset _
  | execute hσ hin | accepted hσ hin => exact List.Subset.trans (incoming_send _ _) (hread hσ hin)
  | acknowledged hσ hin => exact hread hσ hin
  | commit hσ =>
    exact List.Subset.trans (incoming_send _ _) (incoming_of_session hσ ▸ Subset.refl _)

end Renoa.Node
