import Renoa.Node.Session

/-!
# What a session sends

`fitting` is the batch `publicationBatch` builds. It only grows when the events behind it grow
(`fitting_mono`), so a batch that is built again from the same cursor covers every batch that was
built from it before. `sendPending_spec` says what a pass over the publications does for one
command: nothing, or one batch from its cursor, which is then in flight.
-/

namespace Renoa.Node

open Foundation Protocol List
open Control (TaskId)

variable {V : Type} {bytes : MessageBytes V} {tid : TaskId} {cid : CommandId}
  {events : List (ExecutionEvent V)} {l : Ledger V} {row : ExecutionRow}
  {publications : List Publication} {batch : TaskId × List (ExecutionEvent V)}
  {events' : List (ExecutionEvent V)} {after : List Publication}

/-! ## Batches -/

/-- The events taken into a batch while its message stays within the limit. -/
def fitting (bytes : MessageBytes V) (taskId : TaskId) (commandId : CommandId) :
    List (ExecutionEvent V) → List (ExecutionEvent V) → List (ExecutionEvent V)
  | batch, [] => batch
  | batch, event :: rest =>
    if maxApplicationMessageBytes < bytes taskId commandId (batch ++ [event]) then batch
    else fitting bytes taskId commandId (batch ++ [event]) rest

theorem publicationBatch_ok {batch res : List (ExecutionEvent V)}
    (h : publicationBatch bytes tid cid batch events = .ok res) :
    res = fitting bytes tid cid batch events := by
  induction events generalizing batch with
  | nil =>
    cases h
    rfl
  | cons ev rest ih =>
    unfold publicationBatch at h
    unfold fitting
    split at h
    · rename_i hlim
      rw [if_pos hlim]
      split at h
      · cases h
      · cases h
        rfl
    · rename_i hlim
      rw [if_neg hlim]
      exact ih h

theorem batch_prefix_fitting (batch events : List (ExecutionEvent V)) :
    batch <+: fitting bytes tid cid batch events := by
  induction events generalizing batch with
  | nil => exact prefix_refl _
  | cons ev rest ih =>
    unfold fitting
    split
    · exact prefix_refl _
    · exact (prefix_append batch [ev]).trans (ih _)

theorem fitting_isPrefix (batch events : List (ExecutionEvent V)) :
    fitting bytes tid cid batch events <+: batch ++ events := by
  induction events generalizing batch with
  | nil => exact prefix_append _ _
  | cons ev rest ih =>
    unfold fitting
    split
    · exact prefix_append _ _
    · have hrest := ih (batch ++ [ev])
      rwa [append_assoc] at hrest

/-- A batch grows with the events it is built from. -/
theorem fitting_mono (h : events <+: events') (batch : List (ExecutionEvent V)) :
    fitting bytes tid cid batch events <+:
      fitting bytes tid cid batch events' := by
  induction events generalizing batch events' with
  | nil => exact batch_prefix_fitting batch events'
  | cons ev rest ih =>
    obtain ⟨later, rfl⟩ := h
    rw [cons_append]
    unfold fitting
    split
    · exact prefix_refl _
    · exact ih (prefix_append rest later) _

/-- The sequence the next event to publish has. -/
def ExecutionRow.start (row : ExecutionRow) : Nat := row.publishedThrough.elim 0 (· + 1)

/-- The batch a session would send for the row now. -/
def nextBatch (bytes : MessageBytes V) (row : ExecutionRow) (events : List (ExecutionEvent V)) :
    List (ExecutionEvent V) :=
  fitting bytes row.taskId row.commandId [] (events.drop row.start)

theorem nextBatch_isPrefix (row : ExecutionRow) (events : List (ExecutionEvent V)) :
    nextBatch bytes row events <+: events.drop row.start := fitting_isPrefix [] _

theorem nextBatch_mono (row : ExecutionRow) (h : events <+: events') :
    nextBatch bytes row events <+: nextBatch bytes row events' := by
  obtain ⟨later, rfl⟩ := h
  refine fitting_mono ?_ []
  rw [drop_append]
  exact prefix_append _ _

/-- The events after a cursor are those behind it, in the order they were written. -/
theorem Ledger.Consistent.loadEventsAfter (hc : l.Consistent) (h : row ∈ l.executions) :
    l.loadEventsAfter row.commandId row.publishedThrough =
      (l.eventsOf row.commandId).drop row.start := by
  have hseqs : (l.eventsOf row.commandId).map ExecutionEvent.sequence =
      List.range' 0 (l.eventsOf row.commandId).length := by
    rw [← range_eq_range']
    exact (hc.stream row h).sequences
  have hfilt := filter_eq_drop row.start hseqs
  show orderBy ExecutionEvent.sequence ((l.eventsOf row.commandId).filter
    fun ev => row.start ≤ ev.sequence) = _
  rw [hfilt]
  refine orderBy_eq_self ?_
  rw [map_drop, hseqs]
  exact ((pairwise_lt_range' 1 Nat.one_pos).imp Nat.le_of_lt).drop

/-! ## The batches of one command -/

/-- The batch a message publishes for the command. -/
def ClientMessage.batch? (commandId : CommandId) :
    ClientMessage V → Option (TaskId × List (ExecutionEvent V))
  | .publishExecutionEvents taskId cause events =>
    if cause = commandId then some (taskId, events) else none
  | .acknowledgeExecution _ _ => none

theorem ClientMessage.batch?_eq_some {msg : ClientMessage V} : msg.batch? cid = some batch ↔
      msg = .publishExecutionEvents batch.1 cid batch.2 := by
  cases msg with
  | acknowledgeExecution _ _ => simp [batch?]
  | publishExecutionEvents tid cause events =>
    by_cases h : cause = cid
    · subst h
      simp [batch?, Prod.ext_iff]
    · simp [batch?, h]

/-- The batches of the command among messages. -/
def batchesOf (commandId : CommandId) (messages : List (ClientMessage V)) :
    List (TaskId × List (ExecutionEvent V)) :=
  messages.filterMap (ClientMessage.batch? commandId)

@[simp] theorem batchesOf_append (first rest : List (ClientMessage V)) :
    batchesOf cid (first ++ rest) = batchesOf cid first ++ batchesOf cid rest :=
  filterMap_append

theorem mem_batchesOf {msgs : List (ClientMessage V)} : batch ∈ batchesOf cid msgs ↔
      .publishExecutionEvents batch.1 cid batch.2 ∈ msgs := by
  unfold batchesOf
  rw [mem_filterMap]
  constructor
  · rintro ⟨msg, hmem, hbat⟩
    rw [← ClientMessage.batch?_eq_some.mp hbat]
    exact hmem
  · intro h
    exact ⟨_, h, ClientMessage.batch?_eq_some.mpr rfl⟩

/-! ## What one publication sends -/

namespace Publication

/-- The publication owes its acknowledgement, and none is in flight. -/
def owesAdmission (publication : Publication) : Bool :=
  !publication.record.admissionAcked && !publication.admissionInFlight

def admission (publication : Publication) : List (ClientMessage V) :=
  if publication.owesAdmission then
    [.acknowledgeExecution publication.record.taskId publication.commandId]
  else []

/-- The publication when its acknowledgement is sent. -/
def admitting (publication : Publication) : Publication :=
  { publication with
    admissionInFlight := publication.admissionInFlight || publication.owesAdmission }

/-- The batch from the publication's cursor. -/
def due (publication : Publication) (bytes : MessageBytes V) (l : Ledger V) :
    List (ExecutionEvent V) :=
  fitting bytes publication.record.taskId publication.commandId []
    (l.loadEventsAfter publication.commandId publication.record.publishedThrough)

/-- A publication that holds no later command of its task back: the execution ended, and all its
events are published. -/
structure Finished (l : Ledger V) (publication : Publication) : Prop where
  terminal : publication.record.terminal = true
  events : l.loadEventsAfter publication.commandId publication.record.publishedThrough = []

end Publication

/-- What one publication sends, and which tasks are blocked after it. -/
inductive SentOne (bytes : MessageBytes V) (l : Ledger V) (blockedTasks : List TaskId)
    (publication : Publication) :
    List (ClientMessage V) → Except NodeError (Publication × List TaskId) → Prop
  | failed {error : NodeError}
      (hbatch : publicationBatch bytes publication.record.taskId publication.commandId []
        (l.loadEventsAfter publication.commandId publication.record.publishedThrough) =
          .error error) :
      SentOne bytes l blockedTasks publication publication.admission (.error error)
  | nothing {blocked : List TaskId} (hkept : blockedTasks ⊆ blocked)
      (hfinished : publication.record.taskId ∈ blocked ∨ publication.Finished l) :
      SentOne bytes l blockedTasks publication publication.admission
        (.ok (publication.admitting, blocked))
  | batch {last : ExecutionEvent V} (hopen : publication.record.taskId ∉ blockedTasks)
      (hfree : publication.eventInFlight = none)
      (hlast : (publication.due bytes l).getLast? = some last) :
      SentOne bytes l blockedTasks publication
        (publication.admission ++ [.publishExecutionEvents publication.record.taskId
          publication.commandId (publication.due bytes l)])
        (.ok ({ publication.admitting with eventInFlight := some last.sequence },
          publication.record.taskId :: blockedTasks))

/-- Only when there is no event at all, there is none in the batch. -/
theorem publicationBatch_nil (h : publicationBatch bytes tid cid [] events = .ok []) :
    events = [] := by
  cases events with
  | nil => rfl
  | cons ev rest =>
    unfold publicationBatch at h
    split at h
    · -- The first event alone is too long.
      cases h
    · have hfst : [ev] <+: fitting bytes tid cid [ev] rest := batch_prefix_fitting _ _
      have hemp : [] = fitting bytes tid cid [ev] rest := publicationBatch_ok h
      rw [← hemp] at hfst
      cases prefix_nil.mp hfst

theorem sendPublication_spec (bytes : MessageBytes V) (l : Ledger V) (blk : List TaskId)
    (pub : Publication) : SentOne bytes l blk pub (sendPublication bytes l blk pub).1
      (sendPublication bytes l blk pub).2 := by
  unfold sendPublication
  dsimp only
  split
  · rename_i hblk
    exact .nothing (Subset.refl _) (.inl hblk)
  · rename_i hopen
    split
    · exact .nothing (subset_cons_self _ _) (.inl mem_cons_self)
    · rename_i hfree
      split
      · rename_i error hbat
        exact .failed hbat
      · rename_i events hbat
        split
        · rename_i hlast
          rw [getLast?_eq_none_iff.mp hlast] at hbat
          by_cases hterm : pub.record.terminal = true
          · rw [if_pos hterm]
            exact .nothing (Subset.refl _) (.inr ⟨hterm, publicationBatch_nil hbat⟩)
          · rw [if_neg hterm]
            exact .nothing (subset_cons_self _ _) (.inl mem_cons_self)
        · rename_i last hlast
          rw [publicationBatch_ok hbat] at hlast ⊢
          exact .batch hopen (by simpa using hfree) hlast

/-- The command a message is about. -/
def ClientMessage.commandId : ClientMessage V → CommandId
  | .acknowledgeExecution _ commandId | .publishExecutionEvents _ commandId _ => commandId

theorem batchesOf_admission (pub : Publication) :
    batchesOf cid (pub.admission : List (ClientMessage V)) = [] := by
  unfold Publication.admission
  split <;> rfl

namespace SentOne

variable {blk blocked : List TaskId} {pub next : Publication} {sent : List (ClientMessage V)}
  {one : Except NodeError (Publication × List TaskId)}

theorem commandId_eq (h : SentOne bytes l blk pub sent one) :
    ∀ message ∈ sent, message.commandId = pub.commandId := by
  have hadmn : ∀ message ∈ (pub.admission : List (ClientMessage V)),
      message.commandId = pub.commandId := by
    unfold Publication.admission
    split <;> simp [ClientMessage.commandId]
  cases h with
  | failed | nothing => exact hadmn
  | batch => simpa [or_imp, forall_and, ClientMessage.commandId] using hadmn

theorem record_eq (h : SentOne bytes l blk pub sent (.ok (next, blocked))) :
    next.record = pub.record := by
  cases h <;> rfl

theorem blocks (h : SentOne bytes l blk pub sent (.ok (next, blocked))) :
    blk ⊆ blocked ∧ (pub.record.taskId ∈ blocked ∨ pub.Finished l) := by
  cases h with
  | nothing hkept hfin => exact ⟨hkept, hfin⟩
  | batch => exact ⟨subset_cons_self _ _, .inl mem_cons_self⟩

/-- A batch is sent of a task that is not blocked. -/
theorem batches (h : SentOne bytes l blk pub sent one) (hsent : batchesOf cid sent ≠ []) :
    pub.commandId = cid ∧ pub.record.taskId ∉ blk := by
  obtain ⟨batch, hbat⟩ := exists_mem_of_ne_nil _ hsent
  refine ⟨(h.commandId_eq _ (mem_batchesOf.mp hbat)).symm, ?_⟩
  cases h with
  | failed | nothing => exact absurd (batchesOf_admission pub) hsent
  | batch hopen => exact hopen

end SentOne

/-! ## A pass over the publications -/

theorem publicationOf_cons (pub : Publication) (rest : List Publication) :
    publicationOf (pub :: rest) cid = if pub.commandId = cid then some pub
      else publicationOf rest cid := by
  unfold publicationOf
  by_cases h : pub.commandId = cid <;> simp [h]

theorem publicationOf_eq_none :
    publicationOf publications cid = none ↔ ∀ p ∈ publications, p.commandId ≠ cid := by
  simp [publicationOf]

theorem publicationOf_eq_some {pub : Publication} (h : publicationOf publications cid = some pub) :
    pub ∈ publications ∧ pub.commandId = cid :=
  ⟨mem_of_find?_eq_some h, by simpa using find?_some h⟩

/-- Publications of different commands are found in any order. -/
theorem publicationOf_perm {other : List Publication} (h : publications.Perm other)
    (hnd : (publications.map Publication.commandId).Nodup) :
    publicationOf publications cid = publicationOf other cid := by
  cases hfnd : publicationOf other cid with
  | none =>
    rw [publicationOf_eq_none] at hfnd ⊢
    exact fun p hp => hfnd p (h.mem_iff.mp hp)
  | some pub =>
    obtain ⟨hmem, hid⟩ := publicationOf_eq_some hfnd
    cases hfst : publicationOf publications cid with
    | none => exact absurd hid (publicationOf_eq_none.mp hfst _ (h.mem_iff.mpr hmem))
    | some first =>
      obtain ⟨hmem', hid'⟩ := publicationOf_eq_some hfst
      rw [inj_on_of_nodup_map hnd hmem' (h.mem_iff.mpr hmem) (hid'.trans hid.symm)]

/-- What a pass sends. It ends at a publication that fails. -/
inductive SentAll (bytes : MessageBytes V) (l : Ledger V) : List TaskId → List Publication →
    List (ClientMessage V) → Except NodeError (List Publication) → Prop
  | nil {blk} : SentAll bytes l blk [] [] (.ok [])
  | failed {blk publication rest sent error}
      (hone : SentOne bytes l blk publication sent (.error error)) :
      SentAll bytes l blk (publication :: rest) sent (.error error)
  | cons {blk publication rest sent next blocked later result}
      (hone : SentOne bytes l blk publication sent (.ok (next, blocked)))
      (hrest : SentAll bytes l blocked rest later result) :
      SentAll bytes l blk (publication :: rest) (sent ++ later) ((next :: ·) <$> result)

theorem sendAll_spec (l : Ledger V) (blk : List TaskId) (publications : List Publication) :
    SentAll bytes l blk publications (sendAll bytes l blk publications).1
      (sendAll bytes l blk publications).2 := by
  induction publications generalizing blk with
  | nil => exact .nil
  | cons pub rest ih =>
    have hone := sendPublication_spec bytes l blk pub
    unfold sendAll
    split
    · rename_i heq
      rw [heq] at hone
      exact .failed hone
    · rename_i blocked heq
      rw [heq] at hone
      exact .cons hone (ih blocked)

/-- What a pass does for one command: it misses it, or it takes the command's publication once. -/
inductive Passed (bytes : MessageBytes V) (l : Ledger V) (commandId : CommandId)
    (found : Option Publication) (sent : List (ClientMessage V))
    (result : Except NodeError (List Publication)) : Prop
  | missed (hsent : ∀ message ∈ sent, message.commandId ≠ commandId)
      (hafter : ∀ after, result = .ok after → found = none ∧ publicationOf after commandId = none)
  | reached {blk publication mine one} (hfound : found = some publication)
      (hsent : sent.filter (·.commandId = commandId) = mine)
      (hone : SentOne bytes l blk publication mine one)
      (hafter : ∀ after, result = .ok after → ∃ next blocked, one = .ok (next, blocked) ∧
        publicationOf after commandId = some next)

theorem SentAll.passed {blk : List TaskId} {sent : List (ClientMessage V)}
    {result : Except NodeError (List Publication)}
    (h : SentAll bytes l blk publications sent result)
    (hnd : (publications.map Publication.commandId).Nodup) :
    Passed bytes l cid (publicationOf publications cid) sent result := by
  induction h with
  | nil =>
    refine .missed nofun ?_
    rintro _ ⟨⟩
    exact ⟨rfl, rfl⟩
  | @failed _ pub _ sent _ hone =>
    have hids := hone.commandId_eq
    rw [publicationOf_cons]
    by_cases hid : pub.commandId = cid
    · rw [if_pos hid]
      refine .reached rfl (filter_eq_self.mpr fun m hm => ?_) hone nofun
      simpa using (hids m hm).trans hid
    · exact .missed (fun m hm heq => hid ((hids m hm).symm.trans heq)) nofun
  | @cons _ pub rest sent next blocked later result hone _ ih =>
    have hids := hone.commandId_eq
    have hnext : next.commandId = pub.commandId := congrArg (·.commandId) hone.record_eq
    rw [map_cons, nodup_cons] at hnd
    have hrest := ih hnd.2
    rw [publicationOf_cons]
    by_cases hid : pub.commandId = cid
    · -- The publication of the command; the later ones are of other commands.
      have hoth : publicationOf rest cid = none :=
        publicationOf_eq_none.mpr fun p hp hp' => hnd.1 (mem_map.mpr ⟨p, hp, hp'.trans hid.symm⟩)
      rw [if_pos hid]
      refine .reached rfl ?_ hone fun after haft => ⟨next, blocked, rfl, ?_⟩
      · rw [filter_append, filter_eq_self.mpr fun m hm => by simpa using (hids m hm).trans hid]
        cases hrest with
        | missed hsent => simpa using hsent
        | reached hfound =>
          rw [hoth] at hfound
          cases hfound
      · obtain ⟨later, _, rfl⟩ := map_ok haft
        rw [publicationOf_cons, if_pos (hnext.trans hid)]
    · have hnone : ∀ m ∈ sent, m.commandId ≠ cid :=
        fun m hm heq => hid ((hids m hm).symm.trans heq)
      rw [if_neg hid]
      cases hrest with
      | missed hsent hafter =>
        refine .missed (fun m hm => (mem_append.mp hm).elim (hnone m) (hsent m))
          fun after haft => ?_
        obtain ⟨later, hlat, rfl⟩ := map_ok haft
        rw [publicationOf_cons, if_neg (hnext.trans_ne hid)]
        exact hafter later hlat
      | reached hfound hsent hone hafter =>
        refine .reached hfound ?_ hone fun after haft => ?_
        · rw [filter_append, hsent, filter_eq_nil_iff.mpr (by simpa using hnone), nil_append]
        · obtain ⟨later, hlat, rfl⟩ := map_ok haft
          rw [publicationOf_cons, if_neg (hnext.trans_ne hid)]
          exact hafter later hlat

/-- A pass goes over all publications. -/
theorem sendOrder_perm (publications : List Publication) : publications.Perm
    (orderBy (fun pub => pub.record.taskId.uuid)
      (orderBy (fun pub => pub.record.admissionSequence) publications)) :=
  (orderBy_perm _ _).symm.trans (orderBy_perm _ _).symm

theorem sendPending_passed (l : Ledger V) (publications : List Publication)
    (hnd : (publications.map Publication.commandId).Nodup) :
    Passed bytes l cid (publicationOf publications cid) (sendPending bytes l publications).1
      (sendPending bytes l publications).2 := by
  have hperm := sendOrder_perm publications
  rw [publicationOf_perm hperm hnd]
  exact (sendAll_spec l [] _).passed ((hperm.map _).nodup_iff.mp hnd)

/-- What the session has of a command's events: its record, and the batch in flight. -/
def flightOf (publications : List Publication) (commandId : CommandId) :
    Option (ExecutionRecord × Option Nat) :=
  (publicationOf publications commandId).map fun publication =>
    (publication.record, publication.eventInFlight)

theorem inFlightOf_eq (publications : List Publication) (cid : CommandId) :
    inFlightOf publications cid = (flightOf publications cid).bind Prod.snd := by
  rw [flightOf, Option.bind_map]
  rfl

/-- What a pass sent for one command: nothing, and what was in flight stays so, or one batch from
the publication's cursor while nothing was in flight. -/
inductive SentFor (bytes : MessageBytes V) (l : Ledger V) (commandId : CommandId)
    (publications : List Publication) (sent : List (ClientMessage V))
    (result : Except NodeError (List Publication)) : Prop
  | nothing (hsent : batchesOf commandId sent = [])
      (hflight : ∀ after, result = .ok after →
        flightOf after commandId = flightOf publications commandId)
  | batch {publication : Publication} {last : ExecutionEvent V}
      (hpublication : publicationOf publications commandId = some publication)
      (hfree : publication.eventInFlight = none)
      (hlast : (publication.due bytes l).getLast? = some last)
      (hsent : batchesOf commandId sent =
        [(publication.record.taskId, publication.due bytes l)])
      (hflight : ∀ after, result = .ok after →
        flightOf after commandId = some (publication.record, some last.sequence))

theorem ClientMessage.batch?_of_ne {message : ClientMessage V} (h : message.commandId ≠ cid) :
    message.batch? cid = none := by
  cases message with
  | acknowledgeExecution => rfl
  | publishExecutionEvents => exact if_neg h

theorem batchesOf_filter (sent : List (ClientMessage V)) :
    batchesOf cid (sent.filter (·.commandId = cid)) = batchesOf cid sent := by
  rw [batchesOf, filterMap_filter]
  refine filterMap_congr fun message _ => ?_
  split
  · rfl
  · rename_i hne
    exact (ClientMessage.batch?_of_ne (by simpa using hne)).symm

/-- **A pass over the publications**, in the order it sends them. -/
theorem sendPending_spec (l : Ledger V) (publications : List Publication)
    (hnd : (publications.map Publication.commandId).Nodup) :
    SentFor bytes l cid publications (sendPending bytes l publications).1
      (sendPending bytes l publications).2 := by
  have hpass : Passed bytes l cid _ _ _ := sendPending_passed l publications hnd
  generalize sendPending bytes l publications = pass at hpass ⊢
  cases hpass with
  | missed hsent hafter =>
    refine .nothing ?_ fun after haft => ?_
    · exact filterMap_eq_nil_iff.mpr fun m hm => ClientMessage.batch?_of_ne (hsent m hm)
    · rw [flightOf, flightOf, (hafter after haft).1, (hafter after haft).2]
  | @reached blk pub mine one hfound hsent hone hafter =>
    have hid := (publicationOf_eq_some hfound).2
    have hflight : ∀ after, pass.2 = .ok after → ∃ next blocked, one = .ok (next, blocked) ∧
        flightOf after cid = some (next.record, next.eventInFlight) := by
      intro after haft
      obtain ⟨next, blocked, heq, hnext⟩ := hafter after haft
      exact ⟨next, blocked, heq, by rw [flightOf, hnext]; rfl⟩
    have hmine : batchesOf cid pass.1 = batchesOf cid mine := by rw [← hsent, batchesOf_filter]
    cases hone with
    | failed =>
      refine .nothing (hmine.trans (batchesOf_admission pub)) fun after haft => ?_
      obtain ⟨_, _, heq, _⟩ := hflight after haft
      cases heq
    | nothing =>
      refine .nothing (hmine.trans (batchesOf_admission pub)) fun after haft => ?_
      obtain ⟨_, _, heq, hnext⟩ := hflight after haft
      cases heq
      rw [hnext, flightOf, hfound]
      rfl
    | batch _ hfree hlast =>
      refine .batch hfound hfree hlast ?_ fun after haft => ?_
      · rw [hmine, batchesOf_append, batchesOf_admission, nil_append, hid]
        simp [batchesOf, ClientMessage.batch?]
      · obtain ⟨_, _, heq, hnext⟩ := hflight after haft
        cases heq
        exact hnext

/-! ## Reading what is owed -/

/-- Publications that read the ledger: each is of an execution the ledger has, and no two are of
one command. -/
structure Reads (l : Ledger V) (publications : List Publication) : Prop where
  nodup : (publications.map Publication.commandId).Nodup
  record : ∀ p ∈ publications, p.record.toExecutionRow ∈ l.executions

theorem Ledger.recordsWhere_nodup (l : Ledger V) (selected : ExecutionRow → Bool) :
    ((l.recordsWhere selected).map fun record => record.commandId).Nodup := by
  have hnd : ((orderBy ExecutionRow.admissionSequence
      (l.executions.rows.filter selected)).map ExecutionRow.commandId).Nodup :=
    (((orderBy_perm _ _).map _).nodup_iff).mpr
      (l.executions.keys_nodup.sublist (filter_sublist.map _))
  refine hnd.sublist ?_
  unfold recordsWhere
  generalize orderBy ExecutionRow.admissionSequence (l.executions.rows.filter selected) = rows
  induction rows with
  | nil => exact List.Sublist.refl _
  | cons row rest ih =>
    rw [filterMap_cons, map_cons]
    cases l.tasks.find? row.taskId with
    | none => exact ih.cons _
    | some task => exact ih.cons_cons _

@[simp] theorem refreshed_record (publications : List Publication) (record : ExecutionRecord) :
    (refreshed publications record).record = record := by
  unfold refreshed
  cases publicationOf publications record.commandId <;> rfl

theorem refreshed_eventInFlight (publications : List Publication) (record : ExecutionRecord) :
    (refreshed publications record).eventInFlight = inFlightOf publications record.commandId := by
  unfold refreshed inFlightOf
  cases publicationOf publications record.commandId <;> rfl

theorem reads_refresh (l : Ledger V) (publications : List Publication) :
    Reads l (refreshPublications l publications) where
  nodup := by
    unfold refreshPublications
    rw [map_map]
    have hids : Publication.commandId ∘ refreshed publications =
        fun record => record.commandId := by
      funext record
      simp [Publication.commandId]
    rw [hids]
    exact l.recordsWhere_nodup _
  record p hp := by
    obtain ⟨record, hrec, rfl⟩ := mem_map.mp hp
    rw [refreshed_record]
    exact (Ledger.mem_recordsWhere hrec).1

/-- A pending execution has its publication when the session has read the ledger. -/
theorem Ledger.Consistent.exists_refreshed (hc : l.Consistent) (hrow : row ∈ l.executions)
    (h : l.isPendingPublication row = true) (publications : List Publication) :
    ∃ p ∈ refreshPublications l publications, p.record.toExecutionRow = row := by
  obtain ⟨record, hrec, rfl⟩ := hc.exists_record hrow h
  exact ⟨_, mem_map_of_mem hrec, by rw [refreshed_record]⟩

/-- What is in flight for a command stays so while the command is pending. -/
theorem inFlightOf_refresh (hc : l.Consistent) (hrow : row ∈ l.executions)
    (publications : List Publication) :
    inFlightOf (refreshPublications l publications) row.commandId =
      if l.isPendingPublication row then inFlightOf publications row.commandId else none := by
  cases hfnd : publicationOf (refreshPublications l publications) row.commandId with
  | some pub =>
    obtain ⟨hmem, hid⟩ := publicationOf_eq_some hfnd
    obtain ⟨record, hrec, rfl⟩ := mem_map.mp hmem
    obtain ⟨hsto, hpend⟩ := Ledger.mem_recordsWhere hrec
    have hid : record.commandId = row.commandId := by
      rw [← hid, Publication.commandId, refreshed_record]
    rw [Table.key_inj hsto hrow hid] at hpend
    rw [inFlightOf, hfnd, if_pos hpend, ← hid]
    exact refreshed_eventInFlight publications record
  | none =>
    have hnot : ¬ l.isPendingPublication row = true := by
      intro hpend
      obtain ⟨p, hp, hprow⟩ := hc.exists_refreshed hrow hpend publications
      exact publicationOf_eq_none.mp hfnd p hp (congrArg ExecutionRow.commandId hprow)
    rw [inFlightOf, hfnd, if_neg hnot]
    rfl

end Renoa.Node
