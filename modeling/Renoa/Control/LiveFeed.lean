import Renoa.Control.Delivering
import Renoa.Control.TaskJournal
import Mathlib.Data.List.Infix

/-!
# The live feed of a task

A committed record is published by the handler that committed it, after its transaction and outside
any lock. So two handlers can publish the records of one task in another order than they committed
them, and the surface receives them so (`live_feed_out_of_order`). Where every record is published
after the task's earlier ones, a feed sends the records of the task's journal one after the other
from its cursor on (`live_feed_gapless`).

`Feed.Follows` ties a feed to the journal: its receiver holds the records from some position up to
the last published one, and the surface was sent the journal up to where the suffix ended or the
receiver stands, whichever is later.
-/

namespace Renoa.Control

open Foundation Protocol List Database

variable {V : Type} {db db' mid : Database V} {tid : TaskId} {request : Request V}
  {event : TaskEvent V} {records : List (TaskEvent V)} {published : Nat} {actions : List (Action V)}
  {handled : Handled V}

/-! ## What a handler publishes -/

/-- The record an action publishes. -/
def Action.event? : Action V → Option (TaskEvent V)
  | .publish event => some event
  | .deliver _ _ => none

/-- The rows the step added to the journal are the records the actions publish. -/
def Publishes (db db' : Database V) (actions : List (Action V)) : Prop :=
  ∃ rows, db'.taskEvents.rows = db.taskEvents.rows ++ rows ∧
    actions.filterMap Action.event? = rows.map TaskEventRow.event

theorem filterMap_deliverOn (node : Option NodeConnection) (delivery : Delivery) :
    (deliverOn node delivery : List (Action V)).filterMap Action.event? = [] := by
  cases node <;> rfl

theorem publishes_of_eq (h : db'.taskEvents = db.taskEvents)
    (hactions : actions.filterMap Action.event? = []) : Publishes db db' actions :=
  ⟨[], by rw [h, append_nil], hactions⟩

theorem InsertedCommand.taskEvents_rows {cmd : CommandEnvelope} {record : TaskEventRow V}
    (h : InsertedCommand db db' tid cmd record) :
    db'.taskEvents.rows = db.taskEvents.rows ++ [record] := h.journalled.rows

/-- An admitted command is published and delivered. -/
theorem InsertedCommand.publishes {cmd : CommandEnvelope} {record : TaskEventRow V}
    (h : InsertedCommand db db' tid cmd record) (node : Option NodeConnection)
    (delivery : Delivery) :
    Publishes db db' (.publish record.event :: deliverOn node delivery) := by
  refine ⟨[record], h.taskEvents_rows, ?_⟩
  simp [Action.event?, filterMap_deliverOn]

theorem filterMap_ite_deliverOn (pend : Bool) (node : Option NodeConnection) (delivery : Delivery) :
    (if pend then deliverOn node delivery else [] : List (Action V)).filterMap
      Action.event? = [] := by
  cases pend
  · rfl
  · exact filterMap_deliverOn node delivery

theorem OpenedThread.taskEvents_eq {task : TaskSpec} (h : OpenedThread db db' task) :
    db'.taskEvents = db.taskEvents := by
  rcases h with h | ⟨rfl, _⟩
  · exact h.taskEvents_eq
  · rfl

section

variable {ids : DerivedIds} {nodes later : Nodes}

/-- A batch publishes its records and then the record of its answer. -/
theorem AdmittedReply.publishes {cid : CommandId} {evs : List (ExecutionEvent V)}
    {adm : ExecutionEventAdmission V} {replier : String}
    (hbat : JournalledBatch db mid tid cid evs { adm with reply := none })
    (h : AdmittedReply ids mid db' tid cid adm.events replier adm.reply) :
    Publishes db db' (Database.batchActions later adm) := by
  obtain ⟨rows, hrows, hevs, _⟩ := hbat.rows
  have hpub : (adm.events.map Action.publish).filterMap Action.event? =
      rows.map TaskEventRow.event := by
    rw [filterMap_map, hevs]
    exact filterMap_some
  unfold Database.batchActions
  generalize adm.reply = reply at h ⊢
  cases h with
  | unended _ hdb | unasked _ _ _ hdb =>
    subst hdb
    exact ⟨rows, hrows, by simp [hpub]⟩
  | answered record _ _ _ _ _ _ hins =>
    refine ⟨rows ++ [record], ?_, ?_⟩
    · rw [hins.taskEvents_rows, hrows, append_assoc]
    · simp [hpub, Action.event?, filterMap_deliverOn]

/-- A handled request that deletes no task publishes what it journalled. -/
theorem Request.Did.publishes [JsonText V] (hc : Consistent db)
    (h : Request.Did ids nodes later db db' request handled) (hkept : request.deletes = false) :
    Publishes db db' handled.actions := by
  cases h with
  | submitted _ _ hsubm =>
    cases hsubm with
    | admitted _ hins => exact hins.publishes _ _
    | existing _ _ _ hdb => exact publishes_of_eq (by rw [hdb]) (filterMap_ite_deliverOn _ _ _)
  | messaged _ hsent =>
    cases hsent with
    | admitted _ _ _ _ hthr hins =>
      obtain ⟨rows, hrows, hevs⟩ := hins.publishes _ _
      exact ⟨rows, by rw [hrows, hthr.taskEvents_eq], hevs⟩
    | existing _ _ _ _ hdb => exact publishes_of_eq (by rw [hdb]) (filterMap_ite_deliverOn _ _ _)
  | published _ hbat hrep _ => exact hrep.publishes hbat
  | stopped _ hstopped =>
    cases hstopped with
    | alreadyEnded hstop => exact publishes_of_eq (admitStop_quiet hstop).events rfl
    | recorded hstop =>
      apply publishes_of_eq (admitStop_quiet hstop).events
      split
      · rfl
      · exact filterMap_deliverOn _ _
  | @silent request tx hsil hcom =>
    refine publishes_of_eq ?_ rfl
    cases request <;> cases hsil <;> first
      | cases Transaction.commit_committed hc hcom with
        | quiet hquiet => exact hquiet.events
        | opened _ hopn => exact hopn.taskEvents_eq
      | cases hkept

end

/-! ## The records of a task -/

/-- The journal of each task grows by the published records of it. -/
theorem Publishes.recordsOf (h : Publishes db db' actions) (tid : TaskId) :
    db'.recordsOf tid = db.recordsOf tid ++
      (actions.filterMap Action.event?).filter fun event => event.taskId = tid := by
  obtain ⟨rows, hrows, hactions⟩ := h
  unfold Database.recordsOf Database.eventsOf
  rw [hactions, hrows, filter_append, map_append, filter_map]
  rfl

/-! ## A feed and the journal -/

/-- The first record the surface of the feed has not seen. -/
abbrev Feed.start (feed : Feed V) : Nat := minimumAfter feed.afterSequence

/-- The receiver holds the records from `position` up to the last published one. -/
structure Feed.Waits (feed : Feed V) (records : List (TaskEvent V)) (published position : Nat) :
    Prop where
  le : position ≤ published
  waiting : feed.waiting = (records.take published).drop position

/-- How far a feed is, of a task with these records of which so many are published. -/
inductive Feed.Follows (feed : Feed V) (records : List (TaskEvent V)) (published : Nat) : Prop
  | subscribed (position : Nat) (hphase : feed.phase = .subscribed) (hempty : feed.received = [])
      (hwaits : feed.Waits records published position)
  | replaying (rest : List (TaskEvent V)) (read position : Nat)
      (hphase : feed.phase = .replaying rest (throughSequence read))
      (hread : read ≤ records.length) (hstart : feed.start ≤ read)
      (hsent : feed.received ++ rest = (records.take read).drop feed.start)
      (hposition : position ≤ read) (hwaits : feed.Waits records published position)
  | live (read position : Nat) (hphase : feed.phase = .live (throughSequence read))
      (hread : read ≤ records.length) (hstart : feed.start ≤ read)
      (hsent : feed.received = (records.take (max read position)).drop feed.start)
      (hwaits : feed.Waits records published position)
  | finished (hphase : feed.phase = .replayRequired ∨ feed.phase = .ended)
      (hsent : feed.received <+: records.drop feed.start)

section

variable {feed : Feed V} {recs : List (TaskEvent V)} {published pos : Nat}

/-- The surface was sent records of the journal, one after the other from the cursor on. -/
theorem Feed.Follows.received_prefix (h : feed.Follows recs published) :
    feed.received <+: recs.drop feed.start := by
  cases h with
  | subscribed _ _ hemp _ =>
    rw [hemp]
    exact nil_prefix
  | replaying rest read _ _ _ _ hsent _ _ =>
    have htake := take_prefix read recs
    exact (prefix_append _ _).trans (hsent ▸ htake.drop feed.start)
  | live read pos _ _ _ hsent _ =>
    rw [hsent]
    apply IsPrefix.drop
    exact take_prefix _ _
  | finished _ hsent => exact hsent

theorem Feed.Waits.grow (h : feed.Waits recs published pos)
    (hle : published ≤ recs.length) (new : List (TaskEvent V)) :
    feed.Waits (recs ++ new) published pos :=
  ⟨h.le, by rw [take_append_of_le_length hle]; exact h.waiting⟩

/-- New records of the journal change nothing for the feeds until they are published. -/
theorem Feed.Follows.grow (h : feed.Follows recs published) (hle : published ≤ recs.length)
    (new : List (TaskEvent V)) : feed.Follows (recs ++ new) published := by
  have hlat : recs.length ≤ (recs ++ new).length := by simp
  cases h with
  | subscribed pos hph hemp hws => exact .subscribed pos hph hemp (hws.grow hle new)
  | replaying rest read pos hph hread hst hsent hpos hws =>
    refine .replaying rest read pos hph (hread.trans hlat) hst ?_ hpos (hws.grow hle new)
    rw [take_append_of_le_length hread]
    exact hsent
  | live read pos hph hread hst hsent hws =>
    refine .live read pos hph (hread.trans hlat) hst ?_ (hws.grow hle new)
    rw [take_append_of_le_length (Nat.max_le.mpr ⟨hread, hws.le.trans hle⟩)]
    exact hsent
  | finished hph hsent =>
    refine .finished hph (hsent.trans ?_)
    rw [drop_append]
    exact prefix_append _ _

/-- The next record reaches the receiver. -/
theorem Feed.Waits.publish (h : feed.Waits recs published pos)
    (hnext : recs[published]? = some event) :
    { feed with waiting := feed.waiting ++ [event] }.Waits recs (published + 1) pos := by
  refine ⟨Nat.le_succ_of_le h.le, ?_⟩
  obtain ⟨hlt, _⟩ := List.getElem?_eq_some_iff.mp hnext
  have hlen : (recs.take published).length = published := length_take_of_le (Nat.le_of_lt hlt)
  have hinside : pos ≤ (recs.take published).length := hlen.symm ▸ h.le
  rw [take_add_one, hnext, Option.toList_some, drop_append_of_le_length hinside, ← h.waiting]

theorem Feed.Follows.publish (h : feed.Follows recs published)
    (hnext : recs[published]? = some event) (htask : feed.taskId = event.taskId) :
    (feed.receive event).Follows recs (published + 1) := by
  unfold Feed.receive
  rw [if_pos htask]
  cases h with
  | subscribed pos hph hemp hws => exact .subscribed pos hph hemp (hws.publish hnext)
  | replaying rest read pos hph hread hst hsent hpos hws =>
    exact .replaying rest read pos hph hread hst hsent hpos (hws.publish hnext)
  | live read pos hph hread hst hsent hws =>
    exact .live read pos hph hread hst hsent (hws.publish hnext)
  | finished hph hsent => exact .finished hph hsent

/-- The suffix is read when the receiver already holds what is published from then on. -/
theorem Feed.Follows.readSuffix (hc : Consistent db)
    (h : feed.Follows (db.recordsOf feed.taskId) published)
    (hle : published ≤ (db.recordsOf feed.taskId).length) :
    (feed.readSuffix db).Follows (db.recordsOf feed.taskId) published := by
  unfold Feed.readSuffix
  have hkept := h
  cases h with
  | subscribed pos hph hemp hws =>
    rw [hph]
    dsimp only
    split
    next suffix hsuffix =>
      obtain ⟨hst, hthru, hevs⟩ := loadSuffix_ok hc hsuffix
      refine .replaying suffix.events _ pos (by rw [hthru]) (Nat.le_refl _) hst ?_
        (hws.le.trans hle) ⟨hws.le, hws.waiting⟩
      rw [hemp, nil_append, take_length]
      exact hevs
    · refine .finished (.inr rfl) ?_
      rw [hemp]
      exact nil_prefix
  | replaying _ _ _ hph | live _ _ hph =>
    rw [hph]
    exact hkept
  | finished hph =>
    rcases hph with hph | hph <;>
    · rw [hph]
      exact hkept

/-- The first record of the receiver is the one at its position. -/
theorem Feed.Waits.next (h : feed.Waits recs published pos) {rest : List (TaskEvent V)}
    (hwait : feed.waiting = event :: rest) :
    recs[pos]? = some event ∧
      { feed with waiting := rest }.Waits recs published (pos + 1) := by
  have hdrop : (recs.take published).drop pos = event :: rest := h.waiting.symm.trans hwait
  have hhead : (recs.take published)[pos]? = some event := by
    have hzero : ((recs.take published).drop pos)[0]? =
        (recs.take published)[pos + 0]? := getElem?_drop
    rw [hdrop] at hzero
    exact hzero.symm
  rw [getElem?_take] at hhead
  obtain ⟨hlt, hev⟩ := Option.ite_none_right_eq_some.mp hhead
  refine ⟨hev, hlt, ?_⟩
  rw [← tail_drop, hdrop]
  rfl

theorem throughSequence_all {read sequence : Nat} :
    (throughSequence read).all (fun thru => thru < sequence) = true ↔ read ≤ sequence := by
  unfold throughSequence
  split
  next hzero =>
    simp [hzero]
  · rw [Option.all_some, decide_eq_true_iff]
    omega

/-- The record at the receiver's position is skipped when the suffix held it, and sent when it comes
next. -/
theorem Feed.Follows.forwardLive
    (hseqs : recs.map TaskEvent.sequence = List.range recs.length) {read : Nat}
    (hph : feed.phase = .live (throughSequence read)) (hread : read ≤ recs.length)
    (hst : feed.start ≤ read)
    (hsent : feed.received = (recs.take (max read pos)).drop feed.start)
    (hws : feed.Waits recs published pos) :
    (feed.forwardLive (throughSequence read)).Follows recs published := by
  unfold Feed.forwardLive
  split
  · refine .finished (.inl rfl) ?_
    rw [hsent]
    apply IsPrefix.drop
    exact take_prefix _ _
  · split
    · exact .live read pos hph hread hst hsent hws
    next event rest hwait =>
      obtain ⟨hev, hnext⟩ := hws.next hwait
      obtain ⟨hlt, hget⟩ := List.getElem?_eq_some_iff.mp hev
      have hseq : event.sequence = pos := by
        have hpos := congrArg (fun sequences => sequences[pos]?) hseqs
        simpa [hlt, hget] using hpos
      have hlen : (recs.take pos).length = pos := length_take_of_le (Nat.le_of_lt hlt)
      split
      next hforward =>
        have hle : read ≤ pos := hseq ▸ throughSequence_all.mp hforward
        have hinside : feed.start ≤ (recs.take pos).length := hlen.symm ▸ hst.trans hle
        refine .live read (pos + 1) hph hread hst ?_ ⟨hnext.le, hnext.waiting⟩
        rw [hsent, Nat.max_eq_right hle, Nat.max_eq_right (Nat.le_succ_of_le hle),
          take_add_one, hev, Option.toList_some, drop_append_of_le_length hinside]
      next hskip =>
        have hlt : pos < read := by
          rw [throughSequence_all, hseq] at hskip
          exact Nat.lt_of_not_le hskip
        refine .live read (pos + 1) hph hread hst ?_ hnext
        rw [hsent, Nat.max_eq_left (Nat.le_of_lt hlt), Nat.max_eq_left hlt]

theorem Feed.Follows.forward (hseqs : recs.map TaskEvent.sequence = List.range recs.length)
    (h : feed.Follows recs published) : feed.forward.Follows recs published := by
  unfold Feed.forward
  have hkept := h
  cases h with
  | subscribed _ hph =>
    rw [hph]
    exact hkept
  | replaying rest read pos hph hread hst hsent hpos hws =>
    rw [hph]
    cases rest with
    | nil =>
      refine .live read pos rfl hread hst ?_ ⟨hws.le, hws.waiting⟩
      rw [Nat.max_eq_left hpos, ← hsent, append_nil]
    | cons event rest =>
      refine .replaying rest read pos rfl hread hst ?_ hpos ⟨hws.le, hws.waiting⟩
      rw [← hsent, append_assoc, singleton_append]
  | live read pos hph hread hst hsent hws =>
    rw [hph]
    exact Feed.Follows.forwardLive hseqs hph hread hst hsent hws
  | finished hph =>
    rcases hph with hph | hph <;>
    · rw [hph]
      exact hkept

end

/-! ## The invariant of the machine -/

/-- The records of the task that committed handlers have still to publish. -/
def Coordinator.unpublished (c : Coordinator V) (taskId : TaskId) : List (TaskEvent V) :=
  (c.jobs.flatten.filterMap Action.event?).filter fun event => event.taskId = taskId

/-- So many records of the task are published: the others wait in the handlers, in any order, and
every feed of the task follows. -/
structure Coordinator.Published (c : Coordinator V) (taskId : TaskId) (published : Nat) : Prop where
  le : published ≤ (c.db.recordsOf taskId).length
  unpublished : (c.unpublished taskId).Perm ((c.db.recordsOf taskId).drop published)
  follows : ∀ feed ∈ c.feeds, feed.taskId = taskId →
    feed.Follows (c.db.recordsOf taskId) published

structure LiveInv (c : Coordinator V) : Prop where
  consistent : Consistent c.db
  locks : ∀ request nodes, c.lifecycle = .handling request nodes → request.locks = true
  published : ∀ taskId, ∃ published, c.Published taskId published

variable {c c' : Coordinator V}

/-- A step that touches neither the journal nor the handlers' actions nor the feeds. -/
theorem LiveInv.of_eq (h : LiveInv c) (hdb : c'.db = c.db) (hjobs : c'.jobs = c.jobs)
    (hfeeds : c'.feeds = c.feeds)
    (hlocks : ∀ request nodes, c'.lifecycle = .handling request nodes → request.locks = true) :
    LiveInv c' where
  consistent := hdb ▸ h.consistent
  locks := hlocks
  published tid := by
    obtain ⟨published, hle, hunpub, hfol⟩ := h.published tid
    refine ⟨published, ?_, ?_, ?_⟩
    · rw [hdb]
      exact hle
    · unfold Coordinator.unpublished
      rw [hdb, hjobs]
      exact hunpub
    · rw [hdb, hfeeds]
      exact hfol

theorem mem_modify {α : Type} {entries : List α} {index : Nat} {f : α → α} {entry : α}
    (h : entry ∈ entries.modify index f) : entry ∈ entries ∨ ∃ old ∈ entries, entry = f old := by
  obtain ⟨pos, hlt, rfl⟩ := mem_iff_getElem.mp h
  rw [length_modify] at hlt
  rw [getElem_modify]
  split
  · exact .inr ⟨_, getElem_mem hlt, rfl⟩
  · exact .inl (getElem_mem hlt)

/-- A step of one feed that keeps it on the journal. -/
theorem LiveInv.modifyFeed (h : LiveInv c) (index : Nat) {f : Feed V → Feed V}
    (htask : ∀ feed, (f feed).taskId = feed.taskId)
    (hfol : ∀ feed published, published ≤ (c.db.recordsOf feed.taskId).length →
      feed.Follows (c.db.recordsOf feed.taskId) published →
        (f feed).Follows (c.db.recordsOf feed.taskId) published) :
    LiveInv { c with feeds := c.feeds.modify index f } where
  consistent := h.consistent
  locks := h.locks
  published tid := by
    obtain ⟨published, hpub⟩ := h.published tid
    refine ⟨published, hpub.le, hpub.unpublished, fun feed hfeed hid => ?_⟩
    rcases mem_modify hfeed with hfeed | ⟨old, hold, rfl⟩
    · exact hpub.follows feed hfeed hid
    · rw [htask] at hid
      subst hid
      exact hfol old published hpub.le (hpub.follows old hold rfl)

section

variable [JsonText V] {ids : DerivedIds} {nodes later : Nodes}

/-- A committed request: what it journalled waits in its handler. -/
theorem LiveInv.start (h : LiveInv c) (hdid : Request.Did ids nodes later c.db db' request handled)
    (hkept : request.deletes = false) {lifecycle : Lifecycle V}
    (hlocks : ∀ request nodes, lifecycle = .handling request nodes → request.locks = true) :
    LiveInv { c with db := db', lifecycle, jobs := c.jobs ++ [handled.actions] } where
  consistent := hdid.consistent h.consistent
  locks := hlocks
  published tid := by
    obtain ⟨published, hle, hunpub, hfol⟩ := h.published tid
    have hrecords := (hdid.publishes h.consistent hkept).recordsOf tid
    refine ⟨published, ?_, ?_, ?_⟩
    · rw [hrecords, length_append]
      exact Nat.le_add_right_of_le hle
    · unfold Coordinator.unpublished
      rw [hrecords, drop_append_of_le_length hle, flatten_append, flatten_singleton,
        filterMap_append, filter_append]
      exact hunpub.append_right _
    · intro feed hfeed hid
      rw [hrecords]
      exact (hfol feed hfeed hid).grow hle _

end

/-- The handler's next action publishes no record before an earlier one of its task. -/
def Coordinator.publishesInOrder (c : Coordinator V) : Input V → Bool
  | .proceed job =>
    match c.jobs[job]? with
    | some (.publish event :: _) =>
      (c.unpublished event.taskId).all fun other => event.sequence ≤ other.sequence
    | _ => true
  | _ => true

/-- The first of the unpublished records is the next one of the journal. -/
theorem eq_next_of_perm {left : List (TaskEvent V)}
    (hseqs : records.map TaskEvent.sequence = List.range records.length)
    (hperm : (event :: left).Perm (records.drop published))
    (hfst : ∀ other ∈ event :: left, event.sequence ≤ other.sequence) :
    records[published]? = some event ∧ left.Perm (records.drop (published + 1)) := by
  have hlt : published < records.length := by
    have hlen := hperm.length_eq
    rw [length_cons, length_drop] at hlen
    omega
  have hdrop := drop_eq_getElem_cons hlt
  -- Every record stands at its sequence, so the least of those left stands first.
  have hseq : ∀ pos (h : pos < records.length), records[pos].sequence = pos := by
    intro pos h
    have hpos := congrArg (fun sequences => sequences[pos]?) hseqs
    simpa [h] using hpos
  have hev : event = records[published] := by
    obtain ⟨pos, hpos, rfl⟩ := mem_iff_getElem.mp (hperm.mem_iff.mp mem_cons_self)
    have hleast := hfst records[published] (hperm.mem_iff.mpr (hdrop ▸ mem_cons_self))
    rw [getElem_drop, hseq, hseq published hlt] at hleast
    obtain rfl : pos = 0 := by omega
    rw [getElem_drop]
    rfl
  refine ⟨by rw [hev]; exact getElem?_eq_getElem hlt, ?_⟩
  rw [hdrop, ← hev] at hperm
  exact hperm.cons_inv

/-- The next action of a handler: a delivery, or the next record of its task. -/
theorem LiveInv.proceed (h : LiveInv c) {job : Nat}
    (horder : c.publishesInOrder (.proceed job) = true) :
    LiveInv (c.proceed job) := by
  unfold Coordinator.proceed
  unfold Coordinator.publishesInOrder at horder
  cases hjob : c.jobs[job]? with
  | none => exact h
  | some actions =>
    cases actions with
    | nil => exact h
    | cons action rest =>
      have hflat := (flatten_perm_cons_set hjob).filterMap Action.event?
      simp only [hjob] at horder
      cases action with
      | deliver conn delivery =>
        refine ⟨h.consistent, h.locks, fun tid => ?_⟩
        obtain ⟨published, hle, hunpub, hfol⟩ := h.published tid
        exact ⟨published, hle, ((hflat.filter _).symm).trans hunpub, hfol⟩
      | publish event =>
        refine ⟨h.consistent, h.locks, fun tid => ?_⟩
        obtain ⟨published, hle, hunpub, hfol⟩ := h.published tid
        have hleft := hflat.filter fun event => event.taskId = tid
        have hev : (Action.publish event : Action V).event? = some event := rfl
        rw [filterMap_cons_some hev] at hleft
        by_cases htask : event.taskId = tid
        · subst htask
          rw [filter_cons_of_pos (by simp)] at hleft
          obtain ⟨hnext, hrest⟩ := eq_next_of_perm (h.consistent.recordsOf_sequences _)
            (hleft.symm.trans hunpub)
            fun other hoth => of_decide_eq_true (all_eq_true.mp horder other
              (hleft.mem_iff.mpr hoth))
          refine ⟨published + 1, (List.getElem?_eq_some_iff.mp hnext).1, hrest, ?_⟩
          intro feed hfeed hid
          obtain ⟨old, hold, rfl⟩ := mem_map.mp hfeed
          have holdId : old.taskId = event.taskId := by
            unfold Feed.receive at hid
            split at hid <;> assumption
          exact (hfol old hold holdId).publish hnext holdId
        · rw [filter_cons_of_neg (by simpa using htask)] at hleft
          refine ⟨published, hle, hleft.symm.trans hunpub, ?_⟩
          intro feed hfeed hid
          obtain ⟨old, hold, rfl⟩ := mem_map.mp hfeed
          have hsame : old.receive event = old := by
            unfold Feed.receive at hid ⊢
            split
            next hreceives =>
              rw [if_pos hreceives] at hid
              exact absurd (hreceives.symm.trans hid) htask
            · rfl
          rw [hsame] at hid ⊢
          exact hfol old hold hid

theorem Feed.Follows.leave {feed : Feed V} (h : feed.Follows records published) :
    feed.leave.Follows records published :=
  .finished (.inr rfl) h.received_prefix

theorem Feed.readSuffix_taskId (feed : Feed V) (db : Database V) :
    (feed.readSuffix db).taskId = feed.taskId := by
  unfold Feed.readSuffix
  split
  · split <;> rfl
  · rfl

theorem Feed.forward_taskId (feed : Feed V) : feed.forward.taskId = feed.taskId := by
  unfold Feed.forward Feed.forwardLive
  repeat' split
  all_goals rfl

/-- A new feed starts behind all that is published. -/
theorem LiveInv.attach (h : LiveInv c) (tid : TaskId) (pid : PrincipalId)
    (afterSequence : Option Nat) : LiveInv (c.attach tid pid afterSequence) := by
  unfold Coordinator.attach
  split
  · refine ⟨h.consistent, h.locks, fun other => ?_⟩
    obtain ⟨published, hle, hunpub, hfol⟩ := h.published other
    refine ⟨published, hle, hunpub, fun feed hfeed hid => ?_⟩
    rcases mem_append.mp hfeed with hfeed | hfeed
    · exact hfol feed hfeed hid
    · rw [mem_singleton.mp hfeed]
      refine .subscribed published rfl rfl ⟨Nat.le_refl _, ?_⟩
      rw [drop_eq_nil_of_le (length_take_le _ _)]
  · exact h

section

variable [JsonText V] {ids : DerivedIds}

theorem LiveInv.commit (h : LiveInv c) : LiveInv (c.commit ids) := by
  unfold Coordinator.commit
  split
  next request nodes hlock =>
    split
    next handled db hok =>
      exact h.start (Request.did_of_ok h.consistent hok)
        (Request.deletes_of_locks (h.locks request nodes hlock)) (by rintro _ _ ⟨⟩)
    · exact h.of_eq rfl rfl rfl (by rintro _ _ ⟨⟩)
  · exact h

theorem LiveInv.handle (h : LiveInv c) (hkept : request.deletes = false) :
    LiveInv (c.handle ids request) := by
  unfold Coordinator.handle
  split
  · exact h
  · split
    next handled db hok =>
      exact h.start (Request.did_of_ok h.consistent hok) hkept h.locks
    · exact h

theorem LiveInv.step (h : LiveInv c) {input : Input V} (horder : c.publishesInOrder input = true)
    (hkept : input.deletes = false) : LiveInv (c.step ids input) := by
  cases input with
  | request request => exact h.handle hkept
  | commit => exact h.commit
  | proceed job => exact h.proceed horder
  | attach tid pid afterSequence => exact h.attach tid pid afterSequence
  | readSuffix index =>
    exact h.modifyFeed index (fun feed => feed.readSuffix_taskId c.db)
      fun _ _ hle hfol => hfol.readSuffix h.consistent hle
  | forward index =>
    exact h.modifyFeed index Feed.forward_taskId
      fun feed _ _ hfol => hfol.forward (h.consistent.recordsOf_sequences feed.taskId)
  | leave index => exact h.modifyFeed index (fun _ => rfl) fun _ _ _ hfol => hfol.leave
  | disconnect nid conn | advertise nid conn targets => exact h.of_eq rfl rfl rfl h.locks
  | acquire request =>
    show LiveInv (c.acquire request)
    unfold Coordinator.acquire
    split
    · split
      next hlocks =>
        refine h.of_eq rfl rfl rfl ?_
        rintro _ _ ⟨⟩
        exact hlocks
      · exact h
    · exact h
  | activate | snapshotExecutions | snapshotStops | sendNext | abandon =>
    -- An activation that takes or releases the lock, or nothing.
    simp only [Coordinator.step, Coordinator.activate, Coordinator.snapshotExecutions,
      Coordinator.snapshotStops, Coordinator.sendNext, Coordinator.abandon]
    repeat' split
    all_goals first
      | exact h
      | exact h.of_eq rfl rfl rfl (by rintro _ _ ⟨⟩)

omit [JsonText V] in
theorem liveInv_start (hc : Consistent db) : LiveInv (Coordinator.start db) where
  consistent := hc
  locks _ _ h := by cases h
  published tid := by
    refine ⟨(db.recordsOf tid).length, Nat.le_refl _, ?_, ?_⟩
    · show List.Perm [] ((db.recordsOf tid).drop _)
      rw [drop_length]
    · intro feed hfeed
      exact absurd hfeed not_mem_nil

/-- Every input of the run meets a condition on it and the state before it. -/
def Coordinator.RunMeets (ids : DerivedIds) (condition : Coordinator V → Input V → Prop) :
    Coordinator V → List (Input V) → Prop
  | _, [] => True
  | c, input :: rest => condition c input ∧ RunMeets ids condition (c.step ids input) rest

instance Coordinator.decidableRunMeets (ids : DerivedIds)
    (condition : Coordinator V → Input V → Prop) [∀ c input, Decidable (condition c input)] :
    (c : Coordinator V) → (inputs : List (Input V)) → Decidable (c.RunMeets ids condition inputs)
  | _, [] => .isTrue trivial
  | c, input :: rest =>
    have := decidableRunMeets ids condition (c.step ids input) rest
    inferInstanceAs (Decidable (condition c input ∧ RunMeets ids condition (c.step ids input) rest))

theorem LiveInv.run (h : LiveInv c) {inputs : List (Input V)} (hmeets : c.RunMeets ids
      (fun c input => c.publishesInOrder input = true ∧ input.deletes = false) inputs) :
    LiveInv (c.run ids inputs) := by
  induction inputs generalizing c with
  | nil => exact h
  | cons input rest ih => exact ih (h.step hmeets.1.1 hmeets.1.2) hmeets.2

omit [JsonText V] in
/-- Records that follow each other in a journal carry sequences that follow each other. -/
theorem sequences_of_prefix {received : List (TaskEvent V)} {start : Nat}
    (hseqs : records.map TaskEvent.sequence = List.range records.length)
    (hfst : received <+: records.drop start) :
    received.map TaskEvent.sequence = List.range' start received.length := by
  have hrecv : received = (records.take (start + received.length)).drop start := by
    rw [drop_take, Nat.add_sub_cancel_left]
    exact prefix_iff_eq_take.mp hfst
  have hmap : received.map TaskEvent.sequence =
      List.range' start (min (start + received.length) records.length - start) := by
    conv_lhs => rw [hrecv]
    rw [map_drop, map_take, hseqs, take_range, range_eq_range',
      drop_range', Nat.zero_add, Nat.mul_one]
  have hlen := congrArg List.length hmap
  rw [length_map, length_range'] at hlen
  rw [hmap, ← hlen]

omit [JsonText V] in
/-- A live feed with nothing left to receive was sent all that is published. -/
theorem Feed.Follows.received_eq {feed : Feed V} {thru : Option Nat}
    (h : feed.Follows records published) (hlive : feed.phase = .live thru)
    (hdrained : feed.waiting = []) (hle : published ≤ records.length)
    (hall : records.drop published = []) : feed.received = records.drop feed.start := by
  have hpub := drop_eq_nil_iff.mp hall
  cases h with
  | live read pos _ hread _ hsent hws =>
    have hpos := drop_eq_nil_iff.mp (hws.waiting.symm.trans hdrained)
    rw [length_take_of_le hle] at hpos
    have hmax : records.length ≤ max read pos := (hpub.trans hpos).trans (Nat.le_max_right _ _)
    rw [hsent, take_of_length_le hmax]
  | subscribed _ hph | replaying _ _ _ hph =>
    rw [hph] at hlive
    cases hlive
  | finished hph _ =>
    rw [hlive] at hph
    rcases hph with hph | hph <;> cases hph

/-- **The live feed of a task is gapless** in every run that publishes the records of each task in
the order of its journal: a surface is sent the records of the journal from its cursor on, each
once and in order. Once all are published and its feed has forwarded them, it was sent them all. -/
theorem live_feed_gapless (ids : DerivedIds) (history : List (Transaction V))
    (inputs : List (Input V))
    (hmeets : (Coordinator.start (Database.reached ids history)).RunMeets ids
      (fun c input => c.publishesInOrder input = true ∧ input.deletes = false) inputs) :
    let c := (Coordinator.start (Database.reached ids history)).run ids inputs
    ∀ feed ∈ c.feeds,
      feed.received.map TaskEvent.sequence = List.range' feed.start feed.received.length ∧
      feed.received <+: (c.db.recordsOf feed.taskId).drop feed.start ∧
      ∀ through, feed.phase = .live through → feed.waiting = [] → c.unpublished feed.taskId = [] →
        feed.received = (c.db.recordsOf feed.taskId).drop feed.start := by
  intro c feed hfeed
  have hinv : LiveInv c := (liveInv_start (consistent_reached ids history)).run hmeets
  obtain ⟨published, hle, hunpublished, hfollows⟩ := hinv.published feed.taskId
  have hfollow := hfollows feed hfeed rfl
  have hfirst := hfollow.received_prefix
  refine ⟨?_, hfirst, fun through hlive hdrained hpublished => ?_⟩
  · exact sequences_of_prefix (hinv.consistent.recordsOf_sequences feed.taskId) hfirst
  · rw [hpublished] at hunpublished
    exact hfollow.received_eq hlive hdrained hle (nil_perm.mp hunpublished)

end

/-! ## Two handlers that publish the other way round -/

/-- A task, and no command yet. -/
def taskHistory : List (Transaction Unit) :=
  [.createNodeEnrollment ⟨0⟩ ⟨0⟩, .createTask ⟨⟨1⟩, ⟨0⟩, ⟨0⟩, writer⟩]

def submission (number : Nat) : Request Unit :=
  .submitCommand ⟨number⟩ ⟨1⟩ ⟨0⟩ ⟨"web"⟩ ⟨number⟩ (.fromText "Hello.")

/-- The node connects, a surface attaches, and two commands are admitted. -/
def admitting : List (Input Unit) :=
  [.activate ⟨0⟩, .snapshotExecutions, .snapshotStops, .sendNext, .attach ⟨1⟩ ⟨0⟩ none,
    .readSuffix 0, .forward 0, .acquire (submission 1), .commit, .acquire (submission 2), .commit]

theorem live_feed_gapless_admitting :
    ((Coordinator.start (Database.reached offsetIds taskHistory)).run offsetIds
        (admitting ++ [.proceed 0, .forward 0])).feeds.map
          (fun feed => feed.received.map TaskEvent.sequence) = [[0]] ∧
      ∀ feed ∈ ((Coordinator.start (Database.reached offsetIds taskHistory)).run offsetIds
        (admitting ++ [.proceed 0, .forward 0])).feeds,
        feed.received.map TaskEvent.sequence =
          List.range' feed.start feed.received.length := by
  refine ⟨by decide, fun feed hfeed => ?_⟩
  refine (live_feed_gapless offsetIds taskHistory (admitting ++ [.proceed 0, .forward 0]) ?_
    feed hfeed).1
  decide

/-- The record of the second command is published first, and the surface is sent it first. -/
theorem live_feed_out_of_order :
    ((Coordinator.start (Database.reached offsetIds taskHistory)).run offsetIds
      (admitting ++ [.proceed 1, .proceed 0, .forward 0, .forward 0])).feeds.map
        (fun feed => (feed.phase, feed.received.map TaskEvent.sequence)) =
      [(.live none, [1, 0])] := by
  decide

end Renoa.Control
