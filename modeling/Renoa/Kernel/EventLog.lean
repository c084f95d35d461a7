import Renoa.Foundation.Following
import Renoa.Kernel.Lifecycle
import Renoa.Kernel.SoundReads

/-!
# The event log of a session

Three kinds of transactions append events: loop decisions, cancellations and abandonments. Each
appends one block behind the log of its session and moves its operation to the next transition, so
none appends twice (`Appended`). The log of a session therefore only grows, its events are numbered
from zero, and a page is the log from its cursor on. `session_log_append_only` puts these together
with a reader that follows the returned cursors.
-/

namespace Renoa.Kernel

open Foundation List Table Database

variable {V : Type} {db db' : Database V} {o : OperationRow V} {row : EventRow V}
  {t : Transaction V} {s : SessionRow}

/-! ## The log -/

/-- An event row as readers receive it. -/
def EventRow.semantic (row : EventRow V) (commandId : CommandId) : SemanticEvent V :=
  { row with commandId }

namespace Database

/-- The event of a row, joined with the command of its operation. -/
def semanticEvent? (db : Database V) (row : EventRow V) : Option (SemanticEvent V) :=
  (db.eventOperation? row).map fun operation => row.semantic operation.commandId

/-- The events of a session in the order of their commits. -/
def log (db : Database V) (sessionId : SessionId) : List (SemanticEvent V) :=
  (db.eventsOf sessionId).filterMap db.semanticEvent?

end Database

theorem semanticEvent?_of_mem (ho : o ∈ db.operations) (hid : o.operationId = row.operationId)
    (hsess : o.sessionId = row.sessionId) :
    db.semanticEvent? row = some (row.semantic o.commandId) := by
  unfold Database.semanticEvent?
  cases hfind : db.eventOperation? row with
  | none =>
    have hno := find?_eq_none.mp hfind o ho
    exact absurd (decide_eq_true ⟨hsess, hid⟩) hno
  | some q =>
    have hq := find?_some hfind
    rw [decide_eq_true_eq] at hq
    have hsame : q = o := key_inj (mem_of_find?_eq_some hfind) ho (hq.2.trans hid.symm)
    rw [hsame]
    rfl

/-- A committed event reads the same as long as its operation keeps its command. -/
theorem semanticEvent?_eq (h : Consistent db) (hrow : row ∈ db.semanticEvents)
    (hlat : ∀ o ∈ db.operations, ∃ o' ∈ db'.operations, o.Later o') :
    db'.semanticEvent? row = db.semanticEvent? row := by
  obtain ⟨o, ho, hid, hsess⟩ := h.event_owner row hrow
  obtain ⟨o', ho', hkp⟩ := hlat o ho
  rw [semanticEvent?_of_mem ho hid hsess, semanticEvent?_of_mem ho'
    (hkp.operationId.trans hid) (hkp.sessionId.trans hsess), hkp.commandId]

/-- The log of a database that holds the same events. -/
theorem log_eq_of_events_eq (h : Consistent db) (hevs : db'.semanticEvents = db.semanticEvents)
    (hlat : ∀ o ∈ db.operations, ∃ o' ∈ db'.operations, o.Later o') (sid : SessionId) :
    db'.log sid = db.log sid := by
  unfold Database.log Database.eventsOf
  rw [hevs]
  refine filterMap_congr fun row hrow => ?_
  exact semanticEvent?_eq h (mem_of_mem_filter hrow) hlat

/-! ## What a transaction appends -/

variable {a : Appending V}

/-- The rows of an appending, behind a log of `first` events. -/
def Appending.rows (a : Appending V) (first : Nat) : List (EventRow V) :=
  eventRows a.sessionId a.operationId a.newId first a.events

/-- The block of an appending as readers receive it. -/
def Appending.block (a : Appending V) (first : Nat) (commandId : CommandId) :
    List (SemanticEvent V) := (a.rows first).map (EventRow.semantic · commandId)

/-- What a committed transaction that appends did: nothing, or it appended its block and moved its
operation past the transition it names. -/
inductive Appended (a : Appending V) (db db' : Database V) : Prop
  | nothing (heq : db' = db)
  | appended (session : SessionRow) (o o' : OperationRow V)
      (hsession : session ∈ db.sessions) (hid : session.sessionId = a.sessionId)
      (ho : o ∈ db.operations) (hoid : o.operationId = a.operationId)
      (hos : o.sessionId = a.sessionId) (hactive : o.phase.isCancellable = true)
      (htransition : o.transitionVersion = a.transition)
      (ho' : o' ∈ db'.operations) (hoid' : o'.operationId = a.operationId)
      (htransition' : o'.transitionVersion = a.transition + 1)
      (hrows : db'.semanticEvents.rows = db.semanticEvents.rows ++
        a.rows session.nextEventSequence)

section Steps

variable [DecidableEq V] (h : Consistent db)

include h

/-- What every transaction that appends did. -/
theorem appended_commit (happ : t.appending? = some a) (hcom : t.commit db = .ok db') :
    Appended a db db' := by
  cases commitCase_commit h hcom with
  | unchanged heq => exact .nothing heq
  | rewritten _ hsil => cases hsil.symm.trans happ
  | admitted ht | intended ht => cases ht ▸ happ
  | @continued _ opId _ write c hph _ _ happends =>
    obtain rfl := Option.some.inj (happends.symm.trans happ)
    have ho : c.operation ∈ db.operations := mem_of_find? c.operation_find
    have hoid : c.operation.operationId = opId := key_of_find? c.operation_find
    refine .appended c.session c.operation (c.operation.decided write)
      (mem_of_find? c.session_find) (key_of_find? c.session_find) ho hoid
      c.operation_session (by rw [hph]; rfl) rfl ?_ hoid rfl ?_
    · rw [show db'.operations = _ from congrArg Database.operations c.db'_eq]
      exact mem_put_self ho rfl
    · rw [congrArg (fun d => d.semanticEvents.rows) c.db'_eq]
      exact c.events_eq
  | @ended sid opId newId evs f e hact hsame _ hnext happends =>
    obtain rfl := Option.some.inj (happends.symm.trans happ)
    have ho : e.operation ∈ db.operations := mem_of_find? e.operation_find
    have hoid : e.operation.operationId = opId := key_of_find? e.operation_find
    refine .appended e.session e.operation (f e.operation) (mem_of_find? e.session_find)
      (key_of_find? e.session_find) ho hoid (e.owner h) hact rfl ?_
      (hsame.operationId.trans hoid) hnext ?_
    · rw [show db'.operations = _ from congrArg Database.operations e.db'_eq]
      exact mem_put_self ho hsame.operationId.symm
    · rw [congrArg (fun d => d.semanticEvents.rows) e.db'_eq]
      exact e.events_eq

/-- No other transaction touches the events. -/
theorem events_eq_commit (hsil : t.appending? = none) (hcom : t.commit db = .ok db') :
    db'.semanticEvents = db.semanticEvents := by
  cases commitCase_commit h hcom with
  | unchanged heq => rw [heq]
  | rewritten r _ => exact r.semanticEvents
  | admitted _ _ a => exact congrArg (·.semanticEvents) a.db'_eq
  | intended _ i => exact congrArg (·.semanticEvents) i.db'_eq
  | continued _ _ _ _ happends | ended _ _ _ _ _ happends => cases hsil.symm.trans happends

end Steps

/-! ## Logs grow in order -/

/-- A consistent database whose events stand in the order of their sequences. -/
structure Journalled (db : Database V) : Prop where
  consistent : Consistent db
  ordered : ∀ sessionId, ((db.eventsOf sessionId).map EventRow.sequence).Pairwise (· < ·)

theorem journalled_empty : Journalled (Database.empty : Database V) :=
  ⟨consistent_empty, fun _ => List.Pairwise.nil⟩

theorem Journalled.eventsOf_sequences (h : Journalled db) (hs : s ∈ db.sessions) :
    (db.eventsOf s.sessionId).map EventRow.sequence = List.range s.nextEventSequence := by
  apply (h.consistent.event_numbered s hs).eq_of_pairwise (fun a b _ _ => Nat.le_antisymm)
  · exact (h.ordered s.sessionId).imp Nat.le_of_lt
  · exact pairwise_lt_range.imp Nat.le_of_lt

/-- The rows of an appending belong to its session. -/
theorem Appending.eventsOf {first : Nat}
    (hrows : db'.semanticEvents.rows = db.semanticEvents.rows ++ a.rows first)
    (sid : SessionId) : db'.eventsOf sid = db.eventsOf sid ++
      if sid = a.sessionId then a.rows first else [] := by
  unfold Database.eventsOf
  rw [hrows]
  exact filter_append_owner (fun row hrow => (eventRows_owner hrow).1) sid

theorem Appended.ordered (happ : Appended a db db') (h : Journalled db) (sid : SessionId) :
    ((db'.eventsOf sid).map EventRow.sequence).Pairwise (· < ·) := by
  cases happ with
  | nothing heq =>
    rw [heq]
    exact h.ordered sid
  | appended sess o o' hsess hid _ _ _ _ _ _ _ _ hrows =>
    rw [Appending.eventsOf hrows]
    split
    next hsame =>
      subst hsame
      rw [map_append, ← hid, h.eventsOf_sequences hsess, Appending.rows,
        map_sequence_eventRows, range_eq_range', pairwise_append]
      refine ⟨pairwise_lt_range' 1 Nat.one_pos, pairwise_lt_range' 1 Nat.one_pos, ?_⟩
      intro i hi j hj
      rw [mem_range'_1] at hi hj
      omega
    · rw [append_nil]
      exact h.ordered sid

theorem Journalled.commit [DecidableEq V] (h : Journalled db) (hcom : t.commit db = .ok db') :
    Journalled db' := by
  refine ⟨(committed_commit h.consistent hcom).consistent h.consistent, fun sid => ?_⟩
  cases happ : t.appending? with
  | none =>
    unfold Database.eventsOf
    rw [events_eq_commit h.consistent happ hcom]
    exact h.ordered sid
  | some a => exact (appended_commit h.consistent happ hcom).ordered h sid

theorem Journalled.runAll [DecidableEq V] (h : Journalled db) (ts : List (Transaction V)) :
    Journalled (db.runAll ts) :=
  runAll_induction h (fun _ _ _ h hcom => h.commit hcom) ts

/-- Readers receive every event of the log. -/
theorem Consistent.exists_semanticEvent (h : Consistent db) {sid : SessionId}
    (hrow : row ∈ db.eventsOf sid) :
    ∃ ev, db.semanticEvent? row = some ev ∧ ev.sequence = row.sequence := by
  obtain ⟨o, ho, hid, hsess⟩ := h.event_owner row (mem_eventsOf.mp hrow).1
  exact ⟨_, semanticEvent?_of_mem ho hid hsess, rfl⟩

theorem Journalled.log_sequences (h : Journalled db) (hs : s ∈ db.sessions) :
    (db.log s.sessionId).map SemanticEvent.sequence = List.range s.nextEventSequence := by
  rw [← h.eventsOf_sequences hs]
  exact map_filterMap_of_forall fun row hrow => h.consistent.exists_semanticEvent hrow

theorem Journalled.length_log (h : Journalled db) (hs : s ∈ db.sessions) :
    (db.log s.sessionId).length = s.nextEventSequence := by
  have hcnt := congrArg List.length (h.log_sequences hs)
  rwa [length_map, length_range] at hcnt

/-! ## Blocks -/

/-- An appended block stands behind the log of its session, and no other log changed. -/
theorem Appended.log (happ : Appended a db db') (h : Journalled db)
    (hlat : ∀ o ∈ db.operations, ∃ o' ∈ db'.operations, o.Later o') :
    db' = db ∨ ∃ o ∈ db.operations, o.operationId = a.operationId ∧
      db'.log a.sessionId = db.log a.sessionId ++ a.block (db.log a.sessionId).length o.commandId ∧
      ∀ sid ≠ a.sessionId, db'.log sid = db.log sid := by
  cases happ with
  | nothing heq => exact .inl heq
  | appended sess o o' hsess hid ho hoid hos _ _ _ _ _ hrows =>
    refine .inr ⟨o, ho, hoid, ?_, fun sid hne => ?_⟩
    · obtain ⟨q, hq, hkp⟩ := hlat o ho
      have hblk : (a.rows sess.nextEventSequence).filterMap db'.semanticEvent? =
          a.block sess.nextEventSequence o.commandId := by
        refine filterMap_eq_map_iff_forall_eq_some.mpr fun row hrow => ?_
        obtain ⟨hrs, hro⟩ := eventRows_owner hrow
        rw [semanticEvent?_of_mem hq (hkp.operationId.trans (hoid.trans hro.symm))
          (hkp.sessionId.trans (hos.trans hrs.symm)), hkp.commandId]
      have hlen : (db.log a.sessionId).length = sess.nextEventSequence := by
        rw [← hid]
        exact h.length_log hsess
      rw [Database.log, Appending.eventsOf hrows, if_pos rfl, filterMap_append, hblk, hlen]
      congr 1
      exact filterMap_congr fun row hrow =>
        semanticEvent?_eq h.consistent (mem_eventsOf.mp hrow).1 hlat
    · rw [Database.log, Appending.eventsOf hrows, if_neg hne, append_nil]
      exact filterMap_congr fun row hrow =>
        semanticEvent?_eq h.consistent (mem_eventsOf.mp hrow).1 hlat

section Runs

variable [DecidableEq V]

theorem Journalled.log_apply (h : Journalled db) (t : Transaction V) (sid : SessionId) :
    db.log sid <+: (db.apply t).log sid := by
  unfold Database.apply
  cases hcom : t.commit db with
  | error e => exact prefix_refl _
  | ok db' =>
    have hlat : ∀ o ∈ db.operations, ∃ o' ∈ db'.operations, o.Later o' :=
      fun o ho => (rowsStep_commit h.consistent hcom).exists_later ho
    cases happ : t.appending? with
    | none =>
      have hevs := events_eq_commit h.consistent happ hcom
      exact ⟨[], by rw [append_nil, log_eq_of_events_eq h.consistent hevs hlat]⟩
    | some a =>
      rcases (appended_commit h.consistent happ hcom).log h hlat with
        heq | ⟨o, _, _, hblk, hoth⟩
      · exact ⟨[], by rw [append_nil, heq]⟩
      · by_cases hsame : sid = a.sessionId
        · subst hsame
          exact ⟨_, hblk.symm⟩
        · exact ⟨[], by rw [append_nil, hoth sid hsame]⟩

theorem Journalled.log_runAll (h : Journalled db) (ts : List (Transaction V))
    (sid : SessionId) : db.log sid <+: (db.runAll ts).log sid := by
  induction ts generalizing db with
  | nil => exact prefix_refl _
  | cons t ts ih =>
    have hnext : Journalled (db.apply t) := h.runAll [t]
    exact (h.log_apply t sid).trans (ih hnext)

/-- An appending finds its operation active at the transition it names, or does nothing. -/
theorem Consistent.apply_eq_self (h : Consistent db) (happ : t.appending? = some a)
    (hgone : ∀ o ∈ db.operations, o.operationId = a.operationId → o.phase.isCancellable = true →
      o.transitionVersion ≠ a.transition) : db.apply t = db := by
  unfold Database.apply
  cases hcom : t.commit db with
  | error e => rfl
  | ok db' =>
    cases appended_commit h happ hcom with
    | nothing heq => exact heq
    | appended _ o _ _ _ ho hoid _ hact htrn => exact absurd htrn (hgone o ho hoid hact)

/-- A transaction that appended left its operation past the transition it names. -/
theorem Consistent.passed_of_apply_ne (h : Consistent db) (happ : t.appending? = some a)
    (hne : db.apply t ≠ db) :
    ∃ o ∈ (db.apply t).operations, o.operationId = a.operationId ∧
      a.transition < o.transitionVersion := by
  unfold Database.apply at hne ⊢
  cases hcom : t.commit db with
  | error e =>
    rw [hcom] at hne
    exact absurd rfl hne
  | ok db' =>
    rw [hcom] at hne
    cases appended_commit h happ hcom with
    | nothing heq => exact absurd heq hne
    | appended _ _ o' _ _ _ _ _ _ _ ho' hoid' htransition' =>
      exact ⟨o', ho', hoid', by rw [htransition']; exact Nat.lt_succ_self _⟩

/-- What appended once never appends again. -/
theorem Consistent.appends_once (h : Consistent db) {t' : Transaction V} {a' : Appending V}
    (happ : t.appending? = some a) (hne : db.apply t ≠ db)
    (happending' : t'.appending? = some a') (hop : a'.operationId = a.operationId)
    (htrn : a'.transition = a.transition) (later : List (Transaction V)) :
    ((db.apply t).runAll later).apply t' = (db.apply t).runAll later := by
  have hnext : Consistent (db.apply t) := consistent_runAll h [t]
  obtain ⟨o, ho, hid, hpassed⟩ := h.passed_of_apply_ne happ hne
  obtain ⟨o', ho', hlat⟩ := exists_later_runAll hnext ho later
  refine (consistent_runAll hnext later).apply_eq_self happending' fun q hq hqid _ => ?_
  have hsame : q = o' := key_inj hq ho'
    (hqid.trans (hop.trans (hid.symm.trans hlat.operationId.symm)))
  rw [hsame, htrn]
  exact Nat.ne_of_gt (Nat.lt_of_lt_of_le hpassed hlat.transition)

/-- An operation that has ended appends nothing more. -/
theorem Consistent.ended_appends_nothing (h : Consistent db) (ho : o ∈ db.operations)
    (hend : o.outcome ≠ none) (happ : t.appending? = some a)
    (hid : a.operationId = o.operationId) : db.apply t = db := by
  refine h.apply_eq_self happ fun q hq hqid hact => ?_
  have hsame : q = o := key_inj hq ho (hqid.trans hid)
  exact absurd (h.outcome_none o ho (hsame ▸ hact)) hend

end Runs

/-! ## Pages -/

theorem filterMap_drop_of_forall {α β : Type} {f : α → Option β} {l : List α}
    (h : ∀ a ∈ l, ∃ b, f a = some b) (n : Nat) :
    (l.drop n).filterMap f = (l.filterMap f).drop n := by
  induction l generalizing n with
  | nil => simp
  | cons a rest ih =>
    cases n with
    | zero => rfl
    | succ n =>
      obtain ⟨b, hb⟩ := h a mem_cons_self
      rw [drop_succ_cons, filterMap_cons_some hb, drop_succ_cons,
        ih fun c hc => h c (mem_cons_of_mem a hc)]

theorem Journalled.loadEvents_eq (h : Journalled db) (hs : s ∈ db.sessions) (cursor : Nat) :
    db.loadEvents s.sessionId cursor = (db.log s.sessionId).drop cursor := by
  have hseqs := h.eventsOf_sequences hs
  have hlen : (db.eventsOf s.sessionId).length = s.nextEventSequence := by
    have hcnt := congrArg List.length hseqs
    rwa [length_map, length_range] at hcnt
  have hrange : (db.eventsOf s.sessionId).map EventRow.sequence =
      List.range' 0 (db.eventsOf s.sessionId).length := by
    rw [hseqs, hlen, range_eq_range']
  have hfilt := filter_eq_drop cursor hrange
  rw [Nat.sub_zero] at hfilt
  have hsort : (((db.eventsOf s.sessionId).drop cursor).map
      EventRow.sequence).Pairwise (· ≤ ·) := by
    rw [map_drop]
    exact ((h.ordered s.sessionId).imp Nat.le_of_lt).sublist (drop_sublist _ _)
  show (orderBy EventRow.sequence (List.filter _ _)).filterMap db.semanticEvent? = _
  rw [hfilt, orderBy_eq_self hsort]
  refine filterMap_drop_of_forall (fun row hrow => ?_) cursor
  obtain ⟨ev, hev, _⟩ := h.consistent.exists_semanticEvent hrow
  exact ⟨ev, hev⟩

/-- A page is the log from its cursor on. -/
theorem Journalled.eventsAfter_of_le (h : Journalled db) (hs : s ∈ db.sessions) {cursor : Nat}
    (hle : cursor ≤ s.nextEventSequence) :
    db.eventsAfter s.sessionId cursor =
      .ok ⟨(db.log s.sessionId).drop cursor, s.nextEventSequence⟩ := by
  have hgapless := validateGapless_eq_ok (h.consistent.map_sequence_loadEvents hs hle)
  rw [Nat.add_sub_of_le hle] at hgapless
  unfold Database.eventsAfter Database.loadEventPage
  rw [find?_of_mem hs]
  show (ensure _ _ >>= fun _ => validateGapless _ _ _ >>= fun _ => _) = _
  rw [ensure_of_eq_true (decide_eq_true hle), except_bind_ok, hgapless, except_bind_ok,
    h.loadEvents_eq hs]
  rfl

/-- A cursor ahead of the log is refused. -/
theorem eventsAfter_of_lt (hs : s ∈ db.sessions) {cursor : Nat}
    (hlt : s.nextEventSequence < cursor) :
    db.eventsAfter s.sessionId cursor = .error (.cursorAhead cursor s.nextEventSequence) := by
  have hrefused : ensure (decide (cursor ≤ s.nextEventSequence))
      (KernelError.cursorAhead cursor s.nextEventSequence) =
        .error (.cursorAhead cursor s.nextEventSequence) := by
    rw [decide_eq_false (Nat.not_le.mpr hlt)]
    rfl
  unfold Database.eventsAfter Database.loadEventPage
  rw [find?_of_mem hs]
  show (ensure _ _ >>= fun _ => _) = _
  rw [hrefused]
  rfl

/-! ## A reader that follows the returned cursors -/

/-- A reader of a session's events: the cursor it was given last, and what it has read. -/
structure EventReader (V : Type) where
  db : Database V
  cursor : Nat
  seen : List (SemanticEvent V)

inductive ReaderStep (V : Type) where
  | commit (t : Transaction V)
  | read

section Reader

variable [DecidableEq V] {sid : SessionId}

namespace EventReader

def start (db : Database V) : EventReader V := ⟨db, 0, []⟩

def step (sessionId : SessionId) (r : EventReader V) : ReaderStep V → EventReader V
  | .commit t => { r with db := r.db.apply t }
  | .read =>
    match r.db.eventsAfter sessionId r.cursor with
    | .ok page => { r with cursor := page.nextCursor, seen := r.seen ++ page.events }
    | .error _ => r

def run (sessionId : SessionId) (r : EventReader V) (steps : List (ReaderStep V)) :
    EventReader V := steps.foldl (step sessionId) r

end EventReader

/-- What a reader has: the log of its session up to its cursor. -/
structure EventReader.Follows (r : EventReader V) (sessionId : SessionId) : Prop where
  journalled : Journalled r.db
  seen : Foundation.Follows (r.db.log sessionId) r.cursor r.seen

theorem EventReader.Follows.step {r : EventReader V} (h : r.Follows sid)
    (step : ReaderStep V) : (r.step sid step).Follows sid := by
  cases step with
  | commit t => exact ⟨h.journalled.runAll [t], h.seen.grow (h.journalled.log_apply t sid)⟩
  | read =>
    by_cases hsess : ∃ s ∈ r.db.sessions, s.sessionId = sid
    · obtain ⟨s, hs, rfl⟩ := hsess
      have hlen := h.journalled.length_log hs
      have hpage := h.journalled.eventsAfter_of_le hs (hlen ▸ h.seen.position_le)
      refine ⟨?_, ?_⟩ <;> unfold EventReader.step <;> rw [hpage]
      · exact h.journalled
      · have hread := h.seen.read
        rw [hlen] at hread
        exact hread
    · -- the session is unknown, so the read fails
      have hnone : r.db.sessions.find? sid = none :=
        find?_eq_none.mpr fun s hs hid => hsess ⟨s, hs, hid⟩
      have hfails : r.db.eventsAfter sid r.cursor = .error (.sessionNotFound sid) := by
        unfold Database.eventsAfter Database.loadEventPage
        rw [hnone]
        rfl
      refine ⟨?_, ?_⟩ <;> unfold EventReader.step <;> rw [hfails]
      · exact h.journalled
      · exact h.seen

theorem EventReader.Follows.run {r : EventReader V} (h : r.Follows sid)
    (steps : List (ReaderStep V)) : (r.run sid steps).Follows sid :=
  List.foldlRecOn (motive := fun r => EventReader.Follows r sid) steps _ h
    fun _ h step _ => h.step step

/-- **What holds of the event logs of a database.** -/
structure Database.AppendOnlyLogs (db : Database V) : Prop where
  numbered : ∀ s ∈ db.sessions,
    (db.log s.sessionId).map SemanticEvent.sequence = List.range s.nextEventSequence
  kept : ∀ later sessionId, db.log sessionId <+: (db.runAll later).log sessionId
  /-- Decisions, cancellations and abandonments append one block each. -/
  appended : ∀ t a db', t.appending? = some a → Transaction.commit db t = .ok db' →
    db' = db ∨ ∃ o ∈ db.operations, o.operationId = a.operationId ∧
      db'.log a.sessionId = db.log a.sessionId ++ a.block (db.log a.sessionId).length o.commandId ∧
      ∀ sessionId ≠ a.sessionId, db'.log sessionId = db.log sessionId
  silent : ∀ t : Transaction V, t.appending? = none → ∀ sessionId,
    (db.apply t).log sessionId = db.log sessionId
  /-- Nothing that appended at a transition of an operation appends there again. -/
  once : ∀ (t t' : Transaction V) a a', t.appending? = some a → db.apply t ≠ db →
    t'.appending? = some a' → a'.operationId = a.operationId → a'.transition = a.transition →
    ∀ later, ((db.apply t).runAll later).apply t' = (db.apply t).runAll later
  ended : ∀ o ∈ db.operations, o.outcome ≠ none → ∀ (t : Transaction V) a,
    t.appending? = some a → a.operationId = o.operationId → db.apply t = db
  page : ∀ s ∈ db.sessions, ∀ cursor ≤ s.nextEventSequence,
    db.eventsAfter s.sessionId cursor =
      .ok ⟨(db.log s.sessionId).drop cursor, s.nextEventSequence⟩
  refused : ∀ s ∈ db.sessions, ∀ cursor > s.nextEventSequence,
    db.eventsAfter s.sessionId cursor = .error (.cursorAhead cursor s.nextEventSequence)
  /-- Whatever was committed between the reads, the next one completes the log. -/
  followed : ∀ sessionId steps r, (EventReader.start db).run sessionId steps = r →
    r.seen <+: r.db.log sessionId ∧
      ∀ s ∈ r.db.sessions, s.sessionId = sessionId →
        ∃ page, r.db.eventsAfter sessionId r.cursor = .ok page ∧
          r.seen ++ page.events = r.db.log sessionId

/-- **The event log of a session is append-only and gapless, and pages compose.** -/
theorem session_log_append_only (ts : List (Transaction V)) :
    (Database.empty.runAll ts).AppendOnlyLogs := by
  have h : Journalled (Database.empty.runAll ts) := journalled_empty.runAll ts
  have hc := h.consistent
  refine ⟨fun s hs => h.log_sequences hs, fun later sessionId => h.log_runAll later sessionId,
    ?_, ?_, ?_, ?_, fun s hs cursor hle => h.eventsAfter_of_le hs hle,
    fun s hs cursor hlt => eventsAfter_of_lt hs hlt, ?_⟩
  · intro t a db' happending hcommit
    exact (appended_commit hc happending hcommit).log h
      fun o ho => (rowsStep_commit hc hcommit).exists_later ho
  · intro t hsilent sessionId
    unfold Database.apply
    cases hcommit : t.commit (Database.empty.runAll ts) with
    | error e => rfl
    | ok db' =>
      exact log_eq_of_events_eq hc (events_eq_commit hc hsilent hcommit)
        (fun o ho => (rowsStep_commit hc hcommit).exists_later ho) sessionId
  · intro t t' a a' happending hne happending' hoperation htransition later
    exact hc.appends_once happending hne happending' hoperation htransition later
  · intro o ho hended t a happending hid
    exact hc.ended_appends_nothing ho hended happending hid
  · rintro sessionId steps r rfl
    have hstart : (EventReader.start (Database.empty.runAll ts)).Follows sessionId :=
      ⟨h, follows_start _⟩
    obtain ⟨hj, hseen⟩ := hstart.run steps
    refine ⟨hseen.isPrefix, ?_⟩
    rintro s hs rfl
    exact ⟨_, hj.eventsAfter_of_le hs (hj.length_log hs ▸ hseen.position_le), hseen.append_drop⟩

end Reader

end Renoa.Kernel
