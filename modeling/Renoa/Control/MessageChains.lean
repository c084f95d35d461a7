import Renoa.Control.Answering

/-!
# Chains of agents' messages

A request is one deeper than the command it is sent from, and an answer one deeper than its
request. The depth and the sender of a message are read from the store when it is admitted, so each
message is authentic then (`AuthenticRequest`, `AuthenticReply`), whatever is deleted or stored
again later. The limit on requests bounds every stored message (`message_chains_bounded`).
-/

namespace Renoa.Control

open Foundation Protocol Table Database

variable {V : Type} {db db' : Database V} {origin : AgentOrigin}

/-- How deep in a chain of agents' messages a command stands; other commands start one. -/
def chainDepth (command : CommandEnvelope) : Nat := command.origin.elim 0 AgentOrigin.depth

/-- The deepest a message of the kind may be. -/
def depthLimit : AgentMessageKind → Nat
  | .request => maxChainDepth
  | .reply | .failure => maxChainDepth + 1

/-- Every stored message stands within the limit of its kind. -/
def Database.ChainsBounded (db : Database V) : Prop :=
  ∀ row ∈ db.commands, ∀ origin, row.command.origin = some origin →
    origin.depth ≤ depthLimit origin.kind

/-- The request `command`, sent by the node from the stored command it names. -/
structure AuthenticRequest (db : Database V) (nodeId : NodeId) (command : CommandEnvelope)
    (origin : AgentOrigin) : Prop where
  kind : origin.kind = .request
  sent : ∃ asking ∈ db.commands, ∃ source ∈ db.tasks, asking.commandId = origin.fromCommand ∧
    asking.taskId = source.taskId ∧ chainDepth asking.command < origin.depth ∧
    origin.source = source.target ∧ source.principalId = command.principalId ∧
    source.nodeId = nodeId ∧ (asking.command.input.quiet = true → command.input.quiet = true)

/-- The answer `command` to the stored request `requestId`. -/
structure AuthenticReply (db : Database V) (requestId : CommandId) (command : CommandEnvelope)
    (origin : AgentOrigin) : Prop where
  kind : origin.kind ≠ .request
  request : origin.fromCommand = requestId
  answers : ∃ request ∈ db.commands, ∃ asked, request.commandId = requestId ∧
    request.command.request? = some asked ∧ chainDepth request.command < origin.depth ∧
    ∃ asking ∈ db.commands, asking.commandId = asked.fromCommand ∧
      (command.input.quiet = true ↔ asking.command.input.quiet = true)

/-- The message a transaction admitted is authentic in the database before it. -/
def Transaction.Authentic (db : Database V) (command : CommandEnvelope) (origin : AgentOrigin) :
    Transaction V → Prop
  | .admitAgentMessage _ nodeId _ _ _ => AuthenticRequest db nodeId command origin
  | .appendExecutionEvents _ _ _ commandId _ _ => AuthenticReply db commandId command origin
  | _ => False

/-! ## Depths -/

/-- An admitted request is one deeper than its source, and within the limit. -/
theorem messageDepth_ok {source : CommandEnvelope} {msg : OutgoingMessage} {depth : Nat}
    (h : messageDepth source msg = .ok depth) :
    depth = chainDepth source + 1 ∧ depth ≤ maxChainDepth := by
  iterate 2 obtain ⟨_, _, h⟩ := bind_ok h
  obtain ⟨_, hlim, h⟩ := bind_ok h
  have hlim := of_decide_eq_true (ensure_ok hlim)
  cases h
  -- the saturating addition is far above the limit
  have hsum : min (chainDepth source + 1) maxU32 ≤ maxChainDepth := hlim
  unfold maxChainDepth maxU32 at hsum
  refine ⟨?_, hlim⟩
  show min (chainDepth source + 1) maxU32 = chainDepth source + 1
  unfold maxU32
  omega

/-- The answer to a request within the limit is one deeper than it. -/
theorem replyDepth_eq {depth : Nat} (h : depth ≤ maxChainDepth) :
    min (depth + 1) maxU32 = depth + 1 := by
  unfold maxChainDepth at h
  unfold maxU32
  omega

theorem request?_eq_some {cmd : CommandEnvelope} (h : cmd.request? = some origin) :
    cmd.origin = some origin ∧ origin.kind = .request := by
  obtain ⟨horig, hkind⟩ := Option.filter_eq_some_iff.mp h
  refine ⟨horig, ?_⟩
  cases hcase : origin.kind with
  | request => rfl
  | reply | failure =>
    rw [hcase] at hkind
    cases hkind

theorem replyContent_kind (db : Database V) (tid : TaskId) (cid : CommandId)
    (terminal : ExecutionTerminal) : (db.replyContent tid cid terminal).1 ≠ .request := by
  cases terminal <;> exact fun h => by cases h

/-! ## Steps -/

theorem AdmittedMessage.commands {ids : DerivedIds} {nid : NodeId} {msg : OutgoingMessage}
    {adm : MessageAdmission V} (h : AdmittedMessage ids db db' nid msg adm) :
    db'.commands = db.commands ∨ ∃ tid cmd origin, cmd.origin = some origin ∧
      db'.commands.rows = db.commands.rows ++ [⟨cmd.commandId, tid, cmd⟩] ∧
      origin.depth ≤ maxChainDepth ∧ AuthenticRequest db nid cmd origin := by
  cases h with
  | existing _ _ _ _ hdb => exact .inl (by rw [hdb])
  | @admitted pid source asking depth task hrte name mid row hthr h =>
    have hmid : mid.commands = db.commands := by
      rcases hthr with hopn | ⟨rfl, _⟩
      · exact hopn.commands_eq
      · rfl
    obtain ⟨hdepth, hlim⟩ := messageDepth_ok hrte.depth_eq
    refine .inr ⟨task.taskId, messageCommand pid msg source asking.command depth name, _, rfl,
      hmid ▸ h.commands, hlim, rfl, asking, hrte.asking_mem, source, hrte.source_mem,
      hrte.asking_id, hrte.asking_task, ?_, rfl, hrte.source_principal,
      hrte.source_node, id⟩
    rw [hdepth]
    exact Nat.lt_succ_self _

theorem AdmittedReply.commands {ids : DerivedIds} {tid : TaskId} {cid : CommandId}
    {appended : List (TaskEvent V)} {replier : String} {reply : Option (AgentReply V)}
    (h : AdmittedReply ids db db' tid cid appended replier reply)
    (hbdd : db.ChainsBounded) :
    db'.commands = db.commands ∨ ∃ tid cmd origin, cmd.origin = some origin ∧
      db'.commands.rows = db.commands.rows ++ [⟨cmd.commandId, tid, cmd⟩] ∧
      origin.depth ≤ maxChainDepth + 1 ∧ AuthenticReply db cid cmd origin := by
  cases h with
  | unended _ hdb | unasked _ _ _ hdb => exact .inl (by rw [hdb])
  | @answered row asking asked terminal asker task record _ hrow hreq hask _ _ h =>
    obtain ⟨horig, hkind⟩ := request?_eq_some hreq
    have hrowMem := mem_of_find? hrow
    have hlim : asked.depth ≤ maxChainDepth := by
      have hlim := hbdd row hrowMem asked horig
      rw [hkind] at hlim
      exact hlim
    have hdepth := replyDepth_eq hlim
    have hasked : chainDepth row.command = asked.depth := by
      rw [chainDepth, horig]
      rfl
    refine .inr ⟨asking.taskId, _, _, rfl, h.commands, ?_, replyContent_kind _ _ _ _, rfl, row,
      hrowMem, asked, key_of_find? hrow, hreq, ?_, asking,
      mem_of_find? hask, key_of_find? hask, Iff.rfl⟩
    · rw [hdepth]
      exact Nat.succ_le_succ hlim
    · rw [hdepth, hasked]
      exact Nat.lt_succ_self _

section Runs

variable [JsonText V] {ids : DerivedIds} {transaction : Transaction V}

omit [JsonText V] in
/-- What a committed transaction did to the stored commands: a new message is authentic and within
the limit of its kind. -/
theorem Committed.message (h : Committed ids db db' transaction) (hbdd : db.ChainsBounded)
    {row : CommandRow} (hrow : row ∈ db'.commands) (horig : row.command.origin = some origin) :
    row ∈ db.commands ∨ (origin.depth ≤ depthLimit origin.kind ∧
      transaction.Authentic db row.command origin) := by
  cases h with
  | quiet h => exact .inl (h.commands ▸ hrow)
  | opened task h => exact .inl (h.commands_eq ▸ hrow)
  | submitted _ _ _ h =>
    cases h with
    | notAdmitted _ hdb | existing _ _ _ hdb => exact .inl (hdb ▸ hrow)
    | admitted _ h =>
      rcases h.mem_commands.mp hrow with hold | rfl
      · exact .inl hold
      · cases horig
  | messaged _ _ _ h =>
    rcases h.commands with heq | ⟨tid, cmd, sent, hsent, hrows, hlim, hauth⟩
    · exact .inl (heq ▸ hrow)
    · rcases (mem_concat hrows).mp hrow with hold | rfl
      · exact .inl hold
      · obtain rfl : sent = origin := Option.some.inj (hsent.symm.trans horig)
        refine .inr ⟨?_, hauth⟩
        rw [hauth.kind]
        exact hlim
  | batch _ _ mid hbat hrep =>
    have hmid : mid.commands = db.commands := hbat.commands_eq
    have hmidBounded : mid.ChainsBounded := by
      unfold Database.ChainsBounded
      rw [hmid]
      exact hbdd
    rcases hrep.commands hmidBounded with
      heq | ⟨tid, cmd, sent, hsent, hrows, hlim, hauth⟩
    · exact .inl (hmid ▸ heq ▸ hrow)
    · rcases (mem_concat hrows).mp hrow with hold | rfl
      · exact .inl (hmid ▸ hold)
      · obtain rfl : sent = origin := Option.some.inj (hsent.symm.trans horig)
        refine .inr ⟨?_, hauth.kind, hauth.request, hmid ▸ hauth.answers⟩
        cases hkind : sent.kind with
        | request => exact absurd hkind hauth.kind
        | reply | failure => exact hlim
  | deleted _ _ hdb =>
    rw [hdb] at hrow
    exact .inl (mem_commands_removeTask.mp hrow).1

theorem chainsBounded_reached (ids : DerivedIds) (history : List (Transaction V)) :
    (Database.reached ids history).ChainsBounded := by
  refine runAll_induction (motive := Database.ChainsBounded) consistent_empty
    (fun row hrow => absurd hrow not_mem_empty) ?_ history
  intro db transaction db' hc hbdd hcom row hrow origin horig
  rcases (transaction.commit_committed hc hcom).message hbdd hrow horig with
    hold | ⟨hlim, _⟩
  · exact hbdd row hold origin horig
  · exact hlim

/-- **Agents' messages form bounded chains, and each is authentic when it is admitted.** -/
theorem message_chains_bounded (ids : DerivedIds) (history : List (Transaction V)) :
    (Database.reached ids history).ChainsBounded ∧
      ∀ (transaction : Transaction V) db',
        transaction.commit ids (Database.reached ids history) = .ok db' →
        ∀ row ∈ db'.commands, row ∉ (Database.reached ids history).commands →
          ∀ origin, row.command.origin = some origin →
            transaction.Authentic (Database.reached ids history) row.command origin := by
  have hbounded := chainsBounded_reached ids history
  refine ⟨hbounded, fun transaction db' hcommit row hrow hnew origin horigin => ?_⟩
  have hc := consistent_reached ids history
  rcases (transaction.commit_committed hc hcommit).message hbounded hrow horigin with
    hold | ⟨_, hauthentic⟩
  · exact absurd hold hnew
  · exact hauthentic

end Runs

end Renoa.Control
