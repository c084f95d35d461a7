import Renoa.Control.Model

/-!
# Calls to a Host

A call is registered on the connection of the one serving node while the node table is held, and
the cleanup of a connection takes it from the table and ends its calls under the same lock. So a
pending call always waits on a connection that is still in service, and it is answered at most once,
by that connection (`host_calls_answered_once`). The answer goes through a channel whose sender the
pending call holds; a caller that leaves drops its end, and after that its registration.
-/

namespace Renoa.Control

open List Function

/-- The channel of a call: its sender is pending, has sent the reply, or is dropped. -/
inductive Channel (R : Type) where
  | pending
  | sent (reply : R)
  | closed

inductive CallOutcome (R : Type) where
  | answered (reply : R)
  | disconnected
  | timedOut
  | dropped

/-- Where the caller is: its message is not sent yet, it waits for the answer, or it has left. -/
inductive CallPhase (R : Type) where
  | sending
  | waiting
  | done (outcome : CallOutcome R)

variable {R : Type}

def CallPhase.isDone : CallPhase R → Bool
  | .done _ => true
  | _ => false

structure Call (R : Type) where
  connection : Nat
  channel : Channel R
  phase : CallPhase R

/-- A connected node, and whether it serves Host control. -/
structure HostNode where
  connection : Nat
  hostControl : Bool

/-- The task of a connection activates it, serves it, and cleans up behind it. -/
inductive Stage where
  | opening
  | serving
  | ended
  deriving DecidableEq

/-- The node table, the pending calls with their connections, and the answers given so far.
Connections and calls are numbered. -/
structure HostCalls (R : Type) where
  nodes : NodeId → Option HostNode
  stage : Nat → Stage
  pending : Nat → Option Nat
  calls : Nat → Option (Call R)
  answers : List (Nat × Nat × R)

namespace HostCalls

/-- What the tasks of connections and callers do, one lock at a time. -/
inductive Input (R : Type) where
  | replace (k : Nat)
  | insert (k : Nat)
  | serveHostControl (k : Nat)
  | dispatch (c : Nat) (owned : List NodeId) (fits : Bool)
  | send (c : Nat) (taken : Bool)
  | poll (c : Nat)
  | leave (c : Nat) (timedOut : Bool)
  | unregister (c : Nat)
  | complete (k c : Nat) (reply : R)
  | cleanup (k : Nat)

def start : HostCalls R := ⟨fun _ => none, fun _ => .opening, fun _ => none, fun _ => none, []⟩

section

variable (owner : Nat → NodeId) (s : HostCalls R) (c k : Nat)

/-- A call is registered on the connection of the one owned node that serves. -/
def dispatch (owned : List NodeId) (fits : Bool) : HostCalls R :=
  match fits, s.calls c, owned.filterMap fun n => (s.nodes n).filter HostNode.hostControl with
  | true, none, [node] =>
    { s with
      pending := Function.update s.pending c (some node.connection)
      calls := Function.update s.calls c (some ⟨node.connection, .pending, .sending⟩) }
  | _, _, _ => s

def onCall (f : Call R → HostCalls R) : HostCalls R :=
  match s.calls c with
  | some call => f call
  | none => s

def setPhase (call : Call R) (phase : CallPhase R) : HostCalls R :=
  { s with calls := Function.update s.calls c (some { call with phase }) }

/-- The message of the caller is taken, or the connection is gone. -/
def send (taken : Bool) : HostCalls R :=
  s.onCall c fun call => match call.phase with
    | .sending => s.setPhase c call (if taken then .waiting else .done .disconnected)
    | _ => s

/-- The caller looks for its answer. -/
def poll : HostCalls R :=
  s.onCall c fun call => match call.phase, call.channel with
    | .waiting, .sent reply => s.setPhase c call (.done (.answered reply))
    | .waiting, .closed => s.setPhase c call (.done .disconnected)
    | _, _ => s

/-- The caller's deadline passes, or the caller is dropped. -/
def leave (timedOut : Bool) : HostCalls R :=
  s.onCall c fun call =>
    if call.phase.isDone then s
    else s.setPhase c call (.done (if timedOut then .timedOut else .dropped))

/-- The registration of a caller that has left is dropped. -/
def unregister : HostCalls R :=
  s.onCall c fun call =>
    if call.phase.isDone then { s with pending := Function.update s.pending c none } else s

/-- A connection answers a call. Only a call that is pending on it takes the reply, unless the
caller has left. -/
def complete (reply : R) : HostCalls R :=
  s.onCall c fun call =>
    if s.pending c = some k then
      let s := { s with pending := Function.update s.pending c none }
      if call.phase.isDone then s
      else
        { s with
          calls := Function.update s.calls c (some { call with channel := .sent reply })
          answers := (c, k, reply) :: s.answers }
    else s

/-- The senders of the calls on a connection are dropped. -/
def endConnection : HostCalls R :=
  { s with
    pending := fun c => (s.pending c).filter (· ≠ k)
    calls := fun c =>
      if s.pending c = some k then (s.calls c).map fun call => { call with channel := .closed }
      else s.calls c }

def cleanupConnection : HostCalls R :=
  { s.endConnection k with
    nodes :=
      if (s.nodes (owner k)).any fun node => node.connection = k then
        Function.update s.nodes (owner k) none
      else s.nodes
    stage := Function.update s.stage k .ended }

/-- A step; `owner` is the node of each connection. -/
def step : Input R → HostCalls R
  | .replace k => { s with nodes := Function.update s.nodes (owner k) none }
  | .insert k =>
    if s.stage k = .opening then
      { s with
        nodes := Function.update s.nodes (owner k) (some ⟨k, false⟩)
        stage := Function.update s.stage k .serving }
    else s
  | .serveHostControl k =>
    if (s.nodes (owner k)).any fun node => node.connection = k then
      { s with nodes := Function.update s.nodes (owner k) (some ⟨k, true⟩) }
    else s
  | .dispatch c owned fits => s.dispatch c owned fits
  | .send c taken => s.send c taken
  | .poll c => s.poll c
  | .leave c timedOut => s.leave c timedOut
  | .unregister c => s.unregister c
  | .complete k c reply => s.complete c k reply
  | .cleanup k => s.cleanupConnection owner k

end

def run (owner : Nat → NodeId) (inputs : List (Input R)) : HostCalls R :=
  inputs.foldl (step owner) start

/-- A pending call waits on the connection it was registered on, which is in service, and its
sender is pending. A call that is not pending has an answer or no sender, unless its caller has
left. -/
structure Inv (owner : Nat → NodeId) (s : HostCalls R) : Prop where
  table : ∀ n node, s.nodes n = some node →
    s.stage node.connection = .serving ∧ owner node.connection = n
  pending : ∀ c k, s.pending c = some k → s.stage k = .serving ∧
    ∃ call, s.calls c = some call ∧ call.connection = k ∧ call.channel = .pending
  waits : ∀ c call, s.calls c = some call → call.channel = .pending → call.phase.isDone = false →
    s.pending c = some call.connection
  sent : ∀ c call reply, s.calls c = some call → call.channel = .sent reply →
    (c, call.connection, reply) ∈ s.answers
  answered : ∀ c k reply, (c, k, reply) ∈ s.answers → ∃ call, s.calls c = some call ∧
    call.connection = k ∧ call.channel = .sent reply
  once : (s.answers.map Prod.fst).Nodup
  done : ∀ c call reply, s.calls c = some call → call.phase = .done (.answered reply) →
    call.channel = .sent reply

theorem inv_start (owner : Nat → NodeId) : Inv owner (start : HostCalls R) :=
  ⟨nofun, nofun, nofun, nofun, nofun, nodup_nil, nofun⟩

namespace Inv

variable {owner : Nat → NodeId} {s : HostCalls R} {c k : Nat} (h : Inv owner s)

include h

/-- The table changes, and no connection leaves the service. -/
theorem setTable {nodes : NodeId → Option HostNode} {stage : Nat → Stage}
    (hnodes : ∀ n node, nodes n = some node →
      stage node.connection = .serving ∧ owner node.connection = n)
    (hstage : ∀ k, s.stage k = .serving → stage k = .serving) :
    Inv owner { s with nodes, stage } :=
  { h with
    table := hnodes
    pending := fun c k hc => ⟨hstage k (h.pending c k hc).1, (h.pending c k hc).2⟩ }

theorem onCall {f : Call R → HostCalls R}
    (hf : ∀ call, s.calls c = some call → Inv owner (f call)) :
    Inv owner (s.onCall c f) := by
  unfold HostCalls.onCall
  split
  · exact hf _ ‹_›
  · exact h

theorem setPhase {call : Call R} {phase : CallPhase R} (hc : s.calls c = some call)
    (hph : call.phase.isDone = true → phase.isDone = true)
    (hdone : ∀ reply, phase = .done (.answered reply) → call.channel = .sent reply) :
    Inv owner (s.setPhase c call phase) := by
  unfold HostCalls.setPhase
  refine { h with pending := ?_, waits := ?_, sent := ?_, answered := ?_, done := ?_ }
  · grind [update_apply, h.pending]
  · grind [update_apply, h.waits]
  · grind [update_apply, h.sent]
  · grind [update_apply, h.answered]
  · grind [update_apply, h.done]

theorem dispatch (owned : List NodeId) (fits : Bool) : Inv owner (s.dispatch c owned fits) := by
  unfold HostCalls.dispatch
  split
  next node hfree hserving =>
    -- The node is in the table, so its connection is in service.
    have hnode : node ∈ owned.filterMap (fun n => (s.nodes n).filter HostNode.hostControl) :=
      hserving ▸ mem_singleton_self node
    obtain ⟨n, _, hn⟩ := mem_filterMap.mp hnode
    have hstage := (h.table n node (Option.filter_eq_some_iff.mp hn).1).1
    refine { h with
      pending := fun d k hd => ?_, waits := ?_, sent := ?_, answered := ?_, done := ?_ }
    · by_cases hnew : d = c
      · subst hnew
        obtain rfl : node.connection = k := by simpa using hd
        exact ⟨hstage, _, update_self .., rfl, rfl⟩
      · grind [update_apply, h.pending]
    · grind [update_apply, h.waits]
    · grind [update_apply, h.sent]
    · -- A call with an answer is registered, and this one was not.
      grind [update_apply, h.answered]
    · grind [update_apply, h.done]
  · exact h

/-- A caller that has left waits for nothing. -/
theorem unregister {call : Call R} (hc : s.calls c = some call)
    (hleft : call.phase.isDone = true) :
    Inv owner { s with pending := Function.update s.pending c none } := by
  refine { h with pending := ?_, waits := ?_ }
  · grind [update_apply, h.pending]
  · grind [update_apply, h.waits]

theorem complete (reply : R) : Inv owner (s.complete c k reply) := by
  refine h.onCall fun call hcall => ?_
  split
  next hon =>
    obtain ⟨_, other, hother, rfl, hch⟩ := h.pending c k hon
    obtain rfl : call = other := Option.some.inj (hcall.symm.trans hother)
    split
    next hleft => exact h.unregister hcall hleft
    next hopen =>
      -- The call was pending, so it has no answer yet.
      have hfresh : ∀ answer ∈ s.answers, answer.1 ≠ c := by grind [h.answered]
      refine { h with
        pending := ?_, waits := ?_, sent := ?_, answered := fun d k reply' hd => ?_
        once := nodup_cons.mpr ⟨by grind, h.once⟩, done := ?_ }
      · grind [update_apply, h.pending]
      · grind [update_apply, h.waits]
      · grind [update_apply, h.sent]
      · rcases mem_cons.mp hd with heq | hd
        · cases heq
          exact ⟨_, update_self .., rfl, rfl⟩
        · grind [update_apply, h.answered]
      · grind [update_apply, h.done, CallPhase.isDone]
  · exact h

theorem cleanup : Inv owner (s.cleanupConnection owner k) := by
  unfold cleanupConnection endConnection
  -- What is pending has neither an answer nor lost its sender, so a dropped sender undoes nothing.
  have hpend := h.pending
  have htable := h.table
  refine { h with table := ?_, pending := ?_, waits := ?_, sent := ?_, answered := ?_, done := ?_ }
  · grind [update_apply]
  · grind [update_apply, Option.filter_eq_some_iff]
  · grind [h.waits, Option.filter_eq_some_iff]
  · grind [h.sent]
  · grind [h.answered]
  · grind [h.done]

theorem step (input : Input R) : Inv owner (s.step owner input) := by
  have htable := h.table
  cases input with
  | replace k => exact h.setTable (by grind [update_apply]) fun _ => id
  | insert k =>
    unfold HostCalls.step
    dsimp only
    split
    · exact h.setTable (by grind [update_apply]) (by grind [update_apply])
    · exact h
  | serveHostControl k =>
    unfold HostCalls.step
    dsimp only
    split
    · exact h.setTable (by grind [update_apply, Option.any_eq_true]) fun _ => id
    · exact h
  | dispatch c owned fits => exact h.dispatch owned fits
  | send c taken =>
    refine h.onCall fun call hcall => ?_
    split
    · exact h.setPhase hcall (by simp [*, CallPhase.isDone]) (by grind)
    · exact h
  | poll c =>
    refine h.onCall fun call hcall => ?_
    split
    · exact h.setPhase hcall (fun _ => rfl) (by rintro _ ⟨⟩; assumption)
    · exact h.setPhase hcall (fun _ => rfl) nofun
    · exact h
  | leave c timedOut =>
    refine h.onCall fun call hcall => ?_
    split
    · exact h
    · exact h.setPhase hcall (fun _ => rfl) (by grind)
  | unregister c =>
    refine h.onCall fun call hcall => ?_
    split
    next hleft => exact h.unregister hcall hleft
    · exact h
  | complete k c reply => exact h.complete reply
  | cleanup k => exact h.cleanup

end Inv

theorem inv_run (owner : Nat → NodeId) (inputs : List (Input R)) :
    Inv owner (run owner inputs) := by
  have hfold : ∀ s : HostCalls R, Inv owner s → Inv owner (inputs.foldl (step owner) s) := by
    induction inputs with
    | nil => exact fun _ => id
    | cons input inputs ih => exact fun s h => ih _ (h.step input)
  exact hfold _ (inv_start owner)

/-- **A call is answered once, by its own connection**, over every interleaving. The cleanup of a
connection ends the calls that are pending on it. After it no call is pending on the connection, and
a caller that still waits on it finds an answer or that it is gone. -/
theorem host_calls_answered_once (owner : Nat → NodeId) (inputs : List (Input R)) :
    let s := run owner inputs
    (s.answers.map Prod.fst).Nodup ∧
      (∀ c k reply, (c, k, reply) ∈ s.answers → ∃ call, s.calls c = some call ∧
        call.connection = k) ∧
      (∀ c call reply, s.calls c = some call → call.phase = .done (.answered reply) →
        (c, call.connection, reply) ∈ s.answers) ∧
      (∀ c k, s.pending c = some k → ∃ call, (s.cleanupConnection owner k).calls c = some call ∧
        call.connection = k ∧ call.channel = .closed) ∧
      ∀ k, s.stage k = .ended → (∀ c, s.pending c ≠ some k) ∧
        ∀ c call, s.calls c = some call → call.connection = k → call.phase = .waiting →
          ∃ outcome, ((s.poll c).calls c).map Call.phase = some (.done outcome) ∧
            (outcome = .disconnected ∨
              ∃ reply, outcome = .answered reply ∧ (c, k, reply) ∈ s.answers) := by
  intro s
  have h : Inv owner s := inv_run owner inputs
  refine ⟨h.once, ?_, ?_, ?_, ?_⟩
  · intro c k reply hmem
    obtain ⟨call, hcall, hk, _⟩ := h.answered c k reply hmem
    exact ⟨call, hcall, hk⟩
  · intro c call reply hcall hphase
    exact h.sent c call reply hcall (h.done c call reply hcall hphase)
  · intro c k hpend
    obtain ⟨_, call, hcall, hk, _⟩ := h.pending c k hpend
    refine ⟨{ call with channel := .closed }, ?_, hk, rfl⟩
    simp [cleanupConnection, endConnection, hpend, hcall]
  · intro k hended
    have hidle : ∀ c, s.pending c ≠ some k := by
      intro c hpend
      cases hended.symm.trans (h.pending c k hpend).1
    refine ⟨hidle, ?_⟩
    intro c call hcall hk hphase
    unfold poll onCall
    rw [hcall]
    dsimp only
    rw [hphase]
    cases hchannel : call.channel with
    | pending => exact absurd (h.waits c call hcall hchannel (by rw [hphase]; rfl)) (hk ▸ hidle c)
    | sent reply =>
      have hanswer := h.sent c call reply hcall hchannel
      exact ⟨_, by simp [setPhase], .inr ⟨reply, rfl, hk ▸ hanswer⟩⟩
    | closed => exact ⟨_, by simp [setPhase], .inl rfl⟩

end HostCalls

end Renoa.Control
