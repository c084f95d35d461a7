import Renoa.Foundation.Fallible

/-!
# Messages, tools and model requests

The provider-neutral values an agent loop exchanges with models and tools. `J` is the type of the
JSON values inside them: the arguments and details of tools and the schemas they advertise.
-/

namespace Renoa.Agent

open Foundation List

/-! ## Content -/

/-- Ordered content of user messages and tool results. -/
inductive ContentBlock where
  | text (text : String)
  | image (data mimeType : String)
  deriving DecidableEq, Repr

/-- Definition of a tool as a model sees it. -/
structure ToolSpec (J : Type) where
  name : String
  description : String
  inputSchema : J
  deriving DecidableEq, Repr

/-- One tool invocation a model asked for. -/
structure ToolCall (J : Type) where
  id : String
  name : String
  arguments : J
  thoughtSignature : Option String
  toolNamespace : Option String
  deriving DecidableEq, Repr

/-- How a tool ends the turn it runs in: the reply, and the result of every later call. -/
structure Closing where
  message : String
  notRun : String
  deriving DecidableEq, Repr

/-- Model-visible outcome of one tool invocation. -/
structure ToolResult (J : Type) where
  callId : String
  name : String
  content : List ContentBlock
  details : Option J
  isError : Bool
  closing : Option Closing
  deriving DecidableEq, Repr

/-- One ordered block of an assistant response. -/
inductive AssistantContent (J : Type) where
  | text (text : String) (signature : Option String)
  | reasoning (text : String) (signature : Option String) (redacted : Bool)
  | toolCall (call : ToolCall J)
  deriving DecidableEq, Repr

/-- Why a provider ended one assistant response. -/
inductive StopReason where
  | stop
  | toolUse
  | length
  deriving DecidableEq, Repr

structure TokenUsage where
  input : Nat
  output : Nat
  cacheRead : Nat
  cacheWrite : Nat
  deriving DecidableEq, Repr

/-- Provider-reported identity and continuation data of one assistant response. -/
structure AssistantMetadata where
  api : Option String
  provider : Option String
  model : Option String
  responseModel : Option String
  responseId : Option String
  rawStopReason : Option String
  deriving DecidableEq, Repr

/-- A provider-neutral conversation message. -/
inductive Message (J : Type) where
  | user (content : List ContentBlock)
  | assistant (content : List (AssistantContent J)) (stopReason : StopReason)
      (usage : Option TokenUsage) (metadata : AssistantMetadata)
  | tool (result : ToolResult J)
  deriving DecidableEq, Repr

/-! ## Requests and responses -/

structure ModelRequest (J : Type) where
  systemPrompt : String
  messages : List (Message J)
  tools : List (ToolSpec J)
  deriving DecidableEq, Repr

structure ModelResponse (J : Type) where
  content : List (AssistantContent J)
  stopReason : StopReason
  usage : Option TokenUsage
  metadata : AssistantMetadata
  deriving DecidableEq, Repr

variable {J : Type}

def Message.userText (text : String) : Message J := .user [.text text]

/-- The message is a user message. -/
def Message.isUser : Message J → Bool
  | .user _ => true
  | _ => false

/-- The tool call a block of an assistant response carries. -/
def AssistantContent.call? : AssistantContent J → Option (ToolCall J)
  | .toolCall call => some call
  | _ => none

/-- The tool calls of an assistant response, in order. -/
def callsOf (content : List (AssistantContent J)) : List (ToolCall J) :=
  content.filterMap AssistantContent.call?

/-! ## Identifiers of one batch of tool calls -/

/-- An invalid set of tool calls of one response. -/
inductive ToolCallBatchError where
  | emptyId
  | duplicateId (id : String)
  deriving DecidableEq, Repr

instance : ToString ToolCallBatchError where
  toString
    | .emptyId => "model returned a tool call with an empty identifier"
    | .duplicateId id => "model returned duplicate tool-call identifier `" ++ id ++ "`"

/-- The identifiers after those already observed are nonempty and new. -/
def validateIdsAfter (observed : List String) : List String → Except ToolCallBatchError Unit
  | [] => .ok ()
  | identifier :: rest => do
    ensure (identifier ≠ "") .emptyId
    ensure (!observed.contains identifier) (.duplicateId identifier)
    validateIdsAfter (identifier :: observed) rest

/-- The identifiers of one batch are nonempty and distinct. -/
def validateToolCallIds (identifiers : List String) : Except ToolCallBatchError Unit :=
  validateIdsAfter [] identifiers

theorem validateIdsAfter_eq_ok {observed identifiers : List String} :
    validateIdsAfter observed identifiers = .ok () ↔
      (∀ id ∈ identifiers, id ≠ "" ∧ id ∉ observed) ∧ identifiers.Nodup := by
  induction identifiers generalizing observed with
  | nil => simp [validateIdsAfter]
  | cons identifier rest ih =>
    simp only [validateIdsAfter, bind_eq_ok, ensure_eq_ok, ih, decide_eq_true_eq,
      Bool.not_eq_true', contains_eq_mem, decide_eq_false_iff_not, mem_cons,
      forall_eq_or_imp, nodup_cons, not_or]
    constructor
    · rintro ⟨_, hne, _, hnew, hrest, hnd⟩
      exact ⟨⟨⟨hne, hnew⟩, fun id hid => ⟨(hrest id hid).1, (hrest id hid).2.2⟩⟩,
        fun hmem => (hrest identifier hmem).2.1 rfl, hnd⟩
    · rintro ⟨⟨⟨hne, hnew⟩, hrest⟩, hself, hnd⟩
      refine ⟨(), hne, (), hnew, fun id hid => ⟨(hrest id hid).1, ?_, (hrest id hid).2⟩, hnd⟩
      intro heq
      exact hself (heq ▸ hid)

/-- **A batch is accepted exactly when its identifiers are nonempty and distinct.** -/
theorem validateToolCallIds_eq_ok {identifiers : List String} :
    validateToolCallIds identifiers = .ok () ↔
      (∀ id ∈ identifiers, id ≠ "") ∧ identifiers.Nodup := by
  simp [validateToolCallIds, validateIdsAfter_eq_ok]

end Renoa.Agent
