import Renoa.Loop.Model

/-!
# The stored form of commands

A command is stored as a JSON value in one of two shapes that no tag tells apart: a prompt, whose
optional fields select its observation, or a control command. A reader takes the fields of a shape
by name or by place, as the derived readers of the source do, and checks what the constructors of
the nested data check. What is written is read back as it was, and what is read is written in a
form that reads back the same (`command_roundtrip`).
-/

namespace Renoa.Loop

open Agent List

/-! ## Reading values -/

namespace Json

/-- The fields of a shape: an object has them by name, and an array by place, of which only the
places behind the first `required` have a default. A strict shape has no other fields. -/
def fields (strict : Bool) (names : List String) (required : Nat) :
    Json → Option (String → Option Json)
  | .object fields =>
    if strict → fields.map Prod.fst ⊆ names then
      some fun name => (fields.find? (·.1 = name)).map Prod.snd
    else none
  | .array items =>
    if required ≤ items.length ∧ items.length ≤ names.length then
      some fun name => items[names.idxOf name]?
    else none
  | _ => none

def str : Json → Option String
  | .string value => some value
  | _ => none

def i64 : Json → Option Int
  | .int value => if -2 ^ 63 ≤ value ∧ value < 2 ^ 63 then some value else none
  | _ => none

def u64 : Json → Option Nat
  | .int value => if 0 ≤ value ∧ value < 2 ^ 64 then some value.toNat else none
  | _ => none

variable {α : Type} {read : Json → Option α} {write : α → Json}

def items (read : Json → Option α) : Json → Option (List α)
  | .array items => items.mapM read
  | _ => none

/-- A field that may be missing or null. -/
def optional (read : Json → Option α) : Option Json → Option (Option α)
  | none | some .null => some none
  | some value => (read value).map some

/-- A flag that is off by default. -/
def flag : Option Json → Option Bool
  | none => some false
  | some (.bool value) => some value
  | _ => none

/-- The variant of a tagged shape, by name or by index. -/
def isVariant (name : String) (index : Int) : Option Json → Bool
  | some (.string value) => value = name
  | some (.int value) => value = index
  | _ => false

/-- The fields that have a value. -/
def present (l : List (String × Option Json)) : List (String × Json) :=
  l.filterMap fun field => field.2.map (field.1, ·)

def record (l : List (String × Option Json)) : Json := .object (present l)

/-- The value of a field of a record. -/
@[irreducible]
def get (name : String) (l : List (String × Option Json)) : Option Json :=
  ((present l).find? (·.1 = name)).map Prod.snd

theorem name_mem_of_present {field : String × Json} {l : List (String × Option Json)}
    (h : field ∈ present l) : field.1 ∈ l.map Prod.fst := by
  obtain ⟨written, hwritten, hfield⟩ := mem_filterMap.mp h
  obtain ⟨value, _, rfl⟩ := Option.map_eq_some_iff.mp hfield
  exact mem_map_of_mem hwritten

@[simp]
theorem get_self {name : String} {l : List (String × Option Json)} (h : name ∉ l.map Prod.fst)
    (value : Option Json) : get name ((name, value) :: l) = value := by
  rw [get]
  cases value with
  | none =>
    rw [Option.map_eq_none_iff, find?_eq_none]
    intro field hfield heq
    exact h (of_decide_eq_true heq ▸ name_mem_of_present hfield)
  | some value => simp [present]

@[simp]
theorem get_ne {name other : String} (h : other ≠ name) (value : Option Json)
    (l : List (String × Option Json)) : get name ((other, value) :: l) = get name l := by
  rw [get, get]
  cases value with
  | none => rfl
  | some value => simp [present, h]

theorem fields_record {strict : Bool} {names : List String} {required : Nat}
    {l : List (String × Option Json)} (h : strict → l.map Prod.fst ⊆ names) :
    (record l).fields strict names required = some fun name => get name l := by
  have hnames : strict → (present l).map Prod.fst ⊆ names := by
    intro hstrict name hname
    obtain ⟨field, hfield, rfl⟩ := mem_map.mp hname
    exact h hstrict (name_mem_of_present hfield)
  rw [record, fields, if_pos hnames]
  simp only [get]

theorem items_map {l : List α} (h : ∀ a, read (write a) = some a) :
    (Json.array (l.map write)).items read = some l := by
  change (l.map write).mapM read = some l
  induction l with
  | nil => rfl
  | cons a l ih =>
    rw [map_cons, mapM_cons, h, ih]
    rfl

theorem i64_eq_some {value : Json} {n : Int} (h : value.i64 = some n) :
    -2 ^ 63 ≤ n ∧ n < 2 ^ 63 := by
  unfold i64 at h
  split at h
  · split_ifs at h with hrange
    cases h
    exact hrange
  · cases h

theorem i64_int {n : Int} (h : -2 ^ 63 ≤ n ∧ n < 2 ^ 63) : (Json.int n).i64 = some n := if_pos h

theorem u64_eq_some {value : Json} {n : Nat} (h : value.u64 = some n) : n < 2 ^ 64 := by
  unfold u64 at h
  split at h
  · split_ifs at h with hrange
    cases h
    omega
  · cases h

theorem u64_natCast {n : Nat} (h : n < 2 ^ 64) : (Json.int n).u64 = some n := by
  have hrange : (0 : Int) ≤ n ∧ (n : Int) < 2 ^ 64 := by omega
  rw [u64, if_pos hrange, Int.toNat_natCast]

theorem optional_map {o : Option α} (hnull : read .null = none)
    (h : ∀ a ∈ o, read (write a) = some a) : optional read (o.map write) = some o := by
  cases o with
  | none => rfl
  | some a =>
    have ha := h a rfl
    cases hvalue : write a with
    | null => rw [hvalue, hnull] at ha; cases ha
    | _ =>
      rw [hvalue] at ha
      simp [optional, hvalue, ha]

theorem of_optional {field : Option Json} {o : Option α} {p : α → Prop}
    (h : optional read field = some o) (hread : ∀ value a, read value = some a → p a) :
    ∀ a ∈ o, p a := by
  unfold optional at h
  split at h
  · cases h; nofun
  · cases h; nofun
  · obtain ⟨a, ha, rfl⟩ := Option.map_eq_some_iff.mp h
    rintro _ ⟨⟩
    exact hread _ a ha

end Json

/-! ## Nested data -/

open Json

def ContentBlock.encode : ContentBlock → Json
  | .text text => .record [("type", some (.string "text")), ("text", some (.string text))]
  | .image data mimeType => .record [("type", some (.string "image")),
      ("data", some (.string data)), ("mime_type", some (.string mimeType))]

def ContentBlock.decode (value : Json) : Option ContentBlock :=
  (do
    let field ← value.fields false ["type", "text"] 2
    guard (isVariant "text" 0 (field "type"))
    return .text (← (field "text").bind str)) <|>
  do
    let field ← value.fields false ["type", "data", "mime_type"] 3
    guard (isVariant "image" 1 (field "type"))
    return .image (← (field "data").bind str) (← (field "mime_type").bind str)

theorem ContentBlock.decode_encode (block : ContentBlock) :
    ContentBlock.decode (ContentBlock.encode block) = some block := by
  cases block <;> simp [encode, decode, fields_record, isVariant, str]

def TurnTiming.encode (timing : TurnTiming) : Json :=
  .record [("observed_at", some (.string timing.observedAt)),
    ("observed_at_unix_ms", some (.int timing.observedAtUnixMs)),
    ("elapsed_since_previous_user_message_ms",
      timing.elapsedSincePreviousUserMessageMs.map fun n : Nat => .int n)]

def TurnTiming.decode (value : Json) : Option TurnTiming := do
  let field ← value.fields true
    ["observed_at", "observed_at_unix_ms", "elapsed_since_previous_user_message_ms"] 3
  let observedAt ← (field "observed_at").bind str
  let time ← (field "observed_at_unix_ms").bind i64
  let elapsed ← optional u64 (field "elapsed_since_previous_user_message_ms")
  if h : validDisplay observedAt = true ∧ 0 ≤ time then some ⟨observedAt, time, elapsed, h.1, h.2⟩
  else none

/-- The times fit their machine integers. -/
def TurnTiming.InRange (timing : TurnTiming) : Prop :=
  timing.observedAtUnixMs < 2 ^ 63 ∧
    ∀ elapsed ∈ timing.elapsedSincePreviousUserMessageMs, elapsed < 2 ^ 64

theorem TurnTiming.decode_encode {timing : TurnTiming} (h : timing.InRange) :
    TurnTiming.decode timing.encode = some timing := by
  have hpos := timing.time_valid
  have htime := i64_int ⟨by omega, h.1⟩
  have helapsed := optional_map rfl fun n hn => u64_natCast (h.2 n hn)
  simp [encode, decode, fields_record, str, htime, helapsed, timing.display_valid, hpos]

theorem TurnTiming.inRange_decode {value : Json} {timing : TurnTiming}
    (h : TurnTiming.decode value = some timing) : timing.InRange := by
  simp only [decode, Option.bind_eq_bind, Option.bind_eq_some_iff] at h
  obtain ⟨field, _, observedAt, _, time, ⟨_, _, htime⟩, elapsed, helapsed, hnew⟩ := h
  split_ifs at hnew
  cases hnew
  exact ⟨(i64_eq_some htime).2, of_optional helapsed fun _ _ => u64_eq_some⟩

def ContextContribution.encode (entry : ContextContribution) : Json :=
  .record [("source", some (.string entry.source)), ("text", some (.string entry.text))]

def ContextContribution.decode (value : Json) : Option ContextContribution := do
  let field ← value.fields true ["source", "text"] 2
  let source ← (field "source").bind str
  let text ← (field "text").bind str
  if h : validSource source = true ∧ validText text = true then some ⟨source, text, h.1, h.2⟩
  else none

theorem ContextContribution.decode_encode (entry : ContextContribution) :
    ContextContribution.decode entry.encode = some entry := by
  simp [encode, decode, fields_record, str, entry.source_valid, entry.text_valid]

def TurnContext.encode (context : TurnContext) : Json :=
  .array (context.entries.map ContextContribution.encode)

/-- An empty context is stored by omission. -/
def TurnContext.decode (value : Json) : Option TurnContext := do
  let entries ← value.items ContextContribution.decode
  if h : entries ≠ [] ∧ (entries.map ContextContribution.source).Nodup ∧
      (entries.map fun entry => entry.text.utf8ByteSize).sum ≤ 1024 then
    some ⟨entries, h.2.1, h.2.2⟩
  else none

theorem TurnContext.decode_encode {ctx : TurnContext} (h : ctx.entries ≠ []) :
    TurnContext.decode ctx.encode = some ctx := by
  simp [encode, decode, items_map ContextContribution.decode_encode, h, ctx.sources_nodup,
    ctx.size_le]

/-! ## Commands -/

/-- A prompt as it is stored. -/
structure PromptCommand where
  content : List ContentBlock
  turnTiming : Option TurnTiming
  observedAtUnixMs : Option Int
  context : Option TurnContext
  receipted : Bool
  deriving DecidableEq, Repr

/-- A command as it is stored: a prompt, or the control command that asks for a compaction. -/
inductive AgentCommandWire where
  | prompt (command : PromptCommand)
  | control
  deriving DecidableEq, Repr

/-- The context of a prompt without any entry. -/
def TurnContext.empty : TurnContext := ⟨[], List.nodup_nil, by decide⟩

def PromptCommand.observation (command : PromptCommand) : Except String Observation :=
  if command.receipted then
    match command.turnTiming, command.observedAtUnixMs, command.context with
    | none, none, none => .ok .receipted
    | _, _, _ => .error "a receipted prompt carries no time or context"
  else
    match command.turnTiming, command.observedAtUnixMs, command.context with
    | none, none, none => .ok .unobserved
    | some timing, none, none => .ok (.timed timing)
    | none, some observedAt, context =>
      if 0 ≤ observedAt then .ok (.observed observedAt (context.getD .empty))
      else .error "a prompt cannot be observed before the Unix epoch"
    | none, none, some _ => .error "turn context requires observed_at_unix_ms"
    | some _, _, _ => .error "turn_timing cannot be combined with turn context"

def PromptCommand.encode (command : PromptCommand) : Json :=
  .record [("content", some (.array (command.content.map ContentBlock.encode))),
    ("turn_timing", command.turnTiming.map TurnTiming.encode),
    ("observed_at_unix_ms", command.observedAtUnixMs.map int),
    ("context", command.context.map TurnContext.encode),
    ("receipted", if command.receipted then some (.bool true) else none)]

def PromptCommand.decode (value : Json) : Option PromptCommand := do
  let field ← value.fields true
    ["content", "turn_timing", "observed_at_unix_ms", "context", "receipted"] 4
  return ⟨← (field "content").bind (items ContentBlock.decode),
    ← optional TurnTiming.decode (field "turn_timing"),
    ← optional i64 (field "observed_at_unix_ms"),
    ← optional TurnContext.decode (field "context"), ← flag (field "receipted")⟩

/-- What the field readers accept. -/
structure PromptCommand.InRange (command : PromptCommand) : Prop where
  timing : ∀ timing ∈ command.turnTiming, timing.InRange
  time : ∀ time ∈ command.observedAtUnixMs, -2 ^ 63 ≤ time ∧ time < 2 ^ 63

theorem PromptCommand.decode_encode {command : PromptCommand} (h : command.InRange)
    (hcontext : ∀ ctx ∈ command.context, ctx.entries ≠ []) :
    PromptCommand.decode command.encode = some command := by
  have hcontent := fun l => items_map (l := l) ContentBlock.decode_encode
  have htiming := optional_map rfl fun t ht => TurnTiming.decode_encode (h.timing t ht)
  have htime := optional_map rfl fun t ht => i64_int (h.time t ht)
  have hcontext := optional_map rfl fun c hc => TurnContext.decode_encode (hcontext c hc)
  have hflag : flag (if command.receipted then some (.bool true) else none) =
      some command.receipted := by
    cases command.receipted <;> rfl
  simp [encode, decode, fields_record, hcontent, htiming, htime, hcontext, hflag]

theorem PromptCommand.inRange_decode {value : Json} {command : PromptCommand}
    (h : PromptCommand.decode value = some command) : command.InRange := by
  simp only [decode, Option.bind_eq_bind, Option.bind_eq_some_iff] at h
  obtain ⟨field, _, content, _, timing, htiming, time, htime, ctx, _, flag, _, hcommand⟩ := h
  cases hcommand
  exact ⟨of_optional htiming fun _ _ => TurnTiming.inRange_decode,
    of_optional htime fun _ _ => i64_eq_some⟩

/-- `compact`, by itself or as a variant without content. -/
def decodeControl (value : Json) : Option Unit := do
  let field ← value.fields true ["control"] 1
  match ← field "control" with
  | .string "compact" | .object [("compact", .null)] => some ()
  | _ => none

def AgentCommandWire.decode (value : Json) : Except String AgentCommandWire :=
  match PromptCommand.decode value, decodeControl value with
  | some command, _ => .ok (.prompt command)
  | none, some () => .ok .control
  | none, none => .error "data did not match any variant of untagged enum AgentCommandWire"

/-- The prompt that stores a content and its observation. -/
def Observation.stored (content : List ContentBlock) : Observation → PromptCommand
  | .unobserved => ⟨content, none, none, none, false⟩
  | .timed timing => ⟨content, some timing, none, none, false⟩
  | .observed observedAt context =>
    ⟨content, none, some observedAt, if context.entries = [] then none else some context, false⟩
  | .receipted => ⟨content, none, none, none, true⟩

namespace AgentCommandKind

def encode : AgentCommandKind → Json
  | .prompt content observation => (observation.stored content).encode
  | .compact => .record [("control", some (.string "compact"))]

def ofWire : AgentCommandWire → Except String AgentCommandKind
  | .prompt command => do return .prompt command.content (← command.observation)
  | .control => return .compact

def decode (value : Json) : Except String AgentCommandKind :=
  AgentCommandWire.decode value >>= ofWire

/-- The commands that the constructors build and the readers accept. -/
def Valid : AgentCommandKind → Prop
  | .prompt _ (.timed timing) => timing.InRange
  | .prompt _ (.observed observedAt _) => 0 ≤ observedAt ∧ observedAt < 2 ^ 63
  | _ => True

theorem decode_encode {command : AgentCommandKind} (h : command.Valid) :
    decode command.encode = .ok command := by
  cases command with
  | prompt content observation =>
    have hrange : (observation.stored content).InRange := by
      cases observation with
      | timed timing => exact ⟨by rintro _ ⟨⟩; exact h, nofun⟩
      | observed time ctx => exact ⟨nofun, by rintro _ ⟨⟩; exact ⟨by have := h.1; omega, h.2⟩⟩
      | _ => exact ⟨nofun, nofun⟩
    have hcontext : ∀ ctx ∈ (observation.stored content).context, ctx.entries ≠ [] := by
      cases observation with
      | observed time written =>
        intro ctx hc
        simp only [Observation.stored] at hc
        grind
      | _ => nofun
    have hobservation : (observation.stored content).observation = .ok observation := by
      cases observation with
      | observed time ctx =>
        by_cases hemp : ctx.entries = []
        · have hcontext : ctx = .empty := by cases ctx; cases hemp; rfl
          subst hcontext
          exact if_pos h.1
        · simp [Observation.stored, PromptCommand.observation, hemp, h.1]
      | _ => rfl
    simp only [decode, encode, AgentCommandWire.decode, PromptCommand.decode_encode hrange hcontext]
    change ((observation.stored content).observation >>= fun _ => _) = _
    rw [hobservation]
    cases observation <;> rfl
  | compact =>
    rfl

theorem valid_decode {value : Json} {command : AgentCommandKind}
    (h : decode value = .ok command) : command.Valid := by
  unfold decode AgentCommandWire.decode at h
  split at h
  · rename_i prompt hprompt
    have hrange := PromptCommand.inRange_decode hprompt
    change prompt.observation >>= (fun observation => .ok (.prompt prompt.content observation)) =
      .ok command at h
    obtain ⟨observation, hobservation, hcommand⟩ := Foundation.bind_ok h
    cases hcommand
    unfold PromptCommand.observation at hobservation
    split at hobservation
    · split at hobservation <;> cases hobservation
      trivial
    · split at hobservation
      · cases hobservation
        trivial
      · cases hobservation
        exact hrange.timing _ ‹_›
      · split at hobservation <;> cases hobservation
        exact ⟨‹_›, (hrange.time _ ‹_›).2⟩
      · cases hobservation
      · cases hobservation
  · cases h
    trivial
  · cases h

/-- The stored form of a command reads back as it was, and so does the form of a command that was
read. No two commands have one form. -/
theorem command_roundtrip :
    (∀ command : AgentCommandKind, command.Valid → decode command.encode = .ok command) ∧
      (∀ value command, decode value = .ok command →
        command.Valid ∧ decode command.encode = .ok command) ∧
      ∀ a b : AgentCommandKind, a.Valid → b.Valid → a.encode = b.encode → a = b := by
  refine ⟨fun _ => decode_encode, ?_, ?_⟩
  · intro value command h
    exact ⟨valid_decode h, decode_encode (valid_decode h)⟩
  · intro a b ha hb hab
    have hsame : (Except.ok a : Except String AgentCommandKind) = .ok b := by
      rw [← decode_encode ha, hab, decode_encode hb]
    cases hsame
    rfl

end AgentCommandKind

/-- The command stored with an operation. -/
def Serde.decodeCommand {J V : Type} (serde : Serde J V) (content : V) :
    Except String AgentCommandKind :=
  AgentCommandKind.decode (serde.json content)

end Renoa.Loop
