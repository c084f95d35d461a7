import Renoa.Loop.Planning

/-!
# The compacting context strategy

The built-in strategy sends the messages behind the active summary, and asks for a compaction when
their estimate reaches a limit or the provider refused them. It accepts a summary that has the
required sections and fits its own budget.
-/

namespace Renoa.Loop

open Foundation List
open Agent

variable {J : Type}

/-! ## Summaries -/

/-- The lines of one section up to the next heading, and whether one of them has content. -/
def readSection : List String → Bool × List String
  | [] => (false, [])
  | line :: rest =>
    if Text.startsWith "## " (Text.trim line) then (false, line :: rest)
    else
      let (hasContent, rest) := readSection rest
      (Text.trim line ≠ "" || hasContent, rest)

/-- Reads the sections of the headings, in order; the result is the lines behind them. -/
def readSections : List String → List String → Except String (List String)
  | [], lines => .ok lines
  | heading :: _, [] => .error ("compaction response is missing '" ++ heading ++ "'")
  | heading :: headings, line :: lines => do
    ensure (Text.trim line = heading)
      ("compaction response expected '" ++ heading ++ "', found '" ++ Text.trim line ++ "'")
    let (hasContent, lines) := readSection lines
    ensure hasContent ("compaction section '" ++ heading ++ "' is empty")
    readSections headings lines

def validateSections (summary : String) : Except String Unit := do
  let summary := Text.trim summary
  ensure (summary ≠ "") "compaction response was empty"
  match ← readSections requiredHeadings (Text.lines summary) with
  | [] => return ()
  | extra :: _ =>
    .error ("compaction response contains an unexpected heading '" ++ Text.trim extra ++ "'")

/-! ### The grammar of a summary -/

/-- The line opens a section. -/
def opensSection (line : String) : Bool := Text.startsWith "## " (Text.trim line)

/-- The lines are one section for each heading and nothing else. A section is its heading and lines
that open no section, one of which is not blank. -/
inductive Sections : List String → List String → Prop where
  | nil : Sections [] []
  | cons {line : String} {body headings rest : List String}
      (hbody : ∀ l ∈ body, opensSection l = false) (hcontent : ∃ l ∈ body, Text.trim l ≠ "")
      (hrest : Sections headings rest) :
      Sections (Text.trim line :: headings) (line :: (body ++ rest))

/-- A section is read up to the next line that opens one. -/
theorem readSection_append {body rest : List String} (hbody : ∀ l ∈ body, opensSection l = false)
    (hrest : ∀ l ∈ rest.head?, opensSection l = true) :
    readSection (body ++ rest) = (body.any fun l => Text.trim l ≠ "", rest) := by
  induction body with
  | nil =>
    cases rest with
    | nil => rfl
    | cons line rest => exact if_pos (hrest line rfl)
  | cons line body ih =>
    have hline : opensSection line = false := hbody line mem_cons_self
    have hread := ih fun l hl => hbody l (mem_cons_of_mem _ hl)
    rw [cons_append, readSection, if_neg (by rw [← opensSection, hline]; decide), hread]
    rfl

theorem exists_readSection (lines : List String) :
    ∃ body rest, lines = body ++ rest ∧ (∀ l ∈ body, opensSection l = false) ∧
      ∀ l ∈ rest.head?, opensSection l = true := by
  refine ⟨lines.takeWhile (!opensSection ·), lines.dropWhile (!opensSection ·),
    takeWhile_append_dropWhile.symm, fun l hl => ?_, fun l hl => ?_⟩
  · simpa using mem_takeWhile_imp hl
  · have hnot := head?_dropWhile_not (!opensSection ·) lines
    rw [Option.mem_def.mp hl] at hnot
    simpa using hnot

/-- The sections after a heading begin with a line that opens one. -/
theorem Sections.head {headings lines : List String} (h : Sections headings lines)
    (hheadings : ∀ heading ∈ headings, Text.startsWith "## " heading = true) :
    ∀ l ∈ lines.head?, opensSection l = true := by
  cases h with
  | nil => exact fun _ hl => nomatch hl
  | cons =>
    rintro _ ⟨⟩
    exact hheadings _ mem_cons_self

theorem readSections_iff {headings : List String}
    (hheadings : ∀ heading ∈ headings, Text.startsWith "## " heading = true)
    (lines : List String) : readSections headings lines = .ok [] ↔ Sections headings lines := by
  induction headings generalizing lines with
  | nil =>
    constructor
    · rintro ⟨⟩
      exact .nil
    · rintro ⟨⟩
      rfl
  | cons heading headings ih =>
    have ih := ih fun heading h => hheadings heading (mem_cons_of_mem _ h)
    constructor
    · intro h
      cases lines with
      | nil => cases h
      | cons line lines =>
        obtain ⟨hheading, h⟩ := ensure_bind_ok h
        obtain ⟨body, rest, rfl, hbody, hrest⟩ := exists_readSection lines
        rw [readSection_append hbody hrest] at h
        obtain ⟨hcontent, h⟩ := ensure_bind_ok h
        rw [← of_decide_eq_true hheading]
        exact .cons hbody (by simpa using hcontent) ((ih rest).mp h)
    · intro h
      cases h with
      | @cons line body _ rest hbody hcontent hrest =>
        have hnext := hrest.head fun heading h => hheadings heading (mem_cons_of_mem _ h)
        rw [readSections, readSection_append hbody hnext]
        simpa [ensure, hcontent] using (ih rest).mpr hrest

/-- **A summary is accepted exactly when it has the required sections**: the lines of the trimmed
text are one section for each heading, in their order, with nothing before, between or behind. -/
theorem validateSections_iff (summary : String) : validateSections summary = .ok () ↔
    Sections requiredHeadings (Text.lines (Text.trim summary)) := by
  rw [← readSections_iff (by decide)]
  constructor
  · intro h
    obtain ⟨_, h⟩ := ensure_bind_ok h
    obtain ⟨rest, hread, h⟩ := bind_ok h
    cases rest with
    | nil => exact hread
    | cons extra rest => cases h
  · intro hread
    have hsome : Text.trim summary ≠ "" := by
      intro hempty
      rw [hempty] at hread
      cases hread
    simp [validateSections, hsome, hread]

/-- The visible text of an assistant response. -/
def textOf (content : List (AssistantContent J)) : String :=
  String.join (content.map fun
    | .text text _ => text
    | _ => "")

/-- The summary of a response, sized as the activated checkpoint alone. -/
def validSummary (estimateInputTokens : ModelRequest J → Nat) (maxSummaryTokens : Nat)
    (response : ModelResponse J) : Except String String := do
  ensure (response.stopReason = .stop) "compaction response did not stop normally"
  ensure (callsOf response.content).isEmpty "compaction response attempted to call a tool"
  let summary := textOf response.content
  validateSections summary
  let estimated := estimateInputTokens
    { systemPrompt := "", messages := [checkpointMessage summary], tools := [] }
  ensure (estimated ≤ maxSummaryTokens)
    ("checkpoint alone requires an estimated " ++ toString estimated ++
      " tokens, above its limit " ++ toString maxSummaryTokens)
  return summary

/-! ## The strategy -/

/-- The built-in strategy: a planner and the attempts one plan gets. -/
structure CompactingContextStrategy (J : Type) extends CompactionPlanner J where
  maxAttempts : NonZeroU32

namespace CompactingContextStrategy

variable (strategy : CompactingContextStrategy J)

section

variable (input : ContextInput J)

/-- The messages of a model request before projection. -/
def projectedMessages : Except String (List (Message J)) :=
  match input.checkpoint with
  | none => .ok input.messages
  | some checkpoint => do
    let anchor ← require "active operation has no durable user message"
      (input.entries.find? fun entry => entry.operationId = input.activeOperationId)
    ensure anchor.message.isUser "active operation does not start with a user message"
    let anchored := if anchor.sequence ≤ checkpoint.coveredThroughSequence then [anchor.message]
      else []
    return checkpointMessage checkpoint.summary :: (anchored ++
      (input.entries.filter fun entry =>
        checkpoint.coveredThroughSequence < entry.sequence).map ContextEntry.message)

/-- The messages behind a boundary, led by its summary. -/
def idleMessages (summary : String) (coveredThroughSequence : Nat) : List (Message J) :=
  checkpointMessage summary :: (input.entries.filter fun entry =>
    coveredThroughSequence < entry.sequence).map ContextEntry.message

/-- The projected messages of a session with no running prompt. -/
def projectedIdleMessages : Except String (List (Message J)) :=
  strategy.projector.project (match input.checkpoint with
    | none => input.messages
    | some checkpoint => idleMessages input checkpoint.summary checkpoint.coveredThroughSequence)

def estimateRequest (messages : List (Message J)) : Nat :=
  strategy.estimateInputTokens
    { systemPrompt := input.systemPrompt, messages, tools := input.tools }

/-- The active summary covers every durable message. -/
def checkpointIsCurrent : Bool :=
  match input.entries.getLast?, input.checkpoint with
  | none, _ => true
  | some _, none => false
  | some latest, some checkpoint => latest.sequence ≤ checkpoint.coveredThroughSequence

def prepare : Except String (ContextPreparation J) := do
  let projected ← projectedMessages input
  let messages ← strategy.projector.project projected
  let estimated := strategy.estimateRequest input messages
  let dispatchLimit := strategy.limits.dispatchLimit
  let automatic := strategy.limits.automaticCompaction
  let belowAutomaticTrigger := estimated < automatic || automatic = dispatchLimit
  if !input.compactionRequired && estimated ≤ dispatchLimit && belowAutomaticTrigger then
    return .model messages
  else
    match ← (strategy.selectPlan input).mapError toString with
    | some plan => return .compact plan strategy.maxAttempts
    | none =>
      if !input.compactionRequired && estimated ≤ dispatchLimit then return .model messages
      else return .capacityExceeded estimated dispatchLimit

def prepareExplicitCompaction : Except String (ExplicitCompactionPreparation J) := do
  let current ← strategy.projectedIdleMessages input
  let estimated := strategy.estimateRequest input current
  if checkpointIsCurrent input then return .upToDate estimated
  else
    match ← (strategy.selectExplicitPlan input).mapError toString with
    | some plan => return .compact plan strategy.maxAttempts
    | none => return .capacityExceeded estimated strategy.limits.dispatchLimit

def estimateAfterExplicitCompaction (plan : CompactionPlan J) (summary : String) :
    Except String Nat := do
  let messages ← strategy.projector.project
    (idleMessages input summary plan.coveredThroughSequence)
  return strategy.estimateRequest input messages

end

/-- The strategy as the loop uses it. -/
def contextStrategy : ContextStrategy J where
  prepare := strategy.prepare
  prepareExplicitCompaction := strategy.prepareExplicitCompaction
  estimateAfterExplicitCompaction := strategy.estimateAfterExplicitCompaction
  validateCompaction := fun _ response =>
    validSummary strategy.estimateInputTokens strategy.limits.maxSummary response
  receipt := strategy.projector.receipt

end CompactingContextStrategy

end Renoa.Loop
