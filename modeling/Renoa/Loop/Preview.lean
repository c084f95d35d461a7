import Renoa.Loop.Model
import Mathlib.Data.List.Basic

/-!
# The transcript of a compaction

A compaction request has one line for each message. It shows images by their metadata, and the text
of a tool result as its beginning and its end, with the number of characters left out between them.
The text arrives in pieces: the first characters fill the head, and every later one rolls through
the tail. After any pieces the preview stands where it would after their concatenation
(`pushAll_eq_filled`), so how the text was split does not show (`preview_independent`).
-/

namespace Renoa.Loop

open List Agent

/-- The text a model is shown of a longer one. -/
structure Preview where
  head : List Char
  tail : List Char
  omittedChars : Nat
  deriving DecidableEq

def Preview.value (preview : Preview) : Json :=
  .object [("head", .string (.ofList preview.head)), ("tail", .string (.ofList preview.tail)),
    ("omitted_chars", .int preview.omittedChars)]

structure TextPreview where
  headLimit : Nat
  tailLimit : Nat
  head : List Char
  tail : List Char
  totalChars : Nat

namespace TextPreview

def new (limit : Nat) : TextPreview := ⟨(limit + 1) / 2, limit / 2, [], [], 0⟩

def pushChar (preview : TextPreview) (character : Char) : TextPreview :=
  let totalChars := preview.totalChars + 1
  if totalChars ≤ preview.headLimit then
    { preview with totalChars, head := preview.head ++ [character] }
  else
    let tail := if preview.tail.length = preview.tailLimit then preview.tail.drop 1
      else preview.tail
    { preview with totalChars, tail := if 0 < preview.tailLimit then tail ++ [character] else tail }

def push (preview : TextPreview) (value : List Char) : TextPreview := value.foldl pushChar preview

def finish (preview : TextPreview) : Preview :=
  ⟨preview.head, preview.tail,
    preview.totalChars - (preview.head.length + preview.tail.length)⟩

end TextPreview

/-- The preview of a text that is fed in pieces. -/
def preview (limit : Nat) (pieces : List (List Char)) : Preview :=
  (pieces.foldl TextPreview.push (.new limit)).finish

/-! ## Where the preview stands -/

/-- The last characters of a text. -/
def lastChars (n : Nat) (text : List Char) : List Char := text.drop (text.length - n)

/-- The preview that has taken in a text. -/
def TextPreview.filled (limit : Nat) (text : List Char) : TextPreview where
  headLimit := (limit + 1) / 2
  tailLimit := limit / 2
  head := text.take ((limit + 1) / 2)
  tail := lastChars (limit / 2) (text.drop ((limit + 1) / 2))
  totalChars := text.length

theorem length_lastChars (n : Nat) (text : List Char) :
    (lastChars n text).length = min n text.length := by
  rw [lastChars, length_drop]
  omega

/-- A character rolls through the tail. -/
theorem lastChars_concat (n : Nat) (text : List Char) (c : Char) :
    lastChars n (text ++ [c]) =
      let tail := if (lastChars n text).length = n then (lastChars n text).drop 1
        else lastChars n text
      if 0 < n then tail ++ [c] else tail := by
  rw [length_lastChars]
  dsimp only [lastChars]
  rw [length_append, length_singleton]
  rcases Nat.eq_zero_or_pos n with rfl | hpos
  · simp
  · rw [if_pos hpos]
    by_cases hfull : n ≤ text.length
    · rw [if_pos (Nat.min_eq_left hfull), drop_drop, drop_append_of_le_length (by omega)]
      congr 2
      omega
    · rw [if_neg (by omega), Nat.sub_eq_zero_of_le (by omega), Nat.sub_eq_zero_of_le (by omega)]
      rfl

theorem pushChar_filled (limit : Nat) (text : List Char) (c : Char) :
    (TextPreview.filled limit text).pushChar c = .filled limit (text ++ [c]) := by
  unfold TextPreview.pushChar TextPreview.filled
  dsimp only
  rw [length_append, length_singleton]
  split
  · -- The head has room, and nothing is behind it.
    congr 1
    · rw [take_of_length_le (by omega), take_of_length_le (by simp; omega)]
    · rw [drop_eq_nil_of_le (by omega), drop_eq_nil_of_le (by simp; omega)]
  · congr 1
    · exact (take_append_of_le_length (by omega)).symm
    · rw [drop_append_of_le_length (by omega), lastChars_concat]

/-- Whatever the pieces are, the preview stands where it does after their concatenation. -/
theorem pushAll_eq_filled (limit : Nat) (pieces : List (List Char)) :
    pieces.foldl TextPreview.push (.new limit) = .filled limit pieces.flatten := by
  have hpush : ∀ (value text : List Char),
      (TextPreview.filled limit text).push value = .filled limit (text ++ value) := by
    intro value
    induction value with
    | nil => exact fun text => by rw [append_nil]; rfl
    | cons c value ih =>
      intro text
      rw [TextPreview.push, foldl_cons, pushChar_filled, ← TextPreview.push, ih, append_assoc]
      rfl
  have hall : ∀ text, pieces.foldl TextPreview.push (.filled limit text) =
      .filled limit (text ++ pieces.flatten) := by
    induction pieces with
    | nil => exact fun text => by rw [flatten_nil, append_nil]; rfl
    | cons value pieces ih =>
      intro text
      rw [foldl_cons, hpush, ih, flatten_cons, append_assoc]
  have hnew : TextPreview.new limit = .filled limit [] := by
    simp [TextPreview.new, TextPreview.filled, lastChars]
  rw [hnew, hall, nil_append]

/-- The preview shows a beginning and an end of the text, no more than the limit, with the number
of characters between them, and the whole text if it fits. -/
structure Preview.Of (limit : Nat) (text : List Char) (preview : Preview) : Prop where
  parts : ∃ omitted, text = preview.head ++ omitted ++ preview.tail ∧
    preview.omittedChars = omitted.length
  bounded : preview.head.length + preview.tail.length ≤ limit
  whole : text.length ≤ limit → preview.head ++ preview.tail = text

theorem finish_filled (limit : Nat) (text : List Char) :
    Preview.Of limit text (TextPreview.filled limit text).finish := by
  have hlen : (text.take ((limit + 1) / 2)).length +
      (lastChars (limit / 2) (text.drop ((limit + 1) / 2))).length = min limit text.length := by
    rw [length_take, length_lastChars, length_drop]
    omega
  obtain ⟨omitted, hparts⟩ : ∃ omitted, text.take ((limit + 1) / 2) ++ omitted ++
      lastChars (limit / 2) (text.drop ((limit + 1) / 2)) = text :=
    ⟨_, by rw [append_assoc, lastChars, take_append_drop, take_append_drop]⟩
  have hsum := congrArg List.length hparts
  rw [length_append, length_append] at hsum
  refine ⟨⟨omitted, hparts.symm, ?_⟩, Nat.le_trans (Nat.le_of_eq hlen) (Nat.min_le_left ..), ?_⟩
  · show text.length - ((text.take _).length + (lastChars _ _).length) = _
    omega
  · intro hfits
    rw [eq_nil_of_length_eq_zero (l := omitted) (by omega), append_nil] at hparts
    exact hparts

theorem preview_eq_finish (limit : Nat) (pieces : List (List Char)) :
    preview limit pieces = (TextPreview.filled limit pieces.flatten).finish :=
  congrArg TextPreview.finish (pushAll_eq_filled limit pieces)

/-- **A preview is that of the text, however the text was split**: it keeps a beginning and an end
within the limit and counts what is left out between them. -/
theorem preview_independent (limit : Nat) (pieces : List (List Char)) :
    preview limit pieces = preview limit [pieces.flatten] ∧
      (preview limit pieces).Of limit pieces.flatten := by
  rw [preview_eq_finish, preview_eq_finish, flatten_singleton]
  exact ⟨rfl, finish_filled limit pieces.flatten⟩

example : preview 3 [['a', 'b'], [], ['c', 'd', 'e']] = ⟨['a', 'b'], ['e'], 2⟩ := by decide

/-! ## Lines -/

def toolTextPreviewChars : Nat := 16 * 1024

def toolImageMetadataLimit : Nat := 16

/-- Arguments as JSON, the text of a value, and the hexadecimal SHA-256 of a text and of the text
of a result. -/
structure TranscriptFormat (J : Type) where
  json : J → Json
  text : Json → String
  sha256 : String → String
  sha256Json : ToolResult J → String

namespace TranscriptFormat

variable {J : Type} (format : TranscriptFormat J)

def imageMetadata (index : Nat) (data mimeType : String) : Json :=
  .object [("type", .string "image_metadata"), ("content_index", .int index),
    ("mime_type", .string mimeType), ("encoded_bytes", .int data.utf8ByteSize),
    ("sha256", .string (format.sha256 data))]

def compactText (text : String) : Json := .object [("type", .string "text"), ("text", .string text)]

def compactUserBlock : ContentBlock × Nat → Json
  | (.text text, _) => compactText text
  | (.image data mimeType, index) => format.imageMetadata index data mimeType

def compactAssistantBlock : AssistantContent J → Option Json
  | .text text _ => some (compactText text)
  | .reasoning .. => none
  | .toolCall call => some (.object [("type", .string "tool_call"), ("id", .string call.id),
      ("name", .string call.name), ("arguments", format.json call.arguments),
      ("namespace", call.toolNamespace.elim .null .string)])

/-- The text blocks of a result, each under a heading with its position. -/
def textPieces (content : List ContentBlock) : List (List Char) :=
  content.zipIdx.flatMap fun
    | (.text text, index) => [s!"[text block {index}]\n".toList, text.toList, ['\n']]
    | (.image .., _) => []

/-- The metadata of all images, or of the first and the last ones, and how many are left out. -/
def toolImageMetadata (content : List ContentBlock) : List Json × Nat :=
  let images := content.zipIdx.filterMap fun
    | (.image data mimeType, index) => some (format.imageMetadata index data mimeType)
    | (.text _, _) => none
  let edge := toolImageMetadataLimit / 2
  let kept := images.zipIdx.filter fun (_, ordinal) => images.length ≤ toolImageMetadataLimit ||
    ordinal < edge || images.length - edge ≤ ordinal
  (kept.map Prod.fst, images.length - toolImageMetadataLimit)

def compactToolResult (result : ToolResult J) : Json :=
  let (images, omittedImages) := format.toolImageMetadata result.content
  .object [("role", .string "tool"), ("call_id", .string result.callId),
    ("name", .string result.name), ("is_error", .bool result.isError),
    ("text", (preview toolTextPreviewChars (textPieces result.content)).value),
    ("images", .array images), ("omitted_images", .int omittedImages),
    ("tool_result_sha256", .string (format.sha256Json result))]

def stopReasonName : StopReason → String
  | .stop => "stop"
  | .toolUse => "tool_use"
  | .length => "length"

def compactMessage : Message J → Json
  | .user content => .object [("role", .string "user"),
      ("content", .array (content.zipIdx.map format.compactUserBlock))]
  | .assistant content stopReason _ _ => .object [("role", .string "assistant"),
      ("content", .array (content.filterMap format.compactAssistantBlock)),
      ("stop_reason", .string (stopReasonName stopReason))]
  | .tool result => format.compactToolResult result

/-- The line of a message. -/
def line (message : Message J) : String := format.text (format.compactMessage message)

end TranscriptFormat

end Renoa.Loop
