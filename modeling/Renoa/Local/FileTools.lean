import Renoa.Local.AtomicFile
import Renoa.Foundation.Fallible

/-!
# Editing a file

An edit reads the file, puts the new text in the place of the old one and has the result replace
the file, if the file still holds what was read. The old text has to be found once; the search for
a second place starts behind the first, so a place that overlaps it is not seen.
-/

namespace Renoa.Local

open Foundation List

def maxFileWriteBytes : Nat := 1000000

def bytesOf (text : String) : Bytes := text.toByteArray.data.toList

def nonEmpty (name value : String) : Except ToolError Unit :=
  ensure (bytesOf value ≠ []) (.invalidInput (name ++ " must not be empty"))

/-- The first place at which `pattern` starts. -/
def find (text pattern : Bytes) : Option Nat :=
  (List.range (text.length + 1)).find? fun start => pattern.isPrefixOf (text.drop start)

def contains (text pattern : Bytes) : Bool := (find text pattern).isSome

structure EditFileInput where
  path : String
  oldText : String
  newText : String

/-- What an edit meets: the answers to finding the path, reading and locking the file, and those
its replacement meets. -/
structure EditCalls where
  existingFile : Option ToolError
  cancelledInRead : Bool
  read : Option IoError
  acquire : Option ToolError
  replace : Calls

structure ToolOutput where
  content : String
  path : String

/-- `old` replaced at `start`. -/
def splice (content old new : Bytes) (start : Nat) : Bytes :=
  content.take start ++ new ++ content.drop (start + old.length)

def readForEdit (calls : EditCalls) (disk : Disk) : Except ToolError Bytes := do
  ensure (!calls.cancelledInRead) (.cancelled "edit execution was cancelled" false)
  match calls.read, disk.target with
  | some error, _ => throw (ioError "read file" error false)
  | none, none => throw (ioError "read file" ⟨.notFound, "no such file"⟩ false)
  | none, some file => return file.content

/-- The content the file is to have. -/
def edited (input : EditFileInput) (content : Bytes) : Except ToolError Bytes := do
  let old := bytesOf input.oldText
  let new := bytesOf input.newText
  ensure (content.length ≤ maxFileWriteBytes)
    (.outputLimit "file exceeds the 1000000-byte edit limit")
  ensure (ByteArray.mk content.toArray).validateUTF8 (.invalidInput "file is not valid UTF-8 text")
  let start ← require (.notFound "old_text was not found") (find content old)
  ensure (contains (content.drop (start + old.length)) old = false)
    (.conflict "old_text occurs more than once")
  ensure (content.length - old.length + new.length ≤ maxFileWriteBytes)
    (.outputLimit "edited file exceeds the 1000000-byte write limit")
  return splice content old new start

variable {Hash : Type} [DecidableEq Hash] (contentHash : Bytes → Hash) (calls : EditCalls)

/-- Edits one file. What it does before the replacement changes nothing. -/
def editFile (defaultMode : Nat) (hasParent : Bool) (input : EditFileInput) (disk : Disk) :
    Except ToolError ToolOutput × Disk :=
  let prepared : Except ToolError (Bytes × Hash) := do
    nonEmpty "old_text" input.oldText
    calls.existingFile.elim (.ok ()) .error
    let content ← readForEdit calls disk
    let new ← edited input content
    calls.acquire.elim (.ok ()) .error
    return (new, contentHash content)
  match prepared with
  | .error error => (.error error, disk)
  | .ok (new, originalHash) =>
    let replaced := replaceLocked contentHash calls.replace defaultMode hasParent new
      (some originalHash) disk
    (replaced.1.map fun () => ⟨"Edited " ++ input.path, input.path⟩, replaced.2)

/-! ## What an edit can do -/

abbrev OccursAt (old content : Bytes) (start : Nat) : Prop := old <+: content.drop start

variable {content old : Bytes} {start other : Nat}

theorem find_eq_some (h : find content old = some start) :
    OccursAt old content start ∧ ∀ other, OccursAt old content other → start ≤ other := by
  obtain ⟨hfnd, _, hfst⟩ := find?_range_eq_some.mp h
  have hst := isPrefixOf_iff_prefix.mp hfnd
  refine ⟨hst, fun other hoth => ?_⟩
  have hfnd := isPrefixOf_iff_prefix.mpr hoth
  by_contra hlt
  have hnot := hfst other (Nat.lt_of_not_le hlt)
  rw [hfnd] at hnot
  cases hnot

theorem not_occursAt (hold : old ≠ []) (h : contains content old = false) :
    ¬ OccursAt old content start := by
  intro hst
  have hnone : find content old = none := by simpa [contains] using h
  by_cases hlt : start < content.length + 1
  · have hfnd := isPrefixOf_iff_prefix.mpr hst
    have hnot := find?_range_eq_none.mp hnone start hlt
    rw [hfnd] at hnot
    cases hnot
  · -- Behind the end of the text there is nothing to find.
    rw [OccursAt, drop_eq_nil_of_le (by omega)] at hst
    exact hold (prefix_nil.mp hst)

theorem readForEdit_spec {disk : Disk} (h : readForEdit calls disk = .ok content) :
    ∃ file, disk.target = some file ∧ file.content = content ∧
      calls.cancelledInRead = false ∧ calls.read = none := by
  obtain ⟨hcancelled, h⟩ := ensure_bind_ok h
  split at h
  · cases h
  · cases h
  next file hread hfile =>
    cases h
    exact ⟨file, hfile, rfl, by simpa using hcancelled, hread⟩

/-- The old text was replaced at its first place, and every other place overlaps it. -/
theorem edited_spec {input : EditFileInput} {new : Bytes} (hold : bytesOf input.oldText ≠ [])
    (h : edited input content = .ok new) : ∃ start, OccursAt (bytesOf input.oldText) content start ∧
      new = splice content (bytesOf input.oldText) (bytesOf input.newText) start ∧
      ∀ other, OccursAt (bytesOf input.oldText) content other →
        start ≤ other ∧ other < start + (bytesOf input.oldText).length := by
  iterate 2 obtain ⟨_, _, h⟩ := bind_ok h
  obtain ⟨start, hfind, h⟩ := require_bind_ok h
  obtain ⟨hsecond, h⟩ := ensure_bind_ok h
  obtain ⟨_, _, h⟩ := bind_ok h
  cases h
  obtain ⟨hst, hfst⟩ := find_eq_some hfind
  refine ⟨start, hst, rfl, fun other hoth => ⟨hfst other hoth, ?_⟩⟩
  by_contra hge
  obtain ⟨k, rfl⟩ := Nat.exists_eq_add_of_le (Nat.le_of_not_lt hge)
  have hbehind : OccursAt (bytesOf input.oldText)
      (content.drop (start + (bytesOf input.oldText).length)) k := by
    rwa [OccursAt, drop_drop]
  exact not_occursAt hold (by simpa using hsecond) hbehind

/-- The edit gets as far as the rename, with `new` for the file's content. -/
structure EditCalls.ReachesRename (contentHash : Bytes → Hash) (calls : EditCalls)
    (hasParent : Bool) (input : EditFileInput) (file : File) (new : Bytes) : Prop where
  named : bytesOf input.oldText ≠ []
  found : calls.existingFile = none
  read : calls.cancelledInRead = false ∧ calls.read = none
  edited : edited input file.content = .ok new
  locked : calls.acquire = none
  replaced : calls.replace.ReachesRename contentHash hasParent new
    (some (contentHash file.content)) (some file)

/-- The old text is replaced at the one place at which it occurs, or the file is unchanged. -/
structure Unambiguous (input : EditFileInput) (target : Option File)
    (run : Except ToolError ToolOutput × Disk) : Prop where
  edited : ∀ output, run.1 = .ok output → ∃ file start, target = some file ∧
    (∀ other, OccursAt (bytesOf input.oldText) file.content other ↔ other = start) ∧
    run.2.target.map File.content =
      some (splice file.content (bytesOf input.oldText) (bytesOf input.newText) start)
  unchanged : ∀ error, run.1 = .error error →
    run.2.target.map File.content = target.map File.content

/-- An edit that gets as far as the rename is unambiguous in two cases. It is reported as made, the
old text occurs once and the write was whole; or the directory could not be synced, and the file
holds what it held before. -/
def EditCalls.Clear (calls : EditCalls) (input : EditFileInput) (file : File) (new : Bytes) :
    Prop :=
  match syncParent calls.replace with
  | .ok () => (∀ place other, OccursAt (bytesOf input.oldText) file.content place →
      OccursAt (bytesOf input.oldText) file.content other → place = other) ∧
    calls.replace.stored new = new
  | .error _ => calls.replace.stored new = file.content

theorem unambiguous_renamed {input : EditFileInput} {file : File} {new : Bytes} (mode : Nat)
    (output : ToolOutput) (hold : bytesOf input.oldText ≠ [])
    (hedited : edited input file.content = .ok new) :
    Unambiguous input (some file) ((syncParent calls.replace).map fun () => output,
      ⟨some ⟨calls.replace.stored new, mode⟩, none⟩) ↔ calls.Clear input file new := by
  obtain ⟨start, hstart, rfl, -⟩ := edited_spec hold hedited
  rw [EditCalls.Clear]
  cases syncParent calls.replace with
  | ok =>
    refine ⟨fun h => ?_, fun ⟨honly, hstored⟩ => ⟨fun _ _ => ⟨file, start, rfl, fun other => ?_,
      congrArg some hstored⟩, nofun⟩⟩
    · obtain ⟨_, only, hfile, honly, hcontent⟩ := h.edited output rfl
      cases hfile
      obtain rfl := (honly start).mp hstart
      refine ⟨fun place other hplace hother => ?_, Option.some.inj hcontent⟩
      rw [(honly place).mp hplace, (honly other).mp hother]
    · refine ⟨fun hother => honly other start hother hstart, fun heq => ?_⟩
      rwa [heq]
  | error error =>
    exact ⟨fun h => Option.some.inj (h.unchanged error rfl), fun h => ⟨nofun, fun _ _ =>
      congrArg some h⟩⟩

/-- What an edit meets when nothing fails. -/
def EditCalls.quiet : EditCalls where
  existingFile := none
  cancelledInRead := false
  read := none
  acquire := none
  replace := .quiet

end Renoa.Local
