import Mathlib.Data.List.Basic

/-!
# Atomic replacement of a file

The new content goes to a temporary file beside the target, and one rename puts it in the target's
place. Any call to the file system may fail, and cancellation may be seen at any check for it:
`Calls` holds what one replacement meets. A rename happens as a whole or not at all, and the random
name of the temporary file is not taken.

The content is written in the background, a part of at most two MiB at a time. A part that fails
is reported when the next one is handed over. Behind the last one comes only the sync, which waits
for the part and drops its error, so that a file with a part missing takes the target's place.

`replaced_replaceLocked` says once what a replacement can do.
-/

namespace Renoa.Local

open List

/-! ## Errors -/

inductive ErrorKind where
  | notFound | permissionDenied | alreadyExists | invalidInput | invalidData | timedOut | other
  deriving DecidableEq

/-- An error of the file system, as it prints. -/
structure IoError where
  kind : ErrorKind
  text : String

inductive ToolErrorCode where
  | invalidInput | notFound | permissionDenied | conflict | timeout | cancelled | outputLimit
  | unavailable | io
  deriving DecidableEq

structure ToolError where
  code : ToolErrorCode
  message : String
  outcomeIsUnknown : Bool
  partialChangesPossible : Bool

namespace ToolError

def definite (code : ToolErrorCode) (message : String) (partialChangesPossible : Bool) :
    ToolError := ⟨code, message, false, partialChangesPossible⟩

def invalidInput (message : String) : ToolError := definite .invalidInput message false

def notFound (message : String) : ToolError := definite .notFound message false

def permissionDenied (message : String) : ToolError := definite .permissionDenied message false

def conflict (message : String) : ToolError := definite .conflict message false

def outputLimit (message : String) : ToolError := definite .outputLimit message false

def timeout (message : String) : Bool → ToolError := definite .timeout message

def cancelled (message : String) : Bool → ToolError := definite .cancelled message

def io (message : String) : Bool → ToolError := definite .io message

def outcomeUnknown (message : String) : ToolError := ⟨.unavailable, message, true, true⟩

end ToolError

def ioError (action : String) (error : IoError) (partialChangesPossible : Bool) : ToolError :=
  let message := "cannot " ++ action ++ ": " ++ error.text
  match error.kind with
  | .notFound => .notFound message
  | .permissionDenied => .permissionDenied message
  | .alreadyExists => .conflict message
  | .invalidInput | .invalidData => .invalidInput message
  | .timedOut => .timeout message partialChangesPossible
  | .other => .io message partialChangesPossible

theorem ioError_definite (action : String) (error : IoError) (possible : Bool) :
    (ioError action error possible).outcomeIsUnknown = false := by
  obtain ⟨kind, text⟩ := error
  cases kind <;> rfl

/-! ## The file system -/

abbrev Bytes := List UInt8

structure File where
  content : Bytes
  permissions : Nat

/-- The target and the temporary file beside it. -/
structure Disk where
  target : Option File
  temporary : Option File

/-- What one replacement meets: the error of each call that fails, the bytes in the file when the
write fails or is cancelled, and whether cancellation is seen at each check. -/
structure Calls where
  metadata : Option IoError
  create : Option IoError
  setPermissions : Option IoError
  write : Option IoError
  written : Nat
  syncAll : Option IoError
  read : Option IoError
  rename : Option IoError
  remove : Option IoError
  openParent : Option IoError
  joinParent : Option String
  cancelledAtStart : Bool
  cancelledInWrite : Bool
  cancelledAfterWrite : Bool
  cancelledAfterCheck : Bool

/-- The bytes of one part of a write. -/
def maxBufSize : Nat := 2 * 1024 * 1024

/-- A write that failed was not in the last part of the content. -/
def Calls.reported (calls : Calls) (content : Bytes) : Bool :=
  (calls.written / maxBufSize + 1) * maxBufSize < content.length

/-- What the file holds when the write is over. -/
def Calls.stored (calls : Calls) (content : Bytes) : Bytes :=
  if calls.write.isSome then content.take calls.written else content

/-- The removal of the temporary file failed, and not because there is none. -/
def Calls.RemovalFailed (calls : Calls) : Prop :=
  ∃ error, calls.remove = some error ∧ error.kind ≠ .notFound

variable {Hash : Type} [DecidableEq Hash] (contentHash : Bytes → Hash) (calls : Calls)

def cleanupError (disk : Disk) (original : ToolError) : ToolError × Disk :=
  match calls.remove with
  | none => (original, { disk with temporary := none })
  | some error =>
    if error.kind = .notFound then (original, { disk with temporary := none })
    else
      (.io (original.message ++ "; temporary file cleanup also failed: " ++ error.text) false, disk)

def targetPermissions (disk : Disk) : Except ToolError (Option Nat) :=
  match calls.metadata with
  | some error =>
    if error.kind = .notFound then .ok none else .error (ioError "inspect target file" error false)
  | none => .ok (disk.target.map File.permissions)

/-- `defaultMode` is what the system gives a new file. -/
def createTemporary (defaultMode : Nat) (permissions : Option Nat) (disk : Disk) :
    Except ToolError Unit × Disk :=
  match calls.create with
  | some error => (.error (ioError "create temporary file" error false), disk)
  | none =>
    let created (mode : Nat) : Disk := { disk with temporary := some ⟨[], mode⟩ }
    match permissions with
    | none => (.ok (), created defaultMode)
    | some mode =>
      match calls.setPermissions with
      | none => (.ok (), created mode)
      | some error =>
        let failed := cleanupError calls (created defaultMode)
          (ioError "preserve file permissions" error false)
        (.error failed.1, failed.2)

/-- Cancellation wins over a write that is done at the same time. -/
def writeAndSync (content : Bytes) (disk : Disk) : Except ToolError Unit × Disk :=
  let holding (bytes : Bytes) : Disk :=
    { disk with temporary := disk.temporary.map fun file => { file with content := bytes } }
  if calls.cancelledInWrite then
    (.error (.cancelled "file update was cancelled" false), holding (content.take calls.written))
  else
    match calls.write.filter fun _ => calls.reported content with
    | some error =>
      (.error (ioError "write temporary file" error false), holding (calls.stored content))
    | none =>
      match calls.syncAll with
      | some error =>
        (.error (ioError "sync temporary file" error false), holding (calls.stored content))
      | none => (.ok (), holding (calls.stored content))

def verifyExpectedContent (expected : Hash) (disk : Disk) : Except ToolError Unit :=
  match calls.read, disk.target with
  | some error, _ => .error (ioError "recheck edited file" error false)
  | none, none => .error (ioError "recheck edited file" ⟨.notFound, "no such file"⟩ false)
  | none, some file =>
    if contentHash file.content = expected then .ok ()
    else .error (.conflict "file changed after it was read; edit was not applied")

def syncParent : Except ToolError Unit :=
  match calls.joinParent, calls.openParent with
  | some error, _ => .error (.outcomeUnknown
      ("file was replaced, but its durability check did not complete: " ++ error))
  | none, some error => .error (.outcomeUnknown
      ("file was replaced, but parent directory durability could not be confirmed: " ++ error.text))
  | none, none => .ok ()

/-- Replaces the target's content; `hasParent` is whether its path has a parent directory. -/
def replaceLocked (defaultMode : Nat) (hasParent : Bool) (content : Bytes) (expected : Option Hash)
    (disk : Disk) : Except ToolError Unit × Disk :=
  let cancelled := ToolError.cancelled "file update was cancelled" false
  let giveUp (disk : Disk) (error : ToolError) : Except ToolError Unit × Disk :=
    let failed := cleanupError calls disk error
    (.error failed.1, failed.2)
  if calls.cancelledAtStart then (.error cancelled, disk)
  else if !hasParent then (.error (.invalidInput "file path has no parent directory"), disk)
  else
    match targetPermissions calls disk with
    | .error error => (.error error, disk)
    | .ok permissions =>
      match createTemporary calls defaultMode permissions disk with
      | (.error error, disk) => (.error error, disk)
      | (.ok (), disk) =>
        match writeAndSync calls content disk with
        | (.error error, disk) => giveUp disk error
        | (.ok (), disk) =>
          if calls.cancelledAfterWrite then giveUp disk cancelled
          else
            match expected.elim (.ok ()) fun hash =>
              verifyExpectedContent contentHash calls hash disk with
            | .error error => giveUp disk error
            | .ok () =>
              if calls.cancelledAfterCheck then giveUp disk cancelled
              else
                match calls.rename with
                | some error => giveUp disk (ioError "commit file update" error false)
                | none => (syncParent calls, ⟨disk.temporary, none⟩)

/-! ## What a replacement can do -/

/-- No call in front of the rename is cancelled or reports an error, the content expected is found,
and the rename is made. -/
structure Calls.ReachesRename (hasParent : Bool) (content : Bytes) (expected : Option Hash)
    (target : Option File) : Prop where
  uncancelled : calls.cancelledAtStart = false ∧ calls.cancelledInWrite = false ∧
    calls.cancelledAfterWrite = false ∧ calls.cancelledAfterCheck = false
  parent : hasParent = true
  inspected : ∀ error, calls.metadata = some error → error.kind = .notFound
  created : calls.create = none
  permitted : calls.metadata = none → target.isSome → calls.setPermissions = none
  unreported : calls.write.filter (fun _ => calls.reported content) = none
  synced : calls.syncAll = none
  verified : ∀ hash, expected = some hash → calls.read = none ∧
    ∃ file, target = some file ∧ contentHash file.content = hash
  renamed : calls.rename = none

/-- It fails with a definite error and the target untouched, or the rename was made. -/
inductive Replaced (hasParent : Bool) (content : Bytes) (expected : Option Hash)
    (target : Option File) : Except ToolError Unit × Disk → Prop
  | failed {error : ToolError} {after : Disk} (htarget : after.target = target)
      (hdefinite : error.outcomeIsUnknown = false)
      (hcleaned : after.temporary = none ∨ calls.RemovalFailed) :
      Replaced hasParent content expected target (.error error, after)
  | renamed (mode : Nat)
      (hreaches : calls.ReachesRename contentHash hasParent content expected target) :
      Replaced hasParent content expected target
        (syncParent calls, ⟨some ⟨calls.stored content, mode⟩, none⟩)

variable {contentHash calls} {hasParent : Bool} {content : Bytes} {expected : Option Hash}
  {disk : Disk} {target : Option File}

omit [DecidableEq Hash] in
theorem replaced_cleanupError {original : ToolError} (htgt : disk.target = target)
    (hdef : original.outcomeIsUnknown = false) :
    Replaced contentHash calls hasParent content expected target
      (.error (cleanupError calls disk original).1, (cleanupError calls disk original).2) := by
  unfold cleanupError
  cases hremove : calls.remove with
  | none => exact .failed htgt hdef (.inl rfl)
  | some error =>
    by_cases hkind : error.kind = .notFound
    · simp only [hkind]
      exact .failed htgt hdef (.inl rfl)
    · simp only [hkind]
      exact .failed htgt rfl (.inr ⟨error, hremove, hkind⟩)

omit [DecidableEq Hash] in
theorem createTemporary_spec (mode : Nat) (permissions : Option Nat) :
    (calls.create = none ∧ (permissions.isSome → calls.setPermissions = none) ∧
      ∃ mode', createTemporary calls mode permissions ⟨target, none⟩ =
        (.ok (), ⟨target, some ⟨[], mode'⟩⟩)) ∨
    ∃ error after, createTemporary calls mode permissions ⟨target, none⟩ = (.error error, after) ∧
      Replaced contentHash calls hasParent content expected target (.error error, after) := by
  unfold createTemporary
  cases calls.create with
  | some error => exact .inr ⟨_, _, rfl, .failed rfl (ioError_definite _ _ _) (.inl rfl)⟩
  | none =>
    cases permissions with
    | none => exact .inl ⟨rfl, nofun, mode, rfl⟩
    | some given =>
      cases calls.setPermissions with
      | none => exact .inl ⟨rfl, fun _ => rfl, given, rfl⟩
      | some error => exact .inr ⟨_, _, rfl, replaced_cleanupError rfl (ioError_definite _ _ _)⟩

theorem writeAndSync_spec (mode : Nat) :
    (calls.cancelledInWrite = false ∧
      calls.write.filter (fun _ => calls.reported content) = none ∧ calls.syncAll = none ∧
      writeAndSync calls content ⟨target, some ⟨[], mode⟩⟩ =
        (.ok (), ⟨target, some ⟨calls.stored content, mode⟩⟩)) ∨
    ∃ error after, writeAndSync calls content ⟨target, some ⟨[], mode⟩⟩ = (.error error, after) ∧
      error.outcomeIsUnknown = false ∧ after.target = target := by
  unfold writeAndSync
  cases calls.cancelledInWrite with
  | true => exact .inr ⟨_, _, rfl, rfl, rfl⟩
  | false =>
    cases calls.write.filter fun _ => calls.reported content with
    | some error => exact .inr ⟨_, _, rfl, ioError_definite _ _ _, rfl⟩
    | none =>
      cases calls.syncAll with
      | some error => exact .inr ⟨_, _, rfl, ioError_definite _ _ _, rfl⟩
      | none => exact .inl ⟨rfl, rfl, rfl, rfl⟩

theorem verifyExpectedContent_spec {hash : Hash} {checked : Except ToolError Unit}
    (h : verifyExpectedContent contentHash calls hash disk = checked) :
    match checked with
    | .ok () => calls.read = none ∧
      ∃ file, disk.target = some file ∧ contentHash file.content = hash
    | .error error => error.outcomeIsUnknown = false := by
  unfold verifyExpectedContent at h
  split at h
  · subst h
    exact ioError_definite _ _ _
  · subst h
    exact ioError_definite _ _ _
  next file hread hfile =>
    split at h
    next hhash =>
      subst h
      exact ⟨hread, file, hfile, hhash⟩
    · subst h
      rfl

theorem targetPermissions_spec {inspected : Except ToolError (Option Nat)}
    (h : targetPermissions calls disk = inspected) :
    match inspected with
    | .ok permissions => (∀ error, calls.metadata = some error → error.kind = .notFound) ∧
      (calls.metadata = none → permissions = disk.target.map File.permissions)
    | .error error => error.outcomeIsUnknown = false := by
  unfold targetPermissions at h
  split at h
  next error herror =>
    split at h
    next hkind =>
      subst h
      refine ⟨fun other hother => ?_, fun hnone => ?_⟩
      · rwa [← Option.some.inj (herror.symm.trans hother)]
      · cases herror.symm.trans hnone
    · subst h
      exact ioError_definite _ _ _
  next hnone =>
    subst h
    refine ⟨fun other hother => ?_, fun _ => rfl⟩
    cases hnone.symm.trans hother

theorem syncParent_unknown {error : ToolError} (h : syncParent calls = .error error) :
    error.outcomeIsUnknown = true := by
  unfold syncParent at h
  split at h <;> cases h <;> rfl

/-- **What a replacement can do**, whatever fails and whenever it is cancelled. -/
theorem replaced_replaceLocked (mode : Nat) (hasParent : Bool) (content : Bytes)
    (expected : Option Hash) (target : Option File) :
    Replaced contentHash calls hasParent content expected target
      (replaceLocked contentHash calls mode hasParent content expected ⟨target, none⟩) := by
  unfold replaceLocked
  cases hstart : calls.cancelledAtStart with
  | true => exact .failed rfl rfl (.inl rfl)
  | false =>
  cases hasParent with
  | false => exact .failed rfl rfl (.inl rfl)
  | true =>
  simp only [Bool.not_true, Bool.false_eq_true, if_false]
  split
  next error herror => exact .failed rfl (targetPermissions_spec herror) (.inl rfl)
  next permissions hpermissions =>
    obtain ⟨hinspected, hgiven⟩ := targetPermissions_spec hpermissions
    have hcreate : _ ∨ ∃ error after, _ ∧
        Replaced contentHash calls true content expected target (.error error, after) :=
      createTemporary_spec mode permissions
    rcases hcreate with ⟨hcreate, hpermitted, mode', hcreated⟩ | ⟨error, after, hfailed, hrepl⟩
    · rw [hcreated]
      dsimp only
      rcases writeAndSync_spec mode' with ⟨hwrite, hunreported, hsynced, hwritten⟩ |
        ⟨error, after, hfailed, hdef, haft⟩
      · rw [hwritten]
        dsimp only
        split
        · exact replaced_cleanupError rfl rfl
        next hafter =>
          split
          next error hchecked =>
            cases expected with
            | none => cases hchecked
            | some hash => exact replaced_cleanupError rfl (verifyExpectedContent_spec hchecked)
          next hchecked =>
            split
            · exact replaced_cleanupError rfl rfl
            next hcheck =>
              split
              · exact replaced_cleanupError rfl (ioError_definite _ _ _)
              next hrename =>
                refine .renamed mode' ⟨⟨hstart, hwrite, by simpa using hafter,
                  by simpa using hcheck⟩, rfl, hinspected, hcreate,
                  fun hnone hsome => hpermitted ?_, hunreported, hsynced, fun hash hexp => ?_,
                  hrename⟩
                · rwa [hgiven hnone, Option.isSome_map]
                · -- the expected content, when there is one, was read and found
                  subst hexp
                  exact verifyExpectedContent_spec hchecked
      · rw [hfailed]
        exact replaced_cleanupError haft hdef
    · rw [hfailed]
      exact hrepl

/-- A replacement that gets to the rename leaves what the write stored. -/
theorem replaceLocked_of_reachesRename (mode : Nat)
    (h : calls.ReachesRename contentHash hasParent content expected target) :
    ∃ mode', replaceLocked contentHash calls mode hasParent content expected ⟨target, none⟩ =
      (syncParent calls, ⟨some ⟨calls.stored content, mode'⟩, none⟩) := by
  obtain ⟨⟨hstart, hwrite, hafter, hcheck⟩, hparent, hinspected, hcreate, hpermitted, hunreported,
    hsynced, hverified, hrename⟩ := h
  have hverify (file : File) : (expected.elim (.ok ()) fun hash =>
      verifyExpectedContent contentHash calls hash ⟨target, some file⟩) = .ok () := by
    cases expected with
    | none => rfl
    | some hash =>
      obtain ⟨hread, found, rfl, hhash⟩ := hverified hash rfl
      simp [verifyExpectedContent, hread, hhash]
  have hcreated : ∃ permissions mode', targetPermissions calls ⟨target, none⟩ = .ok permissions ∧
      createTemporary calls mode permissions ⟨target, none⟩ =
        (.ok (), ⟨target, some ⟨[], mode'⟩⟩) := by
    simp only [targetPermissions, createTemporary, hcreate]
    cases hmetadata : calls.metadata with
    | some error => exact ⟨none, mode, if_pos (hinspected error hmetadata), rfl⟩
    | none =>
      cases target with
      | none => exact ⟨none, mode, rfl, rfl⟩
      | some file =>
        rw [hpermitted hmetadata rfl]
        exact ⟨_, file.permissions, rfl, rfl⟩
  obtain ⟨permissions, mode', hpermissions, hcreated⟩ := hcreated
  exact ⟨mode', by simp [replaceLocked, writeAndSync, *]⟩

/-- What a replacement guarantees of its result and the disk afterwards. -/
structure AllOrNothing (contentHash : Bytes → Hash) (calls : Calls) (content : Bytes)
    (expected : Option Hash) (target : Option File) (run : Except ToolError Unit × Disk) :
    Prop where
  /-- The target holds its old or exactly the new content. -/
  whole : run.2.target.map File.content = target.map File.content ∨
    run.2.target.map File.content = some content
  /-- Every error whose outcome is known leaves the old content. -/
  kept : ∀ error, run.1 = .error error → error.outcomeIsUnknown = false → run.2.target = target
  /-- The temporary file is gone, unless its own removal failed. -/
  cleaned : run.2.temporary = none ∨ calls.RemovalFailed
  /-- A file whose content has another hash than the expected one is not overwritten. -/
  guarded : ∀ hash, expected = some hash → (∀ file, target = some file →
    contentHash file.content ≠ hash) → run.2.target = target

/-- **A replacement is all or nothing exactly if no error of its write is lost**, where one that is
lost does no harm to a file that held the bytes written before. -/
theorem replaceLocked_all_or_nothing_iff (contentHash : Bytes → Hash) (calls : Calls) (mode : Nat)
    (hasParent : Bool) (content : Bytes) (expected : Option Hash) (target : Option File) :
    AllOrNothing contentHash calls content expected target
        (replaceLocked contentHash calls mode hasParent content expected ⟨target, none⟩) ↔
      (calls.ReachesRename contentHash hasParent content expected target → calls.write.isSome →
        calls.written < content.length →
        target.map File.content = some (content.take calls.written)) := by
  have hstored (hwrite : calls.write.isSome) :
      calls.stored content = content.take calls.written := if_pos hwrite
  constructor
  · intro h hreaches hwrite hlt
    obtain ⟨mode', hrun⟩ := replaceLocked_of_reachesRename mode hreaches
    rw [hrun] at h
    rcases h.whole with hold | hnew
    · rw [← hold, Option.map_some, hstored hwrite]
    · have hlength := congrArg length (Option.some.inj hnew)
      rw [hstored hwrite, length_take] at hlength
      omega
  · intro h
    have hreplaced : Replaced contentHash calls hasParent content expected target _ :=
      replaced_replaceLocked mode hasParent content expected target
    revert hreplaced
    generalize replaceLocked contentHash calls mode hasParent content expected ⟨target, none⟩ = run
    intro hreplaced
    cases hreplaced with
    | failed htarget hdefinite hcleaned =>
      exact ⟨.inl (congrArg _ htarget), fun _ _ _ => htarget, hcleaned, fun _ _ _ => htarget⟩
    | renamed mode' hreaches =>
      refine ⟨?_, fun error herror hdefinite => ?_, .inl rfl, fun hash hhash hother => ?_⟩
      · by_cases hwrite : calls.write.isSome
        · by_cases hlt : calls.written < content.length
          · left
            rw [h hreaches hwrite hlt, Option.map_some, hstored hwrite]
          · right
            rw [Option.map_some, hstored hwrite, take_of_length_le (Nat.le_of_not_lt hlt)]
        · right
          rw [Option.map_some, Calls.stored, if_neg hwrite]
      · rw [syncParent_unknown herror] at hdefinite
        cases hdefinite
      · obtain ⟨-, file, hfile, hsame⟩ := hreaches.verified hash hhash
        exact absurd hsame (hother file hfile)

/-- What a replacement meets when nothing fails. -/
def Calls.quiet : Calls :=
  ⟨none, none, none, none, 0, none, none, none, none, none, none, false, false, false, false⟩

/-- The disk is full after 512 bytes. -/
def Calls.full : Calls :=
  { Calls.quiet with write := some ⟨.other, "No space left on device"⟩, written := 512 }

def kibibyte : Bytes := replicate 1024 97

/-- A KiB of which half is written takes the place of the target, and the replacement succeeds. -/
theorem replaceLocked_truncated :
    let run := replaceLocked id Calls.full 420 true kibibyte none ⟨some ⟨[], 420⟩, none⟩
    run = (.ok (), ⟨some ⟨kibibyte.take 512, 420⟩, none⟩) ∧
      ¬ AllOrNothing id Calls.full kibibyte none (some ⟨[], 420⟩) run := by
  have hlength : kibibyte.length = 1024 := length_replicate
  have hrun : replaceLocked id Calls.full 420 true kibibyte none ⟨some ⟨[], 420⟩, none⟩ =
      (.ok (), ⟨some ⟨kibibyte.take 512, 420⟩, none⟩) := by
    simp [replaceLocked, targetPermissions, createTemporary, writeAndSync, syncParent, Calls.full,
      Calls.quiet, Calls.stored, Calls.reported, maxBufSize, hlength]
  refine ⟨hrun, fun h => ?_⟩
  rw [hrun] at h
  -- neither the empty content of before nor the whole of the new one has 512 bytes
  rcases h.whole with hold | hnew
  · simpa [hlength] using congrArg (Option.map length) hold
  · simpa [hlength] using congrArg (Option.map length) hnew

end Renoa.Local
