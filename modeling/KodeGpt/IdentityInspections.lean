import KodeGpt.GitCheckpoints

/-!
The identities of the paths of a checkpoint, taken while the worktree changes. A path is
inspected twice, for its size and for its hash, and each inspection makes several system
calls: what they answer is what the worktree is at that moment.
-/

namespace KodeGpt.IdentityInspections

open GitStatus GitCheckpoints
open JsonText (Bytes)

abbrev Errno := Nat

inductive OpenatBoundaryError where
  | invalidRelativePath
  | boundaryUnavailable
  | boundaryViolation
  | notFound
  | os (error : Errno)
  deriving DecidableEq, Repr

inductive PathIdentityError where
  | invalidPath
  | boundaryUnavailable
  | boundaryViolation
  | changedDuringInspection
  | io (error : Errno)
  deriving DecidableEq, Repr

def mapBoundaryError : OpenatBoundaryError → PathIdentityError
  | .invalidRelativePath => .invalidPath
  | .boundaryUnavailable => .boundaryUnavailable
  | .boundaryViolation => .boundaryViolation
  | .notFound => .changedDuringInspection
  | .os error => .io error

structure Stat where
  kind : PathIdentityKind
  size : Int
  deriving DecidableEq, Repr

/-- What the system calls of one inspection answer, in their order: the path is opened for
its status, then a file is opened and read, or the parent of a link is opened and the link
is read. -/
structure Answers where
  opened : Except OpenatBoundaryError (Except Errno Stat)
  reopened : Except OpenatBoundaryError (Except Errno Stat)
  reads : List (Except Errno Bytes)
  parent : Except OpenatBoundaryError Unit
  target : Except Errno Bytes

/-- The result of an inspection, and the bytes that have been hashed for it. -/
structure Inspection where
  outcome : Except PathIdentityError PathIdentityResult
  hashed : Bytes

def maxU64 : Nat := 2 ^ 64 - 1

def saturatingAdd (a b : Nat) : Nat := min (a + b) maxU64

section Inspecting

variable (sha256Hex : Bytes → Bytes)

def hashReads (hasher : Bytes) (total : Nat) : List (Except Errno Bytes) → Inspection
  | [] | .ok [] :: _ => ⟨.ok ⟨true, some .file, some total, some (sha256Hex hasher), false⟩, hasher⟩
  | .error error :: _ => ⟨.error (.io error), hasher⟩
  | .ok chunk :: rest =>
    if pathIdentityMaxHashBytes < saturatingAdd total chunk.length then
      ⟨.ok ⟨true, some .file, some (saturatingAdd total chunk.length), none, true⟩, hasher⟩
    else hashReads (hasher ++ chunk) (saturatingAdd total chunk.length) rest

def hashRegularFile (answers : Answers) : Inspection :=
  match answers.reopened with
  | .error error => ⟨.error (mapBoundaryError error), []⟩
  | .ok (.error error) => ⟨.error (.io error), []⟩
  | .ok (.ok stat) =>
    if stat.kind ≠ .file then ⟨.error .changedDuringInspection, []⟩
    else if stat.size < 0 then ⟨.error .changedDuringInspection, []⟩
    else if pathIdentityMaxHashBytes < stat.size.toNat then
      ⟨.ok ⟨true, some .file, some stat.size.toNat, none, true⟩, []⟩
    else hashReads sha256Hex [] 0 answers.reads

def hashSymlink (answers : Answers) (sizeBytes : Nat) : Inspection :=
  match answers.parent, answers.target with
  | .error error, _ => ⟨.error (mapBoundaryError error), []⟩
  | .ok (), .error error => ⟨.error (.io error), []⟩
  | .ok (), .ok target =>
    if pathIdentityMaxHashBytes < target.length then
      ⟨.ok ⟨true, some .symlink, some sizeBytes, none, true⟩, []⟩
    else ⟨.ok ⟨true, some .symlink, some sizeBytes, some (sha256Hex target), false⟩, target⟩

def pathIdentityBeneath (answers : Answers) (includeSha256 : Bool) : Inspection :=
  match answers.opened with
  | .error .notFound => ⟨.ok missingIdentity, []⟩
  | .error error => ⟨.error (mapBoundaryError error), []⟩
  | .ok (.error error) => ⟨.error (.io error), []⟩
  | .ok (.ok stat) =>
    if stat.size < 0 then ⟨.error .changedDuringInspection, []⟩
    else if !includeSha256 then
      ⟨.ok ⟨true, some stat.kind, some stat.size.toNat, none, false⟩, []⟩
    else
      match stat.kind with
      | .file => hashRegularFile sha256Hex answers
      | .symlink => hashSymlink sha256Hex answers stat.size.toNat
      | kind => ⟨.ok ⟨true, some kind, some stat.size.toNat, none, false⟩, []⟩

/-- A record, and what the calls of its two inspections answer. -/
structure Visit where
  record : CheckpointRecord
  before : Answers
  after : Answers

/-- `hashed` are all bytes that have been hashed, `hashedBytes` those that are counted. -/
structure Progress where
  records : List CheckpointRecord
  hashedBytes : Nat
  truncated : Bool
  hashed : Nat
  failure : Option StatusError
  deriving DecidableEq

namespace Progress

def start : Progress := ⟨[], 0, false, 0, none⟩

def keep (progress : Progress) (record : CheckpointRecord) : Progress :=
  { progress with records := progress.records ++ [record] }

def attach (progress : Progress) (record : CheckpointRecord) (identity : PathIdentityResult)
    (cutOff : Bool) : Progress :=
  { progress.keep { record with currentIdentity := some identity } with
    truncated := progress.truncated || cutOff }

def fail (progress : Progress) : Progress :=
  { progress with failure := some .checkpointIdentityUnavailable }

end Progress

def canBeHashed (kind : Option PathIdentityKind) : Bool :=
  kind = some .file || kind = some .symlink

def attachHashed (progress : Progress) (visit : Visit) : Progress :=
  let inspection := pathIdentityBeneath sha256Hex visit.after true
  let progress := { progress with hashed := progress.hashed + inspection.hashed.length }
  match inspection.outcome with
  | .error _ => progress.fail
  | .ok identity =>
    if identity.hashTruncated then progress.attach visit.record identity true
    else
      { progress.attach visit.record identity false with
        hashedBytes := saturatingAdd progress.hashedBytes (identity.sizeBytes.getD 0) }

def attachCurrentIdentity (progress : Progress) (visit : Visit) : Progress :=
  if progress.failure.isSome then progress
  else if !recordNeedsCurrentIdentity visit.record then progress.keep visit.record
  else
    match (pathIdentityBeneath sha256Hex visit.before false).outcome with
    | .error _ => progress.fail
    | .ok metadata =>
      if !metadata.present then progress.attach visit.record metadata true
      else if !canBeHashed metadata.kind then progress.attach visit.record metadata true
      else if checkpointMaxHashedBytes <
          saturatingAdd progress.hashedBytes (metadata.sizeBytes.getD 0) then
        progress.attach visit.record { metadata with hashTruncated := true } true
      else attachHashed sha256Hex progress visit

def attachCurrentIdentities (visits : List Visit) : Progress :=
  visits.foldl (attachCurrentIdentity sha256Hex) .start

end Inspecting

theorem maxHashBytes_lt : pathIdentityMaxHashBytes < maxU64 := by decide

theorem hashReads_chunk {sha256Hex : Bytes → Bytes} (hasher : Bytes) (total : Nat)
    (byte : UInt8) (chunk : Bytes) (rest : List (Except Errno Bytes)) :
    hashReads sha256Hex hasher total (.ok (byte :: chunk) :: rest) =
      if pathIdentityMaxHashBytes < saturatingAdd total (byte :: chunk).length then
        ⟨.ok ⟨true, some .file, some (saturatingAdd total (byte :: chunk).length), none, true⟩,
          hasher⟩
      else hashReads sha256Hex (hasher ++ byte :: chunk)
        (saturatingAdd total (byte :: chunk).length) rest := rfl

def Progress.result (progress : Progress) : Option (List CheckpointRecord × Bool) :=
  if progress.failure.isSome then none else some (progress.records, progress.truncated)

end KodeGpt.IdentityInspections
