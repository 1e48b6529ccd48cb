import KodeGpt.GitStatus

/-!
The state of a repository as the runtime captures it: the paths that git reports,
with the identities of those that stand in the worktree, and the fingerprint that the
control plane takes of them.
-/

namespace KodeGpt.GitCheckpoints

open JsonText TextEncodings JsFrames JsFrames.JsValue JsObjects GitStatus

/-- What a path is in the worktree; a path is refused that leads out of it. -/
inductive Node where
  | missing
  | file (contents : Bytes)
  | symlink (target : Bytes)
  | directory (size : Nat)
  | other (size : Nat)
  | refused
  deriving DecidableEq

def pathIdentityMaxHashBytes : Nat := 64 * 1024 * 1024

def checkpointMaxHashedBytes : Nat := 64 * 1024 * 1024

def missingIdentity : PathIdentityResult := ⟨false, none, none, none, false⟩

def hashedIdentity (sha256Hex : Bytes → Bytes) (kind : PathIdentityKind) (bytes : Bytes) :
    PathIdentityResult :=
  if pathIdentityMaxHashBytes < bytes.length then ⟨true, kind, bytes.length, none, true⟩
  else ⟨true, kind, bytes.length, sha256Hex bytes, false⟩

def pathIdentity (sha256Hex : Bytes → Bytes) (node : Node) (includeSha256 : Bool) :
    Option PathIdentityResult :=
  match node with
  | .missing => some missingIdentity
  | .file contents =>
    some (if includeSha256 then hashedIdentity sha256Hex .file contents
      else ⟨true, some .file, contents.length, none, false⟩)
  | .symlink target =>
    some (if includeSha256 then hashedIdentity sha256Hex .symlink target
      else ⟨true, some .symlink, target.length, none, false⟩)
  | .directory size => some ⟨true, some .directory, size, none, false⟩
  | .other size => some ⟨true, some .other, size, none, false⟩
  | .refused => none

def deletedLetter : UInt8 := 68

def recordNeedsCurrentIdentity (record : CheckpointRecord) : Bool :=
  record.recordType = .untracked || record.worktreeStatus.any (· ≠ deletedLetter)

/-- The identity of a path, the bytes hashed with it, and whether something is left
out of it. -/
def currentIdentity (sha256Hex : Bytes → Bytes) (hashedBytes : Nat) (node : Node) :
    Option (PathIdentityResult × Nat × Bool) := do
  let metadata ← pathIdentity sha256Hex node false
  if metadata.present && (metadata.kind = some .file || metadata.kind = some .symlink) then
    if checkpointMaxHashedBytes < hashedBytes + metadata.sizeBytes.getD 0 then
      some ({ metadata with hashTruncated := true }, hashedBytes, true)
    else
      let identity ← pathIdentity sha256Hex node true
      if identity.hashTruncated then some (identity, hashedBytes, true)
      else some (identity, hashedBytes + identity.sizeBytes.getD 0, false)
  else some (metadata, hashedBytes, true)

def attachCurrentIdentities (sha256Hex : Bytes → Bytes) (tree : Bytes → Node) :
    Nat → List CheckpointRecord → Option (List CheckpointRecord × Bool)
  | _, [] => some ([], false)
  | hashedBytes, record :: rest =>
    if recordNeedsCurrentIdentity record then do
      let (identity, hashedBytes, cutOff) ←
        currentIdentity sha256Hex hashedBytes (tree record.path)
      let (later, truncated) ← attachCurrentIdentities sha256Hex tree hashedBytes rest
      some ({ record with currentIdentity := some identity } :: later, cutOff || truncated)
    else do
      let (later, truncated) ← attachCurrentIdentities sha256Hex tree hashedBytes rest
      some (record :: later, truncated)

/-- A repository, as git reports it, and its worktree. -/
structure Workspace where
  report : StatusReport
  tree : Bytes → Node

structure Checkpoint where
  headOid : Bytes
  records : List CheckpointRecord
  truncated : Bool
  deriving DecidableEq

def gitCheckpoint (sha256Hex : Bytes → Bytes) (workspace : Workspace) : Option Checkpoint := do
  let stdout := workspace.report.text
  let (headOid, records, truncated) ← parseCheckpointStatus (stdout.take checkpointStatusMaxBytes)
    (decide (checkpointStatusMaxBytes < stdout.length))
  let (identified, unhashed) ← attachCurrentIdentities sha256Hex workspace.tree 0 records
  some ⟨headOid, identified, truncated || unhashed⟩

def isOid (text : Bytes) : Bool :=
  40 ≤ text.length && text.length ≤ 64 && text.all isLowerHex

def isSha256 (text : Bytes) : Bool := text.length = 64 && text.all isLowerHex

def RecordType.name : RecordType → Bytes
  | .ordinary => utf8 "ordinary"
  | .rename => utf8 "rename"
  | .unmerged => utf8 "unmerged"
  | .untracked => utf8 "untracked"

def PathIdentityKind.name : PathIdentityKind → Bytes
  | .file => utf8 "file"
  | .directory => utf8 "directory"
  | .symlink => utf8 "symlink"
  | .other => utf8 "other"

def textValue (text : Bytes) : JsValue := .string (jsText text)

def optionalText : Option Bytes → JsValue := optionalValue textValue

def canonicalIdentity (identity : PathIdentityResult) : JsValue :=
  .object [(asciiUnits "exists", .boolean identity.present),
    (asciiUnits "kind", optionalText (identity.kind.map PathIdentityKind.name)),
    (asciiUnits "sizeBytes", optionalValue naturalNumber identity.sizeBytes),
    (asciiUnits "sha256", optionalText identity.sha256),
    (asciiUnits "hashTruncated", .boolean identity.hashTruncated)]

structure SourceState where
  headOid : Bytes
  changesFingerprint : Bytes
  deriving DecidableEq

def identified (sha256Hex : Bytes → Bytes) (tree : Bytes → Node) (record : CheckpointRecord) :
    CheckpointRecord :=
  if recordNeedsCurrentIdentity record then
    { record with currentIdentity := pathIdentity sha256Hex (tree record.path) true }
  else record

def Node.size : Node → Nat
  | .file contents => contents.length
  | .symlink target => target.length
  | _ => 0

section Injective

variable {text other : Bytes} {written : Option Bytes} {value : JsonDocuments.Value}

end Injective

end KodeGpt.GitCheckpoints
