import Mathlib.Algebra.Order.BigOperators.Group.List
import Mathlib.Algebra.Order.Ring.Nat
import KodeGpt.GitCheckpoints
import KodeGpt.StatusCuts

/-!
When evidence about a workspace is still fresh: the verdict looks at the commit and
at the fingerprint of the changes. It says that nothing has changed as long as the
capture has left nothing out.
-/

namespace KodeGpt.FreshEvidence

open JsonText TextEncodings GitStatus GitCheckpoints

def contents : Node → Option (PathIdentityKind × Bytes)
  | .file contents => some (.file, contents)
  | .symlink target => some (.symlink, target)
  | _ => none

/-- What git says of a path: without a letter for the worktree it is as the index has
it, and an `unmerged` path has one. -/
structure Reported (checkout : Option Bytes → Option Bytes → Option (PathIdentityKind × Bytes))
    (workspace : Workspace) : Prop where
  unchanged : ∀ record ∈ workspace.report.entries.map StatusEntry.record,
    record.worktreeStatus = none → record.recordType ≠ .unmerged ∧
      contents (workspace.tree record.path) = checkout record.indexMode record.indexOid
  deleted : ∀ record ∈ workspace.report.entries.map StatusEntry.record,
    record.worktreeStatus = some deletedLetter → record.recordType ≠ .unmerged →
      contents (workspace.tree record.path) = none

section Complete

variable {sha256Hex : Bytes → Bytes} {workspace : Workspace} {patch : PatchCapture}
  {result : GitChangesResult}

end Complete

/-- What an identity says of the contents. -/
def Identifies (sha256Hex : Bytes → Bytes) (identity : Option PathIdentityResult)
    (held : Option (PathIdentityKind × Bytes)) : Prop :=
  match held with
  | some (kind, bytes) =>
    identity.bind PathIdentityResult.kind = some kind ∧
      identity.bind PathIdentityResult.sha256 = some (sha256Hex bytes)
  | none => identity.bind PathIdentityResult.sha256 = none

theorem Identifies.unique {sha256Hex : Bytes → Bytes} {identity : Option PathIdentityResult}
    {held other : Option (PathIdentityKind × Bytes)} (h : Identifies sha256Hex identity held)
    (hother : Identifies sha256Hex identity other)
    (hsha : ∀ kind bytes kind' bytes', held = some (kind, bytes) → other = some (kind', bytes') →
      sha256Hex bytes = sha256Hex bytes' → bytes = bytes') : held = other := by
  cases held with
  | none =>
    cases other with
    | none => rfl
    | some other => exact absurd (h.symm.trans hother.2) nofun
  | some held =>
    cases other with
    | none => exact absurd (hother.symm.trans h.2) nofun
    | some other =>
      obtain ⟨kind, bytes⟩ := held
      obtain ⟨kind', bytes'⟩ := other
      obtain rfl := Option.some.inj (h.1.symm.trans hother.1)
      rw [hsha kind bytes kind bytes' rfl rfl (Option.some.inj (h.2.symm.trans hother.2))]

def bare (record : CheckpointRecord) : CheckpointRecord := { record with currentIdentity := none }

section Single

variable {sha256Hex : Bytes → Bytes} {workspace : Workspace} {headOid : Bytes}
  {record : CheckpointRecord} {identity : PathIdentityResult} {hashedBytes : Nat}

end Single

end KodeGpt.FreshEvidence
