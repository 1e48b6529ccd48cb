import KodeGpt.JsonText
import KodeGpt.SkillSources

/-!
The responses of the runtime: the JSON-RPC envelopes, and the code and message
that each error is reported with.
-/

namespace KodeGpt.RpcResponses

open JsonText SkillSources WorkspaceContexts

/-- The value of a member, as `Value::get` finds it. -/
def getMember (key : Bytes) : Json → Option Json
  | .object members => (members.find? fun member => member.1 == key).map (·.2)
  | _ => none

def successResponse (id : Bytes) (result : Json) : Json :=
  .object [(utf8 "id", .string id), (utf8 "jsonrpc", .string (utf8 "2.0")),
    (utf8 "result", result)]

def idJson : Option Bytes → Json
  | some id => .string id
  | none => .null

def errorResponse (id : Option Bytes) (code : Int) (message : String) : Json :=
  .object [
    (utf8 "error", .object [(utf8 "code", .number code), (utf8 "message", .string (utf8 message))]),
    (utf8 "id", idJson id), (utf8 "jsonrpc", .string (utf8 "2.0"))]

def errorResponseWithDataCode (id : Option Bytes) (code : Int) (message dataCode : String) :
    Json :=
  .object [
    (utf8 "error", .object [(utf8 "code", .number code),
      (utf8 "data", .object [(utf8 "code", .string (utf8 dataCode))]),
      (utf8 "message", .string (utf8 message))]),
    (utf8 "id", idJson id), (utf8 "jsonrpc", .string (utf8 "2.0"))]

def hasResult (response : Json) : Bool :=
  (getMember (utf8 "result") response).isSome

theorem hasResult_errorResponse (id : Option Bytes) (code : Int) (message : String) :
    hasResult (errorResponse id code message) = false := by
  have herror : (utf8 "error" == utf8 "result") = false := by decide +kernel
  have hid : (utf8 "id" == utf8 "result") = false := by decide +kernel
  have hjsonrpc : (utf8 "jsonrpc" == utf8 "result") = false := by decide +kernel
  simp [hasResult, getMember, errorResponse, herror, hid, hjsonrpc]

abbrev RpcError := Int × String

def auditUnavailable : RpcError := (-32010, "AUDIT_UNAVAILABLE")

def workspaceRegistryErrorContract : WorkspaceRegistryError → RpcError
  | .rootInvalid => (-32020, "WORKSPACE_ROOT_INVALID")
  | .identityChanged => (-32022, "WORKSPACE_IDENTITY_CHANGED")
  | .mountTopologyUnavailable => (-32023, "MOUNT_TOPOLOGY_UNAVAILABLE")
  | .rootOverlap => (-32024, "WORKSPACE_ROOT_OVERLAP")
  | .policyEscalation => (-32027, "WORKSPACE_POLICY_ESCALATION")
  | .workspaceNotReady => (-32028, "WORKSPACE_NOT_READY")
  | .projectProfileReadFailed => (-32029, "WORKSPACE_PROFILE_READ_FAILED")
  | .filesystemBoundaryUnavailable => (-32030, "FILESYSTEM_BOUNDARY_UNAVAILABLE")
  | .fileAccessDenied => (-32031, "FILE_ACCESS_DENIED")
  | .fileNotFound => (-32032, "FILE_NOT_FOUND")
  | .fileInvalidUtf8 => (-32033, "FILE_INVALID_UTF8")
  | .fileLimitExceeded => (-32034, "FILE_LIMIT_EXCEEDED")
  | .fileReadFailed => (-32035, "FILE_READ_FAILED")
  | .fileWriteConflict => (-32036, "FILE_EDIT_CONFLICT")
  | .fileWriteFailed => (-32037, "FILE_WRITE_FAILED")
  | .filePreconditionFailed => (-32040, "FILE_PRECONDITION_FAILED")
  | .patchPreconditionFailed => (-32038, "PATCH_PRECONDITION_FAILED")
  | .patchTargetExists => (-32039, "PATCH_TARGET_EXISTS")
  | .capabilityNotFound => (-32025, "WORKSPACE_CAPABILITY_NOT_FOUND")

def skillSourceRegistryErrorContract : SkillSourceRegistryError → RpcError
  | .rootInvalid | .rootOverlap => (-32100, "SKILL_SOURCE_INVALID")
  | .identityChanged => (-32101, "SKILL_SOURCE_IDENTITY_CHANGED")
  | .stateOverlap => (-32102, "SKILL_SOURCE_STATE_OVERLAP")
  | .accessDenied => (-32103, "SKILL_SOURCE_BOUNDARY_VIOLATION")
  | .limitExceeded => (-32104, "SKILL_SOURCE_LIMIT_EXCEEDED")
  | .invalidUtf8 => (-32105, "SKILL_RESOURCE_UNSUPPORTED")
  | .mountTopologyUnavailable | .filesystemBoundaryUnavailable | .notFound | .readFailed
  | .capabilityNotFound => (-32106, "SKILL_SOURCE_UNAVAILABLE")

inductive RawSpoolError where
  | auditUnavailable
  | duplicateExecution
  | invalidExecutionId
  | invalidArtifactId
  | invalidMediaType
  | artifactNotFound
  | artifactNotRegular
  | readLimitExceeded
  | quotaExceeded
  | synchronizationFailed
  | io
  deriving DecidableEq, Repr

def artifactErrorContract : RawSpoolError → RpcError
  | .auditUnavailable => auditUnavailable
  | .invalidArtifactId => (-32051, "ARTIFACT_ID_INVALID")
  | .artifactNotFound => (-32052, "ARTIFACT_NOT_FOUND")
  | .artifactNotRegular => (-32053, "ARTIFACT_UNSAFE")
  | .readLimitExceeded => (-32054, "ARTIFACT_READ_LIMIT_EXCEEDED")
  | .quotaExceeded => (-32055, "ARTIFACT_QUOTA_EXCEEDED")
  | .synchronizationFailed | .io => (-32050, "ARTIFACT_STORE_UNAVAILABLE")
  | .duplicateExecution | .invalidExecutionId | .invalidMediaType =>
    (-32056, "ARTIFACT_STORE_INVALID_STATE")

inductive ProcessError where
  | policyDenied
  | executableDenied
  | environmentDenied
  | invalidCwd
  | operationNotFound
  | registryUnavailable
  | captureFailed
  | cancellationFailed
  | sandbox
  | spool (error : RawSpoolError)
  | waitFailed
  deriving DecidableEq, Repr

def processErrorContract : ProcessError → RpcError
  | .policyDenied => (-32040, "PROCESS_POLICY_DENIED")
  | .executableDenied => (-32041, "PROCESS_EXECUTABLE_DENIED")
  | .environmentDenied => (-32042, "PROCESS_ENVIRONMENT_DENIED")
  | .invalidCwd => (-32043, "PROCESS_CWD_INVALID")
  | .operationNotFound => (-32044, "PROCESS_OPERATION_NOT_FOUND")
  | .registryUnavailable => (-32045, "PROCESS_REGISTRY_UNAVAILABLE")
  | .cancellationFailed => (-32046, "PROCESS_CANCEL_FAILED")
  | .sandbox => (-32047, "PROCESS_SANDBOX_UNAVAILABLE")
  | .captureFailed | .spool _ | .waitFailed => (-32048, "PROCESS_EXECUTION_FAILED")

inductive GitHistoryError where
  | notAGitRepository
  | revisionInvalid
  | revisionNotFound
  | objectTypeUnsupported
  | pathInvalid
  | outputLimitExceeded
  | timeout
  | gitUnavailable
  | gitReadFailed
  deriving DecidableEq, Repr

def gitHistoryErrorContract : GitHistoryError → RpcError
  | .notAGitRepository => (-32050, "NOT_A_GIT_REPOSITORY")
  | .revisionInvalid => (-32051, "REVISION_INVALID")
  | .revisionNotFound => (-32052, "REVISION_NOT_FOUND")
  | .objectTypeUnsupported => (-32053, "OBJECT_TYPE_UNSUPPORTED")
  | .pathInvalid => (-32054, "PATH_INVALID")
  | .outputLimitExceeded => (-32055, "OUTPUT_LIMIT_EXCEEDED")
  | .timeout => (-32056, "PROCESS_TIMEOUT")
  | .gitUnavailable => (-32057, "GIT_UNAVAILABLE")
  | .gitReadFailed => (-32058, "GIT_READ_FAILED")

inductive GitInspectionError where
  | sandbox
  | spool (error : RawSpoolError)
  | registryUnavailable
  | captureFailed
  | unsafeRepositoryConfig
  | invalidCheckpointStatus
  | invalidMutationInput
  | worktreeInputInvalid
  | worktreeTargetExists
  | worktreeBranchMissing
  | worktreeBranchInUse
  | worktreeMetadataInvalid
  | worktreeDirty
  | worktreeLocked
  | worktreeUnavailable
  | worktreeFailed
  | worktreeInconsistent
  | commandFailed
  | checkpointIdentityUnavailable
  | repositoryIdentityInvalid
  | repositoryIdentityLimitExceeded
  | timeout
  | outputLimitExceeded
  | waitFailed
  deriving DecidableEq, Repr

def gitWorktreeErrorContract : GitInspectionError → RpcError
  | .worktreeInputInvalid | .invalidMutationInput => (-32080, "GIT_WORKTREE_INPUT_INVALID")
  | .worktreeTargetExists => (-32081, "GIT_WORKTREE_TARGET_EXISTS")
  | .worktreeBranchMissing => (-32082, "GIT_WORKTREE_BRANCH_MISSING")
  | .worktreeBranchInUse => (-32083, "GIT_WORKTREE_BRANCH_IN_USE")
  | .worktreeMetadataInvalid => (-32084, "GIT_WORKTREE_METADATA_INVALID")
  | .worktreeDirty => (-32085, "GIT_WORKTREE_DIRTY")
  | .worktreeLocked => (-32086, "GIT_WORKTREE_LOCKED")
  | .worktreeUnavailable | .sandbox => (-32087, "GIT_WORKTREE_UNAVAILABLE")
  | .worktreeInconsistent => (-32088, "GIT_WORKTREE_INCONSISTENT")
  | .worktreeFailed | .spool _ | .registryUnavailable | .captureFailed
  | .unsafeRepositoryConfig | .invalidCheckpointStatus | .commandFailed
  | .checkpointIdentityUnavailable | .repositoryIdentityInvalid
  | .repositoryIdentityLimitExceeded | .timeout | .outputLimitExceeded | .waitFailed =>
    (-32089, "GIT_WORKTREE_FAILED")

/-- What the two identity errors of a repository are reported as; the dispatcher
reports every other error as unavailable. -/
def gitRepositoryIdentityErrorContract : GitInspectionError → RpcError
  | .repositoryIdentityInvalid | .repositoryIdentityLimitExceeded =>
    (-32064, "GIT_REPOSITORY_IDENTITY_INVALID")
  | _ => (-32065, "GIT_REPOSITORY_IDENTITY_UNAVAILABLE")

def gitLocalMutationErrorContract : GitInspectionError → RpcError
  | .invalidMutationInput => (-32060, "GIT_MUTATION_INPUT_INVALID")
  | _ => (-32061, "GIT_MUTATION_FAILED")

def gitRemoteMutationErrorContract : GitInspectionError → RpcError
  | .invalidMutationInput => (-32063, "GIT_REMOTE_INPUT_INVALID")
  | _ => (-32065, "GIT_REMOTE_FAILED")

def gitCheckpointErrorContract (patch : Bool) : GitInspectionError → RpcError
  | .invalidCheckpointStatus =>
    if patch then (-32039, "GIT_INSPECTION_FAILED") else (-32049, "GIT_STATUS_INVALID")
  | _ => (-32039, "GIT_INSPECTION_FAILED")

end KodeGpt.RpcResponses
