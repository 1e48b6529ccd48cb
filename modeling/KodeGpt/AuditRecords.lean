import KodeGpt.JsonText

/-!
The records of the security audit and their lines.
-/

namespace KodeGpt.AuditRecords

open JsonText

inductive AuditAction where
  | inspectRoot | workspaceTrust | workspaceTrustProfileUpdate | workspaceUntrust
  | workspaceCheckpointUpsert | workspaceCheckpointClear | workspaceRegister
  | workspaceReadProjectProfile | workspaceRestrictPolicy | workspaceActivate
  | workspaceBeginClose | workspaceCancelExecutions | workspaceUnregister | fileRead
  | fileTree | fileSearch | fileIdentity | fileWrite | fileEdit | fileCommitPatchFile
  | gitRepositoryIdentity | gitStatus | gitCheckpoint | gitCheckpointPatch | gitDiff
  | gitStage | gitCommit | gitBranchCreate | gitBranchSwitch | gitBranchDelete
  | gitWorktreeCreate | gitWorktreeRemove | gitFetch | gitPull | gitPush | gitHistoryList
  | gitCommitInspect | gitHistoryRange | gitHistoryDiff | ciRepository | ciStatus | ciRuns
  | ciRun | ciFailure | ciRerun | ciCancel | ciDispatch | providerAdd | providerRemove
  | providerEnable | providerDisable | providerReapprove | providerExecute | providerInventory
  | processInspectExecutable | verifyRun | processRun | processStatus | processCancel
  | artifactSpoolCreate | artifactRead | artifactCleanup | skillSourceInspectRoot
  | skillSourceRegister | skillSourceTree | skillSourceRead | skillSourceUnregister
  | testEffect
  deriving DecidableEq, Repr

namespace AuditAction

def asStr : AuditAction → String
  | inspectRoot => "inspect_root"
  | workspaceTrust => "workspace_trust"
  | workspaceTrustProfileUpdate => "workspace_trust_profile_update"
  | workspaceUntrust => "workspace_untrust"
  | workspaceCheckpointUpsert => "workspace_checkpoint_upsert"
  | workspaceCheckpointClear => "workspace_checkpoint_clear"
  | workspaceRegister => "workspace_register"
  | workspaceReadProjectProfile => "workspace_read_project_profile"
  | workspaceRestrictPolicy => "workspace_restrict_policy"
  | workspaceActivate => "workspace_activate"
  | workspaceBeginClose => "workspace_begin_close"
  | workspaceCancelExecutions => "workspace_cancel_executions"
  | workspaceUnregister => "workspace_unregister"
  | fileRead => "file_read"
  | fileTree => "file_tree"
  | fileSearch => "file_search"
  | fileIdentity => "file_identity"
  | fileWrite => "file_write"
  | fileEdit => "file_edit"
  | fileCommitPatchFile => "file_commit_patch_file"
  | gitRepositoryIdentity => "git_repository_identity"
  | gitStatus => "git_status"
  | gitCheckpoint => "git_checkpoint"
  | gitCheckpointPatch => "git_checkpoint_patch"
  | gitDiff => "git_diff"
  | gitStage => "git_stage"
  | gitCommit => "git_commit"
  | gitBranchCreate => "git_branch_create"
  | gitBranchSwitch => "git_branch_switch"
  | gitBranchDelete => "git_branch_delete"
  | gitWorktreeCreate => "git_worktree_create"
  | gitWorktreeRemove => "git_worktree_remove"
  | gitFetch => "git_fetch"
  | gitPull => "git_pull"
  | gitPush => "git_push"
  | gitHistoryList => "git_history_list"
  | gitCommitInspect => "git_commit_inspect"
  | gitHistoryRange => "git_history_range"
  | gitHistoryDiff => "git_history_diff"
  | ciRepository => "ci_repository"
  | ciStatus => "ci_status"
  | ciRuns => "ci_runs"
  | ciRun => "ci_run"
  | ciFailure => "ci_failure"
  | ciRerun => "ci_rerun"
  | ciCancel => "ci_cancel"
  | ciDispatch => "ci_dispatch"
  | providerAdd => "provider_add"
  | providerRemove => "provider_remove"
  | providerEnable => "provider_enable"
  | providerDisable => "provider_disable"
  | providerReapprove => "provider_reapprove"
  | providerExecute => "provider_execute"
  | providerInventory => "provider_inventory"
  | processInspectExecutable => "process_inspect_executable"
  | verifyRun => "verify_run"
  | processRun => "process_run"
  | processStatus => "process_status"
  | processCancel => "process_cancel"
  | artifactSpoolCreate => "artifact_spool_create"
  | artifactRead => "artifact_read"
  | artifactCleanup => "artifact_cleanup"
  | skillSourceInspectRoot => "skill_source_inspect_root"
  | skillSourceRegister => "skill_source_register"
  | skillSourceTree => "skill_source_tree"
  | skillSourceRead => "skill_source_read"
  | skillSourceUnregister => "skill_source_unregister"
  | testEffect => "test_effect"

end AuditAction

inductive AuditDecision where
  | allow
  deriving DecidableEq, Repr

def AuditDecision.asStr : AuditDecision → String
  | allow => "allow"

inductive AuditReason where
  | requestValidated | testAuthorized
  deriving DecidableEq, Repr

def AuditReason.asStr : AuditReason → String
  | requestValidated => "request_validated"
  | testAuthorized => "test_authorized"

inductive AuditOutcome where
  | success | failed
  deriving DecidableEq, Repr

def AuditOutcome.asStr : AuditOutcome → String
  | success => "success"
  | failed => "failed"

structure AuditContext where
  requestId : Bytes
  operationId : Bytes
  capabilityId : Option Bytes
  action : AuditAction

structure AuditRecord where
  schemaVersion : Nat := 1
  timestampUnixMs : Nat
  phase : Bytes
  requestId : Bytes
  operationId : Bytes
  capabilityId : Option Bytes
  action : Bytes
  remote : Option Bytes := none
  refName : Option Bytes := none
  decision : Option Bytes := none
  reason : Option Bytes := none
  outcome : Option Bytes := none
  provider : Option Bytes := none
  repository : Option Bytes := none
  credentialSource : Option Bytes := none
  runId : Option Bytes := none
  jobId : Option Bytes := none
  providerInstanceId : Option Bytes := none
  adapterId : Option Bytes := none
  semanticCapabilityId : Option Bytes := none
  errorCode : Option Bytes := none
  inventoryChanged : Option Bool := none
  truncated : Option Bool := none
  durationMs : Option Nat := none
  deriving DecidableEq

def isIdByte (byte : UInt8) : Bool :=
  (48 ≤ byte && byte ≤ 57) || (65 ≤ byte && byte ≤ 90) || (97 ≤ byte && byte ≤ 122) ||
    byte == 95 || byte == 45

def sanitizeId (value idPrefix : Bytes) : Bytes :=
  if value.length ≤ 96 ∧ idPrefix.isPrefixOf value ∧ value.all isIdByte then
    value
  else
    idPrefix ++ utf8 "redacted"

def sanitizeCapabilityId (value : Bytes) : Bytes :=
  if (utf8 "sc_").isPrefixOf value then
    sanitizeId value (utf8 "sc_")
  else
    sanitizeId value (utf8 "kc_")

namespace AuditRecord

/-- The clock's reading, `now`, is the only part of a record that its request
does not determine. -/
def base (now : Nat) (context : AuditContext) (phase : String) (remote refName : Option Bytes)
    (decision reason outcome : Option String) : AuditRecord where
  timestampUnixMs := now
  phase := utf8 phase
  requestId := sanitizeId context.requestId (utf8 "req_")
  operationId := sanitizeId context.operationId (utf8 "op_")
  capabilityId := context.capabilityId.map sanitizeCapabilityId
  action := utf8 context.action.asStr
  remote := remote
  refName := refName
  decision := decision.map utf8
  reason := reason.map utf8
  outcome := outcome.map utf8

def decisionRecord (now : Nat) (context : AuditContext) (decision : AuditDecision)
    (reason : AuditReason) : AuditRecord :=
  base now context "decision" none none (some decision.asStr) (some reason.asStr) none

def decisionWithGitRemote (now : Nat) (context : AuditContext) (decision : AuditDecision)
    (reason : AuditReason) (remote refName : Bytes) : AuditRecord :=
  base now context "decision" (some remote) (some refName) (some decision.asStr)
    (some reason.asStr) none

def outcomeRecord (now : Nat) (context : AuditContext) (outcome : AuditOutcome) : AuditRecord :=
  base now context "outcome" none none none none (some outcome.asStr)

def outcomeWithGitRemote (now : Nat) (context : AuditContext) (outcome : AuditOutcome)
    (remote refName : Bytes) : AuditRecord :=
  base now context "outcome" (some remote) (some refName) none none (some outcome.asStr)

def optional (key : String) (value : Option Json) : List (Bytes × Json) :=
  (value.map fun present => (utf8 key, present)).toList

def json (record : AuditRecord) : Json :=
  .object <|
    [(utf8 "schemaVersion", .number record.schemaVersion),
      (utf8 "timestampUnixMs", .number record.timestampUnixMs),
      (utf8 "phase", .string record.phase),
      (utf8 "requestId", .string record.requestId),
      (utf8 "operationId", .string record.operationId)] ++
    optional "capabilityId" (record.capabilityId.map .string) ++
    [(utf8 "action", .string record.action)] ++
    optional "remote" (record.remote.map .string) ++
    optional "ref" (record.refName.map .string) ++
    optional "decision" (record.decision.map .string) ++
    optional "reason" (record.reason.map .string) ++
    optional "outcome" (record.outcome.map .string) ++
    optional "provider" (record.provider.map .string) ++
    optional "repository" (record.repository.map .string) ++
    optional "credentialSource" (record.credentialSource.map .string) ++
    optional "runId" (record.runId.map .string) ++
    optional "jobId" (record.jobId.map .string) ++
    optional "providerInstanceId" (record.providerInstanceId.map .string) ++
    optional "adapterId" (record.adapterId.map .string) ++
    optional "semanticCapabilityId" (record.semanticCapabilityId.map .string) ++
    optional "errorCode" (record.errorCode.map .string) ++
    optional "inventoryChanged" (record.inventoryChanged.map .bool) ++
    optional "truncated" (record.truncated.map .bool) ++
    optional "durationMs" (record.durationMs.map fun value => .number value)

def text (record : AuditRecord) : Bytes :=
  record.json.compact

def line (record : AuditRecord) : Bytes :=
  record.text ++ [10]

theorem text_newline (record : AuditRecord) : 10 ∉ record.text :=
  compact_newline record.json

end AuditRecord

end KodeGpt.AuditRecords
