import KodeGpt.AuditRecords
import KodeGpt.MonitoredPrograms
import KodeGpt.PolicyRestriction
import KodeGpt.RpcResponses

/-!
The audited paths of the dispatcher, as programs that append records to the
audit and let the host do the rest. What the host answers is left open, and so
is which calls the file, Git and process code makes between two records.
-/

namespace KodeGpt.AuditedDispatch

open AuditRecords JsonText MonitoredPrograms PolicyRestriction RpcResponses SkillSources
open WorkspaceContexts

section Programs

variable {A : Type}

/-- Host calls alone, each answered by some `A`. -/
abbrev HostProgram (A : Type) := Program Unit fun _ => A

inductive AuditPhase where
  | decision
  | outcome
  deriving DecidableEq, Repr

/-- The calls of a request. `readPolicy` looks a policy up and changes nothing;
`control` appends the record of a change that is made outside the runtime. -/
inductive Op (A : Type) where
  | append (phase : AuditPhase) (action : AuditAction) (record : Nat → AuditRecord)
  | control (record : Nat → AuditRecord)
  | readPolicy (capabilityId : Bytes)
  | effect
  | spawn (worker : HostProgram A Unit)

/-- The answers: whether a record was appended, and for a policy `none` when
the lock of the registry is poisoned. -/
abbrev Answer : Op A → Type
  | .append _ _ _ => Bool
  | .control _ => Bool
  | .readPolicy _ => Option (Except WorkspaceRegistryError RuntimePolicy)
  | .effect => A
  | .spawn _ => Unit

abbrev Dispatch (A : Type) := Program (Op A) Answer

def host {α : Type} (program : HostProgram A α) : Dispatch A α :=
  program.expand fun _ => Program.perform Op.effect

def readPolicy (capabilityId : Bytes) :
    Dispatch A (Option (Except WorkspaceRegistryError RuntimePolicy)) :=
  Program.perform (Op.readPolicy capabilityId)

/-- The context of a request's records, with the remote and ref that the records
of a Git remote carry. -/
structure AuditTrail where
  context : AuditContext
  remote : Option (Bytes × Bytes) := none

namespace AuditTrail

def decisionAt (trail : AuditTrail) (now : Nat) : AuditRecord :=
  match trail.remote with
  | none => .decisionRecord now trail.context .allow .requestValidated
  | some (remote, refName) =>
    .decisionWithGitRemote now trail.context .allow .requestValidated remote refName

def outcomeAt (trail : AuditTrail) (outcome : AuditOutcome) (now : Nat) : AuditRecord :=
  match trail.remote with
  | none => .outcomeRecord now trail.context outcome
  | some (remote, refName) => .outcomeWithGitRemote now trail.context outcome remote refName

def decision (trail : AuditTrail) : Dispatch A Bool :=
  Program.perform (Op.append .decision trail.context.action trail.decisionAt)

def outcome (trail : AuditTrail) (outcome : AuditOutcome) : Dispatch A Bool :=
  Program.perform (Op.append .outcome trail.context.action (trail.outcomeAt outcome))

end AuditTrail

def auditUnavailableResponse (requestId : Bytes) : Json :=
  errorResponse (some requestId) (-32010) "AUDIT_UNAVAILABLE"

def failure (requestId : Bytes) (error : RpcError) : Json :=
  errorResponse (some requestId) error.1 error.2

def afterDecision (trail : AuditTrail) (requestId : Bytes) (rest : Dispatch A Json) :
    Dispatch A Json := do
  if ← trail.decision then rest
  else pure (auditUnavailableResponse requestId)

/-- Every audited path ends with its outcome and keeps its response back without
it. -/
def withOutcome (trail : AuditTrail) (requestId : Bytes) (outcome : AuditOutcome)
    (response : Json) : Dispatch A Json := do
  if ← trail.outcome outcome then pure response
  else pure (auditUnavailableResponse requestId)

/-- `audited_failure` and `audited_git_remote_failure`. -/
def auditedFailure (trail : AuditTrail) (requestId : Bytes) (error : RpcError) :
    Dispatch A Json :=
  withOutcome trail requestId .failed (failure requestId error)

def auditedSkillSourceFailure (trail : AuditTrail) (requestId : Bytes) (error : RpcError) :
    Dispatch A Json :=
  withOutcome trail requestId .failed
    (errorResponseWithDataCode (some requestId) error.1 error.2 error.2)

def auditedSuccess (trail : AuditTrail) (requestId : Bytes) (result : Json)
    (outcome : AuditOutcome) : Dispatch A Json :=
  withOutcome trail requestId outcome (successResponse requestId result)

def operationIdOf (requestId : Bytes) : Bytes :=
  utf8 "op_" ++ (requestId.dropPrefix? (utf8 "req_")).getD (utf8 "redacted")

def requestTrail (requestId : Bytes) (capabilityId : Option Bytes) (action : AuditAction) :
    AuditTrail where
  context :=
    { requestId := requestId, operationId := operationIdOf requestId,
      capabilityId := capabilityId, action := action }

def registryUnavailable : RpcError := (-32026, "WORKSPACE_REGISTRY_UNAVAILABLE")

/-- The operation runs under the registry's lock; it answers `none` when the
lock is poisoned. -/
def auditedWorkspaceOperation (requestId : Bytes) (capabilityId : Option Bytes)
    (action : AuditAction)
    (operation : HostProgram A (Option (Except WorkspaceRegistryError Json))) :
    Dispatch A Json :=
  let trail := requestTrail requestId capabilityId action
  afterDecision trail requestId do
    match ← host operation with
    | none => auditedFailure trail requestId registryUnavailable
    | some (.ok result) => auditedSuccess trail requestId result .success
    | some (.error error) =>
      auditedFailure trail requestId (workspaceRegistryErrorContract error)

def auditedSkillSourceOperation (requestId : Bytes) (capabilityId : Option Bytes)
    (action : AuditAction)
    (operation : HostProgram A (Option (Except SkillSourceRegistryError Json))) :
    Dispatch A Json :=
  let trail := requestTrail requestId capabilityId action
  afterDecision trail requestId do
    match ← host operation with
    | none => auditedSkillSourceFailure trail requestId (-32109, "SKILL_SOURCE_UNAVAILABLE")
    | some (.ok result) => auditedSuccess trail requestId result .success
    | some (.error error) =>
      auditedSkillSourceFailure trail requestId (skillSourceRegistryErrorContract error)

/-- `system.inspect_root`: the inspection and its comparison with the state
root. -/
def dispatchInspectRoot (requestId : Bytes) (inspect : HostProgram A (Except RpcError Json)) :
    Dispatch A Json :=
  let trail := requestTrail requestId none .inspectRoot
  afterDecision trail requestId do
    match ← host inspect with
    | .error error => auditedFailure trail requestId error
    | .ok inspected => auditedSuccess trail requestId inspected .success

def dispatchSkillSourceInspectRoot (requestId : Bytes) (filesystemBoundaryAvailable : Bool)
    (inspect : HostProgram A (Except SkillSourceRegistryError Json)) : Dispatch A Json :=
  let trail := requestTrail requestId none .skillSourceInspectRoot
  afterDecision trail requestId <|
    if filesystemBoundaryAvailable then do
      match ← host inspect with
      | .error error =>
        auditedSkillSourceFailure trail requestId (skillSourceRegistryErrorContract error)
      | .ok inspected => auditedSuccess trail requestId inspected .success
    else auditedSkillSourceFailure trail requestId (-32106, "SKILL_SOURCE_UNAVAILABLE")

/-- `workspace.cancel_executions`: the registry's answer, and then the one of the
blocking task that cancels, `none` when the task panics. -/
def dispatchWorkspaceCancelExecutions (requestId capabilityId : Bytes)
    (cancelExecutions : HostProgram A (Option (Except WorkspaceRegistryError Unit)))
    (cancelWorkspace : HostProgram A (Option (Except ProcessError Unit))) : Dispatch A Json :=
  let trail := requestTrail requestId (some capabilityId) .workspaceCancelExecutions
  afterDecision trail requestId do
    match ← host cancelExecutions with
    | none => auditedFailure trail requestId registryUnavailable
    | some (.error error) =>
      auditedFailure trail requestId (workspaceRegistryErrorContract error)
    | some (.ok ()) =>
      match ← host cancelWorkspace with
      | some (.ok ()) =>
        auditedSuccess trail requestId (.object [(utf8 "ok", .bool true)]) .success
      | some (.error error) => auditedFailure trail requestId (processErrorContract error)
      | none => auditedFailure trail requestId (-32045, "PROCESS_REGISTRY_UNAVAILABLE")

/-- One use of `RawSpoolStore::create`: the verdict of its two validations,
whether the maintenance lock is had, and its host calls. `issued` refuses an
execution that has a spool already, `activate` answers whether the artifact
could be noted as active, `discard` removes it again. -/
structure SpoolCreate (A : Type) where
  operationId : Bytes
  validated : Except RawSpoolError Unit
  maintenance : Bool
  retention : HostProgram A (Except RawSpoolError Unit)
  issued : HostProgram A (Except RawSpoolError Unit)
  createFile : HostProgram A (Except RawSpoolError Unit)
  activate : HostProgram A Bool
  discard : HostProgram A Unit

def spoolTrail (requestId operationId : Bytes) (action : AuditAction) : AuditTrail where
  context :=
    { requestId := requestId, operationId := operationId, capabilityId := none,
      action := action }

def auditedSpoolOperation {α : Type} (trail : AuditTrail)
    (operation : HostProgram A (Except RawSpoolError α)) : Dispatch A (Except RawSpoolError α) := do
  if ← trail.decision then
    let result ← host operation
    let outcome := match result with
      | .ok _ => AuditOutcome.success
      | .error _ => AuditOutcome.failed
    if ← trail.outcome outcome then pure result
    else pure (.error .auditUnavailable)
  else pure (.error .auditUnavailable)

def enforceRetention (requestId : Bytes) (create : SpoolCreate A) :
    Dispatch A (Except RawSpoolError Unit) :=
  auditedSpoolOperation (spoolTrail requestId create.operationId .artifactCleanup)
    create.retention

/-- The new file, between the decision and the outcome of its creation. Where the
outcome cannot be appended the file is removed. -/
def createArtifact (trail : AuditTrail) (create : SpoolCreate A) :
    Dispatch A (Except RawSpoolError Unit) := do
  if ← trail.decision then
    match ← host create.createFile with
    | .error error =>
      if ← trail.outcome .failed then pure (.error error)
      else pure (.error .auditUnavailable)
    | .ok () =>
      if ← host create.activate then
        if ← trail.outcome .success then pure (.ok ())
        else do
          host create.discard
          pure (.error .auditUnavailable)
      else do
        host create.discard
        let _ ← trail.outcome .failed
        pure (.error .synchronizationFailed)
  else pure (.error .auditUnavailable)

def spoolCreate (requestId : Bytes) (create : SpoolCreate A) :
    Dispatch A (Except RawSpoolError Unit) :=
  match create.validated with
  | .error error => pure (.error error)
  | .ok () =>
    if create.maintenance then do
      match ← enforceRetention requestId create with
      | .error error => pure (.error error)
      | .ok () =>
        match ← host create.issued with
        | .error error => pure (.error error)
        | .ok () =>
          createArtifact (spoolTrail requestId create.operationId .artifactSpoolCreate)
            create
    else pure (.error .synchronizationFailed)

/-- The calls of the code that runs Git and processes: host calls, new spools,
and threads that go on by themselves. -/
inductive RunOp (A : Type) where
  | effect
  | create (create : SpoolCreate A)
  | spawn (worker : HostProgram A Unit)

abbrev RunAnswer : RunOp A → Type
  | .effect => A
  | .create _ => Except RawSpoolError Unit
  | .spawn _ => Unit

abbrev RunProgram (A : Type) := Program (RunOp A) RunAnswer

def runHandler (requestId : Bytes) : (op : RunOp A) → Dispatch A (RunAnswer op)
  | .effect => Program.perform Op.effect
  | .create create => spoolCreate requestId create
  | .spawn worker => Program.perform (Op.spawn worker)

def runBlocking {α : Type} (requestId : Bytes) (program : RunProgram A α) : Dispatch A α :=
  program.expand (runHandler requestId)

/-- What a Git command reports: its JSON, and its exit code where the response
has one. -/
structure GitResult where
  result : Json
  exitCode : Option Int := none

def GitResult.outcome (report : GitResult) : AuditOutcome :=
  match report.exitCode with
  | none => .success
  | some exitCode => if exitCode = 0 then .success else .failed

/-- The parts of a Git request: `ready` duplicates the root of the workspace
under the registry's lock, `run` is the blocking task and answers `none` when it
panics. -/
structure GitTask (A ε : Type) where
  ready : HostProgram A (Option (Except WorkspaceRegistryError Unit))
  spoolAvailable : Bool
  run : RunProgram A (Option (Except ε GitResult))

def gitAfterDecision {ε : Type} (trail : AuditTrail) (requestId : Bytes)
    (unavailable panicked : RpcError) (contract : ε → RpcError) (task : GitTask A ε) :
    Dispatch A Json := do
  match ← host task.ready with
  | none => auditedFailure trail requestId registryUnavailable
  | some (.error error) => auditedFailure trail requestId (workspaceRegistryErrorContract error)
  | some (.ok ()) =>
    if task.spoolAvailable then do
      match ← runBlocking requestId task.run with
      | none => auditedFailure trail requestId panicked
      | some (.error error) => auditedFailure trail requestId (contract error)
      | some (.ok report) => auditedSuccess trail requestId report.result report.outcome
    else auditedFailure trail requestId unavailable

def withPolicy (requestId capabilityId : Bytes) (permitted : RuntimePolicy → Bool)
    (denied : RpcError) (rest : Dispatch A Json) : Dispatch A Json := do
  match ← readPolicy capabilityId with
  | none => pure (failure requestId registryUnavailable)
  | some (.error error) => pure (failure requestId (workspaceRegistryErrorContract error))
  | some (.ok policy) => if permitted policy then rest else pure (failure requestId denied)

def dispatchGitRepositoryIdentity (requestId capabilityId : Bytes)
    (task : GitTask A GitInspectionError) : Dispatch A Json :=
  let trail := requestTrail requestId (some capabilityId) .gitRepositoryIdentity
  afterDecision trail requestId <|
    gitAfterDecision trail requestId (-32038, "GIT_REPOSITORY_IDENTITY_UNAVAILABLE")
      (-32065, "GIT_REPOSITORY_IDENTITY_UNAVAILABLE") gitRepositoryIdentityErrorContract task

/-- `git.status` and `git.diff`. -/
def dispatchGitOperation (requestId capabilityId : Bytes) (action : AuditAction)
    (task : GitTask A GitInspectionError) : Dispatch A Json :=
  let trail := requestTrail requestId (some capabilityId) action
  afterDecision trail requestId <|
    gitAfterDecision trail requestId (-32038, "GIT_INSPECTION_UNAVAILABLE")
      (-32039, "GIT_INSPECTION_FAILED") (fun _ => (-32039, "GIT_INSPECTION_FAILED")) task

def dispatchGitCheckpoint (requestId capabilityId : Bytes) (patch : Bool) (action : AuditAction)
    (task : GitTask A GitInspectionError) : Dispatch A Json :=
  let trail := requestTrail requestId (some capabilityId) action
  afterDecision trail requestId <|
    gitAfterDecision trail requestId (-32038, "GIT_INSPECTION_UNAVAILABLE")
      (-32039, "GIT_INSPECTION_FAILED") (gitCheckpointErrorContract patch) task

def mutationPermitted (policy : RuntimePolicy) : Bool :=
  policy.name = .trusted && policy.allowWrite

def dispatchGitLocalMutation (requestId capabilityId : Bytes) (action : AuditAction)
    (task : GitTask A GitInspectionError) : Dispatch A Json :=
  let trail := requestTrail requestId (some capabilityId) action
  withPolicy requestId capabilityId mutationPermitted (-32059, "GIT_POLICY_DENIED") <|
    afterDecision trail requestId <|
      gitAfterDecision trail requestId (-32061, "GIT_MUTATION_UNAVAILABLE")
        (-32061, "GIT_MUTATION_FAILED") gitLocalMutationErrorContract task

def dispatchGitWorktreeMutation (requestId capabilityId : Bytes) (action : AuditAction)
    (task : GitTask A GitInspectionError) : Dispatch A Json :=
  let trail := requestTrail requestId (some capabilityId) action
  withPolicy requestId capabilityId mutationPermitted (-32059, "GIT_POLICY_DENIED") <|
    afterDecision trail requestId <|
      gitAfterDecision trail requestId (-32087, "GIT_WORKTREE_UNAVAILABLE")
        (-32089, "GIT_WORKTREE_FAILED") gitWorktreeErrorContract task

/-- `git.fetch`, `git.pull` and `git.push`; `inputValid` is the verdict of
`validate_remote_mutation_input`. -/
def dispatchGitRemoteMutation (requestId capabilityId remote refName : Bytes) (inputValid : Bool)
    (action : AuditAction) (task : GitTask A GitInspectionError) : Dispatch A Json :=
  let trail :=
    { requestTrail requestId (some capabilityId) action with remote := some (remote, refName) }
  withPolicy requestId capabilityId
      (fun policy => mutationPermitted policy && policy.network = .unrestricted)
      (-32062, "GIT_REMOTE_POLICY_DENIED") <|
    if inputValid then
      afterDecision trail requestId <|
        gitAfterDecision trail requestId (-32064, "GIT_REMOTE_UNAVAILABLE")
          (-32065, "GIT_REMOTE_FAILED") gitRemoteMutationErrorContract task
    else pure (failure requestId (-32063, "GIT_REMOTE_INPUT_INVALID"))

def dispatchGitHistory (requestId capabilityId : Bytes) (action : AuditAction)
    (task : GitTask A GitHistoryError) : Dispatch A Json :=
  let trail := requestTrail requestId (some capabilityId) action
  afterDecision trail requestId <|
    gitAfterDecision trail requestId (gitHistoryErrorContract .gitUnavailable)
      (gitHistoryErrorContract .gitReadFailed) gitHistoryErrorContract task

def dispatchGitLog (requestId capabilityId : Bytes) (task : GitTask A GitHistoryError) :
    Dispatch A Json :=
  dispatchGitHistory requestId capabilityId .gitHistoryList task

def dispatchGitShow (requestId capabilityId : Bytes) (task : GitTask A GitHistoryError) :
    Dispatch A Json :=
  dispatchGitHistory requestId capabilityId .gitCommitInspect task

def dispatchGitRange (requestId capabilityId : Bytes) (task : GitTask A GitHistoryError) :
    Dispatch A Json :=
  dispatchGitHistory requestId capabilityId .gitHistoryRange task

def dispatchGitHistoryDiff (requestId capabilityId : Bytes) (task : GitTask A GitHistoryError) :
    Dispatch A Json :=
  dispatchGitHistory requestId capabilityId .gitHistoryDiff task

def processInspectResult (executableAvailable sandboxAvailable : Bool) : Json :=
  .object [(utf8 "executableAvailable", .bool executableAvailable),
    (utf8 "sandboxAvailable", .bool sandboxAvailable), (utf8 "schemaVersion", .number 1)]

def dispatchProcessInspectExecutable (requestId capabilityId : Bytes)
    (available : RuntimePolicy → HostProgram A (Bool × Bool)) : Dispatch A Json := do
  match ← readPolicy capabilityId with
  | none => pure (failure requestId registryUnavailable)
  | some (.error error) => pure (failure requestId (workspaceRegistryErrorContract error))
  | some (.ok policy) =>
    let trail := requestTrail requestId (some capabilityId) .processInspectExecutable
    afterDecision trail requestId do
      let (executableAvailable, sandboxAvailable) ← host (available policy)
      auditedSuccess trail requestId
        (processInspectResult executableAvailable sandboxAvailable) .success

/-- The parts of a process run: `duplicateRoot` duplicates the root under the
lock that the policy was read under, `run` is the blocking task of
`run_process`. -/
structure ProcessTask (A : Type) where
  duplicateRoot : HostProgram A (Except WorkspaceRegistryError Unit)
  spoolAvailable : Bool
  run : RuntimePolicy → RunProgram A (Option (Except ProcessError Json))

def processTrail (requestId capabilityId operationId : Bytes) (action : AuditAction) :
    AuditTrail where
  context :=
    { requestId := requestId, operationId := operationId, capabilityId := some capabilityId,
      action := action }

def dispatchProcessRunWithOperationId (requestId capabilityId operationId : Bytes)
    (task : ProcessTask A) : Dispatch A Json :=
  let trail := processTrail requestId capabilityId operationId .processRun
  afterDecision trail requestId do
    match ← readPolicy capabilityId with
    | none => auditedFailure trail requestId registryUnavailable
    | some (.error error) => auditedFailure trail requestId (workspaceRegistryErrorContract error)
    | some (.ok policy) =>
      if policy.allowProcess && policy.name ≠ .observe then do
        match ← host task.duplicateRoot with
        | .error error => auditedFailure trail requestId (workspaceRegistryErrorContract error)
        | .ok () =>
          if task.spoolAvailable then do
            match ← runBlocking requestId (task.run policy) with
            | some (.ok view) => auditedSuccess trail requestId view .success
            | some (.error error) =>
              auditedFailure trail requestId (processErrorContract error)
            | none => auditedFailure trail requestId (-32048, "PROCESS_EXECUTION_FAILED")
          else auditedFailure trail requestId (-32048, "PROCESS_EXECUTION_UNAVAILABLE")
      else auditedFailure trail requestId (-32040, "PROCESS_POLICY_DENIED")

/-- `verify.run` records its own action around the process run, whose response
it passes on once its own outcome is appended. -/
def dispatchVerifyRun (requestId capabilityId operationId : Bytes) (task : ProcessTask A) :
    Dispatch A Json :=
  let trail := processTrail requestId capabilityId operationId .verifyRun
  afterDecision trail requestId do
    let response ← dispatchProcessRunWithOperationId requestId capabilityId operationId task
    withOutcome trail requestId (if hasResult response then .success else .failed) response

/-- `process.status` and `process.cancel`. -/
def dispatchProcessOperation (requestId capabilityId operationId : Bytes) (action : AuditAction)
    (requireReady : HostProgram A (Option (Except WorkspaceRegistryError Unit)))
    (operation : HostProgram A (Except ProcessError Json)) : Dispatch A Json :=
  let trail := processTrail requestId capabilityId operationId action
  afterDecision trail requestId do
    match ← host requireReady with
    | none => auditedFailure trail requestId registryUnavailable
    | some (.error error) => auditedFailure trail requestId (workspaceRegistryErrorContract error)
    | some (.ok ()) =>
      match ← host operation with
      | .ok view => auditedSuccess trail requestId view .success
      | .error error => auditedFailure trail requestId (processErrorContract error)

def artifactStoreUnavailable : RpcError := (-32050, "ARTIFACT_STORE_UNAVAILABLE")

/-- The response of an artifact path, which has no record of its own: the spool
has made its records by then. A blocking task that panics answers `none`. -/
def artifactResponse (requestId : Bytes) : Option (Except RawSpoolError Json) → Json
  | some (.ok result) => successResponse requestId result
  | some (.error error) => failure requestId (artifactErrorContract error)
  | none => failure requestId artifactStoreUnavailable

/-- `artifact.write`; `writeSource` writes the bytes and finishes the file, and
does not answer when it panics. -/
def dispatchArtifactWrite (requestId : Bytes) (spoolAvailable dataValid : Bool)
    (create : SpoolCreate A) (writeSource : HostProgram A (Option (Except RawSpoolError Json))) :
    Dispatch A Json :=
  if spoolAvailable then
    if dataValid then do
      match ← spoolCreate requestId create with
      | .error error => pure (artifactResponse requestId (some (.error error)))
      | .ok () =>
        let written ← host writeSource
        pure (artifactResponse requestId written)
    else pure (failure requestId (-32602, "INVALID_PARAMS"))
  else pure (failure requestId artifactStoreUnavailable)

/-- `RawSpoolStore::read` checks the id and the bound before its decision. -/
def dispatchArtifactRead (requestId operationId : Bytes) (spoolAvailable : Bool)
    (validated : Except RawSpoolError Unit)
    (readInner : HostProgram A (Except RawSpoolError Json)) : Dispatch A Json :=
  if spoolAvailable then
    match validated with
    | .error error => pure (artifactResponse requestId (some (.error error)))
    | .ok () => do
      let read ← auditedSpoolOperation (spoolTrail requestId operationId .artifactRead) readInner
      pure (artifactResponse requestId (some read))
  else pure (failure requestId artifactStoreUnavailable)

inductive SkillSourceMethod where
  | register | tree | read | unregister
  deriving DecidableEq, Repr

def SkillSourceMethod.action : SkillSourceMethod → AuditAction
  | register => .skillSourceRegister
  | tree => .skillSourceTree
  | read => .skillSourceRead
  | unregister => .skillSourceUnregister

/-- The methods that run under the lock of the workspace registry. -/
inductive WorkspaceMethod where
  | register | readProjectProfile | restrictPolicy | activate | beginClose | unregister
  | fileRead | fileTree | fileSearch | fileIdentity | fileWrite | fileEdit
  | fileCommitPatchFile
  deriving DecidableEq, Repr

def WorkspaceMethod.action : WorkspaceMethod → AuditAction
  | register => .workspaceRegister
  | readProjectProfile => .workspaceReadProjectProfile
  | restrictPolicy => .workspaceRestrictPolicy
  | activate => .workspaceActivate
  | beginClose => .workspaceBeginClose
  | unregister => .workspaceUnregister
  | fileRead => .fileRead
  | fileTree => .fileTree
  | fileSearch => .fileSearch
  | fileIdentity => .fileIdentity
  | fileWrite => .fileWrite
  | fileEdit => .fileEdit
  | fileCommitPatchFile => .fileCommitPatchFile

inductive GitLocalMutation where
  | stage | commit | branchCreate | branchSwitch | branchDelete
  deriving DecidableEq, Repr

def GitLocalMutation.action : GitLocalMutation → AuditAction
  | stage => .gitStage
  | commit => .gitCommit
  | branchCreate => .gitBranchCreate
  | branchSwitch => .gitBranchSwitch
  | branchDelete => .gitBranchDelete

inductive GitWorktreeMutation where
  | create | remove
  deriving DecidableEq, Repr

def GitWorktreeMutation.action : GitWorktreeMutation → AuditAction
  | create => .gitWorktreeCreate
  | remove => .gitWorktreeRemove

inductive GitRemoteMutation where
  | fetch | pull | push
  deriving DecidableEq, Repr

def GitRemoteMutation.action : GitRemoteMutation → AuditAction
  | fetch => .gitFetch
  | pull => .gitPull
  | push => .gitPush

/-- A request after its parameters are parsed, with the host programs of its
path. -/
inductive Request (A : Type) where
  /-- Refused before any path is entered, for its envelope, method or
  parameters. -/
  | refused (id : Option Bytes) (error : RpcError)
  /-- `runtime.hello`. -/
  | hello (requestId : Bytes) (result : Json)
  /-- `trust.audit`, `workspace.checkpoint_audit`, `ci.audit`, `provider.audit`. -/
  | controlAudit (requestId : Bytes) (record : Nat → AuditRecord)
  | inspectRoot (requestId : Bytes) (inspect : HostProgram A (Except RpcError Json))
  | skillSourceInspectRoot (requestId : Bytes) (filesystemBoundaryAvailable : Bool)
      (inspect : HostProgram A (Except SkillSourceRegistryError Json))
  | skillSource (requestId : Bytes) (capabilityId : Option Bytes) (method : SkillSourceMethod)
      (operation : HostProgram A (Option (Except SkillSourceRegistryError Json)))
  | workspace (requestId : Bytes) (capabilityId : Option Bytes) (method : WorkspaceMethod)
      (operation : HostProgram A (Option (Except WorkspaceRegistryError Json)))
  | workspaceCancelExecutions (requestId capabilityId : Bytes)
      (cancelExecutions : HostProgram A (Option (Except WorkspaceRegistryError Unit)))
      (cancelWorkspace : HostProgram A (Option (Except ProcessError Unit)))
  | gitRepositoryIdentity (requestId capabilityId : Bytes) (task : GitTask A GitInspectionError)
  | gitOperation (requestId capabilityId : Bytes) (diff : Bool)
      (task : GitTask A GitInspectionError)
  | gitCheckpoint (requestId capabilityId : Bytes) (patch : Bool)
      (task : GitTask A GitInspectionError)
  | gitLocalMutation (requestId capabilityId : Bytes) (mutation : GitLocalMutation)
      (task : GitTask A GitInspectionError)
  | gitWorktreeMutation (requestId capabilityId : Bytes) (mutation : GitWorktreeMutation)
      (task : GitTask A GitInspectionError)
  | gitRemoteMutation (requestId capabilityId remote refName : Bytes) (inputValid : Bool)
      (mutation : GitRemoteMutation) (task : GitTask A GitInspectionError)
  | gitLog (requestId capabilityId : Bytes) (task : GitTask A GitHistoryError)
  | gitShow (requestId capabilityId : Bytes) (task : GitTask A GitHistoryError)
  | gitRange (requestId capabilityId : Bytes) (task : GitTask A GitHistoryError)
  | gitHistoryDiff (requestId capabilityId : Bytes) (task : GitTask A GitHistoryError)
  | processInspectExecutable (requestId capabilityId : Bytes)
      (available : RuntimePolicy → HostProgram A (Bool × Bool))
  | processRun (requestId capabilityId operationId : Bytes) (task : ProcessTask A)
  | verifyRun (requestId capabilityId operationId : Bytes) (task : ProcessTask A)
  | processOperation (requestId capabilityId operationId : Bytes) (cancel : Bool)
      (requireReady : HostProgram A (Option (Except WorkspaceRegistryError Unit)))
      (operation : HostProgram A (Except ProcessError Json))
  | artifactWrite (requestId : Bytes) (spoolAvailable dataValid : Bool) (create : SpoolCreate A)
      (writeSource : HostProgram A (Option (Except RawSpoolError Json)))
  | artifactRead (requestId operationId : Bytes) (spoolAvailable : Bool)
      (validated : Except RawSpoolError Unit)
      (readInner : HostProgram A (Except RawSpoolError Json))

def dispatchControlAudit (requestId : Bytes) (record : Nat → AuditRecord) : Dispatch A Json := do
  if ← Program.perform (Op.control record) then
    pure (successResponse requestId (.object [(utf8 "ok", .bool true)]))
  else pure (auditUnavailableResponse requestId)

def dispatchOne : Request A → Dispatch A Json
  | .refused id error => pure (errorResponse id error.1 error.2)
  | .hello requestId result => pure (successResponse requestId result)
  | .controlAudit requestId record => dispatchControlAudit requestId record
  | .inspectRoot requestId inspect => dispatchInspectRoot requestId inspect
  | .skillSourceInspectRoot requestId available inspect =>
    dispatchSkillSourceInspectRoot requestId available inspect
  | .skillSource requestId capabilityId method operation =>
    auditedSkillSourceOperation requestId capabilityId method.action operation
  | .workspace requestId capabilityId method operation =>
    auditedWorkspaceOperation requestId capabilityId method.action operation
  | .workspaceCancelExecutions requestId capabilityId cancelExecutions cancelWorkspace =>
    dispatchWorkspaceCancelExecutions requestId capabilityId cancelExecutions cancelWorkspace
  | .gitRepositoryIdentity requestId capabilityId task =>
    dispatchGitRepositoryIdentity requestId capabilityId task
  | .gitOperation requestId capabilityId diff task =>
    dispatchGitOperation requestId capabilityId (if diff then .gitDiff else .gitStatus) task
  | .gitCheckpoint requestId capabilityId patch task =>
    dispatchGitCheckpoint requestId capabilityId patch
      (if patch then .gitCheckpointPatch else .gitCheckpoint) task
  | .gitLocalMutation requestId capabilityId mutation task =>
    dispatchGitLocalMutation requestId capabilityId mutation.action task
  | .gitWorktreeMutation requestId capabilityId mutation task =>
    dispatchGitWorktreeMutation requestId capabilityId mutation.action task
  | .gitRemoteMutation requestId capabilityId remote refName inputValid mutation task =>
    dispatchGitRemoteMutation requestId capabilityId remote refName inputValid mutation.action
      task
  | .gitLog requestId capabilityId task => dispatchGitLog requestId capabilityId task
  | .gitShow requestId capabilityId task => dispatchGitShow requestId capabilityId task
  | .gitRange requestId capabilityId task => dispatchGitRange requestId capabilityId task
  | .gitHistoryDiff requestId capabilityId task =>
    dispatchGitHistoryDiff requestId capabilityId task
  | .processInspectExecutable requestId capabilityId available =>
    dispatchProcessInspectExecutable requestId capabilityId available
  | .processRun requestId capabilityId operationId task =>
    dispatchProcessRunWithOperationId requestId capabilityId operationId task
  | .verifyRun requestId capabilityId operationId task =>
    dispatchVerifyRun requestId capabilityId operationId task
  | .processOperation requestId capabilityId operationId cancel requireReady operation =>
    dispatchProcessOperation requestId capabilityId operationId
      (if cancel then .processCancel else .processStatus) requireReady operation
  | .artifactWrite requestId spoolAvailable dataValid create writeSource =>
    dispatchArtifactWrite requestId spoolAvailable dataValid create writeSource
  | .artifactRead requestId operationId spoolAvailable validated readInner =>
    dispatchArtifactRead requestId operationId spoolAvailable validated readInner

end Programs

end KodeGpt.AuditedDispatch
