import KodeGpt.FallibleActions
import KodeGpt.GitCommands

/-!
Running git in the sandbox: a child is spawned, registered as an execution and
captured, and any step on the way may fail.
-/

namespace KodeGpt.GitExecutions

open JsonText FallibleActions FilterDrivers GitCommands

inductive GitInspectionError where
  | sandbox
  | registryUnavailable
  | spool
  | captureFailed
  | waitFailed
  | timeout
  | outputLimitExceeded
  | unsafeRepositoryConfig
  | worktreeInputInvalid
  | worktreeUnavailable
  | worktreeTargetExists
  | worktreeBranchMissing
  | worktreeBranchInUse
  | worktreeMetadataInvalid
  | worktreeInconsistent
  | worktreeFailed
  deriving DecidableEq

structure Child where
  killed : Bool
  waited : Bool
  deriving DecidableEq

def Child.Settled (child : Child) : Prop := child.killed = true ∨ child.waited = true

/-- The children that have been spawned, and the registry of executions, whose ids are
never used again. -/
structure Host where
  children : List Child
  executions : List Nat
  nextExecution : Nat
  fresh : ∀ execution ∈ executions, execution < nextExecution

namespace Host

def spawn (host : Host) : Host := { host with children := host.children ++ [⟨false, false⟩] }

def mapChild (host : Host) (child : Nat) (change : Child → Child) : Host :=
  { host with children := host.children.modify child change }

def register (host : Host) : Host where
  children := host.children
  executions := host.nextExecution :: host.executions
  nextExecution := host.nextExecution + 1
  fresh := by
    intro execution hexecution
    obtain rfl | hexecution := List.mem_cons.mp hexecution
    · exact Nat.lt_succ_self _
    · exact Nat.lt_succ_of_lt (host.fresh execution hexecution)

def remove (host : Host) (execution : Nat) : Host where
  children := host.children
  executions := host.executions.filter (· ≠ execution)
  nextExecution := host.nextExecution
  fresh := fun other hother => host.fresh other (List.mem_filter.mp hother).1

end Host

abbrev Action := EStateM GitInspectionError Host

inductive GitOverflowPolicy where
  | legacySpool
  | fail
  | truncate
  deriving DecidableEq

structure GitCommandBudget where
  wallTimeout : Bool
  stdoutSourceBytes : Nat
  stderrSourceBytes : Nat
  previewBytes : Nat
  overflowPolicy : GitOverflowPolicy

def usizeMax : Nat := 2 ^ 64 - 1

inductive StreamKind where
  | stdout
  | stderr
  deriving DecidableEq

/-- What the capturing thread receives next. After the last message the channel is
closed. -/
inductive StreamMessage where
  | data (kind : StreamKind) (bytes : Bytes) (writeFails : Bool)
  | done (readFails : Bool)
  | deadline

structure CaptureResult where
  exitCode : Int
  stdoutPreview : Bytes
  stderrPreview : Bytes
  stdoutTruncated : Bool
  stderrTruncated : Bool
  sourceTruncated : Bool

structure Stream where
  seen : Nat
  preview : Bytes
  truncated : Bool

def appendPreview (preview : Bytes × Bool) (source : Bytes) (limit : Nat) : Bytes × Bool :=
  let accepted := min (limit - preview.1.length) source.length
  (preview.1 ++ source.take accepted, preview.2 || decide (accepted < source.length))

structure Progress where
  stdout : Stream
  stderr : Stream
  completed : Nat
  readFailed : Bool

def Progress.start : Progress := ⟨⟨0, [], false⟩, ⟨0, [], false⟩, 0, false⟩

def Progress.stream (progress : Progress) : StreamKind → Stream
  | .stdout => progress.stdout
  | .stderr => progress.stderr

def Progress.update (progress : Progress) (kind : StreamKind) (stream : Stream) : Progress :=
  match kind with
  | .stdout => { progress with stdout := stream }
  | .stderr => { progress with stderr := stream }

def Progress.result (progress : Progress) (exitCode : Int) (sourceTruncated : Bool) :
    CaptureResult :=
  ⟨exitCode, progress.stdout.preview, progress.stderr.preview, progress.stdout.truncated,
    progress.stderr.truncated, sourceTruncated⟩

def GitCommandBudget.sourceLimit (budget : GitCommandBudget) (kind : StreamKind) : Nat :=
  match budget.overflowPolicy, kind with
  | .legacySpool, _ => usizeMax
  | _, .stdout => budget.stdoutSourceBytes
  | _, .stderr => budget.stderrSourceBytes

def GitCommandBudget.previewLimit (budget : GitCommandBudget) : StreamKind → Nat
  | .stdout => budget.previewBytes
  | .stderr => min budget.previewBytes previewMaxBytes

inductive LoopEnd where
  | aborted (result : Except GitInspectionError CaptureResult)
  | writeFailed
  | drained (progress : Progress)

/-- Data that is accepted in part is the last. With the legacy policy the limit is
never reached. -/
def captureLoop (budget : GitCommandBudget) : List StreamMessage → Progress → LoopEnd
  | messages, progress =>
    if 2 ≤ progress.completed then .drained progress
    else
      match messages with
      | [] => .drained { progress with readFailed := true }
      | .deadline :: rest =>
        if budget.wallTimeout then .aborted (.error .timeout)
        else captureLoop budget rest progress
      | .done readFails :: rest =>
        captureLoop budget rest { progress with
          completed := progress.completed + 1
          readFailed := progress.readFailed || readFails }
      | .data kind bytes writeFails :: rest =>
        let stream := progress.stream kind
        let accepted := min (budget.sourceLimit kind - stream.seen) bytes.length
        if 0 < accepted ∧ writeFails then .writeFailed
        else
          let preview := if accepted = 0 then (stream.preview, stream.truncated) else
            appendPreview (stream.preview, stream.truncated) (bytes.take accepted)
              (budget.previewLimit kind)
          if accepted < bytes.length then
            let captured := progress.update kind ⟨stream.seen + accepted, preview.1, true⟩
            .aborted (match budget.overflowPolicy with
              | .truncate => .ok (captured.result 1 true)
              | _ => .error .outputLimitExceeded)
          else
            captureLoop budget rest
              (progress.update kind ⟨stream.seen + accepted, preview.1, preview.2⟩)

structure Capture where
  pipesMissing : Bool
  messages : List StreamMessage
  joinFails : Bool
  waitFails : Bool
  exitCode : Int

def terminateChild (child : Nat) : Action Unit :=
  modify fun host => host.mapChild child fun found => { found with killed := true }

def captureChildWithBudget (capture : Capture) (budget : GitCommandBudget) (child : Nat) :
    Action CaptureResult := do
  if capture.pipesMissing then throw .captureFailed
  match captureLoop budget capture.messages Progress.start with
  | .aborted result =>
    terminateChild child
    MonadExcept.ofExcept result
  | .writeFailed => throw .spool
  | .drained progress =>
    if progress.readFailed || capture.joinFails then throw .captureFailed
    attempt capture.waitFails .waitFailed fun host =>
      host.mapChild child fun found => { found with waited := true }
    return progress.result capture.exitCode false

/-- How the sandbox answers: a child that cannot be published is killed before the
error is returned. -/
inductive Spawn where
  | refused
  | unpublished
  | published

def spawn : Spawn → Action Nat
  | .refused => throw .sandbox
  | .unpublished => do
    let host ← get
    modify Host.spawn
    terminateChild host.children.length
    throw .sandbox
  | .published => do
    let host ← get
    modify Host.spawn
    return host.children.length

def registerGitExecution (lockPoisoned : Bool) (child : Nat) : Action Nat := do
  if lockPoisoned then
    terminateChild child
    throw .registryUnavailable
  let host ← get
  modify Host.register
  return host.nextExecution

def removeExecution (lockPoisoned : Bool) (execution : Nat) : Action Unit :=
  onlyIf (lockPoisoned = false) (modify fun host => host.remove execution)

structure CommandRun where
  spawn : Spawn
  registrationFails : Bool
  creationFails : Bool
  capture : Capture
  removalFails : Bool
  finishFails : Bool
  artifactTruncated : Bool

structure GitCommandOutput where
  captured : CaptureResult
  artifactTruncated : Bool

def runGitCommandWithBudget (run : CommandRun) (budget : GitCommandBudget) :
    Action GitCommandOutput := do
  let child ← spawn run.spawn
  let execution ← registerGitExecution run.registrationFails child
  if run.creationFails then
    terminateChild child
    removeExecution run.removalFails execution
    throw .spool
  match ← observing (captureChildWithBudget run.capture budget child) with
  | .error error =>
    onlyIf (error ≠ .timeout ∧ error ≠ .outputLimitExceeded) (terminateChild child)
    removeExecution run.removalFails execution
    throw error
  | .ok captured =>
    removeExecution run.removalFails execution
    attempt run.finishFails .spool id
    return ⟨captured, run.artifactTruncated⟩

def legacyBudget (stdoutLimit : Nat) : GitCommandBudget where
  wallTimeout := false
  stdoutSourceBytes := usizeMax
  stderrSourceBytes := usizeMax
  previewBytes := stdoutLimit
  overflowPolicy := .legacySpool

def discoverFilterOverrides (probe : CommandRun) : Action (List Bytes) := do
  let output ← runGitCommandWithBudget probe (legacyBudget previewMaxBytes)
  match acceptProbe output.captured.exitCode output.captured.stdoutPreview
      output.captured.stdoutTruncated output.captured.stderrTruncated output.artifactTruncated with
  | none => throw .unsafeRepositoryConfig
  | some overrides => return overrides

/-- The commands of a function one after another; what the function does next is up to
what it has read. -/
inductive Script where
  | stop
  | command (run : CommandRun) (budget : GitCommandBudget)
      (next : Except GitInspectionError GitCommandOutput → Script)

def Script.run : Script → Action Unit
  | .stop => pure ()
  | .command run budget next => do
    let result ← observing (runGitCommandWithBudget run budget)
    (next result).run

def stagedPatchHeader : Bytes := utf8 "=== KODEGPT STAGED DIFF ===\n"

def worktreePatchHeader : Bytes := utf8 "\n=== KODEGPT WORKTREE DIFF ===\n"

/-- How the two diffs of a patch go, each with the arguments it is given. The artifact
is created while the first of them runs. -/
structure PatchRun where
  probe : CommandRun
  staged : List Bytes → CommandRun
  stagedHeaderFails : Bool
  worktreeHeaderFails : Bool
  worktree : List Bytes → CommandRun
  finishFails : Bool
  artifactTruncated : Bool

def captureDiff (run : CommandRun) (child execution : Nat) : Action CaptureResult := do
  match ← observing (captureChildWithBudget run.capture (legacyBudget previewMaxBytes) child) with
  | .error error =>
    terminateChild child
    removeExecution run.removalFails execution
    throw error
  | .ok captured =>
    removeExecution run.removalFails execution
    if captured.exitCode ≠ 0 then throw .captureFailed
    return captured

def stagedDiff (run : CommandRun) (headerFails : Bool) : Action CaptureResult := do
  let child ← spawn run.spawn
  let execution ← registerGitExecution run.registrationFails child
  if run.creationFails then
    terminateChild child
    removeExecution run.removalFails execution
    throw .spool
  attempt headerFails .spool id
  captureDiff run child execution

def worktreeDiff (run : CommandRun) : Action CaptureResult := do
  let child ← spawn run.spawn
  let execution ← registerGitExecution run.registrationFails child
  captureDiff run child execution

structure GitInspectionResult where
  exitCode : Int
  stdoutPreview : Bytes
  stderrPreview : Bytes
  stdoutTruncated : Bool
  stderrTruncated : Bool
  sourceTruncated : Bool

def patchResult (staged worktree : CaptureResult) (artifactTruncated : Bool) :
    GitInspectionResult :=
  let append := fun preview source => appendPreview preview source previewMaxBytes
  let stdout := append (append (append (append ([], false) stagedPatchHeader)
    staged.stdoutPreview) worktreePatchHeader) worktree.stdoutPreview
  let stderr := append (append ([], false) staged.stderrPreview) worktree.stderrPreview
  { exitCode := 0
    stdoutPreview := stdout.1
    stderrPreview := stderr.1
    stdoutTruncated := stdout.2 || staged.stdoutTruncated || worktree.stdoutTruncated
    stderrTruncated := stderr.2 || staged.stderrTruncated || worktree.stderrTruncated
    sourceTruncated := artifactTruncated }

def runGitCheckpointPatch (run : PatchRun) : Action GitInspectionResult := do
  let overrides ← discoverFilterOverrides run.probe
  let staged ← stagedDiff (run.staged (checkpointPatchArgs true overrides)) run.stagedHeaderFails
  attempt run.worktreeHeaderFails .spool id
  let worktree ← worktreeDiff (run.worktree (checkpointPatchArgs false overrides))
  attempt run.finishFails .spool id
  return patchResult staged worktree run.artifactTruncated

end KodeGpt.GitExecutions
