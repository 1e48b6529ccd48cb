import KodeGpt.GitExecutions

/-!
Creating a worktree: git adds it, and what is checked afterwards may refuse it.
-/

namespace KodeGpt.WorktreeCreation

open JsonText TextEncodings FallibleActions FilterDrivers GitCommands GitExecutions

/-- What a command has returned. -/
abbrev CommandResult := Except GitInspectionError GitCommandOutput

def refuseIf (condition : Prop) [Decidable condition] (error : GitInspectionError) :
    Except GitInspectionError Unit :=
  if condition then throw error else return

theorem refuseIf_eq_ok_iff {condition : Prop} [Decidable condition] {error : GitInspectionError}
    {value : Unit} : refuseIf condition error = .ok value ↔ ¬condition := by
  by_cases hcondition : condition
  · rw [refuseIf, if_pos hcondition]
    exact iff_of_false nofun (not_not_intro hcondition)
  · rw [refuseIf, if_neg hcondition]
    exact iff_of_true rfl hcondition

def trimmedText (stdout : Bytes) : Bytes := encodeUtf8 (trim (fromUtf8Lossy stdout))

def isHexDigit (byte : UInt8) : Bool :=
  (48 ≤ byte && byte ≤ 57) || (65 ≤ byte && byte ≤ 70) || (97 ≤ byte && byte ≤ 102)

def textLines (text : List Char) : List (List Char) :=
  (text.splitOn '\n').map fun line =>
    if line.getLast? = some '\r' then line.dropLast else line

def worktreeBranchExists (showRef : CommandResult) : Except GitInspectionError Bool := do
  let output ← showRef
  return output.captured.exitCode = 0

def worktreeBranchInUse (list : CommandResult) (branch : Bytes) :
    Except GitInspectionError Bool := do
  let output ← list
  refuseIf (output.captured.exitCode ≠ 0 ∨ output.captured.stdoutTruncated ∨
    output.artifactTruncated) .worktreeUnavailable
  return (textLines (fromUtf8Lossy output.captured.stdoutPreview)).any fun line =>
    encodeUtf8 line = utf8 "branch " ++ headRef branch

/-- What is found before; commands are given their arguments. -/
structure Preparation where
  rootAbsolute : Bool
  sandboxAvailable : Bool
  overrides : Except GitInspectionError (List Bytes)
  targetExists : Option Bool
  container : Except GitInspectionError Unit
  showRef : List Bytes → CommandResult
  list : List Bytes → CommandResult

def prepare (found : Preparation) (name branch : Bytes) :
    Except GitInspectionError (List Bytes) := do
  refuseIf (found.rootAbsolute = false) .worktreeUnavailable
  refuseIf (found.sandboxAvailable = false) .sandbox
  let overrides ← found.overrides
  refuseIf (validWorktreeName name = false ∨ validBranchName branch = false) .worktreeInputInvalid
  match found.targetExists with
  | none => throw .worktreeUnavailable
  | some true => throw .worktreeTargetExists
  | some false =>
    found.container
    let branchExists ← worktreeBranchExists (found.showRef (branchExistsArgs branch))
    refuseIf (branchExists = false) .worktreeBranchMissing
    let inUse ← worktreeBranchInUse (found.list branchInUseArgs) branch
    refuseIf (inUse = true) .worktreeBranchInUse
    return overrides

structure Validation where
  directory : Except GitInspectionError Unit
  linkedMetadata : Bool
  sandboxAvailable : Bool
  symbolicRef : List Bytes → CommandResult
  revParse : List Bytes → CommandResult

def validateCreatedWorktree (found : Validation) (branch : Bytes) :
    Except GitInspectionError Bytes := do
  found.directory
  refuseIf (found.linkedMetadata = false) .worktreeMetadataInvalid
  refuseIf (found.sandboxAvailable = false) .sandbox
  let ref ← found.symbolicRef symbolicRefArgs
  refuseIf (ref.captured.exitCode ≠ 0 ∨ trimmedText ref.captured.stdoutPreview ≠ headRef branch)
    .worktreeInconsistent
  let head ← found.revParse revParseArgs
  let oid := trimmedText head.captured.stdoutPreview
  refuseIf (head.captured.exitCode ≠ 0 ∨ oid.length ≠ 40 ∨ oid.all isHexDigit = false)
    .worktreeInconsistent
  return oid

structure Worktrees where
  directories : List Bytes
  registrations : List Bytes
  deriving DecidableEq

/-- Whether git has added the worktree, and what its command has returned. -/
structure Addition where
  added : Bool
  result : CommandResult

structure CreateRun where
  preparation : Preparation
  addition : List Bytes → Addition
  validation : Validation

structure Created where
  name : Bytes
  relativePath : Bytes
  branch : Bytes
  headOid : Bytes

def addWorktree (name : Bytes) (worktrees : Worktrees) : Worktrees where
  directories := name :: worktrees.directories
  registrations := name :: worktrees.registrations

def additionError (stderr : Bytes) : GitInspectionError :=
  if contains stderr (utf8 "is already checked out at") then .worktreeBranchInUse
  else if contains stderr (utf8 "already exists") then .worktreeTargetExists
  else .worktreeFailed

def concludeCreation (result : CommandResult) (found : Validation) (name branch : Bytes) :
    Except GitInspectionError Created := do
  let output ← result
  refuseIf (output.captured.exitCode ≠ 0) (additionError output.captured.stderrPreview)
  let headOid ← validateCreatedWorktree found branch
  return ⟨name, worktreePath name, branch, headOid⟩

def createWorktree (run : CreateRun) (canonicalRoot name branch : Bytes) :
    EStateM GitInspectionError Worktrees Created := do
  let overrides ← MonadExcept.ofExcept (prepare run.preparation name branch)
  let addition := run.addition (worktreeAddArgs canonicalRoot name branch overrides)
  onlyIf (addition.added = true) (modify (addWorktree name))
  MonadExcept.ofExcept (concludeCreation addition.result run.validation name branch)

/-- The call returns the commit of the branch, or leaves the worktrees as they were. -/
def AllOrNothing (run : CreateRun) (canonicalRoot name branch branchHead : Bytes)
    (worktrees : Worktrees) : Prop :=
  (∃ created after, createWorktree run canonicalRoot name branch worktrees = .ok created after ∧
      created.headOid = branchHead) ∨
    finalState (createWorktree run canonicalRoot name branch worktrees) = worktrees

/-- The command of a step has returned with a success. -/
def Succeeds (result : CommandResult) (output : GitCommandOutput) : Prop :=
  result = .ok output ∧ output.captured.exitCode = 0

/-- The checks accept the worktree: nothing that they need fails, `HEAD` is the branch,
and its commit is named by 40 digits. -/
structure Validated (found : Validation) (branch branchHead : Bytes) : Prop where
  directory : found.directory = .ok ()
  linkedMetadata : found.linkedMetadata = true
  sandboxAvailable : found.sandboxAvailable = true
  symbolicRef : ∃ output, Succeeds (found.symbolicRef symbolicRefArgs) output ∧
    trimmedText output.captured.stdoutPreview = headRef branch
  revParse : ∃ output, Succeeds (found.revParse revParseArgs) output ∧
    trimmedText output.captured.stdoutPreview = branchHead
  length : branchHead.length = 40
  digits : branchHead.all isHexDigit = true

theorem validateCreatedWorktree_eq_ok_iff {found : Validation} {branch oid : Bytes} :
    validateCreatedWorktree found branch = .ok oid ↔ Validated found branch oid := by
  constructor
  · intro h
    simp only [validateCreatedWorktree, bind_eq_ok_iff, refuseIf_eq_ok_iff] at h
    obtain ⟨_, hdirectory, _, hmetadata, _, hsandbox, ref, href, _, hbranch, head, hhead, _, hoid,
      heq⟩ := h
    obtain rfl := Except.ok.inj heq
    simp only [not_or, not_not, ne_eq, Bool.not_eq_false] at hmetadata hsandbox hbranch hoid
    exact {
      directory := hdirectory
      linkedMetadata := hmetadata
      sandboxAvailable := hsandbox
      symbolicRef := ⟨ref, ⟨href, hbranch.1⟩, hbranch.2⟩
      revParse := ⟨head, ⟨hhead, hoid.1⟩, rfl⟩
      length := hoid.2.1
      digits := hoid.2.2 }
  · rintro ⟨hdirectory, hmetadata, hsandbox, ⟨ref, ⟨href, hexit⟩, hbranch⟩,
      ⟨head, ⟨hhead, hexit'⟩, rfl⟩, hlength, hdigits⟩
    simp only [validateCreatedWorktree, bind_eq_ok_iff, refuseIf_eq_ok_iff]
    refine ⟨(), hdirectory, (), by simp [hmetadata], (), by simp [hsandbox], ref, href, (), ?_,
      head, hhead, (), ?_, rfl⟩
    · simp [hexit, hbranch]
    · simp [hexit', hlength, hdigits]

/-- Once git has added the worktree, its command returns with a success and the checks
accept the worktree. -/
def Accepted (run : CreateRun) (canonicalRoot name branch branchHead : Bytes) : Prop :=
  ∀ overrides, prepare run.preparation name branch = .ok overrides →
    let addition := run.addition (worktreeAddArgs canonicalRoot name branch overrides)
    addition.added = true →
      (∃ output, Succeeds addition.result output) ∧ Validated run.validation branch branchHead

theorem concludeCreation_eq_ok_iff {result : CommandResult} {found : Validation}
    {name branch : Bytes} {created : Created} :
    concludeCreation result found name branch = .ok created ↔
      (∃ output, Succeeds result output) ∧
        ∃ headOid, Validated found branch headOid ∧
          created = ⟨name, worktreePath name, branch, headOid⟩ := by
  simp only [concludeCreation, bind_eq_ok_iff, refuseIf_eq_ok_iff,
    validateCreatedWorktree_eq_ok_iff, ne_eq, not_not]
  constructor
  · rintro ⟨output, hresult, _, hexit, headOid, hvalidated, heq⟩
    exact ⟨⟨output, hresult, hexit⟩, headOid, hvalidated, (Except.ok.inj heq).symm⟩
  · rintro ⟨⟨output, hresult, hexit⟩, headOid, hvalidated, rfl⟩
    exact ⟨output, hresult, (), hexit, headOid, hvalidated, rfl⟩

theorem addWorktree_ne (name : Bytes) (worktrees : Worktrees) :
    addWorktree name worktrees ≠ worktrees := by
  intro heq
  have hdirectories := congrArg (fun found => found.directories.length) heq
  exact absurd hdirectories (Nat.succ_ne_self _)

theorem ofExcept_apply {α : Type} (result : Except GitInspectionError α) (worktrees : Worktrees) :
    (MonadExcept.ofExcept result : EStateM GitInspectionError Worktrees α) worktrees =
      match result with
      | .ok value => .ok value worktrees
      | .error error => .error error worktrees := by
  cases result <;> rfl

section Prepared

variable {run : CreateRun} {canonicalRoot name branch : Bytes} {overrides : List Bytes}

theorem createWorktree_prepared (hprepare : prepare run.preparation name branch = .ok overrides)
    (worktrees : Worktrees) :
    createWorktree run canonicalRoot name branch worktrees =
      (MonadExcept.ofExcept
        (concludeCreation (run.addition (worktreeAddArgs canonicalRoot name branch overrides)).result
          run.validation name branch) : EStateM GitInspectionError Worktrees Created)
        (if (run.addition (worktreeAddArgs canonicalRoot name branch overrides)).added
          then addWorktree name worktrees else worktrees) := by
  show EStateM.bind (MonadExcept.ofExcept (prepare run.preparation name branch)) _ worktrees = _
  rw [EStateM.bind, ofExcept_apply, hprepare]
  show EStateM.bind (onlyIf _ _) _ worktrees = _
  rw [EStateM.bind]
  by_cases hadded : (run.addition (worktreeAddArgs canonicalRoot name branch overrides)).added = true
  · rw [onlyIf, if_pos hadded, if_pos hadded]
    rfl
  · rw [onlyIf, if_neg hadded, if_neg hadded]
    rfl

end Prepared

theorem finalState_ofExcept {α : Type} (result : Except GitInspectionError α)
    (worktrees : Worktrees) :
    finalState ((MonadExcept.ofExcept result : EStateM GitInspectionError Worktrees α) worktrees) =
      worktrees := by
  cases result <;> rfl

theorem returns_iff {result : Except GitInspectionError Created} {worktrees : Worktrees}
    {branchHead : Bytes} :
    (∃ created after,
      (MonadExcept.ofExcept result : EStateM GitInspectionError Worktrees Created) worktrees =
        .ok created after ∧ created.headOid = branchHead) ↔
      ∃ created, result = .ok created ∧ created.headOid = branchHead := by
  cases result with
  | error error => exact iff_of_false nofun nofun
  | ok value =>
    constructor
    · rintro ⟨created, after, heq, hhead⟩
      obtain ⟨rfl, rfl⟩ := EStateM.Result.ok.inj heq
      exact ⟨value, rfl, hhead⟩
    · rintro ⟨created, heq, hhead⟩
      obtain rfl := Except.ok.inj heq
      exact ⟨value, worktrees, rfl, hhead⟩

/-- A worktree that git has added is reported, or stays: nothing removes it again. -/
theorem allOrNothing_iff (run : CreateRun) (canonicalRoot name branch branchHead : Bytes)
    (worktrees : Worktrees) :
    AllOrNothing run canonicalRoot name branch branchHead worktrees ↔
      Accepted run canonicalRoot name branch branchHead := by
  rw [AllOrNothing, Accepted]
  cases hprepare : prepare run.preparation name branch with
  | error error =>
    refine iff_of_true (Or.inr ?_) nofun
    show finalState (EStateM.bind (MonadExcept.ofExcept _) _ worktrees) = worktrees
    rw [EStateM.bind, ofExcept_apply, hprepare]
    rfl
  | ok overrides =>
    rw [createWorktree_prepared hprepare, finalState_ofExcept, returns_iff]
    have honly (property : List Bytes → Prop) : (∀ found, Except.ok overrides =
        (Except.ok found : Except GitInspectionError (List Bytes)) → property found) ↔
          property overrides :=
      ⟨fun h => h overrides rfl, fun h found heq => Except.ok.inj heq ▸ h⟩
    rw [honly]
    dsimp only
    by_cases hadded :
      (run.addition (worktreeAddArgs canonicalRoot name branch overrides)).added = true
    · rw [if_pos hadded, or_iff_left (addWorktree_ne name worktrees), imp_iff_right hadded]
      simp only [concludeCreation_eq_ok_iff]
      constructor
      · rintro ⟨_, ⟨houtput, headOid, hvalidated, rfl⟩, rfl⟩
        exact ⟨houtput, hvalidated⟩
      · rintro ⟨houtput, hvalidated⟩
        exact ⟨_, ⟨houtput, branchHead, hvalidated, rfl⟩, rfl⟩
    · rw [if_neg hadded]
      exact iff_of_true (Or.inr rfl) fun h => absurd h hadded

def printed (stdout : Bytes) : CommandResult := .ok ⟨⟨0, stdout, [], false, false, false⟩, false⟩

def sha256Head : Bytes := List.replicate 64 97

def sha256Run : CreateRun where
  preparation :=
    { rootAbsolute := true
      sandboxAvailable := true
      overrides := .ok []
      targetExists := some false
      container := .ok ()
      showRef := fun _ => printed []
      list := fun _ => printed (utf8 "worktree /r\nbranch refs/heads/main\n") }
  addition := fun _ => ⟨true, printed []⟩
  validation :=
    { directory := .ok ()
      linkedMetadata := true
      sandboxAvailable := true
      symbolicRef := fun _ => printed (utf8 "refs/heads/topic\n")
      revParse := fun _ => printed (sha256Head ++ [10]) }

theorem sha256_not_allOrNothing : ¬∀ (run : CreateRun) (canonicalRoot name branch branchHead : Bytes)
    (worktrees : Worktrees), AllOrNothing run canonicalRoot name branch branchHead worktrees := by
  intro h
  have haccepted := (allOrNothing_iff _ _ _ _ _ _).mp
    (h sha256Run (utf8 "/r") (utf8 "w") (utf8 "topic") sha256Head ⟨[], []⟩)
  have hprepared : prepare sha256Run.preparation (utf8 "w") (utf8 "topic") = .ok [] := by
    decide +kernel
  exact absurd (haccepted [] hprepared rfl).2.length (by decide)

end KodeGpt.WorktreeCreation
