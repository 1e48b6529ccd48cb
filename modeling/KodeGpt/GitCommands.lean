import KodeGpt.FilterDrivers

/-!
The commands of git that the runtime composes: inspections, checkpoints, mutations of
the repository and of its worktrees, and what it accepts of their inputs.
-/

namespace KodeGpt.GitCommands

open JsonText GitConfigs FilterDrivers

def slash : UInt8 := 47

def contains (text part : Bytes) : Bool := text.tails.any part.isPrefixOf

/-- A path without a component that is special; the last of `.` in the middle, and what
is between two slashes, is no component. -/
def validStagePath (path : Bytes) : Bool :=
  path ≠ [] && path.length ≤ 4096 && !path.contains 0 && path.head? ≠ some slash &&
    (path.splitOn slash).head? ≠ some (utf8 ".") &&
    (path.splitOn slash).all (· ≠ utf8 "..") &&
    (path.splitOn slash).any fun component => component ≠ [] && component ≠ utf8 "."

def isBranchByte (byte : UInt8) : Bool :=
  32 < byte && byte ≠ 127 && !(utf8 "~^:?*[").contains byte

def validBranchName (name : Bytes) : Bool :=
  name ≠ [] && name.length ≤ 255 && name ≠ utf8 "@" && name.head? ≠ some 45 &&
    name.head? ≠ some 46 && name.head? ≠ some slash && name.getLast? ≠ some 46 &&
    name.getLast? ≠ some slash && !contains name (utf8 "..") && !contains name (utf8 "//") &&
    !contains name (utf8 "@\x7b") && !name.contains 92 && name.all isBranchByte &&
    (name.splitOn slash).all fun component =>
      component ≠ [] && component.head? ≠ some 46 && !(utf8 ".lock").isSuffixOf component

def isAlphanumeric (byte : UInt8) : Bool :=
  (48 ≤ byte && byte ≤ 57) || (65 ≤ byte && byte ≤ 90) || (97 ≤ byte && byte ≤ 122)

def worktreeNameMaxBytes : Nat := 64

def validWorktreeName (name : Bytes) : Bool :=
  name ≠ [] && name.length ≤ worktreeNameMaxBytes && name ≠ utf8 "." && name ≠ utf8 ".." &&
    name.head?.all isAlphanumeric && name.all isDriverByte

inductive GitOperation where
  | status
  | diff
  deriving DecidableEq

def operationWords : GitOperation → List Bytes
  | .status => args ["status", "--porcelain=v1", "--untracked-files=all",
      "--ignore-submodules=all"]
  | .diff => args ["diff", "--no-ext-diff", "--no-textconv", "--ignore-submodules=all"]

def hardenedGitArgs (operation : GitOperation) (filterOverrides : List Bytes) : List Bytes :=
  baseGitArgs ++ filterOverrides ++ operationWords operation

def checkpointStatusWords : List Bytes :=
  args ["status", "--porcelain=v2", "-z", "--branch", "--untracked-files=all",
    "--ignore-submodules=all"]

def checkpointStatusArgs (filterOverrides : List Bytes) : List Bytes :=
  baseGitArgs ++ filterOverrides ++ checkpointStatusWords

def checkpointPatchWords (staged : Bool) : List Bytes :=
  args ["diff"] ++ (if staged then args ["--cached"] else []) ++
    args ["--no-ext-diff", "--no-textconv", "--ignore-submodules=all"]

def checkpointPatchArgs (staged : Bool) (filterOverrides : List Bytes) : List Bytes :=
  baseGitArgs ++ filterOverrides ++ checkpointPatchWords staged

inductive GitLocalMutation where
  | stage (paths : List Bytes)
  | commit (message : Bytes)
  | branchCreate (name : Bytes)
  | branchSwitch (name : Bytes)
  | branchDelete (name : Bytes)
  deriving DecidableEq

def localMutationArgs (mutation : GitLocalMutation) (filterOverrides : List Bytes) :
    Option (List Bytes) :=
  let front := baseGitArgs ++ filterOverrides
  match mutation with
  | .stage paths =>
    if paths = [] ∨ 128 < paths.length ∨ paths.all validStagePath = false then none
    else some (front ++ (args ["add", "--"] ++ paths))
  | .commit message =>
    if message = [] ∨ 4096 < message.length ∨ message.contains 0 then none
    else some (front ++ (args ["-c", "commit.gpgSign=false", "commit", "--no-verify",
      "--no-gpg-sign", "-m"] ++ [message]))
  | .branchCreate name =>
    if validBranchName name then some (front ++ (args ["branch", "--"] ++ [name])) else none
  | .branchSwitch name =>
    if validBranchName name then some (front ++ (args ["switch", "--"] ++ [name])) else none
  | .branchDelete name =>
    if validBranchName name then some (front ++ (args ["branch", "-d", "--"] ++ [name])) else none

def headRef (branch : Bytes) : Bytes := utf8 "refs/heads/" ++ branch

def branchExistsArgs (branch : Bytes) : List Bytes :=
  baseGitArgs ++ (args ["show-ref", "--verify", "--quiet"] ++ [headRef branch])

def branchInUseArgs : List Bytes := baseGitArgs ++ args ["worktree", "list", "--porcelain"]

def worktreePath (name : Bytes) : Bytes := utf8 ".worktrees/" ++ name

def joinPath (root relative : Bytes) : Bytes := root ++ slash :: relative

def worktreeAddArgs (canonicalRoot name branch : Bytes) (filterOverrides : List Bytes) :
    List Bytes :=
  baseGitArgs ++ filterOverrides ++ ([directoryFlag, canonicalRoot] ++ args ["worktree", "add"] ++
    [joinPath canonicalRoot (worktreePath name), branch])

def worktreeRemoveArgs (canonicalRoot name : Bytes) (filterOverrides : List Bytes) : List Bytes :=
  baseGitArgs ++ filterOverrides ++ ([directoryFlag, canonicalRoot] ++
    args ["worktree", "remove"] ++ [joinPath canonicalRoot (worktreePath name)])

def symbolicRefArgs : List Bytes := baseGitArgs ++ args ["symbolic-ref", "--quiet", "HEAD"]

def revParseArgs : List Bytes := baseGitArgs ++ args ["rev-parse", "--verify", "HEAD"]

end KodeGpt.GitCommands
