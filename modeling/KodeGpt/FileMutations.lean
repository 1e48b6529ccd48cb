import KodeGpt.FallibleActions
import KodeGpt.HostRoots
import KodeGpt.JsonText

/-!
The file mutations of a workspace: atomic writes through a temporary file and the
three commits of a patch, as the system calls they make. The state is what every
directory entry holds, with what it held at every moment before.
-/

namespace KodeGpt.FileMutations

open FallibleActions HostRoots JsonText

inductive Errno where
  | noent
  | exist
  | loop
  | isdir
  | io
  | nosys
  | inval
  | xdev
  | again
  | other (code : Nat)
  deriving DecidableEq, Repr

inductive OpenatBoundaryError where
  | invalidRelativePath
  | boundaryUnavailable
  | boundaryViolation
  | notFound
  | os (error : Errno)
  deriving DecidableEq, Repr

inductive WorkspaceWriteError where
  | invalidPath
  | boundaryUnavailable
  | boundaryViolation
  | notFound
  | notRegularFile
  | invalidUtf8
  | conflict
  | preconditionFailed
  | targetExists
  | io (error : Errno)
  deriving DecidableEq, Repr

def mapBoundaryError : OpenatBoundaryError → WorkspaceWriteError
  | .invalidRelativePath => .invalidPath
  | .boundaryUnavailable => .boundaryUnavailable
  | .boundaryViolation => .boundaryViolation
  | .notFound => .notFound
  | .os error => .io error

inductive FileType where
  | regularFile
  | symlink
  | directory
  | other
  deriving DecidableEq, Repr

/-- An inode; `identity` stands for its device and number. -/
structure Node where
  fileType : FileType
  contents : Bytes
  mode : Nat
  identity : Nat
  deriving DecidableEq, Repr

/-- A name in the directory that a descriptor is open on. -/
abbrev Entry := Nat × String

abbrev Tree := Entry → Option Node

/-- `moments` has every tree there has been, the present one included. -/
structure FileSystem where
  tree : Tree
  moments : List Tree

def FileSystem.start (tree : Tree) : FileSystem := { tree := tree, moments := [tree] }

def FileSystem.change (effect : Tree → Tree) (files : FileSystem) : FileSystem :=
  { tree := effect files.tree, moments := files.moments ++ [effect files.tree] }

/-- The system calls of a mutation. `round` tells the two verifications of an
update apart, and the tries of `openTemp` are counted down. -/
inductive Call where
  | statDestination
  | openTarget (round : Nat)
  | statOpened (round : Nat)
  | readTarget (round : Nat)
  | statTarget (round : Nat)
  | openTemp (left : Nat)
  | tempMode
  | write (offset : Nat)
  | syncFile
  | changeMode
  | syncMode
  | revalidate
  | rename
  | unlinkTarget
  | unlinkTemp
  | syncDirectory
  deriving DecidableEq, Repr

/-- What the host decides while one mutation runs: the directory that the parent
path resolves to, the calls that fail and their codes, the random bytes, and the
mode and the identity of a file that is created. -/
structure System where
  openParent : HostPath → Except Errno Nat
  fault : Call → Option Nat
  random : Nat → Option (Vector UInt8 16)
  createdMode : Nat
  createdIdentity : Nat

abbrev Action := EStateM WorkspaceWriteError FileSystem

namespace System

variable (system : System)

def fails (call : Call) : Bool := (system.fault call).isSome

def errno (call : Call) : Errno := .other ((system.fault call).getD 0)

def check (call : Call) : Action Unit :=
  attempt (system.fails call) (.io (system.errno call)) id

def change (call : Call) (effect : Tree → Tree) : Action Unit :=
  attempt (system.fails call) (.io (system.errno call)) (FileSystem.change effect)

/-- `statat`, which does not follow a link. -/
def statat (call : Call) (entry : Entry) : Action (Except Errno Node) := do
  let files ← get
  if system.fails call then pure (.error (system.errno call))
  else
    match files.tree entry with
    | some node => pure (.ok node)
    | none => pure (.error .noent)

/-- `openat` for reading, which refuses a link. -/
def openat (call : Call) (entry : Entry) : Action (Except Errno Node) := do
  let files ← get
  if system.fails call then pure (.error (system.errno call))
  else
    match files.tree entry with
    | some node => pure (if node.fileType = .symlink then .error .loop else .ok node)
    | none => pure (.error .noent)

def emptyFile : Node :=
  { fileType := .regularFile, contents := [], mode := system.createdMode,
    identity := system.createdIdentity }

/-- `openat` with `O_CREAT | O_EXCL`. -/
def openExclusive (call : Call) (entry : Entry) : Action (Except Errno Unit) := do
  let files ← get
  if system.fails call then pure (.error (system.errno call))
  else if (files.tree entry).isSome then pure (.error .exist)
  else do
    modify (FileSystem.change fun tree => Function.update tree entry (some system.emptyFile))
    pure (.ok ())

end System

def openatError : Errno → OpenatBoundaryError
  | .noent => .notFound
  | .nosys | .inval => .boundaryUnavailable
  | .xdev | .loop | .again => .boundaryViolation
  | error => .os error

def validateRelativePath (path : HostPath) : Except OpenatBoundaryError Unit :=
  if path.isEmpty || isAbsolute path then .error .invalidRelativePath
  else if path.any fun component => component = .parentDir || component = .rootDir then
    .error .invalidRelativePath
  else if path.all (· = .curDir) then .error .invalidRelativePath
  else .ok ()

def fileName (path : HostPath) : Option String :=
  match path.getLast? with
  | some (.normal name) => some name
  | _ => none

def openParentBeneath (system : System) (path : HostPath) : Except OpenatBoundaryError Entry := do
  validateRelativePath path
  match fileName path with
  | none => throw .invalidRelativePath
  | some leafName =>
    if leafName = "" || leafName = "." || leafName = ".." then throw .invalidRelativePath
    else
      let parentPath := if path.dropLast.isEmpty then [.curDir] else path.dropLast
      match system.openParent parentPath with
      | .ok parent => pure (parent, leafName)
      | .error error => throw (openatError error)

def withParent (system : System) (path : HostPath) (body : Entry → Action α) : Action α :=
  match openParentBeneath system path with
  | .ok target => body target
  | .error error => throw (mapBoundaryError error)

def tempPrefix : String := ".kodegpt-tmp-"

/-- `{byte:02x}`. -/
def hexByte (byte : UInt8) : List Char :=
  [Nat.digitChar (byte.toNat / 16), Nat.digitChar (byte.toNat % 16)]

def tempName (random : Vector UInt8 16) : String :=
  tempPrefix ++ String.ofList (random.toList.flatMap hexByte)

def ownerOnly : Nat := 0o600

def permissionBits (node : Node) : Nat := node.mode % 0o1000

def setMode (entry : Entry) (mode : Nat) (tree : Tree) : Tree :=
  Function.update tree entry ((tree entry).map fun node => { node with mode := mode })

def append (entry : Entry) (byte : UInt8) (tree : Tree) : Tree :=
  Function.update tree entry
    ((tree entry).map fun node => { node with contents := node.contents ++ [byte] })

def remove (entry : Entry) (tree : Tree) : Tree := Function.update tree entry none

def renameTo (source target : Entry) (tree : Tree) : Tree :=
  if source = target then tree else remove source (Function.update tree target (tree source))

def createRandomTemp (system : System) (parent : Nat) (mode : Nat) : Nat → Action Entry
  | 0 => throw (.io .exist)
  | left + 1 =>
    match system.random left with
    | none => throw (.io .io)
    | some random => do
      let temp : Entry := (parent, tempName random)
      match ← system.openExclusive (.openTemp left) temp with
      | .ok () => do
        system.change .tempMode (setMode temp mode)
        pure temp
      | .error .exist => createRandomTemp system parent mode left
      | .error error => throw (.io error)

/-- `write_all`, byte by byte: it passes through every partial file there can
be. -/
def writeAll (system : System) (temp : Entry) : Bytes → Nat → Action Unit
  | [], _ => pure ()
  | byte :: rest, offset => do
    system.change (.write offset) (append temp byte)
    writeAll system temp rest (offset + 1)

def renameat (system : System) (source target : Entry) : Action Unit := do
  let files ← get
  onlyIf (files.tree source = none) (throw (.io .noent))
  onlyIf ((files.tree target).map Node.fileType = some .directory) (throw (.io .isdir))
  system.change .rename (renameTo source target)

def renameatNoReplace (system : System) (source target : Entry) : Action Unit := do
  let files ← get
  onlyIf (files.tree source = none) (throw (.io .noent))
  onlyIf (files.tree target ≠ none) (throw .targetExists)
  system.change .rename (renameTo source target)

def unlinkTemp (system : System) (temp : Entry) (files : FileSystem) : FileSystem :=
  if system.fails .unlinkTemp then files else files.change (remove temp)

def destinationMode (system : System) (target : Entry) : Action (Bool × Nat) := do
  match ← system.statat .statDestination target with
  | .ok stat =>
    if stat.fileType = .regularFile then pure (false, permissionBits stat)
    else throw .boundaryViolation
  | .error .noent => pure (true, ownerOnly)
  | .error error => throw (.io error)

def revalidateDestination (system : System) (target : Entry) (created : Bool) : Action Unit := do
  match ← system.statat .revalidate target with
  | .ok stat =>
    onlyIf (created = true ∨ stat.fileType ≠ .regularFile) (throw .boundaryViolation)
  | .error .noent => onlyIf (created = false) (throw .notFound)
  | .error error => throw (.io error)

structure WriteFileResult where
  bytesWritten : Nat
  created : Bool
  deriving DecidableEq, Repr

def writeFileAtomicBeneath (system : System) (path : HostPath) (contents : Bytes) :
    Action WriteFileResult :=
  withParent system path fun target => do
    let (created, mode) ← destinationMode system target
    let temp ← createRandomTemp system target.1 mode 16
    onError
      (do
        writeAll system temp contents 0
        system.check .syncFile
        revalidateDestination system target created
        renameat system temp target)
      (unlinkTemp system temp)
    system.check .syncDirectory
    pure { bytesWritten := contents.length, created := created }

inductive PatchFileAction where
  | create
  | update
  | delete
  deriving DecidableEq, Repr

structure PatchFileCommitResult where
  schemaVersion : Nat
  action : PatchFileAction
  bytesWritten : Nat
  sha256 : Option String
  deriving DecidableEq, Repr

def isSha256Hex (value : String) : Bool :=
  value.utf8ByteSize = 64 &&
    value.toList.all fun char => char.isDigit || ('a' ≤ char && char ≤ 'f')

section Patch

variable (sha256Hex : Bytes → String) (system : System)

/-- The mode of the target, if it is a regular file of UTF-8 text with this
digest. -/
def verifyPatchTarget (round : Nat) (target : Entry) (expectedSha256 : String) : Action Nat := do
  match ← system.openat (.openTarget round) target with
  | .error .noent => throw .notFound
  | .error .loop => throw .boundaryViolation
  | .error error => throw (.io error)
  | .ok opened => do
    system.check (.statOpened round)
    onlyIf (opened.fileType ≠ .regularFile) (throw .notRegularFile)
    system.check (.readTarget round)
    onlyIf (ByteArray.validateUTF8 ⟨opened.contents.toArray⟩ = false) (throw .invalidUtf8)
    onlyIf (sha256Hex opened.contents ≠ expectedSha256) (throw .preconditionFailed)
    match ← system.statat (.statTarget round) target with
    | .error .noent => throw .preconditionFailed
    | .error error => throw (.io error)
    | .ok current => do
      onlyIf (current.fileType ≠ .regularFile ∨ current.identity ≠ opened.identity)
        (throw .preconditionFailed)
      pure (permissionBits current)

def commitPatchCreate (path : HostPath) (contents : Bytes) : Action PatchFileCommitResult :=
  withParent system path fun target => do
    let temp ← createRandomTemp system target.1 ownerOnly 16
    onError
      (do
        writeAll system temp contents 0
        system.check .syncFile
        renameatNoReplace system temp target)
      (unlinkTemp system temp)
    system.check .syncDirectory
    pure
      { schemaVersion := 1, action := .create, bytesWritten := contents.length,
        sha256 := some (sha256Hex contents) }

def commitPatchUpdate (path : HostPath) (expectedSha256 : String) (contents : Bytes) :
    Action PatchFileCommitResult :=
  withParent system path fun target => do
    let _ ← verifyPatchTarget sha256Hex system 0 target expectedSha256
    let temp ← createRandomTemp system target.1 ownerOnly 16
    onError
      (do
        writeAll system temp contents 0
        system.check .syncFile
        let mode ← verifyPatchTarget sha256Hex system 1 target expectedSha256
        system.change .changeMode (setMode temp mode)
        system.check .syncMode
        renameat system temp target)
      (unlinkTemp system temp)
    system.check .syncDirectory
    pure
      { schemaVersion := 1, action := .update, bytesWritten := contents.length,
        sha256 := some (sha256Hex contents) }

def unlinkTarget (target : Entry) : Action Unit := do
  let files ← get
  onlyIf (files.tree target = none) (throw .preconditionFailed)
  onlyIf ((files.tree target).map Node.fileType = some .directory) (throw (.io .isdir))
  system.change .unlinkTarget (remove target)

def commitPatchDelete (path : HostPath) (expectedSha256 : String) :
    Action PatchFileCommitResult :=
  withParent system path fun target => do
    let _ ← verifyPatchTarget sha256Hex system 0 target expectedSha256
    unlinkTarget system target
    system.check .syncDirectory
    pure { schemaVersion := 1, action := .delete, bytesWritten := 0, sha256 := none }

def commitPatchFileBeneath (path : HostPath) (action : PatchFileAction)
    (expectedSha256 : Option String) (content : Option Bytes) : Action PatchFileCommitResult :=
  match action, expectedSha256, content with
  | .create, none, some content => commitPatchCreate sha256Hex system path content
  | .update, some expected, some content =>
    if isSha256Hex expected then commitPatchUpdate sha256Hex system path expected content
    else throw .preconditionFailed
  | .delete, some expected, none =>
    if isSha256Hex expected then commitPatchDelete sha256Hex system path expected
    else throw .preconditionFailed
  | _, _, _ => throw .preconditionFailed

end Patch

end KodeGpt.FileMutations
