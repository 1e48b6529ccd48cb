import Mathlib.Algebra.Order.Ring.Int

/-!
Host paths, the mount table and the file-system answers which root inspection
is made of. A path is the list of its components, as the standard library's
component iterator yields them, so that prefix tests are component-wise.
-/

namespace KodeGpt.HostRoots

inductive Component
  | rootDir
  | curDir
  | parentDir
  | normal (name : String)
  deriving DecidableEq, Repr

abbrev HostPath := List Component

def isAbsolute (path : HostPath) : Bool := path.head? == some .rootDir

/-- `path.starts_with(base)`. -/
def startsWith (path base : HostPath) : Bool := decide (base <+: path)

@[simp] theorem startsWith_iff {path base : HostPath} :
    startsWith path base = true ↔ base <+: path := by
  simp [startsWith]

/-- An absolute right operand replaces the left one, and a `.` that is not
leading is no component. -/
def join (base relative : HostPath) : HostPath :=
  if isAbsolute relative || base.isEmpty then relative
  else base ++ relative.filter (· ≠ .curDir)

structure MountInfoEntry where
  deviceMajor : Nat
  deviceMinor : Nat
  root : HostPath
  mountPoint : HostPath
  deriving DecidableEq, Repr

structure BackingTreeIdentity where
  deviceMajor : Nat
  deviceMinor : Nat
  path : HostPath
  deriving DecidableEq, Repr

inductive MountInfoError
  | io
  | malformed
  | noCoveringMount
  deriving DecidableEq, Repr

def normalizeComponent (normalized : HostPath) : Component → Except MountInfoError HostPath
  | .rootDir | .curDir => .ok normalized
  | .normal part => .ok (normalized ++ [.normal part])
  | .parentDir =>
    if normalized = [.rootDir] then .error .malformed else .ok normalized.dropLast

def normalizeAbsolute (path : HostPath) : Except MountInfoError HostPath :=
  if isAbsolute path then path.foldlM normalizeComponent [.rootDir] else .error .malformed

def maxByKey {α : Type*} (key : α → Nat) (items : List α) : Option α :=
  items.foldl (fun best item =>
    match best with
    | none => some item
    | some current => if key current ≤ key item then some item else some current) none

def backingTreeForPath (entries : List MountInfoEntry) (path : HostPath) :
    Except MountInfoError BackingTreeIdentity := do
  if !isAbsolute path then throw .malformed
  let path ← normalizeAbsolute path
  let covering := entries.filter fun entry => startsWith path entry.mountPoint
  match maxByKey (fun entry => entry.mountPoint.length) covering with
  | none => throw .noCoveringMount
  | some entry =>
    let relative := path.drop entry.mountPoint.length
    let backingPath ← normalizeAbsolute (join entry.root relative)
    return { deviceMajor := entry.deviceMajor, deviceMinor := entry.deviceMinor,
             path := backingPath }

structure Metadata where
  isDir : Bool
  deviceMajor : Nat
  deviceMinor : Nat
  inode : Nat
  deriving DecidableEq, Repr

structure FilesystemIdentity where
  deviceMajor : Nat
  deviceMinor : Nat
  inode : String
  deriving DecidableEq, Repr

def filesystemIdentity (metadata : Metadata) : FilesystemIdentity where
  deviceMajor := metadata.deviceMajor
  deviceMinor := metadata.deviceMinor
  inode := toString metadata.inode

/-- What the host answers to the system calls of root inspection. A failing
call has no answer. `openDirectory` is the open of a directory that is not a
symbolic link, together with the metadata of the opened descriptor. -/
structure Host where
  canonicalize : HostPath → Option HostPath
  metadata : HostPath → Option Metadata
  openDirectory : HostPath → Option Metadata
  mountinfo : Except MountInfoError (List MountInfoEntry)

structure InspectedRoot where
  canonicalRoot : HostPath
  identity : FilesystemIdentity
  deriving DecidableEq, Repr

inductive InspectRootError
  | relativePath
  | io
  | notDirectory
  deriving DecidableEq, Repr

def inspectRoot (host : Host) (path : HostPath) : Except InspectRootError InspectedRoot := do
  if !isAbsolute path then throw .relativePath
  match host.canonicalize path with
  | none => throw .io
  | some canonicalRoot =>
    match host.metadata canonicalRoot with
    | none => throw .io
    | some metadata =>
      if !metadata.isDir then throw .notDirectory
      return { canonicalRoot, identity := filesystemIdentity metadata }

def pathOverlap (left right : HostPath) : Bool :=
  startsWith left right || startsWith right left

/-- What a registry remembers of a root: where it is visible, which backing
tree it shows and which directory it is. -/
structure RootIdentity where
  visible : HostPath
  backing : BackingTreeIdentity
  identity : FilesystemIdentity
  deriving DecidableEq, Repr

def rootsOverlap (existing candidate : RootIdentity) : Bool :=
  if pathOverlap existing.visible candidate.visible then true
  else if existing.backing.deviceMajor = candidate.backing.deviceMajor ∧
      existing.backing.deviceMinor = candidate.backing.deviceMinor ∧
      pathOverlap existing.backing.path candidate.backing.path then true
  else decide (existing.identity = candidate.identity)

theorem pathOverlap_comm (left right : HostPath) :
    pathOverlap left right = pathOverlap right left := by
  simp [pathOverlap, Bool.or_comm]

theorem rootsOverlap_iff {existing candidate : RootIdentity} :
    rootsOverlap existing candidate = true ↔
      pathOverlap existing.visible candidate.visible = true ∨
      (existing.backing.deviceMajor = candidate.backing.deviceMajor ∧
        existing.backing.deviceMinor = candidate.backing.deviceMinor ∧
        pathOverlap existing.backing.path candidate.backing.path = true) ∨
      existing.identity = candidate.identity := by
  unfold rootsOverlap
  split
  · simp [*]
  · split <;> simp [*]

theorem rootsOverlap_comm (existing candidate : RootIdentity) :
    rootsOverlap existing candidate = rootsOverlap candidate existing := by
  apply Bool.eq_iff_iff.mpr
  rw [rootsOverlap_iff, rootsOverlap_iff, pathOverlap_comm existing.visible,
    pathOverlap_comm existing.backing.path, eq_comm (a := existing.backing.deviceMajor),
    eq_comm (a := existing.backing.deviceMinor), eq_comm (a := existing.identity)]

end KodeGpt.HostRoots
