import KodeGpt.FileMutations
import KodeGpt.TransitionSystem

/-!
An exact edit, an update or a deletion of one file, call by call, while another
writer works on the same tree: in place, by name, or on the directories that the
path leads through.
-/

namespace KodeGpt.ConcurrentMutations

open FileMutations (Entry Errno FileType WorkspaceWriteError PatchFileCommitResult
  mapBoundaryError openatError validateRelativePath fileName tempName ownerOnly)
open HostRoots JsonText TransitionSystem

abbrev Inode := Nat

structure File where
  fileType : FileType
  contents : Bytes
  mode : Nat

/-- `parents` is what `openat2` finds for the path of a parent directory, and
`born` is above the number of every inode that has a name. -/
structure Files where
  parents : HostPath → Except Errno Nat
  entries : Entry → Option Inode
  inodes : Inode → File
  born : Nat
  bounded : ∀ entry inode, entries entry = some inode → inode < born

namespace Files

variable (files : Files)

def link (entry : Entry) (inode : Inode) : Files where
  parents := files.parents
  entries := Function.update files.entries entry (some inode)
  inodes := files.inodes
  born := max files.born (inode + 1)
  bounded := by
    intro other inode' hother
    by_cases hsame : other = entry
    · subst hsame
      rw [Function.update_self] at hother
      obtain rfl := Option.some.inj hother
      exact Nat.lt_of_lt_of_le (Nat.lt_succ_self inode) (Nat.le_max_right ..)
    · rw [Function.update_of_ne hsame] at hother
      exact Nat.lt_of_lt_of_le (files.bounded other inode' hother) (Nat.le_max_left ..)

def unlink (entry : Entry) : Files where
  parents := files.parents
  entries := Function.update files.entries entry none
  inodes := files.inodes
  born := files.born
  bounded := by
    intro other inode hother
    by_cases hsame : other = entry
    · subst hsame
      rw [Function.update_self] at hother
      cases hother
    · rw [Function.update_of_ne hsame] at hother
      exact files.bounded other inode hother

def store (inode : Inode) (file : File) : Files :=
  { files with inodes := Function.update files.inodes inode file }

def redirect (path : HostPath) (parent : Except Errno Nat) : Files :=
  { files with parents := Function.update files.parents path parent }

def rename (source target : Entry) : Files :=
  match files.entries source with
  | none => files
  | some inode =>
    if files.entries target = some inode then files else (files.link target inode).unlink source

def fileAt (entry : Entry) : Option File := (files.entries entry).map files.inodes

def setMode (inode : Inode) (mode : Nat) : Files :=
  files.store inode { files.inodes inode with mode := mode }

def append (inode : Inode) (more : Bytes) : Files :=
  files.store inode
    { files.inodes inode with contents := (files.inodes inode).contents ++ more }

end Files

/-- What the other writer may do. A new name may bring a new inode, or one whose
number was used before. -/
inductive WriterStep where
  | write (inode : Inode) (contents : Bytes)
  | chmod (inode : Inode) (mode : Nat)
  | place (entry : Entry) (inode : Inode) (file : File)
  | rename (source target : Entry)
  | unlink (entry : Entry)
  | redirect (path : HostPath) (parent : Except Errno Nat)

def Files.after (files : Files) : WriterStep → Files
  | .write inode contents => files.store inode { files.inodes inode with contents := contents }
  | .chmod inode mode => files.setMode inode mode
  | .place entry inode file => (files.link entry inode).store inode file
  | .rename source target => files.rename source target
  | .unlink entry => files.unlink entry
  | .redirect path parent => files.redirect path parent

/-- `str::replace`, from left to right; `skip` bytes belong to the match before. -/
def replaceFrom (oldText newText : Bytes) : Nat → Bytes → Bytes
  | _, [] => []
  | skip + 1, _ :: rest => replaceFrom oldText newText skip rest
  | 0, byte :: rest =>
    if oldText.isPrefixOf (byte :: rest) then
      newText ++ replaceFrom oldText newText (oldText.length - 1) rest
    else byte :: replaceFrom oldText newText 0 rest

def replaceAll (text oldText newText : Bytes) : Bytes := replaceFrom oldText newText 0 text

/-- `str::matches`. -/
def matchesFrom (oldText : Bytes) : Nat → Bytes → Nat
  | _, [] => 0
  | skip + 1, _ :: rest => matchesFrom oldText skip rest
  | 0, byte :: rest =>
    if oldText.isPrefixOf (byte :: rest) then
      matchesFrom oldText (oldText.length - 1) rest + 1
    else matchesFrom oldText 0 rest

def matchCount (text oldText : Bytes) : Nat := matchesFrom oldText 0 text

def validUtf8 (text : Bytes) : Bool := ByteArray.validateUTF8 ⟨text.toArray⟩

inductive Operation where
  | edit (oldText newText : Bytes) (expectedReplacements : Nat)
  | update (expectedSha256 : String) (contents : Bytes)
  | delete (expectedSha256 : String)

/-- The file that a path names beneath the root. -/
structure Target where
  parentPath : HostPath
  leafName : String

structure EditFileResult where
  bytesWritten : Nat
  replacements : Nat
  deriving DecidableEq, Repr

inductive Outcome where
  | edited (result : EditFileResult)
  | committed (result : PatchFileCommitResult)

structure Temp where
  name : String
  inode : Inode

inductive Purpose where
  | editing (text : Bytes) (created : Bool)
  | updating

structure Draft where
  parent : Nat
  purpose : Purpose
  mode : Nat
  contents : Bytes

/-- Which reading of the target it is: that of an edit, or one of the
verifications of a patch. -/
inductive Round where
  | edit
  | first (parent : Nat)
  | second (parent : Nat) (temp : Temp)

/-- The system call that is made next, with what is known by then. -/
inductive Phase where
  | openTarget (round : Round)
  | statOpened (round : Round) (inode : Inode)
  | readTarget (round : Round) (inode : Inode) (got : Bytes)
  | statTarget (round : Round) (inode : Inode) (text : Bytes)
  | openParent (text : Option Bytes)
  | statDestination (parent : Nat) (text : Bytes)
  | openTemp (draft : Draft) (left : Nat)
  | tempMode (draft : Draft) (temp : Temp)
  | write (draft : Draft) (temp : Temp) (rest : Bytes)
  | syncFile (draft : Draft) (temp : Temp)
  | revalidate (parent : Nat) (temp : Temp) (text : Bytes) (created : Bool)
  | changeMode (parent : Nat) (temp : Temp) (text : Bytes) (mode : Nat)
  | syncMode (parent : Nat) (temp : Temp) (text : Bytes)
  | rename (parent : Nat) (temp : Temp) (text : Bytes)
  | unlinkTarget (parent : Nat) (text : Bytes)
  | syncDirectory (text : Bytes)
  | unlinkTemp (parent : Nat) (temp : Temp) (error : WorkspaceWriteError)
  | returned (result : Except WorkspaceWriteError (Bytes × Outcome))

/-- What the host decides about one call: the code of its failure, how many bytes
it moves, and the random bytes of a name. -/
structure Circumstances where
  fault : Option Nat
  count : Nat
  random : Option (Vector UInt8 16)

def Circumstances.error (circumstances : Circumstances) : Option Errno :=
  circumstances.fault.map Errno.other

/-- `replaced` is what the target held when it was replaced or removed. -/
structure System where
  files : Files
  target : Target
  operation : Operation
  phase : Phase
  replaced : Option Bytes

inductive Event where
  | call (circumstances : Circumstances)
  | other (step : WriterStep)

def splitPath (path : HostPath) : Except WorkspaceWriteError Target :=
  match validateRelativePath path, fileName path with
  | .error error, _ => .error (mapBoundaryError error)
  | .ok _, none => .error .invalidPath
  | .ok _, some leafName =>
    .ok ⟨if path.dropLast.isEmpty then [.curDir] else path.dropLast, leafName⟩

def started (files : Files) (path : HostPath) (operation : Operation) :
    Except WorkspaceWriteError System :=
  match operation with
  | .edit oldText _ _ =>
    if oldText.isEmpty then .error .conflict
    else (splitPath path).map fun target =>
      ⟨files, target, operation, .openTarget .edit, none⟩
  | .update _ _ | .delete _ =>
    (splitPath path).map fun target => ⟨files, target, operation, .openParent none, none⟩

section Steps

variable (sha256Hex : Bytes → String)

def accepts (operation : Operation) (text : Bytes) : Bool :=
  match operation with
  | .edit oldText _ expectedReplacements => matchCount text oldText = expectedReplacements
  | .update expectedSha256 _ | .delete expectedSha256 => sha256Hex text = expectedSha256

def outcome (operation : Operation) (text : Bytes) : Outcome :=
  match operation with
  | .edit oldText newText _ =>
    .edited ⟨(replaceAll text oldText newText).length, matchCount text oldText⟩
  | .update _ contents => .committed ⟨1, .update, contents.length, some (sha256Hex contents)⟩
  | .delete _ => .committed ⟨1, .delete, 0, none⟩

def fileError : Errno → WorkspaceWriteError
  | .noent => .notFound
  | .loop => .boundaryViolation
  | error => .io error

namespace Round

def parent : Round → Option Nat
  | edit => none
  | first parent | second parent _ => some parent

def fails (round : Round) (error : WorkspaceWriteError) : Phase :=
  match round with
  | second parent temp => .unlinkTemp parent temp error
  | _ => .returned (.error error)

/-- `open_existing_beneath` and `openat` name errors differently. -/
def openError (round : Round) (error : Errno) : WorkspaceWriteError :=
  match round with
  | edit => mapBoundaryError (openatError error)
  | _ => fileError error

end Round

namespace System

variable (s : System)

def entry (parent : Nat) : Entry := (parent, s.target.leafName)

def entryOf (round : Round) : Except Errno Entry :=
  match round.parent with
  | some parent => .ok (s.entry parent)
  | none => (s.files.parents s.target.parentPath).map s.entry

def go (phase : Phase) : System := { s with phase }

def returns (error : WorkspaceWriteError) : System := s.go (.returned (.error error))

def openTarget (round : Round) (circumstances : Circumstances) : System :=
  match circumstances.error, s.entryOf round with
  | some error, _ => s.go (round.fails (round.openError error))
  | none, .error error => s.go (round.fails (round.openError error))
  | none, .ok entry =>
    match s.files.entries entry with
    | none => s.go (round.fails (round.openError .noent))
    | some inode =>
      if (s.files.inodes inode).fileType = .symlink then
        s.go (round.fails (round.openError .loop))
      else s.go (.statOpened round inode)

def statOpened (round : Round) (inode : Inode) (circumstances : Circumstances) : System :=
  match circumstances.error with
  | some error => s.go (round.fails (.io error))
  | none =>
    if (s.files.inodes inode).fileType = .regularFile then s.go (.readTarget round inode [])
    else s.go (round.fails .notRegularFile)

def afterRead (round : Round) (inode : Inode) (text : Bytes) : Phase :=
  if validUtf8 text then
    match round with
    | .edit =>
      if accepts sha256Hex s.operation text then .openParent (some text)
      else .returned (.error .conflict)
    | round =>
      if accepts sha256Hex s.operation text then .statTarget round inode text
      else round.fails .preconditionFailed
  else round.fails .invalidUtf8

/-- `read_to_end` through the descriptor: each call goes on where the one before
has ended, and the first that finds nothing is the last. -/
def readTarget (round : Round) (inode : Inode) (got : Bytes) (circumstances : Circumstances) :
    System :=
  match circumstances.error with
  | some error => s.go (round.fails (.io error))
  | none =>
    match (s.files.inodes inode).contents.drop got.length with
    | [] => s.go (s.afterRead sha256Hex round inode got)
    | more => s.go (.readTarget round inode (got ++ more.take (circumstances.count + 1)))

def afterVerify (round : Round) (text : Bytes) (mode : Nat) : Phase :=
  match round, s.operation with
  | .second parent temp, _ => .changeMode parent temp text mode
  | .first parent, .update _ contents => .openTemp ⟨parent, .updating, ownerOnly, contents⟩ 16
  | .first parent, _ => .unlinkTarget parent text
  | .edit, _ => .openParent (some text)

def statTarget (round : Round) (inode : Inode) (text : Bytes) (circumstances : Circumstances) :
    System :=
  match circumstances.error, s.entryOf round with
  | some error, _ => s.go (round.fails (.io error))
  | none, .error error => s.go (round.fails (.io error))
  | none, .ok entry =>
    match s.files.entries entry with
    | none => s.go (round.fails .preconditionFailed)
    | some current =>
      if (s.files.inodes current).fileType ≠ .regularFile ∨ current ≠ inode then
        s.go (round.fails .preconditionFailed)
      else s.go (s.afterVerify round text ((s.files.inodes current).mode % 0o1000))

def openParent (text : Option Bytes) (circumstances : Circumstances) : System :=
  match circumstances.error, s.files.parents s.target.parentPath with
  | some error, _ => s.returns (mapBoundaryError (openatError error))
  | none, .error error => s.returns (mapBoundaryError (openatError error))
  | none, .ok parent =>
    match text with
    | some text => s.go (.statDestination parent text)
    | none => s.go (.openTarget (.first parent))

def edited (text : Bytes) : Bytes :=
  match s.operation with
  | .edit oldText newText _ => replaceAll text oldText newText
  | _ => text

def statDestination (parent : Nat) (text : Bytes) (circumstances : Circumstances) : System :=
  match circumstances.error, s.files.fileAt (s.entry parent) with
  | some error, _ => s.returns (.io error)
  | none, some file =>
    if file.fileType = .regularFile then
      s.go (.openTemp ⟨parent, .editing text false, file.mode % 0o1000, s.edited text⟩ 16)
    else s.returns .boundaryViolation
  | none, none => s.go (.openTemp ⟨parent, .editing text true, ownerOnly, s.edited text⟩ 16)

def emptyFile : File := ⟨.regularFile, [], ownerOnly⟩

def openTemp (draft : Draft) (left : Nat) (circumstances : Circumstances) : System :=
  match left, circumstances.random with
  | 0, _ => s.returns (.io .exist)
  | _ + 1, none => s.returns (.io .io)
  | left + 1, some random =>
    let name := tempName random
    match circumstances.error, s.files.entries (draft.parent, name) with
    | some error, _ => s.returns (.io error)
    | none, some _ => s.go (.openTemp draft left)
    | none, none =>
      { s with
        files := (s.files.link (draft.parent, name) s.files.born).store s.files.born emptyFile
        phase := .tempMode draft ⟨name, s.files.born⟩ }

def afterWrite (draft : Draft) (temp : Temp) : Bytes → Phase
  | [] => .syncFile draft temp
  | rest => .write draft temp rest

def tempMode (draft : Draft) (temp : Temp) (circumstances : Circumstances) : System :=
  match circumstances.error with
  | some error => s.returns (.io error)
  | none =>
    { s with
      files := s.files.setMode temp.inode draft.mode
      phase := afterWrite draft temp draft.contents }

def write (draft : Draft) (temp : Temp) (rest : Bytes) (circumstances : Circumstances) : System :=
  match circumstances.error with
  | some error => s.go (.unlinkTemp draft.parent temp (.io error))
  | none =>
    { s with
      files := s.files.append temp.inode (rest.take (circumstances.count + 1))
      phase := afterWrite draft temp (rest.drop (circumstances.count + 1)) }

def syncFile (draft : Draft) (temp : Temp) (circumstances : Circumstances) : System :=
  match circumstances.error, draft.purpose with
  | some error, _ => s.go (.unlinkTemp draft.parent temp (.io error))
  | none, .editing text created => s.go (.revalidate draft.parent temp text created)
  | none, .updating => s.go (.openTarget (.second draft.parent temp))

def revalidate (parent : Nat) (temp : Temp) (text : Bytes) (created : Bool)
    (circumstances : Circumstances) : System :=
  match circumstances.error, s.files.fileAt (s.entry parent) with
  | some error, _ => s.go (.unlinkTemp parent temp (.io error))
  | none, some file =>
    if created = true ∨ file.fileType ≠ .regularFile then
      s.go (.unlinkTemp parent temp .boundaryViolation)
    else s.go (.rename parent temp text)
  | none, none =>
    if created then s.go (.rename parent temp text)
    else s.go (.unlinkTemp parent temp .notFound)

def changeMode (parent : Nat) (temp : Temp) (text : Bytes) (mode : Nat)
    (circumstances : Circumstances) : System :=
  match circumstances.error with
  | some error => s.go (.unlinkTemp parent temp (.io error))
  | none =>
    { s with files := s.files.setMode temp.inode mode, phase := .syncMode parent temp text }

def syncMode (parent : Nat) (temp : Temp) (text : Bytes) (circumstances : Circumstances) :
    System :=
  match circumstances.error with
  | some error => s.go (.unlinkTemp parent temp (.io error))
  | none => s.go (.rename parent temp text)

def contentsAt (parent : Nat) : Option Bytes :=
  (s.files.fileAt (s.entry parent)).map File.contents

def isDirectory (parent : Nat) : Bool :=
  (s.files.fileAt (s.entry parent)).any fun file => file.fileType = .directory

def rename (parent : Nat) (temp : Temp) (text : Bytes) (circumstances : Circumstances) : System :=
  match circumstances.error, s.files.entries (parent, temp.name) with
  | some error, _ => s.go (.unlinkTemp parent temp (.io error))
  | none, none => s.go (.unlinkTemp parent temp (.io .noent))
  | none, some _ =>
    if s.isDirectory parent then s.go (.unlinkTemp parent temp (.io .isdir))
    else
      { s with
        files := s.files.rename (parent, temp.name) (s.entry parent)
        phase := .syncDirectory text
        replaced := s.contentsAt parent }

def unlinkTarget (parent : Nat) (text : Bytes) (circumstances : Circumstances) : System :=
  match circumstances.error, s.files.entries (s.entry parent) with
  | some error, _ => s.returns (.io error)
  | none, none => s.returns .preconditionFailed
  | none, some _ =>
    if s.isDirectory parent then s.returns (.io .isdir)
    else
      { s with
        files := s.files.unlink (s.entry parent)
        phase := .syncDirectory text
        replaced := s.contentsAt parent }

def syncDirectory (text : Bytes) (circumstances : Circumstances) : System :=
  match circumstances.error with
  | some error => s.returns (.io error)
  | none => s.go (.returned (.ok (text, outcome sha256Hex s.operation text)))

def unlinkTemp (parent : Nat) (temp : Temp) (error : WorkspaceWriteError)
    (circumstances : Circumstances) : System :=
  match circumstances.error with
  | some _ => s.returns error
  | none => { s with files := s.files.unlink (parent, temp.name) }.returns error

def step (circumstances : Circumstances) : Option System :=
  match s.phase with
  | .openTarget round => some (s.openTarget round circumstances)
  | .statOpened round inode => some (s.statOpened round inode circumstances)
  | .readTarget round inode got => some (s.readTarget sha256Hex round inode got circumstances)
  | .statTarget round inode text => some (s.statTarget round inode text circumstances)
  | .openParent text => some (s.openParent text circumstances)
  | .statDestination parent text => some (s.statDestination parent text circumstances)
  | .openTemp draft left => some (s.openTemp draft left circumstances)
  | .tempMode draft temp => some (s.tempMode draft temp circumstances)
  | .write draft temp rest => some (s.write draft temp rest circumstances)
  | .syncFile draft temp => some (s.syncFile draft temp circumstances)
  | .revalidate parent temp text created =>
    some (s.revalidate parent temp text created circumstances)
  | .changeMode parent temp text mode => some (s.changeMode parent temp text mode circumstances)
  | .syncMode parent temp text => some (s.syncMode parent temp text circumstances)
  | .rename parent temp text => some (s.rename parent temp text circumstances)
  | .unlinkTarget parent text => some (s.unlinkTarget parent text circumstances)
  | .syncDirectory text => some (s.syncDirectory sha256Hex text circumstances)
  | .unlinkTemp parent temp error => some (s.unlinkTemp parent temp error circumstances)
  | .returned _ => none

def next (s : System) : Event → Option System
  | .call circumstances => s.step sha256Hex circumstances
  | .other step => some { s with files := s.files.after step }

end System

end Steps

end KodeGpt.ConcurrentMutations
