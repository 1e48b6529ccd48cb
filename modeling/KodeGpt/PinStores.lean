import KodeGpt.PinnedSkills
import KodeGpt.TransitionSystem

/-!
The store of pinned skills on disk: a pin fills a temporary directory and renames it, an
unpin removes a snapshot file by file, and a listing reads the manifest of every snapshot.
Each call takes its file-system steps one at a time and may stop after any of them.
-/

namespace KodeGpt.PinStores

open JsObjects KeyedFamily PinnedSkills TransitionSystem

/-- The directories of a skill: a snapshot has its fingerprint as its name, and the temporary
directory of a pin is `.pin-<fingerprint>.<process>.<random>.tmp`. -/
inductive Name where
  | final (fingerprint : JsText)
  | temporary (fingerprint : JsText) (number : Nat)
  deriving DecidableEq

def Name.le : Name → Name → Bool
  | .temporary _ _, _ => true
  | .final left, .final right => compareUtf8 left right
  | .final _, .temporary _ _ => false

inductive PinPhase where
  | checking
  | comparing
  | preparingRoot
  | preparingSkill
  | staging
  | writing (rest : List TreeOperation)
  | rechecking
  | discarding
  | replacing
  | syncing
  | cleaning
  | resolved
  | rejected

inductive UnpinPhase where
  | looking
  | removing
  | listing
  | removingSkill
  | syncing
  | resolved (removed : Bool)
  | rejected

inductive ListPhase where
  | readingRoot
  | skills (pending : List JsText) (collected : List Manifest)
  | entries (skillId : JsText) (pending : List Name) (rest : List JsText)
      (collected : List Manifest)
  | reading (skillId fingerprint : JsText) (pending : List Name) (rest : List JsText)
      (collected : List Manifest)
  | resolved (manifests : List Manifest)
  | rejected

inductive Call where
  | pin (input : ValidatedPinInput) (phase : PinPhase)
  | unpin (skillId fingerprint : JsText) (phase : UnpinPhase)
  | list (phase : ListPhase)
  /-- The arguments were invalid. -/
  | refused

structure State where
  rootExists : Bool
  skills : Family JsText (Family Name Tree)
  /-- The snapshots from which an unpin has removed something, and which still have their
  directory. -/
  torn : List (JsText × JsText)
  calls : Nat → Option Call

def start : State where
  rootExists := false
  skills := ∅
  torn := []
  calls := fun _ => none

def State.entry (s : State) (skillId : JsText) (name : Name) : Option Tree :=
  (s.skills.lookup skillId).bind fun directory => directory.lookup name

def State.setEntry (s : State) (skillId : JsText) (name : Name) (tree : Tree) : State :=
  { s with
    skills := s.skills.insert skillId (((s.skills.lookup skillId).getD ∅).insert name tree) }

def State.eraseEntry (s : State) (skillId : JsText) (name : Name) : State :=
  { s with
    skills := match s.skills.lookup skillId with
      | some directory => s.skills.insert skillId (directory.erase name)
      | none => s.skills }

def State.setCall (s : State) (number : Nat) (call : Call) : State :=
  { s with calls := Function.update s.calls number (some call) }

def unlinkPath (tree : Tree) (path : Path) : Option Tree :=
  if path ∈ tree.files then some { tree with files := tree.files.erase path }
  else if path ∈ tree.directories ∧
      ∀ other ∈ tree.files.keys ++ tree.directories, other.dropLast ≠ path then
    some { tree with directories := tree.directories.filter (· ≠ path) }
  else none

variable (p : Platform)

section Pin

variable (s : State) (number : Nat) (input : ValidatedPinInput)

def temporaryName : Name := .temporary input.manifest.fingerprint number

def finalName : Name := .final input.manifest.fingerprint

def setPin (s : State) (phase : PinPhase) : State := s.setCall number (.pin input phase)

def renamed (s : State) (tree : Tree) : State :=
  { (s.eraseEntry input.manifest.skillId (temporaryName number input)).setEntry
      input.manifest.skillId (finalName input) tree with
    torn := s.torn.filter (· ≠ (input.manifest.skillId, input.manifest.fingerprint)) }

/-- `rm` of the temporary directory comes to its end. -/
def dropTemporary (after : PinPhase) : Option State :=
  match s.entry input.manifest.skillId (temporaryName number input) with
  | none => some (setPin number input s after)
  | some tree =>
    if tree.isEmpty then
      some (setPin number input
        (s.eraseEntry input.manifest.skillId (temporaryName number input)) after)
    else none

def State.stepPin : PinPhase → Option State
  | .checking =>
    match s.entry input.manifest.skillId (finalName input) with
    | none => some (setPin number input s .preparingRoot)
    | some tree =>
      match readManifest p tree input.manifest.skillId input.manifest.fingerprint with
      | .ok _ => some (setPin number input s .comparing)
      | .error _ => some (setPin number input s .rejected)
  | .comparing =>
    match s.entry input.manifest.skillId (finalName input) with
    | none => some (setPin number input s .rejected)
    | some tree =>
      match (load p tree input.manifest.skillId input.manifest.fingerprint).bind fun existing =>
        requireSamePin p existing input with
      | .ok _ => some (setPin number input s .resolved)
      | .error _ => some (setPin number input s .rejected)
  | .preparingRoot => some (setPin number input { s with rootExists := true } .preparingSkill)
  | .preparingSkill =>
    some (setPin number input
      { s with
        rootExists := true
        skills := s.skills.insert input.manifest.skillId
          ((s.skills.lookup input.manifest.skillId).getD ∅) } .staging)
  | .staging =>
    if (s.skills.lookup input.manifest.skillId).isSome ∧
        s.entry input.manifest.skillId (temporaryName number input) = none then
      some (setPin number input
        (s.setEntry input.manifest.skillId (temporaryName number input) Tree.empty)
        (.writing (pinScript input)))
    else some (setPin number input s .cleaning)
  | .writing [] => some (setPin number input s .rechecking)
  | .writing (operation :: rest) =>
    match (s.entry input.manifest.skillId (temporaryName number input)).bind
        fun tree => tree.apply operation with
    | none => some (setPin number input s .cleaning)
    | some tree =>
      some (setPin number input
        (s.setEntry input.manifest.skillId (temporaryName number input) tree) (.writing rest))
  | .rechecking =>
    match s.entry input.manifest.skillId (finalName input) with
    | none => some (setPin number input s .replacing)
    | some tree =>
      match readManifest p tree input.manifest.skillId input.manifest.fingerprint with
      | .ok _ => some (setPin number input s .discarding)
      | .error _ => some (setPin number input s .cleaning)
  | .replacing =>
    match s.entry input.manifest.skillId (temporaryName number input) with
    | none => some (setPin number input s .cleaning)
    | some tree =>
      -- a rename replaces an empty directory
      if (s.entry input.manifest.skillId (finalName input)).any fun old => !old.isEmpty then
        some (setPin number input s .discarding)
      else some (setPin number input (renamed number input s tree) .syncing)
  | .discarding => dropTemporary s number input .comparing
  | .syncing => some (setPin number input s .resolved)
  | .cleaning => dropTemporary s number input .rejected
  | .resolved | .rejected => none

def State.failPin : PinPhase → Option State
  | .checking | .comparing | .preparingRoot | .preparingSkill | .cleaning =>
    some (setPin number input s .rejected)
  | .resolved | .rejected => none
  | _ => some (setPin number input s .cleaning)

end Pin

section Unpin

variable (s : State) (number : Nat) (skillId fingerprint : JsText)

def setUnpin (s : State) (phase : UnpinPhase) : State :=
  s.setCall number (.unpin skillId fingerprint phase)

def State.stepUnpin : UnpinPhase → Option State
  | .looking =>
    match s.entry skillId (.final fingerprint) with
    | none => some (setUnpin number skillId fingerprint s (.resolved false))
    | some _ => some (setUnpin number skillId fingerprint s .removing)
  | .removing =>
    match s.entry skillId (.final fingerprint) with
    | none => some (setUnpin number skillId fingerprint s .rejected)
    | some tree =>
      if tree.isEmpty then
        some (setUnpin number skillId fingerprint
          { s.eraseEntry skillId (.final fingerprint) with
            torn := s.torn.filter (· ≠ (skillId, fingerprint)) } .listing)
      else none
  | .listing =>
    match s.skills.lookup skillId with
    | none => some (setUnpin number skillId fingerprint s .syncing)
    | some directory =>
      if directory.keys = [] then
        some (setUnpin number skillId fingerprint s .removingSkill)
      else some (setUnpin number skillId fingerprint s .syncing)
  | .removingSkill =>
    match s.skills.lookup skillId with
    | none => some (setUnpin number skillId fingerprint s .syncing)
    | some directory =>
      if directory.keys = [] then
        some (setUnpin number skillId fingerprint
          { s with skills := s.skills.erase skillId } .syncing)
      else some (setUnpin number skillId fingerprint s .rejected)
  | .syncing => some (setUnpin number skillId fingerprint s (.resolved true))
  | .resolved _ | .rejected => none

end Unpin

def State.stepList (s : State) : ListPhase → Option ListPhase
  | .readingRoot =>
    if s.rootExists then some (.skills (s.skills.keys.insertionSort fun left right => compareUtf8 left right) [])
    else some (.resolved [])
  | .skills [] collected => some (.resolved collected)
  | .skills (skillId :: rest) collected =>
    if isSkillId skillId then
      match s.skills.lookup skillId with
      | none => some .rejected
      | some directory =>
        some (.entries skillId (directory.keys.insertionSort fun left right => left.le right) rest collected)
    else some .rejected
  | .entries _ [] rest collected => some (.skills rest collected)
  | .entries skillId (.temporary _ _ :: pending) rest collected =>
    some (.entries skillId pending rest collected)
  | .entries skillId (.final fingerprint :: pending) rest collected =>
    if isSha256 fingerprint ∧ (s.entry skillId (.final fingerprint)).any
        fun tree => [manifestFile] ∈ tree.files then
      some (.reading skillId fingerprint pending rest collected)
    else some .rejected
  | .reading skillId fingerprint pending rest collected =>
    match s.entry skillId (.final fingerprint) with
    | none => some .rejected
    | some tree =>
      match readManifest p tree skillId fingerprint with
      | .ok manifest => some (.entries skillId pending rest (collected ++ [manifest]))
      | .error _ => some .rejected
  | .resolved _ | .rejected => none

inductive Event where
  | pin (number : Nat) (input : PinInput) (pinnedAt : JsText)
  | unpin (number : Nat) (skillId fingerprint : JsText)
  | list (number : Nat)
  | step (number : Nat)
  | unlink (number : Nat) (path : Path)
  | fail (number : Nat)

def State.begin (s : State) (number : Nat) (call : Call) : Option State :=
  if (s.calls number).isNone then some (s.setCall number call) else none

def State.step (s : State) (number : Nat) : Call → Option State
  | .pin input phase => s.stepPin p number input phase
  | .unpin skillId fingerprint phase => s.stepUnpin number skillId fingerprint phase
  | .list phase => (s.stepList p phase).map fun next => s.setCall number (.list next)
  | .refused => none

/-- `rm` removes something, in the order in which the file system lists it. -/
def State.unlink (s : State) (number : Nat) (path : Path) : Call → Option State
  | .unpin skillId fingerprint .removing =>
    ((s.entry skillId (.final fingerprint)).bind fun tree => unlinkPath tree path).map fun tree =>
      { s.setEntry skillId (.final fingerprint) tree with
        torn := (skillId, fingerprint) :: s.torn }
  | .pin input .discarding | .pin input .cleaning =>
    ((s.entry input.manifest.skillId (temporaryName number input)).bind
      fun tree => unlinkPath tree path).map fun tree =>
        s.setEntry input.manifest.skillId (temporaryName number input) tree
  | _ => none

def State.fail (s : State) (number : Nat) : Call → Option State
  | .pin input phase => s.failPin number input phase
  | .unpin _ _ (.resolved _) | .unpin _ _ .rejected => none
  | .unpin skillId fingerprint _ => some (setUnpin number skillId fingerprint s .rejected)
  | _ => none

def next (s : State) : Event → Option State
  | .pin number input pinnedAt =>
    s.begin number (match validatePinInput p input pinnedAt with
      | .ok validated => .pin validated .checking
      | .error _ => .refused)
  | .unpin number skillId fingerprint =>
    s.begin number (if isSkillId skillId ∧ isSha256 fingerprint then
      .unpin skillId fingerprint .looking else .refused)
  | .list number => s.begin number (.list .readingRoot)
  | .step number => (s.calls number).bind fun call => s.step p number call
  | .unlink number path => (s.calls number).bind fun call => s.unlink number path call
  | .fail number => (s.calls number).bind fun call => s.fail number call

end KodeGpt.PinStores
