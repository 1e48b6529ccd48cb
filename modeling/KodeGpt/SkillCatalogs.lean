import KodeGpt.PinStores

/-!
The catalog of skills: live skills are discovered in the sources and their bundles are built
from what the sources list and read; a lookup tries the live bundle first and falls back to
the pinned snapshot.
-/

namespace KodeGpt.SkillCatalogs

open JsObjects KeyedFamily NodePaths PinnedSkills
open JsonText (Bytes)
open PinStores (Name)

def maxSkillsPerSource : Nat := 1000

def maxLoadedResources : Nat := 64

def sourceUnavailable : SkillError := ⟨.sourceUnavailable, "Skill source operation failed"⟩

def skillNotFound : SkillError := ⟨.notFound, "Skill was not found"⟩

def fingerprintMismatch : SkillError :=
  ⟨.fingerprintMismatch, "Skill fingerprint does not match"⟩

def resourceUnsupported : SkillError := ⟨.resourceUnsupported, "Skill resource is unsupported"⟩

def loadLimit : SkillError := ⟨.loadLimitExceeded, "Skill load limit exceeded"⟩

def workspaceRequired : SkillError :=
  ⟨.workspaceRequired, "Skill requires its READY workspace scope"⟩

def workspaceMismatch : SkillError :=
  ⟨.workspaceMismatch, "Skill belongs to a different READY workspace"⟩

def isUnavailableSourceError (error : SkillError) : Bool := error.code = .sourceUnavailable

inductive Failure where
  | skill (error : SkillError)
  | other

def sourceCall {α : Type} : Except Failure α → Except SkillError α
  | .ok value => .ok value
  | .error (.skill error) => .error error
  | .error .other => .error sourceUnavailable

structure Source where
  sourceId : JsText
  valid : isSourceId sourceId = true

/-- The stores give every source its own identifier. -/
structure SourceList where
  sources : List Source
  unique : (sources.map Source.sourceId).Nodup

inductive EntryKind where
  | file
  | directory
  | symlink
  | other
  deriving DecidableEq

structure TreeEntry where
  path : JsText
  kind : EntryKind
  sizeBytes : Int

/-- The adapters refuse a listing with a path that occurs twice. -/
structure TreeResult where
  entries : List TreeEntry
  truncated : Bool
  unique : (entries.map TreeEntry.path).Nodup

structure ReadResult where
  bytes : Bytes
  bytesRead : Int
  eof : Bool

/-- A state of the live sources, as one scope sees it. The answers need not fit together: a
file may be read with another size than it is listed with. -/
structure View where
  listSources : Except Failure SourceList
  tree : JsText → JsText → Except Failure TreeResult
  readBytes : JsText → JsText → Nat → Except Failure ReadResult

/-- The live sources under a workspace or without one. -/
structure SourceManager (WorkspaceId : Type) where
  view : Option WorkspaceId → View
  listReadyWorkspaceIds : Option (Except Failure (List WorkspaceId))

inductive ParseReason where
  | invalid
  | descriptorSizeLimit
  deriving DecidableEq

structure ParsedDocument (Details : Type) where
  name : JsText
  description : JsText
  details : Details

/-- What the catalog takes from elsewhere: the YAML reader with the schema of the front
matter, and the analysis of a document. -/
structure Reader (Details Report : Type) where
  frontmatter : Bytes → Except ParseReason (ParsedDocument Details)
  analyze : ParsedDocument Details → Report

def isNameUnit (unit : UInt16) : Bool := (97 ≤ unit && unit ≤ 122) || (48 ≤ unit && unit ≤ 57)

def validSkillName (name : JsText) : Bool :=
  name.length ≤ 64 && (name.splitOn 45).all fun word => word ≠ [] && word.all isNameUnit

variable {WorkspaceId Details Report : Type} [DecidableEq WorkspaceId]
  (p : Platform) (reader : Reader Details Report)

def parseSkillDocument (bytes : Bytes) (directoryName : JsText) :
    Except ParseReason (ParsedDocument Details) :=
  if skillMdMaxBytes < bytes.length then .error .descriptorSizeLimit
  else
    match reader.frontmatter bytes with
    | .error reason => .error reason
    | .ok parsed =>
      if validSkillName parsed.name ∧ parsed.name = directoryName then .ok parsed
      else .error .invalid

inductive TruncationReason where
  | sourceEntryLimit
  | skillCountLimit
  | descriptorSizeLimit
  | sourceUnavailable
  deriving DecidableEq

def truncationReasonOrder : List TruncationReason :=
  [.sourceEntryLimit, .skillCountLimit, .descriptorSizeLimit, .sourceUnavailable]

structure DiscoveredSkill (Details Report : Type) where
  skillId : JsText
  name : JsText
  description : JsText
  sourceId : JsText
  descriptorFingerprint : JsText
  nameCollision : Bool
  compatibility : Report
  relativeDirectory : JsText
  parsed : ParsedDocument Details

structure Discovery (Details Report : Type) where
  skills : List (DiscoveredSkill Details Report)
  sourceIds : List JsText
  truncationReasons : List TruncationReason

def documentPath (relativeDirectory : JsText) : JsText := relativeDirectory ++ slash :: skillFile

def TreeResult.find (tree : TreeResult) (path : JsText) : Option TreeEntry :=
  tree.entries.find? fun entry => entry.path = path

/-- The directories at the top of a source that have a `SKILL.md`. -/
def candidates (tree : TreeResult) : List JsText :=
  (((tree.entries.filter fun entry => !entry.path.contains slash && entry.kind = .directory).filter
    fun entry => ((tree.find (documentPath entry.path)).map TreeEntry.kind) = some .file).map
      TreeEntry.path).insertionSort fun left right => compareUtf8 left right

def discoveredSkill (sourceId relativeDirectory : JsText) (bytes : Bytes)
    (parsed : ParsedDocument Details) : DiscoveredSkill Details Report where
  skillId := deriveSkillId p sourceId parsed.name
  name := parsed.name
  description := parsed.description
  sourceId
  descriptorFingerprint := p.sha256 bytes
  nameCollision := false
  compatibility := reader.analyze parsed
  relativeDirectory
  parsed

def discoverCandidates (view : View) (sourceId : JsText) (tree : TreeResult) : List JsText →
    Except SkillError (List (DiscoveredSkill Details Report) × List TruncationReason)
  | [] => .ok ([], [])
  | directory :: rest =>
    if (skillMdMaxBytes : Int) <
        ((tree.find (documentPath directory)).map TreeEntry.sizeBytes).getD 0 then do
      let (skills, reasons) ← discoverCandidates view sourceId tree rest
      .ok (skills, .descriptorSizeLimit :: reasons)
    else
      match sourceCall (view.readBytes sourceId (documentPath directory) skillMdMaxBytes) with
      | .error error =>
        if isUnavailableSourceError error then .ok ([], [.sourceUnavailable]) else .error error
      | .ok read => do
        let (skills, reasons) ← discoverCandidates view sourceId tree rest
        if read.eof then
          match parseSkillDocument reader read.bytes directory with
          | .ok parsed =>
            .ok (discoveredSkill p reader sourceId directory read.bytes parsed :: skills, reasons)
          | .error .descriptorSizeLimit => .ok (skills, .descriptorSizeLimit :: reasons)
          | .error .invalid => .ok (skills, reasons)
        else .ok (skills, .descriptorSizeLimit :: reasons)

def discoverSource (view : View) (sourceId : JsText) :
    Except SkillError (List (DiscoveredSkill Details Report) × List TruncationReason) :=
  match sourceCall (view.tree sourceId dotName) with
  | .error error =>
    if isUnavailableSourceError error then .ok ([], [.sourceUnavailable]) else .error error
  | .ok tree => do
    let (skills, reasons) ←
      discoverCandidates p reader view sourceId tree ((candidates tree).take maxSkillsPerSource)
    .ok (skills, (if tree.truncated then [.sourceEntryLimit] else []) ++
      (if maxSkillsPerSource < (candidates tree).length then [.skillCountLimit] else []) ++ reasons)

def discoverSources (view : View) : List JsText →
    Except SkillError (List (DiscoveredSkill Details Report) × List TruncationReason)
  | [] => .ok ([], [])
  | sourceId :: rest => do
    let (skills, reasons) ← discoverSource p reader view sourceId
    let (others, later) ← discoverSources view rest
    .ok (skills ++ others, reasons ++ later)

def markCollisions (skills : List (DiscoveredSkill Details Report)) :
    List (DiscoveredSkill Details Report) :=
  skills.map fun skill => { skill with
    nameCollision := decide (1 < (skills.filter fun other => other.name = skill.name).length) }

def compareAll : List (JsText × JsText) → Bool
  | [] => true
  | (left, right) :: rest => if left = right then compareAll rest else compareUtf8 left right

def sortDiscovered (skills : List (DiscoveredSkill Details Report)) :
    List (DiscoveredSkill Details Report) :=
  skills.insertionSort fun left right => compareAll
    [(left.name, right.name), (left.sourceId, right.sourceId), (left.skillId, right.skillId)]

/-- `#discover` of a catalog that tolerates unavailable sources. -/
def discover (view : View) : Except SkillError (Discovery Details Report) := do
  let list ← sourceCall view.listSources
  let sourceIds := (list.sources.map Source.sourceId).insertionSort
    fun left right => compareUtf8 left right
  let (skills, reasons) ← discoverSources p reader view sourceIds
  .ok
    { skills := sortDiscovered (markCollisions skills)
      sourceIds
      truncationReasons := truncationReasonOrder.filter fun reason => reason ∈ reasons }

structure BundleFile where
  path : JsText
  bytes : Bytes
  sha256 : JsText
  deriving DecidableEq

structure Bundle (Details Report : Type) where
  skill : DiscoveredSkill Details Report
  skillDocument : Bytes
  files : List BundleFile
  bundleFingerprint : JsText

/-- A file of the tree with its path below the directory of the skill. -/
structure RegularFile where
  relativePath : JsText
  path : JsText
  sizeBytes : Int

def regularFiles (relativeDirectory : JsText) (entries : List TreeEntry) : List RegularFile :=
  (((entries.filter fun entry => entry.path.drop (relativeDirectory.length + 1) ≠ []).filter
    fun entry => entry.kind = .file).map fun entry =>
      { relativePath := entry.path.drop (relativeDirectory.length + 1), path := entry.path,
        sizeBytes := entry.sizeBytes : RegularFile }).insertionSort
          fun left right => compareUtf8 left.relativePath right.relativePath

def readFiles (view : View) (sourceId : JsText) : Nat → List RegularFile →
    Except SkillError (List BundleFile)
  | _, [] => .ok []
  | total, file :: rest => do
    let read ← sourceCall (view.readBytes sourceId file.path (max 1 file.sizeBytes.toNat))
    requireThat (read.eof = true ∧ read.bytesRead = file.sizeBytes ∧
      (read.bytes.length : Int) = file.sizeBytes) bundleInvalid
    requireThat (total + read.bytes.length ≤ skillBundleMaxBytes) loadLimit
    let later ← readFiles view sourceId (total + read.bytes.length) rest
    .ok (⟨file.relativePath, read.bytes, p.sha256 read.bytes⟩ :: later)

def bundleRecord (file : BundleFile) : FileRecord where
  path := file.path
  bytes := file.bytes.length
  sha256 := file.sha256

def checkListing (relativeDirectory : JsText) (tree : TreeResult) : Except SkillError Unit := do
  requireThat (tree.truncated = false) loadLimit
  requireThat (∀ entry ∈ tree.entries, (relativeDirectory ++ [slash]) <+: entry.path) bundleInvalid
  requireThat (∀ entry ∈ tree.entries, entry.path.drop (relativeDirectory.length + 1) ≠ [] →
    entry.kind ≠ .symlink ∧ entry.kind ≠ .other) resourceUnsupported
  let files := regularFiles relativeDirectory tree.entries
  requireThat (skillFile ∈ files.map RegularFile.relativePath) bundleInvalid
  requireThat ((files.filter fun file => file.relativePath ≠ skillFile).length ≤
    maxResourcesPerSkill) loadLimit
  requireThat (∀ file ∈ files, 0 ≤ file.sizeBytes ∧ file.sizeBytes ≤ maxSafeInteger) bundleInvalid
  requireThat ((files.map RegularFile.sizeBytes).sum ≤ skillBundleMaxBytes) loadLimit

def buildBundle (view : View) (skill : DiscoveredSkill Details Report) :
    Except SkillError (Bundle Details Report) := do
  let tree ← sourceCall (view.tree skill.sourceId skill.relativeDirectory)
  checkListing skill.relativeDirectory tree
  let files ← readFiles p view skill.sourceId 0 (regularFiles skill.relativeDirectory tree.entries)
  match files.find? fun file => file.path = skillFile with
  | none => .error bundleInvalid
  | some document =>
    requireThat (document.sha256 = skill.descriptorFingerprint) fingerprintMismatch
    let bundleFingerprint ← fingerprintSkillBundle p (files.map bundleRecord)
    .ok { skill, skillDocument := document.bytes, files, bundleFingerprint }

/-- `pins.list` on a store that nobody else uses meanwhile. -/
def readManifests (s : PinStores.State) (skillId : JsText) : List Name →
    Except SkillError (List Manifest)
  | [] => .ok []
  | .temporary _ _ :: rest => readManifests s skillId rest
  | .final fingerprint :: rest => do
    requireThat (isSha256 fingerprint) pinInvalid
    match s.entry skillId (.final fingerprint) with
    | none => .error pinInvalid
    | some tree =>
      let manifest ← readManifest p tree skillId fingerprint
      let later ← readManifests s skillId rest
      .ok (manifest :: later)

def readSkills (s : PinStores.State) : List JsText → Except SkillError (List Manifest)
  | [] => .ok []
  | skillId :: rest => do
    requireThat (isSkillId skillId) pinInvalid
    match s.skills.lookup skillId with
    | none => .error pinInvalid
    | some directory =>
      let manifests ← readManifests p s skillId
        (directory.keys.insertionSort fun left right => left.le right)
      let later ← readSkills s rest
      .ok (manifests ++ later)

def listPins (s : PinStores.State) : Except SkillError (List Manifest) :=
  if s.rootExists then
    readSkills p s (s.skills.keys.insertionSort fun left right => compareUtf8 left right)
  else .ok []

def loadPin (s : PinStores.State) (skillId fingerprint : JsText) : Except SkillError RawLoad :=
  if isSkillId skillId ∧ isSha256 fingerprint then
    match s.entry skillId (.final fingerprint) with
    | none => .error pinNotFound
    | some tree => load p tree skillId fingerprint
  else .error pinInvalid

def parsePinnedSkillDocument (pinned : RawLoad) : Except SkillError (ParsedDocument Details) :=
  match parseSkillDocument reader pinned.skillDocument pinned.manifest.name with
  | .error _ => .error bundleInvalid
  | .ok parsed =>
    if parsed.description = pinned.manifest.description then .ok parsed else .error bundleInvalid

inductive Availability where
  | live
  | pinned
  | livePinned
  deriving DecidableEq

structure CatalogEntry (Report : Type) where
  skillId : JsText
  name : JsText
  description : JsText
  sourceId : JsText
  fingerprint : JsText
  descriptorFingerprint : JsText
  nameCollision : Bool
  compatibility : Report
  availability : Availability
  pinned : Bool

/-- The plan, the requirement graph and the front matter are functions of the document and
the report; the kind of a resource and whether it is eligible as text are functions of its
bytes. -/
structure Inspection (Details Report : Type) where
  skill : CatalogEntry Report
  parsed : ParsedDocument Details
  resources : List FileRecord
  bundleBytes : Nat

structure CatalogRawLoad (Report : Type) where
  skill : CatalogEntry Report
  skillDocument : Bytes
  resources : List Resource

structure Request (WorkspaceId : Type) where
  skillId : JsText
  fingerprint : Option JsText
  workspaceId : Option WorkspaceId

def entryFromBundle (bundle : Bundle Details Report) (pinned : Bool) : CatalogEntry Report where
  skillId := bundle.skill.skillId
  name := bundle.skill.name
  description := bundle.skill.description
  sourceId := bundle.skill.sourceId
  fingerprint := bundle.bundleFingerprint
  descriptorFingerprint := bundle.skill.descriptorFingerprint
  nameCollision := bundle.skill.nameCollision
  compatibility := bundle.skill.compatibility
  availability := if pinned then .livePinned else .live
  pinned

def sortedResources (records : List FileRecord) : List FileRecord :=
  sortRecords (records.filter fun record => record.path ≠ skillFile)

def inspectionFromBundle (bundle : Bundle Details Report) (pinned : Bool) :
    Inspection Details Report where
  skill := entryFromBundle bundle pinned
  parsed := bundle.skill.parsed
  resources := sortedResources (bundle.files.map bundleRecord)
  bundleBytes := (bundle.files.map fun file => file.bytes.length).sum

def entryFromPinnedLoad (pinned : RawLoad) : Except SkillError (CatalogEntry Report) := do
  match pinned.manifest.files.find? fun file => file.path = skillFile with
  | none => .error bundleInvalid
  | some document =>
    let parsed ← parsePinnedSkillDocument reader pinned
    .ok
      { skillId := pinned.manifest.skillId
        name := pinned.manifest.name
        description := pinned.manifest.description
        sourceId := pinned.manifest.sourceId
        fingerprint := pinned.manifest.fingerprint
        descriptorFingerprint := document.sha256
        nameCollision := false
        compatibility := reader.analyze parsed
        availability := .pinned
        pinned := true }

def resourceRecord (resource : Resource) : FileRecord where
  path := resource.path
  bytes := resource.bytes.length
  sha256 := resource.sha256

def inspectionFromPinned (pinned : RawLoad) : Except SkillError (Inspection Details Report) := do
  let parsed ← parsePinnedSkillDocument reader pinned
  let skill ← entryFromPinnedLoad reader pinned
  .ok
    { skill
      parsed
      resources := sortRecords (pinned.resources.map resourceRecord)
      bundleBytes := (pinned.manifest.files.map FileRecord.bytes).sum }

def validateRequestedResources (requestedPaths : Option (List JsText))
    (availablePaths : List JsText) : Except SkillError (List JsText) := do
  let requested := requestedPaths.getD []
  requireThat (requested.length ≤ maxLoadedResources) loadLimit
  requireThat requested.Nodup resourceUnsupported
  requireThat (∀ path ∈ requested, path ∈ availablePaths) resourceUnsupported
  .ok (requested.insertionSort fun left right => compareUtf8 left right)

def pickResources (available : List Resource) : List JsText → Except SkillError (List Resource)
  | [] => .ok []
  | path :: rest =>
    match available.find? fun resource => resource.path = path with
    | none => .error resourceUnsupported
    | some resource => do
      let later ← pickResources available rest
      .ok (resource :: later)

def bundleResource (file : BundleFile) : Resource := ⟨file.path, file.bytes, file.sha256⟩

def rawLoadFromBundle (bundle : Bundle Details Report) (pinned : Bool)
    (requestedPaths : Option (List JsText)) : Except SkillError (CatalogRawLoad Report) := do
  let requested ← validateRequestedResources requestedPaths
    ((sortedResources (bundle.files.map bundleRecord)).map FileRecord.path)
  let resources ← pickResources (bundle.files.map bundleResource) requested
  .ok { skill := entryFromBundle bundle pinned, skillDocument := bundle.skillDocument, resources }

def rawLoadFromPinned (pinned : RawLoad) (requestedPaths : Option (List JsText)) :
    Except SkillError (CatalogRawLoad Report) := do
  let requested ← validateRequestedResources requestedPaths (pinned.resources.map Resource.path)
  let skill ← entryFromPinnedLoad reader pinned
  let resources ← pickResources pinned.resources requested
  .ok { skill, skillDocument := pinned.skillDocument, resources }

variable (manager : SourceManager WorkspaceId) (pins : Option PinStores.State)

def hasPinned (skillId fingerprint : JsText) : Except SkillError Bool :=
  match pins with
  | none => .ok false
  | some s => do
    let manifests ← listPins p s
    .ok (manifests.any fun manifest =>
      manifest.skillId = skillId && manifest.fingerprint = fingerprint)

def newestFirst (left right : Manifest) : Bool :=
  if left.pinnedAt = right.pinnedAt then compareUtf8 left.fingerprint right.fingerprint
  else compareUtf8 right.pinnedAt left.pinnedAt

def loadPinned (skillId : JsText) (fingerprint : Option JsText) :
    Except SkillError (Option RawLoad) :=
  match pins with
  | none => .ok none
  | some s =>
    match fingerprint with
    | some fingerprint =>
      match loadPin p s skillId fingerprint with
      | .ok pinned => .ok (some pinned)
      | .error error => if error.code = .notFound then .ok none else .error error
    | none => do
      let manifests ← listPins p s
      match ((manifests.filter fun manifest => manifest.skillId = skillId).insertionSort
          fun left right => newestFirst left right).head? with
      | none => .ok none
      | some selected =>
        let pinned ← loadPin p s selected.skillId selected.fingerprint
        .ok (some pinned)

def scopeErrorOf (requested : Option WorkspaceId) (skillId : JsText) : List WorkspaceId →
    Except SkillError (Option SkillError)
  | [] => .ok none
  | workspaceId :: rest =>
    if requested = some workspaceId then scopeErrorOf requested skillId rest
    else do
      let discovery ← discover p reader (manager.view (some workspaceId))
      if discovery.skills.any fun skill => skill.skillId = skillId then
        .ok (some (if requested = none then workspaceRequired else workspaceMismatch))
      else scopeErrorOf requested skillId rest

def workspaceScopeError (skillId : JsText) (requested : Option WorkspaceId) :
    Except SkillError (Option SkillError) :=
  match manager.listReadyWorkspaceIds with
  | none => .ok none
  | some listReady => do
    let workspaceIds ← sourceCall listReady
    scopeErrorOf p reader manager requested skillId workspaceIds

/-- The live bundle that a lookup is answered with, if there is one. An unavailable bundle is
no answer. -/
def liveBundle (request : Request WorkspaceId) (liveSkill : Option (DiscoveredSkill Details Report)) :
    Except SkillError (Option (Bundle Details Report × Bool)) :=
  match liveSkill with
  | none => .ok none
  | some skill =>
    match buildBundle p (manager.view request.workspaceId) skill with
    | .error error => if isUnavailableSourceError error then .ok none else .error error
    | .ok bundle =>
      if request.fingerprint = none ∨ request.fingerprint = some bundle.bundleFingerprint then
        match hasPinned p pins request.skillId bundle.bundleFingerprint with
        | .ok pinned => .ok (some (bundle, pinned))
        | .error error => if isUnavailableSourceError error then .ok none else .error error
      else .ok none

/-- What is thrown when neither a live bundle nor a pin answers. Without a fingerprint a live
skill gets here only when its bundle was unavailable. -/
def missing (request : Request WorkspaceId) (discovery : Discovery Details Report)
    (liveSkill : Option (DiscoveredSkill Details Report)) {α : Type} : Except SkillError α := do
  if liveSkill.isSome ∧ request.fingerprint.isSome then .error fingerprintMismatch
  else
    match ← workspaceScopeError p reader manager request.skillId request.workspaceId with
    | some error => .error error
    | none =>
      if .sourceUnavailable ∈ discovery.truncationReasons ∨ liveSkill.isSome then
        .error sourceUnavailable
      else .error skillNotFound

def lookup {α : Type} (request : Request WorkspaceId)
    (fromBundle : Bundle Details Report → Bool → Except SkillError α)
    (fromPinned : RawLoad → Except SkillError α) : Except SkillError α := do
  let discovery ← discover p reader (manager.view request.workspaceId)
  let liveSkill := discovery.skills.find? fun skill => skill.skillId = request.skillId
  match ← liveBundle p manager pins request liveSkill with
  | some (bundle, pinned) => fromBundle bundle pinned
  | none =>
    match ← loadPinned p pins request.skillId request.fingerprint with
    | some pinned => fromPinned pinned
    | none => missing p reader manager request discovery liveSkill

def inspect (request : Request WorkspaceId) : Except SkillError (Inspection Details Report) :=
  lookup p reader manager pins request (fun bundle pinned => .ok (inspectionFromBundle bundle pinned))
    (inspectionFromPinned reader)

def loadRaw (request : Request WorkspaceId) (resources : Option (List JsText)) :
    Except SkillError (CatalogRawLoad Report) :=
  lookup p reader manager pins request
    (fun bundle pinned => rawLoadFromBundle bundle pinned resources)
    (fun pinned => rawLoadFromPinned reader pinned resources)

abbrev Versions (Report : Type) := Family (JsText × JsText) (CatalogEntry Report)

def listLive (view : View) : List (DiscoveredSkill Details Report) → Versions Report → Bool →
    Except SkillError (Versions Report × Bool)
  | [], versions, unavailable => .ok (versions, unavailable)
  | skill :: rest, versions, unavailable =>
    match buildBundle p view skill with
    | .error error =>
      if isUnavailableSourceError error then listLive view rest versions true else .error error
    | .ok bundle =>
      listLive view rest (versions.insert (skill.skillId, bundle.bundleFingerprint)
        (entryFromBundle bundle false)) unavailable

def listPinned (s : PinStores.State) : List Manifest → Versions Report →
    Except SkillError (Versions Report)
  | [], versions => .ok versions
  | manifest :: rest, versions =>
    match versions.lookup (manifest.skillId, manifest.fingerprint) with
    | some current =>
      listPinned s rest (versions.insert (manifest.skillId, manifest.fingerprint)
        { current with availability := .livePinned, pinned := true })
    | none => do
      let pinned ← loadPin p s manifest.skillId manifest.fingerprint
      let entry ← entryFromPinnedLoad reader pinned
      listPinned s rest (versions.insert (manifest.skillId, manifest.fingerprint) entry)

def listAllPinned (live : Versions Report) : Except SkillError (Versions Report) :=
  match pins with
  | none => .ok live
  | some s => do
    let manifests ← listPins p s
    listPinned p reader s manifests live

structure CatalogList (Report : Type) where
  skills : List (CatalogEntry Report)
  workspaceSourceIds : Option (List JsText)
  truncationReasons : List TruncationReason

def sortEntries (entries : List (CatalogEntry Report)) : List (CatalogEntry Report) :=
  entries.insertionSort fun left right => compareAll
    [(left.name, right.name), (left.sourceId, right.sourceId), (left.skillId, right.skillId),
      (left.fingerprint, right.fingerprint)]

def workspaceSourceIds (workspaceId : Option WorkspaceId) (sourceIds : List JsText) :
    Except SkillError (Option (List JsText)) :=
  match workspaceId with
  | none => .ok none
  | some _ => do
    let global ← sourceCall (manager.view none).listSources
    .ok (some (sourceIds.filter fun sourceId => sourceId ∉ global.sources.map Source.sourceId))

def list (workspaceId : Option WorkspaceId) : Except SkillError (CatalogList Report) := do
  let discovery ← discover p reader (manager.view workspaceId)
  let (live, unavailable) ←
    listLive p (manager.view workspaceId) discovery.skills ∅ false
  let versions ← listAllPinned p reader pins live
  let workspaceSourceIds ← workspaceSourceIds manager workspaceId discovery.sourceIds
  .ok
    { skills := sortEntries (versions.entries.map Sigma.snd)
      workspaceSourceIds
      truncationReasons := truncationReasonOrder.filter fun reason =>
        reason ∈ discovery.truncationReasons ∨ (reason = .sourceUnavailable ∧ unavailable = true) }

end KodeGpt.SkillCatalogs
