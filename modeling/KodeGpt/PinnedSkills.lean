import KodeGpt.KeyedFamily
import KodeGpt.NodePaths

/-!
Pinned skills: what a pin consists of, how its input is validated, and how a snapshot
directory is read back.
-/

namespace KodeGpt.PinnedSkills

open JsFrames JsObjects KeyedFamily NodePaths
open JsonText (Bytes)

inductive SkillErrorCode where
  | sourceNotFound
  | sourceInvalid
  | sourceStateOverlap
  | sourceIdentityChanged
  | sourceUnavailable
  | sourceBoundaryViolation
  | sourceLimitExceeded
  | registryInvalid
  | registrySchemaUnsupported
  | notFound
  | bundleInvalid
  | fingerprintMismatch
  | resourceUnsupported
  | loadLimitExceeded
  | pinInvalid
  | pinSchemaUnsupported
  | workspaceRequired
  | workspaceMismatch
  deriving DecidableEq, Repr

structure SkillError where
  code : SkillErrorCode
  message : String
  deriving DecidableEq, Repr

def pinInvalid : SkillError := ⟨.pinInvalid, "Pinned skill snapshot is invalid"⟩

def pinNotFound : SkillError := ⟨.notFound, "Pinned skill snapshot was not found"⟩

def bundleInvalid : SkillError := ⟨.bundleInvalid, "Skill bundle is invalid"⟩

def requireThat (condition : Prop) [Decidable condition] (error : SkillError) :
    Except SkillError Unit :=
  if condition then .ok () else .error error

theorem requireThat_eq_ok {condition : Prop} [Decidable condition] {error : SkillError} {done : Unit} :
    requireThat condition error = .ok done ↔ condition := by
  unfold requireThat
  split
  · rename_i h
    exact ⟨fun _ => h, fun _ => rfl⟩
  · rename_i h
    exact ⟨nofun, fun hcondition => absurd hcondition h⟩

def maxResourcesPerSkill : Nat := 256

def skillMdMaxBytes : Nat := 256 * 1024

def skillBundleMaxBytes : Nat := 1024 * 1024

def isLowerHex (unit : UInt16) : Bool := (48 ≤ unit && unit ≤ 57) || (97 ≤ unit && unit ≤ 102)

def isSha256 (text : JsText) : Bool := text.length = 64 && text.all isLowerHex

/-- `sk_` and the digits of a digest. -/
def isSkillId (text : JsText) : Bool := text.take 3 = [115, 107, 95] && isSha256 (text.drop 3)

/-- `ss_` and 32 digits. -/
def isSourceId (text : JsText) : Bool :=
  text.take 3 = [115, 115, 95] && (text.length = 35 && (text.drop 3).all isLowerHex)

def isCanonicalRelativePath (path : JsText) : Bool :=
  path ≠ [] && !path.contains 0 && !isAbsolute path &&
    (path.splitOn slash).all fun part => part ≠ [] && part ≠ dotName && part ≠ dotDotName

def compareUtf8 (left right : JsText) : Bool := decide (pathBytes left ≤ pathBytes right)

/-- `SKILL.md` -/
def skillFile : JsText := [83, 75, 73, 76, 76, 46, 109, 100]

/-- `manifest.json` -/
def manifestFile : JsText := [109, 97, 110, 105, 102, 101, 115, 116, 46, 106, 115, 111, 110]

/-- `resources` -/
def resourcesDirectory : JsText := [114, 101, 115, 111, 117, 114, 99, 101, 115]

structure FileRecord where
  path : JsText
  bytes : Nat
  sha256 : JsText
  deriving DecidableEq

/-- The source kind and the schema version are constants. -/
structure Manifest where
  skillId : JsText
  name : JsText
  description : JsText
  fingerprint : JsText
  sourceId : JsText
  sourceRelativePath : JsText
  pinnedAt : JsText
  files : List FileRecord
  deriving DecidableEq

structure Resource where
  path : JsText
  bytes : Bytes
  sha256 : JsText
  deriving DecidableEq

structure RawLoad where
  manifest : Manifest
  skillDocument : Bytes
  resources : List Resource
  deriving DecidableEq

structure PinInput where
  skillId : JsText
  sourceId : JsText
  name : JsText
  description : JsText
  descriptorFingerprint : JsText
  fingerprint : JsText
  sourceRelativePath : JsText
  skillDocument : Bytes
  resources : List Resource

/-- What the store takes from the platform: SHA-256 in hexadecimal digits, and whether
`Date.parse` gives a number. -/
structure Platform where
  sha256 : Bytes → JsText
  isDate : JsText → Bool

variable (p : Platform)

def deriveSkillId (sourceId name : JsText) : JsText :=
  [115, 107, 95] ++ p.sha256 (pathBytes (sourceId ++ 0 :: name))

def validRecord (record : FileRecord) : Bool :=
  isCanonicalRelativePath record.path && record.bytes ≤ maxSafeInteger && isSha256 record.sha256

def recordValue (record : FileRecord) : JsValue :=
  .object [(asciiUnits "path", .string record.path), (asciiUnits "type", .string (asciiUnits "file")),
    (asciiUnits "bytes", naturalNumber record.bytes),
    (asciiUnits "sha256", .string record.sha256)]

/-- One line of what is hashed, as `JSON.stringify` writes it. -/
def recordLine (record : FileRecord) : Bytes :=
  match (recordValue record).stringify with
  | .ok (some document) => document.bytes ++ [10]
  | _ => []

def sortRecords (records : List FileRecord) : List FileRecord :=
  records.insertionSort fun left right => compareUtf8 left.path right.path

def fingerprintSkillBundle (records : List FileRecord) : Except SkillError JsText :=
  let validated := sortRecords records
  if records.all validRecord ∧ (validated.map FileRecord.path).Nodup then
    .ok (p.sha256 (pathBytes (asciiUnits "kodegpt-skill-bundle:v1\n") ++ validated.flatMap recordLine))
  else .error bundleInvalid

def totalWithin : Nat → List FileRecord → Bool
  | _, [] => true
  | total, record :: rest =>
    total + record.bytes ≤ skillBundleMaxBytes && totalWithin (total + record.bytes) rest

def pinnedManifestSchema (manifest : Manifest) : Bool :=
  isSkillId manifest.skillId && manifest.name ≠ [] && manifest.description ≠ [] &&
    isSha256 manifest.fingerprint && isSourceId manifest.sourceId &&
    manifest.sourceRelativePath ≠ [] && manifest.pinnedAt ≠ [] &&
    (manifest.files.all fun file => file.path ≠ [] && file.bytes ≤ maxSafeInteger &&
      isSha256 file.sha256) &&
    (1 ≤ manifest.files.length && manifest.files.length ≤ maxResourcesPerSkill + 1)

def validateManifest (manifest : Manifest) : Bool :=
  pinnedManifestSchema manifest && isCanonicalRelativePath manifest.sourceRelativePath &&
    p.isDate manifest.pinnedAt && manifest.skillId = deriveSkillId p manifest.sourceId manifest.name &&
    (manifest.files.all fun file => isCanonicalRelativePath file.path) &&
    decide (manifest.files.map FileRecord.path).Nodup && totalWithin 0 manifest.files &&
    decide (skillFile ∈ manifest.files.map FileRecord.path) &&
    (sortRecords manifest.files).map FileRecord.path = manifest.files.map FileRecord.path

structure ValidatedPinInput where
  manifest : Manifest
  skillDocument : Bytes
  resources : List Resource

def recordOf (resource : Resource) : FileRecord where
  path := resource.path
  bytes := resource.bytes.length
  sha256 := p.sha256 resource.bytes

def skillRecord (skillDocument : Bytes) : FileRecord where
  path := skillFile
  bytes := skillDocument.length
  sha256 := p.sha256 skillDocument

def validateResources : List JsText → Nat → List Resource → Bool
  | _, _, [] => true
  | seen, total, resource :: rest =>
    isCanonicalRelativePath resource.path && resource.path ≠ skillFile &&
      !seen.contains resource.path && isSha256 resource.sha256 &&
      p.sha256 resource.bytes = resource.sha256 &&
      total + resource.bytes.length ≤ skillBundleMaxBytes &&
      validateResources (resource.path :: seen) (total + resource.bytes.length) rest

def manifestOf (input : PinInput) (pinnedAt : JsText) : Manifest where
  skillId := input.skillId
  name := input.name
  description := input.description
  fingerprint := input.fingerprint
  sourceId := input.sourceId
  sourceRelativePath := input.sourceRelativePath
  pinnedAt
  files := sortRecords (skillRecord p input.skillDocument :: input.resources.map (recordOf p))

def sortResources (resources : List Resource) : List Resource :=
  resources.insertionSort fun left right => compareUtf8 left.path right.path

def validatePinInput (input : PinInput) (pinnedAt : JsText) :
    Except SkillError ValidatedPinInput := do
  requireThat (isSkillId input.skillId ∧ isSourceId input.sourceId ∧
    isSha256 input.descriptorFingerprint ∧ isSha256 input.fingerprint ∧
    isCanonicalRelativePath input.sourceRelativePath ∧
    input.skillDocument.length ≤ skillMdMaxBytes ∧
    input.resources.length ≤ maxResourcesPerSkill) pinInvalid
  requireThat (p.sha256 input.skillDocument = input.descriptorFingerprint) pinInvalid
  requireThat (validateResources p [skillFile] input.skillDocument.length input.resources) pinInvalid
  let fingerprint ← fingerprintSkillBundle p (manifestOf p input pinnedAt).files
  requireThat (fingerprint = input.fingerprint) pinInvalid
  requireThat (validateManifest p (manifestOf p input pinnedAt)) pinInvalid
  .ok
    { manifest := manifestOf p input pinnedAt
      skillDocument := input.skillDocument
      resources := sortResources input.resources }

/-- A file of a snapshot. `JSON.parse` gets back what `JSON.stringify` has written, so that the
manifest file stands for the manifest. -/
inductive File where
  | manifest (value : Manifest)
  | data (bytes : Bytes)
  deriving DecidableEq

abbrev Path := List JsText

instance : LawfulBEq Path := inferInstance

/-- The files and the directories below the root of a snapshot. -/
structure Tree where
  files : Family Path File
  directories : List Path

def Tree.empty : Tree := ⟨∅, []⟩

def Tree.isEmpty (tree : Tree) : Bool := tree.files.keys = [] && tree.directories = []

def resourcePath (path : JsText) : Path := resourcesDirectory :: path.splitOn slash

def properPrefixes (path : Path) : List Path := path.dropLast.inits.filter fun dir => dir ≠ []

def readManifest (tree : Tree) (skillId fingerprint : JsText) : Except SkillError Manifest :=
  match tree.files.lookup [manifestFile] with
  | some (.manifest manifest) =>
    if validateManifest p manifest ∧ manifest.skillId = skillId ∧
        manifest.fingerprint = fingerprint then .ok manifest
    else .error pinInvalid
  | _ => .error pinInvalid

def resourceRecords (manifest : Manifest) : List FileRecord :=
  manifest.files.filter fun file => file.path ≠ skillFile

def expectedFiles (manifest : Manifest) : List Path :=
  [manifestFile] :: [skillFile] :: (resourceRecords manifest).map fun file => resourcePath file.path

def expectedDirectories (manifest : Manifest) : List Path :=
  (resourceRecords manifest).flatMap fun file => properPrefixes (resourcePath file.path)

def assertSnapshotTopology (tree : Tree) (manifest : Manifest) : Except SkillError Unit :=
  requireThat
    ((∀ path ∈ tree.files.keys, path ∈ expectedFiles manifest) ∧
      (∀ path ∈ tree.directories, path ∈ expectedDirectories manifest) ∧
      (∀ path ∈ expectedFiles manifest, path ∈ tree.files.keys) ∧
      ∀ path ∈ expectedDirectories manifest, path ∈ tree.directories) pinInvalid

def readAndVerifyFile (tree : Tree) (path : Path) (record : FileRecord) :
    Except SkillError Bytes :=
  match tree.files.lookup path with
  | some (.data bytes) =>
    if bytes.length = record.bytes ∧ p.sha256 bytes = record.sha256 then .ok bytes
    else .error pinInvalid
  | _ => .error pinInvalid

def readResources (tree : Tree) : List FileRecord → Except SkillError (List Resource)
  | [] => .ok []
  | record :: rest => do
    let bytes ← readAndVerifyFile p tree (resourcePath record.path) record
    let later ← readResources tree rest
    .ok (⟨record.path, bytes, record.sha256⟩ :: later)

def load (tree : Tree) (skillId fingerprint : JsText) : Except SkillError RawLoad := do
  let manifest ← readManifest p tree skillId fingerprint
  assertSnapshotTopology tree manifest
  match manifest.files.find? fun file => file.path = skillFile with
  | none => .error pinInvalid
  | some record =>
    let skillDocument ← readAndVerifyFile p tree [skillFile] record
    let resources ← readResources p tree (resourceRecords manifest)
    let computed ← fingerprintSkillBundle p manifest.files
    requireThat (computed = manifest.fingerprint) pinInvalid
    .ok { manifest, skillDocument, resources }

def requireSamePin (existing : RawLoad) (expected : ValidatedPinInput) : Except SkillError Unit :=
  requireThat (existing.manifest.skillId = expected.manifest.skillId ∧
    existing.manifest.name = expected.manifest.name ∧
    existing.manifest.description = expected.manifest.description ∧
    existing.manifest.fingerprint = expected.manifest.fingerprint ∧
    existing.manifest.sourceId = expected.manifest.sourceId ∧
    existing.manifest.sourceRelativePath = expected.manifest.sourceRelativePath ∧
    p.sha256 existing.skillDocument = p.sha256 expected.skillDocument ∧
    existing.resources.map (fun resource => (resource.path, resource.sha256)) =
      expected.resources.map fun resource => (resource.path, resource.sha256)) pinInvalid

inductive TreeOperation where
  | ensurePrivateDirectory (path : Path)
  | create (path : Path)
  | fill (path : Path) (file : File)

def Tree.apply (tree : Tree) : TreeOperation → Option Tree
  | .ensurePrivateDirectory path =>
    let directories := path.inits.filter fun dir => dir ≠ []
    if directories.any fun dir => dir ∈ tree.files then none
    else some { tree with
      directories := tree.directories ++ directories.filter fun dir => dir ∉ tree.directories }
  | .create path =>
    if path ∈ tree.files ∨ path ∈ tree.directories ∨
        (path.dropLast ≠ [] ∧ path.dropLast ∉ tree.directories) then none
    else some { tree with files := tree.files.insert path (.data []) }
  | .fill path file =>
    if path ∈ tree.files then some { tree with files := tree.files.insert path file } else none

def writePrivateFile (path : Path) (file : File) : List TreeOperation :=
  [.ensurePrivateDirectory path.dropLast, .create path, .fill path file]

def writeResource (resource : Resource) : List TreeOperation :=
  .ensurePrivateDirectory (resourcePath resource.path).dropLast ::
    writePrivateFile (resourcePath resource.path) (.data resource.bytes)

def pinScript (input : ValidatedPinInput) : List TreeOperation :=
  writePrivateFile [skillFile] (.data input.skillDocument) ++
    (input.resources.flatMap writeResource ++
      writePrivateFile [manifestFile] (.manifest input.manifest))

section Writing

variable {tree t : Tree} {path : Path}

theorem apply_ensurePrivateDirectory
    (h : tree.apply (.ensurePrivateDirectory path) = some t) :
    t.files = tree.files ∧
      ∀ dir, dir ∈ t.directories ↔ dir ∈ tree.directories ∨ (dir ∈ path.inits ∧ dir ≠ []) := by
  obtain ⟨-, heq⟩ := Option.ite_none_left_eq_some.mp h
  obtain rfl := Option.some.inj heq
  refine ⟨rfl, ?_⟩
  intro dir
  simp only [List.mem_append, List.mem_filter, decide_eq_true_eq]
  constructor
  · rintro (hold | ⟨hnew, -⟩)
    · exact Or.inl hold
    · exact Or.inr hnew
  · rintro (hold | hnew)
    · exact Or.inl hold
    · by_cases hmem : dir ∈ tree.directories
      · exact Or.inl hmem
      · exact Or.inr ⟨hnew, hmem⟩

theorem apply_create (h : tree.apply (.create path) = some t) :
    path ∉ tree.files ∧ t.directories = tree.directories ∧
      t.files = tree.files.insert path (.data []) := by
  obtain ⟨hnew, heq⟩ := Option.ite_none_left_eq_some.mp h
  obtain rfl := Option.some.inj heq
  exact ⟨fun hmem => hnew (Or.inl hmem), rfl, rfl⟩

theorem apply_fill {file : File} (h : tree.apply (.fill path file) = some t) :
    t.directories = tree.directories ∧ t.files = tree.files.insert path file := by
  obtain ⟨-, heq⟩ := Option.ite_none_right_eq_some.mp h
  obtain rfl := Option.some.inj heq
  exact ⟨rfl, rfl⟩

/-- The tree has become one with a new file and the directories that lead to it. -/
def Written (tree t : Tree) (path : Path) (file : File) : Prop :=
  path ∉ tree.files ∧ t.files = tree.files.insert path file ∧
    ∀ dir, dir ∈ t.directories ↔ dir ∈ tree.directories ∨ dir ∈ properPrefixes path

theorem written_of_writePrivateFile {file : File}
    (h : (writePrivateFile path file).foldlM Tree.apply tree = some t) :
    Written tree t path file := by
  obtain ⟨ensured, hensure, h⟩ := Option.bind_eq_some_iff.mp h
  obtain ⟨created, hcreate, h⟩ := Option.bind_eq_some_iff.mp h
  obtain ⟨filled, hfill, h⟩ := Option.bind_eq_some_iff.mp h
  obtain rfl : filled = t := Option.some.inj h
  obtain ⟨hfiles, hdirectories⟩ := apply_ensurePrivateDirectory hensure
  obtain ⟨hnew, hsame, hcreated⟩ := apply_create hcreate
  obtain ⟨hkept, hfilled⟩ := apply_fill hfill
  refine ⟨hfiles ▸ hnew, ?_, ?_⟩
  · rw [hfilled, hcreated, hfiles, AList.insert_insert]
  · intro dir
    rw [hkept, hsame, hdirectories, properPrefixes, List.mem_filter, decide_eq_true_eq]

theorem written_of_writeResource {resource : Resource}
    (h : (writeResource resource).foldlM Tree.apply tree = some t) :
    Written tree t (resourcePath resource.path) (.data resource.bytes) := by
  obtain ⟨ensured, hensure, h⟩ := Option.bind_eq_some_iff.mp h
  obtain ⟨hfiles, hdirectories⟩ := apply_ensurePrivateDirectory hensure
  obtain ⟨hnew, hwritten, hlater⟩ := written_of_writePrivateFile h
  rw [hfiles] at hnew hwritten
  refine ⟨hnew, hwritten, ?_⟩
  intro dir
  rw [hlater, hdirectories, properPrefixes, List.mem_filter, decide_eq_true_eq, or_assoc, or_self]

/-- The tree consists of the entries and of the directories that lead to them. -/
structure Consists (tree : Tree) (entries : List (Path × File)) : Prop where
  files : ∀ path file, tree.files.lookup path = some file ↔ (path, file) ∈ entries
  directories : ∀ dir, dir ∈ tree.directories ↔ ∃ entry ∈ entries, dir ∈ properPrefixes entry.1

theorem consists_empty : Consists Tree.empty [] where
  files := fun _ _ => ⟨nofun, nofun⟩
  directories := fun _ => ⟨nofun, nofun⟩

theorem Consists.write {entries : List (Path × File)} {file : File} (h : Consists tree entries)
    (hwritten : Written tree t path file) : Consists t (entries ++ [(path, file)]) where
  files := by
    obtain ⟨hnew, hfiles, -⟩ := hwritten
    have hfresh : ∀ other, (path, other) ∉ entries := by
      intro other hmem
      have hlookup := (h.files path other).mpr hmem
      exact hnew (AList.lookup_isSome.mp (by rw [hlookup]; rfl))
    intro found other
    rw [hfiles, List.mem_append, List.mem_singleton]
    constructor
    · intro hlookup
      obtain ⟨rfl, rfl⟩ | ⟨-, hold⟩ := lookup_insert_eq_some hlookup
      · exact Or.inr rfl
      · exact Or.inl ((h.files found other).mp hold)
    · rintro (hold | heq)
      · have hne : found ≠ path := by
          rintro rfl
          exact hfresh other hold
        rw [AList.lookup_insert_ne hne]
        exact (h.files found other).mpr hold
      · obtain ⟨rfl, rfl⟩ := Prod.mk.inj heq
        exact AList.lookup_insert _
  directories := by
    obtain ⟨-, -, hdirectories⟩ := hwritten
    intro dir
    rw [hdirectories, h.directories]
    simp [or_and_right, exists_or]

theorem Consists.writeResources {entries : List (Path × File)} {resources : List Resource}
    (h : Consists tree entries)
    (hwritten : (resources.flatMap writeResource).foldlM Tree.apply tree = some t) :
    Consists t (entries ++
      resources.map fun resource => (resourcePath resource.path, File.data resource.bytes)) := by
  induction resources generalizing tree entries with
  | nil =>
    obtain rfl : tree = t := Option.some.inj hwritten
    rw [List.map_nil, List.append_nil]
    exact h
  | cons resource rest ih =>
    rw [List.flatMap_cons, List.foldlM_append] at hwritten
    obtain ⟨after, hfirst, hrest⟩ := Option.bind_eq_some_iff.mp hwritten
    have hnext := ih (h.write (written_of_writeResource hfirst)) hrest
    rw [List.append_assoc] at hnext
    exact hnext

end Writing

def pinEntries (input : ValidatedPinInput) : List (Path × File) :=
  ([skillFile], .data input.skillDocument) ::
    (input.resources.map fun resource => (resourcePath resource.path, File.data resource.bytes)) ++
      [([manifestFile], .manifest input.manifest)]

/-- The tree is what the steps of the pin write. -/
def Built (input : ValidatedPinInput) (tree : Tree) : Prop :=
  (pinScript input).foldlM Tree.apply Tree.empty = some tree

theorem Built.consists {input : ValidatedPinInput} {tree : Tree} (h : Built input tree) :
    Consists tree (pinEntries input) := by
  unfold Built pinScript at h
  rw [List.foldlM_append] at h
  obtain ⟨first, hfirst, h⟩ := Option.bind_eq_some_iff.mp h
  rw [List.foldlM_append] at h
  obtain ⟨second, hsecond, hlast⟩ := Option.bind_eq_some_iff.mp h
  have hskill := consists_empty.write (written_of_writePrivateFile hfirst)
  exact (hskill.writeResources hsecond).write (written_of_writePrivateFile hlast)

structure Valid (input : ValidatedPinInput) : Prop where
  manifest : validateManifest p input.manifest = true
  fingerprint : fingerprintSkillBundle p input.manifest.files = .ok input.manifest.fingerprint
  files : ∀ record, record ∈ input.manifest.files ↔ record = skillRecord p input.skillDocument ∨
    ∃ resource ∈ input.resources, record = recordOf p resource
  apart : ∀ resource ∈ input.resources, resource.path ≠ skillFile

variable {p}

theorem bind_eq_ok {α β : Type} {action : Except SkillError α} {next : α → Except SkillError β}
    {result : β} (h : action >>= next = .ok result) :
    ∃ value, action = .ok value ∧ next value = .ok result := by
  cases action with
  | error error => cases h
  | ok value => exact ⟨value, rfl, h⟩

theorem path_of_validateResources {seen : List JsText} {total : Nat} {resources : List Resource}
    (h : validateResources p seen total resources = true) :
    ∀ resource ∈ resources, resource.path ≠ skillFile := by
  induction resources generalizing seen total with
  | nil => nofun
  | cons first rest ih =>
    simp only [validateResources, Bool.and_eq_true] at h
    intro resource hmem
    obtain rfl | hrest := List.mem_cons.mp hmem
    · simpa using h.1.1.1.1.1.2
    · exact ih h.2 resource hrest

theorem valid_of_validatePinInput {input : PinInput} {pinnedAt : JsText} {v : ValidatedPinInput}
    (h : validatePinInput p input pinnedAt = .ok v) : Valid p v := by
  obtain ⟨⟨⟩, -, h⟩ := bind_eq_ok h
  obtain ⟨⟨⟩, -, h⟩ := bind_eq_ok h
  obtain ⟨⟨⟩, hresources, h⟩ := bind_eq_ok h
  obtain ⟨fingerprint, hfingerprint, h⟩ := bind_eq_ok h
  obtain ⟨⟨⟩, hsame, h⟩ := bind_eq_ok h
  obtain ⟨⟨⟩, hmanifest, h⟩ := bind_eq_ok h
  obtain rfl := Except.ok.inj h
  have hmem : ∀ resource, resource ∈ sortResources input.resources ↔ resource ∈ input.resources :=
    fun resource => List.mem_insertionSort _
  refine { manifest := requireThat_eq_ok.mp hmanifest, fingerprint := ?_, files := ?_, apart := ?_ }
  · rw [hfingerprint, requireThat_eq_ok.mp hsame]
    rfl
  · intro record
    show record ∈ sortRecords _ ↔ _
    rw [sortRecords, List.mem_insertionSort, List.mem_cons, List.mem_map]
    simp only [hmem, eq_comm]
  · intro resource hresource
    exact path_of_validateResources (requireThat_eq_ok.mp hresources) resource
      ((hmem resource).mp hresource)

section Loading

variable {input : ValidatedPinInput} {tree : Tree}

theorem Valid.mem_resourceRecords (h : Valid p input) {record : FileRecord} :
    record ∈ resourceRecords input.manifest ↔
      ∃ resource ∈ input.resources, record = recordOf p resource := by
  rw [resourceRecords, List.mem_filter, h.files, decide_eq_true_eq]
  constructor
  · rintro ⟨rfl | hresource, hpath⟩
    · exact absurd rfl hpath
    · exact hresource
  · rintro ⟨resource, hmem, rfl⟩
    exact ⟨Or.inr ⟨resource, hmem, rfl⟩, h.apart resource hmem⟩

theorem mem_pinEntries {entry : Path × File} :
    entry ∈ pinEntries input ↔ entry = ([skillFile], .data input.skillDocument) ∨
      (∃ resource ∈ input.resources,
        entry = (resourcePath resource.path, .data resource.bytes)) ∨
      entry = ([manifestFile], .manifest input.manifest) := by
  simp only [pinEntries, List.cons_append, List.mem_cons, List.mem_append, List.mem_map,
    List.not_mem_nil, or_false, eq_comm]

theorem Built.readManifest (hbuilt : Built input tree) (h : Valid p input) :
    readManifest p tree input.manifest.skillId input.manifest.fingerprint =
      .ok input.manifest := by
  have hlookup := (hbuilt.consists.files [manifestFile] (.manifest input.manifest)).mpr
    (mem_pinEntries.mpr (Or.inr (Or.inr rfl)))
  rw [PinnedSkills.readManifest, hlookup]
  exact if_pos ⟨h.manifest, rfl, rfl⟩

theorem mem_keys_iff {path : Path} :
    path ∈ tree.files.keys ↔ ∃ file, tree.files.lookup path = some file := by
  rw [← AList.mem_keys, ← AList.lookup_isSome, Option.isSome_iff_exists]

theorem Built.topology (hbuilt : Built input tree) (h : Valid p input) :
    assertSnapshotTopology tree input.manifest = .ok () := by
  have hconsists := hbuilt.consists
  refine requireThat_eq_ok.mpr ⟨?_, ?_, ?_, ?_⟩
  · intro path hpath
    obtain ⟨file, hlookup⟩ := mem_keys_iff.mp hpath
    obtain heq | ⟨resource, hresource, heq⟩ | heq :=
      mem_pinEntries.mp ((hconsists.files path file).mp hlookup)
    · obtain ⟨rfl, -⟩ := Prod.mk.inj heq
      exact List.mem_cons_of_mem _ List.mem_cons_self
    · obtain ⟨rfl, -⟩ := Prod.mk.inj heq
      refine List.mem_cons_of_mem _ (List.mem_cons_of_mem _ (List.mem_map.mpr ?_))
      exact ⟨recordOf p resource, h.mem_resourceRecords.mpr ⟨resource, hresource, rfl⟩, rfl⟩
    · obtain ⟨rfl, -⟩ := Prod.mk.inj heq
      exact List.mem_cons_self
  · intro dir hdir
    obtain ⟨entry, hentry, hprefix⟩ := (hconsists.directories dir).mp hdir
    obtain rfl | ⟨resource, hresource, rfl⟩ | rfl := mem_pinEntries.mp hentry
    · cases hprefix
    · refine List.mem_flatMap.mpr ⟨recordOf p resource, ?_, hprefix⟩
      exact h.mem_resourceRecords.mpr ⟨resource, hresource, rfl⟩
    · cases hprefix
  · intro path hpath
    refine mem_keys_iff.mpr ?_
    obtain rfl | hpath := List.mem_cons.mp hpath
    · exact ⟨_, (hconsists.files _ _).mpr (mem_pinEntries.mpr (Or.inr (Or.inr rfl)))⟩
    · obtain rfl | hpath := List.mem_cons.mp hpath
      · exact ⟨_, (hconsists.files _ _).mpr (mem_pinEntries.mpr (Or.inl rfl))⟩
      · obtain ⟨record, hrecord, rfl⟩ := List.mem_map.mp hpath
        obtain ⟨resource, hresource, rfl⟩ := h.mem_resourceRecords.mp hrecord
        exact ⟨_, (hconsists.files _ _).mpr
          (mem_pinEntries.mpr (Or.inr (Or.inl ⟨resource, hresource, rfl⟩)))⟩
  · intro dir hdir
    obtain ⟨record, hrecord, hprefix⟩ := List.mem_flatMap.mp hdir
    obtain ⟨resource, hresource, rfl⟩ := h.mem_resourceRecords.mp hrecord
    exact (hconsists.directories dir).mpr
      ⟨_, mem_pinEntries.mpr (Or.inr (Or.inl ⟨resource, hresource, rfl⟩)), hprefix⟩

theorem Built.readResources (hbuilt : Built input tree) {records : List FileRecord}
    (hrecords : ∀ record ∈ records, ∃ resource ∈ input.resources, record = recordOf p resource) :
    ∃ resources, readResources p tree records = .ok resources := by
  induction records with
  | nil => exact ⟨[], rfl⟩
  | cons record rest ih =>
    obtain ⟨later, hlater⟩ := ih fun other hother => hrecords other (List.mem_cons_of_mem _ hother)
    obtain ⟨resource, hresource, rfl⟩ := hrecords record List.mem_cons_self
    have hlookup := (hbuilt.consists.files (resourcePath resource.path) _).mpr
      (mem_pinEntries.mpr (Or.inr (Or.inl ⟨resource, hresource, rfl⟩)))
    have hread : readAndVerifyFile p tree (resourcePath resource.path) (recordOf p resource) =
        .ok resource.bytes := by
      rw [readAndVerifyFile, hlookup]
      exact if_pos ⟨rfl, rfl⟩
    refine ⟨⟨resource.path, resource.bytes, p.sha256 resource.bytes⟩ :: later, ?_⟩
    rw [PinnedSkills.readResources]
    show (readAndVerifyFile p tree (resourcePath resource.path) (recordOf p resource) >>= _) = _
    rw [hread]
    show (PinnedSkills.readResources p tree rest >>= _) = _
    rw [hlater]
    rfl

theorem Valid.find_skillFile (h : Valid p input) :
    input.manifest.files.find? (fun file => file.path = skillFile) =
      some (skillRecord p input.skillDocument) := by
  have hmem : skillRecord p input.skillDocument ∈ input.manifest.files :=
    (h.files _).mpr (Or.inl rfl)
  cases hfind : input.manifest.files.find? (fun file => file.path = skillFile) with
  | none => exact absurd (decide_eq_true rfl) (List.find?_eq_none.mp hfind _ hmem)
  | some record =>
    have hpath : record.path = skillFile := by simpa using List.find?_some hfind
    obtain rfl | ⟨resource, hresource, rfl⟩ := (h.files record).mp (List.mem_of_find?_eq_some hfind)
    · rfl
    · exact absurd hpath (h.apart resource hresource)

theorem Built.load (hbuilt : Built input tree) (h : Valid p input) :
    ∃ raw, load p tree input.manifest.skillId input.manifest.fingerprint = .ok raw ∧
      raw.manifest = input.manifest := by
  obtain ⟨resources, hresources⟩ := hbuilt.readResources fun record hrecord =>
    h.mem_resourceRecords.mp hrecord
  have hlookup := (hbuilt.consists.files [skillFile] (.data input.skillDocument)).mpr
    (mem_pinEntries.mpr (Or.inl rfl))
  have hdocument : readAndVerifyFile p tree [skillFile] (skillRecord p input.skillDocument) =
      .ok input.skillDocument := by
    rw [readAndVerifyFile, hlookup]
    exact if_pos ⟨rfl, rfl⟩
  refine ⟨⟨input.manifest, input.skillDocument, resources⟩, ?_, rfl⟩
  rw [PinnedSkills.load, hbuilt.readManifest h]
  show (assertSnapshotTopology tree input.manifest >>= _) = _
  rw [hbuilt.topology h]
  show (match input.manifest.files.find? fun file => file.path = skillFile with
    | none => _
    | some record => _) = _
  rw [h.find_skillFile]
  dsimp only
  rw [hdocument]
  show (PinnedSkills.readResources p tree (resourceRecords input.manifest) >>= _) = _
  rw [hresources]
  show (fingerprintSkillBundle p input.manifest.files >>= _) = _
  rw [h.fingerprint]
  show (requireThat (input.manifest.fingerprint = input.manifest.fingerprint) pinInvalid >>= _) = _
  have hsame : requireThat (input.manifest.fingerprint = input.manifest.fingerprint) pinInvalid =
      .ok () := requireThat_eq_ok.mpr rfl
  rw [hsame]
  rfl

end Loading

theorem manifest_of_load {tree : Tree} {skillId fingerprint : JsText} {raw : RawLoad}
    (h : load p tree skillId fingerprint = .ok raw) :
    readManifest p tree skillId fingerprint = .ok raw.manifest := by
  obtain ⟨manifest, hmanifest, h⟩ := bind_eq_ok h
  obtain ⟨⟨⟩, -, h⟩ := bind_eq_ok h
  split at h
  · cases h
  · obtain ⟨skillDocument, -, h⟩ := bind_eq_ok h
    obtain ⟨resources, -, h⟩ := bind_eq_ok h
    obtain ⟨computed, -, h⟩ := bind_eq_ok h
    obtain ⟨⟨⟩, -, h⟩ := bind_eq_ok h
    obtain rfl := Except.ok.inj h
    exact hmanifest

theorem names_of_readManifest {tree : Tree} {skillId fingerprint : JsText} {manifest : Manifest}
    (h : readManifest p tree skillId fingerprint = .ok manifest) :
    validateManifest p manifest = true ∧ manifest.skillId = skillId ∧
      manifest.fingerprint = fingerprint := by
  unfold readManifest at h
  split at h
  · split at h
    · rename_i hnames
      obtain rfl := Except.ok.inj h
      exact hnames
    · cases h
  · cases h

end KodeGpt.PinnedSkills
