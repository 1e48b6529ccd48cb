import KodeGpt.NodePaths

/-!
The registry of developer environments: its document, what the store checks when it reads
it, and the four calls that change it.
-/

namespace KodeGpt.DeveloperEnvironments

open JsonDocuments JsFrames JsObjects NodePaths

def maxDeveloperEnvironments : Nat := 32
def maxDeveloperExecutableDirs : Nat := 4
def maxDeveloperEnvironmentLabelBytes : Nat := 120

inductive ErrorCode where
  | registryInvalid
  | limitExceeded
  | rootNotFound
  | rootUntrusted
  | rootInsideState
  | rootInsideWorkspace
  | rootConflict
  deriving DecidableEq

/-- `environment` and `schemaUnsupported` are errors of the store, `io` is any other one. -/
inductive StoreError where
  | environment (code : ErrorCode) (message : String)
  | schemaUnsupported (version : JsValue)
  | io

def registryInvalid (message : String) : StoreError := .environment .registryInvalid message

def limitExceeded : StoreError :=
  .environment .limitExceeded "Developer environment registry is limited to 32 entries"

def refuseIf (condition : Prop) [Decidable condition] (error : StoreError) :
    Except StoreError Unit :=
  if condition then .error error else .ok ()

inductive Source where
  | bootstrap
  | operator
  | syncedShell
  deriving DecidableEq

structure Identity where
  deviceMajor : Nat
  deviceMinor : Nat
  inode : JsText
  deriving DecidableEq

structure Entry where
  id : JsText
  label : JsText
  source : Source
  canonicalRoot : JsText
  executableDirs : List JsText
  identity : Identity
  deriving DecidableEq

def isLowerHex (unit : UInt16) : Bool := (48 ≤ unit && unit ≤ 57) || (97 ≤ unit && unit ≤ 102)

def isId (id : JsText) : Bool :=
  id.take 5 = asciiUnits "denv_" && id.length = 37 && (id.drop 5).all isLowerHex

def validateLabel (label : JsText) : Except StoreError Unit :=
  refuseIf (utf8Length label < 1 ∨ maxDeveloperEnvironmentLabelBytes < utf8Length label ∨ 0 ∈ label)
    (registryInvalid "Invalid developer environment label")

def sourceText : Source → JsText
  | .bootstrap => asciiUnits "bootstrap"
  | .operator => asciiUnits "operator"
  | .syncedShell => asciiUnits "synced-shell"

def validateSource (value : JsText) : Except StoreError Source :=
  if value = asciiUnits "bootstrap" then .ok .bootstrap
  else if value = asciiUnits "operator" then .ok .operator
  else if value = asciiUnits "synced-shell" then .ok .syncedShell
  else .error (registryInvalid "Invalid developer environment source")

def colon : UInt16 := 58

def isSeparator (unit : UInt16) : Bool := unit = slash || unit = 92

def dirRefused (value : JsText) : Bool :=
  value.length = 0 || 4096 < value.length || value.contains 0 || value.contains colon ||
    isAbsolute value || (value.splitOnP isSeparator).contains dotDotName

def dropDotSlash : JsText → JsText
  | 46 :: 47 :: rest => rest
  | value => value

def dropSlash (value : JsText) : JsText :=
  if value.getLast? = some slash then value.dropLast else value

/-- One slash at the end and one `./` at the start are taken off. -/
def normalizeDir (value : JsText) : JsText :=
  if value = dotName then dotName else dropSlash (dropDotSlash value)

def normalizeDirs (normalized : List JsText) : List JsText → Except StoreError (List JsText)
  | [] => .ok normalized
  | value :: rest => do
    refuseIf (dirRefused value = true)
      (registryInvalid "Developer executable directory must remain relative to its registered root")
    refuseIf ((normalizeDir value).length = 0 ∨ normalizeDir value ∈ normalized)
      (registryInvalid "Developer executable directories must be unique normalized paths")
    normalizeDirs (normalized ++ [normalizeDir value]) rest

def validateExecutableDirs (values : List JsText) : Except StoreError (List JsText) := do
  refuseIf (values.length < 1 ∨ maxDeveloperExecutableDirs < values.length)
    (.environment .limitExceeded "Developer environment executable directories are limited to 4")
  normalizeDirs [] values

def identityValue (identity : Identity) : JsValue :=
  objectOf [(asciiUnits "deviceMajor", some (naturalNumber identity.deviceMajor)),
    (asciiUnits "deviceMinor", some (naturalNumber identity.deviceMinor)),
    (asciiUnits "inode", some (.string identity.inode))]

def entryValue (entry : Entry) : JsValue :=
  objectOf [(asciiUnits "id", some (.string entry.id)),
    (asciiUnits "label", some (.string entry.label)),
    (asciiUnits "source", some (.string (sourceText entry.source))),
    (asciiUnits "canonicalRoot", some (.string entry.canonicalRoot)),
    (asciiUnits "executableDirs", some (.array (entry.executableDirs.map .string))),
    (asciiUnits "identity", some (identityValue entry.identity))]

def documentValue (entries : List Entry) : JsValue :=
  objectOf [(asciiUnits "schemaVersion", some (naturalNumber 1)),
    (asciiUnits "entries", some (.array (entries.map entryValue)))]

def exactKeys (value : JsValue) (keys : List JsText) : Bool :=
  match value with
  | .object members => (members.map Prod.fst).isPerm keys
  | _ => false

/-- The value, where `Number.isSafeInteger(value)` and it is not negative. -/
def safeNatural : JsValue → Option Nat
  | .number (.finite text) =>
    if text.text.all Char.isDigit && decide (digitsValue text ≤ maxSafeInteger) then
      some (digitsValue text)
    else none
  | _ => none

def isDigits (text : JsText) : Bool := text ≠ [] && text.all fun unit => 48 ≤ unit && unit ≤ 57

def parseIdentity (value : JsValue) : Except StoreError Identity :=
  let failure := registryInvalid "Invalid developer environment filesystem identity"
  if exactKeys value [asciiUnits "deviceMajor", asciiUnits "deviceMinor", asciiUnits "inode"] then
    match safeNatural (member value (asciiUnits "deviceMajor")),
        safeNatural (member value (asciiUnits "deviceMinor")),
        member value (asciiUnits "inode") with
    | some deviceMajor, some deviceMinor, .string inode =>
      if isDigits inode then .ok ⟨deviceMajor, deviceMinor, inode⟩ else .error failure
    | _, _, _ => .error failure
  else .error failure

def stringOf (failure : StoreError) : JsValue → Except StoreError JsText
  | .string text => .ok text
  | _ => .error failure

def stringsOf (failure : StoreError) : List JsValue → Except StoreError (List JsText)
  | [] => .ok []
  | value :: rest => do
    let text ← stringOf failure value
    let texts ← stringsOf failure rest
    .ok (text :: texts)

def itemsOf (failure : StoreError) : JsValue → Except StoreError (List JsValue)
  | .array items => .ok items
  | _ => .error failure

def parseEntry (value : JsValue) : Except StoreError Entry := do
  refuseIf (exactKeys value (["id", "label", "source", "canonicalRoot", "executableDirs",
    "identity"].map asciiUnits) = false)
    (registryInvalid "Developer environment entry must be a closed object")
  let id ← stringOf (registryInvalid "Invalid developer environment id")
    (member value (asciiUnits "id"))
  refuseIf (isId id = false) (registryInvalid "Invalid developer environment id")
  let label ← stringOf (registryInvalid "Invalid developer environment label")
    (member value (asciiUnits "label"))
  validateLabel label
  let sourceName ← stringOf (registryInvalid "Invalid developer environment source")
    (member value (asciiUnits "source"))
  let source ← validateSource sourceName
  let canonicalRoot ← stringOf (registryInvalid "Invalid developer environment root")
    (member value (asciiUnits "canonicalRoot"))
  refuseIf (isAbsolute canonicalRoot = false ∨ 0 ∈ canonicalRoot)
    (registryInvalid "Invalid developer environment root")
  let dirValues ← itemsOf (registryInvalid "Invalid developer executable directories")
    (member value (asciiUnits "executableDirs"))
  let dirs ← stringsOf (registryInvalid "Invalid developer executable directories") dirValues
  let executableDirs ← validateExecutableDirs dirs
  let identity ← parseIdentity (member value (asciiUnits "identity"))
  .ok ⟨id, label, source, canonicalRoot, executableDirs, identity⟩

def parseEntries : List JsValue → Except StoreError (List Entry)
  | [] => .ok []
  | value :: rest => do
    let entry ← parseEntry value
    let entries ← parseEntries rest
    .ok (entry :: entries)

def checkUnique (ids roots : List JsText) : List Entry → Except StoreError Unit
  | [] => .ok ()
  | entry :: rest => do
    refuseIf (entry.id ∈ ids ∨ entry.canonicalRoot ∈ roots)
      (registryInvalid "Developer environment registry contains duplicate identity or root")
    checkUnique (entry.id :: ids) (entry.canonicalRoot :: roots) rest

def parseDocument (value : JsValue) : Except StoreError (List Entry) := do
  refuseIf (exactKeys value (["schemaVersion", "entries"].map asciiUnits) = false)
    (registryInvalid "Developer environment registry must be a closed object")
  refuseIf (safeNatural (member value (asciiUnits "schemaVersion")) ≠ some 1)
    (.schemaUnsupported (member value (asciiUnits "schemaVersion")))
  let items ← itemsOf (registryInvalid "Developer environment registry entries must be an array")
    (member value (asciiUnits "entries"))
  refuseIf (maxDeveloperEnvironments < items.length) limitExceeded
  let entries ← parseEntries items
  checkUnique [] [] entries
  .ok entries

/-- What a call finds around it. A new identifier is none of those that a registry uses. -/
structure Machine where
  host : Host
  canonicalStateRoot : Except StoreError JsText
  resolve : JsText → JsText
  newId : List JsText → JsText
  newId_isId : ∀ used, isId (newId used) = true
  newId_fresh : ∀ used, used.length ≤ maxDeveloperEnvironments → newId used ∉ used

structure Inspected where
  canonicalRoot : JsText
  identity : Identity
  deriving DecidableEq

def explicitRootModeIsSafe (metadata : Metadata) : Bool :=
  metadata.mode &&& 0o6000 = 0 && metadata.mode &&& 0o002 = 0 &&
    !(metadata.mode &&& 0o020 ≠ 0 && metadata.gid ≠ metadata.uid)

def digitUnits (value : Nat) : JsText :=
  (Nat.toDigits 10 value).map fun digit => digit.toNat.toUInt16

def deviceMajor (device : Nat) : Nat :=
  ((device &&& 0x00000000000fff00) >>> 8) ||| ((device &&& 0xfffff00000000000) >>> 32)

def deviceMinor (device : Nat) : Nat :=
  (device &&& 0x00000000000000ff) ||| ((device &&& 0x00000ffffff00000) >>> 12)

def filesystemIdentity (device inode : UInt64) : Except StoreError Identity := do
  refuseIf (maxSafeInteger < deviceMajor device.toNat ∨ maxSafeInteger < deviceMinor device.toNat)
    (.environment .rootUntrusted "Developer environment device identity is outside the supported range")
  .ok ⟨deviceMajor device.toNat, deviceMinor device.toNat, digitUnits inode.toNat⟩

def hostFailure (message missing : String) : HostError → StoreError
  | .notFound => .environment .rootNotFound missing
  | .other => .environment .rootUntrusted message

def liftHost {α : Type} (message missing : String) : Except HostError α → Except StoreError α
  | .ok value => .ok value
  | .error error => .error (hostFailure message missing error)

section Inspection

variable (m : Machine)

def safeBigIntStat (path : JsText) : Except StoreError Metadata :=
  let message := "Developer environment filesystem metadata is unavailable"
  liftHost message message (m.host.statText path)

def canonicalizeExistingOrResolve (path : JsText) : Except StoreError JsText :=
  match m.host.realpathText path with
  | .ok canonical => .ok canonical
  | .error .notFound => .ok (m.resolve path)
  | .error .other => .error .io

def checkWorkspaces (canonicalRoot : JsText) : List JsText → Except StoreError Unit
  | [] => .ok ()
  | workspaceRoot :: rest => do
    let canonicalWorkspace ← canonicalizeExistingOrResolve m workspaceRoot
    refuseIf (pathsOverlap canonicalRoot canonicalWorkspace = true)
      (.environment .rootInsideWorkspace "Developer environment root overlaps a trusted workspace")
    checkWorkspaces canonicalRoot rest

def executableCandidate (canonicalRoot executableDir : JsText) : JsText :=
  if executableDir = dotName then canonicalRoot else join canonicalRoot executableDir

def checkExecutableDirs (canonicalRoot : JsText) : List JsText → Except StoreError Unit
  | [] => .ok ()
  | executableDir :: rest => do
    let message := "Developer executable directory could not be inspected"
    let canonicalDirectory ← liftHost message message
      (m.host.realpathText (executableCandidate canonicalRoot executableDir))
    refuseIf (isBeneathOrEqual canonicalDirectory canonicalRoot = false)
      (.environment .rootUntrusted "Developer executable directory escapes its registered root")
    let metadata ← safeBigIntStat m canonicalDirectory
    refuseIf (metadata.directory = false ∨ explicitRootModeIsSafe metadata = false)
      (.environment .rootUntrusted "Developer executable directory permissions are unsafe")
    checkExecutableDirs canonicalRoot rest

def inspectCandidate (root : JsText) (executableDirs trustedWorkspaceRoots : List JsText) :
    Except StoreError Inspected := do
  refuseIf (root.length = 0 ∨ 0 ∈ root)
    (.environment .rootUntrusted "Developer environment root is invalid")
  let canonicalRoot ← liftHost "Developer environment root could not be inspected"
    "Developer environment root was not found" (m.host.realpathText root)
  let canonicalStateRoot ← m.canonicalStateRoot
  refuseIf (pathsOverlap canonicalRoot canonicalStateRoot = true)
    (.environment .rootInsideState "Developer environment root overlaps KodeGPT private state")
  checkWorkspaces m canonicalRoot trustedWorkspaceRoots
  let metadata ← safeBigIntStat m canonicalRoot
  refuseIf (metadata.directory = false ∨ explicitRootModeIsSafe metadata = false)
    (.environment .rootUntrusted "Developer environment root permissions are unsafe")
  checkExecutableDirs m canonicalRoot executableDirs
  let identity ← filesystemIdentity metadata.device metadata.inode
  .ok ⟨canonicalRoot, identity⟩

def inspectOrSkip (root : JsText) (executableDirs trustedWorkspaceRoots : List JsText) :
    Except StoreError (Option Inspected) :=
  match inspectCandidate m root executableDirs trustedWorkspaceRoots with
  | .ok inspected => .ok (some inspected)
  | .error .io => .error .io
  | .error _ => .ok none

end Inspection

inductive Call where
  | add (root : JsText) (executableDirs : List JsText) (label source : JsText)
      (trustedWorkspaceRoots : List JsText)
  | syncPath (pathValue : JsText) (trustedWorkspaceRoots : List JsText)
  | remove (id : JsText)
  | ensureBootstrap (nodeRoot rustRoot : Option JsText) (trustedWorkspaceRoots : List JsText)
  deriving DecidableEq

section Calls

variable (m : Machine)

def newEntryId (entries : List Entry) : JsText := m.newId (entries.map Entry.id)

def addEntry (entries : List Entry) (root : JsText) (executableDirs : List JsText)
    (label sourceName : JsText) (trustedWorkspaceRoots : List JsText) :
    Except StoreError (List Entry) := do
  validateLabel label
  let source ← validateSource sourceName
  let dirs ← validateExecutableDirs executableDirs
  refuseIf (maxDeveloperEnvironments ≤ entries.length) limitExceeded
  let inspected ← inspectCandidate m root dirs trustedWorkspaceRoots
  refuseIf (inspected.canonicalRoot ∈ entries.map Entry.canonicalRoot)
    (.environment .rootConflict "Developer environment root is already registered")
  .ok (entries ++
    [⟨newEntryId m entries, label, source, inspected.canonicalRoot, dirs, inspected.identity⟩])

def systemExecutableDirs : List JsText :=
  [asciiUnits "/usr/local/bin", asciiUnits "/usr/bin", asciiUnits "/bin"]

def syncLabel (number : Nat) : JsText := asciiUnits "PATH entry " ++ digitUnits number

def syncEntries (trustedWorkspaceRoots : List JsText) (entries : List Entry) :
    List JsText → Except StoreError (List Entry)
  | [] => .ok entries
  | rawCandidate :: rest =>
    if rawCandidate.length = 0 ∨ m.resolve rawCandidate ∈ systemExecutableDirs then
      syncEntries trustedWorkspaceRoots entries rest
    else do
      match ← inspectOrSkip m (m.resolve rawCandidate) [dotName] trustedWorkspaceRoots with
      | none => syncEntries trustedWorkspaceRoots entries rest
      | some inspected =>
        if inspected.canonicalRoot ∈ entries.map Entry.canonicalRoot then
          syncEntries trustedWorkspaceRoots entries rest
        else do
          refuseIf (maxDeveloperEnvironments ≤ entries.length) limitExceeded
          syncEntries trustedWorkspaceRoots
            (entries ++ [⟨newEntryId m entries, syncLabel (entries.length + 1), .syncedShell,
              inspected.canonicalRoot, [dotName], inspected.identity⟩])
            rest

def removeEntry (entries : List Entry) (id : JsText) : List Entry :=
  entries.filter fun entry => entry.id ≠ id

def binDirs : List JsText := [asciiUnits "bin"]

def existingIndex (entries : List Entry) (label : JsText) : Option Nat :=
  entries.findIdx? fun entry => entry.source = .bootstrap && entry.label = label

def bootstrapEntry (entries : List Entry) (label : JsText) (inspected : Inspected) : Entry where
  id := (((existingIndex entries label).bind fun index => entries[index]?).map Entry.id).getD
    (newEntryId m entries)
  label := label
  source := .bootstrap
  canonicalRoot := inspected.canonicalRoot
  executableDirs := binDirs
  identity := inspected.identity

def bootstrapCandidate (trustedWorkspaceRoots : List JsText) (entries : List Entry)
    (label root : JsText) : Except StoreError (List Entry) := do
  match ← inspectOrSkip m root binDirs trustedWorkspaceRoots with
  | none => .ok entries
  | some inspected =>
    if (entries.find? fun entry => entry.canonicalRoot = inspected.canonicalRoot).any
        fun entry => entry.source ≠ .bootstrap then .ok entries
    else
      match existingIndex entries label with
      | some index => .ok (entries.set index (bootstrapEntry m entries label inspected))
      | none => do
        refuseIf (maxDeveloperEnvironments ≤ entries.length) limitExceeded
        .ok (entries ++ [bootstrapEntry m entries label inspected])

def bootstrapOptional (trustedWorkspaceRoots : List JsText) (entries : List Entry)
    (label : JsText) (root : Option JsText) : Except StoreError (List Entry) :=
  match root with
  | none => .ok entries
  | some root => bootstrapCandidate m trustedWorkspaceRoots entries label root

def nodeLabel : JsText := asciiUnits "Node runtime"

def rustLabel : JsText := asciiUnits "Rust stable toolchain"

def update (entries : List Entry) : Call → Except StoreError (Option (List Entry))
  | .add root executableDirs label source trustedWorkspaceRoots => do
    let next ← addEntry m entries root executableDirs label source trustedWorkspaceRoots
    .ok (some next)
  | .syncPath pathValue trustedWorkspaceRoots => do
    let next ← syncEntries m trustedWorkspaceRoots entries (pathValue.splitOn colon)
    .ok (if entries.length < next.length then some next else none)
  | .remove id => do
    refuseIf (isId id = false) (registryInvalid "Invalid developer environment id")
    let next := removeEntry entries id
    .ok (if next.length = entries.length then none else some next)
  | .ensureBootstrap nodeRoot rustRoot trustedWorkspaceRoots => do
    let withNode ← bootstrapOptional m trustedWorkspaceRoots entries nodeLabel nodeRoot
    let next ← bootstrapOptional m trustedWorkspaceRoots withNode rustLabel rustRoot
    .ok (if next = entries then none else some next)

end Calls

/-- The entries of the document that was written last. -/
abbrev Registry := Option (List Entry)

/-- `JSON.parse` reads a document as it was written. -/
def readDocument : Registry → Except StoreError (List Entry)
  | none => .ok []
  | some entries => parseDocument (documentValue entries)

/-- A call with what it finds, and whether its document gets its name. -/
structure Event where
  machine : Machine
  call : Call
  written : Bool

def next (registry : Registry) (event : Event) : Registry :=
  match readDocument registry >>= fun entries => update event.machine entries event.call with
  | .ok (some entries) =>
    if event.written ∧ entries.length ≤ maxDeveloperEnvironments then some entries else registry
  | _ => registry

end KodeGpt.DeveloperEnvironments
