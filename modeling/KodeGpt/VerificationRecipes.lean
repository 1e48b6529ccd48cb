import KodeGpt.FallibleActions
import KodeGpt.NodePaths
import KodeGpt.SafeRefs

/-!
The verification recipes of a workspace: what `verify.list` finds in the manifests
and in the configuration, and what `verify.run` starts for the id of a recipe. The
workspace does not change, so that its answers are functions of what is asked.
-/

namespace KodeGpt.VerificationRecipes

open FallibleActions JsObjects ListCuts
open JsFrames (JsValue asciiUnits)
open NodePaths (slash dotName dotDotName)
open SafeRefs (isAlphanumeric isNameUnit)

inductive ErrorCode where
  | capabilityInputInvalid
  | verificationDiscoveryInvalid
  | verificationNotFound
  | verificationNotAllowed
  | gitStatusInvalid
  deriving DecidableEq

structure CapabilityError where
  code : ErrorCode
  message : String
  deriving DecidableEq

def discoveryError : CapabilityError :=
  ⟨.verificationDiscoveryInvalid, "Verification discovery is invalid"⟩

inductive VerificationCategory where
  | test
  | lint
  | typecheck
  | build
  | formatCheck
  | custom
  deriving DecidableEq

inductive VerificationSource where
  | packageScript
  | cargo
  | kodegptConfig
  deriving DecidableEq

structure VerificationRecipe where
  id : JsText
  label : JsText
  category : VerificationCategory
  source : VerificationSource
  logicalExecutable : Option JsText
  argv : Option (List JsText)
  cwd : Option JsText
  allowed : Bool
  blockedReason : Option String
  deriving DecidableEq

structure RecipeLaunchDefinition where
  id : JsText
  label : JsText
  category : VerificationCategory
  logicalExecutable : JsText
  argv : List JsText
  cwd : JsText
  source : VerificationSource

inductive PackageManager where
  | pnpm
  | npm
  | yarn
  | bun
  deriving DecidableEq

def PackageManager.name : PackageManager → JsText
  | .pnpm => asciiUnits "pnpm"
  | .npm => asciiUnits "npm"
  | .yarn => asciiUnits "yarn"
  | .bun => asciiUnits "bun"

inductive ManagerResolution where
  | resolved (manager : PackageManager)
  | unknown
  | conflict

inductive ProjectKind where
  | package
  | cargo
  deriving DecidableEq

/-- The path is relative to the root of the workspace, so that no name in it is a dot. -/
structure CapabilityTreeEntry where
  path : JsText
  isFile : Bool
  relative : dotName ∉ path.splitOn slash

structure PathIdentity where
  isFile : Bool
  sizeBytes : Option Nat

structure FileRead where
  contents : JsText
  bytesRead : Nat
  eof : Bool

/-- What the adapters answer for the workspace; `none` where they reject. An object that is
parsed has each key once. -/
structure Workspace (State : Type) where
  pathIdentity : JsText → Option (Option PathIdentity)
  tree : Option (List CapabilityTreeEntry × Bool)
  readFile : JsText → Option FileRead
  parseJson : JsText → Option JsValue
  parsedOnce : ∀ text value key members, parseJson text = some value →
    member value key = .object members → (members.map Prod.fst).Nodup
  allowProcess : Bool
  allowDynamicExecutables : Bool
  allowedExecutableNames : List JsText
  inspectExecutable : JsText → Option (Bool × Bool)
  resolveSourceState : Except CapabilityError State

def packageJsonName : JsText := asciiUnits "package.json"

def cargoTomlName : JsText := asciiUnits "Cargo.toml"

def rootEvidencePaths : List JsText :=
  [packageJsonName, cargoTomlName, asciiUnits "pnpm-lock.yaml", asciiUnits "package-lock.json",
    asciiUnits "npm-shrinkwrap.json", asciiUnits "yarn.lock", asciiUnits "bun.lock",
    asciiUnits "bun.lockb"]

def semanticExcludedDirectories : List JsText :=
  [".git", ".worktrees", "node_modules", "vendor", "target", "dist", "build", "coverage", "out",
    "__pycache__", ".cache", ".vite", ".turbo", ".next", ".nuxt", ".svelte-kit", ".pytest_cache",
    ".mypy_cache", ".ruff_cache", ".tox", ".venv", "venv", ".VSCodeCounter",
    ".code-review-graph"].map asciiUnits

def isSemanticDiscoveryPath (path : JsText) : Bool :=
  !(path.splitOn slash).any fun segment => semanticExcludedDirectories.contains segment

def manifestDirectory (path : JsText) : JsText :=
  match cutLast [slash] path with
  | some (directory, _) => directory
  | none => dotName

def basename (path : JsText) : JsText :=
  match cutLast [slash] path with
  | some (_, name) => name
  | none => path

/-- `compareText`, as the order of a sort. -/
def compareText (left right : JsText) : Prop := ¬right < left

instance : DecidableRel compareText := fun _ _ => inferInstanceAs (Decidable ¬_)

/-- They are sorted, so that it does not matter which of two equal ones a set keeps. -/
def manifestPaths (entries : List CapabilityTreeEntry) : List JsText :=
  (((entries.filter fun entry => entry.isFile && (basename entry.path = packageJsonName ||
    basename entry.path = cargoTomlName)).map CapabilityTreeEntry.path).filter
      isSemanticDiscoveryPath).dedup.insertionSort compareText

structure ProjectManifests where
  packagePaths : List JsText
  cargoPaths : List JsText

def moveRootFirst (paths : List JsText) (rootManifest : JsText) : List JsText :=
  if rootManifest ∈ paths then rootManifest :: paths.erase rootManifest else paths

section Discovery

variable {State : Type} (w : Workspace State)

def discoverProjectManifests : Except CapabilityError ProjectManifests :=
  match w.tree with
  | none => .error discoveryError
  | some (entries, truncated) =>
    if truncated || 128 < (manifestPaths entries).length then .error discoveryError
    else .ok
      { packagePaths := moveRootFirst
          ((manifestPaths entries).filter fun path => basename path = packageJsonName)
          packageJsonName
        cargoPaths := moveRootFirst
          ((manifestPaths entries).filter fun path => basename path = cargoTomlName)
          cargoTomlName }

/-- What a file holds that is read to its end in one call. -/
def wholeText (file : Option FileRead) : Option JsText :=
  file.bind fun read =>
    if read.eof && read.bytesRead = utf8Length read.contents &&
        utf8Length read.contents ≤ 64 * 1024 then some read.contents
    else none

def readPackageManifest (path : JsText) : Except CapabilityError JsValue :=
  match (wholeText (w.readFile path)).bind w.parseJson with
  | some (.object members) => .ok (.object members)
  | _ => .error discoveryError

end Discovery

def projectContainsTarget (projectDir target : JsText) : Bool :=
  projectDir = dotName || target = projectDir || (projectDir ++ [slash]).isPrefixOf target

def projectDepth (projectDir : JsText) : Nat :=
  if projectDir = dotName then 0 else (projectDir.splitOn slash).length

def activeProjectKinds (target : JsText) (manifests : ProjectManifests) (kind : ProjectKind) :
    Bool :=
  let candidates :=
    (manifests.packagePaths.map (fun path => (ProjectKind.package, manifestDirectory path)) ++
      manifests.cargoPaths.map fun path => (ProjectKind.cargo, manifestDirectory path)).filter
        fun candidate => projectContainsTarget candidate.2 target
  let maxDepth := (candidates.map fun candidate => projectDepth candidate.2).foldl max 0
  candidates.any fun candidate => candidate.1 = kind && projectDepth candidate.2 = maxDepth

def scopedManifestPaths (kind : ProjectKind) (paths : List JsText) (target : Option JsText)
    (manifests : ProjectManifests) : List JsText :=
  match target with
  | none => paths
  | some target =>
    if activeProjectKinds target manifests kind then
      let depth (path : JsText) := projectDepth (manifestDirectory path)
      (paths.filter fun path =>
        projectContainsTarget (manifestDirectory path) target).insertionSort fun left right =>
          if depth left = depth right then compareText left right else depth right < depth left
    else []

def parseExplicitManager : JsValue → Option PackageManager
  | .string text =>
    let name := match cutFirst [64] text with
      | some (name, _) => name
      | none => text
    [PackageManager.pnpm, .npm, .yarn, .bun].find? fun manager => manager.name = name
  | _ => none

def resolvePackageManager (packageJson : JsValue) (evidence : JsText → Bool) :
    ManagerResolution :=
  let lockManagers :=
    (if evidence (asciiUnits "pnpm-lock.yaml") then [PackageManager.pnpm] else []) ++
    (if evidence (asciiUnits "package-lock.json") || evidence (asciiUnits "npm-shrinkwrap.json")
      then [.npm] else []) ++
    (if evidence (asciiUnits "yarn.lock") then [.yarn] else []) ++
    (if evidence (asciiUnits "bun.lock") || evidence (asciiUnits "bun.lockb")
      then [.bun] else [])
  match parseExplicitManager (member packageJson (asciiUnits "packageManager")) with
  | some explicit =>
    if 1 < lockManagers.length || (lockManagers.length = 1 && !lockManagers.contains explicit)
    then .conflict
    else .resolved explicit
  | none =>
    match lockManagers with
    | [] => .unknown
    | [manager] => .resolved manager
    | _ => .conflict

def resolveNestedPackageManager (packageJson : JsValue) (evidence : JsText → Bool)
    (rootManager : ManagerResolution) : ManagerResolution :=
  match resolvePackageManager packageJson evidence with
  | .unknown =>
    match rootManager with
    | .resolved manager => .resolved manager
    | _ => .unknown
  | other => other

def packageRecipeDefinitions : List (JsText × JsText × VerificationCategory) :=
  [(asciiUnits "test", asciiUnits "Package test", .test),
    (asciiUnits "lint", asciiUnits "Package lint", .lint),
    (asciiUnits "typecheck", asciiUnits "Package typecheck", .typecheck),
    (asciiUnits "build", asciiUnits "Package build", .build)]

def cargoRecipes : List RecipeLaunchDefinition :=
  [⟨asciiUnits "cargo:test", asciiUnits "Cargo test", .test, asciiUnits "cargo",
      ["test", "--workspace"].map asciiUnits, dotName, .cargo⟩,
    ⟨asciiUnits "cargo:check", asciiUnits "Cargo check", .typecheck, asciiUnits "cargo",
      ["check", "--workspace"].map asciiUnits, dotName, .cargo⟩,
    ⟨asciiUnits "cargo:fmt-check", asciiUnits "Cargo fmt check", .formatCheck,
      asciiUnits "cargo", ["fmt", "--all", "--", "--check"].map asciiUnits, dotName, .cargo⟩]

def cargoProjectRecipes (projectDir : JsText) : List RecipeLaunchDefinition :=
  [("test", "Cargo test (", VerificationCategory.test),
    ("check", "Cargo check (", .typecheck)].map fun (suffix, label, category) =>
      { id := asciiUnits "cargo:" ++ projectDir ++ asciiUnits ":" ++ asciiUnits suffix
        label := asciiUnits label ++ projectDir ++ asciiUnits ")"
        category
        logicalExecutable := asciiUnits "cargo"
        argv := [suffix, "--manifest-path", "Cargo.toml"].map asciiUnits
        cwd := projectDir
        source := .cargo }

def packageRecipeId (projectDir script : JsText) : JsText :=
  if projectDir = dotName then asciiUnits "package:" ++ script
  else asciiUnits "package:" ++ projectDir ++ asciiUnits ":" ++ script

section Listing

variable {State : Type} (w : Workspace State)

def withStaticAvailability (recipe : RecipeLaunchDefinition) : VerificationRecipe :=
  let blockedReason :=
    if !w.allowProcess then some "PROCESS_NOT_ALLOWED"
    else if !w.allowedExecutableNames.contains recipe.logicalExecutable &&
        !w.allowDynamicExecutables then some "EXECUTABLE_NOT_ALLOWED"
    else
      match w.inspectExecutable recipe.logicalExecutable with
      | none | some (false, _) => some "EXECUTABLE_UNAVAILABLE"
      | some (true, false) => some "SANDBOX_UNAVAILABLE"
      | some (true, true) => none
  { id := recipe.id, label := recipe.label, category := recipe.category, source := recipe.source
    logicalExecutable := some recipe.logicalExecutable, argv := some recipe.argv
    cwd := some recipe.cwd, allowed := blockedReason.isNone, blockedReason }

def packageRecipes (scripts : JsValue) (manager : ManagerResolution) (projectDir : JsText) :
    List VerificationRecipe :=
  (packageRecipeDefinitions.filter fun definition =>
    match member scripts definition.1 with
    | .string _ => true
    | _ => false).map fun (script, label, category) =>
      match manager with
      | .resolved manager => withStaticAvailability w
          { id := packageRecipeId projectDir script, label, category
            logicalExecutable := manager.name, argv := [asciiUnits "run", script]
            cwd := projectDir, source := .packageScript }
      | unresolved =>
        { id := packageRecipeId projectDir script, label, category, source := .packageScript
          logicalExecutable := none, argv := none, cwd := none, allowed := false
          blockedReason := some (match unresolved with
            | .conflict => "PACKAGE_MANAGER_CONFLICT"
            | _ => "PACKAGE_MANAGER_UNKNOWN") }

def isSafeLogicalExecutable (value : JsText) : Bool :=
  value ≠ asciiUnits "bash" && value ≠ asciiUnits "sh" && value.head?.any isAlphanumeric &&
    value.tail.all isNameUnit

def isSafeRecipeCwd (value : JsText) : Bool :=
  1 ≤ utf8Length value && utf8Length value ≤ 4096 && (value = dotName ||
    (value.head? ≠ some slash && !value.contains 0 && (value.splitOn slash).all fun component =>
      component ≠ [] && component ≠ dotName && component ≠ dotDotName))

def hasExactKeys (members : List (JsText × JsValue)) (keys : List JsText) : Bool :=
  (members.map Prod.fst).insertionSort compareText = keys.insertionSort compareText

def categoryOf (value : JsText) : Option VerificationCategory :=
  [(asciiUnits "test", VerificationCategory.test), (asciiUnits "lint", .lint),
    (asciiUnits "typecheck", .typecheck), (asciiUnits "build", .build),
    (asciiUnits "format-check", .formatCheck), (asciiUnits "custom", .custom)].lookup value

/-- An argument of a recipe. -/
def safeArgument : JsValue → Option JsText
  | .string text => if text.contains 0 || 4096 < utf8Length text then none else some text
  | _ => none

def parseRecipe (entry : JsText × JsValue) : Except CapabilityError RecipeLaunchDefinition :=
  match entry with
  | (key, .object members) =>
    if 64 < key.length || !(key.head?.any isAlphanumeric && key.tail.all isNameUnit) ||
        !hasExactKeys members (["label", "category", "logicalExecutable", "argv", "cwd"].map
          asciiUnits) then .error discoveryError
    else
      let field (name : String) := member (.object members) (asciiUnits name)
      match field "label", field "category", field "logicalExecutable", field "argv",
          field "cwd" with
      | .string label, .string category, .string logicalExecutable, .array argv, .string cwd =>
        match categoryOf category, argv.mapM safeArgument with
        | some category, some argv =>
          if 1 ≤ utf8Length label && utf8Length label ≤ 120 &&
              isSafeLogicalExecutable logicalExecutable && argv.length ≤ 64 &&
              isSafeRecipeCwd cwd then
            .ok ⟨asciiUnits "config:" ++ key, label, category, logicalExecutable, argv, cwd,
              .kodegptConfig⟩
          else .error discoveryError
        | _, _ => .error discoveryError
      | _, _, _, _, _ => .error discoveryError
  | _ => .error discoveryError

/-- The entries of the configuration, if it is one. -/
def configEntries (parsed : JsValue) : Option (List (JsText × JsValue)) :=
  match parsed, member parsed (asciiUnits "schemaVersion"),
      member parsed (asciiUnits "recipes") with
  | .object members, .number (.finite version), .object recipes =>
    if hasExactKeys members (["schemaVersion", "recipes"].map asciiUnits) &&
        version.text = ['1'] && recipes.length ≤ 32 then some recipes
    else none
  | _, _, _ => none

def sortedEntries (entries : List (JsText × JsValue)) : List (JsText × JsValue) :=
  entries.insertionSort fun left right => compareText left.1 right.1

def readVerificationConfig : Except CapabilityError (List RecipeLaunchDefinition) :=
  match w.pathIdentity (asciiUnits ".kodegpt/verify.json") with
  | none => .error discoveryError
  | some none => .ok []
  | some (some identity) =>
    if !identity.isFile || identity.sizeBytes.any (64 * 1024 < ·) then .error discoveryError
    else
      match wholeText (w.readFile (asciiUnits ".kodegpt/verify.json")) with
      | none => .error discoveryError
      | some contents =>
        if identity.sizeBytes.any (· ≠ utf8Length contents) then .error discoveryError
        else
          match (w.parseJson contents).bind configEntries with
          | none => .error discoveryError
          | some entries => (sortedEntries entries).mapM parseRecipe

def evidence (path : JsText) : Bool :=
  ((w.pathIdentity path).bind id).any PathIdentity.isFile

/-- What is found whatever the target is. -/
def discover : Except CapabilityError (ProjectManifests × List RecipeLaunchDefinition) :=
  if !rootEvidencePaths.all fun path => (w.pathIdentity path).isSome then .error discoveryError
  else do
    let manifests ← discoverProjectManifests w
    if evidence w packageJsonName ≠ manifests.packagePaths.contains packageJsonName ||
        evidence w cargoTomlName ≠ manifests.cargoPaths.contains cargoTomlName then
      .error discoveryError
    else (readVerificationConfig w).map fun configuredRecipes => (manifests, configuredRecipes)

def manifestRecipes (rootManager : ManagerResolution) (path : JsText) :
    Except CapabilityError (List VerificationRecipe) := do
  -- The root's manifest has been read before, and is the same.
  let packageJson ← readPackageManifest w path
  let manager :=
    if path = packageJsonName then rootManager
    else resolveNestedPackageManager packageJson (evidence w) rootManager
  pure (packageRecipes w (member packageJson (asciiUnits "scripts")) manager
    (manifestDirectory path))

def rootManagerOf (packagePaths : List JsText) : Except CapabilityError ManagerResolution := do
  let rootPackageJson ←
    if packageJsonName ∈ packagePaths then readPackageManifest w packageJsonName
    else pure (.object [])
  pure (resolvePackageManager rootPackageJson (evidence w))

def cargoManifestRecipes (path : JsText) : List VerificationRecipe :=
  (if path = cargoTomlName then cargoRecipes
    else cargoProjectRecipes (manifestDirectory path)).map (withStaticAvailability w)

def recipesOf (manifests : ProjectManifests) (configured : List RecipeLaunchDefinition)
    (target : Option JsText) : Except CapabilityError (List VerificationRecipe) := do
  let packagePaths := scopedManifestPaths .package manifests.packagePaths target manifests
  let cargoPaths := scopedManifestPaths .cargo manifests.cargoPaths target manifests
  let rootManager ← rootManagerOf w packagePaths
  let packages ← packagePaths.mapM (manifestRecipes w rootManager)
  pure (packages.flatten ++ cargoPaths.flatMap (cargoManifestRecipes w) ++
    configured.map (withStaticAvailability w))

def isSafeRelativeTarget (target : JsText) : Bool :=
  target ≠ [] && target.head? ≠ some slash && (target.splitOn slash).all fun component =>
    component ≠ [] && component ≠ dotName && component ≠ dotDotName

def listVerifications (workspaceId : JsText) (target : Option JsText) :
    Except CapabilityError (List VerificationRecipe) :=
  if workspaceId = [] || target.any (!isSafeRelativeTarget ·) then
    .error ⟨.capabilityInputInvalid, "verify.list input is invalid"⟩
  else do
    let found ← discover w
    recipesOf w found.1 found.2 target

structure VerifyRunInput where
  workspaceId : JsText
  recipeId : JsText
  background : Option Bool

/-- What the execution adapter is called with. -/
structure Launch where
  workspaceId : JsText
  recipeId : JsText
  logicalExecutable : JsText
  argv : List JsText
  cwd : JsText
  background : Option Bool

/-- What is started of the recipe, if it may be. -/
def launchOf (input : VerifyRunInput) (recipe : VerificationRecipe) : Option Launch :=
  match recipe.allowed, recipe.logicalExecutable, recipe.argv, recipe.cwd with
  | true, some logicalExecutable, some argv, some cwd =>
    some ⟨input.workspaceId, recipe.id, logicalExecutable, argv, cwd, input.background⟩
  | _, _, _, _ => none

def runVerification (input : VerifyRunInput) :
    Except CapabilityError (VerificationRecipe × Launch × State) :=
  if input.workspaceId = [] then .error ⟨.capabilityInputInvalid, "verify.list input is invalid"⟩
  else if input.recipeId = [] then
    .error ⟨.capabilityInputInvalid, "verify.run input is invalid"⟩
  else do
    let current ← listVerifications w input.workspaceId none
    match current.find? fun candidate => candidate.id = input.recipeId with
    | none => .error ⟨.verificationNotFound, "Verification recipe was not found"⟩
    | some recipe =>
      match launchOf input recipe with
      | none => .error ⟨.verificationNotAllowed, "Verification recipe is not allowed"⟩
      | some launch => w.resolveSourceState.map fun sourceState => (recipe, launch, sourceState)

end Listing

end KodeGpt.VerificationRecipes
