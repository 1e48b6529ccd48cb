import KodeGpt.PinnedSkills
import KodeGpt.ProviderExecutions

/-!
The identity of the implementation of a provider. A credential helper is pinned by its
digest, and has to be outside of the workspaces.
-/

namespace KodeGpt.HelperIdentities

open JsonDocuments JsFrames JsObjects NodePaths
open JsonText (Bytes)
open PinnedSkills (isSha256)
open ProviderExecutions (Failure invalid)

/-- The names from the root of the file system, of a path without links. -/
structure RealPath where
  names : List JsText
  valid : ∀ name ∈ names, name ≠ [] ∧ slash ∉ name ∧ name ≠ dotName ∧ name ≠ dotDotName

def joinNames (names : List JsText) : JsText := [slash].intercalate names

def RealPath.text (path : RealPath) : JsText := slash :: joinNames path.names

def resolvedNames (path : JsText) : List JsText := (path.splitOn slash).foldl normalizeName []

/-- `resolve`, of an absolute path. -/
def resolve (path : JsText) : JsText := slash :: joinNames (resolvedNames path)

def commonNames : List JsText → List JsText → Nat
  | name :: names, other :: others => if name = other then commonNames names others + 1 else 0
  | _, _ => 0

/-- `relative`, of absolute paths: up to what both have in common, and down. -/
def relative (source target : JsText) : JsText :=
  let sourceNames := resolvedNames source
  let targetNames := resolvedNames target
  let common := commonNames sourceNames targetNames
  joinNames (List.replicate (sourceNames.length - common) dotDotName ++ targetNames.drop common)

def isWithin (root candidate : JsText) : Bool :=
  let rel := relative root candidate
  rel = [] || (!dotDotName.isPrefixOf rel && !isAbsolute rel)

/-- What is a file, who may execute it, and its contents. -/
structure Files where
  stat : JsText → Option Bool
  access : JsText → Bool
  readFile : JsText → Option Bytes

structure HelperHost extends Files where
  realpath : JsText → Option RealPath

/-- A digest has 64 lower-case digits. -/
abbrev Digest := { text : JsText // isSha256 text = true }

structure HelperIdentity where
  canonicalPath : JsText
  sha256 : JsText
  deriving DecidableEq

structure Manifest where
  adapterId : JsText
  adapterContractVersion : JsText
  implementationDigest : JsText

inductive CredentialBroker where
  | none
  | externalHelper (helperPath helperSha256 : JsText)

structure ImplementationIdentity where
  implementationFingerprint : JsText
  helperIdentity : Option HelperIdentity

section Resolving

variable (sha256 : Bytes → Digest) (host : HelperHost)

def canonicalizeExistingOrLexical (path : JsText) : JsText :=
  match host.realpath path with
  | some canonical => canonical.text
  | none => resolve path

def requireOutside (canonicalPath : JsText) : List JsText → Except Failure Unit
  | [] => .ok ()
  | workspaceRoot :: rest =>
    if isAbsolute workspaceRoot = false then
      .error (invalid "Provider workspace roots must be absolute")
    else if isWithin (canonicalizeExistingOrLexical host workspaceRoot) canonicalPath then
      .error (invalid "Provider credential helper must be outside workspace roots")
    else requireOutside canonicalPath rest

def requireExecutable (canonicalPath : JsText) : Except Failure Unit :=
  match host.stat canonicalPath with
  | none => .error (invalid "Provider credential helper must be an executable regular file")
  | some isFile =>
    if isFile = false then
      .error (invalid "Provider credential helper must be a regular file")
    else if host.access canonicalPath = false then
      .error (invalid "Provider credential helper must be an executable regular file")
    else .ok ()

def requireContents (canonicalPath expectedSha256 : JsText) : Except Failure HelperIdentity :=
  match host.readFile canonicalPath with
  | none => .error (invalid "Provider credential helper cannot be read for identity verification")
  | some bytes =>
    if (sha256 bytes).val ≠ expectedSha256 then
      .error (.of .identityChanged "Provider credential helper identity changed")
    else .ok ⟨canonicalPath, (sha256 bytes).val⟩

def resolveHelperIdentity (helperPath expectedSha256 : JsText) (workspaceRoots : List JsText) :
    Except Failure HelperIdentity :=
  if isAbsolute helperPath = false then
    .error (invalid "Provider credential helper path must be absolute")
  else if isSha256 expectedSha256 = false then
    .error (invalid "Provider credential helper pin must be lowercase SHA-256")
  else
    match host.realpath helperPath with
    | none => .error (invalid "Provider credential helper path cannot be resolved")
    | some canonical =>
      if isAbsolute canonical.text = false then
        .error (invalid "Provider credential helper canonical path must be absolute")
      else do
        requireOutside host canonical.text workspaceRoots
        requireExecutable host canonical.text
        requireContents sha256 host canonical.text expectedSha256

def absoluteRoots : List JsText → Except Failure (List JsText)
  | [] => .ok []
  | root :: rest =>
    if isAbsolute root = false then
      .error (invalid "Provider workspace roots must be absolute")
    else do
      let roots ← absoluteRoots rest
      .ok (resolve root :: roots)

def helperIdentityOf (credentialBroker : CredentialBroker) (workspaceRoots : List JsText) :
    Except Failure (Option HelperIdentity) :=
  match credentialBroker with
  | .none => .ok none
  | .externalHelper helperPath helperSha256 =>
    (resolveHelperIdentity sha256 host helperPath helperSha256 workspaceRoots).map some

def canonicalIdentity (manifest : Manifest) (helper : Option HelperIdentity) : JsValue :=
  .object [(asciiUnits "adapterId", .string manifest.adapterId),
    (asciiUnits "adapterContractVersion", .string manifest.adapterContractVersion),
    (asciiUnits "implementationDigest", .string manifest.implementationDigest),
    (asciiUnits "helperSha256",
      match helper with
      | some helper => .string helper.sha256
      | none => .null)]

/-- As `JSON.stringify` writes it. -/
def identityText (manifest : Manifest) (helper : Option HelperIdentity) : Bytes :=
  match (canonicalIdentity manifest helper).stringify with
  | .ok (some document) => document.bytes
  | _ => []

def resolveProviderImplementationIdentity (manifest : Manifest)
    (credentialBroker : CredentialBroker) (workspaceRoots : List JsText) :
    Except Failure ImplementationIdentity :=
  if isSha256 manifest.implementationDigest = false then
    .error (invalid "Provider manifest implementation digest must be lowercase SHA-256")
  else do
    let roots ← absoluteRoots workspaceRoots
    let helper ← helperIdentityOf sha256 host credentialBroker roots
    .ok ⟨(sha256 (identityText manifest helper)).val, helper⟩

end Resolving

end KodeGpt.HelperIdentities
