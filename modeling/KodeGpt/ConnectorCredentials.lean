import KodeGpt.Base64Url
import KodeGpt.NodePaths
import KodeGpt.TransitionSystem

/-!
The connector credential: the token, the stored verifier, and the calls that rotate the
credential and authenticate with it. A rotation takes its file-system steps one at a time, any
of which may fail, and calls may overlap.
-/

namespace KodeGpt.ConnectorCredentials

open Base64Url JsFrames JsObjects NodePaths TransitionSystem
open JsonText (Bytes)

def connectorIdBytes : Nat := 12

def connectorSecretBytes : Nat := 32

def connectorVerifierBytes : Nat := 32

def connectorTokenPrefix : JsText := asciiUnits "kgc_"

def connectorAuthDomain : JsText := asciiUnits "kodegpt-connector-v1"

def fullStop : UInt16 := 46

def space : UInt16 := 32

abbrev Digest := { bytes : Bytes // bytes.length = connectorVerifierBytes }

/-- SHA-256, and whether a text is a time as `toISOString` writes it. -/
structure Platform where
  sha256 : Bytes → Digest
  isIsoTimestamp : JsText → Bool

structure Credential where
  id : { bytes : Bytes // bytes.length = connectorIdBytes }
  secret : { bytes : Bytes // bytes.length = connectorSecretBytes }

def Credential.idText (credential : Credential) : JsText := base64url credential.id

def Credential.secretText (credential : Credential) : JsText := base64url credential.secret

def Credential.token (credential : Credential) : JsText :=
  connectorTokenPrefix ++ credential.idText ++ fullStop :: credential.secretText

structure ParsedConnectorToken where
  id : JsText
  secret : JsText

def parseConnectorToken (value : JsText) : Option ParsedConnectorToken :=
  if connectorTokenPrefix <+: value then
    match (value.drop connectorTokenPrefix.length).splitOn fullStop with
    | [id, secret] =>
      if isCanonicalBase64Url id connectorIdBytes ∧
          isCanonicalBase64Url secret connectorSecretBytes then some ⟨id, secret⟩
      else none
    | _ => none
  else none

variable (p : Platform)

def verifierInput (id secret : JsText) : Bytes :=
  pathBytes connectorAuthDomain ++ 0 :: pathBytes id ++ 0 :: pathBytes secret

def deriveConnectorVerifier (id secret : JsText) : Option JsText :=
  if isCanonicalBase64Url id connectorIdBytes ∧
      isCanonicalBase64Url secret connectorSecretBytes then
    some (base64url (p.sha256 (verifierInput id secret)))
  else none

structure Document where
  id : JsText
  verifier : JsText
  createdAt : JsText
  rotatedAt : JsText

/-- The document of a file. `JSON.parse` gets back what `JSON.stringify` has written, so that
the file stands for its document. -/
def readDocument (file : Option Document) : Except Unit (Option Document) :=
  match file with
  | none => .ok none
  | some document =>
    if isCanonicalBase64Url document.id connectorIdBytes ∧
        isCanonicalBase64Url document.verifier connectorVerifierBytes ∧
        p.isIsoTimestamp document.createdAt ∧ p.isIsoTimestamp document.rotatedAt then
      .ok (some document)
    else .error ()

def issue (previous : Option Document) (credential : Credential) (now : JsText) :
    Option Document := do
  let verifier ← deriveConnectorVerifier p credential.idText credential.secretText
  some
    { id := credential.idText
      verifier
      createdAt := (previous.map Document.createdAt).getD now
      rotatedAt := now }

/-- `toLowerCase` of one code unit. Letters outside ASCII keep themselves here, apart from the
two whose small letters are not all outside ASCII: the Kelvin sign and the dotted capital. -/
def lowerUnit (unit : UInt16) : JsText :=
  if 65 ≤ unit ∧ unit ≤ 90 then [unit + 32]
  else if unit = 8490 then [107]
  else if unit = 304 then [105, 775]
  else [unit]

def toLowerCase (text : JsText) : JsText := text.flatMap lowerUnit

def bearer : JsText := asciiUnits "bearer"

def parseAuthorization (authorization : Option JsText) : Option ParsedConnectorToken :=
  match authorization with
  | none => none
  | some header =>
    match header.splitOn space with
    | [scheme, credentials] =>
      if scheme ≠ [] ∧ toLowerCase scheme = bearer then parseConnectorToken credentials
      else none
    | _ => none

def verify (parsed : ParsedConnectorToken) (file : Option Document) : Except Unit Bool := do
  match ← readDocument p file with
  | none => .ok false
  | some record =>
    if record.id = parsed.id then
      match deriveConnectorVerifier p parsed.id parsed.secret with
      | none => .error ()
      | some actual => .ok (decide (fromBase64url actual = fromBase64url record.verifier))
    else .ok false

/-- The file-system steps by which a document is written. -/
inductive WriteStep where
  | mkdir
  | chmodDirectory
  | openTemporary
  | writeTemporary
  | syncTemporary
  | closeTemporary
  | rename
  | chmodFile
  | openDirectory
  | syncDirectory
  | closeDirectory
  deriving DecidableEq

def WriteStep.following : WriteStep → Option WriteStep
  | .mkdir => some .chmodDirectory
  | .chmodDirectory => some .openTemporary
  | .openTemporary => some .writeTemporary
  | .writeTemporary => some .syncTemporary
  | .syncTemporary => some .closeTemporary
  | .closeTemporary => some .rename
  | .rename => some .chmodFile
  | .chmodFile => some .openDirectory
  | .openDirectory => some .syncDirectory
  | .syncDirectory => some .closeDirectory
  | .closeDirectory => none

inductive Phase where
  | reading
  /-- The step is the next one to be taken. -/
  | writing (credential : Credential) (document : Document) (step : WriteStep)
  /-- A step has failed and the temporary file is removed. -/
  | cleaning
  | resolved (credential : Credential)
  | rejected

inductive Call where
  | rotate (phase : Phase)
  | authenticating (authorization : Option JsText) (parsed : ParsedConnectorToken)
  | authenticated (authorization : Option JsText) (outcome : Except Unit Bool)

structure State where
  file : Option Document
  /-- The credential whose document was renamed to the file last. -/
  inForce : Option Credential
  /-- A rotation has resolved, and none has started since. -/
  settled : Bool
  calls : Nat → Option Call

def start : State where
  file := none
  inForce := none
  settled := false
  calls := fun _ => none

inductive Event where
  | rotate (number : Nat)
  /-- A rotation reads the file, and draws its credential and the time. -/
  | read (number : Nat) (credential : Credential) (now : JsText)
  | step (number : Nat)
  | fail (number : Nat)
  | authenticate (number : Nat) (authorization : Option JsText)
  | load (number : Nat)

def State.setCall (s : State) (number : Nat) (call : Call) : State :=
  { s with calls := Function.update s.calls number (some call) }

def State.read (s : State) (number : Nat) (credential : Credential) (now : JsText) : State :=
  match readDocument p s.file with
  | .error _ => s.setCall number (.rotate .rejected)
  | .ok previous =>
    match issue p previous credential now with
    | none => s.setCall number (.rotate .rejected)
    | some document => s.setCall number (.rotate (.writing credential document .mkdir))

def State.write (s : State) (number : Nat) (credential : Credential) (document : Document)
    (step : WriteStep) : State :=
  let s := if step = .rename then { s with file := some document, inForce := some credential } else s
  match step.following with
  | some later => s.setCall number (.rotate (.writing credential document later))
  | none => { s.setCall number (.rotate (.resolved credential)) with settled := true }

def failed : WriteStep → Phase
  | .mkdir | .chmodDirectory => .rejected
  | _ => .cleaning

def next (s : State) : Event → Option State
  | .rotate number =>
    match s.calls number with
    | none => some { s.setCall number (.rotate .reading) with settled := false }
    | some _ => none
  | .read number credential now =>
    match s.calls number with
    | some (.rotate .reading) =>
      if p.isIsoTimestamp now then some (s.read p number credential now) else none
    | _ => none
  | .step number =>
    match s.calls number with
    | some (.rotate (.writing credential document step)) =>
      some (s.write number credential document step)
    | some (.rotate .cleaning) => some (s.setCall number (.rotate .rejected))
    | _ => none
  | .fail number =>
    match s.calls number with
    | some (.rotate .reading) => some (s.setCall number (.rotate .rejected))
    | some (.rotate (.writing _ _ step)) => some (s.setCall number (.rotate (failed step)))
    | _ => none
  | .authenticate number authorization =>
    match s.calls number with
    | none =>
      match parseAuthorization authorization with
      | none => some (s.setCall number (.authenticated authorization (.ok false)))
      | some parsed => some (s.setCall number (.authenticating authorization parsed))
    | some _ => none
  | .load number =>
    match s.calls number with
    | some (.authenticating authorization parsed) =>
      some (s.setCall number (.authenticated authorization (verify p parsed s.file)))
    | _ => none

end KodeGpt.ConnectorCredentials
