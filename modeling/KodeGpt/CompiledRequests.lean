import KodeGpt.ProviderExecutions
import KodeGpt.UrlReferences

/-!
How an operation of a provider becomes a request: the checks of a compiled operation, the
substitution of the path's parameters, the query, the body and the headers.
-/

namespace KodeGpt.CompiledRequests

open JsonDocuments JsFrames JsObjects PercentTexts UrlReferences
open FallibleActions (bind_eq_ok_iff)
open JsonText (Bytes)
open ListCuts (cutFirst)
open TextEncodings (encodeUtf16)
open NodePaths (lossyString dotName dotDotName slash)
open ProviderExecutions (Failure Method invalid denied throwIf CompiledRequest)

abbrev Members := List (JsText × JsValue)

def originText (hostname : String) (port : Option Nat) : String :=
  "https://" ++ hostname ++
    match port with
    | none => ""
    | some port => ":" ++ toString port

/-- An origin that has been validated: it is the text of its own host and port. -/
structure ExactOrigin where
  hostname : String
  port : Option Nat
  deriving DecidableEq

def ExactOrigin.text (origin : ExactOrigin) : String := originText origin.hostname origin.port

structure Operation where
  id : String
  method : Method
  origin : ExactOrigin
  pathTemplate : JsText
  allowedQueryKeys : List JsText
  fixedHeaders : List (String × String)
  deriving DecidableEq

/-- `/^[A-Za-z0-9][A-Za-z0-9._:+-]{0,127}$/` -/
def isAuthorityId (text : List Char) : Bool :=
  text.length ≤ 128 &&
    (match text with
    | [] => false
    | first :: rest =>
      isAlphanumeric first &&
        rest.all fun character =>
          isAlphanumeric character || ['.', '_', ':', '+', '-'].contains character)

/-- `[A-Za-z0-9._-]` -/
def isKeyUnit (unit : UInt16) : Bool :=
  unit.toNat < 128 &&
    (isAlphanumeric (Char.ofNat unit.toNat) || unit = 46 || unit = 95 || unit = 45)

def isQueryKey (key : JsText) : Bool := key ≠ [] && key.length ≤ 128 && key.all isKeyUnit

def lowerUnit (unit : UInt16) : UInt16 := if 65 ≤ unit ∧ unit ≤ 90 then unit + 32 else unit

def forbiddenTexts : List JsText :=
  ["http:", "https:", "\x7burl\x7d", "\x7buri\x7d", "\x7bhost\x7d", "\x7bhostname\x7d",
    "\x7borigin\x7d", "\x7bmethod\x7d", "\x7bheader\x7d", "\x7bheaders\x7d"].map asciiUnits

def isPathTemplate (template : JsText) : Bool :=
  template.head? = some slash && !([slash, slash].isPrefixOf template) && template.length ≤ 2048 &&
    forbiddenTexts.all (fun text => (cutFirst text (template.map lowerUnit)).isNone) &&
    !template.contains 0

def credentialHeaders : List String :=
  ["authorization", "proxy-authorization", "cookie", "set-cookie"]

def lowerName (name : String) : String := String.ofList (name.toList.map Char.toLower)

/-- `/^[A-Za-z0-9-]{1,128}$/` and `/[{}\r\n\0]/`. -/
def isFixedHeader (header : String × String) : Bool :=
  header.1 ≠ "" && header.1.length ≤ 128 &&
    header.1.toList.all (fun character => isAlphanumeric character || character = '-') &&
    header.2.toList.all fun character =>
      !(['\x7b', '\x7d', '\r', '\n', Char.ofNat 0].contains character)

def validateFixedHeader (header : String × String) : Except Failure Unit := do
  throwIf (isFixedHeader header = false)
    (invalid "Provider operation headers must be fixed compiled values")
  throwIf (lowerName header.1 ∈ credentialHeaders)
    (invalid "Credential-bearing headers are injected only by provider transport")

def validateOperation (operation : Operation) (origins : List ExactOrigin) :
    Except Failure Unit := do
  throwIf (isAuthorityId operation.id.toList = false) (invalid "Invalid provider operation id")
  throwIf (operation.origin ∉ origins)
    (invalid "Provider operation origin must be owned by its compiled network policy")
  throwIf (isPathTemplate operation.pathTemplate = false)
    (invalid "Provider adapters must define a fixed provider operation path template")
  throwIf (operation.allowedQueryKeys.all isQueryKey = false)
    (invalid "Provider operation query keys must be fixed compiled names")
  operation.fixedHeaders.forM validateFixedHeader

/-- An operation of a manifest that the adapter registry has accepted. -/
structure CompiledOperation extends Operation where
  origins : List ExactOrigin
  valid : validateOperation toOperation origins = .ok ()

def openBrace : UInt16 := 123

def closeBrace : UInt16 := 125

def placeholderName (text : JsText) : Option JsText :=
  match text with
  | [] => none
  | first :: rest =>
    let name := rest.takeWhile isKeyUnit
    if first = openBrace ∧ name ≠ [] ∧ (rest.drop name.length).head? = some closeBrace then
      some name
    else none

inductive Piece where
  | unit (value : UInt16)
  | parameter (name : JsText)
  deriving DecidableEq

/-- The matches of `/\{([A-Za-z0-9._-]+)\}/g`, with the text around them. What is skipped
belongs to a match. -/
def templatePieces : Nat → JsText → List Piece
  | _, [] => []
  | skipped + 1, _ :: rest => templatePieces skipped rest
  | 0, first :: rest =>
    match placeholderName (first :: rest) with
    | some name => .parameter name :: templatePieces (name.length + 1) rest
    | none => .unit first :: templatePieces 0 rest

def pieces (template : JsText) : List Piece := templatePieces 0 template

def Piece.name? : Piece → Option JsText
  | .unit _ => none
  | .parameter name => some name

def expectedParameters (template : JsText) : List JsText :=
  ((pieces template).filterMap Piece.name?).eraseDups

def placeholder (name : JsText) : JsText := openBrace :: name ++ [closeBrace]

/-- Every occurrence of the pattern is replaced, from the left. The replacement has no dollar
sign, which would stand for a part of the text. -/
def replaceAll (pattern replacement : JsText) : Nat → JsText → JsText
  | _, [] => []
  | skipped + 1, _ :: rest => replaceAll pattern replacement skipped rest
  | 0, first :: rest =>
    if pattern.isPrefixOf (first :: rest) then
      replacement ++ replaceAll pattern replacement (pattern.length - 1) rest
    else first :: replaceAll pattern replacement 0 rest

def isControl (unit : UInt16) : Bool := unit ≤ 31 || unit = 127

def hasControl (text : JsText) : Bool := text.any isControl

def isSafeParameter (value : JsText) : Bool :=
  !hasControl value && value ≠ dotName && value ≠ dotDotName && !value.contains slash &&
    !value.contains 92

/-- `/\{[^}]+\}/` -/
def hasBraces : JsText → Bool
  | [] => false
  | first :: rest =>
    (first = openBrace && rest.takeWhile (· ≠ closeBrace) ≠ [] && rest.contains closeBrace) ||
      hasBraces rest

def ownMembers : JsValue → Members
  | .object members => members
  | _ => []

def parameterValue (parameters : Members) (name : JsText) : Option JsValue :=
  (parameters.find? fun member => member.1 = name).map Prod.snd

/-- One round of the loop. A surrogate on its own makes `encodeURIComponent` throw. -/
def substituteParameter (parameters : Members) (output name : JsText) : Except Failure JsText :=
  match parameterValue parameters name with
  | none => .error (invalid "Provider request encoder omitted a required path parameter")
  | some (.string value) =>
    if isSafeParameter value = false then .error (invalid "Provider path parameter is unsafe")
    else
      match encodeURIComponent value with
      | none => .error .other
      | some encoded => .ok (replaceAll (placeholder name) encoded 0 output)
  | some _ => .error (invalid "Provider path parameter is unsafe")

def substitutePathParameters (template : JsText) (parameters : JsValue) :
    Except Failure JsText := do
  throwIf (isRecord parameters = false)
    (invalid "Provider path parameters must be a typed object")
  throwIf (∃ member ∈ ownMembers parameters, member.1 ∉ expectedParameters template)
    (invalid "Provider request encoder emitted an unapproved path parameter")
  let output ← (expectedParameters template).foldlM
    (substituteParameter (ownMembers parameters)) template
  throwIf (hasControl output = true ∨ hasBraces output = true)
    (invalid "Provider request path is invalid")
  .ok output

/-- `String(value)`, of a value that a query may have. -/
def scalarText : JsValue → JsText
  | .string units => units
  | .number (.finite text) => encodeUtf16 text.text
  | .boolean true => asciiUnits "true"
  | .boolean false => asciiUnits "false"
  | _ => []

def queryScalar (value : JsValue) : Except Failure JsText :=
  match value with
  | .number .nonFinite => .error (invalid "Provider query number is invalid")
  | .string _ | .number _ | .boolean _ =>
    if hasControl (scalarText value) then
      .error (invalid "Provider query value contains control characters")
    else .ok (scalarText value)
  | _ => .error (invalid "Provider query value is invalid")

def maxQueryItems : Nat := 1000

def queryTexts (value : JsValue) : Except Failure (List JsText) :=
  match value with
  | .array items =>
    if maxQueryItems < items.length then
      .error (invalid "Provider query collection is too large")
    else items.mapM queryScalar
  | value => do
    let text ← queryScalar value
    .ok [text]

def entryPairs (allowed : List JsText) (entry : JsText × JsValue) :
    Except Failure (List (JsText × JsText)) := do
  throwIf (entry.1 ∉ allowed)
    (invalid "Provider request encoder emitted an unapproved query key")
  let texts ← queryTexts entry.2
  .ok (texts.map fun text => (entry.1, text))

def searchPair (pair : JsText × JsText) : FormPair := (lossyString pair.1, lossyString pair.2)

/-- `url.searchParams.append`, of every pair. -/
def appendPairs (url : Url) (pairs : List (JsText × JsText)) : Url :=
  if pairs = [] then url
  else { url with
    query := some (formSerialize (formParse (url.query.getD []) ++ pairs.map searchPair)) }

inductive CredentialKind where
  | bearer
  | opaqueValue
  deriving DecidableEq

structure Credential where
  kind : CredentialKind
  value : String
  deriving DecidableEq

structure Request where
  url : Url
  headers : List (String × String)
  body : Option Bytes
  deriving DecidableEq

def Url.originText (url : Url) : String := CompiledRequests.originText url.hostname url.port

def Url.isSafe (url : Url) : Bool :=
  url.username = [] && url.password = [] && (url.fragment.getD [] = [])

def encodedKeys : List JsText :=
  [asciiUnits "pathParameters", asciiUnits "query", asciiUnits "body"]

/-- `value ?? {}` -/
def orEmpty : JsValue → JsValue
  | .undefined | .null => .object []
  | value => value

def pathParameters (encoded : JsValue) : JsValue :=
  orEmpty (member encoded (asciiUnits "pathParameters"))

def query (encoded : JsValue) : JsValue := orEmpty (member encoded (asciiUnits "query"))

def maxRequestBodyBytes : Nat := 256 * 1024

def requestBody (encoded : JsValue) : Except Failure (Option Bytes) :=
  let value := member encoded (asciiUnits "body")
  if isUndefined value then .ok none
  else
    match value.stringify with
    | .ok (some document) =>
      if maxRequestBodyBytes < document.bytes.length then
        .error (invalid "Provider request body exceeds the gateway hard ceiling")
      else .ok (some document.bytes)
    | _ => .error (invalid "Provider request body is not serializable JSON")

def setHeader (headers : List (String × String)) (name value : String) : List (String × String) :=
  if headers.any (·.1 = name) then
    headers.map fun header => if header.1 = name then (name, value) else header
  else headers ++ [(name, value)]

def authorization : Credential → String
  | ⟨.bearer, value⟩ => "Bearer " ++ value
  | ⟨.opaqueValue, value⟩ => value

def bodyHeaders (fixedHeaders : List (String × String)) (body : Option Bytes) :
    List (String × String) :=
  match body with
  | none => fixedHeaders
  | some bytes => setHeader fixedHeaders "content-length" (toString bytes.length)

def requestHeaders (fixedHeaders : List (String × String)) (body : Option Bytes)
    (credential : Option Credential) : Except Failure (List (String × String)) :=
  match credential with
  | none => .ok (bodyHeaders fixedHeaders body)
  | some credential =>
    if credential.value.toList.any (['\r', '\n', Char.ofNat 0].contains ·) then
      .error (.of .credentialRejected "Provider credential framing is invalid")
    else
      .ok (setHeader (bodyHeaders fixedHeaders body) "authorization" (authorization credential))

section Building

variable (parseHost : List Char → Option String)

def ExactOrigin.authority (origin : ExactOrigin) : Authority :=
  ⟨origin.hostname, origin.port, [], []⟩

def requestUrl (operation : Operation) (path : JsText) : Except Failure Url :=
  match parseReference parseHost operation.origin.authority path with
  | none => .error .other
  | some url => do
    throwIf (Url.isSafe url = false) (denied "Provider URL violates compiled HTTPS authority")
    throwIf (Url.originText url ≠ operation.origin.text)
      (invalid "Provider request escaped its compiled origin")
    .ok url

def buildCompiledRequest (operation : Operation) (encoded : JsValue)
    (credential : Option Credential) : Except Failure Request := do
  throwIf (isRecord encoded = false) (invalid "Provider request encoder result is invalid")
  throwIf (exactKeys encoded encodedKeys = false)
    (invalid "Provider request encoder emitted unsupported authority")
  let path ← substitutePathParameters operation.pathTemplate (pathParameters encoded)
  let url ← requestUrl parseHost operation path
  throwIf (isRecord (query encoded) = false)
    (invalid "Provider request query must be a typed object")
  let pairs ← (ownMembers (query encoded)).mapM (entryPairs operation.allowedQueryKeys)
  let body ← requestBody encoded
  let headers ← requestHeaders operation.fixedHeaders body credential
  .ok { url := appendPairs url pairs.flatten, headers, body }

/-- An operation as a manifest has it, with the kind of credential of its broker. -/
structure OperationDefinition (Input : Type) where
  compiled : CompiledOperation
  inputSchema : Input → Option Input
  /-- An encoder that throws has no result. -/
  encodeRequest : Input → Option JsValue
  credentialKind : CredentialKind

def urlText (text : JsText) : String := String.ofList (lossyString text)

def Url.exchanged (url : Url) : ProviderExecutions.Url where
  origin := Url.originText url
  hostname := url.hostname
  path := urlText url.pathname ++
    match url.query with
    | none => ""
    | some query => if query = [] then "" else "?" ++ urlText query
  safe := Url.isSafe url

def Request.exchanged (request : Request) : CompiledRequest :=
  ⟨Url.exchanged request.url, request.headers, request.body⟩

def compileRequest {Input : Type} (definition : OperationDefinition Input) (input : Input)
    (credential : Option ProviderExecutions.Credential) : Except Failure CompiledRequest :=
  match definition.inputSchema input with
  | none => .error (invalid "Provider operation input is invalid")
  | some parsed =>
    match definition.encodeRequest parsed with
    | none => .error (invalid "Provider request encoder rejected operation input")
    | some encoded => do
      let request ← buildCompiledRequest parseHost definition.compiled.toOperation encoded
        (credential.map fun credential => ⟨definition.credentialKind, credential.value⟩)
      .ok (Request.exchanged request)

def OperationDefinition.operation {Input : Type} (definition : OperationDefinition Input) :
    ProviderExecutions.Operation Input where
  id := definition.compiled.id
  method := definition.compiled.method
  compile := compileRequest parseHost definition

theorem throwIf_eq_ok {condition : Prop} [Decidable condition] {failure : Failure} {value : Unit} :
    throwIf condition failure = .ok value ↔ ¬condition := by
  rw [throwIf]
  split
  · rename_i h
    exact ⟨nofun, fun hnot => absurd h hnot⟩
  · rename_i h
    exact ⟨fun _ => h, fun _ => rfl⟩

variable {parseHost}

theorem buildCompiledRequest_iff {operation : Operation} {encoded : JsValue}
    {credential : Option Credential} {request : Request} :
    buildCompiledRequest parseHost operation encoded credential = .ok request ↔
      isRecord encoded = true ∧ exactKeys encoded encodedKeys = true ∧
      ∃ path url pairs body headers,
        substitutePathParameters operation.pathTemplate (pathParameters encoded) = .ok path ∧
        requestUrl parseHost operation path = .ok url ∧ isRecord (query encoded) = true ∧
        (ownMembers (query encoded)).mapM (entryPairs operation.allowedQueryKeys) = .ok pairs ∧
        requestBody encoded = .ok body ∧
        requestHeaders operation.fixedHeaders body credential = .ok headers ∧
        request = ⟨appendPairs url pairs.flatten, headers, body⟩ := by
  simp only [buildCompiledRequest, bind_eq_ok_iff, throwIf_eq_ok, Bool.not_eq_false,
    exists_and_left, exists_const, Except.ok.injEq, @eq_comm _ request]

end Building

end KodeGpt.CompiledRequests
