import KodeGpt.FallibleActions
import KodeGpt.JsonText

/-!
One execution at a provider: the checks before it, the one attempt that a mutation has,
what the network does in it, and how its failures are classified.
-/

namespace KodeGpt.ProviderExecutions

open FallibleActions JsonText

inductive ErrorCode where
  | inputInvalid
  | stateInvalid
  | notAdmitted
  | disabled
  | identityChanged
  | credentialUnavailable
  | credentialRejected
  | networkDenied
  | unavailable
  | timeout
  | cancelled
  | rateLimited
  | responseInvalid
  | outputLimitExceeded
  | toolUnavailable
  | inventoryChanged
  | requestFailed
  | mutationOutcomeUnknown
  | auditUnavailable
  deriving DecidableEq

structure CapabilityError where
  code : ErrorCode
  message : String
  deriving DecidableEq

/-- What is thrown: an error with a code of the providers, or any other one. -/
inductive Failure where
  | provider (error : CapabilityError)
  | other
  deriving DecidableEq

def Failure.of (code : ErrorCode) (message : String) : Failure := .provider ⟨code, message⟩

def invalid (message : String) : Failure := .of .inputInvalid message

def denied (message : String) : Failure := .of .networkDenied message

def responseInvalid (message : String) : Failure := .of .responseInvalid message

def unavailable (message : String) : Failure := .of .unavailable message

def asProviderFailure : Failure → CapabilityError
  | .provider error => error
  | .other => ⟨.requestFailed, "Provider semantic execution failed"⟩

def isRetryable : Failure → Bool
  | .provider error => error.code = .unavailable || error.code = .timeout
  | .other => false

def isAmbiguousMutationFailure (error : CapabilityError) : Bool :=
  error.code = .unavailable || error.code = .timeout || error.code = .cancelled

def mutationOutcomeUnknown : Failure :=
  .of .mutationOutcomeUnknown
    "Provider mutation outcome is unknown; inspect remote state before retrying"

/-- `caller` and `totalTimeout` end the operation, `attemptTimeout` ends the attempt. -/
inductive AbortReason where
  | caller
  | totalTimeout
  | attemptTimeout
  deriving DecidableEq

def abortError : AbortReason → Failure
  | .caller => .of .cancelled "Provider operation was cancelled"
  | .totalTimeout => .of .timeout "Provider operation exceeded its total deadline"
  | .attemptTimeout => .of .timeout "Provider network attempt timed out"

inductive Effect where
  | remoteRead
  | remoteMutation
  deriving DecidableEq

inductive Retry where
  | none
  | oneIdempotentRead
  deriving DecidableEq

inductive WorkspaceBinding where
  | required
  | optional
  | none
  deriving DecidableEq

inductive InventoryMode where
  | static
  | dynamic
  deriving DecidableEq

def maxRequests : Nat := 8

/-- A mapping that the adapter registry has accepted. -/
structure Mapping (Input Value : Type) where
  semanticCapabilityId : String
  adapterId : String
  adapterOperationId : String
  effect : Effect
  workspaceBinding : WorkspaceBinding
  inputSchema : Input → Option Input
  /-- The decoding of the response's body, with the schema and the mapping of the output. -/
  output : Bytes → Input → Except Failure Value
  maxProviderRequests : Nat
  retry : Retry
  bounded : 1 ≤ maxProviderRequests ∧ maxProviderRequests ≤ maxRequests
  once : effect = .remoteMutation → retry = .none ∧ maxProviderRequests = 1

inductive Method where
  | get
  | post
  | put
  deriving DecidableEq

inductive Family where
  | v4
  | v6
  deriving DecidableEq

structure Address where
  address : String
  family : Family
  deriving DecidableEq

structure Url where
  origin : String
  hostname : String
  path : String
  /-- The protocol is https, and there are neither credentials nor a fragment. -/
  safe : Bool
  deriving DecidableEq

structure CompiledRequest where
  url : Url
  headers : List (String × String)
  body : Option Bytes
  deriving DecidableEq

structure HttpsRequest where
  address : Address
  url : Url
  method : Method
  headers : List (String × String)
  body : Option Bytes
  deriving DecidableEq

structure Head where
  statusCode : Nat
  location : Option String
  deriving DecidableEq

structure HttpsResponse where
  head : Head
  body : Bytes
  deriving DecidableEq

/-- `requests` are those claimed of the budget, `sent` those handed to the requester. -/
structure World where
  requests : Nat
  sent : List HttpsRequest
  deriving DecidableEq

def World.start : World := ⟨0, []⟩

inductive ExchangeEvent where
  | answer (head : Head)
  | data (chunk : Bytes)
  | ended
  | failed (timedOut : Bool)
  | aborted (reason : AbortReason)
  deriving DecidableEq

inductive Reply where
  | complete (head : Head) (body : Bytes)
  | oversized (head : Head)
  | broken (timedOut : Bool)
  | aborted (reason : AbortReason)
  deriving DecidableEq

def maxMetadataResponseBytes : Nat := 2 * 1024 * 1024

/-- The requester collects the body; an exchange that never ends is ended by the timer of
the attempt. -/
def receive : Option Head → Bytes → List ExchangeEvent → Reply
  | _, _, [] => .aborted .attemptTimeout
  | _, _, .aborted reason :: _ => .aborted reason
  | _, _, .failed timedOut :: _ => .broken timedOut
  | none, received, .answer head :: rest => receive (some head) received rest
  | none, received, _ :: rest => receive none received rest
  | some head, received, .data chunk :: rest =>
    if maxMetadataResponseBytes < received.length + chunk.length then .oversized head
    else receive (some head) (received ++ chunk) rest
  | some head, received, .ended :: _ => .complete head received
  | some head, received, .answer _ :: rest => receive (some head) received rest

inductive Lookup where
  | answers (addresses : List Address)
  | failed (error : Option CapabilityError)
  | aborted (reason : AbortReason)
  deriving DecidableEq

/-- What happens around one request: an abort before it, the lookup, and the exchange. -/
structure Exchange where
  abortedBefore : Option AbortReason
  lookup : Lookup
  events : List ExchangeEvent
  deriving DecidableEq

def Exchange.reply (exchange : Exchange) : Reply := receive none [] exchange.events

def refuseIf (condition : Prop) [Decidable condition] (failure : Failure) :
    EStateM Failure World Unit :=
  if condition then throw failure else pure ()

def assertActive (aborted : Option AbortReason) : EStateM Failure World Unit :=
  match aborted with
  | some reason => throw (abortError reason)
  | none => pure ()

def claimRequest (limit : Nat) (aborted : Option AbortReason) : EStateM Failure World Unit := do
  assertActive aborted
  let world ← get
  refuseIf (limit ≤ world.requests) (.of .requestFailed "Provider request budget is exhausted")
  set { world with requests := world.requests + 1 }

def resolveHost (lookup : Lookup) : Except Failure (List Address) :=
  match lookup with
  | .answers addresses => .ok addresses
  | .failed (some error) => .error (.provider error)
  | .failed none => .error (unavailable "Provider DNS resolution failed")
  | .aborted reason => .error (abortError reason)

def selectProviderInternetAddress (allowed : Address → Bool) (addresses : List Address) :
    Except Failure Address :=
  match addresses with
  | [] => .error (denied "Provider DNS returned no addresses")
  | first :: _ =>
    if addresses.all allowed then
      .ok ((addresses.find? fun answer => answer.family = .v4).getD first)
    else .error (denied "Provider DNS resolved to a denied address class")

def checkReply : Reply → Except Failure HttpsResponse
  | .complete head body =>
    if maxMetadataResponseBytes < body.length then
      .error (responseInvalid "Provider response exceeded its bounded transport size")
    else if head.statusCode < 100 ∨ 599 < head.statusCode then
      .error (responseInvalid "Provider returned an invalid HTTP status")
    else .ok ⟨head, body⟩
  | .oversized _ => .error (responseInvalid "Provider response exceeded its bounded transport size")
  | .broken true => .error (.of .timeout "Provider network attempt timed out")
  | .broken false => .error (unavailable "Provider network request failed")
  | .aborted reason => .error (abortError reason)

section Transport

variable (allowed : Address → Bool)

def requestOnce (limit : Nat) (method : Method) (request : CompiledRequest) (exchange : Exchange) :
    EStateM Failure World HttpsResponse := do
  claimRequest limit exchange.abortedBefore
  let answers ← MonadExcept.ofExcept (resolveHost exchange.lookup)
  let address ← MonadExcept.ofExcept (selectProviderInternetAddress allowed answers)
  modify fun world => { world with
    sent := world.sent ++ [⟨address, request.url, method, request.headers, request.body⟩] }
  MonadExcept.ofExcept (checkReply exchange.reply)

def isRedirect (statusCode : Nat) : Bool := [301, 302, 303, 307, 308].contains statusCode

structure RawResponse where
  statusCode : Nat
  body : Bytes
  finalOrigin : String
  deriving DecidableEq

def normalizeStatus (response : HttpsResponse) (finalOrigin : String) (hadCredential : Bool) :
    Except Failure RawResponse :=
  let statusCode := response.head.statusCode
  if statusCode = 429 then .error (.of .rateLimited "Provider rate limited the request")
  else if (statusCode = 401 ∨ statusCode = 403) ∧ hadCredential = true then
    .error (.of .credentialRejected "Provider rejected the operation credential")
  else if statusCode = 408 ∨ statusCode = 504 then
    .error (.of .timeout "Provider request timed out")
  else if 500 ≤ statusCode then .error (unavailable "Provider is unavailable")
  else if statusCode < 200 ∨ 400 ≤ statusCode then
    .error (.of .requestFailed "Provider request failed")
  else .ok ⟨statusCode, response.body, finalOrigin⟩

structure RedirectPolicy where
  fromOrigin : String
  toOrigin : String
  deriving DecidableEq

/-- The checks of a redirection. `parseUrl` reads a location relative to a URL. -/
def redirectTarget (parseUrl : Url → String → Option Url) (redirect : Option RedirectPolicy)
    (url : Url) (location : Option String) : Except Failure Url :=
  match redirect with
  | none => .error (denied "Provider redirect is not permitted by compiled policy")
  | some policy =>
    if policy.fromOrigin ≠ url.origin then
      .error (denied "Provider redirect is not permitted by compiled policy")
    else
      match location with
      | none => .error (responseInvalid "Provider redirect response is invalid")
      | some location =>
        match parseUrl url location with
        | none => .error (responseInvalid "Provider redirect location is invalid")
        | some target =>
          if target.safe = false then
            .error (denied "Provider URL violates compiled HTTPS authority")
          else if target.origin ≠ policy.toOrigin then
            .error (denied "Provider redirect target origin is not permitted")
          else .ok target

structure Credential where
  value : String
  deriving DecidableEq

structure Operation (Input : Type) where
  id : String
  method : Method
  /-- The input's schema, the encoder, and the assembly of the request with the credential. -/
  compile : Input → Option Credential → Except Failure CompiledRequest

structure Manifest (Input : Type) where
  adapterId : String
  adapterContractVersion : String
  inventoryMode : InventoryMode
  redirect : Option RedirectPolicy
  operations : List (Operation Input)

/-- What the network does in one attempt: an abort before it, the exchange of the request,
and the one of a redirection. -/
structure Attempt where
  abortedBefore : Option AbortReason
  first : Exchange
  second : Exchange
  deriving DecidableEq

variable {Input Value : Type} (parseUrl : Url → String → Option Url)

def request (limit : Nat) (manifest : Manifest Input) (operationId : String)
    (operationInput : Input) (credential : Option Credential) (attempt : Attempt) :
    EStateM Failure World RawResponse := do
  assertActive attempt.abortedBefore
  match manifest.operations.find? fun operation => operation.id = operationId with
  | none => throw (Failure.of .toolUnavailable "Compiled provider operation is unavailable")
  | some operation =>
    let compiled ← MonadExcept.ofExcept (operation.compile operationInput credential)
    let first ← requestOnce allowed limit operation.method compiled attempt.first
    if isRedirect first.head.statusCode = false then
      MonadExcept.ofExcept (normalizeStatus first compiled.url.origin credential.isSome)
    else
      let target ← MonadExcept.ofExcept
        (redirectTarget parseUrl manifest.redirect compiled.url first.head.location)
      let second ← requestOnce allowed limit operation.method
        { compiled with
          url := target
          headers := compiled.headers.filter fun header => header.1 ≠ "authorization" }
        attempt.second
      if isRedirect second.head.statusCode then
        throw (denied "Provider redirect depth exceeded compiled policy")
      else MonadExcept.ofExcept (normalizeStatus second target.origin credential.isSome)

def canRetry (mapping : Mapping Input Value) (attempt requests : Nat) (aborted : Bool) : Bool :=
  !aborted && mapping.retry = .oneIdempotentRead && mapping.effect = .remoteRead && attempt = 0 &&
    requests < min maxRequests mapping.maxProviderRequests

def requestAttempts (mapping : Mapping Input Value) (manifest : Manifest Input)
    (operationInput : Input) (credential : Option Credential) (first second : Attempt) :
    EStateM Failure World RawResponse :=
  let attempt := request allowed parseUrl mapping.maxProviderRequests manifest
    mapping.adapterOperationId operationInput credential
  tryCatch (attempt first) fun failure => do
    let world ← get
    if canRetry mapping 0 world.requests second.abortedBefore.isSome = true ∧
        isRetryable failure = true then
      attempt second
    else throw failure

end Transport

structure ProviderRecord where
  providerInstanceId : String
  adapterId : String
  adapterContractVersion : String
  enabled : Bool
  implementationFingerprint : String
  inventoryMode : InventoryMode
  approvedInventoryFingerprint : Option String
  deriving DecidableEq

inductive Network where
  | deny
  | unrestricted
  deriving DecidableEq

structure WorkspaceAuthority where
  workspaceId : String
  network : Network
  deriving DecidableEq

structure ExecutionInput (Input : Type) where
  semanticCapabilityId : String
  providerInstanceId : String
  workspaceId : Option String
  input : Input

structure Inventory where
  adapterContractVersion : String
  fingerprint : String
  deriving DecidableEq

structure Result (Value : Type) where
  semanticCapabilityId : String
  providerInstanceId : String
  value : Value
  deriving DecidableEq

/-- What an execution calls, with the answers that it gets. -/
structure Execution (Input Value : Type) where
  parseSemanticInput : Except Failure (ExecutionInput Input)
  requireMapping : String → Except Failure (Mapping Input Value)
  getProvider : String → Except Failure (Option ProviderRecord)
  requireAdapter : String → Except Failure (Manifest Input)
  resolveIdentity : Manifest Input → ProviderRecord → Except Failure String
  resolveWorkspace : String → Except Failure WorkspaceAuthority
  operationId : Except Failure String
  decisionAudit : Except Failure Unit
  acquireCredential : Except Failure (Option Credential)
  fetchInventory : Except Failure Inventory
  allowed : Address → Bool
  parseUrl : Url → String → Option Url
  first : Attempt
  second : Attempt
  fit : Value → Except Failure Value
  successAudit : Except Failure Unit
  failureAudit : Except Failure Unit

variable {Input Value : Type}

def throwIf (condition : Prop) [Decidable condition] (failure : Failure) : Except Failure Unit :=
  if condition then .error failure else .ok ()

def enforceWorkspace (x : Execution Input Value) (binding : WorkspaceBinding)
    (workspaceId : Option String) : Except Failure Unit :=
  match binding, workspaceId with
  | .none, _ => .ok ()
  | .required, none => .error (invalid "Provider semantic mapping requires a workspace")
  | .optional, none => .ok ()
  | _, some workspaceId =>
    match x.resolveWorkspace workspaceId with
    | .error _ => .error (denied "Workspace is not ready for provider network access")
    | .ok authority =>
      throwIf (authority.workspaceId ≠ workspaceId ∨ authority.network ≠ .unrestricted)
        (denied "Workspace profile denies provider network access")

/-- What the execution has found before its first audit. -/
structure Admission (Input Value : Type) where
  mapping : Mapping Input Value
  manifest : Manifest Input
  provider : ProviderRecord
  input : Input

def requireProvider (x : Execution Input Value) (providerInstanceId : String) :
    Except Failure ProviderRecord := do
  match ← x.getProvider providerInstanceId with
  | none => .error (.of .notAdmitted "Provider is not admitted")
  | some provider => .ok provider

def admitProvider (x : Execution Input Value) (mapping : Mapping Input Value)
    (provider : ProviderRecord) : Except Failure (Manifest Input) := do
  throwIf (provider.enabled = false) (.of .disabled "Provider is disabled")
  throwIf (provider.adapterId ≠ mapping.adapterId)
    (.of .toolUnavailable "Semantic mapping is not available for the selected provider")
  let manifest ← x.requireAdapter provider.adapterId
  throwIf (provider.adapterContractVersion ≠ manifest.adapterContractVersion ∨
      provider.inventoryMode ≠ manifest.inventoryMode)
    (.of .identityChanged "Provider adapter identity changed and requires reapproval")
  let fingerprint ← x.resolveIdentity manifest provider
  throwIf (fingerprint ≠ provider.implementationFingerprint)
    (.of .identityChanged "Provider implementation identity changed and requires reapproval")
  throwIf (manifest.inventoryMode = .dynamic ∧ provider.approvedInventoryFingerprint = none)
    (.of .inventoryChanged "Provider dynamic inventory is not approved")
  .ok manifest

def checkAdmission (x : Execution Input Value) : Except Failure (Admission Input Value) := do
  let parsed ← x.parseSemanticInput
  let mapping ← x.requireMapping parsed.semanticCapabilityId
  match mapping.inputSchema parsed.input with
  | none =>
    .error (invalid "Provider semantic input does not match the reviewed mapping schema")
  | some input =>
    let provider ← requireProvider x parsed.providerInstanceId
    let manifest ← admitProvider x mapping provider
    enforceWorkspace x mapping.workspaceBinding parsed.workspaceId
    let _ ← x.operationId
    .ok ⟨mapping, manifest, provider, input⟩

def verifyDynamicInventory (x : Execution Input Value) (manifest : Manifest Input)
    (provider : ProviderRecord) : Except Failure Unit := do
  let inventory ← x.fetchInventory
  throwIf (inventory.adapterContractVersion ≠ manifest.adapterContractVersion)
    (.of .inventoryChanged "Provider inventory adapter contract changed")
  throwIf (some inventory.fingerprint ≠ provider.approvedInventoryFingerprint)
    (.of .inventoryChanged "Provider inventory changed and requires reapproval")

def prepare (x : Execution Input Value) (manifest : Manifest Input) (provider : ProviderRecord) :
    Except Failure (Option Credential) := do
  let credential ← x.acquireCredential
  if manifest.inventoryMode = .dynamic then verifyDynamicInventory x manifest provider
  .ok credential

def conclude (x : Execution Input Value) (admission : Admission Input Value)
    (response : RawResponse) : Except Failure (Result Value) := do
  let semanticValue ← admission.mapping.output response.body admission.input
  let value ← x.fit semanticValue
  x.successAudit
  .ok ⟨admission.mapping.semanticCapabilityId, admission.provider.providerInstanceId, value⟩

/-- What is reported for a failure: `started` and `received` tell how far a mutation has
come. -/
def classify (x : Execution Input Value) (mapping : Mapping Input Value) (started received : Bool)
    (failure : Failure) : Failure :=
  let error := asProviderFailure failure
  if mapping.effect = .remoteMutation ∧
      (received = true ∨ (started = true ∧ isAmbiguousMutationFailure error = true)) then
    mutationOutcomeUnknown
  else
    match x.failureAudit with
    | .ok () => .provider error
    | .error _ => .of .auditUnavailable "Provider failed-outcome audit is unavailable"

def reporting {α : Type} (x : Execution Input Value) (mapping : Mapping Input Value)
    (started received : Bool) (action : EStateM Failure World α) : EStateM Failure World α :=
  tryCatch action fun failure => throw (classify x mapping started received failure)

def execute (x : Execution Input Value) : EStateM Failure World (Result Value) := do
  let admission ← MonadExcept.ofExcept (checkAdmission x)
  let mapping := admission.mapping
  -- a failure of the decision's audit is not audited again
  tryCatch (MonadExcept.ofExcept x.decisionAudit) fun failure =>
    throw (Failure.provider (asProviderFailure failure))
  let credential ← reporting x mapping false false
    (MonadExcept.ofExcept (prepare x admission.manifest admission.provider))
  let response ← reporting x mapping true false
    (requestAttempts x.allowed x.parseUrl mapping admission.manifest admission.input credential
      x.first x.second)
  reporting x mapping true true (MonadExcept.ofExcept (conclude x admission response))

end KodeGpt.ProviderExecutions
