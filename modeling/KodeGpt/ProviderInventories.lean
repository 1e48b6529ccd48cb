import KodeGpt.JsonReadback
import KodeGpt.ProviderExecutions

/-!
The structural inventory of a provider. Schemas are canonicalized, so that one fingerprint
stands for an inventory however its keys and tools are ordered.
-/

namespace KodeGpt.ProviderInventories

open JsonDocuments JsFrames JsObjects
open JsonText (Bytes)
open JsonReadback (jsonBytes)
open NodePaths (lossyString pathBytes)
open PinnedSkills (compareUtf8)
open ProviderExecutions (Failure responseInvalid)

abbrev Members := List (JsText × JsValue)

/-- `__proto__` -/
def protoKey : JsText := [95, 95, 112, 114, 111, 116, 111, 95, 95]

def isDigit (unit : UInt16) : Bool := 48 ≤ unit && unit ≤ 57

def indexValue (key : JsText) : Nat :=
  key.foldl (fun value unit => 10 * value + (unit.toNat - 48)) 0

def isArrayIndex (key : JsText) : Bool :=
  key ≠ [] && key.all isDigit && (key = [48] || key.head? ≠ some 48) && indexValue key < 2 ^ 32 - 1

def propertyOrder (members : Members) : Members :=
  (members.filter fun member => isArrayIndex member.1).mergeSort
      (fun left right => indexValue left.1 ≤ indexValue right.1) ++
    members.filter fun member => !isArrayIndex member.1

/-- A value that is frozen. An object that inherits from it has no assignment to its keys. -/
structure Canonical where
  value : JsValue
  fixedKeys : List JsText

structure Output where
  members : Members
  inherited : List JsText

/-- `output[key] = value`, where `output` began as an empty object: the prototype is set, or
an own property, unless a frozen prototype has the key. -/
def assign (output : Output) (key : JsText) (canonical : Canonical) : Except Failure Output :=
  if key = protoKey then .ok { output with inherited := canonical.fixedKeys }
  else if key ∈ output.inherited then .error .other
  else .ok { output with members := output.members ++ [(key, canonical.value)] }

def assignAll : List (JsText × Canonical) → Output → Except Failure Output
  | [], output => .ok output
  | (key, canonical) :: rest, output => do
    let output ← assign output key canonical
    assignAll rest output

def frozen (output : Output) : Canonical where
  value := .object (propertyOrder output.members)
  fixedKeys := output.members.map Prod.fst ++ output.inherited

def frozenArray (items : List JsValue) : Canonical where
  value := .array items
  fixedKeys := asciiUnits "length" ::
    (List.range items.length).map fun index => asciiUnits (toString index)

def shown (key : JsText) : String := String.ofList (lossyString key)

def maxStructuralDepth : Nat := 16

/-- An integer above the safe ones, as `JSON.stringify` writes it. -/
def isUnsafeInteger (text : Numeral) : Bool :=
  if text.text.contains 'e' then text.text.contains '+'
  else !text.text.contains '.' &&
    maxSafeInteger < Nat.ofDigitChars 10 (text.text.filter Char.isDigit) 0

def sortKeys (entries : List (JsText × Canonical)) : List (JsText × Canonical) :=
  entries.mergeSort fun left right => compareUtf8 left.1 right.1

section Canonicalizing

variable (normalize : JsText → JsText)

mutual

def canonicalizeJson (value : JsValue) (depth : Nat) : Except Failure Canonical :=
  if maxStructuralDepth < depth then
    .error (responseInvalid s!"Provider structural JSON exceeds depth {maxStructuralDepth}")
  else
    match value with
    | .null => .ok ⟨.null, []⟩
    | .boolean flag => .ok ⟨.boolean flag, []⟩
    | .string units =>
      if units.contains 0 then
        .error (responseInvalid "Provider structural JSON contains NUL")
      else .ok ⟨.string (normalize units), []⟩
    | .number .nonFinite =>
      .error (responseInvalid "Provider structural JSON contains an invalid number")
    | .number (.finite text) =>
      if isUnsafeInteger text then
        .error (responseInvalid "Provider structural JSON integer exceeds safe numeric form")
      else .ok ⟨.number (.finite text), []⟩
    | .array items => do
      let items ← canonicalizeItems items (depth + 1)
      .ok (frozenArray items)
    | .object members => do
      let entries ← canonicalizeEntries members (depth + 1) []
      let output ← assignAll (sortKeys entries) ⟨[], []⟩
      .ok (frozen output)
    | .undefined | .bigint _ =>
      .error (responseInvalid "Provider structural schema must contain JSON values only")

def canonicalizeItems : List JsValue → Nat → Except Failure (List JsValue)
  | [], _ => .ok []
  | item :: rest, depth => do
    let canonical ← canonicalizeJson item depth
    let later ← canonicalizeItems rest depth
    .ok (canonical.value :: later)

def canonicalizeEntries :
    Members → Nat → List JsText → Except Failure (List (JsText × Canonical))
  | [], _, _ => .ok []
  | (rawKey, rawValue) :: rest, depth, normalizedKeys => do
    let key := normalize rawKey
    if key.contains 0 then
      .error (responseInvalid "Provider structural JSON key contains NUL")
    else if normalizedKeys.contains key then
      .error
        (responseInvalid
          s!"Provider structural JSON contains duplicate semantic key: {shown key}")
    else do
      let canonical ← canonicalizeJson rawValue depth
      let later ← canonicalizeEntries rest depth (key :: normalizedKeys)
      .ok ((key, canonical) :: later)

end

def maxTools : Nat := 128

def maxSchemaBytes : Nat := 32 * 1024

def maxCanonicalInventoryBytes : Nat := 512 * 1024

def proseFields : List JsText :=
  [asciiUnits "description", asciiUnits "displayName", asciiUnits "examples",
    asciiUnits "instructions", asciiUnits "prompt", asciiUnits "prompts", asciiUnits "summary",
    asciiUnits "title"]

def adapterVersionKey : JsText := asciiUnits "adapterContractVersion"

def providerVersionKey : JsText := asciiUnits "providerContractVersion"

def toolsKey : JsText := asciiUnits "tools"

def idKey : JsText := asciiUnits "id"

def inputSchemaKey : JsText := asciiUnits "inputSchema"

def outputSchemaKey : JsText := asciiUnits "outputSchema"

def inventoryFields : List JsText := [adapterVersionKey, providerVersionKey, toolsKey]

def toolFields : List JsText := [idKey, inputSchemaKey, outputSchemaKey]

structure Tool where
  id : JsText
  inputSchema : JsValue
  outputSchema : JsValue

structure Inventory where
  adapterContractVersion : JsText
  providerContractVersion : Option JsText
  tools : List Tool

def requirePlainRecord (value : JsValue) (message : String) : Except Failure Members :=
  match value with
  | .object members => .ok members
  | _ => .error (responseInvalid message)

def rejectUnknownAuthorityFields (members : Members) (structuralFields : List JsText)
    (label : String) : Except Failure Unit :=
  match members.find? fun member =>
      !structuralFields.contains member.1 && !proseFields.contains member.1 with
  | some (key, _) =>
    .error (responseInvalid s!"Provider {label} contains unknown authority field: {shown key}")
  | none =>
    match structuralFields.find? fun field => !(members.map Prod.fst).contains field with
    | some field =>
      .error (responseInvalid s!"Provider {label} is missing structural field: {shown field}")
    | none => .ok ()

def isControl (unit : UInt16) : Bool := unit ≤ 31 || unit = 127

def normalizeVersion (value : JsValue) (label : String) : Except Failure JsText :=
  match value with
  | .string units =>
    let normalized := normalize units
    if normalized.length < 1 ∨ 128 < (pathBytes normalized).length ∨ normalized.any isControl then
      .error (responseInvalid s!"Provider {label} is invalid")
    else .ok normalized
  | _ => .error (responseInvalid s!"Provider {label} must be a string")

def isAlphanumeric (unit : UInt16) : Bool :=
  isDigit unit || (65 ≤ unit && unit ≤ 90) || (97 ≤ unit && unit ≤ 122)

/-- Of `.`, `_`, `:`, `+` and `-` too. -/
def isIdUnit (unit : UInt16) : Bool := isAlphanumeric unit || [46, 95, 58, 43, 45].contains unit

def isToolId : JsText → Bool
  | [] => false
  | first :: rest => isAlphanumeric first && rest.all isIdUnit && rest.length ≤ 127

def normalizeToolId (value : JsValue) : Except Failure JsText :=
  match value with
  | .string units =>
    if isToolId units then .ok units
    else .error
      (responseInvalid "Provider tool id must be bounded ASCII without control characters")
  | _ =>
    .error (responseInvalid "Provider tool id must be bounded ASCII without control characters")

def enforceSchemaBytes (value : JsValue) (maximum : Nat) (kind : String) : Except Failure Unit :=
  if maximum < jsonLength value then
    .error (responseInvalid s!"Provider {kind} schema exceeds the 32 KiB ceiling")
  else .ok ()

def normalizeTool (index : Nat) (candidate : JsValue) : Except Failure Tool := do
  let tool ← requirePlainRecord candidate s!"Provider inventory tool {index} must be an object"
  rejectUnknownAuthorityFields tool toolFields s!"tool {index}"
  let id ← normalizeToolId (member (.object tool) idKey)
  let inputSchema ← canonicalizeJson normalize (member (.object tool) inputSchemaKey) 0
  let outputSchema ← canonicalizeJson normalize (member (.object tool) outputSchemaKey) 0
  enforceSchemaBytes inputSchema.value maxSchemaBytes "input"
  enforceSchemaBytes outputSchema.value maxSchemaBytes "output"
  .ok ⟨id, inputSchema.value, outputSchema.value⟩

def normalizeTools (index : Nat) : List JsValue → Except Failure (List Tool)
  | [] => .ok []
  | candidate :: rest => do
    let tool ← normalizeTool normalize index candidate
    let later ← normalizeTools (index + 1) rest
    .ok (tool :: later)

def toolValue (tool : Tool) : JsValue :=
  .object [(idKey, .string tool.id), (inputSchemaKey, tool.inputSchema),
    (outputSchemaKey, tool.outputSchema)]

def inventoryValue (inventory : Inventory) : JsValue :=
  .object [(adapterVersionKey, .string inventory.adapterContractVersion),
    (providerVersionKey,
      match inventory.providerContractVersion with
      | some version => .string version
      | none => .null),
    (toolsKey, .array (inventory.tools.map toolValue))]

def providerVersion (value : JsValue) : Except Failure (Option JsText) :=
  match value with
  | .null => .ok none
  | value => (normalizeVersion normalize value "provider contract version").map some

def requireTools (value : JsValue) : Except Failure (List JsValue) :=
  match value with
  | .array items =>
    if maxTools < items.length then
      .error (responseInvalid s!"Provider inventory exceeds the {maxTools} tool ceiling")
    else .ok items
  | _ => .error (responseInvalid "Provider inventory tools must be an array")

def sortTools (tools : List Tool) : List Tool :=
  tools.mergeSort fun left right => compareUtf8 left.id right.id

def requireDistinctIds : List Tool → Except Failure Unit
  | first :: second :: rest =>
    if first.id = second.id then
      .error
        (responseInvalid s!"Provider inventory contains duplicate tool id: {shown second.id}")
    else requireDistinctIds (second :: rest)
  | _ => .ok ()

def normalizeProviderInventory (value : JsValue) : Except Failure Inventory := do
  let root ← requirePlainRecord value "Provider inventory must be an object"
  rejectUnknownAuthorityFields root inventoryFields "inventory"
  let adapterContractVersion ←
    normalizeVersion normalize (member (.object root) adapterVersionKey) "adapter contract version"
  let providerContractVersion ← providerVersion normalize (member (.object root) providerVersionKey)
  let candidates ← requireTools (member (.object root) toolsKey)
  let tools ← normalizeTools normalize 0 candidates
  requireDistinctIds (sortTools tools)
  let normalized : Inventory := ⟨adapterContractVersion, providerContractVersion, sortTools tools⟩
  if maxCanonicalInventoryBytes < jsonLength (inventoryValue normalized) then
    .error (responseInvalid "Provider canonical inventory exceeds the 512 KiB ceiling")
  else .ok normalized

def canonicalBytes (normalized : Inventory) : Bytes := jsonBytes (inventoryValue normalized)

def fingerprintProviderInventory (sha256 : Bytes → JsText) (value : JsValue) :
    Except Failure JsText := do
  let normalized ← normalizeProviderInventory normalize value
  .ok (sha256 (canonicalBytes normalized))

end Canonicalizing

end KodeGpt.ProviderInventories
