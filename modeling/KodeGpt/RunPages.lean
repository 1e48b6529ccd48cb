import KodeGpt.FailureLogs
import KodeGpt.PercentTexts
import KodeGpt.SafeRefs

/-!
A page of workflow runs as the provider sends it, made into the runs that the
service reports, and what the schema of its results asks of a run. How a URL and a
time are read and what the small letters are is a parameter.
-/

namespace KodeGpt.RunPages

open JsFrames JsObjects TextEncodings ResponseBudgets SafeRefs
open JsonText (Bytes)
open NodePaths (pathBytes)
open PercentTexts (percentDecode hexValue)
open FailureLogs (LowerCasing)

def maxCiRunsLimit : Nat := 50

def invalidResponse : CapabilityError :=
  ⟨.responseInvalid, "GitHub returned an invalid response"⟩

def isControl (unit : UInt16) : Bool := unit < 32 || unit = 127

def hasControl (value : JsText) : Bool :=
  (codePoints value).any fun character => character.head?.any isControl

theorem hasControl_eq_false {text : JsText} (htext : ∀ unit ∈ text, isControl unit = false) :
    hasControl text = false := by
  rw [hasControl, List.any_eq_false]
  intro character hcharacter hcontrol
  cases hfirst : character.head? with
  | none => simp [hfirst] at hcontrol
  | some unit =>
    have hmem : unit ∈ text := by
      rw [← codePoints_flatten text]
      exact List.mem_flatten.mpr ⟨character, hcharacter, List.mem_of_mem_head? hfirst⟩
    have hunit : isControl unit = true := by simpa [hfirst] using hcontrol
    rw [htext unit hmem] at hunit
    cases hunit

def expectRecord (value : JsValue) : Except CapabilityError JsValue :=
  if isRecord value then .ok value else .error invalidResponse

def expectArray : JsValue → Except CapabilityError (List JsValue)
  | .array items => .ok items
  | _ => .error invalidResponse

def safeCount : JsValue → Option Nat
  | .number (.finite text) =>
    if text.text.all Char.isDigit && decide (digitsValue text ≤ maxSafeInteger) then
      some (digitsValue text)
    else none
  | _ => none

def expectSafeCount (value : JsValue) : Except CapabilityError Nat :=
  match safeCount value with
  | some count => .ok count
  | none => .error invalidResponse

def isBounded (value : JsText) (max : Nat) : Bool :=
  0 < value.length && value.length ≤ max && !hasControl value

def expectBoundedString (value : JsValue) (max : Nat) : Except CapabilityError JsText :=
  match value with
  | .string text => if isBounded text max then .ok text else .error invalidResponse
  | _ => .error invalidResponse

/-- `value === null || value === undefined`. -/
def isAbsent : JsValue → Bool
  | .null => true
  | .undefined => true
  | _ => false

def nullableBoundedString (value : JsValue) (max : Nat) :
    Except CapabilityError (Option JsText) :=
  if isAbsent value then .ok none else (expectBoundedString value max).map some

def isDigit (unit : UInt16) : Bool := 48 ≤ unit && unit ≤ 57

def isDecimalId (text : JsText) : Bool := text ≠ [] && text.all isDigit

def expectDecimalId : JsValue → Except CapabilityError JsText
  | .string text => if isDecimalId text then .ok text else .error invalidResponse
  | _ => .error invalidResponse

def normalizeProviderId (value : JsValue) : Except CapabilityError JsText :=
  match value with
  | .string _ => expectDecimalId value
  | _ =>
    match safeCount value with
    | some count => .ok (asciiUnits (String.ofList (Nat.toDigits 10 count)))
    | none => .error invalidResponse

def isHexDigit (unit : UInt16) : Bool := isDigit unit || (97 ≤ unit && unit ≤ 102)

def isOid (text : JsText) : Bool :=
  (text.length = 40 || text.length = 64) && text.all isHexDigit

def expectOid : JsValue → Except CapabilityError JsText
  | .string text => if isOid text then .ok text else .error invalidResponse
  | _ => .error invalidResponse

def expectSafeRef (value : JsValue) : Except CapabilityError JsText := do
  let ref ← expectBoundedString value 128
  if isSafeRef ref then .ok ref else .error invalidResponse

variable (casing : LowerCasing)

inductive CiRunStatus where
  | queued
  | inProgress
  | completed
  | unknown
  deriving DecidableEq

inductive CiConclusion where
  | success
  | failure
  | cancelled
  | neutral
  | skipped
  | timedOut
  | actionRequired
  | startupFailure
  | unknown
  deriving DecidableEq

def statusWords : List (JsText × CiRunStatus) :=
  [(asciiUnits "queued", .queued), (asciiUnits "in_progress", .inProgress),
    (asciiUnits "completed", .completed)]

def conclusionWords : List (JsText × CiConclusion) :=
  [(asciiUnits "success", .success), (asciiUnits "failure", .failure),
    (asciiUnits "cancelled", .cancelled), (asciiUnits "neutral", .neutral),
    (asciiUnits "skipped", .skipped), (asciiUnits "timed_out", .timedOut),
    (asciiUnits "action_required", .actionRequired),
    (asciiUnits "startup_failure", .startupFailure)]

def normalizeGithubStatus (value : JsText) : CiRunStatus :=
  (statusWords.lookup (casing.toLowerCase value)).getD .unknown

def normalizeGithubConclusion (value : JsText) : CiConclusion :=
  (conclusionWords.lookup (casing.toLowerCase value)).getD .unknown

def normalizeGithubConclusionNullable (value : JsValue) :
    Except CapabilityError (Option CiConclusion) :=
  if isAbsent value then .ok none
  else (expectBoundedString value 64).map fun text => some (normalizeGithubConclusion casing text)

structure CiRepositoryIdentity where
  owner : JsText
  name : JsText

/-- A URL as `new URL` reads it, with the text it is converted to. -/
structure Url where
  protocol : JsText
  hostname : JsText
  port : JsText
  username : JsText
  password : JsText
  pathname : JsText
  href : JsText

def isEscaped : Bytes → Bool
  | [] => true
  | byte :: rest =>
    (byte ≠ 37 || match rest with
      | high :: low :: _ => (hexValue high).isSome && (hexValue low).isSome
      | _ => false) && isEscaped rest

def decodeURIComponent (text : JsText) : Option JsText :=
  if isEscaped (pathBytes text) then
    (decodeUtf8 (percentDecode (pathBytes text))).map encodeUtf16
  else none

section Readers

variable (newUrl : JsText → Option Url) (isoString : JsText → Option JsText)

def safeRepositoryUrl (value : JsValue) (repository : CiRepositoryIdentity) : Option JsText :=
  match value with
  | .string text =>
    if 2048 < text.length ∨ hasControl text then none
    else do
      let url ← newUrl text
      if url.protocol ≠ asciiUnits "https:" ∨
          casing.toLowerCase url.hostname ≠ asciiUnits "github.com" ∨ url.port ≠ [] ∨
          url.username ≠ [] ∨ url.password ≠ [] then none
      else
        match (url.pathname.splitOn 47).filter (· ≠ []) with
        | ownerPart :: namePart :: _ => do
          let owner ← decodeURIComponent ownerPart
          let name ← decodeURIComponent namePart
          if casing.toLowerCase owner ≠ casing.toLowerCase repository.owner ∨
              casing.toLowerCase name ≠ casing.toLowerCase repository.name then none
          else some url.href
        | _ => none
  | _ => none

def normalizeTimestamp : JsValue → Option JsText
  | .string text => if 64 < text.length then none else isoString text
  | _ => none

structure CiRunSummary where
  id : JsText
  name : JsText
  workflow : Option JsText
  status : CiRunStatus
  conclusion : Option CiConclusion
  headOid : JsText
  ref : Option JsText
  event : Option JsText
  url : Option JsText
  createdAt : Option JsText
  startedAt : Option JsText
  updatedAt : Option JsText

def normalizeRef (value : JsValue) : Except CapabilityError (Option JsText) :=
  match value with
  | .null => .ok none
  | _ => (expectSafeRef value).map some

def expectDisplay (value : JsValue) (workflow : JsText) : Except CapabilityError JsText :=
  if isAbsent value then .ok workflow else expectBoundedString value 256

def normalizeRun (raw : JsValue) (repository : CiRepositoryIdentity) :
    Except CapabilityError CiRunSummary := do
  let record ← expectRecord raw
  let workflow ← expectBoundedString (member record (asciiUnits "name")) 256
  let display ← expectDisplay (member record (asciiUnits "display_title")) workflow
  let id ← normalizeProviderId (member record (asciiUnits "id"))
  let status ← expectBoundedString (member record (asciiUnits "status")) 64
  let conclusion ← normalizeGithubConclusionNullable casing (member record (asciiUnits "conclusion"))
  let headOid ← expectOid (member record (asciiUnits "head_sha"))
  let ref ← normalizeRef (member record (asciiUnits "head_branch"))
  let event ← nullableBoundedString (member record (asciiUnits "event")) 128
  return {
    id
    name := display
    workflow := some workflow
    status := normalizeGithubStatus casing status
    conclusion
    headOid
    ref
    event
    url := safeRepositoryUrl casing newUrl (member record (asciiUnits "html_url")) repository
    createdAt := normalizeTimestamp isoString (member record (asciiUnits "created_at"))
    startedAt := normalizeTimestamp isoString (member record (asciiUnits "run_started_at"))
    updatedAt := normalizeTimestamp isoString (member record (asciiUnits "updated_at")) }

structure RemoteCiProviderList where
  items : List CiRunSummary
  providerPageLimited : Bool
  limitReached : Bool
  providerRequests : Nat

def normalizeRunPage (raw : JsValue) (repository : CiRepositoryIdentity) (limit : Nat) :
    Except CapabilityError RemoteCiProviderList := do
  let record ← expectRecord raw
  let totalCount ← expectSafeCount (member record (asciiUnits "total_count"))
  let values ← expectArray (member record (asciiUnits "workflow_runs"))
  let observed ← (values.take limit).mapM fun value =>
    normalizeRun casing newUrl isoString value repository
  return {
    items := observed
    providerPageLimited := values.length < totalCount
    limitReached := observed.length < values.length
    providerRequests := 1 }

end Readers

section Schema

variable (newUrl : JsText → Option Url) (isDatetime : JsText → Bool)

def isBoundedName (name : JsText) : Bool := 0 < name.length && name.length ≤ 256

/-- `nullableGithubUrlSchema`, of a URL that is not null. -/
def isGithubUrl (value : JsText) : Bool :=
  match newUrl value with
  | some url =>
    value.length ≤ 2048 && url.protocol = asciiUnits "https:" &&
      casing.toLowerCase url.hostname = asciiUnits "github.com" && url.username = [] &&
      url.password = []
  | none => false

/-- `CiRunSummarySchema`. Every state is one of those that it lists. -/
def ciRunSummarySchema (run : CiRunSummary) : Bool :=
  isDecimalId run.id && isBoundedName run.name && run.workflow.all isBoundedName &&
    isOid run.headOid && run.ref.all isSafeRefName &&
    run.event.all (fun event => 0 < event.length && event.length ≤ 128) &&
    run.url.all (isGithubUrl casing newUrl) && run.createdAt.all isDatetime &&
    run.startedAt.all isDatetime && run.updatedAt.all isDatetime

/-- The runs of `CiRunsResultSchema`. -/
def ciRunsSchema (runs : List CiRunSummary) : Bool :=
  runs.length ≤ maxCiRunsLimit && runs.all (ciRunSummarySchema casing newUrl isDatetime)

end Schema

end KodeGpt.RunPages
