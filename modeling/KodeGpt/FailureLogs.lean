import KodeGpt.NodePaths
import KodeGpt.ResponseBudgets

/-!
The log of a failed job: the chunks of its download are kept up to a limit and
decoded, secrets are taken out, and of what is left an excerpt is made that
begins some way before a marker of the failure.
-/

namespace KodeGpt.FailureLogs

open JsObjects TextEncodings ResponseBudgets
open JsonText (Bytes)
open JsFrames (asciiUnits)

def ciLogScanMaxBytes : Nat := 512 * 1024

def ciLogExcerptDefaultBytes : Nat := 64 * 1024

/-- What the reader of a body gives before its end. -/
inductive ReadResult where
  | value (chunk : Bytes)
  | undefined
  | failed

def logUnavailable : CapabilityError := ⟨.logUnavailable, "CI log is unavailable"⟩

def providerUnavailable : CapabilityError :=
  ⟨.providerUnavailable, "Remote-CI provider is unavailable"⟩

/-- `output.set(chunk, offset)`; what it throws is reported as any other error is. -/
def setBytes (output chunk : Bytes) (offset : Nat) : Except CapabilityError Bytes :=
  if offset + chunk.length ≤ output.length then
    .ok (output.take offset ++ chunk ++ output.drop (offset + chunk.length))
  else .error providerUnavailable

def concatenateFrom (output : Bytes) (offset : Nat) : List Bytes → Except CapabilityError Bytes
  | [] => .ok output
  | chunk :: rest => do
    let output ← setBytes output chunk offset
    concatenateFrom output (offset + chunk.length) rest

def concatenate (chunks : List Bytes) (total : Nat) : Except CapabilityError Bytes :=
  concatenateFrom (List.replicate total 0) 0 chunks

def readNext : List ReadResult → Except CapabilityError Bool
  | [] => .ok false
  | .value chunk :: _ => .ok (0 < chunk.length)
  | .undefined :: _ => .ok false
  | .failed :: _ => .error logUnavailable

def readLoop (scanMaxBytes : Nat) :
    List ReadResult → List Bytes → Nat → Except CapabilityError (List Bytes × Nat × Bool)
  | [], chunks, retained => .ok (chunks, retained, false)
  | .failed :: _, chunks, retained =>
    if retained ≤ scanMaxBytes then .error logUnavailable else .ok (chunks, retained, false)
  | .undefined :: rest, chunks, retained =>
    if retained ≤ scanMaxBytes then readLoop scanMaxBytes rest chunks retained
    else .ok (chunks, retained, false)
  | .value chunk :: rest, chunks, retained =>
    if retained ≤ scanMaxBytes then
      let remaining := scanMaxBytes - retained
      if remaining < chunk.length then
        .ok (if 0 < remaining then chunks ++ [chunk.take remaining] else chunks,
          retained + remaining, true)
      else if retained + chunk.length = scanMaxBytes then do
        let truncated ← readNext rest
        return (chunks ++ [chunk], retained + chunk.length, truncated)
      else readLoop scanMaxBytes rest (chunks ++ [chunk]) (retained + chunk.length)
    else .ok (chunks, retained, false)

structure BoundedLog where
  bytes : Bytes
  truncated : Bool
  deriving DecidableEq

def readBoundedLog (body : Option (List ReadResult)) (scanMaxBytes : Nat) :
    Except CapabilityError BoundedLog :=
  match body with
  | none => .ok ⟨[], false⟩
  | some reads => do
    let (chunks, retained, truncated) ← readLoop scanMaxBytes reads [] 0
    let bytes ← concatenate chunks retained
    return ⟨bytes, truncated⟩

/-- The lower-case mapping of a version of Unicode: what stands for each character of a text,
which may depend on the characters around it. -/
structure LowerCasing where
  images : JsText → List JsText
  length_images : ∀ text, (images text).length = (codePoints text).length

def LowerCasing.toLowerCase (casing : LowerCasing) (text : JsText) : JsText :=
  (casing.images text).flatten

def indexOf (text pattern : JsText) : Option Nat :=
  text.tails.findIdx? fun tail => pattern.isPrefixOf tail

def excerptStart (text : JsText) (markerIndex : Nat) : Nat :=
  let beforePoints := (codePoints (text.take markerIndex)).length
  beforePoints - ciLogExcerptDefaultBytes / 2

def extractFailureExcerpt (casing : LowerCasing) (text : JsText) (markers : List JsText) : JsText :=
  if text.length = 0 then []
  else
    let lower := casing.toLowerCase text
    match markers.findSome? fun marker => indexOf lower (casing.toLowerCase marker) with
    | none => utf8Prefix text ciLogExcerptDefaultBytes
    | some markerIndex =>
      let points := codePoints text
      utf8Prefix (points.drop (excerptStart text markerIndex)).flatten ciLogExcerptDefaultBytes

inductive TruncationReason where
  | summaryLimit
  | runLimit
  | jobLimit
  | stepLimit
  | annotationLimit
  | logByteLimit
  | providerPageLimit
  | responseLimit
  deriving DecidableEq

def ciTruncationReasons : List TruncationReason :=
  [.summaryLimit, .runLimit, .jobLimit, .stepLimit, .annotationLimit, .logByteLimit,
    .providerPageLimit, .responseLimit]

def canonicalReasons (reasons : List TruncationReason) : List TruncationReason :=
  ciTruncationReasons.filter fun reason => reason ∈ reasons

structure GitHubLogRead extends BoundedLog where
  providerRequests : Nat

/-- What was read about the failed job, as far as its log depends on it. The number of
requests was checked when it was read. -/
structure FailureMetadata where
  providerRequests : Nat
  requests_bounds : 2 ≤ providerRequests ∧ providerRequests ≤ 3
  jobName : JsText
  failedStep : Option JsText
  jobLimitReached : Bool
  stepLimitReached : Bool
  annotationLimitReached : Bool
  providerPageLimited : Bool

def byteOrderMark : Char := Char.ofNat 65279

/-- `new TextDecoder("utf-8", { fatal: true }).decode(bytes)`: a byte order mark at the front
is no part of the text. -/
def decodeLog (bytes : Bytes) : Option JsText :=
  (decodeUtf8 bytes).map fun characters =>
    encodeUtf16 (if characters.head? = some byteOrderMark then characters.tail else characters)

/-- `CI_REQUEST_BUDGETS.failure`. -/
def failureRequestBudget : Nat := 5

section Failure

variable (redactCiText : JsText → JsText → JsText) (casing : LowerCasing)

/-- What `failure` makes of the log: the excerpt, and why the result is not complete. -/
def failureExcerpt (metadata : FailureMetadata) (token : JsText) (log : GitHubLogRead) :
    Except CapabilityError (JsText × List TruncationReason) :=
  if log.providerRequests < 1 ∨ 2 < log.providerRequests then
    .error ⟨.responseInvalid, "Remote-CI failure log request budget was exceeded"⟩
  else if failureRequestBudget < metadata.providerRequests + log.providerRequests then
    .error ⟨.responseInvalid, "Remote-CI provider request budget was exceeded"⟩
  else if ciLogScanMaxBytes < log.bytes.length then
    .error ⟨.logLimitExceeded, "CI log exceeded the safe scan limit"⟩
  else
    match decodeLog log.bytes with
    | none => .error ⟨.logLimitExceeded, "CI log could not be decoded safely"⟩
    | some decodedLog =>
      let redactedLog := redactCiText decodedLog token
      let markers := (metadata.failedStep.toList ++
        [metadata.jobName, asciiUnits "error", asciiUnits "fail"]).filter
          fun value => 0 < value.length
      let excerpt := extractFailureExcerpt casing redactedLog markers
      let logClipped := log.truncated || utf8Length excerpt < utf8Length redactedLog
      let reasons := canonicalReasons
        ((if metadata.jobLimitReached then [.jobLimit] else []) ++
          (if metadata.stepLimitReached then [.stepLimit] else []) ++
          (if metadata.annotationLimitReached then [.annotationLimit] else []) ++
          (if logClipped then [.logByteLimit] else []) ++
          (if metadata.providerPageLimited then [.providerPageLimit] else []))
      .ok (excerpt, reasons)

def failureLog (metadata : FailureMetadata) (token : JsText) (redirected : Bool)
    (body : Option (List ReadResult)) :
    Except CapabilityError (JsText × List TruncationReason) := do
  let log ← readBoundedLog body ciLogScanMaxBytes
  failureExcerpt redactCiText casing metadata token
    { log with providerRequests := if redirected then 2 else 1 }

end Failure

end KodeGpt.FailureLogs
