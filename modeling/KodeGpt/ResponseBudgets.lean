import KodeGpt.Bisections
import KodeGpt.CodePoints

/-!
The results of remote CI, made to fit in a response: the excerpt of the log, the
annotations, the steps of the jobs and the lists of the result are cut in turn,
each by a search over serialized sizes.
-/

namespace KodeGpt.ResponseBudgets

open Bisections JsFrames JsObjects

def maxCiResponseBytes : Nat := 512 * 1024

/-- The codes that are used here, of those of remote CI. -/
inductive RemoteCiErrorCode where
  | providerUnavailable
  | responseInvalid
  | responseLimitExceeded
  | logUnavailable
  | logLimitExceeded
  deriving DecidableEq

structure CapabilityError where
  code : RemoteCiErrorCode
  message : String
  deriving DecidableEq

def utf8Prefix (value : JsText) (maxBytes : Nat) : JsText :=
  if maxBytes = 0 then []
  else if utf8Length value ≤ maxBytes then value
  else
    let points := codePoints value
    let low := narrow (fun count => utf8Length (points.take count).flatten ≤ maxBytes) 0
      points.length
    (points.take low).flatten

/-- A result: what it tells, in the order of its fields, and whether it was cut. -/
structure TruncatableCiResult where
  fields : List (JsText × JsValue)
  truncated : Bool
  truncationReasons : List JsText

def responseLimit : JsText := asciiUnits "RESPONSE_LIMIT"

namespace TruncatableCiResult

def members (value : TruncatableCiResult) : List (JsText × JsValue) :=
  value.fields ++ [(asciiUnits "truncated", .boolean value.truncated),
    (asciiUnits "truncationReasons", .array (value.truncationReasons.map .string))]

def field (value : TruncatableCiResult) (name : JsText) : JsValue :=
  member (.object value.fields) name

end TruncatableCiResult

def serializedBytes (value : TruncatableCiResult) : Nat := jsonLength (.object value.members)

def fits (value : TruncatableCiResult) : Bool := serializedBytes value ≤ maxCiResponseBytes

/-- `{ ...members, [key]: content }`. -/
def spread (members : List (JsText × JsValue)) (key : JsText) (content : JsValue) :
    List (JsText × JsValue) :=
  if members.any fun entry => entry.1 = key then
    members.map fun entry => if entry.1 = key then (key, content) else entry
  else members ++ [(key, content)]

def withField (value : TruncatableCiResult) (field : JsText) (fieldValue : JsValue) :
    TruncatableCiResult :=
  { value with fields := spread value.fields field fieldValue }

def fitStringField (value : TruncatableCiResult) (field : JsText) : TruncatableCiResult :=
  match value.field field with
  | .string text =>
    if fits value then value
    else
      let best := withField value field (.string [])
      if fits best then
        searchBest (fun mid => withField value field (.string (utf8Prefix text mid))) fits 0
          (utf8Length text + 1) best
      else best
  | _ => value

def fitArrayField (value : TruncatableCiResult) (field : JsText) : TruncatableCiResult :=
  match value.field field with
  | .array items =>
    if items.length = 0 ∨ fits value then value
    else
      let best := withField value field (.array [])
      if fits best then
        searchBest (fun mid => withField value field (.array (items.take mid))) fits 0
          (items.length + 1) best
      else best
  | _ => value

def jobsField : JsText := asciiUnits "jobs"

def stepsField : JsText := asciiUnits "steps"

def stepsOf (job : JsValue) : Option (List (JsText × JsValue) × List JsValue) :=
  match job with
  | .object members =>
    match member job stepsField with
    | .array steps => some (members, steps)
    | _ => none
  | _ => none

def stepCount (job : JsValue) : Nat :=
  match stepsOf job with
  | some (_, steps) => steps.length
  | none => 0

def keepSteps (remaining : Nat) : List JsValue → List JsValue
  | [] => []
  | job :: rest =>
    match stepsOf job with
    | some (members, steps) =>
      let count := min remaining steps.length
      .object (spread members stepsField (.array (steps.take count))) ::
        keepSteps (remaining - count) rest
    | none => job :: keepSteps remaining rest

def withStepsPrefix (value : TruncatableCiResult) (keep : Nat) : TruncatableCiResult :=
  let jobs := match value.field jobsField with
    | .array jobs => jobs
    | _ => []
  withField value jobsField (.array (keepSteps keep jobs))

def fitNestedSteps (value : TruncatableCiResult) : TruncatableCiResult :=
  match value.field jobsField with
  | .array jobs =>
    if fits value then value
    else
      let totalSteps := (jobs.map stepCount).sum
      if totalSteps = 0 then value
      else
        let best := withStepsPrefix value 0
        if fits best then searchBest (withStepsPrefix value) fits 0 (totalSteps + 1) best
        else best
  | _ => value

def responseLimitExceeded : CapabilityError :=
  ⟨.responseLimitExceeded, "Remote-CI response exceeded the public response limit"⟩

theorem utf8Prefix_isLargest (value : JsText) (maxBytes : Nat) :
    ∃ count, utf8Prefix value maxBytes = ((codePoints value).take count).flatten ∧
      IsLargest (fun count => utf8Length ((codePoints value).take count).flatten ≤ maxBytes)
        (codePoints value).length count := by
  have hwhole : ((codePoints value).take (codePoints value).length).flatten = value := by
    rw [List.take_length, codePoints_flatten]
  by_cases hzero : maxBytes = 0
  · refine ⟨0, by rw [utf8Prefix, if_pos hzero]; rfl, Nat.zero_le _, by simp [utf8Length], ?_⟩
    intro other hother hfits
    rw [hzero, decide_eq_true_eq, Nat.le_zero] at hfits
    have hnil := CodePoints.eq_nil_of_utf8Length hfits
    have htake : (codePoints value).take other = [] := by
      have hpoints : codePoints ((codePoints value).take other).flatten =
          (codePoints value).take other := CodePoints.take_areCodePoints value other
      rw [← hpoints, hnil]
      rfl
    have hlength := congrArg List.length htake
    rw [List.length_take, List.length_nil] at hlength
    omega
  · by_cases hfits : utf8Length value ≤ maxBytes
    · refine ⟨(codePoints value).length, ?_, Nat.le_refl _, ?_, fun other hother _ => hother⟩
      · rw [utf8Prefix, if_neg hzero, if_pos hfits, hwhole]
      · exact decide_eq_true (hwhole.symm ▸ hfits)
    · refine ⟨_, by rw [utf8Prefix, if_neg hzero, if_neg hfits], ?_⟩
      apply narrow_isLargest
      · intro less more hle hmore
        have hless := CodePoints.utf8Length_addsUp.take_le
          (CodePoints.codePoints_areCodePoints value) hle
        exact decide_eq_true (Nat.le_trans hless (of_decide_eq_true hmore))
      · simp [utf8Length]
      · exact Nat.zero_le _
      · exact Nat.le_refl _
      · exact fun other hother _ => hother

theorem utf8Prefix_bounded (value : JsText) (maxBytes : Nat) :
    utf8Length (utf8Prefix value maxBytes) ≤ maxBytes := by
  obtain ⟨count, hpart, hlargest⟩ := utf8Prefix_isLargest value maxBytes
  rw [hpart]
  exact of_decide_eq_true hlargest.isGood

end KodeGpt.ResponseBudgets
