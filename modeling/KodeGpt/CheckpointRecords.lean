import KodeGpt.JsObjects

/-!
The record of a workspace's checkpoint: what the store accepts for it, what it
reads back from its file, and what an update makes of it. A value that has been
accepted carries what was checked, so it is accepted again when it is read.
-/

namespace KodeGpt.CheckpointRecords

open JsonDocuments JsFrames JsObjects

/-- `WorkspaceCheckpointError` with its code, or an error of the host. -/
inductive StoreError where
  | notFound
  | stale
  | invalid (message : String)
  | limitExceeded (message : String)
  | schemaUnsupported (version : JsValue)
  | io

def maxCheckpointBytes : Nat := 16 * 1024
def maxContinuityBytes : Nat := 32 * 1024
def maxMilestones : Nat := 8
def maxObjectiveBytes : Nat := 2 * 1024
def maxMilestoneObjectiveBytes : Nat := 512
def maxNextActions : Nat := 8
def maxNextActionBytes : Nat := 512
def maxEvidenceRefs : Nat := 16
def maxEvidenceRefBytes : Nat := 512
def maxEvidenceSummaryBytes : Nat := 1024
def maxBlockerBytes : Nat := 2 * 1024
def maxNotesBytes : Nat := 4 * 1024

def ensureUtf8Bound (value : JsText) (maxBytes : Nat) (label : String) :
    Except StoreError (BoundedText maxBytes) :=
  if h : utf8Length value ≤ maxBytes then .ok ⟨value, h⟩
  else .error (.limitExceeded s!"Workspace checkpoint {label} exceeds its byte limit")

def boundedString (maxBytes : Nat) (label : String) (value : JsValue) :
    Except StoreError (BoundedText maxBytes) :=
  match value with
  | .string text => ensureUtf8Bound text maxBytes label
  | _ => .error (.invalid s!"Workspace checkpoint {label} is invalid")

def optionalBoundedString (value : JsValue) (maxBytes : Nat) (label : String) :
    Except StoreError (Option (BoundedText maxBytes)) :=
  optional (boundedString maxBytes label) value

def isDigit (code : UInt16) : Bool := 48 ≤ code && code ≤ 57

def isLowerHex (code : UInt16) : Bool := isDigit code || (97 ≤ code && code ≤ 102)

def isUpperHex (code : UInt16) : Bool := 65 ≤ code && code ≤ 70

/-- `toLowerCase`, of a hexadecimal digit. -/
def lowerHex (code : UInt16) : UInt16 := if isUpperHex code then code + 32 else code

/-- `HEAD_OID_PATTERN`. -/
def isHeadOid (text : JsText) : Bool :=
  (text.length = 40 || text.length = 64) && text.all fun code => isLowerHex code || isUpperHex code

def isLowerHeadOid (text : JsText) : Bool :=
  (text.length = 40 || text.length = 64) && text.all isLowerHex

abbrev HeadOid := { text : JsText // isLowerHeadOid text = true }

/-- `CHANGES_FINGERPRINT_PATTERN`. -/
def isFingerprint (text : JsText) : Bool := text.length = 64 && text.all isLowerHex

abbrev Fingerprint := { text : JsText // isFingerprint text = true }

theorem lowerHex_isLowerHex {code : UInt16} (h : (isLowerHex code || isUpperHex code) = true) :
    isLowerHex (lowerHex code) = true := by
  by_cases hupper : isUpperHex code = true
  · rw [lowerHex, if_pos hupper]
    simp only [isUpperHex, isLowerHex, isDigit, Bool.and_eq_true, Bool.or_eq_true,
      decide_eq_true_eq, UInt16.le_iff_toNat_le, UInt16.toNat_add] at hupper ⊢
    simp only [UInt16.reduceToNat] at hupper ⊢
    omega
  · rw [lowerHex, if_neg hupper]
    simpa [hupper] using h

theorem lowerHex_of_isLowerHex {code : UInt16} (h : isLowerHex code = true) :
    lowerHex code = code := by
  rw [lowerHex, if_neg]
  simp only [isUpperHex, isLowerHex, isDigit, Bool.and_eq_true, Bool.or_eq_true,
    decide_eq_true_eq, UInt16.le_iff_toNat_le, UInt16.reduceToNat] at h ⊢
  omega

theorem isLowerHeadOid_map {text : JsText} (h : isHeadOid text = true) :
    isLowerHeadOid (text.map lowerHex) = true := by
  obtain ⟨hlength, hall⟩ := Bool.and_eq_true_iff.mp h
  rw [List.all_eq_true] at hall
  rw [isLowerHeadOid, List.length_map, hlength, Bool.true_and, List.all_map, List.all_eq_true]
  exact fun code hcode => lowerHex_isLowerHex (hall code hcode)

def headOid (text : JsText) : Option HeadOid :=
  if h : isHeadOid text = true then some ⟨text.map lowerHex, isLowerHeadOid_map h⟩ else none

theorem headOid_val (oid : HeadOid) : headOid oid.val = some oid := by
  obtain ⟨text, h⟩ := oid
  obtain ⟨hlength, hall⟩ := Bool.and_eq_true_iff.mp h
  rw [List.all_eq_true] at hall
  have hvalid : isHeadOid text = true := by
    rw [isHeadOid, hlength, Bool.true_and, List.all_eq_true]
    exact fun code hcode => by rw [hall code hcode, Bool.true_or]
  have hsame : text.map lowerHex = text := by
    have hcodes : text.map lowerHex = text.map id :=
      List.map_congr_left fun code hcode => lowerHex_of_isLowerHex (hall code hcode)
    rw [hcodes, List.map_id]
  simp [headOid, hvalid, hsame]

theorem ensureUtf8Bound_val {maxBytes : Nat} (text : BoundedText maxBytes) (label : String) :
    ensureUtf8Bound text.val maxBytes label = .ok text := by
  rw [ensureUtf8Bound, dif_pos text.property]

def textValue {maxBytes : Nat} (text : BoundedText maxBytes) : JsValue := .string text.val

theorem optionalBoundedString_textValue {maxBytes : Nat} (text : Option (BoundedText maxBytes))
    (label : String) :
    optionalBoundedString ((text.map textValue).getD .undefined) maxBytes label = .ok text :=
  optional_write (fun text => ensureUtf8Bound_val text label) (fun _ => by simp [textValue]) text

def decimal (text : JsText) : Option Nat :=
  if text.all isDigit then some (text.foldl (fun value code => 10 * value + (code.toNat - 48)) 0)
  else none

structure DateTime where
  year : Int
  month : Nat
  day : Nat
  hour : Nat
  minute : Nat
  second : Nat
  millisecond : Nat

def daysInMonth (year : Int) (month : Nat) : Nat :=
  if month = 2 then
    if year % 4 = 0 ∧ (year % 100 ≠ 0 ∨ year % 400 = 0) then 29 else 28
  else if month = 4 ∨ month = 6 ∨ month = 9 ∨ month = 11 then 30
  else 31

namespace DateTime

def ordinal (time : DateTime) : Int :=
  (((((time.year * 13 + time.month) * 32 + time.day) * 24 + time.hour) * 60 + time.minute) * 60 +
    time.second) * 1000 + time.millisecond

/-- The first and the last time that a `Date` can hold. -/
def first : DateTime := ⟨-271821, 4, 20, 0, 0, 0, 0⟩
def last : DateTime := ⟨275760, 9, 13, 0, 0, 0, 0⟩

def isValid (time : DateTime) : Bool :=
  decide (1 ≤ time.month) && decide (time.month ≤ 12) && decide (1 ≤ time.day) &&
    decide (time.day ≤ daysInMonth time.year time.month) && decide (time.hour < 24) &&
    decide (time.minute < 60) && decide (time.second < 60) &&
    decide (first.ordinal ≤ time.ordinal) && decide (time.ordinal ≤ last.ordinal)

end DateTime

def timestampYear (text : JsText) : Option Int :=
  match text with
  | [_, _, _, _] => (decimal text).map Int.ofNat
  | sign :: digits =>
    match decimal digits with
    | some year =>
      if digits.length = 6 ∧ sign = 43 ∧ 9999 < year then some year
      else if digits.length = 6 ∧ sign = 45 ∧ 0 < year then some (-(year : Int))
      else none
    | none => none
  | [] => none

/-- The time that `toISOString` writes as this text. -/
def readTimestamp (text : JsText) : Option DateTime :=
  match text.drop (text.length - 20) with
  | [dash, mo, mo', dash', d, d', t, h, h', colon, mi, mi', colon', s, s', dot, ms, ms', ms'', z] =>
    if [dash, dash', t, colon, colon', dot, z] = [45, 45, 84, 58, 58, 46, 90] then do
      let year ← timestampYear (text.take (text.length - 20))
      let month ← decimal [mo, mo']
      let day ← decimal [d, d']
      let hour ← decimal [h, h']
      let minute ← decimal [mi, mi']
      let second ← decimal [s, s']
      let millisecond ← decimal [ms, ms', ms'']
      return { year, month, day, hour, minute, second, millisecond }
    else none
  | _ => none

def isCanonicalTimestamp (text : JsText) : Bool :=
  match readTimestamp text with
  | some time => time.isValid
  | none => false

abbrev Timestamp := { text : JsText // isCanonicalTimestamp text = true }

def timestampOf (value : JsValue) : Option Timestamp :=
  match value with
  | .string text => if h : isCanonicalTimestamp text = true then some ⟨text, h⟩ else none
  | _ => none

theorem timestampOf_string (timestamp : Timestamp) :
    timestampOf (.string timestamp.val) = some timestamp := by
  rw [timestampOf]
  exact dif_pos timestamp.property

inductive Status where
  | active
  | blocked
  | complete
  deriving DecidableEq, Repr

inductive EvidenceKind where
  | artifact
  | process
  | preview
  | pr
  | ci
  | git
  | note
  deriving DecidableEq, Repr

def statusText : Status → JsText
  | .active => asciiUnits "active"
  | .blocked => asciiUnits "blocked"
  | .complete => asciiUnits "complete"

def statuses : List Status := [.active, .blocked, .complete]

def kindText : EvidenceKind → JsText
  | .artifact => asciiUnits "artifact"
  | .process => asciiUnits "process"
  | .preview => asciiUnits "preview"
  | .pr => asciiUnits "pr"
  | .ci => asciiUnits "ci"
  | .git => asciiUnits "git"
  | .note => asciiUnits "note"

def kinds : List EvidenceKind := [.artifact, .process, .preview, .pr, .ci, .git, .note]

/-- `isStatus`. -/
def statusOf (value : JsValue) : Option Status :=
  match value with
  | .string text => statuses.find? fun status => statusText status = text
  | _ => none

/-- `isEvidenceKind`. -/
def kindOf (value : JsValue) : Option EvidenceKind :=
  match value with
  | .string text => kinds.find? fun kind => kindText kind = text
  | _ => none

theorem statusOf_statusText (status : Status) :
    statusOf (.string (statusText status)) = some status := by
  cases status <;> decide

theorem kindOf_kindText (kind : EvidenceKind) : kindOf (.string (kindText kind)) = some kind := by
  cases kind <;> decide

def orInvalid {α : Type} (message : String) : Option α → Except StoreError α
  | some value => .ok value
  | none => .error (.invalid message)

def headOidOf (value : JsValue) : Option HeadOid :=
  match value with
  | .string text => headOid text
  | _ => none

def fingerprintOf (value : JsValue) : Option Fingerprint :=
  match value with
  | .string text => if h : isFingerprint text = true then some ⟨text, h⟩ else none
  | _ => none

theorem headOidOf_string (oid : HeadOid) : headOidOf (.string oid.val) = some oid :=
  headOid_val oid

theorem fingerprintOf_string (fingerprint : Fingerprint) :
    fingerprintOf (.string fingerprint.val) = some fingerprint := by
  rw [fingerprintOf]
  exact dif_pos fingerprint.property

structure SourceState where
  headOid : HeadOid
  changesFingerprint : Fingerprint

def sourceStateKeys : List JsText := [asciiUnits "headOid", asciiUnits "changesFingerprint"]

def sourceStateFields (state : SourceState) : Fields :=
  [(asciiUnits "headOid", some (.string state.headOid.val)),
    (asciiUnits "changesFingerprint", some (.string state.changesFingerprint.val))]

def sourceStateValue (state : SourceState) : JsValue := objectOf (sourceStateFields state)

def normalizeSourceState (label : String) (value : JsValue) : Except StoreError SourceState :=
  if isRecord value && exactKeys value sourceStateKeys then do
    let headOid ← orInvalid s!"Workspace checkpoint {label} head OID is invalid"
      (headOidOf (member value (asciiUnits "headOid")))
    let changesFingerprint ← orInvalid s!"Workspace checkpoint {label} fingerprint is invalid"
      (fingerprintOf (member value (asciiUnits "changesFingerprint")))
    return { headOid, changesFingerprint }
  else .error (.invalid s!"Workspace checkpoint {label} is invalid")

theorem normalizeSourceState_value (label : String) (state : SourceState) :
    normalizeSourceState label (sourceStateValue state) = .ok state := by
  have hkeys : ((sourceStateFields state).map Prod.fst).Nodup := by
    show sourceStateKeys.Nodup
    decide
  have hexact : exactKeys (sourceStateValue state) sourceStateKeys = true :=
    exactKeys_objectOf fun field hfield => List.mem_map_of_mem hfield
  have hoid : member (sourceStateValue state) (asciiUnits "headOid") =
      .string state.headOid.val := member_objectOf_some hkeys (by simp [sourceStateFields])
  have hfingerprint : member (sourceStateValue state) (asciiUnits "changesFingerprint") =
      .string state.changesFingerprint.val :=
    member_objectOf_some hkeys (by simp [sourceStateFields])
  have hrecord : isRecord (sourceStateValue state) = true := rfl
  rw [normalizeSourceState, if_pos (by rw [hrecord, hexact]; rfl), hoid, hfingerprint,
    headOidOf_string, fingerprintOf_string]
  rfl

structure Baseline where
  branch : Option JsText
  headOid : Option HeadOid

def baselineKeys : List JsText := [asciiUnits "branch", asciiUnits "headOid"]

def baselineFields (baseline : Baseline) : Fields :=
  [(asciiUnits "branch", baseline.branch.map .string),
    (asciiUnits "headOid", baseline.headOid.map fun oid => .string oid.val)]

def baselineValue (baseline : Baseline) : JsValue := objectOf (baselineFields baseline)

def branchOf (value : JsValue) : Except StoreError JsText :=
  match value with
  | .string text => .ok text
  | _ => .error (.invalid "Workspace checkpoint baseline branch is invalid")

def baselineHeadOid (value : JsValue) : Except StoreError HeadOid :=
  orInvalid "Workspace checkpoint baseline head OID is invalid" (headOidOf value)

def normalizeBaseline (value : JsValue) : Except StoreError Baseline :=
  if isRecord value && exactKeys value baselineKeys then do
    let branch ← optional branchOf (member value (asciiUnits "branch"))
    let headOid ← optional baselineHeadOid (member value (asciiUnits "headOid"))
    return { branch, headOid }
  else .error (.invalid "Workspace checkpoint baseline is invalid")

theorem normalizeBaseline_value (baseline : Baseline) :
    normalizeBaseline (baselineValue baseline) = .ok baseline := by
  have hkeys : ((baselineFields baseline).map Prod.fst).Nodup := by
    show baselineKeys.Nodup
    decide
  have hexact : exactKeys (baselineValue baseline) baselineKeys = true :=
    exactKeys_objectOf fun field hfield => List.mem_map_of_mem hfield
  have hbranch : member (baselineValue baseline) (asciiUnits "branch") =
      (baseline.branch.map .string).getD .undefined :=
    member_objectOf hkeys (by simp [baselineFields])
  have hoid : member (baselineValue baseline) (asciiUnits "headOid") =
      (baseline.headOid.map fun oid => .string oid.val).getD .undefined :=
    member_objectOf hkeys (by simp [baselineFields])
  have hrecord : isRecord (baselineValue baseline) = true := rfl
  have hreadBranch : ∀ text : JsText, branchOf (.string text) = .ok text := fun _ => rfl
  have hreadOid : ∀ oid : HeadOid, baselineHeadOid (.string oid.val) = .ok oid := by
    intro oid
    rw [baselineHeadOid, headOidOf_string]
    rfl
  rw [normalizeBaseline, if_pos (by rw [hrecord, hexact]; rfl), hbranch, hoid,
    optional_write hreadBranch (fun _ => by simp), optional_write hreadOid (fun _ => by simp)]
  rfl

structure EvidenceRef where
  kind : EvidenceKind
  ref : BoundedText maxEvidenceRefBytes
  summary : Option (BoundedText maxEvidenceSummaryBytes)
  nonempty : ref.val ≠ []

def evidenceKeys : List JsText := [asciiUnits "kind", asciiUnits "ref", asciiUnits "summary"]

def evidenceFields (evidence : EvidenceRef) : Fields :=
  [(asciiUnits "kind", some (.string (kindText evidence.kind))),
    (asciiUnits "ref", some (textValue evidence.ref)),
    (asciiUnits "summary", evidence.summary.map textValue)]

def evidenceValue (evidence : EvidenceRef) : JsValue := objectOf (evidenceFields evidence)

def refOf (value : JsValue) :
    Except StoreError { ref : BoundedText maxEvidenceRefBytes // ref.val ≠ [] } :=
  match value with
  | .string text =>
    if hempty : text = [] then
      .error (.invalid "Workspace checkpoint evidence ref is invalid")
    else if h : utf8Length text ≤ maxEvidenceRefBytes then .ok ⟨⟨text, h⟩, hempty⟩
    else .error (.limitExceeded "Workspace checkpoint evidence ref exceeds its byte limit")
  | _ => .error (.invalid "Workspace checkpoint evidence ref is invalid")

def normalizeEvidence (value : JsValue) : Except StoreError EvidenceRef :=
  if isRecord value && exactKeys value evidenceKeys then do
    let kind ← orInvalid "Workspace checkpoint evidence kind is invalid"
      (kindOf (member value (asciiUnits "kind")))
    let ref ← refOf (member value (asciiUnits "ref"))
    let summary ← optionalBoundedString (member value (asciiUnits "summary"))
      maxEvidenceSummaryBytes "evidence summary"
    return { kind, ref := ref.val, summary, nonempty := ref.property }
  else .error (.invalid "Workspace checkpoint evidence reference is invalid")

theorem normalizeEvidence_value (evidence : EvidenceRef) :
    normalizeEvidence (evidenceValue evidence) = .ok evidence := by
  have hkeys : ((evidenceFields evidence).map Prod.fst).Nodup := by
    show evidenceKeys.Nodup
    decide
  have hexact : exactKeys (evidenceValue evidence) evidenceKeys = true :=
    exactKeys_objectOf fun field hfield => List.mem_map_of_mem hfield
  have hkind : member (evidenceValue evidence) (asciiUnits "kind") =
      .string (kindText evidence.kind) := member_objectOf_some hkeys (by simp [evidenceFields])
  have href : member (evidenceValue evidence) (asciiUnits "ref") = textValue evidence.ref :=
    member_objectOf_some hkeys (by simp [evidenceFields])
  have hsummary : member (evidenceValue evidence) (asciiUnits "summary") =
      (evidence.summary.map textValue).getD .undefined :=
    member_objectOf hkeys (by simp [evidenceFields])
  have hrecord : isRecord (evidenceValue evidence) = true := rfl
  have hreadRef : refOf (textValue evidence.ref) = .ok ⟨evidence.ref, evidence.nonempty⟩ := by
    rw [textValue, refOf]
    simp [evidence.nonempty, evidence.ref.property]
  rw [normalizeEvidence, if_pos (by rw [hrecord, hexact]; rfl), hkind, href, hsummary,
    kindOf_kindText, hreadRef, optionalBoundedString_textValue]
  rfl

/-- What `trim` removes. -/
def isWhitespace (code : UInt16) : Bool :=
  (9 ≤ code && code ≤ 13) || code = 32 || code = 160 || code = 5760 ||
    (8192 ≤ code && code ≤ 8202) || code = 8232 || code = 8233 || code = 8239 || code = 8287 ||
    code = 12288 || code = 65279

def bodyFault (status : Status) (blocker : Option JsText) (actions : Nat) : Option String :=
  if status = .blocked ∧ (blocker.getD []).all isWhitespace then
    some "Blocked workspace checkpoint requires a blocker"
  else if status ≠ .blocked ∧ blocker.isSome then
    some "Only blocked workspace checkpoints may contain a blocker"
  else if status = .complete ∧ actions ≠ 0 then
    some "Complete workspace checkpoint must have no next actions"
  else none

structure CheckpointBody where
  objective : Option (BoundedText maxObjectiveBytes)
  status : Status
  baseline : Option Baseline
  nextActions : { actions : List (BoundedText maxNextActionBytes) // actions.length ≤ maxNextActions }
  evidenceRefs : { refs : List EvidenceRef // refs.length ≤ maxEvidenceRefs }
  blocker : Option (BoundedText maxBlockerBytes)
  notes : Option (BoundedText maxNotesBytes)
  coherent : bodyFault status (blocker.map Subtype.val) nextActions.val.length = none

def bodyKeys : List JsText :=
  [asciiUnits "objective", asciiUnits "status", asciiUnits "baseline", asciiUnits "nextActions",
    asciiUnits "evidenceRefs", asciiUnits "blocker", asciiUnits "notes"]

def bodyFields (body : CheckpointBody) : Fields :=
  [(asciiUnits "objective", body.objective.map textValue),
    (asciiUnits "status", some (.string (statusText body.status))),
    (asciiUnits "baseline", body.baseline.map baselineValue),
    (asciiUnits "nextActions", some (.array (body.nextActions.val.map textValue))),
    (asciiUnits "evidenceRefs", some (.array (body.evidenceRefs.val.map evidenceValue))),
    (asciiUnits "blocker", body.blocker.map textValue),
    (asciiUnits "notes", body.notes.map textValue)]

def nextActionOf (value : JsValue) : Except StoreError (BoundedText maxNextActionBytes) :=
  match value with
  | .string text => ensureUtf8Bound text maxNextActionBytes "next action"
  | _ => .error (.invalid "Workspace checkpoint next action is invalid")

/-- `normalizeBody`, of an object that has no other keys; `get` reads its
members. -/
def normalizeFields (get : JsText → JsValue) : Except StoreError CheckpointBody := do
  let status ← orInvalid "Workspace checkpoint status is invalid"
    (statusOf (get (asciiUnits "status")))
  let objective ← optionalBoundedString (get (asciiUnits "objective")) maxObjectiveBytes "objective"
  let blocker ← optionalBoundedString (get (asciiUnits "blocker")) maxBlockerBytes "blocker"
  let notes ← optionalBoundedString (get (asciiUnits "notes")) maxNotesBytes "notes"
  let nextActions ← boundedArray maxNextActions
    (.invalid "Workspace checkpoint nextActions must be an array")
    (.limitExceeded "Workspace checkpoint has too many next actions") nextActionOf
    (get (asciiUnits "nextActions"))
  let evidenceRefs ← boundedArray maxEvidenceRefs
    (.invalid "Workspace checkpoint evidenceRefs must be an array")
    (.limitExceeded "Workspace checkpoint has too many evidence references") normalizeEvidence
    (get (asciiUnits "evidenceRefs"))
  let baseline ← optional normalizeBaseline (get (asciiUnits "baseline"))
  match hfault : bodyFault status (blocker.map Subtype.val) nextActions.val.length with
  | some message => .error (.invalid message)
  | none =>
    return { objective, status, baseline, nextActions, evidenceRefs, blocker, notes,
             coherent := hfault }

def normalizeBody (value : JsValue) : Except StoreError CheckpointBody :=
  if isRecord value then
    if exactKeys value bodyKeys then normalizeFields (member value)
    else .error (.invalid "Workspace checkpoint body contains unknown fields")
  else .error (.invalid "Workspace checkpoint body must be an object")

theorem normalizeFields_bodyFields {get : JsText → JsValue} (body : CheckpointBody)
    (hget : ∀ field ∈ bodyFields body, get field.1 = field.2.getD .undefined) :
    normalizeFields get = .ok body := by
  obtain ⟨objective, status, baseline, nextActions, evidenceRefs, blocker, notes, hcoherent⟩ := body
  simp only [bodyFields, List.mem_cons, List.not_mem_nil, or_false, forall_eq_or_imp,
    forall_eq, Option.getD_some] at hget
  obtain ⟨hobjective, hstatus, hbaseline, hactions, hrefs, hblocker, hnotes⟩ := hget
  have hreadAction : ∀ text : BoundedText maxNextActionBytes, nextActionOf (textValue text) =
      .ok text := fun text => ensureUtf8Bound_val text "next action"
  have hreadBaseline : optional normalizeBaseline ((baseline.map baselineValue).getD .undefined) =
      .ok baseline := optional_write normalizeBaseline_value (fun _ => by simp [baselineValue, objectOf]) baseline
  rw [normalizeFields, hstatus, hobjective, hblocker, hnotes, hactions, hrefs, hbaseline,
    statusOf_statusText, boundedArray_map hreadAction, boundedArray_map normalizeEvidence_value,
    hreadBaseline]
  simp only [optionalBoundedString_textValue, orInvalid, bind, Except.bind]
  split
  · rename_i message hfault
    rw [hcoherent] at hfault
    cases hfault
  · rfl

def checkpointFields (revision : Nat) (body : CheckpointBody) (updatedAt : Timestamp) : Fields :=
  [(asciiUnits "schemaVersion", some (naturalNumber 1)),
    (asciiUnits "revision", some (naturalNumber revision))] ++ bodyFields body ++
    [(asciiUnits "updatedAt", some (.string updatedAt.val))]

def checkpointValue (revision : Nat) (body : CheckpointBody) (updatedAt : Timestamp) : JsValue :=
  objectOf (checkpointFields revision body updatedAt)

def serializedLength (value : JsValue) : Nat := jsonLength value + 1

structure Checkpoint where
  revision : Nat
  body : CheckpointBody
  updatedAt : Timestamp
  positive : 0 < revision
  bounded : serializedLength (checkpointValue revision body updatedAt) ≤ maxCheckpointBytes

def Checkpoint.value (checkpoint : Checkpoint) : JsValue :=
  checkpointValue checkpoint.revision checkpoint.body checkpoint.updatedAt

def checkpointKeys : List JsText :=
  [asciiUnits "schemaVersion", asciiUnits "revision"] ++ bodyKeys ++ [asciiUnits "updatedAt"]

/-- A revision that is read is a safe integer; the one after it need not be. -/
abbrev SafeRevision := { revision : Nat // 0 < revision ∧ revision ≤ maxSafeInteger }

abbrev ReadCheckpoint := { checkpoint : Checkpoint // checkpoint.revision ≤ maxSafeInteger }

/-- `ensureSerializedBound`. -/
def ensureSerializedBound {α : Type} (value : JsValue)
    (next : serializedLength value ≤ maxCheckpointBytes → α) : Except StoreError α :=
  if h : serializedLength value ≤ maxCheckpointBytes then .ok (next h)
  else .error (.limitExceeded "Workspace checkpoint exceeds the maximum serialized size")

def revisionOf (value : JsValue) : Option SafeRevision :=
  match h : positiveSafeInteger value with
  | some revision => some ⟨revision, positiveSafeInteger_bounds h⟩
  | none => none

def isVersion (version : Nat) (value : JsValue) : Bool := positiveSafeInteger value = some version

def parseCheckpoint (value : JsValue) : Except StoreError ReadCheckpoint :=
  if isRecord value then
    if isVersion 1 (member value (asciiUnits "schemaVersion")) then
      if exactKeys value checkpointKeys then do
        let revision ← orInvalid "Workspace checkpoint revision is invalid"
          (revisionOf (member value (asciiUnits "revision")))
        let updatedAt ← orInvalid "Workspace checkpoint timestamp is invalid"
          (timestampOf (member value (asciiUnits "updatedAt")))
        let body ← normalizeFields (member value)
        ensureSerializedBound (checkpointValue revision body updatedAt) fun hbound =>
          ⟨⟨revision, body, updatedAt, revision.property.1, hbound⟩, revision.property.2⟩
      else .error (.invalid "Workspace checkpoint contains unknown fields")
    else .error (.schemaUnsupported (member value (asciiUnits "schemaVersion")))
  else .error (.invalid "Workspace checkpoint must be an object")

theorem revisionOf_naturalNumber {revision : Nat} (hpos : 0 < revision) :
    revisionOf (naturalNumber revision) =
      if h : revision ≤ maxSafeInteger then some ⟨revision, hpos, h⟩ else none := by
  have hread := positiveSafeInteger_naturalNumber hpos
  unfold revisionOf
  split
  · rename_i found hfound
    rw [hread] at hfound
    split at hfound
    · rename_i hsafe
      obtain rfl := Option.some.inj hfound
      rw [dif_pos hsafe]
    · cases hfound
  · rename_i hnone
    rw [hread] at hnone
    split at hnone
    · cases hnone
    · rename_i hsafe
      rw [dif_neg hsafe]

theorem parseCheckpoint_value (checkpoint : Checkpoint) :
    parseCheckpoint checkpoint.value =
      if h : checkpoint.revision ≤ maxSafeInteger then .ok ⟨checkpoint, h⟩
      else .error (.invalid "Workspace checkpoint revision is invalid") := by
  obtain ⟨revision, body, updatedAt, hpos, hbound⟩ := checkpoint
  have hkeys : ((checkpointFields revision body updatedAt).map Prod.fst).Nodup := by
    show checkpointKeys.Nodup
    decide
  have hexact : exactKeys (checkpointValue revision body updatedAt) checkpointKeys = true := by
    apply exactKeys_objectOf
    intro field hfield
    have hmem : field.1 ∈ (checkpointFields revision body updatedAt).map Prod.fst :=
      List.mem_map_of_mem hfield
    exact hmem
  have hversion : member (checkpointValue revision body updatedAt) (asciiUnits "schemaVersion") =
      naturalNumber 1 := member_objectOf_some hkeys (by simp [checkpointFields])
  have hrevision : member (checkpointValue revision body updatedAt) (asciiUnits "revision") =
      naturalNumber revision := member_objectOf_some hkeys (by simp [checkpointFields])
  have htime : member (checkpointValue revision body updatedAt) (asciiUnits "updatedAt") =
      .string updatedAt.val := member_objectOf_some hkeys (by simp [checkpointFields])
  have hbody : normalizeFields (member (checkpointValue revision body updatedAt)) = .ok body := by
    apply normalizeFields_bodyFields body
    intro field hfield
    exact member_objectOf hkeys (by simp [checkpointFields, hfield])
  have hone : isVersion 1 (naturalNumber 1) = true := by
    rw [isVersion, positiveSafeInteger_naturalNumber (by decide)]
    decide
  have hrecord : isRecord (checkpointValue revision body updatedAt) = true := rfl
  show parseCheckpoint (checkpointValue revision body updatedAt) = _
  rw [parseCheckpoint, if_pos hrecord, hversion, if_pos hone, if_pos hexact, hrevision, htime,
    hbody, revisionOf_naturalNumber hpos, timestampOf_string]
  by_cases hsafe : revision ≤ maxSafeInteger
  · simp only [dif_pos hsafe, orInvalid, bind, Except.bind, ensureSerializedBound, dif_pos hbound]
  · simp only [dif_neg hsafe, orInvalid, bind, Except.bind]

/-- The loop of `compactUtf8`: characters are kept while they fit. -/
def compactLoop (maxBytes : Nat) (output : JsText) : List JsText → JsText
  | [] => output
  | character :: rest =>
    if maxBytes < utf8Length (output ++ character) then output
    else compactLoop maxBytes (output ++ character) rest

def compactUtf8 (value : JsText) (maxBytes : Nat) : JsText :=
  if utf8Length value ≤ maxBytes then value else compactLoop maxBytes [] (codePoints value)

theorem compactLoop_bounded {maxBytes : Nat} {output : JsText} {characters : List JsText}
    (houtput : utf8Length output ≤ maxBytes) :
    utf8Length (compactLoop maxBytes output characters) ≤ maxBytes := by
  induction characters generalizing output with
  | nil => exact houtput
  | cons character rest ih =>
    rw [compactLoop]
    split
    · exact houtput
    · rename_i hfits
      exact ih (Nat.le_of_not_lt hfits)

theorem compactUtf8_bounded (value : JsText) (maxBytes : Nat) :
    utf8Length (compactUtf8 value maxBytes) ≤ maxBytes := by
  rw [compactUtf8]
  split
  · assumption
  · exact compactLoop_bounded (Nat.zero_le _)

structure Milestone where
  revision : SafeRevision
  status : Status
  objective : Option (BoundedText maxMilestoneObjectiveBytes)
  sourceState : Option SourceState
  updatedAt : Timestamp

def milestoneKeys : List JsText :=
  [asciiUnits "revision", asciiUnits "status", asciiUnits "objective", asciiUnits "sourceState",
    asciiUnits "updatedAt"]

def milestoneFields (milestone : Milestone) : Fields :=
  [(asciiUnits "revision", some (naturalNumber milestone.revision)),
    (asciiUnits "status", some (.string (statusText milestone.status))),
    (asciiUnits "objective", milestone.objective.map textValue),
    (asciiUnits "sourceState", milestone.sourceState.map sourceStateValue),
    (asciiUnits "updatedAt", some (.string milestone.updatedAt.val))]

def milestoneValue (milestone : Milestone) : JsValue := objectOf (milestoneFields milestone)

def normalizeMilestone (value : JsValue) : Except StoreError Milestone :=
  if isRecord value && exactKeys value milestoneKeys then do
    let revision ← orInvalid "Workspace continuity milestone revision is invalid"
      (revisionOf (member value (asciiUnits "revision")))
    let status ← orInvalid "Workspace continuity milestone status is invalid"
      (statusOf (member value (asciiUnits "status")))
    let objective ← optionalBoundedString (member value (asciiUnits "objective"))
      maxMilestoneObjectiveBytes "milestone objective"
    let sourceState ← optional (normalizeSourceState "milestone source state")
      (member value (asciiUnits "sourceState"))
    let updatedAt ← orInvalid "Workspace continuity milestone timestamp is invalid"
      (timestampOf (member value (asciiUnits "updatedAt")))
    return { revision, status, objective, sourceState, updatedAt }
  else .error (.invalid "Workspace continuity milestone is invalid")

theorem normalizeMilestone_value (milestone : Milestone) :
    normalizeMilestone (milestoneValue milestone) = .ok milestone := by
  have hkeys : ((milestoneFields milestone).map Prod.fst).Nodup := by
    show milestoneKeys.Nodup
    decide
  have hexact : exactKeys (milestoneValue milestone) milestoneKeys = true :=
    exactKeys_objectOf fun field hfield => List.mem_map_of_mem hfield
  have hrevision : member (milestoneValue milestone) (asciiUnits "revision") =
      naturalNumber milestone.revision := member_objectOf_some hkeys (by simp [milestoneFields])
  have hstatus : member (milestoneValue milestone) (asciiUnits "status") =
      .string (statusText milestone.status) :=
    member_objectOf_some hkeys (by simp [milestoneFields])
  have hobjective : member (milestoneValue milestone) (asciiUnits "objective") =
      (milestone.objective.map textValue).getD .undefined :=
    member_objectOf hkeys (by simp [milestoneFields])
  have hstate : member (milestoneValue milestone) (asciiUnits "sourceState") =
      (milestone.sourceState.map sourceStateValue).getD .undefined :=
    member_objectOf hkeys (by simp [milestoneFields])
  have htime : member (milestoneValue milestone) (asciiUnits "updatedAt") =
      .string milestone.updatedAt.val := member_objectOf_some hkeys (by simp [milestoneFields])
  have hrecord : isRecord (milestoneValue milestone) = true := rfl
  have hread : revisionOf (naturalNumber milestone.revision) = some milestone.revision := by
    rw [revisionOf_naturalNumber milestone.revision.property.1,
      dif_pos milestone.revision.property.2]
  have hreadState : optional (normalizeSourceState "milestone source state")
      ((milestone.sourceState.map sourceStateValue).getD .undefined) =
        .ok milestone.sourceState :=
    optional_write (normalizeSourceState_value _) (fun _ => by simp [sourceStateValue, objectOf]) _
  rw [normalizeMilestone, if_pos (by rw [hrecord, hexact]; rfl), hrevision, hstatus, hobjective,
    hstate, htime, hread, statusOf_statusText, optionalBoundedString_textValue, hreadState,
    timestampOf_string]
  rfl

def compactMilestone (checkpoint : ReadCheckpoint) (sourceState : Option SourceState) : Milestone where
  revision := ⟨checkpoint.val.revision, checkpoint.val.positive, checkpoint.property⟩
  status := checkpoint.val.body.status
  objective := checkpoint.val.body.objective.map fun objective =>
    ⟨compactUtf8 objective.val maxMilestoneObjectiveBytes, compactUtf8_bounded _ _⟩
  sourceState := sourceState
  updatedAt := checkpoint.val.updatedAt

abbrev Milestones := { milestones : List Milestone // milestones.length ≤ maxMilestones }

structure ContinuityRecord where
  checkpoint : Checkpoint
  capturedSourceState : Option SourceState
  milestones : Milestones

abbrev ReadRecord := { record : ContinuityRecord // record.checkpoint.revision ≤ maxSafeInteger }

def continuityKeys : List JsText :=
  [asciiUnits "schemaVersion", asciiUnits "current", asciiUnits "capturedSourceState",
    asciiUnits "milestones"]

def continuityFields (record : ContinuityRecord) : Fields :=
  [(asciiUnits "schemaVersion", some (naturalNumber 2)),
    (asciiUnits "current", some record.checkpoint.value),
    (asciiUnits "capturedSourceState", record.capturedSourceState.map sourceStateValue),
    (asciiUnits "milestones", some (.array (record.milestones.val.map milestoneValue)))]

def continuityValue (record : ContinuityRecord) : JsValue := objectOf (continuityFields record)

def parseContinuity (value : JsValue) : Except StoreError ReadRecord :=
  if isRecord value then
    if isVersion 1 (member value (asciiUnits "schemaVersion")) then do
      let checkpoint ← parseCheckpoint value
      return ⟨⟨checkpoint.val, none, ⟨[], Nat.zero_le _⟩⟩, checkpoint.property⟩
    else if isVersion 2 (member value (asciiUnits "schemaVersion")) then
      if exactKeys value continuityKeys then do
        let checkpoint ← parseCheckpoint (member value (asciiUnits "current"))
        let capturedSourceState ← optional (normalizeSourceState "captured source state")
          (member value (asciiUnits "capturedSourceState"))
        let milestones ← boundedArray maxMilestones
          (.invalid "Workspace continuity milestones must be an array")
          (.limitExceeded "Workspace continuity has too many milestones") normalizeMilestone
          (member value (asciiUnits "milestones"))
        return ⟨⟨checkpoint.val, capturedSourceState, milestones⟩, checkpoint.property⟩
      else .error (.invalid "Workspace continuity contains unknown fields")
    else .error (.schemaUnsupported (member value (asciiUnits "schemaVersion")))
  else .error (.invalid "Workspace continuity must be an object")

theorem parseContinuity_value (record : ContinuityRecord) :
    parseContinuity (continuityValue record) =
      if h : record.checkpoint.revision ≤ maxSafeInteger then .ok ⟨record, h⟩
      else .error (.invalid "Workspace checkpoint revision is invalid") := by
  have hkeys : ((continuityFields record).map Prod.fst).Nodup := by
    show continuityKeys.Nodup
    decide
  have hexact : exactKeys (continuityValue record) continuityKeys = true :=
    exactKeys_objectOf fun field hfield => List.mem_map_of_mem hfield
  have hversion : member (continuityValue record) (asciiUnits "schemaVersion") = naturalNumber 2 :=
    member_objectOf_some hkeys (by simp [continuityFields])
  have hcurrent : member (continuityValue record) (asciiUnits "current") = record.checkpoint.value :=
    member_objectOf_some hkeys (by simp [continuityFields])
  have hstate : member (continuityValue record) (asciiUnits "capturedSourceState") =
      (record.capturedSourceState.map sourceStateValue).getD .undefined :=
    member_objectOf hkeys (by simp [continuityFields])
  have hmilestones : member (continuityValue record) (asciiUnits "milestones") =
      .array (record.milestones.val.map milestoneValue) :=
    member_objectOf_some hkeys (by simp [continuityFields])
  have hnotOne : isVersion 1 (naturalNumber 2) ≠ true := by
    rw [isVersion, positiveSafeInteger_naturalNumber (by decide)]
    decide
  have htwo : isVersion 2 (naturalNumber 2) = true := by
    rw [isVersion, positiveSafeInteger_naturalNumber (by decide)]
    decide
  have hrecord : isRecord (continuityValue record) = true := rfl
  have hreadState : optional (normalizeSourceState "captured source state")
      ((record.capturedSourceState.map sourceStateValue).getD .undefined) =
        .ok record.capturedSourceState :=
    optional_write (normalizeSourceState_value _) (fun _ => by simp [sourceStateValue, objectOf]) _
  rw [parseContinuity, if_pos hrecord, hversion, if_neg hnotOne, if_pos htwo, if_pos hexact,
    hcurrent, hstate, hmilestones, parseCheckpoint_value, hreadState,
    boundedArray_map normalizeMilestone_value]
  by_cases hsafe : record.checkpoint.revision ≤ maxSafeInteger
  · simp only [dif_pos hsafe]
    rfl
  · simp only [dif_neg hsafe]
    rfl

/-- What is at the path of the record: no file, or a text of so many bytes, and
what `JSON.parse` makes of it. -/
inductive StoredFile where
  | missing
  | text (byteLength : Nat) (value : Option JsValue)

/-- `#readContinuityUnlocked`, once the file has been read. -/
def readContinuity : StoredFile → Except StoreError (Option ReadRecord)
  | .missing => .ok none
  | .text byteLength value =>
    if maxContinuityBytes < byteLength then
      .error (.limitExceeded "Persisted workspace continuity exceeds the maximum size")
    else
      match value with
      | none => .error (.invalid "Workspace checkpoint is invalid JSON")
      | some value => (parseContinuity value).map some

/-- A record whose text is not too long to be written. -/
abbrev WritableRecord :=
  { record : ContinuityRecord // serializedLength (continuityValue record) ≤ maxContinuityBytes }

def WritableRecord.file (record : WritableRecord) : StoredFile :=
  .text (serializedLength (continuityValue record.val)) (some (continuityValue record.val))

def writable (record : ContinuityRecord) : Except StoreError WritableRecord :=
  if h : serializedLength (continuityValue record) ≤ maxContinuityBytes then .ok ⟨record, h⟩
  else .error (.limitExceeded "Workspace continuity exceeds the maximum size")

theorem readContinuity_file (record : WritableRecord) :
    readContinuity record.file =
      if h : record.val.checkpoint.revision ≤ maxSafeInteger then .ok (some ⟨record.val, h⟩)
      else .error (.invalid "Workspace checkpoint revision is invalid") := by
  have hfits : ¬ maxContinuityBytes < serializedLength (continuityValue record.val) :=
    Nat.not_lt_of_le record.property
  rw [WritableRecord.file, readContinuity, if_neg hfits]
  simp only [parseContinuity_value]
  split <;> rfl

def compareRevision (current : Option ReadRecord) (expected : Option Nat) :
    Except StoreError Unit :=
  match current with
  | none => if expected.isSome then .error .notFound else .ok ()
  | some current =>
    if expected = some current.val.checkpoint.revision then .ok () else .error .stale

/-- `slice(-WORKSPACE_MILESTONE_MAX_COUNT)`. -/
def newest (milestones : List Milestone) : Milestones :=
  ⟨milestones.drop (milestones.length - maxMilestones), by rw [List.length_drop]; omega⟩

def compactRecord (record : ReadRecord) : Milestone :=
  compactMilestone ⟨record.val.checkpoint, record.property⟩ record.val.capturedSourceState

def nextRevision (current : Option ContinuityRecord) : Nat :=
  (current.map fun record => record.checkpoint.revision).getD 0 + 1

/-- The record after an upsert; `clock` is the time, if the clock gives one. -/
def upsertRecord (current : Option ReadRecord) (body : CheckpointBody)
    (capturedSourceState : SourceState) (expected : Option Nat) (clock : Option Timestamp) :
    Except StoreError ContinuityRecord := do
  compareRevision current expected
  let updatedAt ← orInvalid "Workspace checkpoint clock is invalid" clock
  let revision := nextRevision (current.map Subtype.val)
  let checkpoint ← ensureSerializedBound (checkpointValue revision body updatedAt) fun hbound =>
    Checkpoint.mk revision body updatedAt (Nat.succ_pos _) hbound
  let milestones := (current.map fun record => record.val.milestones.val).getD [] ++
    (current.map compactRecord).toList
  return { checkpoint, capturedSourceState := some capturedSourceState,
           milestones := newest milestones }

theorem compareRevision_ok {current : Option ReadRecord} {expected : Option Nat}
    (h : compareRevision current expected = .ok ()) :
    expected = current.map fun record => record.val.checkpoint.revision := by
  unfold compareRevision at h
  split at h
  · split at h
    · cases h
    · rename_i hnone
      simpa using hnone
  · split at h
    · rename_i heq
      exact heq
    · cases h

theorem upsertRecord_ok {current : Option ReadRecord} {body : CheckpointBody}
    {capturedSourceState : SourceState} {expected : Option Nat} {clock : Option Timestamp}
    {record : ContinuityRecord}
    (h : upsertRecord current body capturedSourceState expected clock = .ok record) :
    compareRevision current expected = .ok () ∧
      record.checkpoint.revision = nextRevision (current.map Subtype.val) ∧
      record.checkpoint.body = body ∧
      record.capturedSourceState = some capturedSourceState ∧
      record.milestones = newest ((current.map fun record => record.val.milestones.val).getD [] ++
        (current.map compactRecord).toList) := by
  unfold upsertRecord at h
  cases hcompare : compareRevision current expected with
  | error error =>
    rw [hcompare] at h
    cases h
  | ok _ =>
    cases clock with
    | none =>
      rw [hcompare] at h
      cases h
    | some updatedAt =>
      rw [hcompare] at h
      simp only [orInvalid, bind, Except.bind, ensureSerializedBound] at h
      split at h
      · cases h
      · rename_i checkpoint hcheckpoint
        split at hcheckpoint
        · obtain rfl := Except.ok.inj hcheckpoint
          obtain rfl := Except.ok.inj h
          exact ⟨rfl, rfl, rfl, rfl, rfl⟩
        · cases hcheckpoint

inductive Request where
  | upsert (body capturedSourceState expectedRevision : JsValue)
  | clear (expectedRevision : JsValue)
  | purge

/-- A request whose arguments have been accepted. -/
inductive Operation where
  | upsert (body : CheckpointBody) (capturedSourceState : SourceState)
      (expectedRevision : Option Nat)
  | clear (expectedRevision : Nat)
  | purge

def expectedRevisionOf (value : JsValue) : Except StoreError Nat :=
  orInvalid "Workspace checkpoint expected revision is invalid" (positiveSafeInteger value)

/-- `validateExpectedRevision(value, true)`. -/
def requiredRevisionOf (value : JsValue) : Except StoreError Nat :=
  if isUndefined value then
    .error (.invalid "Workspace checkpoint expected revision is required")
  else expectedRevisionOf value

def Request.validate : Request → Except StoreError Operation
  | upsert body capturedSourceState expectedRevision => do
    let expected ← optional expectedRevisionOf expectedRevision
    let body ← normalizeBody body
    let captured ← normalizeSourceState "captured source state" capturedSourceState
    return .upsert body captured expected
  | clear expectedRevision => do
    let expected ← requiredRevisionOf expectedRevision
    return .clear expected
  | purge => return .purge

def Operation.expected : Operation → Option Nat
  | upsert _ _ expected => expected
  | clear expected => some expected
  | purge => none

end KodeGpt.CheckpointRecords
