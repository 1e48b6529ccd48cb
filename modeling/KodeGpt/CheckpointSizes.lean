import KodeGpt.CanonicalForms
import KodeGpt.CheckpointStoreRuns
import KodeGpt.JsonSizes

/-!
The room that a checkpoint and the milestones beside it take in the file of a
workspace's continuity. Milestones without control characters fit beside any
checkpoint, and so does a short checkpoint beside any milestones; other records
may be too long to be written. The text of a record is read back as the record.
-/

namespace KodeGpt.CheckpointSizes

open JsonDocuments JsFrames JsObjects JsonSizes CheckpointRecords CheckpointStoreRuns PromiseChain
open TransitionSystem
open LossyTexts (byteLength)
open JsonReadback (IsJson ItemsJson parsed jsonBytes)

theorem isLowerHex_isPlainAscii {code : UInt16} (hcode : isLowerHex code = true) :
    isPlainAscii code = true := by
  simp only [isLowerHex, isDigit, isPlainAscii, Bool.and_eq_true, Bool.or_eq_true,
    decide_eq_true_eq, UInt16.le_iff_toNat_le, UInt16.lt_iff_toNat_lt, UInt16.reduceToNat,
    ne_eq, ← UInt16.toNat_inj] at hcode ⊢
  omega

theorem escapedLength_hex {text : JsText} (htext : text.all isLowerHex = true) :
    escapedLength text = text.length := by
  apply escapedLength_plainAscii
  rw [List.all_eq_true] at htext ⊢
  exact fun code hcode => isLowerHex_isPlainAscii (htext code hcode)

theorem headOid_length (oid : HeadOid) :
    escapedLength oid.val = oid.val.length ∧ oid.val.length ≤ 64 := by
  obtain ⟨hlength, hall⟩ := Bool.and_eq_true_iff.mp oid.property
  refine ⟨escapedLength_hex hall, ?_⟩
  simp only [Bool.or_eq_true, decide_eq_true_eq] at hlength
  omega

theorem fingerprint_length (fingerprint : Fingerprint) : escapedLength fingerprint.val = 64 := by
  obtain ⟨hlength, hall⟩ := Bool.and_eq_true_iff.mp fingerprint.property
  rw [escapedLength_hex hall, of_decide_eq_true hlength]

theorem timestampYear_length {text : JsText} {year : Int} (h : timestampYear text = some year) :
    text.length ≤ 7 := by
  unfold timestampYear at h
  split at h
  · simp
  · split at h
    · split at h
      · rename_i hsigned
        simp only [List.length_cons]
        omega
      · split at h
        · rename_i hsigned
          simp only [List.length_cons]
          omega
        · cases h
    · cases h
  · cases h

theorem timestamp_length (timestamp : Timestamp) : timestamp.val.length ≤ 27 := by
  obtain ⟨text, hcanonical⟩ := timestamp
  unfold isCanonicalTimestamp at hcanonical
  split at hcanonical
  · rename_i time hread
    unfold readTimestamp at hread
    split at hread
    · split at hread
      · obtain ⟨year, hyear, -⟩ := Option.bind_eq_some_iff.mp hread
        have hlength := timestampYear_length hyear
        rw [List.length_take] at hlength
        show text.length ≤ 27
        omega
      · cases hread
    · cases hread
  · cases hcanonical

theorem escapedLength_timestamp (timestamp : Timestamp) : escapedLength timestamp.val ≤ 162 := by
  have hescaped := escapedLength_le_length timestamp.val
  have hlength := timestamp_length timestamp
  omega

theorem escapedLength_statusText (status : Status) : escapedLength (statusText status) ≤ 8 := by
  cases status <;> decide

theorem sourceStateFields_haveText (state : SourceState) :
    FieldsHaveText (sourceStateFields state) :=
  .cons (hasText_some (hasText_string _)) (.cons (hasText_some (hasText_string _)) .nil)

theorem hasText_sourceState (state : SourceState) : HasText (sourceStateValue state) :=
  hasText_objectOf (sourceStateFields_haveText state)

theorem jsonLength_sourceState (state : SourceState) :
    jsonLength (sourceStateValue state) ≤ 166 := by
  have hoid := headOid_length state.headOid
  have hfingerprint := fingerprint_length state.changesFingerprint
  have hkeys : escapedLength (asciiUnits "headOid") = 7 ∧
      escapedLength (asciiUnits "changesFingerprint") = 18 := by decide
  rw [sourceStateValue, jsonLength_objectOf (sourceStateFields_haveText state)]
  simp only [sourceStateFields, List.map_cons, List.map_nil, List.sum_cons, List.sum_nil,
    fieldLength_some, jsonLength_string]
  omega

theorem milestoneFields_haveText (milestone : Milestone) :
    FieldsHaveText (milestoneFields milestone) :=
  .cons (hasText_some (hasText_naturalNumber _)) <|
    .cons (hasText_some (hasText_string _)) <|
      .cons (hasText_map (fun _ => hasText_string _) _) <|
        .cons (hasText_map hasText_sourceState _) <|
          .cons (hasText_some (hasText_string _)) .nil

theorem hasText_milestone (milestone : Milestone) : HasText (milestoneValue milestone) :=
  hasText_objectOf (milestoneFields_haveText milestone)

theorem jsonLength_milestone {milestone : Milestone} {size : Nat}
    (hobjective : ∀ objective ∈ milestone.objective, escapedLength objective.val ≤ size) :
    jsonLength (milestoneValue milestone) ≤ 422 + size := by
  have hkeys : escapedLength (asciiUnits "revision") = 8 ∧ escapedLength (asciiUnits "status") = 6 ∧
      escapedLength (asciiUnits "objective") = 9 ∧ escapedLength (asciiUnits "sourceState") = 11 ∧
      escapedLength (asciiUnits "updatedAt") = 9 := by decide
  have hrevision : jsonLength (naturalNumber milestone.revision) ≤ 16 :=
    jsonLength_safeInteger (Nat.le_succ_of_le milestone.revision.property.2)
  have hstatus := escapedLength_statusText milestone.status
  have htime := escapedLength_timestamp milestone.updatedAt
  have hobjectiveField :
      fieldLength (asciiUnits "objective", milestone.objective.map textValue) ≤ size + 15 := by
    cases hfound : milestone.objective with
    | none => exact Nat.zero_le _
    | some objective =>
      have hsize := hobjective objective hfound
      rw [Option.map_some, fieldLength_some, textValue, jsonLength_string]
      omega
  have hstateField :
      fieldLength (asciiUnits "sourceState", milestone.sourceState.map sourceStateValue) ≤ 181 := by
    cases milestone.sourceState with
    | none => exact Nat.zero_le _
    | some state =>
      have hsize := jsonLength_sourceState state
      rw [Option.map_some, fieldLength_some]
      omega
  rw [milestoneValue, jsonLength_objectOf (milestoneFields_haveText milestone)]
  simp only [milestoneFields, List.map_cons, List.map_nil, List.sum_cons, List.sum_nil,
    fieldLength_some _ (naturalNumber _), fieldLength_some _ (.string _), jsonLength_string]
  omega

theorem hasText_milestones (milestones : List Milestone) :
    HasText (.array (milestones.map milestoneValue)) :=
  hasText_array (List.forall_mem_map.mpr fun milestone _ => hasText_milestone milestone)

theorem jsonLength_milestones {milestones : List Milestone} {size : Nat}
    (hmilestones : ∀ milestone ∈ milestones, jsonLength (milestoneValue milestone) ≤ size) :
    jsonLength (.array (milestones.map milestoneValue)) ≤ 2 + milestones.length * (size + 1) := by
  rw [jsonLength_array (List.forall_mem_map.mpr fun milestone _ => hasText_milestone milestone),
    List.map_map]
  have hsum := List.sum_le_card_nsmul
    (milestones.map ((fun item => jsonLength item + 1) ∘ milestoneValue)) (size + 1)
    (List.forall_mem_map.mpr fun milestone hmem => Nat.succ_le_succ (hmilestones milestone hmem))
  rw [List.length_map, Nat.nsmul_eq_mul] at hsum
  omega

theorem le_jsonLength_milestones {milestones : List Milestone} {size : Nat}
    (hmilestones : ∀ milestone ∈ milestones, size ≤ jsonLength (milestoneValue milestone)) :
    milestones.length * size ≤ jsonLength (.array (milestones.map milestoneValue)) := by
  rw [jsonLength_array (List.forall_mem_map.mpr fun milestone _ => hasText_milestone milestone),
    List.map_map]
  have hsum := List.card_nsmul_le_sum
    (milestones.map ((fun item => jsonLength item + 1) ∘ milestoneValue)) size
    (List.forall_mem_map.mpr fun milestone hmem => Nat.le_succ_of_le (hmilestones milestone hmem))
  rw [List.length_map, Nat.nsmul_eq_mul] at hsum
  omega

theorem le_jsonLength_milestone {milestone : Milestone}
    {objective : BoundedText maxMilestoneObjectiveBytes}
    (hobjective : milestone.objective = some objective) :
    escapedLength objective.val ≤ jsonLength (milestoneValue milestone) := by
  have hfield :
      (asciiUnits "objective", some (textValue objective)) ∈ milestoneFields milestone := by
    simp [milestoneFields, hobjective]
  have hlength := fieldLength_le (milestoneFields_haveText milestone) hfield
  rw [fieldLength_some, textValue, jsonLength_string] at hlength
  exact Nat.le_trans (by omega) hlength

theorem evidenceFields_haveText (evidence : EvidenceRef) :
    FieldsHaveText (evidenceFields evidence) :=
  .cons (hasText_some (hasText_string _)) <|
    .cons (hasText_some (hasText_string _)) <|
      .cons (hasText_map (fun _ => hasText_string _) _) .nil

theorem baselineFields_haveText (baseline : Baseline) :
    FieldsHaveText (baselineFields baseline) :=
  .cons (hasText_map hasText_string _) <|
    .cons (hasText_map (fun _ => hasText_string _) _) .nil

theorem bodyFields_haveText (body : CheckpointBody) : FieldsHaveText (bodyFields body) :=
  .cons (hasText_map (fun _ => hasText_string _) _) <|
    .cons (hasText_some (hasText_string _)) <|
      .cons (hasText_map (fun baseline => hasText_objectOf (baselineFields_haveText baseline)) _) <|
        .cons (hasText_some (hasText_array
          (List.forall_mem_map.mpr fun _ _ => hasText_string _))) <|
          .cons (hasText_some (hasText_array
            (List.forall_mem_map.mpr fun evidence _ =>
              hasText_objectOf (evidenceFields_haveText evidence)))) <|
            .cons (hasText_map (fun _ => hasText_string _) _) <|
              .cons (hasText_map (fun _ => hasText_string _) _) .nil

theorem checkpointFields_haveText (revision : Nat) (body : CheckpointBody)
    (updatedAt : Timestamp) : FieldsHaveText (checkpointFields revision body updatedAt) :=
  .append (.append
    (.cons (hasText_some (hasText_naturalNumber _)) <|
      .cons (hasText_some (hasText_naturalNumber _)) .nil)
    (bodyFields_haveText body)) (.cons (hasText_some (hasText_string _)) .nil)

theorem hasText_checkpoint (checkpoint : Checkpoint) : HasText checkpoint.value :=
  hasText_objectOf (checkpointFields_haveText _ _ _)

theorem continuityFields_haveText (record : ContinuityRecord) :
    FieldsHaveText (continuityFields record) :=
  .cons (hasText_some (hasText_naturalNumber _)) <|
    .cons (hasText_some (hasText_checkpoint _)) <|
      .cons (hasText_map hasText_sourceState _) <|
        .cons (hasText_some (hasText_milestones _)) .nil

theorem serializedLength_continuity (record : ContinuityRecord) :
    serializedLength (continuityValue record) ≤ 233 + serializedLength record.checkpoint.value +
      jsonLength (.array (record.milestones.val.map milestoneValue)) := by
  have hkeys : escapedLength (asciiUnits "schemaVersion") = 13 ∧
      escapedLength (asciiUnits "current") = 7 ∧
      escapedLength (asciiUnits "capturedSourceState") = 19 ∧
      escapedLength (asciiUnits "milestones") = 10 ∧ jsonLength (naturalNumber 2) = 1 := by decide
  have hstateField : fieldLength (asciiUnits "capturedSourceState",
      record.capturedSourceState.map sourceStateValue) ≤ 189 := by
    cases record.capturedSourceState with
    | none => exact Nat.zero_le _
    | some state =>
      have hsize := jsonLength_sourceState state
      rw [Option.map_some, fieldLength_some]
      omega
  rw [serializedLength, serializedLength, continuityValue,
    jsonLength_objectOf (continuityFields_haveText record)]
  simp only [continuityFields, List.map_cons, List.map_nil, List.sum_cons, List.sum_nil,
    fieldLength_some _ (naturalNumber _), fieldLength_some _ (.array _),
    fieldLength_some _ record.checkpoint.value]
  omega

theorem le_serializedLength_continuity (record : ContinuityRecord) :
    jsonLength record.checkpoint.value +
      jsonLength (.array (record.milestones.val.map milestoneValue)) ≤
        serializedLength (continuityValue record) := by
  rw [serializedLength, continuityValue, jsonLength_objectOf (continuityFields_haveText record)]
  simp only [continuityFields, List.map_cons, List.map_nil, List.sum_cons, List.sum_nil,
    fieldLength_some _ (.array _), fieldLength_some _ record.checkpoint.value]
  omega

/-- No objective that is kept has a control character without a short escape. -/
def PlainMilestones (record : ContinuityRecord) : Prop :=
  ∀ milestone ∈ record.milestones.val, ∀ objective ∈ milestone.objective,
    objective.val.any isLongControl = false

def maxShortCheckpointBytes : Nat := 4573

theorem continuity_fits_of_plain {record : ContinuityRecord} (hplain : PlainMilestones record) :
    serializedLength (continuityValue record) ≤ maxContinuityBytes := by
  have hlength := serializedLength_continuity record
  have hcheckpoint : serializedLength record.checkpoint.value ≤ 16384 := record.checkpoint.bounded
  have hcount : record.milestones.val.length ≤ 8 := record.milestones.property
  have hmilestones : jsonLength (.array (record.milestones.val.map milestoneValue)) ≤
      2 + record.milestones.val.length * (1446 + 1) := by
    apply jsonLength_milestones
    intro milestone hmilestone
    apply @jsonLength_milestone milestone 1024
    intro objective hobjective
    have hescaped := escapedLength_le_two (hplain milestone hmilestone objective hobjective)
    have hbound : utf8Length objective.val ≤ 512 := objective.property
    omega
  show _ ≤ 32768
  omega

theorem continuity_fits_of_short {record : ContinuityRecord}
    (hshort : serializedLength record.checkpoint.value ≤ maxShortCheckpointBytes) :
    serializedLength (continuityValue record) ≤ maxContinuityBytes := by
  have hlength := serializedLength_continuity record
  have hcheckpoint : serializedLength record.checkpoint.value ≤ 4573 := hshort
  have hcount : record.milestones.val.length ≤ 8 := record.milestones.property
  have hmilestones : jsonLength (.array (record.milestones.val.map milestoneValue)) ≤
      2 + record.milestones.val.length * (3494 + 1) := by
    apply jsonLength_milestones
    intro milestone _
    apply @jsonLength_milestone milestone 3072
    intro objective _
    have hescaped := escapedLength_le_six objective.val
    have hbound : utf8Length objective.val ≤ 512 := objective.property
    omega
  show _ ≤ 32768
  omega

/-- What an upsert makes of a record whose file has been read. -/
structure Upserted (file : StoredFile) (found : Option ReadRecord) (body : CheckpointBody)
    (state : SourceState) (time : Timestamp) (call : Call) (record : ContinuityRecord) :
    Prop where
  revision : record.checkpoint.revision = nextRevision (found.map Subtype.val)
  body : record.checkpoint.body = body
  updatedAt : record.checkpoint.updatedAt = time
  state : record.capturedSourceState = some state
  milestones : record.milestones =
    newest ((found.map fun record => record.val.milestones.val).getD [] ++
      (found.map compactRecord).toList)
  phase : StoreRun.afterRead file (some time) call =
    (writable record).map fun written => .writing call written .mkdir

theorem exists_upserted {file : StoredFile} {found : Option ReadRecord} (body : CheckpointBody)
    (state : SourceState) {expected : Option Nat} (time : Timestamp) (observed : Option Nat)
    (hfile : readContinuity file = .ok found)
    (hexpected : expected = found.map fun record => record.val.checkpoint.revision)
    (hbound : serializedLength (checkpointValue (nextRevision (found.map Subtype.val)) body
      time) ≤ maxCheckpointBytes) :
    ∃ record, Upserted file found body state time ⟨.upsert body state expected, observed⟩
      record := by
  have hcompare : compareRevision found expected = .ok () := by
    subst hexpected
    cases found with
    | none => rfl
    | some record => exact if_pos rfl
  let record : ContinuityRecord :=
    ⟨⟨nextRevision (found.map Subtype.val), body, time, Nat.succ_pos _, hbound⟩, some state,
      newest ((found.map fun record => record.val.milestones.val).getD [] ++
        (found.map compactRecord).toList)⟩
  have hrecord : upsertRecord found body state expected (some time) = .ok record := by
    rw [upsertRecord, hcompare]
    simp only [orInvalid, bind, Except.bind, ensureSerializedBound, dif_pos hbound]
    rfl
  refine ⟨record, rfl, rfl, rfl, rfl, rfl, ?_⟩
  rw [StoreRun.afterRead, hfile]
  simp only [bind, Except.bind, hrecord]
  cases writable record <;> rfl

section Upserts

variable {file : StoredFile} {found : Option ReadRecord} {body : CheckpointBody}
  {state : SourceState} {time : Timestamp} {call : Call} {record : ContinuityRecord}

theorem Upserted.written (h : Upserted file found body state time call record)
    (hfits : serializedLength (continuityValue record) ≤ maxContinuityBytes) :
    StoreRun.afterRead file (some time) call = .ok (.writing call ⟨record, hfits⟩ .mkdir) := by
  rw [h.phase, writable, dif_pos hfits]
  rfl

theorem Upserted.refused (h : Upserted file found body state time call record)
    (hlarge : maxContinuityBytes < serializedLength (continuityValue record)) :
    StoreRun.afterRead file (some time) call =
      .error (.limitExceeded "Workspace continuity exceeds the maximum size") := by
  rw [h.phase, writable, dif_neg (Nat.not_le_of_lt hlarge)]
  rfl

theorem readContinuity_written
    (hfits : serializedLength (continuityValue record) ≤ maxContinuityBytes)
    (hsafe : record.checkpoint.revision ≤ maxSafeInteger) :
    readContinuity (WritableRecord.file ⟨record, hfits⟩) = .ok (some ⟨record, hsafe⟩) := by
  rw [readContinuity_file, dif_pos hsafe]

end Upserts

/-- An upsert under the right revision fails only when the record does not fit, and
then neither are all milestones plain nor is the checkpoint short. What is written
is read back. -/
theorem upsert_written_or_refused {file : StoredFile} {found : Option ReadRecord}
    (body : CheckpointBody) (state : SourceState) {expected : Option Nat} (time : Timestamp)
    (observed : Option Nat) (hfile : readContinuity file = .ok found)
    (hexpected : expected = found.map fun record => record.val.checkpoint.revision)
    (hbound : serializedLength (checkpointValue (nextRevision (found.map Subtype.val)) body
      time) ≤ maxCheckpointBytes) :
    let call : Call := ⟨.upsert body state expected, observed⟩
    ∃ record, Upserted file found body state time call record ∧
      (∀ hfits : serializedLength (continuityValue record) ≤ maxContinuityBytes,
        StoreRun.afterRead file (some time) call = .ok (.writing call ⟨record, hfits⟩ .mkdir) ∧
          ∀ hsafe : record.checkpoint.revision ≤ maxSafeInteger,
            readContinuity (WritableRecord.file ⟨record, hfits⟩) = .ok (some ⟨record, hsafe⟩)) ∧
      (maxContinuityBytes < serializedLength (continuityValue record) →
        StoreRun.afterRead file (some time) call =
          .error (.limitExceeded "Workspace continuity exceeds the maximum size")) ∧
      (PlainMilestones record ∨
          serializedLength record.checkpoint.value ≤ maxShortCheckpointBytes →
        serializedLength (continuityValue record) ≤ maxContinuityBytes) := by
  intro call
  obtain ⟨record, hrecord⟩ := exists_upserted body state time observed hfile hexpected hbound
  refine ⟨record, hrecord, ?_, hrecord.refused, ?_⟩
  · intro hfits
    exact ⟨hrecord.written hfits, readContinuity_written hfits⟩
  · rintro (hplain | hshort)
    · exact continuity_fits_of_plain hplain
    · exact continuity_fits_of_short hshort

def controlText (count : Nat) : JsText := List.replicate count 1

theorem utf8Length_controlText (count : Nat) : utf8Length (controlText count) = count := by
  induction count with
  | zero => rfl
  | succ count ih =>
    have hsize : unitBytes 1 = 1 := by decide
    have hnot : ¬ (IsHighSurrogate 1 ∧ IsLowSurrogate 1) := by decide
    cases count with
    | zero => decide
    | succ count =>
      have hcons : controlText (count + 1 + 1) = 1 :: 1 :: controlText count := rfl
      have htail : 1 :: controlText count = controlText (count + 1) := rfl
      rw [hcons, utf8Length, if_neg hnot, htail, ih, hsize, Nat.add_comm]

theorem escapedLength_controlText (count : Nat) :
    escapedLength (controlText count) = count * 6 := by
  have hunits : ∀ code ∈ controlText count,
      ¬ IsHighSurrogate code ∧ byteLength (quoteUnit code).text = 6 := by
    intro code hcode
    rw [List.eq_of_mem_replicate hcode]
    decide
  rw [escapedLength_eq hunits, controlText, List.length_replicate]

def controlBody (count : Nat) (hcount : count ≤ maxObjectiveBytes) : CheckpointBody where
  objective := some ⟨controlText count, by rwa [utf8Length_controlText]⟩
  status := .active
  baseline := none
  nextActions := ⟨[], by decide⟩
  evidenceRefs := ⟨[], by decide⟩
  blocker := none
  notes := none
  coherent := rfl

theorem serializedLength_controlBody {revision count : Nat}
    (hrevision : revision ≤ maxSafeInteger) (hcount : count ≤ maxObjectiveBytes)
    (time : Timestamp) :
    serializedLength (checkpointValue revision (controlBody count hcount) time) ≤
      294 + count * 6 := by
  have hkeys : escapedLength (asciiUnits "schemaVersion") = 13 ∧
      escapedLength (asciiUnits "revision") = 8 ∧ escapedLength (asciiUnits "objective") = 9 ∧
      escapedLength (asciiUnits "status") = 6 ∧ escapedLength (asciiUnits "nextActions") = 11 ∧
      escapedLength (asciiUnits "evidenceRefs") = 12 ∧
      escapedLength (asciiUnits "updatedAt") = 9 := by decide
  have hstatus : escapedLength (statusText .active) = 6 := by decide
  have hnumbers : jsonLength (naturalNumber 1) = 1 ∧ jsonLength (.array []) = 2 := by decide
  have hdigits := jsonLength_safeInteger (Nat.le_succ_of_le hrevision)
  have htime := escapedLength_timestamp time
  have hobjective := escapedLength_controlText count
  rw [serializedLength, checkpointValue, jsonLength_objectOf (checkpointFields_haveText _ _ _)]
  simp only [checkpointFields, bodyFields, controlBody, textValue, List.cons_append,
    List.nil_append, List.map_cons, List.map_nil, List.sum_cons, List.sum_nil, Option.map_some,
    Option.map_none, fieldLength_none, fieldLength_some, jsonLength_string]
  omega

theorem normalizeBody_fields (body : CheckpointBody) :
    normalizeBody (objectOf (bodyFields body)) = .ok body := by
  have hkeys : ((bodyFields body).map Prod.fst).Nodup := by
    show bodyKeys.Nodup
    decide
  have hexact : exactKeys (objectOf (bodyFields body)) bodyKeys = true :=
    exactKeys_objectOf fun field hfield => List.mem_map_of_mem hfield
  rw [normalizeBody, if_pos (isRecord_objectOf _), if_pos hexact]
  exact normalizeFields_bodyFields body fun field hfield => member_objectOf hkeys hfield

def someSourceState : SourceState where
  headOid := ⟨List.replicate 40 97, by decide⟩
  changesFingerprint := ⟨List.replicate 64 98, by decide⟩

theorem firstUpsert_written_or_refused :
    let body := controlBody maxObjectiveBytes (Nat.le_refl _)
    let call : Call := ⟨.upsert body someSourceState none, none⟩
    ∃ record, Upserted .missing none body someSourceState someTime call record ∧
      (∀ hfits : serializedLength (continuityValue record) ≤ maxContinuityBytes,
        StoreRun.afterRead .missing (some someTime) call =
            .ok (.writing call ⟨record, hfits⟩ .mkdir) ∧
          ∀ hsafe : record.checkpoint.revision ≤ maxSafeInteger,
            readContinuity (WritableRecord.file ⟨record, hfits⟩) = .ok (some ⟨record, hsafe⟩)) ∧
      (maxContinuityBytes < serializedLength (continuityValue record) →
        StoreRun.afterRead .missing (some someTime) call =
          .error (.limitExceeded "Workspace continuity exceeds the maximum size")) ∧
      (PlainMilestones record ∨
          serializedLength record.checkpoint.value ≤ maxShortCheckpointBytes →
        serializedLength (continuityValue record) ≤ maxContinuityBytes) := by
  apply upsert_written_or_refused _ _ _ _ rfl rfl
  exact Nat.le_trans (@serializedLength_controlBody 1 _ (by decide) (Nat.le_refl _) someTime)
    (by decide)

/-- No call is under way, and the calls from this one on have not begun. -/
structure Quiet (run : StoreRun) (first : CallId) : Prop where
  tail : run.chain.tail = none
  idle : ∀ id, first ≤ id → run.calls id = .idle

def undisturbed (id : CallId) (request : Request) (time : Timestamp) : List StoreEvent :=
  [.start id request none, .enter id, .read id false (some time)] ++
    List.replicate 10 (.write id false)

theorem undisturbed_run {run : StoreRun} {id : CallId} {request : Request} {body : CheckpointBody}
    {state : SourceState} {expected : Option Nat} {time : Timestamp} {record : WritableRecord}
    (hquiet : Quiet run id) (hrequest : request.validate = .ok (.upsert body state expected))
    (hread : StoreRun.afterRead run.file (some time) ⟨.upsert body state expected, none⟩ =
      .ok (.writing ⟨.upsert body state expected, none⟩ record .mkdir)) :
    ∃ later, exec StoreRun.next run (undisturbed id request time) = some later ∧
      later.file = record.file ∧ Quiet later (id + 1) := by
  let call : Call := ⟨.upsert body state expected, none⟩
  let entered : StoreRun := { run with chain := run.chain.join id }
  have hidle := hquiet.idle id (Nat.le_refl _)
  have henter : (run.chain.join id).mayEnter id = true := by
    rw [Chain.mayEnter, Chain.join]
    simp [hquiet.tail]
  have hqueued : exec StoreRun.next run
      [.start id request none, .enter id, .read id false (some time)] =
        some (entered.setPhase id (.writing call record .mkdir)) := by
    simp [exec, StoreRun.next, hidle, hrequest, fits, StoreRun.setPhase, henter,
      StoreRun.afterEnter, hread, entered, call]
  have hwritten : exec StoreRun.next (entered.setPhase id (.writing call record .mkdir))
      (List.replicate 10 (.write id false)) =
        some ((entered.replace id record.file (some record.val)).finish id
          (.fulfilled call (some record.val.checkpoint))) := by
    simp [exec, List.replicate, StoreRun.next, StoreRun.setPhase, StoreRun.replace,
      StoreRun.finish, WriteStep.following]
  refine ⟨(entered.replace id record.file (some record.val)).finish id
    (.fulfilled call (some record.val.checkpoint)), ?_, rfl, ?_, ?_⟩
  · rw [undisturbed, exec_append, hqueued, Option.bind_some, hwritten]
  · simp [StoreRun.finish, StoreRun.replace, Chain.release, Chain.join, entered]
  · intro other hother
    have hne : other ≠ id := Nat.ne_of_gt hother
    exact (Function.update_of_ne hne _ _).trans (hquiet.idle other (Nat.le_of_succ_le hother))

def objectiveOf (milestone : Milestone) : Option JsText :=
  milestone.objective.map Subtype.val

theorem maxMilestoneObjective_le : maxMilestoneObjectiveBytes ≤ maxObjectiveBytes := by decide

def heavyBody : CheckpointBody := controlBody maxMilestoneObjectiveBytes maxMilestoneObjective_le

/-- So many milestones are there, all with the longest objective. -/
structure Heavy (record : ReadRecord) (count : Nat) : Prop where
  revision : record.val.checkpoint.revision = count + 1
  body : record.val.checkpoint.body = heavyBody
  count : record.val.milestones.val.length = count
  objectives : ∀ milestone ∈ record.val.milestones.val,
    objectiveOf milestone = some (controlText maxMilestoneObjectiveBytes)

theorem objectiveOf_compactRecord {record : ReadRecord}
    (hbody : record.val.checkpoint.body = heavyBody) :
    objectiveOf (compactRecord record) = some (controlText maxMilestoneObjectiveBytes) := by
  have hfits : utf8Length (controlText maxMilestoneObjectiveBytes) ≤ maxMilestoneObjectiveBytes :=
    Nat.le_of_eq (utf8Length_controlText _)
  rw [objectiveOf, compactRecord, compactMilestone]
  simp only [hbody, heavyBody, controlBody, Option.map_some, compactUtf8, if_pos hfits]

def controlRequest (body : CheckpointBody) (expected : Option Nat) : Request :=
  .upsert (objectOf (bodyFields body)) (sourceStateValue someSourceState)
    (optionalValue naturalNumber expected)

theorem validate_controlRequest (body : CheckpointBody) {expected : Option Nat}
    (hexpected : ∀ revision ∈ expected, 0 < revision ∧ revision ≤ maxSafeInteger) :
    (controlRequest body expected).validate = .ok (.upsert body someSourceState expected) := by
  have hread : optional expectedRevisionOf (optionalValue naturalNumber expected) =
      .ok expected := by
    cases expected with
    | none => rfl
    | some revision =>
      obtain ⟨hpos, hsafe⟩ := hexpected revision rfl
      show (expectedRevisionOf (naturalNumber revision)).map some = _
      rw [expectedRevisionOf, positiveSafeInteger_naturalNumber hpos, if_pos hsafe]
      rfl
  rw [controlRequest, Request.validate, hread, normalizeBody_fields, normalizeSourceState_value]
  rfl

theorem short_upsert {run : StoreRun} {first : CallId} {found : Option ReadRecord}
    (hquiet : Quiet run first) (hfile : readContinuity run.file = .ok found)
    (hsafe : nextRevision (found.map Subtype.val) ≤ maxSafeInteger) :
    ∃ events later record, exec StoreRun.next run events = some later ∧
      Quiet later (first + 1) ∧ readContinuity later.file = .ok (some record) ∧
      record.val.checkpoint.revision = nextRevision (found.map Subtype.val) ∧
      record.val.checkpoint.body = heavyBody ∧
      record.val.milestones =
        newest ((found.map fun record => record.val.milestones.val).getD [] ++
          (found.map compactRecord).toList) := by
  have hlength := serializedLength_controlBody hsafe maxMilestoneObjective_le someTime
  have hheavy : maxMilestoneObjectiveBytes * 6 = 3072 := rfl
  have hbound : serializedLength (checkpointValue (nextRevision (found.map Subtype.val)) heavyBody
      someTime) ≤ maxCheckpointBytes := by
    refine Nat.le_trans hlength ?_
    rw [hheavy]
    decide
  obtain ⟨record, hrecord⟩ :=
    exists_upserted heavyBody someSourceState someTime none hfile rfl hbound
  have hvalue : record.checkpoint.value =
      checkpointValue (nextRevision (found.map Subtype.val)) heavyBody someTime := by
    rw [Checkpoint.value, hrecord.revision, hrecord.body, hrecord.updatedAt]
  have hshort : serializedLength record.checkpoint.value ≤ maxShortCheckpointBytes := by
    rw [hvalue]
    refine Nat.le_trans hlength ?_
    rw [hheavy]
    decide
  have hfits := continuity_fits_of_short hshort
  have hrequest := @validate_controlRequest heavyBody
    (found.map fun record => record.val.checkpoint.revision) (by
      intro revision hrevision
      obtain ⟨current, -, rfl⟩ := Option.map_eq_some_iff.mp hrevision
      exact ⟨current.val.checkpoint.positive, current.property⟩)
  obtain ⟨later, hrun, hlater, hnext⟩ :=
    undisturbed_run hquiet hrequest (hrecord.written hfits)
  refine ⟨_, later, ⟨record, hrecord.revision ▸ hsafe⟩, hrun, hnext, ?_, hrecord.revision,
    hrecord.body, hrecord.milestones⟩
  rw [hlater]
  exact readContinuity_written hfits _

theorem heavy_reachable (count : Nat) (hcount : count ≤ maxMilestones) :
    ∃ events run record, exec StoreRun.next (StoreRun.started .missing) events = some run ∧
      Quiet run (count + 1) ∧ readContinuity run.file = .ok (some record) ∧
      Heavy record count := by
  induction count with
  | zero =>
    have hquiet : Quiet (StoreRun.started .missing) 0 := ⟨rfl, fun _ _ => rfl⟩
    obtain ⟨events, run, record, hrun, hlater, hread, hrevision, hbody, hmilestones⟩ :=
      @short_upsert _ _ none hquiet rfl (by decide)
    refine ⟨events, run, record, hrun, hlater, hread, hrevision, hbody, ?_, ?_⟩
    · rw [hmilestones]
      rfl
    · rw [hmilestones]
      exact nofun
  | succ count ih =>
    obtain ⟨events, run, record, hrun, hquiet, hread, hheavy⟩ := ih (Nat.le_of_succ_le hcount)
    have hbound : count + 1 ≤ 8 := hcount
    have hrevision : nextRevision ((some record).map Subtype.val) = count + 2 := by
      rw [nextRevision, Option.map_some, Option.map_some, Option.getD_some, hheavy.revision]
    have hsafe : nextRevision ((some record).map Subtype.val) ≤ maxSafeInteger := by
      rw [hrevision, maxSafeInteger]
      omega
    obtain ⟨more, later, next, hmore, hlater, hnext, hnumber, hbody, hmilestones⟩ :=
      short_upsert hquiet hread hsafe
    have hkept : next.val.milestones.val =
        record.val.milestones.val ++ [compactRecord record] := by
      rw [hmilestones]
      apply newest_of_le
      show (record.val.milestones.val ++ [compactRecord record]).length ≤ maxMilestones
      rwa [List.length_append, hheavy.count, List.length_singleton]
    refine ⟨events ++ more, later, next, ?_, hlater, hnext, ?_, hbody, ?_, ?_⟩
    · rw [exec_append, hrun, Option.bind_some, hmore]
    · rw [hnumber, hrevision]
    · rw [hkept, List.length_append, hheavy.count, List.length_singleton]
    · intro milestone hmilestone
      rw [hkept, List.mem_append, List.mem_singleton] at hmilestone
      obtain hold | rfl := hmilestone
      · exact hheavy.objectives milestone hold
      · exact objectiveOf_compactRecord hheavy.body

theorem le_jsonLength_objective {checkpoint : Checkpoint}
    {objective : BoundedText maxObjectiveBytes}
    (hobjective : checkpoint.body.objective = some objective) :
    escapedLength objective.val ≤ jsonLength checkpoint.value := by
  have hfield : (asciiUnits "objective", some (textValue objective)) ∈
      checkpointFields checkpoint.revision checkpoint.body checkpoint.updatedAt := by
    simp [checkpointFields, bodyFields, hobjective]
  have hlength := fieldLength_le (checkpointFields_haveText _ _ _) hfield
  rw [fieldLength_some, textValue, jsonLength_string] at hlength
  exact Nat.le_trans (by omega) hlength

theorem heavy_exceeds {record : ReadRecord} (hheavy : Heavy record maxMilestones)
    {next : ContinuityRecord} {objective : BoundedText maxObjectiveBytes}
    (hmilestones : next.milestones =
      newest (record.val.milestones.val ++ [compactRecord record]))
    (hobjective : next.checkpoint.body.objective = some objective)
    (htext : objective.val = controlText maxObjectiveBytes) :
    maxContinuityBytes < serializedLength (continuityValue next) := by
  have hkept : next.milestones.val =
      (record.val.milestones.val ++ [compactRecord record]).drop 1 := by
    have hone :
        (record.val.milestones.val ++ [compactRecord record]).length - maxMilestones = 1 := by
      rw [List.length_append, hheavy.count]
      rfl
    rw [hmilestones]
    show List.drop _ _ = _
    rw [hone]
  have hcount : next.milestones.val.length = 8 := by
    rw [hkept, List.length_drop, List.length_append, hheavy.count]
    rfl
  have hmilestoneLengths : ∀ milestone ∈ next.milestones.val,
      3072 ≤ jsonLength (milestoneValue milestone) := by
    intro milestone hmilestone
    rw [hkept] at hmilestone
    have hfound : objectiveOf milestone = some (controlText maxMilestoneObjectiveBytes) := by
      obtain hold | hnew := List.mem_append.mp (List.mem_of_mem_drop hmilestone)
      · exact hheavy.objectives milestone hold
      · rw [List.mem_singleton.mp hnew]
        exact objectiveOf_compactRecord hheavy.body
    obtain ⟨objective, hsome, hvalue⟩ := Option.map_eq_some_iff.mp hfound
    have hlength := le_jsonLength_milestone hsome
    rwa [hvalue, escapedLength_controlText] at hlength
  have hmilestonesLength := le_jsonLength_milestones hmilestoneLengths
  have hcheckpoint := le_jsonLength_objective hobjective
  have hsum := le_serializedLength_continuity next
  rw [htext, escapedLength_controlText] at hcheckpoint
  rw [hcount] at hmilestonesLength
  have hlong : maxObjectiveBytes * 6 = 12288 := rfl
  show 32768 < _
  omega

/-- Checkpoints of a few kilobytes, each accepted, leave milestones beside which a
checkpoint that is accepted as well is refused. -/
theorem upsert_refused :
    ¬ ∀ (events : List StoreEvent) (run : StoreRun) (found : Option ReadRecord)
        (body : CheckpointBody) (state : SourceState) (expected : Option Nat)
        (time : Timestamp) (observed : Option Nat) (message : String),
      exec StoreRun.next (StoreRun.started .missing) events = some run →
        readContinuity run.file = .ok found →
          expected = found.map (fun record => record.val.checkpoint.revision) →
            serializedLength (checkpointValue (nextRevision (found.map Subtype.val)) body time) ≤
              maxCheckpointBytes →
                StoreRun.afterRead run.file (some time) ⟨.upsert body state expected, observed⟩ ≠
                  .error (.limitExceeded message) := by
  intro hnever
  obtain ⟨events, run, record, hrun, -, hread, hheavy⟩ :=
    heavy_reachable maxMilestones (Nat.le_refl _)
  have hrevision : nextRevision ((some record).map Subtype.val) = 10 := by
    rw [nextRevision, Option.map_some, Option.map_some, Option.getD_some, hheavy.revision]
    rfl
  have hlength := @serializedLength_controlBody 10 _ (by decide) (Nat.le_refl _) someTime
  have hbound : serializedLength (checkpointValue (nextRevision ((some record).map Subtype.val))
      (controlBody maxObjectiveBytes (Nat.le_refl _)) someTime) ≤ maxCheckpointBytes := by
    rw [hrevision]
    exact Nat.le_trans hlength (by decide)
  obtain ⟨next, hnext⟩ := exists_upserted (controlBody maxObjectiveBytes (Nat.le_refl _))
    someSourceState someTime none hread rfl hbound
  have hexceeds := heavy_exceeds hheavy hnext.milestones (by rw [hnext.body]; rfl) rfl
  exact hnever events run (some record) _ _ _ someTime none _ hrun hread rfl hbound
    (hnext.refused hexceeds)

theorem isJson_objectOf {fields : Fields}
    (h : ∀ field ∈ fields, ∀ value ∈ field.2, IsJson value) : IsJson (objectOf fields) := by
  refine CanonicalForms.membersJson_iff.mpr ?_
  intro entry hentry
  obtain ⟨field, hfield, hmap⟩ := List.mem_filterMap.mp hentry
  obtain ⟨value, hvalue, rfl⟩ := Option.map_eq_some_iff.mp hmap
  exact h field hfield value hvalue

theorem itemsJson_map {α : Type} {value : α → JsValue} {items : List α} :
    ItemsJson (items.map value) ↔ ∀ item ∈ items, IsJson (value item) := by
  induction items with
  | nil => simp [ItemsJson]
  | cons item rest ih => simp [ItemsJson, ih]

theorem isJson_continuity (record : ContinuityRecord) : IsJson (continuityValue record) := by
  have hstate : ∀ state, IsJson (sourceStateValue state) := fun _ =>
    isJson_objectOf (by simp [sourceStateFields, IsJson])
  have hbaseline : ∀ baseline, IsJson (baselineValue baseline) := fun _ =>
    isJson_objectOf (by simp [baselineFields, IsJson])
  have hevidence : ∀ evidence, IsJson (evidenceValue evidence) := fun _ =>
    isJson_objectOf (by simp [evidenceFields, textValue, IsJson])
  have hmilestone : ∀ milestone, IsJson (milestoneValue milestone) := fun _ =>
    isJson_objectOf (by simp [milestoneFields, textValue, IsJson, naturalNumber, hstate])
  have hbody : IsJson record.checkpoint.value := isJson_objectOf (by
    simp [checkpointFields, bodyFields, textValue, IsJson, naturalNumber, itemsJson_map,
      hbaseline, hevidence])
  refine isJson_objectOf ?_
  simp [continuityFields, IsJson, naturalNumber, hbody, hstate, itemsJson_map, hmilestone]

/-- The text that is written is read back as the record. -/
theorem continuity_readBack (record : ReadRecord) :
    (ofBytes (jsonBytes (continuityValue record.val))).map
      (fun document => parseContinuity (parsed document)) = some (.ok record) := by
  obtain ⟨document, hdocument, hparsed⟩ :=
    JsonReadback.exists_stringify _ (isJson_continuity record.val)
  rw [jsonBytes, hdocument]
  dsimp only
  rw [ofBytes_bytes, Option.map_some, hparsed, parseContinuity_value, dif_pos record.property]

end KodeGpt.CheckpointSizes
