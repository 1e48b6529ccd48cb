import KodeGpt.LossyTexts
import KodeGpt.ProcessOperations

/-!
The previews of an operation's output: the live ones, which are decoded chunk by
chunk while it runs, and the final ones, which are decoded when it has ended.
-/

namespace KodeGpt.LivePreviews

open LossyTexts TextEncodings
open JsonText (Bytes)
open ProcessOperations (ProcessState)

def previewMaxBytes : Nat := 64 * 1024

inductive StreamKind where
  | stdout
  | stderr
  deriving DecidableEq

structure Preview where
  text : List Char
  truncated : Bool
  deriving DecidableEq

def Preview.empty : Preview := ⟨[], false⟩

structure RawSpoolMetadata where
  artifactId : Bytes
  mediaType : Bytes
  bytesWritten : Nat
  sourceTruncated : Bool
  deriving DecidableEq

structure ProcessOperationRecord where
  operationId : Bytes
  workspaceCapability : Bytes
  executionId : Bytes
  processGroup : Int
  state : ProcessState
  exitCode : Option Int
  stdout : Preview
  stderr : Preview
  sourceTruncated : Bool
  bytesSpooled : Nat
  artifact : RawSpoolMetadata
  cancelRequested : Bool
  deriving DecidableEq

/-- What `process.status` shows of a record. -/
structure ProcessOperationView where
  operationId : Bytes
  state : ProcessState
  exitCode : Option Int
  stdout : Preview
  stderr : Preview
  sourceTruncated : Bool
  bytesSpooled : Nat
  artifact : RawSpoolMetadata
  deriving DecidableEq

namespace ProcessOperationRecord

def view (record : ProcessOperationRecord) : ProcessOperationView :=
  { operationId := record.operationId, state := record.state, exitCode := record.exitCode
    stdout := record.stdout, stderr := record.stderr
    sourceTruncated := record.sourceTruncated, bytesSpooled := record.bytesSpooled
    artifact := record.artifact }

def updatePreview (record : ProcessOperationRecord) (kind : StreamKind)
    (update : Preview → Preview) : ProcessOperationRecord :=
  match kind with
  | .stdout => { record with stdout := update record.stdout }
  | .stderr => { record with stderr := update record.stderr }

end ProcessOperationRecord

def ProcessOperationView.preview (view : ProcessOperationView) : StreamKind → Preview
  | .stdout => view.stdout
  | .stderr => view.stderr

def room (preview : Preview) : Nat := previewMaxBytes - byteLength preview.text

def appendLivePreview (target : Preview) (source : Bytes) : Preview :=
  let accepted := min (room target) source.length
  { text := target.text ++ fromUtf8Lossy (source.take accepted)
    truncated := target.truncated || decide (accepted < source.length) }

def updateOperationProgress (record : ProcessOperationRecord) (kind : StreamKind) (bytes : Bytes)
    (artifact : RawSpoolMetadata) : ProcessOperationRecord :=
  if record.state = .running then
    { record.updatePreview kind (appendLivePreview · bytes) with
      bytesSpooled := artifact.bytesWritten
      sourceTruncated := artifact.sourceTruncated
      artifact := artifact }
  else record

/-- The bytes of a preview that is decoded at the end. -/
structure CapturedPreview where
  bytes : Bytes
  truncated : Bool
  deriving DecidableEq

def appendPreview (target : CapturedPreview) (source : Bytes) : CapturedPreview :=
  let accepted := min (previewMaxBytes - target.bytes.length) source.length
  { bytes := target.bytes ++ source.take accepted
    truncated := target.truncated || decide (accepted < source.length) }

structure CaptureResult where
  exitCode : Int
  stdout : CapturedPreview
  stderr : CapturedPreview

def decodePreview (captured : CapturedPreview) : Preview :=
  ⟨fromUtf8Lossy captured.bytes, captured.truncated⟩

def completeOperation (record : ProcessOperationRecord) (capture : CaptureResult)
    (artifact : RawSpoolMetadata) : ProcessOperationRecord :=
  { record with
    exitCode := some capture.exitCode
    stdout := decodePreview capture.stdout
    stderr := decodePreview capture.stderr
    sourceTruncated := artifact.sourceTruncated
    bytesSpooled := artifact.bytesWritten
    artifact := artifact
    state :=
      if record.cancelRequested then .cancelled
      else if capture.exitCode = 0 then .completed
      else .failed
    processGroup := 0
    executionId := [] }

/-- What happens to the record of a running operation: a chunk of its output is
read, with the metadata of the spool after it, or its cancellation is asked
for. -/
inductive CaptureEvent where
  | data (kind : StreamKind) (bytes : Bytes) (artifact : RawSpoolMetadata)
  | cancel

structure Capture where
  record : ProcessOperationRecord
  stdout : CapturedPreview
  stderr : CapturedPreview

def Capture.captured (capture : Capture) : StreamKind → CapturedPreview
  | .stdout => capture.stdout
  | .stderr => capture.stderr

def captureStep (capture : Capture) : CaptureEvent → Capture
  | .data .stdout bytes artifact =>
    { capture with
      record := updateOperationProgress capture.record .stdout bytes artifact
      stdout := appendPreview capture.stdout bytes }
  | .data .stderr bytes artifact =>
    { capture with
      record := updateOperationProgress capture.record .stderr bytes artifact
      stderr := appendPreview capture.stderr bytes }
  | .cancel => { capture with record := { capture.record with cancelRequested := true } }

/-- An operation as it is entered in the registry. -/
structure Launch where
  operationId : Bytes
  workspaceCapability : Bytes
  executionId : Bytes
  processGroup : Int
  artifact : RawSpoolMetadata

def Launch.record (launch : Launch) : ProcessOperationRecord :=
  { operationId := launch.operationId, workspaceCapability := launch.workspaceCapability
    executionId := launch.executionId, processGroup := launch.processGroup
    state := .running, exitCode := none, stdout := .empty, stderr := .empty
    sourceTruncated := false, bytesSpooled := 0, artifact := launch.artifact
    cancelRequested := false }

def Launch.run (launch : Launch) (events : List CaptureEvent) : Capture :=
  events.foldl captureStep ⟨launch.record, ⟨[], false⟩, ⟨[], false⟩⟩

def chunks (kind : StreamKind) (events : List CaptureEvent) : List Bytes :=
  events.filterMap fun event =>
    match event with
    | .data other bytes _ => if other = kind then some bytes else none
    | .cancel => none

def livePreview (chunks : List Bytes) : Preview := chunks.foldl appendLivePreview .empty

def capturedPreview (chunks : List Bytes) : CapturedPreview :=
  chunks.foldl appendPreview ⟨[], false⟩

theorem captureStep_running (capture : Capture) (event : CaptureEvent)
    (hrunning : capture.record.state = .running) :
    (captureStep capture event).record.state = .running := by
  cases event with
  | cancel => exact hrunning
  | data kind bytes artifact =>
    cases kind <;>
      simp [captureStep, updateOperationProgress, hrunning, ProcessOperationRecord.updatePreview]

theorem foldl_captureStep (kind : StreamKind) (events : List CaptureEvent) (capture : Capture)
    (hrunning : capture.record.state = .running) :
    (events.foldl captureStep capture).record.state = .running ∧
      (events.foldl captureStep capture).record.view.preview kind =
        (chunks kind events).foldl appendLivePreview (capture.record.view.preview kind) ∧
      (events.foldl captureStep capture).captured kind =
        (chunks kind events).foldl appendPreview (capture.captured kind) := by
  induction events generalizing capture with
  | nil => exact ⟨hrunning, rfl, rfl⟩
  | cons event rest ih =>
    obtain ⟨hstate, hlive, hcaptured⟩ :=
      ih (captureStep capture event) (captureStep_running capture event hrunning)
    refine ⟨hstate, ?_, ?_⟩
    · rw [List.foldl_cons, hlive]
      cases event with
      | cancel => cases kind <;> rfl
      | data other bytes artifact =>
        cases other <;> cases kind <;>
          simp [chunks, captureStep, updateOperationProgress, hrunning,
            ProcessOperationRecord.updatePreview, ProcessOperationRecord.view,
            ProcessOperationView.preview]
    · rw [List.foldl_cons, hcaptured]
      cases event with
      | cancel => cases kind <;> rfl
      | data other bytes artifact =>
        cases other <;> cases kind <;> simp [chunks, captureStep, Capture.captured]

theorem run_preview (launch : Launch) (kind : StreamKind) (events : List CaptureEvent) :
    (launch.run events).record.view.preview kind = livePreview (chunks kind events) := by
  rw [Launch.run, (foldl_captureStep kind events _ rfl).2.1]
  cases kind <;> rfl

theorem run_captured (launch : Launch) (kind : StreamKind) (events : List CaptureEvent) :
    (launch.run events).captured kind = capturedPreview (chunks kind events) := by
  rw [Launch.run, (foldl_captureStep kind events _ rfl).2.2]
  cases kind <;> rfl

def pieces : Preview → List Bytes → List Bytes
  | _, [] => []
  | target, chunk :: rest =>
    chunk.take (room target) :: pieces (appendLivePreview target chunk) rest

/-- Some byte of the chunks is not in the preview. -/
def LeavesOut (chunks : List Bytes) : Prop := (pieces .empty chunks).flatten ≠ chunks.flatten

/-- The replacement characters of what is taken of each chunk fit in the room that
is left. -/
def AllFit : Preview → List Bytes → Prop
  | _, [] => True
  | target, chunk :: rest =>
    (chunk.take (room target)).length + excess (chunk.take (room target)) ≤ room target ∧
      AllFit (appendLivePreview target chunk) rest

theorem take_accepted (target : Preview) (source : Bytes) :
    source.take (min (room target) source.length) = source.take (room target) := by
  rw [← List.take_take, List.take_length]

theorem appendLivePreview_text (target : Preview) (source : Bytes) :
    (appendLivePreview target source).text =
      target.text ++ fromUtf8Lossy (source.take (room target)) := by
  rw [appendLivePreview, take_accepted]

theorem appendLivePreview_truncated (target : Preview) (source : Bytes) :
    (appendLivePreview target source).truncated = true ↔
      target.truncated = true ∨ room target < source.length := by
  have hless : min (room target) source.length < source.length ↔ room target < source.length := by
    omega
  simp [appendLivePreview, hless]

theorem byteLength_appendLivePreview (target : Preview) (source : Bytes) :
    byteLength (appendLivePreview target source).text = byteLength target.text +
      ((source.take (room target)).length + excess (source.take (room target))) := by
  rw [appendLivePreview_text, byteLength_append, byteLength_fromUtf8Lossy]

theorem pieces_length_le (chunks : List Bytes) (target : Preview) :
    (pieces target chunks).flatten.length ≤ chunks.flatten.length := by
  induction chunks generalizing target with
  | nil => exact Nat.le_refl _
  | cons chunk rest ih =>
    have hrest := ih (appendLivePreview target chunk)
    simp only [pieces, List.flatten_cons, List.length_append, List.length_take]
    omega

theorem foldl_truncated (chunks : List Bytes) (target : Preview) :
    (chunks.foldl appendLivePreview target).truncated = true ↔
      target.truncated = true ∨ (pieces target chunks).flatten ≠ chunks.flatten := by
  induction chunks generalizing target with
  | nil => simp [pieces]
  | cons chunk rest ih =>
    have hle := pieces_length_le rest (appendLivePreview target chunk)
    have hsame : (pieces target (chunk :: rest)).flatten = (chunk :: rest).flatten ↔
        chunk.length ≤ room target ∧
          (pieces (appendLivePreview target chunk) rest).flatten = rest.flatten := by
      rw [pieces, List.flatten_cons, List.flatten_cons]
      constructor
      · intro heq
        have hlength := congrArg List.length heq
        simp only [List.length_append, List.length_take] at hlength
        have hwhole : chunk.length ≤ room target := by omega
        rw [List.take_of_length_le hwhole, List.append_cancel_left_eq] at heq
        exact ⟨hwhole, heq⟩
      · rintro ⟨hwhole, heq⟩
        rw [List.take_of_length_le hwhole, heq]
    rw [List.foldl_cons, ih, appendLivePreview_truncated, ne_eq, ne_eq, hsame, not_and_or,
      Nat.not_le, or_assoc]

theorem foldl_bounded_iff (chunks : List Bytes) {target : Preview}
    (htarget : byteLength target.text ≤ previewMaxBytes) :
    (∀ seen, seen <+: chunks →
        byteLength (seen.foldl appendLivePreview target).text ≤ previewMaxBytes) ↔
      AllFit target chunks := by
  induction chunks generalizing target with
  | nil => simpa [AllFit] using htarget
  | cons chunk rest ih =>
    have hlength := byteLength_appendLivePreview target chunk
    have hroom : room target = previewMaxBytes - byteLength target.text := rfl
    rw [AllFit]
    constructor
    · intro hall
      have hone := hall [chunk] ⟨rest, rfl⟩
      rw [List.foldl_cons, List.foldl_nil] at hone
      refine ⟨by omega, (ih hone).mp fun seen hseen => ?_⟩
      exact hall (chunk :: seen) ((List.prefix_cons_inj chunk).mpr hseen)
    · rintro ⟨hfits, hrest⟩ seen hseen
      cases seen with
      | nil => exact htarget
      | cons first seen =>
        obtain ⟨rfl, hlater⟩ := List.cons_prefix_cons.mp hseen
        exact (ih (by omega)).mpr hrest seen hlater

/-- While an operation runs, its previews are within the limit, and their flags
right, exactly when replacement characters never outgrow the room. -/
theorem status_previews_iff (launch : Launch) (events : List CaptureEvent) :
    (∀ seen, seen <+: events → ∀ kind,
      byteLength ((launch.run seen).record.view.preview kind).text ≤ previewMaxBytes ∧
        (((launch.run seen).record.view.preview kind).truncated = true ↔
          LeavesOut (chunks kind seen))) ↔
      ∀ kind, AllFit .empty (chunks kind events) := by
  have hempty : byteLength Preview.empty.text ≤ previewMaxBytes := Nat.zero_le _
  constructor
  · intro hall kind
    refine (foldl_bounded_iff _ hempty).mp fun seen hseen => ?_
    obtain ⟨front, hfront, rfl⟩ := List.prefix_filterMap_iff.mp hseen
    have hbounded := (hall front hfront kind).1
    rwa [run_preview] at hbounded
  · intro hfit seen hseen kind
    rw [run_preview]
    refine ⟨(foldl_bounded_iff _ hempty).mpr (hfit kind) _ (hseen.filterMap _), ?_⟩
    rw [livePreview, foldl_truncated, LeavesOut]
    simp [Preview.empty]

theorem foldl_text (chunks : List Bytes) (target : Preview) :
    (chunks.foldl appendLivePreview target).text =
      target.text ++ (pieces target chunks).flatMap fromUtf8Lossy := by
  induction chunks generalizing target with
  | nil => simp [pieces]
  | cons chunk rest ih =>
    rw [List.foldl_cons, ih, appendLivePreview_text, pieces, List.flatMap_cons, List.append_assoc]

theorem byteLength_le_foldl (chunks : List Bytes) (target : Preview) :
    byteLength target.text ≤ byteLength (chunks.foldl appendLivePreview target).text := by
  rw [foldl_text, byteLength_append]
  exact Nat.le_add_right _ _

theorem full_of_room_lt {target : Preview} {chunk : Bytes} (hroom : room target < chunk.length) :
    previewMaxBytes ≤ byteLength (appendLivePreview target chunk).text := by
  rw [byteLength_appendLivePreview, List.length_take, Nat.min_eq_left (Nat.le_of_lt hroom), room]
  omega

theorem pieces_full (chunks : List Bytes) {target : Preview}
    (hfull : previewMaxBytes ≤ byteLength target.text) : (pieces target chunks).flatten = [] := by
  induction chunks generalizing target with
  | nil => rfl
  | cons chunk rest ih =>
    have hroom : room target = 0 := Nat.sub_eq_zero_of_le hfull
    have hnext : previewMaxBytes ≤ byteLength (appendLivePreview target chunk).text := by
      rw [byteLength_appendLivePreview]
      omega
    rw [pieces, hroom, List.take_zero, List.flatten_cons, ih hnext, List.append_nil]

theorem pieces_isFront (chunks : List Bytes) (target : Preview) :
    (pieces target chunks).flatten <+: chunks.flatten := by
  induction chunks generalizing target with
  | nil => exact List.prefix_refl _
  | cons chunk rest ih =>
    rw [pieces, List.flatten_cons, List.flatten_cons]
    rcases Nat.lt_or_ge (room target) chunk.length with hless | hwhole
    · rw [pieces_full rest (full_of_room_lt hless), List.append_nil]
      exact (List.take_prefix _ _).trans (List.prefix_append _ _)
    · rw [List.take_of_length_le hwhole]
      exact (List.prefix_append_right_inj _).mpr (ih _)

theorem pieces_eq_or_full (chunks : List Bytes) (target : Preview) :
    pieces target chunks = chunks ∨
      previewMaxBytes ≤ byteLength (chunks.foldl appendLivePreview target).text := by
  induction chunks generalizing target with
  | nil => exact .inl rfl
  | cons chunk rest ih =>
    rw [pieces, List.foldl_cons]
    rcases Nat.lt_or_ge (room target) chunk.length with hless | hwhole
    · exact .inr (Nat.le_trans (full_of_room_lt hless) (byteLength_le_foldl _ _))
    · rw [List.take_of_length_le hwhole]
      exact (ih _).imp_left fun h => by rw [h]

theorem foldl_texts (texts : List (List Char)) (target : Preview)
    (hlimit : byteLength target.text + byteLength texts.flatten ≤ previewMaxBytes) :
    (texts.map encodeUtf8).foldl appendLivePreview target =
      ⟨target.text ++ texts.flatten, target.truncated⟩ := by
  induction texts generalizing target with
  | nil => simp
  | cons text rest ih =>
    rw [List.flatten_cons, byteLength_append] at hlimit
    have hwhole : (encodeUtf8 text).length ≤ room target := by
      rw [← byteLength, room]
      omega
    have hnext : appendLivePreview target (encodeUtf8 text) =
        ⟨target.text ++ text, target.truncated⟩ := by
      rw [appendLivePreview, Nat.min_eq_right hwhole, List.take_length, fromUtf8Lossy_encodeUtf8]
      simp
    rw [List.map_cons, List.foldl_cons, hnext, ih, List.flatten_cons, List.append_assoc]
    rw [byteLength_append]
    omega

theorem capturedPreview_whole {chunks : List Bytes} (target : CapturedPreview)
    (hlimit : target.bytes.length + chunks.flatten.length ≤ previewMaxBytes) :
    chunks.foldl appendPreview target = ⟨target.bytes ++ chunks.flatten, target.truncated⟩ := by
  induction chunks generalizing target with
  | nil => simp
  | cons chunk rest ih =>
    rw [List.flatten_cons, List.length_append] at hlimit
    have hnext : appendPreview target chunk = ⟨target.bytes ++ chunk, target.truncated⟩ := by
      rw [appendPreview, Nat.min_eq_right (by omega), List.take_length]
      simp
    rw [List.foldl_cons, hnext, ih, List.flatten_cons, List.append_assoc]
    simp only [List.length_append]
    omega

/-- From the first character that a chunk cuts on, the stream has nothing but
characters that are U+FFFD themselves. -/
def CutsReplacements (chunks : List Bytes) : Prop :=
  ∃ front head part rest count, chunks = front ++ (encodeUtf8 head ++ part) :: rest ∧
    (∀ chunk ∈ front, validUtf8 chunk = true) ∧
    part ++ rest.flatten = encodeUtf8 (List.replicate count replacementCharacter)

theorem exists_firstCut {chunks : List Bytes} {text : List Char}
    (htext : chunks.flatten = encodeUtf8 text)
    (hcut : ¬∀ chunk ∈ chunks, validUtf8 chunk = true) :
    ∃ (texts : List (List Char)) (head : List Char) (part : Bytes) (character : Char)
      (later : List Char) (rest : List Bytes) (missing : Bytes),
      chunks = texts.map encodeUtf8 ++ (encodeUtf8 head ++ part) :: rest ∧
      text = texts.flatten ++ (head ++ character :: later) ∧
      part ++ rest.flatten = encodeUtf8 (character :: later) ∧
      part ≠ [] ∧ missing ≠ [] ∧ part ++ missing = String.utf8EncodeChar character := by
  have hfind : ∃ chunk, chunks.find? (fun chunk => !validUtf8 chunk) = some chunk := by
    rw [← Option.isSome_iff_exists, List.find?_isSome]
    simpa using hcut
  obtain ⟨chunk, hchunk⟩ := hfind
  obtain ⟨hinvalid, front, rest, rfl, hfront⟩ := List.find?_eq_some_iff_append.mp hchunk
  obtain ⟨texts, rfl⟩ := exists_texts fun chunk hmem => by simpa using hfront chunk hmem
  rw [List.flatten_append, List.flatten_cons, ← encodeUtf8_flatten] at htext
  obtain ⟨back, rfl, hback⟩ := encodeUtf8_prefix htext
  obtain ⟨head, part, tail, rfl, rfl, hpart⟩ := exists_cut hback
  rcases hpart with rfl | ⟨character, later, missing, rfl, hmissing, hpart, hwhole⟩
  · rw [List.append_nil, validUtf8_encodeUtf8] at hinvalid
    cases hinvalid
  · rw [List.append_assoc, encodeUtf8_append, List.append_cancel_left_eq] at hback
    exact ⟨texts, head, part, character, later, rest, missing, rfl, rfl, hback, hpart, hmissing,
      hwhole⟩

theorem livePreview_text_eq {texts : List (List Char)} {chunk : Bytes} {rest : List Bytes}
    (hlimit : byteLength texts.flatten + chunk.length ≤ previewMaxBytes) :
    (livePreview (texts.map encodeUtf8 ++ chunk :: rest)).text =
      texts.flatten ++ (fromUtf8Lossy chunk ++
        (pieces (appendLivePreview ⟨texts.flatten, false⟩ chunk) rest).flatMap fromUtf8Lossy) := by
  have hfront : (texts.map encodeUtf8).foldl appendLivePreview .empty =
      ⟨texts.flatten, false⟩ := by
    rw [foldl_texts texts .empty (by simp only [Preview.empty, byteLength_nil]; omega)]
    rfl
  have hwhole : chunk.length ≤ room ⟨texts.flatten, false⟩ := by
    show chunk.length ≤ previewMaxBytes - byteLength texts.flatten
    omega
  rw [livePreview, List.foldl_append, hfront, List.foldl_cons, foldl_text, appendLivePreview_text,
    List.take_of_length_le hwhole, List.append_assoc]

theorem byteLength_inj_nil {text : List Char} (h : byteLength text = 0) : text = [] := by
  cases text with
  | nil => rfl
  | cons character rest =>
    have hsize := character.utf8Size_pos
    rw [byteLength_cons] at h
    omega

/-- A stream that is cut is shown right only where it fills the limit, nothing outgrows
it, and what is cut are replacement characters. -/
theorem cutsReplacements_of_text {chunks : List Bytes} {text : List Char}
    (htext : chunks.flatten = encodeUtf8 text) (hlimit : chunks.flatten.length ≤ previewMaxBytes)
    (hcut : ¬∀ chunk ∈ chunks, validUtf8 chunk = true) (hsame : (livePreview chunks).text = text) :
    chunks.flatten.length = previewMaxBytes ∧ AllFit .empty chunks ∧ CutsReplacements chunks := by
  have hlength : byteLength (livePreview chunks).text = chunks.flatten.length := by
    rw [hsame, htext]
    rfl
  have hfit : AllFit .empty chunks := by
    refine (foldl_bounded_iff chunks (Nat.zero_le _)).mp ?_
    rintro seen ⟨later, rfl⟩
    have hle := byteLength_le_foldl later (seen.foldl appendLivePreview .empty)
    rw [← List.foldl_append] at hle
    rw [livePreview] at hlength
    omega
  obtain ⟨texts, head, part, character, later, rest, missing, rfl, rfl, htail, hpart, hmissing,
    hwhole⟩ := exists_firstCut htext hcut
  have hchunks : (texts.map encodeUtf8 ++ (encodeUtf8 head ++ part) :: rest).flatten.length =
      byteLength texts.flatten + (byteLength head + part.length) + rest.flatten.length := by
    simp only [List.flatten_append, ← encodeUtf8_flatten, List.flatten_cons, List.length_append,
      byteLength]
    omega
  rw [livePreview_text_eq (by rw [List.length_append]; simp only [byteLength] at hchunks ⊢; omega),
    fromUtf8Lossy_text, List.append_cancel_left_eq, List.append_assoc,
    List.append_cancel_left_eq] at hsame
  -- The first byte of the part is replaced, so that the character itself is U+FFFD.
  have hinvalid := fromUtf8Lossy_invalid hpart (decodeCharacter_part hwhole hmissing)
  rw [hinvalid, List.cons_append, List.cons.injEq] at hsame
  obtain ⟨rfl, hlater⟩ := hsame
  obtain ⟨hshort, hreplaced⟩ := replacement_part hpart hmissing hwhole
  rw [hreplaced, List.cons.injEq] at hinvalid
  rw [← hinvalid.2, List.nil_append] at hlater
  have hfull : previewMaxBytes ≤ byteLength (livePreview
      (texts.map encodeUtf8 ++ (encodeUtf8 head ++ part) :: rest)).text := by
    rcases pieces_eq_or_full (texts.map encodeUtf8 ++ (encodeUtf8 head ++ part) :: rest)
      .empty with hwholly | hfull
    · -- With nothing left out the text would be longer than the stream.
      have hfront := length_le_flatMap_fromUtf8Lossy (texts.map encodeUtf8)
      have hback := length_le_flatMap_fromUtf8Lossy rest
      rw [← encodeUtf8_flatten, ← byteLength] at hfront
      have hsize : replacementCharacter.utf8Size = 3 := rfl
      rw [livePreview, foldl_text, hwholly, List.flatMap_append, List.flatMap_cons,
        fromUtf8Lossy_text, hreplaced] at hlength
      simp only [Preview.empty, byteLength_append, byteLength_nil, byteLength_cons, hsize]
        at hlength
      omega
    · exact hfull
  refine ⟨by omega, hfit, texts.map encodeUtf8, head, part, rest, ?_⟩
  obtain ⟨count, after, rfl, hafter⟩ := exists_replacement_run later
  have hrest : rest.flatten =
      replacementTail (3 * (count + 1) - part.length) ++ encodeUtf8 after := by
    have hstream : part ++ rest.flatten =
        replacementTail (3 * (count + 1)) ++ encodeUtf8 after := by
      rw [htail, replacementTail_eq, List.replicate_succ, ← encodeUtf8_append, List.cons_append]
    have hdropped := congrArg (List.drop part.length) hstream
    rwa [List.drop_left, List.drop_append_of_le_length (by rw [replacementTail_length]; omega),
      drop_replacementTail (by omega)] at hdropped
  have hpieces : (pieces (appendLivePreview ⟨texts.flatten, false⟩ (encodeUtf8 head ++ part))
      rest).flatten <+: replacementTail (3 * (count + 1) - part.length) ++ encodeUtf8 after :=
    hrest ▸ pieces_isFront rest _
  obtain ⟨made, others, hmade, hrun⟩ := flatMap_fromUtf8Lossy_run hpieces
  rw [hlater] at hmade
  have hnone : after = [] := by
    rcases hrun with hrun | rfl
    · obtain ⟨extra, rfl⟩ : ∃ extra, made = count + (extra + 1) := ⟨made - count - 1, by omega⟩
      rw [← List.replicate_append_replicate, List.append_assoc, List.append_cancel_left_eq,
        List.replicate_succ, List.cons_append] at hmade
      exact absurd (by rw [hmade]; rfl) hafter
    · cases after with
      | nil => rfl
      | cons first after =>
        have hmem : first ∈ List.replicate made replacementCharacter := by
          rw [List.append_nil] at hmade
          simp [← hmade]
        rw [List.eq_of_mem_replicate hmem] at hafter
        exact absurd rfl hafter
  subst hnone
  refine ⟨count + 1, rfl, fun chunk hchunk => ?_, ?_⟩
  · obtain ⟨shown, -, rfl⟩ := List.mem_map.mp hchunk
    exact validUtf8_encodeUtf8 shown
  · rw [htail, List.append_nil, List.replicate_succ]

/-- In a stream that fills the limit, and that nothing outgrows, it does not show where
replacement characters are cut. -/
theorem text_of_cutsReplacements {chunks : List Bytes} {text : List Char}
    (htext : chunks.flatten = encodeUtf8 text) (hfull : chunks.flatten.length = previewMaxBytes)
    (hfit : AllFit .empty chunks) (hcuts : CutsReplacements chunks) :
    (livePreview chunks).text = text := by
  have hatMost : byteLength (livePreview chunks).text ≤ previewMaxBytes :=
    (foldl_bounded_iff chunks (Nat.zero_le _)).mpr hfit chunks (List.prefix_refl _)
  have hatLeast : previewMaxBytes ≤ byteLength (livePreview chunks).text := by
    rcases pieces_eq_or_full chunks .empty with hwholly | hleast
    · rw [livePreview, foldl_text, hwholly, ← hfull]
      exact length_le_flatMap_fromUtf8Lossy chunks
    · exact hleast
  obtain ⟨front, head, part, rest, count, rfl, hfront, htail⟩ := hcuts
  obtain ⟨texts, rfl⟩ := exists_texts hfront
  have hstream : text = texts.flatten ++ (head ++ List.replicate count replacementCharacter) := by
    apply encodeUtf8_injective
    rw [← htext, encodeUtf8_append, encodeUtf8_append, ← htail]
    simp [encodeUtf8_flatten]
  have hlength : byteLength texts.flatten + (byteLength head + 3 * count) = previewMaxBytes := by
    rw [← hfull, htext, hstream, ← byteLength, byteLength_append, byteLength_append,
      byteLength_replicate]
  have hpart : part.length ≤ 3 * count := by
    have hparts := congrArg List.length htail
    rw [List.length_append, ← byteLength, byteLength_replicate] at hparts
    omega
  have hshown := @livePreview_text_eq texts (encodeUtf8 head ++ part) rest
    (by rw [List.length_append, ← byteLength]; omega)
  rw [fromUtf8Lossy_text, List.append_assoc] at hshown
  let target := appendLivePreview ⟨texts.flatten, false⟩ (encodeUtf8 head ++ part)
  have hpieces : (part :: pieces target rest).flatten <+: replacementTail (3 * count) ++ [] := by
    rw [List.append_nil, replacementTail_eq, ← htail, List.flatten_cons]
    exact (List.prefix_append_right_inj _).mpr (pieces_isFront rest target)
  obtain ⟨made, others, hmade, hrun⟩ := flatMap_fromUtf8Lossy_run hpieces
  rw [List.flatMap_cons] at hmade
  rw [hmade] at hshown
  have hsize : 3 * made + byteLength others = 3 * count := by
    rw [hshown] at hatMost hatLeast
    simp only [byteLength_append, byteLength_replicate] at hatMost hatLeast
    omega
  have hothers : others = [] := by
    rcases hrun with hrun | hnil
    · exact byteLength_inj_nil (by omega)
    · exact hnil
  subst hothers
  rw [byteLength_nil] at hsize
  obtain rfl : made = count := by omega
  rw [hshown, hstream, List.append_nil]

def finalPreview (launch : Launch) (events : List CaptureEvent) (exitCode : Int)
    (artifact : RawSpoolMetadata) (kind : StreamKind) : Preview :=
  (completeOperation (launch.run events).record
    ⟨exitCode, (launch.run events).stdout, (launch.run events).stderr⟩ artifact).view.preview kind

/-- Of a stream of UTF-8 within the limit, the text that is shown at last is the text
that is stored, exactly when every chunk is a text of its own, or the stream fills
the limit and only its last replacement characters are cut. -/
theorem final_text_iff (launch : Launch) (kind : StreamKind) (events : List CaptureEvent)
    (exitCode : Int) (artifact : RawSpoolMetadata)
    (hvalid : validUtf8 (chunks kind events).flatten = true)
    (hlimit : (chunks kind events).flatten.length ≤ previewMaxBytes) :
    ((launch.run events).record.view.preview kind).text =
        (finalPreview launch events exitCode artifact kind).text ↔
      (∀ chunk ∈ chunks kind events, validUtf8 chunk = true) ∨
        ((chunks kind events).flatten.length = previewMaxBytes ∧
          AllFit .empty (chunks kind events) ∧ CutsReplacements (chunks kind events)) := by
  obtain ⟨text, htext⟩ := exists_of_validUtf8 hvalid
  have hcaptured : (launch.run events).captured kind = ⟨(chunks kind events).flatten, false⟩ := by
    rw [run_captured, capturedPreview, capturedPreview_whole _ (by simpa using hlimit),
      List.nil_append]
  have hfinal : (finalPreview launch events exitCode artifact kind).text = text := by
    have hstored : finalPreview launch events exitCode artifact kind =
        decodePreview ((launch.run events).captured kind) := by
      cases kind <;> rfl
    rw [hstored, hcaptured, decodePreview, htext]
    exact fromUtf8Lossy_encodeUtf8 text
  rw [hfinal, run_preview]
  constructor
  · intro hsame
    by_cases hcut : ∀ chunk ∈ chunks kind events, validUtf8 chunk = true
    · exact .inl hcut
    · exact .inr (cutsReplacements_of_text htext hlimit hcut hsame)
  · rintro (hall | ⟨hfull, hfit, hcuts⟩)
    · obtain ⟨texts, htexts⟩ := exists_texts hall
      rw [htexts, ← encodeUtf8_flatten] at htext hlimit
      rw [htexts, livePreview, foldl_texts texts .empty (by rwa [Preview.empty, byteLength_nil, Nat.zero_add]),
        ← encodeUtf8_injective htext]
      rfl
    · exact text_of_cutsReplacements htext hfull hfit hcuts

def sampleArtifact : RawSpoolMetadata := ⟨[], [], 0, false⟩

def sampleLaunch : Launch where
  operationId := []
  workspaceCapability := []
  executionId := []
  processGroup := 1
  artifact := sampleArtifact

def outputEvents (chunks : List Bytes) : List CaptureEvent :=
  chunks.map fun chunk => .data .stdout chunk sampleArtifact

theorem chunks_outputEvents (chunks : List Bytes) :
    LivePreviews.chunks .stdout (outputEvents chunks) = chunks := by
  simp [LivePreviews.chunks, outputEvents, List.filterMap_map]

def wholeLetter : List CaptureEvent := outputEvents [[195, 169]]

theorem wholeLetter_final_text :
    ((sampleLaunch.run wholeLetter).record.view.preview .stdout).text =
        (finalPreview sampleLaunch wholeLetter 0 sampleArtifact .stdout).text ↔
      (∀ chunk ∈ chunks .stdout wholeLetter, validUtf8 chunk = true) ∨
        ((chunks .stdout wholeLetter).flatten.length = previewMaxBytes ∧
          AllFit .empty (chunks .stdout wholeLetter) ∧
          CutsReplacements (chunks .stdout wholeLetter)) :=
  final_text_iff sampleLaunch .stdout wholeLetter 0 sampleArtifact (by decide)
    (by decide)

/-- Read in two pieces, it is shown as two replacement characters. -/
theorem cutLetter_not_final :
    ¬∀ (launch : Launch) (kind : StreamKind) (events : List CaptureEvent) (exitCode : Int)
      (artifact : RawSpoolMetadata), validUtf8 (chunks kind events).flatten = true →
      (chunks kind events).flatten.length ≤ previewMaxBytes →
      ((launch.run events).record.view.preview kind).text =
        (finalPreview launch events exitCode artifact kind).text := by
  intro hall
  have hsame := hall sampleLaunch .stdout (outputEvents [[195], [169]]) 0 sampleArtifact
    (by decide) (by decide)
  revert hsame
  decide

def almostFull : List (List Char) :=
  [List.replicate 16384 'x', List.replicate 16384 'x', List.replicate 16384 'x',
    List.replicate 16383 'x']

theorem byteLength_replicate_letter (count : Nat) :
    byteLength (List.replicate count 'x') = count := by
  induction count with
  | zero => rfl
  | succ count ih =>
    have hsize : ('x' : Char).utf8Size = 1 := rfl
    rw [List.replicate_succ, byteLength_cons, ih, hsize, Nat.add_comm]

theorem byteLength_letters (counts : List Nat) :
    byteLength (counts.map fun count => List.replicate count 'x').flatten = counts.sum := by
  induction counts with
  | nil => rfl
  | cons count rest ih =>
    rw [List.map_cons, List.flatten_cons, byteLength_append, byteLength_replicate_letter, ih,
      List.sum_cons]

/-- One byte more that is no character, and the preview is two bytes too long. -/
theorem invalidByte_not_bounded :
    ¬∀ (launch : Launch) (events seen : List CaptureEvent), seen <+: events → ∀ kind,
      byteLength ((launch.run seen).record.view.preview kind).text ≤ previewMaxBytes ∧
        (((launch.run seen).record.view.preview kind).truncated = true ↔
          LeavesOut (chunks kind seen)) := by
  intro hall
  have hfront : byteLength almostFull.flatten = 65535 :=
    byteLength_letters [16384, 16384, 16384, 16383]
  have hbounded := (hall sampleLaunch (outputEvents (almostFull.map encodeUtf8 ++ [[255]])) _
    (List.prefix_refl _) .stdout).1
  have hreplaced : fromUtf8Lossy [255] = [replacementCharacter] := by decide
  have hsize : replacementCharacter.utf8Size = 3 := rfl
  rw [run_preview, chunks_outputEvents, livePreview_text_eq (by rw [hfront]; decide),
    byteLength_append, hfront, hreplaced] at hbounded
  simp only [pieces, List.flatMap_nil, List.append_nil, byteLength_cons, byteLength_nil, hsize,
    previewMaxBytes] at hbounded
  omega

end KodeGpt.LivePreviews
