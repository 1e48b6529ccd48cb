import KodeGpt.ChunkedRuns
import KodeGpt.FallibleActions
import KodeGpt.FrameCodec

/-!
The frame decoder of the control plane, which gets the runtime's output in
chunks. The text decoder and the JSON parser are parameters. After an error the
decoder is not used again.
-/

namespace KodeGpt.FrameDecoders

open FallibleActions (map_eq_ok_iff)
open JsonText (Bytes)
open FrameCodec (maxFrameBytes maxHeaderBytes headerPrefix headerEnd frameHeader isDigit
  decimalValue stripPrefix stripSuffix declaredLength)
open ChunkedRuns

inductive FrameError where
  | decoderFinished
  | truncatedFrame
  | invalidHeader
  | headerTooLarge
  | frameTooLarge
  | invalidUtf8 (reason : String)
  | invalidJson (reason : String)
  deriving DecidableEq

def FrameError.message : FrameError → String
  | decoderFinished => "FRAME_DECODER_FINISHED"
  | truncatedFrame => "TRUNCATED_FRAME"
  | invalidHeader => "INVALID_CONTENT_LENGTH_HEADER"
  | headerTooLarge => "CONTENT_LENGTH_HEADER_TOO_LARGE"
  | frameTooLarge => "FRAME_TOO_LARGE"
  | invalidUtf8 reason => "INVALID_FRAME_UTF8: " ++ reason
  | invalidJson reason => "INVALID_FRAME_JSON: " ++ reason

structure PartialBody where
  expected : Nat
  filled : Bytes
  unfinished : filled.length < expected

def PartialBody.remaining (part : PartialBody) : Nat :=
  part.expected - part.filled.length

/-- The bytes of a header, or of the body behind it. -/
inductive Position where
  | header (seen : Bytes)
  | body (part : PartialBody)

structure FrameDecoder where
  position : Position
  finished : Bool

def FrameDecoder.start : FrameDecoder :=
  ⟨.header [], false⟩

def pushHeaderByte (seen : Bytes) (byte : UInt8) : Except FrameError Bytes :=
  if 127 < byte then .error .invalidHeader
  else if maxHeaderBytes < (seen ++ [byte]).length then .error .headerTooLarge
  else if seen.length < headerPrefix.length ∧ headerPrefix[seen.length]? ≠ some byte then
    .error .invalidHeader
  else if byte = 10 ∧ seen.getLast? ≠ some 13 then .error .invalidHeader
  else .ok (seen ++ [byte])

def hasCompleteHeader (header : Bytes) : Bool :=
  headerEnd.isSuffixOf header

def matchHeader (header : Bytes) : Option Bytes :=
  ((stripPrefix headerPrefix header).bind (stripSuffix headerEnd)).filter fun text =>
    !text.isEmpty && text.all isDigit && !(decide (1 < text.length) && text.head? == some 48)

def beginBody (header : Bytes) : Except FrameError Nat :=
  match matchHeader header with
  | none => .error .invalidHeader
  | some rawLength =>
    if 2 ^ 53 ≤ decimalValue rawLength ∨ maxFrameBytes < decimalValue rawLength then
      .error .frameTooLarge
    else .ok (decimalValue rawLength)

def finish (decoder : FrameDecoder) : Except FrameError FrameDecoder :=
  match decoder.position with
  | .header [] => .ok { decoder with finished := true }
  | _ => .error .truncatedFrame

section Decoding

variable {Text Value : Type} (decodeText : Bytes → Except String Text)
  (jsonParse : Text → Except String Value)

def finishBody (body : Bytes) : Except FrameError Value :=
  match decodeText body with
  | .error reason => .error (.invalidUtf8 reason)
  | .ok json =>
    match jsonParse json with
    | .error reason => .error (.invalidJson reason)
    | .ok value => .ok value

def deliver (body : Bytes) : Except FrameError (List Value × Position) :=
  (finishBody decodeText jsonParse body).map fun value => ([value], .header [])

def headerStep (seen : Bytes) (byte : UInt8) : Except FrameError (List Value × Position) :=
  match pushHeaderByte seen byte with
  | .error error => .error error
  | .ok header =>
    if hasCompleteHeader header then
      match beginBody header with
      | .error error => .error error
      | .ok length =>
        if hlength : 0 < length then .ok ([], .body ⟨length, [], hlength⟩)
        else deliver decodeText jsonParse []
    else .ok ([], .header header)

def fillBody (part : PartialBody) (available : Bytes) : Except FrameError (List Value × Position) :=
  if hfull : (part.filled ++ available.take part.remaining).length = part.expected then
    deliver decodeText jsonParse (part.filled ++ available.take part.remaining)
  else .ok ([], .body
    { expected := part.expected
      filled := part.filled ++ available.take part.remaining
      unfinished := by
        have hunfinished := part.unfinished
        simp only [List.length_append, List.length_take, PartialBody.remaining] at hfull ⊢
        omega })

/-- One round of the loop of `push`, with the bytes that it leaves. -/
def iteration (position : Position) (byte : UInt8) (rest : Bytes) :
    Except FrameError ((List Value × Position) × Bytes) :=
  match position with
  | .header seen => (headerStep decodeText jsonParse seen byte).map fun result => (result, rest)
  | .body part =>
    (fillBody decodeText jsonParse part (byte :: rest)).map fun result =>
      (result, (byte :: rest).drop part.remaining)

theorem iteration_rest {position : Position} {byte : UInt8} {rest later : Bytes}
    {result : List Value × Position}
    (hiteration : iteration decodeText jsonParse position byte rest = .ok (result, later)) :
    later.length ≤ rest.length := by
  cases position with
  | header seen =>
    obtain ⟨taken, -, hsame⟩ := map_eq_ok_iff.mp hiteration
    exact Nat.le_of_eq (congrArg List.length (Prod.mk.inj hsame).2.symm)
  | body part =>
    obtain ⟨taken, -, hsame⟩ := map_eq_ok_iff.mp hiteration
    have hremaining : 0 < part.remaining := Nat.sub_pos_of_lt part.unfinished
    rw [← (Prod.mk.inj hsame).2, List.length_drop, List.length_cons]
    omega

def pushLoop (position : Position) (chunk : Bytes) : Except FrameError (List Value × Position) :=
  match chunk with
  | [] => .ok ([], position)
  | byte :: rest =>
    match _ : iteration decodeText jsonParse position byte rest with
    | .error error => .error error
    | .ok ((values, next), later) =>
      (pushLoop next later).map fun result => (values ++ result.1, result.2)
termination_by chunk.length
decreasing_by
  exact Nat.lt_succ_of_le (iteration_rest decodeText jsonParse ‹_›)

def push (decoder : FrameDecoder) (chunk : Bytes) :
    Except FrameError (List Value × FrameDecoder) :=
  if decoder.finished then .error .decoderFinished
  else (pushLoop decodeText jsonParse decoder.position chunk).map fun result =>
    (result.1, { decoder with position := result.2 })

/-- The chunks of a stream and its end: the values that the calls hand out before
the first error, and this error. -/
def decode : FrameDecoder → List Bytes → List Value × Option FrameError
  | decoder, [] =>
    match finish decoder with
    | .error error => ([], some error)
    | .ok _ => ([], none)
  | decoder, chunk :: rest =>
    match push decodeText jsonParse decoder chunk with
    | .error error => ([], some error)
    | .ok (values, next) => (values ++ (decode next rest).1, (decode next rest).2)

end Decoding

section Decoding

variable {Text Value : Type} (decodeText : Bytes → Except String Text)
  (jsonParse : Text → Except String Value)

def pushByte (position : Position) (byte : UInt8) : Except FrameError (List Value × Position) :=
  match position with
  | .header seen => headerStep decodeText jsonParse seen byte
  | .body part => fillBody decodeText jsonParse part [byte]

variable {decodeText : Bytes → Except String Text} {jsonParse : Text → Except String Value}

theorem pushLoop_nil (position : Position) :
    pushLoop decodeText jsonParse position [] = .ok ([], position) := by
  rw [pushLoop]

theorem pushLoop_cons (position : Position) (byte : UInt8) (rest : Bytes) :
    pushLoop decodeText jsonParse position (byte :: rest) =
      match iteration decodeText jsonParse position byte rest with
      | .error error => .error error
      | .ok ((values, next), later) =>
        (pushLoop decodeText jsonParse next later).map fun result =>
          (values ++ result.1, result.2) := by
  rw [pushLoop]
  split
  · next error hiteration => rw [hiteration]
  · next values next later hiteration => rw [hiteration]

theorem fillBody_congr {first second : PartialBody} {left right : Bytes}
    (hexpected : first.expected = second.expected)
    (hfilled : first.filled ++ left.take first.remaining =
      second.filled ++ right.take second.remaining) :
    fillBody decodeText jsonParse first left = fillBody decodeText jsonParse second right := by
  simp only [fillBody, hexpected, hfilled]

theorem fillBody_byte (part : PartialBody) (byte : UInt8) :
    (part.remaining = 1 ∧ fillBody decodeText jsonParse part [byte] =
        deliver decodeText jsonParse (part.filled ++ [byte])) ∨
      ∃ next : PartialBody, next.expected = part.expected ∧ next.filled = part.filled ++ [byte] ∧
        part.remaining = next.remaining + 1 ∧
          fillBody decodeText jsonParse part [byte] = .ok ([], .body next) := by
  have hunfinished := part.unfinished
  have htake : [byte].take part.remaining = [byte] := by
    apply List.take_of_length_le
    exact Nat.sub_pos_of_lt hunfinished
  have hlength : (part.filled ++ [byte]).length = part.filled.length + 1 := by
    rw [List.length_append, List.length_singleton]
  by_cases hfull : part.filled.length + 1 = part.expected
  · refine .inl ⟨by rw [PartialBody.remaining]; omega, ?_⟩
    simp only [fillBody, htake, hlength, dif_pos hfull]
  · have hless : (part.filled ++ [byte]).length < part.expected := by omega
    refine .inr ⟨⟨part.expected, part.filled ++ [byte], hless⟩, rfl, rfl, ?_, ?_⟩
    · simp only [PartialBody.remaining, hlength]
      omega
    · simp only [fillBody, htake, hlength, dif_neg hfull]

theorem pushLoop_byte (position : Position) (byte : UInt8) (rest : Bytes) :
    pushLoop decodeText jsonParse position (byte :: rest) =
      match pushByte decodeText jsonParse position byte with
      | .error error => .error error
      | .ok (values, next) =>
        (pushLoop decodeText jsonParse next rest).map fun result =>
          (values ++ result.1, result.2) := by
  rw [pushLoop_cons]
  cases position with
  | header seen =>
    rw [iteration, pushByte]
    cases headerStep decodeText jsonParse seen byte <;> rfl
  | body part =>
    rw [iteration, pushByte]
    obtain ⟨hlast, hfill⟩ | ⟨next, hexpected, hfilled, hremaining, hfill⟩ :=
      @fillBody_byte _ _ decodeText jsonParse part byte
    · have hwhole : fillBody decodeText jsonParse part (byte :: rest) =
          fillBody decodeText jsonParse part [byte] := by
        apply fillBody_congr rfl
        rw [hlast]
        rfl
      rw [hwhole, hlast]
      cases fillBody decodeText jsonParse part [byte] <;> rfl
    · cases rest with
      | nil =>
        rw [hfill, hremaining]
        simp only [Except.map, List.drop_succ_cons, List.drop_nil]
      | cons first more =>
        have hwhole : fillBody decodeText jsonParse part (byte :: first :: more) =
            fillBody decodeText jsonParse next (first :: more) := by
          apply fillBody_congr hexpected.symm
          rw [hremaining, hfilled, List.append_assoc]
          rfl
        rw [hwhole, hfill, hremaining]
        simp only [List.drop_succ_cons, pushLoop_cons (.body next), iteration]
        cases fillBody decodeText jsonParse next (first :: more) with
        | error error => rfl
        | ok result =>
          simp only [Except.map]
          cases pushLoop decodeText jsonParse result.2
            ((first :: more).drop next.remaining) <;> rfl

theorem pushLoop_eq_runChunk (position : Position) (chunk : Bytes) :
    pushLoop decodeText jsonParse position chunk =
      runChunk (pushByte decodeText jsonParse) position chunk := by
  induction chunk generalizing position with
  | nil => exact pushLoop_nil position
  | cons byte rest ih =>
    rw [pushLoop_byte, runChunk, run]
    cases pushByte decodeText jsonParse position byte with
    | error error => rfl
    | ok result =>
      simp only [ih, runChunk]
      cases (run (pushByte decodeText jsonParse) result.2 rest).2 <;> rfl

theorem beginBody_eq_ok_iff (header : Bytes) (length : Nat) :
    beginBody header = .ok length ↔ declaredLength header = .ok length := by
  unfold beginBody matchHeader declaredLength
  cases (stripPrefix headerPrefix header).bind (stripSuffix headerEnd) with
  | none => simp
  | some text =>
    by_cases hnumeral : text.isEmpty ∨ ¬ text.all isDigit ∨
        (1 < text.length ∧ text.head? = some 48)
    · have hrefused : (!text.isEmpty && text.all isDigit &&
          !(decide (1 < text.length) && text.head? == some 48)) = false := by
        rw [Bool.eq_false_iff]
        simpa [or_iff_not_imp_left] using hnumeral
      simp only [Option.filter_some, hrefused, if_pos hnumeral]
      simp
    · have haccepted : (!text.isEmpty && text.all isDigit &&
          !(decide (1 < text.length) && text.head? == some 48)) = true := by
        simpa [not_or, and_assoc, or_iff_not_imp_left] using hnumeral
      simp only [Option.filter_some, haccepted, if_neg hnumeral, if_true]
      have hmax : maxFrameBytes < 2 ^ 53 := by decide
      split <;> split <;> try split
      all_goals simp
      all_goals omega

theorem beginBody_ok {header : Bytes} {length : Nat} (hlength : beginBody header = .ok length) :
    header = frameHeader length ∧ length ≤ maxFrameBytes :=
  FrameCodec.declaredLength_ok ((beginBody_eq_ok_iff _ _).mp hlength)

theorem beginBody_frameHeader {length : Nat} (hlength : length ≤ maxFrameBytes) :
    beginBody (frameHeader length) = .ok length :=
  (beginBody_eq_ok_iff _ _).mpr (FrameCodec.declaredLength_frameHeader hlength)

theorem pushHeaderByte_ok {seen header : Bytes} {byte : UInt8}
    (hbyte : pushHeaderByte seen byte = .ok header) : header = seen ++ [byte] := by
  unfold pushHeaderByte at hbyte
  split at hbyte
  · cases hbyte
  · split at hbyte
    · cases hbyte
    · split at hbyte
      · cases hbyte
      · split at hbyte
        · cases hbyte
        · exact (Except.ok.inj hbyte).symm

/-- The bytes of a header that was neither refused nor completed. -/
inductive OpenHeader : Bytes → Prop where
  | nil : OpenHeader []
  | byte {seen : Bytes} {byte : UInt8} (hseen : OpenHeader seen)
      (hbyte : pushHeaderByte seen byte = .ok (seen ++ [byte]))
      (hopen : ¬ hasCompleteHeader (seen ++ [byte])) : OpenHeader (seen ++ [byte])

variable (decodeText jsonParse)

/-- A frame that holds a value. -/
def IsFrame (frame : Bytes) (value : Value) : Prop :=
  ∃ body, body.length ≤ maxFrameBytes ∧ finishBody decodeText jsonParse body = .ok value ∧
    frame = frameHeader body.length ++ body

/-- The bytes of a frame up to the one at which it is refused. -/
inductive Refused : Bytes → FrameError → Prop where
  | byte {seen : Bytes} {byte : UInt8} {error : FrameError} (hseen : OpenHeader seen)
      (hbyte : pushHeaderByte seen byte = .error error) : Refused (seen ++ [byte]) error
  | header {seen : Bytes} {byte : UInt8} {error : FrameError} (hseen : OpenHeader seen)
      (hbyte : pushHeaderByte seen byte = .ok (seen ++ [byte]))
      (hcomplete : hasCompleteHeader (seen ++ [byte]))
      (hlength : beginBody (seen ++ [byte]) = .error error) : Refused (seen ++ [byte]) error
  | body {body : Bytes} {error : FrameError} (hsize : body.length ≤ maxFrameBytes)
      (hbody : finishBody decodeText jsonParse body = .error error) :
      Refused (frameHeader body.length ++ body) error

/-- Where the decoder stands after the first bytes of a frame. -/
inductive Holds : Position → Bytes → Prop where
  | header {seen : Bytes} (hseen : OpenHeader seen) : Holds (.header seen) seen
  | body {part : PartialBody} (hsize : part.expected ≤ maxFrameBytes) :
      Holds (.body part) (frameHeader part.expected ++ part.filled)

/-- What one byte more makes of the first bytes of a frame. -/
inductive Stepped (piece : Bytes) : Except FrameError (List Value × Position) → Prop where
  | refused {error : FrameError} (hrefused : Refused decodeText jsonParse piece error) :
      Stepped piece (.error error)
  | held {next : Position} (hholds : Holds next piece) : Stepped piece (.ok ([], next))
  | framed {value : Value} (hframe : IsFrame decodeText jsonParse piece value) :
      Stepped piece (.ok ([value], .header []))

variable {decodeText jsonParse}

theorem deliver_stepped {body : Bytes} (hsize : body.length ≤ maxFrameBytes) :
    Stepped decodeText jsonParse (frameHeader body.length ++ body)
      (deliver decodeText jsonParse body) := by
  rw [deliver]
  cases hbody : finishBody decodeText jsonParse body with
  | error error => exact .refused (.body hsize hbody)
  | ok value => exact .framed ⟨body, hsize, hbody, rfl⟩

theorem pushByte_stepped {position : Position} {piece : Bytes} (hholds : Holds position piece)
    (byte : UInt8) :
    Stepped decodeText jsonParse (piece ++ [byte])
      (pushByte decodeText jsonParse position byte) := by
  cases hholds with
  | header hseen =>
    rw [pushByte, headerStep]
    cases hbyte : pushHeaderByte piece byte with
    | error error => exact .refused (.byte hseen hbyte)
    | ok header =>
      obtain rfl := pushHeaderByte_ok hbyte
      dsimp only
      by_cases hcomplete : hasCompleteHeader (piece ++ [byte]) = true
      · rw [if_pos hcomplete]
        cases hlength : beginBody (piece ++ [byte]) with
        | error error => exact .refused (.header hseen hbyte hcomplete hlength)
        | ok length =>
          obtain ⟨hheader, hsize⟩ := beginBody_ok hlength
          dsimp only
          by_cases hpos : 0 < length
          · rw [dif_pos hpos, hheader]
            have hbody : Holds (.body ⟨length, [], hpos⟩) (frameHeader length ++ []) :=
              .body hsize
            rw [List.append_nil] at hbody
            exact .held hbody
          · obtain rfl : length = 0 := by omega
            rw [dif_neg hpos, hheader]
            have hempty := @deliver_stepped _ _ decodeText jsonParse [] hsize
            rwa [List.append_nil] at hempty
      · rw [if_neg hcomplete]
        exact .held (.header (.byte hseen hbyte hcomplete))
  | @body part hsize =>
    rw [pushByte, List.append_assoc]
    obtain ⟨hlast, hfill⟩ | ⟨next, hexpected, hfilled, -, hfill⟩ :=
      @fillBody_byte _ _ decodeText jsonParse part byte
    · have hlength : (part.filled ++ [byte]).length = part.expected := by
        have hunfinished := part.unfinished
        rw [PartialBody.remaining] at hlast
        rw [List.length_append, List.length_singleton]
        omega
      rw [hfill, ← hlength]
      exact deliver_stepped (by rwa [hlength])
    · rw [hfill, ← hfilled, ← hexpected]
      exact .held (.body (by rwa [hexpected]))

variable (decodeText jsonParse) in
/-- What the decoder makes of a stream: frames, and then the first bytes of a
frame, or bytes that are refused. -/
inductive Parsed : Bytes → List Value × Except FrameError Position → Prop where
  | held {frames : List Bytes} {values : List Value} {position : Position} {piece : Bytes}
      (hframes : List.Forall₂ (IsFrame decodeText jsonParse) frames values)
      (hholds : Holds position piece) : Parsed (frames.flatten ++ piece) (values, .ok position)
  | refused {frames : List Bytes} {values : List Value} {piece : Bytes} {error : FrameError}
      (hframes : List.Forall₂ (IsFrame decodeText jsonParse) frames values)
      (hrefused : Refused decodeText jsonParse piece error) (later : Bytes) :
      Parsed (frames.flatten ++ (piece ++ later)) (values, .error error)

theorem parsed_from {frames : List Bytes} {values : List Value} {position : Position}
    {piece : Bytes} (hframes : List.Forall₂ (IsFrame decodeText jsonParse) frames values)
    (hholds : Holds position piece) (stream : Bytes) :
    Parsed decodeText jsonParse (frames.flatten ++ (piece ++ stream))
      (values ++ (run (pushByte decodeText jsonParse) position stream).1,
        (run (pushByte decodeText jsonParse) position stream).2) := by
  induction stream generalizing frames values position piece with
  | nil =>
    rw [run, List.append_nil, List.append_nil]
    exact .held hframes hholds
  | cons byte rest ih =>
    have hstepped := @pushByte_stepped _ _ decodeText jsonParse _ _ hholds byte
    rw [run]
    generalize pushByte decodeText jsonParse position byte = outcome at hstepped
    cases hstepped with
    | refused hrefused =>
      have hparsed := Parsed.refused hframes hrefused rest
      rw [List.append_assoc, List.singleton_append] at hparsed
      simpa using hparsed
    | held hholds => simpa using ih hframes hholds
    | framed hframe =>
      have hmore := List.rel_append hframes (List.Forall₂.cons hframe .nil)
      simpa using ih hmore (.header .nil)

theorem run_parsed (stream : Bytes) :
    Parsed decodeText jsonParse stream
      (run (pushByte decodeText jsonParse) (.header []) stream) :=
  parsed_from .nil (.header .nil) stream

theorem pushHeaderByte_of_headerByte {seen header : Bytes} {byte : UInt8}
    (hascii : ¬ 127 < byte) (hbyte : FrameCodec.headerByte seen byte = .ok header) :
    pushHeaderByte seen byte = .ok header := by
  unfold FrameCodec.headerByte at hbyte
  rw [pushHeaderByte, if_neg hascii]
  split at hbyte
  · cases hbyte
  · next hlength =>
      rw [if_neg hlength]
      split at hbyte
      · cases hbyte
      · next hfirst =>
          rw [if_neg hfirst]
          split at hbyte
          · cases hbyte
          · next hnewline =>
              rw [if_neg hnewline, Except.ok.inj hbyte]

theorem frameHeader_ascii (length : Nat) : ∀ byte ∈ frameHeader length, ¬ 127 < byte := by
  have hdigit : ∀ byte : UInt8, isDigit byte = true → ¬ 127 < byte := by
    intro byte hbyte hlarge
    have hhigh := (of_decide_eq_true hbyte).2
    have hless : (127 : UInt8).toNat < byte.toNat := hlarge
    change 127 < byte.toNat at hless
    omega
  intro byte hbyte
  rw [frameHeader, List.mem_append, List.mem_append] at hbyte
  have hbegin : headerPrefix.all (fun byte => decide (¬ 127 < byte)) = true := by decide
  have hend : headerEnd.all (fun byte => decide (¬ 127 < byte)) = true := by decide
  obtain hfirst | hmiddle | hlast := hbyte
  · exact of_decide_eq_true (List.all_eq_true.mp hbegin byte hfirst)
  · exact hdigit byte (List.all_eq_true.mp (FrameCodec.digits_all length) byte hmiddle)
  · exact of_decide_eq_true (List.all_eq_true.mp hend byte hlast)

theorem pushHeaderByte_frameHeader {length : Nat} {before after : Bytes} {byte : UInt8}
    (hlength : length ≤ maxFrameBytes) (hheader : frameHeader length = before ++ byte :: after) :
    pushHeaderByte before byte = .ok (before ++ [byte]) := by
  apply pushHeaderByte_of_headerByte
  · exact frameHeader_ascii length byte (by rw [hheader]; simp)
  · exact FrameCodec.headerByte_frameHeader hlength hheader

theorem openHeader_front {length : Nat} (hlength : length ≤ maxFrameBytes) (after : Bytes)
    (hafter : after ≠ []) (seen : Bytes) (hheader : frameHeader length = seen ++ after) :
    OpenHeader seen := by
  obtain ⟨size, hsize⟩ : ∃ size, seen.length = size := ⟨_, rfl⟩
  induction size generalizing seen after with
  | zero =>
    rw [List.length_eq_zero_iff.mp hsize]
    exact .nil
  | succ size ih =>
    obtain rfl | ⟨front, last, hsplit⟩ := List.eq_nil_or_concat seen
    · exact .nil
    rw [List.concat_eq_append] at hsplit
    subst hsplit
    rw [List.append_assoc, List.singleton_append] at hheader
    have hfront := ih (last :: after) (by simp) front hheader (by simpa using hsize)
    refine .byte hfront (pushHeaderByte_frameHeader hlength hheader) ?_
    rw [hasCompleteHeader, FrameCodec.headerEnd_frameHeader hheader]
    exact hafter

theorem run_concat {position next : Position} {values : List Value} {seen : Bytes}
    (hseen : run (pushByte decodeText jsonParse) position seen = (values, .ok next))
    (byte : UInt8) :
    run (pushByte decodeText jsonParse) position (seen ++ [byte]) =
      match pushByte decodeText jsonParse next byte with
      | .error error => (values, .error error)
      | .ok (more, last) => (values ++ more, .ok last) := by
  rw [run_append_ok (by rw [hseen]), hseen, run]
  cases pushByte decodeText jsonParse next byte with
  | error error => simp
  | ok result => simp [run]

theorem run_openHeader {seen : Bytes} (hseen : OpenHeader seen) :
    run (pushByte decodeText jsonParse) (.header []) seen = ([], .ok (.header seen)) := by
  induction hseen with
  | nil => rfl
  | byte hseen hbyte hopen ih =>
    rw [run_concat ih, pushByte, headerStep, hbyte]
    simp only [if_neg hopen]
    rfl

theorem run_body (bytes : Bytes) (part : PartialBody) (hsize : bytes.length = part.remaining) :
    run (pushByte decodeText jsonParse) (.body part) bytes =
      match deliver decodeText jsonParse (part.filled ++ bytes) with
      | .error error => ([], .error error)
      | .ok (values, next) => (values, .ok next) := by
  induction bytes generalizing part with
  | nil =>
    have hunfinished := part.unfinished
    rw [List.length_nil, PartialBody.remaining] at hsize
    omega
  | cons byte rest ih =>
    rw [run, pushByte]
    obtain ⟨hlast, hfill⟩ | ⟨next, -, hfilled, hremaining, hfill⟩ :=
      @fillBody_byte _ _ decodeText jsonParse part byte
    · have hrest : rest = [] := by
        rw [hlast, List.length_cons] at hsize
        exact List.length_eq_zero_iff.mp (by omega)
      rw [hfill, hrest]
      cases deliver decodeText jsonParse (part.filled ++ [byte]) with
      | error error => rfl
      | ok result => simp [run]
    · have hnext := ih next (by rw [List.length_cons] at hsize; omega)
      rw [hfill]
      simp only [hnext, hfilled, List.append_assoc, List.singleton_append, List.nil_append]

theorem run_whole {body : Bytes} (hsize : body.length ≤ maxFrameBytes) :
    run (pushByte decodeText jsonParse) (.header []) (frameHeader body.length ++ body) =
      match deliver decodeText jsonParse body with
      | .error error => ([], .error error)
      | .ok (values, next) => (values, .ok next) := by
  obtain hnone | ⟨seen, byte, hsplit⟩ := List.eq_nil_or_concat (frameHeader body.length)
  · simp [frameHeader, headerPrefix] at hnone
  rw [List.concat_eq_append] at hsplit
  have hseen := openHeader_front hsize [byte] (by simp) seen hsplit
  have hbyte := pushHeaderByte_frameHeader hsize hsplit
  have hcomplete : hasCompleteHeader (seen ++ [byte]) = true :=
    (FrameCodec.headerEnd_frameHeader hsplit).mpr rfl
  have hstep : pushByte decodeText jsonParse (.header seen) byte =
      if hpos : 0 < body.length then .ok ([], .body ⟨body.length, [], hpos⟩)
      else deliver decodeText jsonParse [] := by
    rw [← hsplit] at hcomplete hbyte
    rw [pushByte, headerStep, hbyte]
    simp only [if_pos hcomplete, beginBody_frameHeader hsize]
  have hheader := run_concat (@run_openHeader _ _ decodeText jsonParse _ hseen) byte
  rw [hstep, ← hsplit] at hheader
  by_cases hpos : 0 < body.length
  · rw [dif_pos hpos] at hheader
    have hbody := @run_body _ _ decodeText jsonParse body ⟨body.length, [], hpos⟩ rfl
    rw [run_append_ok (by rw [hheader]), hheader]
    exact hbody
  · have hnone : body = [] := List.length_eq_zero_iff.mp (by omega)
    subst hnone
    rw [dif_neg hpos] at hheader
    rw [List.append_nil]
    exact hheader

theorem run_frame {frame : Bytes} {value : Value}
    (hframe : IsFrame decodeText jsonParse frame value) :
    run (pushByte decodeText jsonParse) (.header []) frame = ([value], .ok (.header [])) := by
  obtain ⟨body, hsize, hbody, rfl⟩ := hframe
  rw [run_whole hsize, deliver, hbody]
  rfl

theorem run_frames {frames : List Bytes} {values : List Value}
    (hframes : List.Forall₂ (IsFrame decodeText jsonParse) frames values) :
    run (pushByte decodeText jsonParse) (.header []) frames.flatten =
      (values, .ok (.header [])) := by
  induction hframes with
  | nil => rfl
  | cons hframe hframes ih =>
    have hfirst := run_frame hframe
    rw [List.flatten_cons, run_append_ok (by rw [hfirst]), hfirst, ih]
    rfl

theorem run_refused {piece : Bytes} {error : FrameError}
    (hrefused : Refused decodeText jsonParse piece error) :
    run (pushByte decodeText jsonParse) (.header []) piece = ([], .error error) := by
  cases hrefused with
  | byte hseen hbyte =>
    rw [run_concat (run_openHeader hseen), pushByte, headerStep, hbyte]
  | header hseen hbyte hcomplete hlength =>
    rw [run_concat (run_openHeader hseen), pushByte, headerStep, hbyte]
    simp only [if_pos hcomplete, hlength]
  | body hsize hbody =>
    rw [run_whole hsize, deliver, hbody]
    rfl

variable (decodeText jsonParse) in
/-- A chunk holds the end of a frame, and behind it the byte at which the stream
is refused. -/
def LosesFrame (chunks : List Bytes) : Prop :=
  ∃ before chunk after frames values piece error, chunks = before ++ chunk :: after ∧
    List.Forall₂ (IsFrame decodeText jsonParse) frames values ∧
      Refused decodeText jsonParse piece error ∧
        frames.flatten ++ piece <+: before.flatten ++ chunk ∧
          before.flatten.length < frames.flatten.length

theorem run_error {stream : Bytes} {error : FrameError}
    (herror : (run (pushByte decodeText jsonParse) (.header []) stream).2 = .error error) :
    ∃ frames piece later,
      List.Forall₂ (IsFrame decodeText jsonParse) frames
          (run (pushByte decodeText jsonParse) (.header []) stream).1 ∧
        Refused decodeText jsonParse piece error ∧
          stream = frames.flatten ++ (piece ++ later) := by
  have hparsed := @run_parsed _ _ decodeText jsonParse stream
  generalize run (pushByte decodeText jsonParse) (.header []) stream = result at hparsed herror
  cases hparsed with
  | held hframes hholds => cases herror
  | refused hframes hrefused later =>
    obtain rfl := Except.error.inj herror
    exact ⟨_, _, later, hframes, hrefused, rfl⟩

theorem run_returned {front bytes : Bytes} {next : Position} {values : List Value}
    (hfront : (run (pushByte decodeText jsonParse) (.header []) front).2 = .ok next)
    (hbytes : bytes ≠ [])
    (hreturned : run (pushByte decodeText jsonParse) next bytes = (values, .ok (.header []))) :
    values ≠ [] := by
  rintro rfl
  obtain rfl | ⟨seen, byte, hsplit⟩ := List.eq_nil_or_concat bytes
  · exact hbytes rfl
  rw [List.concat_eq_append] at hsplit
  rw [hsplit] at hreturned
  cases hseen : run (pushByte decodeText jsonParse) next seen with
  | mk more outcome =>
    cases outcome with
    | error error =>
      rw [run_append_error (by rw [hseen])] at hreturned
      cases (Prod.mk.inj hreturned).2
    | ok position =>
      have hparsed := @run_parsed _ _ decodeText jsonParse (front ++ seen)
      rw [run_append_ok hfront, hseen] at hparsed
      rw [run_concat hseen] at hreturned
      generalize front ++ seen = stream at hparsed
      generalize (run (pushByte decodeText jsonParse) (.header []) front).1 ++ more = found
        at hparsed
      cases hparsed with
      | @held frames found position piece hframes hholds =>
        have hstepped := @pushByte_stepped _ _ decodeText jsonParse _ _ hholds byte
        generalize pushByte decodeText jsonParse position byte = outcome
          at hstepped hreturned
        cases hstepped with
        | refused hrefused => cases (Prod.mk.inj hreturned).2
        | held hnext =>
          obtain rfl := Except.ok.inj (Prod.mk.inj hreturned).2
          cases hlast : piece ++ [byte] with
          | nil => simp at hlast
          | cons first rest =>
            rw [hlast] at hnext
            cases hnext
        | framed hframe => simp at hreturned

theorem losesFrame_iff (chunks : List Bytes) :
    LosesOutput (pushByte decodeText jsonParse) (.header []) chunks ↔
      LosesFrame decodeText jsonParse chunks := by
  constructor
  · rintro ⟨before, chunk, after, next, error, hsplit, hbefore, hchunk, hlost⟩
    have hrun := run_append_ok hbefore chunk
    obtain ⟨frames, piece, later, hframes, hrefused, hstream⟩ :=
      @run_error _ _ decodeText jsonParse (before.flatten ++ chunk) error (by rw [hrun, hchunk])
    refine ⟨before, chunk, after, frames, _, piece, error, hsplit, hframes, hrefused, ?_, ?_⟩
    · exact ⟨later, by rw [hstream, List.append_assoc]⟩
    · by_contra hlong
      obtain ⟨rest, hrest⟩ : frames.flatten <+: before.flatten :=
        List.prefix_of_prefix_length_le ⟨_, hstream.symm⟩ (List.prefix_append _ _)
          (Nat.le_of_not_lt hlong)
      have hvalues := congrArg (fun result => result.1.length)
        (run_append_ok (by rw [run_frames hframes]) rest)
      simp only [hrest, run_frames hframes, hrun, List.length_append] at hvalues
      exact hlost (List.length_eq_zero_iff.mp (by omega))
  · rintro ⟨before, chunk, after, frames, values, piece, error, hsplit, hframes, hrefused,
      ⟨later, hfront⟩, hless⟩
    rw [List.append_assoc] at hfront
    obtain ⟨rest, hrest⟩ : before.flatten <+: frames.flatten :=
      List.prefix_of_prefix_length_le (List.prefix_append _ _) ⟨_, hfront⟩ (Nat.le_of_lt hless)
    have hnonempty : rest ≠ [] := by
      rintro rfl
      rw [List.append_nil] at hrest
      exact absurd (congrArg List.length hrest) (Nat.ne_of_lt hless)
    have hchunk : chunk = rest ++ (piece ++ later) := by
      rw [← hrest, List.append_assoc] at hfront
      exact (List.append_cancel_left hfront).symm
    have hwhole := @run_frames _ _ decodeText jsonParse _ _ hframes
    rw [← hrest] at hwhole
    cases hbefore : (run (pushByte decodeText jsonParse) (.header []) before.flatten).2 with
    | error error =>
      rw [run_append_error hbefore] at hwhole
      cases (Prod.mk.inj hwhole).2
    | ok next =>
      rw [run_append_ok hbefore] at hwhole
      have hback := (Prod.mk.inj hwhole).2
      have hrun : run (pushByte decodeText jsonParse) next chunk =
          ((run (pushByte decodeText jsonParse) next rest).1, .error error) := by
        rw [hchunk, run_append_ok hback, run_append_error (by rw [run_refused hrefused]),
          run_refused hrefused, List.append_nil]
      refine ⟨before, chunk, after, next, error, hsplit, hbefore, by rw [hrun], ?_⟩
      rw [hrun]
      exact run_returned hbefore hnonempty (Prod.ext rfl hback)

def rejection : Except FrameError Position → Option FrameError
  | .error error => some error
  | .ok position =>
    match finish ⟨position, false⟩ with
    | .error error => some error
    | .ok _ => none

theorem decode_eq (position : Position) (chunks : List Bytes) :
    decode decodeText jsonParse ⟨position, false⟩ chunks =
      ((runChunks (pushByte decodeText jsonParse) position chunks).1,
        rejection (runChunks (pushByte decodeText jsonParse) position chunks).2) := by
  induction chunks generalizing position with
  | nil =>
    rw [decode, runChunks, rejection]
    cases finish ⟨position, false⟩ <;> rfl
  | cons chunk rest ih =>
    rw [decode, push, if_neg (by simp), pushLoop_eq_runChunk, runChunks]
    cases runChunk (pushByte decodeText jsonParse) position chunk with
    | error error => rfl
    | ok result => simp only [Except.map, ih]

theorem decode_bytes (stream : Bytes) :
    decode decodeText jsonParse .start (stream.map fun byte => [byte]) =
      ((run (pushByte decodeText jsonParse) (.header []) stream).1,
        rejection (run (pushByte decodeText jsonParse) (.header []) stream).2) := by
  rw [FrameDecoder.start, decode_eq, runChunks_singletons]

variable (decodeText jsonParse) in
/-- A stream in chunks is rejected as it is byte by byte, and hands out the same
values exactly when no chunk holds the end of a frame and, behind it, the byte
at which the stream is refused. -/
theorem decode_chunks_iff (chunks : List Bytes) :
    (decode decodeText jsonParse .start chunks).2 =
        (decode decodeText jsonParse .start (chunks.flatten.map fun byte => [byte])).2 ∧
      (decode decodeText jsonParse .start chunks =
          decode decodeText jsonParse .start (chunks.flatten.map fun byte => [byte]) ↔
        ¬ LosesFrame decodeText jsonParse chunks) := by
  have hend := @runChunks_snd _ _ _ _ (pushByte decodeText jsonParse) (.header []) chunks
  rw [decode_bytes, FrameDecoder.start, decode_eq, hend]
  refine ⟨rfl, ?_⟩
  rw [← losesFrame_iff, ← runChunks_fst_iff, Prod.mk.injEq]
  exact and_iff_left rfl

end Decoding

def parseDocument (body : Bytes) : Except String JsonDocuments.Document :=
  match JsonDocuments.ofBytes body with
  | some document => .ok document
  | none => .error "SyntaxError"

/-- The frame of the text `1`, and the byte `X`. -/
def frameAndRest : Bytes := frameHeader 1 ++ [49] ++ [88]

theorem frameAndRest_losesFrame : LosesFrame .ok parseDocument [frameAndRest] := by
  refine ⟨[], frameAndRest, [], [frameHeader 1 ++ [49]], [.number ⟨['1'], by decide⟩], [88],
    .invalidHeader, rfl, .cons ⟨[49], by decide, by rfl, rfl⟩ .nil, ?_, ?_, ?_⟩
  · exact .byte .nil (by decide)
  · exact List.prefix_refl _
  · decide

/-- Whole, the chunk loses the value that is handed out byte by byte. -/
theorem frameAndRest_lost :
    ¬∀ (Text Value : Type) (decodeText : Bytes → Except String Text)
      (jsonParse : Text → Except String Value) (chunks : List Bytes),
      decode decodeText jsonParse .start chunks =
        decode decodeText jsonParse .start (chunks.flatten.map fun byte => [byte]) := by
  intro hall
  exact (decode_chunks_iff _ _ [frameAndRest]).2.mp (hall _ _ _ _ _) frameAndRest_losesFrame

end KodeGpt.FrameDecoders
