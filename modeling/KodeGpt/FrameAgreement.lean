import KodeGpt.JsFrames

/-!
The frames of the control plane against the runtime's reader. What is known of
the JSON parser of the runtime is a hypothesis; a reader that meets it is built
from the JSON texts.
-/

namespace KodeGpt.FrameAgreement

open JsonDocuments FrameCodec JsFrames
open JsonText (Bytes)

/-- The parser reads the texts whose surrogate escapes are paired and that nest
no deeper than its limit. It refuses the others. -/
structure SerdeJson (limit : Nat) (fromSlice : Bytes → Option Value) : Prop where
  reads : ∀ (document : Document) (value : Value), document.value = some value →
    document.nesting ≤ limit → fromSlice document.bytes = some value
  refusesUnpaired : ∀ document : Document, document.value = none →
    fromSlice document.bytes = none
  refusesDeep : ∀ document : Document, limit < document.nesting →
    fromSlice document.bytes = none

def readJson (limit : Nat) (body : Bytes) : Option Value :=
  match ofBytes body with
  | none => none
  | some document => if document.nesting ≤ limit then document.value else none

theorem readJson_serdeJson (limit : Nat) : SerdeJson limit (readJson limit) where
  reads := by
    intro document value hvalue hnesting
    simp only [readJson, ofBytes_bytes, if_pos hnesting, hvalue]
  refusesUnpaired := by
    intro document hvalue
    simp only [readJson, ofBytes_bytes, hvalue, ite_self]
  refusesDeep := by
    intro document hnesting
    simp only [readJson, ofBytes_bytes, if_neg (Nat.not_le.mpr hnesting)]

/-- The value has a JSON form that both sides can hold. -/
def Portable (limit : Nat) (value : JsValue) : Prop :=
  value.wellFormed = true ∧ value.nesting ≤ limit

/-- The reader takes the frame for the JSON value of what was encoded. -/
def ReadsAs (fromSlice : Bytes → Option Value) (value : JsValue) (frame : Bytes) : Prop :=
  ∀ rest, ∃ json, value.json = some json ∧
    readFrame fromSlice (frame ++ rest) = .ok (some (json, rest))

/-- The reader thread hands on the values of all the requests and ends with the
stream. -/
def AllDelivered (fromSlice : Bytes → Option Value) (requests : List JsValue)
    (frames : List Bytes) : Prop :=
  ∃ values, List.Forall₂ (fun request value => request.json = some value) requests values ∧
    readerThread fromSlice frames.flatten = (values, none)

variable {limit : Nat} {fromSlice : Bytes → Option Value} {value : JsValue} {frame : Bytes}

theorem frame_length_pos (hframe : encodeFrame value = .ok frame) : 0 < frame.length := by
  obtain ⟨document, hstringify, hsize, rfl⟩ := encodeFrame_ok hframe
  simp [frameHeader, headerPrefix]

theorem readFrame_portable (hserde : SerdeJson limit fromSlice)
    (hframe : encodeFrame value = .ok frame) (hportable : Portable limit value) :
    ReadsAs fromSlice value frame := by
  intro rest
  obtain ⟨document, hstringify, hsize, rfl⟩ := encodeFrame_ok hframe
  obtain ⟨hnone, -⟩ | ⟨written, hwritten, -, hwrites⟩ := value.stringify_writes hstringify
  · cases hnone
  · obtain rfl := Option.some.inj hwritten
    have hsome : value.json.isSome = true := by rw [hwrites.wellFormed, hportable.1]
    obtain ⟨json, hjson⟩ := Option.isSome_iff_exists.mp hsome
    have hvalue : document.value = some json := by rw [hwrites.json, hjson]
    have hnesting : document.nesting ≤ limit := by
      rw [hwrites.nesting]
      exact hportable.2
    refine ⟨json, hjson, ?_⟩
    rw [List.append_assoc, readFrame_frame hsize, hserde.reads document json hvalue hnesting]

theorem readFrame_notPortable (hserde : SerdeJson limit fromSlice)
    (hframe : encodeFrame value = .ok frame) (hportable : ¬ Portable limit value)
    (rest : Bytes) : readFrame fromSlice (frame ++ rest) = .error .invalidJson := by
  obtain ⟨document, hstringify, hsize, rfl⟩ := encodeFrame_ok hframe
  obtain ⟨hnone, -⟩ | ⟨written, hwritten, -, hwrites⟩ := value.stringify_writes hstringify
  · cases hnone
  · obtain rfl := Option.some.inj hwritten
    have hrefused : fromSlice document.bytes = none := by
      by_cases hnesting : value.nesting ≤ limit
      · have hill : value.wellFormed = false := by
          rw [Bool.eq_false_iff]
          exact fun hwell => hportable ⟨hwell, hnesting⟩
        have hnone : value.json = none := by
          rw [← Option.isNone_iff_eq_none, ← Option.not_isSome, hwrites.wellFormed, hill]
          rfl
        exact hserde.refusesUnpaired document (by rw [hwrites.json, hnone])
      · apply hserde.refusesDeep
        rw [hwrites.nesting]
        exact Nat.lt_of_not_le hnesting
    rw [List.append_assoc, readFrame_frame hsize, hrefused]

theorem readsAs_iff (hserde : SerdeJson limit fromSlice)
    (hframe : encodeFrame value = .ok frame) :
    ReadsAs fromSlice value frame ↔ Portable limit value := by
  constructor
  · intro hreads
    by_contra hportable
    obtain ⟨json, -, hread⟩ := hreads []
    rw [readFrame_notPortable hserde hframe hportable] at hread
    cases hread
  · exact readFrame_portable hserde hframe

theorem readLoop_notPortable (hserde : SerdeJson limit fromSlice)
    (hframe : encodeFrame value = .ok frame) (hportable : ¬ Portable limit value)
    (fuel : Nat) (rest : Bytes) :
    readLoop fromSlice (fuel + 1) (frame ++ rest) = ([], some .invalidJson) := by
  rw [readLoop, readFrame_notPortable hserde hframe hportable]

theorem readLoop_frames (hserde : SerdeJson limit fromSlice) {requests : List JsValue}
    {frames : List Bytes}
    (hframes : List.Forall₂ (fun request frame => encodeFrame request = .ok frame) requests frames)
    {fuel : Nat} (hfuel : frames.flatten.length < fuel) :
    (∃ values, List.Forall₂ (fun request value => request.json = some value) requests values ∧
        readLoop fromSlice fuel frames.flatten = (values, none)) ↔
      ∀ request ∈ requests, Portable limit request := by
  obtain ⟨fuel, rfl⟩ : ∃ less, fuel = less + 1 := ⟨fuel - 1, by omega⟩
  induction hframes generalizing fuel with
  | nil =>
    constructor
    · intro hdelivered request hrequest
      exact absurd hrequest List.not_mem_nil
    · intro hall
      exact ⟨[], .nil, rfl⟩
  | @cons request frame requests frames hframe hframes ih =>
    have hpos := frame_length_pos hframe
    simp only [List.flatten_cons, List.length_append] at hfuel
    obtain ⟨fuel, rfl⟩ : ∃ less, fuel = less + 1 := ⟨fuel - 1, by omega⟩
    have hlater := ih fuel (by omega)
    rw [List.flatten_cons]
    by_cases hportable : Portable limit request
    · obtain ⟨json, hjson, hread⟩ := readFrame_portable hserde hframe hportable frames.flatten
      rw [readLoop, hread]
      simp only [List.forall_mem_cons, hportable, true_and, ← hlater]
      constructor
      · rintro ⟨values, hvalues, hloop⟩
        cases hvalues with
        | cons hvalue hvalues =>
          refine ⟨_, hvalues, ?_⟩
          rw [Prod.mk.injEq, List.cons.injEq] at hloop
          exact Prod.ext hloop.1.2 hloop.2
      · rintro ⟨values, hvalues, hloop⟩
        exact ⟨json :: values, .cons hjson hvalues, by rw [hloop]⟩
    · rw [readLoop_notPortable hserde hframe hportable]
      constructor
      · rintro ⟨values, -, hloop⟩
        cases congrArg Prod.snd hloop
      · intro hall
        exact absurd (hall request List.mem_cons_self) hportable

/-- The reader agrees with the encoder on a value, and outlives its frame,
exactly when the value is portable. -/
theorem frameCodecs_agree (hserde : SerdeJson limit fromSlice) :
    (∀ (value : JsValue) (frame : Bytes), encodeFrame value = .ok frame →
      (ReadsAs fromSlice value frame ↔ Portable limit value)) ∧
    ∀ (requests : List JsValue) (frames : List Bytes),
      List.Forall₂ (fun request frame => encodeFrame request = .ok frame) requests frames →
        (AllDelivered fromSlice requests frames ↔
          ∀ request ∈ requests, Portable limit request) := by
  constructor
  · intro value frame hframe
    exact readsAs_iff hserde hframe
  · intro requests frames hframes
    exact readLoop_frames hserde hframes (Nat.lt_succ_self _)

def frameOf (value : JsValue) : Bytes :=
  match encodeFrame value with
  | .ok frame => frame
  | .error _ => []

def helloRequest : JsValue :=
  requestValue (asciiUnits "a") (asciiUnits "runtime.hello") (.object [])

/-- The path is the one code unit `d800`. -/
def halfPairRequest : JsValue :=
  requestValue (asciiUnits "b") (asciiUnits "system.inspect_root")
    (.object [(asciiUnits "path", .string [55296])])

theorem helloRequest_encodes : encodeFrame helloRequest = .ok (frameOf helloRequest) := by
  rfl

theorem halfPairRequest_encodes : encodeFrame halfPairRequest = .ok (frameOf halfPairRequest) := by
  rfl

theorem halfPairRequest_notPortable (limit : Nat) : ¬ Portable limit halfPairRequest := by
  rintro ⟨hwell, -⟩
  exact absurd hwell (by decide)

theorem helloRequest_agrees :
    ReadsAs (readJson 128) helloRequest (frameOf helloRequest) ∧
      AllDelivered (readJson 128) [helloRequest] [frameOf helloRequest] := by
  have hportable : Portable 128 helloRequest := by
    constructor <;> decide
  obtain ⟨hframe, hthread⟩ := frameCodecs_agree (readJson_serdeJson 128)
  refine ⟨(hframe helloRequest _ helloRequest_encodes).mpr hportable, ?_⟩
  exact (hthread _ _ (.cons helloRequest_encodes .nil)).mpr (by simpa using hportable)

/-- The request is encoded, but its frame ends the reader thread, and the request
behind it is not handed on. -/
theorem halfPair_endsReader :
    encodeFrame halfPairRequest = .ok (frameOf halfPairRequest) ∧
      encodeFrame helloRequest = .ok (frameOf helloRequest) ∧
        readerThread (readJson 128) (frameOf halfPairRequest ++ frameOf helloRequest) =
          ([], some .invalidJson) :=
  ⟨halfPairRequest_encodes, helloRequest_encodes,
    readLoop_notPortable (readJson_serdeJson 128) halfPairRequest_encodes
      (halfPairRequest_notPortable 128) _ _⟩

end KodeGpt.FrameAgreement
