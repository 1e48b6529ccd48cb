import KodeGpt.SerdeValues

/-!
The frame codec over a reader that returns fewer bytes than it is asked for,
is interrupted and fails. A reader is what its next calls find.
-/

namespace KodeGpt.FrameStreams

open FrameCodec SerdeValues
open JsonText (Bytes)
open JsonDocuments (Value Numeral)

inductive ErrorKind where
  | interrupted
  | unexpectedEof
  | other
  deriving DecidableEq

/-- What a call finds: a byte at least, with those that are there already, or
an error. Behind the last event is the end of the stream. -/
inductive ReadEvent where
  | data (first : UInt8) (more : Bytes)
  | failed (kind : ErrorKind)

abbrev Reader := List ReadEvent

def pushBack (left : Bytes) (reader : Reader) : Reader :=
  match left with
  | [] => reader
  | first :: more => .data first more :: reader

/-- `Read::read` into a buffer of a size. -/
def read (size : Nat) : Reader → Except ErrorKind Bytes × Reader
  | [] => (.ok [], [])
  | .failed kind :: rest => (.error kind, rest)
  | .data first more :: rest =>
    (.ok ((first :: more).take size), pushBack ((first :: more).drop size) rest)

def eventBytes : ReadEvent → Bytes
  | .data first more => first :: more
  | .failed _ => []

def bytes (reader : Reader) : Bytes :=
  reader.flatMap eventBytes

def remaining (reader : Reader) : Nat :=
  reader.length + (bytes reader).length

theorem bytes_pushBack (left : Bytes) (reader : Reader) :
    bytes (pushBack left reader) = left ++ bytes reader := by
  cases left <;> rfl

theorem length_pushBack (left : Bytes) (reader : Reader) :
    (pushBack left reader).length ≤ reader.length + 1 := by
  cases left <;> simp [pushBack]

theorem read_error {size : Nat} {reader rest : Reader} {kind : ErrorKind}
    (hread : read size reader = (.error kind, rest)) : reader = .failed kind :: rest := by
  match reader with
  | [] => cases hread
  | .failed _ :: _ =>
    obtain ⟨hkind, rfl⟩ := Prod.mk.inj hread
    rw [Except.error.inj hkind]
  | .data _ _ :: _ => cases hread

theorem read_end {size : Nat} {reader rest : Reader} (hsize : 0 < size)
    (hread : read size reader = (.ok [], rest)) : reader = [] := by
  match reader with
  | [] => rfl
  | .failed _ :: _ => cases hread
  | .data first more :: _ =>
    have htaken : (first :: more).take size = [] := Except.ok.inj (Prod.mk.inj hread).1
    rw [List.take_eq_nil_iff] at htaken
    simp only [reduceCtorEq, or_false] at htaken
    omega

/-- What a call returns is the front of what the reader delivers. -/
structure Takes (size : Nat) (reader : Reader) (taken : Bytes) (rest : Reader) : Prop where
  fits : taken.length ≤ size
  delivers : bytes reader = taken ++ bytes rest
  events : rest.length ≤ reader.length
  failures : ∀ kind, .failed kind ∈ rest → .failed kind ∈ reader

theorem read_takes {size : Nat} {reader rest : Reader} {first : UInt8} {more : Bytes}
    (hread : read size reader = (.ok (first :: more), rest)) :
    Takes size reader (first :: more) rest := by
  match reader with
  | [] => cases hread
  | .failed _ :: _ => cases hread
  | .data byte later :: events =>
    obtain ⟨htaken, hrest⟩ := Prod.mk.inj hread
    rw [← Except.ok.inj htaken, ← hrest]
    constructor
    · exact List.length_take_le _ _
    · rw [bytes_pushBack, ← List.append_assoc, List.take_append_drop]
      rfl
    · exact length_pushBack _ _
    · intro kind hfailed
      apply List.mem_cons_of_mem
      cases hleft : (byte :: later).drop size with
      | nil => rwa [hleft] at hfailed
      | cons next after =>
        rw [hleft] at hfailed
        simpa [pushBack] using hfailed

theorem remaining_read {size : Nat} {reader rest : Reader} {first : UInt8} {more : Bytes}
    (hread : read size reader = (.ok (first :: more), rest)) :
    remaining rest < remaining reader := by
  have htakes := read_takes hread
  have hevents := htakes.events
  rw [remaining, remaining, htakes.delivers, List.length_append, List.length_cons]
  omega

theorem remaining_failed {size : Nat} {reader rest : Reader} {kind : ErrorKind}
    (hread : read size reader = (.error kind, rest)) :
    remaining rest < remaining reader := by
  rw [read_error hread, remaining, remaining, List.length_cons]
  change rest.length + (bytes rest).length < rest.length + 1 + (bytes rest).length
  omega

inductive ReadError where
  | codec (error : FrameError)
  | io (kind : ErrorKind)
  deriving DecidableEq

def readHeader (header : Bytes) (reader : Reader) : Except ReadError (Option Bytes) × Reader :=
  match _ : read 1 reader with
  | (.ok [], rest) =>
    (if header.isEmpty then .ok none else .error (.codec .truncated), rest)
  | (.ok (value :: _), rest) =>
    match headerByte header value with
    | .error error => (.error (.codec error), rest)
    | .ok header =>
      if headerEnd.isSuffixOf header then (.ok (some header), rest)
      else readHeader header rest
  | (.error .interrupted, rest) => readHeader header rest
  | (.error kind, rest) => (.error (.io kind), rest)
termination_by remaining reader
decreasing_by
  · exact remaining_read ‹_›
  · exact remaining_failed ‹_›

def readLength (reader : Reader) : Except ReadError (Option Nat) × Reader :=
  match readHeader [] reader with
  | (.error error, rest) => (.error error, rest)
  | (.ok none, rest) => (.ok none, rest)
  | (.ok (some header), rest) =>
    match declaredLength header with
    | .error error => (.error (.codec error), rest)
    | .ok length => (.ok (some length), rest)

/-- `Read::read_exact` into a buffer of a size. -/
def readExact (size : Nat) (reader : Reader) : Except ErrorKind Bytes × Reader :=
  if size = 0 then (.ok [], reader)
  else match _ : read size reader with
    | (.ok [], rest) => (.error .unexpectedEof, rest)
    | (.ok (first :: more), rest) =>
      match readExact (size - (first :: more).length) rest with
      | (.ok later, rest) => (.ok (first :: more ++ later), rest)
      | (.error kind, rest) => (.error kind, rest)
    | (.error .interrupted, rest) => readExact size rest
    | (.error kind, rest) => (.error kind, rest)
termination_by remaining reader
decreasing_by
  · exact remaining_read ‹_›
  · exact remaining_failed ‹_›

section Frames

variable (fromSlice : Bytes → Option Value)

def readBody (length : Nat) (reader : Reader) : Except ReadError (Option Value) × Reader :=
  match readExact length reader with
  | (.error .unexpectedEof, rest) => (.error (.codec .truncated), rest)
  | (.error kind, rest) => (.error (.io kind), rest)
  | (.ok body, rest) =>
    match fromSlice body with
    | none => (.error (.codec .invalidJson), rest)
    | some value => (.ok (some value), rest)

def readFrame (reader : Reader) : Except ReadError (Option Value) × Reader :=
  match readLength reader with
  | (.error error, rest) => (.error error, rest)
  | (.ok none, rest) => (.ok none, rest)
  | (.ok (some length), rest) => readBody fromSlice length rest

/-- The reader returns the values in order and then reports the end. -/
def ReadsInOrder : List Value → Reader → Prop
  | [], reader => ∃ rest, readFrame fromSlice reader = (.ok none, rest)
  | value :: values, reader =>
    ∃ rest, readFrame fromSlice reader = (.ok (some value), rest) ∧ ReadsInOrder values rest

end Frames

def writeFrame (value : SerdeValue) : Except FrameError Bytes :=
  let body := toVec value.value
  if maxFrameBytes < body.length then .error .tooLarge
  else .ok (frameHeader body.length ++ body)

/-- The reader fails only by interruption. -/
def Steady (reader : Reader) : Prop :=
  ∀ kind, .failed kind ∈ reader → kind = .interrupted

theorem Takes.steady {size : Nat} {reader rest : Reader} {taken : Bytes}
    (htakes : Takes size reader taken rest) (hsteady : Steady reader) : Steady rest :=
  fun kind hfailed => hsteady kind (htakes.failures kind hfailed)

theorem Steady.tail {event : ReadEvent} {rest : Reader} (hsteady : Steady (event :: rest)) :
    Steady rest :=
  fun kind hfailed => hsteady kind (List.mem_cons_of_mem _ hfailed)

/-- A reading does what the codec does with the bytes that the reader delivers. -/
inductive Agrees {α : Type} :
    Except ReadError (Option α) × Reader → Except FrameError (Option (α × Bytes)) → Prop where
  | failed (error : FrameError) (rest : Reader) : Agrees (.error (.codec error), rest) (.error error)
  | ended (rest : Reader) : Agrees (.ok none, rest) (.ok none)
  | returned (value : α) {rest : Reader} (hsteady : Steady rest) :
      Agrees (.ok (some value), rest) (.ok (some (value, bytes rest)))

theorem bytes_of_read_one {reader rest : Reader} {value : UInt8} {more : Bytes}
    (hread : read 1 reader = (.ok (value :: more), rest)) :
    bytes reader = value :: bytes rest := by
  have htakes := read_takes hread
  have hmore : more = [] := by
    have hfits := htakes.fits
    rw [List.length_cons] at hfits
    exact List.length_eq_zero_iff.mp (by omega)
  rw [htakes.delivers, hmore]
  rfl

theorem readHeader_agrees (header : Bytes) (reader : Reader) (hsteady : Steady reader) :
    Agrees (readHeader header reader) (FrameCodec.readHeader header (bytes reader)) := by
  fun_induction readHeader header reader with
  | case1 header reader rest hread =>
    obtain rfl := read_end Nat.zero_lt_one hread
    rw [bytes, List.flatMap_nil, FrameCodec.readHeader]
    split
    · exact .ended _
    · exact .failed _ _
  | case2 header reader value more rest hread error hbyte =>
    rw [bytes_of_read_one hread, FrameCodec.readHeader, hbyte]
    exact .failed _ _
  | case3 header reader value more rest hread next hbyte hend =>
    rw [bytes_of_read_one hread, FrameCodec.readHeader, hbyte]
    simp only [if_pos hend]
    exact .returned _ ((read_takes hread).steady hsteady)
  | case4 header reader value more rest hread next hbyte hopen ih =>
    rw [bytes_of_read_one hread, FrameCodec.readHeader, hbyte]
    simp only [if_neg hopen]
    exact ih ((read_takes hread).steady hsteady)
  | case5 header reader rest hread ih =>
    obtain rfl := read_error hread
    exact ih hsteady.tail
  | case6 header reader kind rest hkind hread =>
    obtain rfl := read_error hread
    exact absurd (hsteady kind List.mem_cons_self) hkind

/-- The buffer is filled, or the reader delivers less than the buffer holds. -/
inductive Fills (size : Nat) (reader : Reader) : Except ErrorKind Bytes × Reader → Prop where
  | short (rest : Reader) (hshort : (bytes reader).length < size) :
      Fills size reader (.error .unexpectedEof, rest)
  | whole {body : Bytes} {rest : Reader} (hsize : body.length = size)
      (hbytes : bytes reader = body ++ bytes rest) (hsteady : Steady rest) :
      Fills size reader (.ok body, rest)

theorem readExact_fills (size : Nat) (reader : Reader) (hsteady : Steady reader) :
    Fills size reader (readExact size reader) := by
  fun_induction readExact size reader with
  | case1 reader => exact .whole rfl rfl hsteady
  | case2 size reader hsize rest hread =>
    obtain rfl := read_end (Nat.pos_of_ne_zero hsize) hread
    exact .short _ (Nat.pos_of_ne_zero hsize)
  | case3 size reader hsize first more rest hread later after hlater ih =>
    have htakes := read_takes hread
    have hfills := ih (htakes.steady hsteady)
    rw [hlater] at hfills
    cases hfills with
    | whole hlength hbytes hafter =>
      refine .whole ?_ ?_ hafter
      · have hfits := htakes.fits
        rw [List.length_append, hlength]
        omega
      · rw [htakes.delivers, hbytes, List.append_assoc]
  | case4 size reader hsize first more rest hread kind after hfailed ih =>
    have htakes := read_takes hread
    have hfills := ih (htakes.steady hsteady)
    rw [hfailed] at hfills
    cases hfills with
    | short _ hshort =>
      refine .short _ ?_
      rw [htakes.delivers, List.length_append]
      omega
  | case5 size reader hsize rest hread ih =>
    obtain rfl := read_error hread
    have hfills := ih hsteady.tail
    generalize readExact size rest = outcome at hfills
    cases hfills with
    | short _ hshort => exact .short _ hshort
    | whole hlength hbytes hafter => exact .whole hlength hbytes hafter
  | case6 size reader hsize kind rest hkind hread =>
    obtain rfl := read_error hread
    exact absurd (hsteady kind List.mem_cons_self) hkind

theorem readBody_agrees (fromSlice : Bytes → Option Value) (length : Nat) {reader : Reader}
    (hsteady : Steady reader) :
    Agrees (readBody fromSlice length reader)
      (FrameCodec.readBody fromSlice length (bytes reader)) := by
  have hfills := readExact_fills length reader hsteady
  unfold readBody FrameCodec.readBody
  generalize readExact length reader = outcome at hfills
  cases hfills with
  | short rest hshort =>
    rw [if_pos hshort]
    exact .failed _ _
  | @whole body rest hsize hbytes hrest =>
    have hwhole : ¬ (bytes reader).length < length := by
      rw [hbytes, List.length_append]
      omega
    rw [if_neg hwhole, hbytes, ← hsize, List.take_left, List.drop_left]
    dsimp only
    cases fromSlice body with
    | none => exact .failed _ _
    | some value => exact .returned _ hrest

theorem readFrame_agrees (fromSlice : Bytes → Option Value) {reader : Reader}
    (hsteady : Steady reader) :
    Agrees (readFrame fromSlice reader) (FrameCodec.readFrame fromSlice (bytes reader)) := by
  have hagrees := readHeader_agrees [] reader hsteady
  unfold readFrame readLength FrameCodec.readFrame
  generalize readHeader [] reader = outcome at hagrees
  generalize FrameCodec.readHeader [] (bytes reader) = expected at hagrees
  cases hagrees with
  | failed error rest => exact .failed _ _
  | ended rest => exact .ended _
  | returned header hrest =>
    dsimp only
    cases declaredLength header with
    | error error => exact .failed _ _
    | ok length => exact readBody_agrees fromSlice length hrest

theorem readFrame_ended {fromSlice : Bytes → Option Value} {reader : Reader}
    (hsteady : Steady reader) (hnone : bytes reader = []) :
    ∃ rest, readFrame fromSlice reader = (.ok none, rest) := by
  have hagrees := readFrame_agrees fromSlice hsteady
  rw [hnone, readFrame_nil] at hagrees
  generalize readFrame fromSlice reader = outcome at hagrees
  cases hagrees with
  | ended rest => exact ⟨rest, rfl⟩

theorem readFrame_refused {fromSlice : Bytes → Option Value} {reader : Reader} {error : FrameError}
    (hsteady : Steady reader)
    (herror : FrameCodec.readFrame fromSlice (bytes reader) = .error error) :
    (readFrame fromSlice reader).1 = .error (.codec error) := by
  have hagrees := readFrame_agrees fromSlice hsteady
  rw [herror] at hagrees
  generalize readFrame fromSlice reader = outcome at hagrees
  cases hagrees with
  | failed error rest => rfl

theorem readFrame_returned {fromSlice : Bytes → Option Value} {reader : Reader} {value : Value}
    {later : Bytes} (hsteady : Steady reader)
    (hvalue : FrameCodec.readFrame fromSlice (bytes reader) = .ok (some (value, later))) :
    ∃ rest, readFrame fromSlice reader = (.ok (some value), rest) ∧ Steady rest ∧
      bytes rest = later := by
  have hagrees := readFrame_agrees fromSlice hsteady
  rw [hvalue] at hagrees
  generalize readFrame fromSlice reader = outcome at hagrees
  cases hagrees with
  | returned _ hrest => exact ⟨_, rfl, hrest, rfl⟩

theorem writeFrame_ok {value : SerdeValue} {frame : Bytes} (hframe : writeFrame value = .ok frame) :
    (toVec value.value).length ≤ maxFrameBytes ∧
      frame = frameHeader (toVec value.value).length ++ toVec value.value := by
  unfold writeFrame at hframe
  dsimp only at hframe
  split at hframe
  · cases hframe
  · next hsize => exact ⟨Nat.le_of_not_lt hsize, (Except.ok.inj hframe).symm⟩

variable {limit : Nat} {readNumber : Numeral → Option Numeral} {fromSlice : Bytes → Option Value}

/-- What `serde_json` gets back from the text that it writes. -/
def Restored (limit : Nat) (readNumber : Numeral → Option Numeral) (value : SerdeValue) : Prop :=
  nesting value.value ≤ limit ∧ ∀ numeral ∈ numerals value.value, Kept readNumber numeral

theorem readsInOrder_iff (hserde : SerdeJson readNumber limit fromSlice) {values : List SerdeValue}
    {frames : List Bytes}
    (hframes : List.Forall₂ (fun value frame => writeFrame value = .ok frame) values frames)
    {reader : Reader} (hsteady : Steady reader) (hbytes : bytes reader = frames.flatten) :
    ReadsInOrder fromSlice (values.map SerdeValue.value) reader ↔
      ∀ value ∈ values, Restored limit readNumber value := by
  induction hframes generalizing reader with
  | nil =>
    obtain hended := readFrame_ended hsteady hbytes
    exact ⟨fun _ value hvalue => absurd hvalue List.not_mem_nil, fun _ => hended⟩
  | @cons value frame values frames hframe hframes ih =>
    obtain ⟨hsize, rfl⟩ := writeFrame_ok hframe
    rw [List.flatten_cons, List.append_assoc] at hbytes
    have hread := @readFrame_frame fromSlice _ hsize frames.flatten
    rw [← hbytes] at hread
    have hrestored := fromSlice_toVec_iff hserde value
    rw [List.map_cons, ReadsInOrder, List.forall_mem_cons, Restored, ← hrestored]
    cases hvalue : fromSlice (toVec value.value) with
    | none =>
      rw [hvalue] at hread
      have hrefused := readFrame_refused hsteady hread
      constructor
      · rintro ⟨rest, hreturned, -⟩
        rw [hreturned] at hrefused
        cases hrefused
      · rintro ⟨hsome, -⟩
        cases hsome
    | some found =>
      rw [hvalue] at hread
      obtain ⟨rest, hreturned, hrest, hlater⟩ := readFrame_returned hsteady hread
      rw [← ih hrest hlater, hreturned]
      constructor
      · rintro ⟨after, hsame, hreads⟩
        obtain ⟨hfound, rfl⟩ := Prod.mk.inj hsame
        exact ⟨Except.ok.inj hfound, hreads⟩
      · rintro ⟨hfound, hreads⟩
        exact ⟨rest, by rw [hfound], hreads⟩

theorem headerByte_ok {header next : Bytes} {value : UInt8}
    (hbyte : headerByte header value = .ok next) : next = header ++ [value] := by
  unfold headerByte at hbyte
  split at hbyte
  · cases hbyte
  · split at hbyte
    · cases hbyte
    · split at hbyte
      · cases hbyte
      · exact (Except.ok.inj hbyte).symm

theorem readHeader_bytes {header whole : Bytes} {reader rest : Reader}
    (hheader : readHeader header reader = (.ok (some whole), rest)) :
    header ++ bytes reader = whole ++ bytes rest := by
  fun_induction readHeader header reader with
  | case1 header reader after hread =>
    split at hheader <;> cases hheader
  | case2 header reader value more after hread error hbyte => cases hheader
  | case3 header reader value more after hread next hbyte hend =>
    obtain ⟨hwhole, rfl⟩ := Prod.mk.inj hheader
    rw [← Option.some.inj (Except.ok.inj hwhole), headerByte_ok hbyte, bytes_of_read_one hread,
      List.append_assoc]
    rfl
  | case4 header reader value more after hread next hbyte hopen ih =>
    rw [← ih hheader, headerByte_ok hbyte, bytes_of_read_one hread, List.append_assoc]
    rfl
  | case5 header reader after hread ih =>
    obtain rfl := read_error hread
    exact ih hheader
  | case6 header reader kind after hkind hread => cases hheader

theorem readLength_ok {reader rest : Reader} {length : Nat}
    (hlength : readLength reader = (.ok (some length), rest)) :
    bytes reader = frameHeader length ++ bytes rest ∧ length ≤ maxFrameBytes := by
  unfold readLength at hlength
  split at hlength
  · cases hlength
  · cases hlength
  · next header after hheader =>
      have hbytes := readHeader_bytes hheader
      split at hlength
      · cases hlength
      · next declared hdeclared =>
          obtain ⟨hsome, rfl⟩ := Prod.mk.inj hlength
          obtain rfl := Option.some.inj (Except.ok.inj hsome)
          obtain ⟨rfl, hsize⟩ := declaredLength_ok hdeclared
          exact ⟨hbytes, hsize⟩

theorem exists_frames {values : List SerdeValue}
    (hsizes : ∀ value ∈ values, (toVec value.value).length ≤ maxFrameBytes) :
    ∃ frames, List.Forall₂ (fun value frame => writeFrame value = .ok frame) values frames := by
  induction values with
  | nil => exact ⟨[], .nil⟩
  | cons value values ih =>
    obtain ⟨hsize, hlater⟩ := List.forall_mem_cons.mp hsizes
    obtain ⟨frames, hframes⟩ := ih hlater
    have hframe : writeFrame value =
        .ok (frameHeader (toVec value.value).length ++ toVec value.value) :=
      if_neg (Nat.not_lt.mpr hsize)
    exact ⟨_, .cons hframe hframes⟩

/-- The frames of values that are written one after another are read as these
values, and then the end, exactly when `serde_json` restores each of them. A
header is accepted only in its canonical form, and a frame that is cut short
is truncated. -/
theorem frameCodec_exact (hserde : SerdeJson readNumber limit fromSlice) :
    (∀ values : List SerdeValue,
      (∀ value ∈ values, (toVec value.value).length ≤ maxFrameBytes) →
        ∃ frames, List.Forall₂ (fun value frame => writeFrame value = .ok frame) values frames ∧
          ∀ reader, Steady reader → bytes reader = frames.flatten →
            (ReadsInOrder fromSlice (values.map SerdeValue.value) reader ↔
              ∀ value ∈ values, Restored limit readNumber value)) ∧
    (∀ (reader rest : Reader) (length : Nat), readLength reader = (.ok (some length), rest) →
      bytes reader = frameHeader length ++ bytes rest ∧ length ≤ maxFrameBytes) ∧
    ∀ (body piece : Bytes) (reader : Reader), body.length ≤ maxFrameBytes →
      piece <+: frameHeader body.length ++ body → piece ≠ [] →
        piece ≠ frameHeader body.length ++ body → Steady reader → bytes reader = piece →
          (readFrame fromSlice reader).1 = .error (.codec .truncated) := by
  refine ⟨?_, ?_, ?_⟩
  · intro values hsizes
    obtain ⟨frames, hframes⟩ := exists_frames hsizes
    refine ⟨frames, hframes, ?_⟩
    intro reader hsteady hbytes
    exact readsInOrder_iff hserde hframes hsteady hbytes
  · intro reader rest length hlength
    exact readLength_ok hlength
  · rintro body piece reader hbody ⟨after, hcut⟩ hpiece hproper hsteady hbytes
    have hafter : after ≠ [] := by
      rintro rfl
      exact hproper (by rw [← hcut, List.append_nil])
    apply readFrame_refused hsteady
    rw [hbytes]
    exact readFrame_cut fromSlice hbody hcut.symm hpiece hafter

def nestedArray : Nat → Value
  | 0 => .null
  | depth + 1 => .array [nestedArray depth]

theorem nesting_nestedArray (depth : Nat) : nesting (nestedArray depth) = depth := by
  induction depth with
  | zero => rfl
  | succ depth ih =>
    rw [nestedArray, nesting, itemsNesting, itemsNesting, ih, Nat.max_zero, Nat.add_comm]

theorem keysAscend_nestedArray (depth : Nat) : keysAscend (nestedArray depth) = true := by
  induction depth with
  | zero => rfl
  | succ depth ih => rw [nestedArray, keysAscend, itemsAscend, ih, itemsAscend, Bool.and_true]

def nestedValue (depth : Nat) : SerdeValue :=
  ⟨nestedArray depth, keysAscend_nestedArray depth⟩

def byteReader (content : Bytes) : Reader :=
  .failed .interrupted :: content.map fun byte => .data byte []

theorem bytes_byteReader (content : Bytes) : bytes (byteReader content) = content := by
  rw [byteReader, bytes, List.flatMap_cons, List.flatMap_map]
  exact List.flatMap_singleton' content

theorem byteReader_steady (content : Bytes) : Steady (byteReader content) := by
  intro kind hfailed
  simpa [byteReader] using hfailed

theorem nestedValues_read :
    ∃ frames, List.Forall₂ (fun value frame => writeFrame value = .ok frame)
        [nestedValue 2, nestedValue 0] frames ∧
      ReadsInOrder (readJson some 127) [nestedArray 2, nestedArray 0]
        (byteReader frames.flatten) := by
  obtain ⟨frames, hframes, hreads⟩ := (frameCodec_exact (readJson_serdeJson some 127)).1
    [nestedValue 2, nestedValue 0] (by decide)
  refine ⟨frames, hframes, ?_⟩
  apply (hreads _ (byteReader_steady _) (bytes_byteReader _)).mpr
  intro value hvalue
  exact ⟨by revert value; decide, fun numeral _ => rfl⟩

/-- The text of a deep value is short, but it is not read back. -/
theorem deepValue_not_read :
    ¬∀ fromSlice, SerdeJson some 127 fromSlice → ∀ (values : List SerdeValue) (frames : List Bytes)
      (reader : Reader), (∀ value ∈ values, (toVec value.value).length ≤ maxFrameBytes) →
        List.Forall₂ (fun value frame => writeFrame value = .ok frame) values frames →
          Steady reader → bytes reader = frames.flatten →
            ReadsInOrder fromSlice (values.map SerdeValue.value) reader := by
  intro hall
  have hserde := readJson_serdeJson some 127
  have hsizes : ∀ value ∈ [nestedValue 128], (toVec value.value).length ≤ maxFrameBytes := by
    decide +kernel
  obtain ⟨frames, hframes⟩ := exists_frames hsizes
  have hreads := hall _ hserde _ _ _ hsizes hframes (byteReader_steady _) (bytes_byteReader _)
  rw [readsInOrder_iff hserde hframes (byteReader_steady _) (bytes_byteReader _)] at hreads
  have hshallow := (hreads _ List.mem_cons_self).1
  rw [nestedValue, nesting_nestedArray] at hshallow
  omega

end KodeGpt.FrameStreams
