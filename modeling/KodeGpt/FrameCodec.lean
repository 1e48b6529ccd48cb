import KodeGpt.JsonDocuments

/-!
The length-prefixed frames on the runtime's standard input and the thread that
reads them. The JSON parser is a parameter; a stream is the bytes that are read
before its end, and failures of the stream itself are left out.
-/

namespace KodeGpt.FrameCodec

open JsonText (Bytes digits)
open JsonDocuments (Value)

def maxFrameBytes : Nat := 8 * 1024 * 1024

def maxHeaderBytes : Nat := 64

/-- `Content-Length: ` -/
def headerPrefix : Bytes :=
  [67, 111, 110, 116, 101, 110, 116, 45, 76, 101, 110, 103, 116, 104, 58, 32]

def headerEnd : Bytes := [13, 10, 13, 10]

def frameHeader (length : Nat) : Bytes :=
  headerPrefix ++ (digits length ++ headerEnd)

inductive FrameError where
  | invalidHeader
  | tooLarge
  | truncated
  | invalidJson
  deriving DecidableEq

def headerByte (header : Bytes) (value : UInt8) : Except FrameError Bytes :=
  if maxHeaderBytes < (header ++ [value]).length then .error .invalidHeader
  else if header.length < headerPrefix.length ∧ headerPrefix[header.length]? ≠ some value then
    .error .invalidHeader
  else if value = 10 ∧ header.getLast? ≠ some 13 then .error .invalidHeader
  else .ok (header ++ [value])

def readHeader : Bytes → Bytes → Except FrameError (Option (Bytes × Bytes))
  | header, [] => if header.isEmpty then .ok none else .error .truncated
  | header, value :: rest =>
    match headerByte header value with
    | .error error => .error error
    | .ok header =>
      if headerEnd.isSuffixOf header then .ok (some (header, rest))
      else readHeader header rest

def isDigit (byte : UInt8) : Bool :=
  decide (48 ≤ byte.toNat ∧ byte.toNat ≤ 57)

def decimalValue (text : Bytes) : Nat :=
  text.foldl (fun value byte => 10 * value + (byte.toNat - 48)) 0

def stripPrefix (before text : Bytes) : Option Bytes :=
  if before.isPrefixOf text then some (text.drop before.length) else none

def stripSuffix (after text : Bytes) : Option Bytes :=
  if after.isSuffixOf text then some (text.take (text.length - after.length)) else none

/-- The length a header declares. A header that is not UTF-8 fails the test for
digits with the same error. -/
def declaredLength (header : Bytes) : Except FrameError Nat :=
  match (stripPrefix headerPrefix header).bind (stripSuffix headerEnd) with
  | none => .error .invalidHeader
  | some text =>
    if text.isEmpty ∨ ¬ text.all isDigit ∨ (1 < text.length ∧ text.head? = some 48) then
      .error .invalidHeader
    else if 2 ^ 64 ≤ decimalValue text then .error .invalidHeader
    else if maxFrameBytes < decimalValue text then .error .tooLarge
    else .ok (decimalValue text)

section Reading

variable (fromSlice : Bytes → Option Value)

def readBody (length : Nat) (input : Bytes) : Except FrameError (Option (Value × Bytes)) :=
  if input.length < length then .error .truncated
  else match fromSlice (input.take length) with
    | none => .error .invalidJson
    | some value => .ok (some (value, input.drop length))

def readFrame (input : Bytes) : Except FrameError (Option (Value × Bytes)) :=
  match readHeader [] input with
  | .error error => .error error
  | .ok none => .ok none
  | .ok (some (header, rest)) =>
    match declaredLength header with
    | .error error => .error error
    | .ok length => readBody fromSlice length rest

/-- The reader thread: the requests it hands on and the error it ends with, if
it does not end with the stream. Each frame takes a byte at least, so the
length of the stream bounds the loop. -/
def readLoop : Nat → Bytes → List Value × Option FrameError
  | 0, _ => ([], none)
  | fuel + 1, input =>
    match readFrame fromSlice input with
    | .error error => ([], some error)
    | .ok none => ([], none)
    | .ok (some (request, rest)) =>
      let later := readLoop fuel rest
      (request :: later.1, later.2)

def readerThread (input : Bytes) : List Value × Option FrameError :=
  readLoop fromSlice (input.length + 1) input

end Reading

theorem digits_length_pos (value : Nat) : 0 < (digits value).length := by
  rw [digits, List.length_map]
  exact Nat.length_toDigits_pos

theorem digits_length_le {value : Nat} (hvalue : value ≤ maxFrameBytes) :
    (digits value).length ≤ 7 := by
  rw [digits, List.length_map, Nat.length_toDigits_le_iff (by decide) (by decide)]
  unfold maxFrameBytes at hvalue
  omega

theorem digitByte_toNat {digit : Char} (hdigit : digit.isDigit = true) :
    digit.toNat.toUInt8.toNat = digit.toNat ∧ 48 ≤ digit.toNat ∧ digit.toNat ≤ 57 := by
  obtain ⟨hlow, hhigh⟩ := Char.isDigit_iff_toNat.mp hdigit
  change 48 ≤ digit.toNat at hlow
  change digit.toNat ≤ 57 at hhigh
  refine ⟨?_, hlow, hhigh⟩
  simp
  omega

theorem digits_all (value : Nat) : (digits value).all isDigit = true := by
  rw [List.all_eq_true]
  intro byte hmem
  obtain ⟨digit, hdigit, rfl⟩ := List.mem_map.mp hmem
  have hisDigit := Nat.isDigit_of_mem_toDigits (by decide) (by decide) hdigit
  obtain ⟨hbyte, hlow, hhigh⟩ := digitByte_toNat hisDigit
  rw [isDigit, hbyte]
  exact decide_eq_true ⟨hlow, hhigh⟩

theorem toDigits_head_ne_zero {value : Nat} (hvalue : 0 < value) :
    (Nat.toDigits 10 value).head? ≠ some '0' := by
  induction value using Nat.strongRecOn with
  | ind value ih =>
    by_cases hsmall : value < 10
    · rw [Nat.toDigits_of_lt_base hsmall]
      have hall : ∀ digit < 10, 0 < digit → [Nat.digitChar digit].head? ≠ some '0' := by
        decide
      exact hall value hsmall hvalue
    · have hlarge : 10 ≤ value := Nat.le_of_not_lt hsmall
      have hne : Nat.toDigits 10 (value / 10) ≠ [] := Nat.toDigits_ne_nil
      rw [Nat.toDigits_of_base_le (by decide) hlarge, List.head?_append_of_ne_nil _ hne]
      exact ih (value / 10) (by omega) (by omega)

theorem digits_noLeadingZero (value : Nat) :
    ¬ (1 < (digits value).length ∧ (digits value).head? = some 48) := by
  rintro ⟨hlength, hhead⟩
  have hvalue : 0 < value := by
    apply Nat.pos_of_ne_zero
    rintro rfl
    exact absurd hlength (by decide)
  cases htext : Nat.toDigits 10 value with
  | nil => exact Nat.toDigits_ne_nil htext
  | cons digit rest =>
    have hisDigit := Nat.isDigit_of_mem_toDigits (c := digit) (b := 10) (n := value) (by decide)
      (by decide) (by simp [htext])
    obtain ⟨hbyte, hlow, hhigh⟩ := digitByte_toNat hisDigit
    have hzero : digit.toNat = 48 := by
      have hhead : digit.toNat.toUInt8 = 48 := by simpa [digits, htext] using hhead
      rw [← hbyte, hhead]
      rfl
    have hdigit : digit = '0' := Char.toNat_inj.mp hzero
    exact toDigits_head_ne_zero hvalue (by rw [htext, hdigit]; rfl)

theorem decimalValue_digits (value : Nat) : decimalValue (digits value) = value := by
  have hfold : ∀ (text : List Char) (init : Nat),
      (∀ digit ∈ text, digit.isDigit = true) →
        (text.map fun digit => digit.toNat.toUInt8).foldl
          (fun value byte => 10 * value + (byte.toNat - 48)) init =
            Nat.ofDigitChars 10 text init := by
    intro text
    induction text with
    | nil =>
      intro init hall
      rfl
    | cons digit rest ih =>
      intro init hall
      have hbyte := (digitByte_toNat (hall digit List.mem_cons_self)).1
      have hrest := ih (10 * init + (digit.toNat - 48)) fun later hlater =>
        hall later (List.mem_cons_of_mem _ hlater)
      simp only [List.map_cons, List.foldl_cons, hbyte, Nat.ofDigitChars_cons]
      exact hrest
  have hall : ∀ digit ∈ Nat.toDigits 10 value, digit.isDigit = true :=
    fun digit => Nat.isDigit_of_mem_toDigits (by decide) (by decide)
  rw [decimalValue, digits, hfold _ 0 hall, Nat.ofDigitChars_ten_toDigits]

theorem digits_append {value digit : Nat} (hvalue : 0 < value) (hdigit : digit < 10) :
    digits (10 * value + digit) = digits value ++ digits digit := by
  rw [digits, ← Nat.toDigits_append_toDigits (by decide) hvalue hdigit, List.map_append]
  rfl

theorem digits_digit {byte : UInt8} (hbyte : isDigit byte = true) :
    byte.toNat - 48 < 10 ∧ digits (byte.toNat - 48) = [byte] := by
  obtain ⟨hlow, hhigh⟩ := of_decide_eq_true hbyte
  have hless : byte.toNat - 48 < 10 := by omega
  have hall : ∀ digit < 10, digits digit = [(48 + digit).toUInt8] := by
    decide
  refine ⟨hless, ?_⟩
  rw [hall _ hless, show 48 + (byte.toNat - 48) = byte.toNat by omega]
  exact congrArg (fun first => [first]) UInt8.ofNat_toNat

theorem digits_decimalValue (text : Bytes) (hne : text ≠ [])
    (hall : text.all isDigit = true) (hzero : ¬ (1 < text.length ∧ text.head? = some 48)) :
    digits (decimalValue text) = text := by
  obtain ⟨size, hsize⟩ : ∃ size, text.length = size := ⟨_, rfl⟩
  induction size generalizing text with
  | zero => exact absurd (List.length_eq_zero_iff.mp hsize) hne
  | succ size ih =>
    obtain rfl | ⟨front, last, hsplit⟩ := List.eq_nil_or_concat text
    · exact absurd rfl hne
    rw [List.concat_eq_append] at hsplit
    subst hsplit
    rw [List.all_append, Bool.and_eq_true] at hall
    obtain ⟨hless, hlast⟩ := @digits_digit last (by simpa using hall.2)
    have hvalue : decimalValue (front ++ [last]) =
        10 * decimalValue front + (last.toNat - 48) := by
      rw [decimalValue, List.foldl_append]
      rfl
    rw [hvalue]
    by_cases hfront : front = []
    · rw [hfront]
      simpa [decimalValue] using hlast
    · have hhead : ¬ front.head? = some 48 := by
        intro hhead
        apply hzero
        refine ⟨?_, by rw [List.head?_append, hhead]; rfl⟩
        have hpos := List.length_pos_iff.mpr hfront
        rw [List.length_append, List.length_singleton]
        omega
      have hsame := ih front hfront hall.1 (fun hlong => hhead hlong.2) (by simpa using hsize)
      have hpos : 0 < decimalValue front := by
        apply Nat.pos_of_ne_zero
        intro hnone
        rw [hnone] at hsame
        exact hhead (by rw [← hsame]; rfl)
      rw [digits_append hpos hless, hsame, hlast]

theorem frameHeader_newlines (length : Nat) : (frameHeader length).count 10 = 2 := by
  have hdigits : (digits length).count 10 = 0 :=
    List.count_eq_zero_of_not_mem (JsonText.digits_newline length)
  have hfirst : headerPrefix.count 10 = 0 := by decide
  have hend : headerEnd.count 10 = 2 := by decide
  rw [frameHeader, List.count_append, List.count_append, hdigits, hfirst, hend]

theorem frameHeader_end (length : Nat) : headerEnd <:+ frameHeader length := by
  rw [frameHeader, ← List.append_assoc]
  exact List.suffix_append _ _

theorem frameHeader_length {length : Nat} (hlength : length ≤ maxFrameBytes) :
    (frameHeader length).length ≤ 27 := by
  have hdigits := digits_length_le hlength
  simp [frameHeader, headerPrefix, headerEnd]
  omega

theorem frameHeader_newline {length : Nat} {before after : Bytes}
    (hheader : frameHeader length = before ++ 10 :: after) : before.getLast? = some 13 := by
  have hbody : 10 ∉ headerPrefix ++ digits length := by
    have hfirst : 10 ∉ headerPrefix := by decide
    simp [hfirst, JsonText.digits_newline]
  rw [frameHeader, ← List.append_assoc] at hheader
  obtain ⟨middle, hbefore, hend⟩ | ⟨middle, hfirst, hend⟩ :=
    List.append_eq_append_iff.mp hheader
  · rw [hbefore]
    match middle, hend with
    | [], hend => simp [headerEnd] at hend
    | [first], hend =>
      obtain rfl : 13 = first := by simpa [headerEnd] using congrArg List.head? hend
      simp
    | [first, second], hend => simp [headerEnd] at hend
    | [first, second, third], hend =>
      obtain rfl : 13 = third := by
        have hthird := congrArg (fun text => text[2]?) hend
        simpa [headerEnd] using hthird
      simp
    | first :: second :: third :: fourth :: rest, hend =>
      have hlength := congrArg List.length hend
      simp [headerEnd] at hlength
  · cases middle with
    | nil => simp [headerEnd] at hend
    | cons first rest =>
      obtain rfl : 10 = first := by simpa using congrArg List.head? hend
      exact absurd (by simp [hfirst]) hbody

theorem headerByte_frameHeader {length : Nat} {before after : Bytes} {value : UInt8}
    (hlength : length ≤ maxFrameBytes)
    (hheader : frameHeader length = before ++ value :: after) :
    headerByte before value = .ok (before ++ [value]) := by
  have hshort : ¬ maxHeaderBytes < (before ++ [value]).length := by
    have hle := frameHeader_length hlength
    rw [hheader] at hle
    simp [maxHeaderBytes] at hle ⊢
    omega
  have hfirst : ¬ (before.length < headerPrefix.length ∧
      headerPrefix[before.length]? ≠ some value) := by
    rintro ⟨hlt, hne⟩
    have hvalue : (frameHeader length)[before.length]? = some value := by
      rw [hheader]
      simp
    rw [frameHeader, List.getElem?_append_left hlt] at hvalue
    exact hne hvalue
  have hnewline : ¬ (value = 10 ∧ before.getLast? ≠ some 13) := by
    rintro ⟨rfl, hne⟩
    exact hne (frameHeader_newline hheader)
  rw [headerByte, if_neg hshort, if_neg hfirst, if_neg hnewline]

theorem headerEnd_frameHeader {length : Nat} {before after : Bytes} {value : UInt8}
    (hheader : frameHeader length = before ++ value :: after) :
    headerEnd.isSuffixOf (before ++ [value]) = true ↔ after = [] := by
  rw [List.isSuffixOf_iff_suffix]
  constructor
  · intro hsuffix
    by_contra hafter
    have hsplit : before ++ value :: after = (before ++ [value]) ++ after := by simp
    have hseen : 2 ≤ (before ++ [value]).count 10 := hsuffix.sublist.count_le 10
    have hlast : after.getLast? = some 10 := by
      obtain ⟨text, htext⟩ := frameHeader_end length
      have hend : (frameHeader length).getLast? = some 10 := by
        rw [← htext]
        simp [headerEnd]
      rwa [hheader, hsplit, List.getLast?_append_of_ne_nil _ hafter] at hend
    have hrest : 0 < after.count 10 := List.count_pos_iff.mpr (List.mem_of_getLast? hlast)
    have htotal := frameHeader_newlines length
    rw [hheader, hsplit, List.count_append] at htotal
    omega
  · rintro rfl
    rw [← hheader]
    exact frameHeader_end length

theorem readHeader_frameHeader {length : Nat} (hlength : length ≤ maxFrameBytes)
    (rest : Bytes) {seen pending : Bytes} (hpending : pending ≠ [])
    (hheader : frameHeader length = seen ++ pending) :
    readHeader seen (pending ++ rest) = .ok (some (frameHeader length, rest)) := by
  induction pending generalizing seen with
  | nil => exact absurd rfl hpending
  | cons value later ih =>
    have hbyte := headerByte_frameHeader hlength hheader
    have hend := headerEnd_frameHeader hheader
    rw [List.cons_append, readHeader, hbyte]
    cases hlater : later with
    | nil =>
      rw [hlater] at hheader hend
      simp only [hend.mpr rfl, if_true, hheader, List.nil_append]
    | cons next tail =>
      have hne : later ≠ [] := by simp [hlater]
      have hopen : ¬ headerEnd.isSuffixOf (seen ++ [value]) = true :=
        fun hsuffix => hne (hend.mp hsuffix)
      simp only [if_neg hopen]
      rw [← hlater]
      exact ih hne (by simpa using hheader)

theorem declaredLength_frameHeader {length : Nat} (hlength : length ≤ maxFrameBytes) :
    declaredLength (frameHeader length) = .ok length := by
  have hfirst : stripPrefix headerPrefix (frameHeader length) =
      some (digits length ++ headerEnd) := by
    simp [stripPrefix, frameHeader]
  have hsuffix : stripSuffix headerEnd (digits length ++ headerEnd) = some (digits length) := by
    simp [stripSuffix]
  have hvalid : ¬ ((digits length).isEmpty ∨ ¬ (digits length).all isDigit ∨
      (1 < (digits length).length ∧ (digits length).head? = some 48)) := by
    rintro (hempty | hall | hzero)
    · have hpos := digits_length_pos length
      rw [List.isEmpty_iff.mp hempty] at hpos
      exact Nat.lt_irrefl 0 hpos
    · exact hall (digits_all length)
    · exact digits_noLeadingZero length hzero
  have hvalue := decimalValue_digits length
  have hbound : ¬ 2 ^ 64 ≤ length := by
    unfold maxFrameBytes at hlength
    omega
  simp only [declaredLength, hfirst, Option.bind_some, hsuffix]
  rw [if_neg hvalid, hvalue, if_neg hbound, if_neg (Nat.not_lt.mpr hlength)]

theorem stripPrefix_some {before text rest : Bytes} (hstrip : stripPrefix before text = some rest) :
    text = before ++ rest := by
  unfold stripPrefix at hstrip
  split at hstrip
  · next hfront =>
      obtain ⟨after, rfl⟩ := List.isPrefixOf_iff_prefix.mp hfront
      rw [List.drop_left] at hstrip
      rw [Option.some.inj hstrip]
  · cases hstrip

theorem stripSuffix_some {after text front : Bytes} (hstrip : stripSuffix after text = some front) :
    text = front ++ after := by
  unfold stripSuffix at hstrip
  split at hstrip
  · next hend =>
      obtain ⟨before, rfl⟩ := List.isSuffixOf_iff_suffix.mp hend
      rw [List.length_append, Nat.add_sub_cancel, List.take_left] at hstrip
      rw [Option.some.inj hstrip]
  · cases hstrip

theorem declaredLength_ok {header : Bytes} {length : Nat}
    (hdeclared : declaredLength header = .ok length) :
    header = frameHeader length ∧ length ≤ maxFrameBytes := by
  unfold declaredLength at hdeclared
  split at hdeclared
  · cases hdeclared
  · next text hstrip =>
      obtain ⟨later, hfirst, hlast⟩ := Option.bind_eq_some_iff.mp hstrip
      split at hdeclared
      · cases hdeclared
      · next hnumeral =>
          split at hdeclared
          · cases hdeclared
          · split at hdeclared
            · cases hdeclared
            · next hsize =>
                obtain rfl := Except.ok.inj hdeclared
                simp only [not_or, Decidable.not_not, List.isEmpty_iff] at hnumeral
                obtain ⟨hne, hall, hzero⟩ := hnumeral
                refine ⟨?_, Nat.le_of_not_lt hsize⟩
                rw [frameHeader, digits_decimalValue text hne hall hzero, stripPrefix_some hfirst,
                  stripSuffix_some hlast]

theorem readHeader_cut {length : Nat} (hlength : length ≤ maxFrameBytes)
    {seen pending after : Bytes} (hheader : frameHeader length = seen ++ (pending ++ after))
    (hafter : after ≠ []) (hread : seen ++ pending ≠ []) :
    readHeader seen pending = .error .truncated := by
  induction pending generalizing seen with
  | nil =>
    rw [List.append_nil] at hread
    rw [readHeader, if_neg (by rwa [List.isEmpty_iff])]
  | cons value later ih =>
    have hbyte := headerByte_frameHeader hlength hheader
    have hopen : ¬ headerEnd.isSuffixOf (seen ++ [value]) = true := by
      intro hsuffix
      exact hafter (List.append_eq_nil_iff.mp ((headerEnd_frameHeader hheader).mp hsuffix)).2
    rw [readHeader, hbyte]
    simp only [if_neg hopen]
    exact ih (by simpa using hheader) (by simp)

theorem readFrame_frame {fromSlice : Bytes → Option Value} {body : Bytes}
    (hbody : body.length ≤ maxFrameBytes) (rest : Bytes) :
    readFrame fromSlice (frameHeader body.length ++ (body ++ rest)) =
      match fromSlice body with
      | none => .error .invalidJson
      | some value => .ok (some (value, rest)) := by
  have hheader := @readHeader_frameHeader body.length hbody (body ++ rest) []
    (frameHeader body.length) (by simp [frameHeader, headerPrefix]) rfl
  have hwhole : ¬ (body ++ rest).length < body.length := by
    simp
  rw [readFrame, hheader]
  simp only [declaredLength_frameHeader hbody, readBody]
  rw [if_neg hwhole, List.take_left, List.drop_left]

theorem readFrame_cut (fromSlice : Bytes → Option Value) {body piece after : Bytes}
    (hbody : body.length ≤ maxFrameBytes) (hcut : frameHeader body.length ++ body = piece ++ after)
    (hpiece : piece ≠ []) (hafter : after ≠ []) :
    readFrame fromSlice piece = .error .truncated := by
  have hinBody : ∀ part, body = part ++ after →
      readFrame fromSlice (frameHeader body.length ++ part) = .error .truncated := by
    intro part hpart
    have hheader := @readHeader_frameHeader body.length hbody part []
      (frameHeader body.length) (by simp [frameHeader, headerPrefix]) rfl
    have hshort : part.length < body.length := by
      have hpos := List.length_pos_iff.mpr hafter
      rw [hpart, List.length_append]
      omega
    rw [readFrame, hheader]
    simp only [declaredLength_frameHeader hbody, readBody, if_pos hshort]
  obtain ⟨part, hsplit, hpart⟩ | ⟨part, hsplit, hpart⟩ := List.append_eq_append_iff.mp hcut
  · rw [hsplit]
    exact hinBody part hpart
  · by_cases hnone : part = []
    · rw [hnone, List.append_nil] at hsplit
      rw [← hsplit, ← List.append_nil (frameHeader _)]
      exact hinBody [] (by rw [hpart, hnone, List.nil_append, List.nil_append])
    · have hread : readHeader [] piece = .error .truncated :=
        readHeader_cut hbody hsplit hnone hpiece
      rw [readFrame, hread]

theorem readFrame_nil (fromSlice : Bytes → Option Value) :
    readFrame fromSlice [] = .ok none :=
  rfl

end KodeGpt.FrameCodec
