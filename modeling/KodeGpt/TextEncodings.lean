import KodeGpt.JsObjects

/-!
The encodings of a text: UTF-8 bytes, and UTF-16 code units as a string of
JavaScript has them.
-/

namespace KodeGpt.TextEncodings

open JsonDocuments JsFrames
open JsonText (Bytes)
open JsObjects (JsText)

theorem span_append_cons {separator : UInt8} {front : Bytes} (hfront : separator ∉ front)
    (rest : Bytes) : (front ++ separator :: rest).span (· ≠ separator) =
      (front, separator :: rest) := by
  have hall : ∀ byte ∈ front, decide (byte ≠ separator) = true := by
    intro byte hbyte
    refine decide_eq_true ?_
    rintro rfl
    exact hfront hbyte
  rw [List.span_eq_takeWhile_dropWhile, List.takeWhile_append_of_pos hall,
    List.dropWhile_append_of_pos hall]
  simp

theorem splitOn_terminated {terminator : UInt8} {fields : List Bytes}
    (hfields : ∀ field ∈ fields, terminator ∉ field) :
    (fields.flatMap (· ++ [terminator])).splitOn terminator = fields ++ [[]] := by
  induction fields with
  | nil => rfl
  | cons field rest ih =>
    have hrest := ih fun later hlater => hfields later (List.mem_cons_of_mem _ hlater)
    rw [List.flatMap_cons, List.append_assoc, List.singleton_append,
      List.splitOn_append_cons_self_of_not_mem (hfields field List.mem_cons_self), hrest,
      List.cons_append]

def encodeUtf8 (text : List Char) : Bytes := text.flatMap String.utf8EncodeChar

def decodeUtf8 (bytes : Bytes) : Option (List Char) :=
  bytes.toByteArray.utf8Decode?.map Array.toList

def validUtf8 (bytes : Bytes) : Bool := (decodeUtf8 bytes).isSome

theorem decodeUtf8_encodeUtf8 (text : List Char) : decodeUtf8 (encodeUtf8 text) = some text := by
  have hdecode : (encodeUtf8 text).toByteArray.utf8Decode? = some text.toArray :=
    List.utf8Decode?_utf8Encode
  rw [decodeUtf8, hdecode]
  rfl

theorem exists_of_validUtf8 {bytes : Bytes} (hvalid : validUtf8 bytes = true) :
    ∃ text, bytes = encodeUtf8 text := by
  have hsome : bytes.toByteArray.utf8Decode?.isSome = true := by
    rwa [validUtf8, decodeUtf8, Option.isSome_map] at hvalid
  rw [ByteArray.isSome_utf8Decode?_eq_validateUTF8, ByteArray.validateUTF8_eq_true_iff] at hsome
  obtain ⟨text, htext⟩ := hsome
  exact ⟨text, List.toByteArray_inj.mp htext⟩

theorem validUtf8_encodeUtf8 (text : List Char) : validUtf8 (encodeUtf8 text) = true := by
  rw [validUtf8, decodeUtf8_encodeUtf8]
  rfl

theorem validUtf8_append {front rest : Bytes} (hfront : validUtf8 front = true)
    (hrest : validUtf8 rest = true) : validUtf8 (front ++ rest) = true := by
  obtain ⟨text, rfl⟩ := exists_of_validUtf8 hfront
  obtain ⟨later, rfl⟩ := exists_of_validUtf8 hrest
  have happend : encodeUtf8 text ++ encodeUtf8 later = encodeUtf8 (text ++ later) := by
    rw [encodeUtf8, encodeUtf8, encodeUtf8, List.flatMap_append]
  rw [happend]
  exact validUtf8_encodeUtf8 _

theorem utf8EncodeChar_ascii {character : Char} {byte : UInt8} (hbyte : byte < 128)
    (hmem : byte ∈ String.utf8EncodeChar character) :
    String.utf8EncodeChar character = [byte] := by
  have hne : ∀ value : Nat, 128 ≤ value → value < 256 → byte ≠ UInt8.ofNat value := by
    rintro value hvalue hsize rfl
    rw [UInt8.lt_iff_toNat_lt, UInt8.toNat_ofNat_of_lt' hsize] at hbyte
    exact absurd hbyte (Nat.not_lt.mpr hvalue)
  unfold String.utf8EncodeChar at hmem ⊢
  dsimp only at hmem ⊢
  split at hmem
  · rw [if_pos ‹_›, List.mem_singleton.mp hmem]
  · exfalso
    revert hmem
    split
    · simp only [List.mem_cons, List.not_mem_nil, or_false]
      rintro (hmem | hmem) <;> exact hne _ (by omega) (by omega) hmem
    · split
      · simp only [List.mem_cons, List.not_mem_nil, or_false]
        rintro (hmem | hmem | hmem) <;> exact hne _ (by omega) (by omega) hmem
      · simp only [List.mem_cons, List.not_mem_nil, or_false]
        rintro (hmem | hmem | hmem | hmem) <;> exact hne _ (by omega) (by omega) hmem

def asciiCharacter (byte : UInt8) : Char := Char.ofNat byte.toNat

theorem asciiCharacter_toNat {byte : UInt8} (hbyte : byte < 128) :
    (asciiCharacter byte).toNat = byte.toNat := by
  rw [UInt8.lt_iff_toNat_lt] at hbyte
  change byte.toNat < 128 at hbyte
  exact toNat_ofNat (Or.inl (by omega))

theorem utf8EncodeChar_asciiCharacter {byte : UInt8} (hbyte : byte < 128) :
    String.utf8EncodeChar (asciiCharacter byte) = [byte] := by
  have hcharacter := asciiCharacter_toNat hbyte
  rw [UInt8.lt_iff_toNat_lt] at hbyte
  change byte.toNat < 128 at hbyte
  rw [String.utf8EncodeChar]
  change (if (asciiCharacter byte).toNat ≤ 127 then
    [UInt8.ofNat (asciiCharacter byte).toNat] else _) = _
  rw [hcharacter, if_pos (by omega), UInt8.ofNat_toNat]

theorem encodeUtf8_ascii {text : Bytes} (hascii : ∀ byte ∈ text, byte < 128) :
    encodeUtf8 (text.map asciiCharacter) = text := by
  induction text with
  | nil => rfl
  | cons byte rest ih =>
    obtain ⟨hbyte, hrest⟩ := List.forall_mem_cons.mp hascii
    show String.utf8EncodeChar (asciiCharacter byte) ++ encodeUtf8 (rest.map asciiCharacter) = _
    rw [utf8EncodeChar_asciiCharacter hbyte, ih hrest, List.singleton_append]

theorem validUtf8_ascii {text : Bytes} (hascii : ∀ byte ∈ text, byte < 128) :
    validUtf8 text = true :=
  encodeUtf8_ascii hascii ▸ validUtf8_encodeUtf8 _

theorem validUtf8_split {front rest : Bytes} {byte : UInt8} (hbyte : byte < 128)
    (hvalid : validUtf8 (front ++ byte :: rest) = true) :
    validUtf8 front = true ∧ validUtf8 rest = true := by
  obtain ⟨text, htext⟩ := exists_of_validUtf8 hvalid
  clear hvalid
  induction text generalizing front with
  | nil => exact absurd htext (by simp [encodeUtf8])
  | cons character later ih =>
    have hcharacter : validUtf8 (String.utf8EncodeChar character) = true := by
      simpa [encodeUtf8] using validUtf8_encodeUtf8 [character]
    rw [encodeUtf8, List.flatMap_cons] at htext
    obtain ⟨middle, hencoded, hlater⟩ | ⟨middle, hfront, hlater⟩ :=
      List.append_eq_append_iff.mp htext
    · cases middle with
      | nil =>
        obtain ⟨-, hrest⟩ := @ih [] hlater
        rw [List.append_nil] at hencoded
        exact ⟨hencoded ▸ hcharacter, hrest⟩
      | cons first middle =>
        obtain ⟨rfl, hrest⟩ := List.cons.inj hlater
        have hsingle := utf8EncodeChar_ascii hbyte
          (hencoded ▸ List.mem_append_right front List.mem_cons_self)
        rw [hencoded] at hsingle
        have hlength := congrArg List.length hsingle
        simp only [List.length_append, List.length_cons, List.length_nil] at hlength
        obtain rfl : front = [] := List.length_eq_zero_iff.mp (by omega)
        obtain rfl : middle = [] := List.length_eq_zero_iff.mp (by omega)
        exact ⟨validUtf8_encodeUtf8 [], hrest ▸ validUtf8_encodeUtf8 later⟩
    · obtain ⟨hmiddle, hrest⟩ := ih hlater.symm
      exact ⟨hfront ▸ validUtf8_append hcharacter hmiddle, hrest⟩

def decodeCharacter (bytes : Bytes) : Option Char := bytes.toByteArray.utf8DecodeChar? 0

def isContinuation (byte : UInt8) : Bool := 128 ≤ byte && byte ≤ 191

def isSecondByte (first second : UInt8) : Bool :=
  if first = 224 then 160 ≤ second && second ≤ 191
  else if first = 237 then 128 ≤ second && second ≤ 159
  else if first = 240 then 144 ≤ second && second ≤ 191
  else if first = 244 then 128 ≤ second && second ≤ 143
  else 194 ≤ first && first ≤ 244 && isContinuation second

/-- How much of a text that begins with no character one replacement character stands
for: what could have begun a character. -/
def invalidLength : Bytes → Nat
  | first :: second :: rest =>
    if isSecondByte first second then
      if 240 ≤ first ∧ rest.head?.any isContinuation then 3 else 2
    else 1
  | _ => 1

def replacementCharacter : Char := Char.ofNat 65533

def lossyCharacters : Nat → Bytes → List Char
  | 0, _ => []
  | _, [] => []
  | limit + 1, byte :: rest =>
    match decodeCharacter (byte :: rest) with
    | some character =>
      character :: lossyCharacters limit ((byte :: rest).drop character.utf8Size)
    | none =>
      replacementCharacter ::
        lossyCharacters limit ((byte :: rest).drop (invalidLength (byte :: rest)))

def fromUtf8Lossy (bytes : Bytes) : List Char := lossyCharacters bytes.length bytes

theorem decodeCharacter_encodeUtf8 (character : Char) (rest : List Char) :
    decodeCharacter (encodeUtf8 (character :: rest)) = some character :=
  List.utf8DecodeChar?_utf8Encode_cons

theorem lossyCharacters_encodeUtf8 (text : List Char) {limit : Nat}
    (hlimit : (encodeUtf8 text).length ≤ limit) : lossyCharacters limit (encodeUtf8 text) = text := by
  induction text generalizing limit with
  | nil => cases limit <;> rfl
  | cons character rest ih =>
    have hencoded : encodeUtf8 (character :: rest) =
        String.utf8EncodeChar character ++ encodeUtf8 rest := rfl
    have hlength : (encodeUtf8 (character :: rest)).length =
        character.utf8Size + (encodeUtf8 rest).length := by
      rw [hencoded, List.length_append, String.length_utf8EncodeChar]
    have hdrop : (encodeUtf8 (character :: rest)).drop character.utf8Size = encodeUtf8 rest := by
      rw [hencoded, ← String.length_utf8EncodeChar, List.drop_left]
    have hsize := character.utf8Size_pos
    obtain ⟨limit, rfl⟩ : ∃ smaller, limit = smaller + 1 := ⟨limit - 1, by omega⟩
    cases hbytes : encodeUtf8 (character :: rest) with
    | nil => simp [hbytes] at hlength; omega
    | cons byte later =>
      rw [lossyCharacters, ← hbytes, decodeCharacter_encodeUtf8]
      dsimp only
      rw [hdrop, ih (by omega)]

theorem fromUtf8Lossy_encodeUtf8 (text : List Char) : fromUtf8Lossy (encodeUtf8 text) = text :=
  lossyCharacters_encodeUtf8 text (Nat.le_refl _)

/-- Characters with the property `White_Space`. -/
def isWhiteSpace (character : Char) : Bool :=
  let code := character.toNat
  (9 ≤ code && code ≤ 13) || code = 32 || code = 133 || code = 160 || code = 5760 ||
    (8192 ≤ code && code ≤ 8202) || code = 8232 || code = 8233 || code = 8239 || code = 8287 ||
    code = 12288

def trim (text : List Char) : List Char :=
  ((text.dropWhile isWhiteSpace).reverse.dropWhile isWhiteSpace).reverse

def utf16Units (character : Char) : JsText :=
  if character.toNat < 65536 then [character.toNat.toUInt16]
  else [((character.toNat - 65536) / 1024 + 55296).toUInt16,
    ((character.toNat - 65536) % 1024 + 56320).toUInt16]

def encodeUtf16 (text : List Char) : JsText := text.flatMap utf16Units

theorem stringCharacters_utf16Units (character : Char) (rest : JsText) :
    stringCharacters (utf16Units character ++ rest) =
      (stringCharacters rest).map (character :: ·) := by
  have hvalid := character.valid
  rw [UInt32.isValidChar] at hvalid
  change character.toNat.isValidChar at hvalid
  by_cases hsmall : character.toNat < 65536
  · have hunit : character.toNat.toUInt16.toNat = character.toNat :=
      UInt16.toNat_ofNat_of_lt' hsmall
    have hself : Char.ofNat character.toNat.toUInt16.toNat = character := by
      rw [hunit, Char.ofNat_toNat]
    have hhigh : ¬ IsHighSurrogate character.toNat.toUInt16 := by
      rintro ⟨hlow, hhigh⟩
      obtain hvalid | hvalid := hvalid <;> omega
    have hlow : ¬ IsLowSurrogate character.toNat.toUInt16 := by
      rintro ⟨hlow, hhigh⟩
      obtain hvalid | hvalid := hvalid <;> omega
    have hsurrogate : isSurrogate character.toNat.toUInt16 = false := by
      rw [isSurrogate, decide_eq_false_iff_not, not_or]
      exact ⟨hhigh, hlow⟩
    rw [utf16Units, if_pos hsmall]
    cases rest with
    | nil =>
      have hone : stringCharacters [character.toNat.toUInt16] =
          some [Char.ofNat character.toNat.toUInt16.toNat] := by
        rw [stringCharacters, hsurrogate]
        rfl
      rw [List.append_nil, hone, hself]
      rfl
    | cons unit rest =>
      rw [List.singleton_append, stringCharacters, if_neg (fun hpair => hhigh hpair.1),
        hsurrogate, hself]
      rfl
  · have hunits : UInt16.size = 65536 := rfl
    have hsize : character.toNat < 1114112 := by
      obtain hvalid | hvalid := hvalid <;> omega
    have hhigh : ((character.toNat - 65536) / 1024 + 55296).toUInt16.toNat =
        (character.toNat - 65536) / 1024 + 55296 := UInt16.toNat_ofNat_of_lt' (by omega)
    have hlow : ((character.toNat - 65536) % 1024 + 56320).toUInt16.toNat =
        (character.toNat - 65536) % 1024 + 56320 := UInt16.toNat_ofNat_of_lt' (by omega)
    have hhigh' : IsHighSurrogate ((character.toNat - 65536) / 1024 + 55296).toUInt16 := by
      rw [IsHighSurrogate, hhigh]
      omega
    have hlow' : IsLowSurrogate ((character.toNat - 65536) % 1024 + 56320).toUInt16 := by
      rw [IsLowSurrogate, hlow]
      omega
    have hvalue : 65536 + ((character.toNat - 65536) / 1024 + 55296 - 55296) * 1024 +
        ((character.toNat - 65536) % 1024 + 56320 - 56320) = character.toNat := by
      omega
    have hpair : pairCharacter ((character.toNat - 65536) / 1024 + 55296).toUInt16
        ((character.toNat - 65536) % 1024 + 56320).toUInt16 = character := by
      rw [pairCharacter, hhigh, hlow, hvalue, Char.ofNat_toNat]
    rw [utf16Units, if_neg hsmall, List.cons_append, List.singleton_append, stringCharacters,
      if_pos ⟨hhigh', hlow'⟩, hpair]

theorem stringCharacters_encodeUtf16 (text : List Char) :
    stringCharacters (encodeUtf16 text) = some text := by
  induction text with
  | nil => rfl
  | cons character rest ih =>
    rw [encodeUtf16, List.flatMap_cons, stringCharacters_utf16Units]
    exact congrArg (Option.map (character :: ·)) ih

def jsText (bytes : Bytes) : JsText := encodeUtf16 ((decodeUtf8 bytes).getD [])

end KodeGpt.TextEncodings
