import KodeGpt.ListCuts
import KodeGpt.NodePaths

/-!
Percent-encoded texts, of URLs and of forms. What is encoded is UTF-8, and its text is ASCII.
-/

namespace KodeGpt.PercentTexts

open JsonDocuments JsFrames JsObjects TextEncodings NodePaths
open JsonText (Bytes)

def hexUnit (digit : Nat) : UInt16 := (if digit < 10 then 48 + digit else 55 + digit).toUInt16

def percentEncodeByte (byte : UInt8) : JsText :=
  [37, hexUnit (byte.toNat / 16), hexUnit (byte.toNat % 16)]

def hexValue (byte : UInt8) : Option Nat :=
  if 48 ≤ byte ∧ byte ≤ 57 then some (byte.toNat - 48)
  else if 65 ≤ byte ∧ byte ≤ 70 then some (byte.toNat - 55)
  else if 97 ≤ byte ∧ byte ≤ 102 then some (byte.toNat - 87)
  else none

def percentDecode : Bytes → Bytes
  | byte :: high :: low :: rest =>
    if byte = 37 ∧ (hexValue high).isSome = true ∧ (hexValue low).isSome = true then
      (16 * (hexValue high).getD 0 + (hexValue low).getD 0).toUInt8 :: percentDecode rest
    else byte :: percentDecode (high :: low :: rest)
  | bytes => bytes

def decodedBytes (text : JsText) : Bytes := percentDecode (pathBytes text)

theorem percentDecode_cons {byte : UInt8} (hbyte : byte ≠ 37) (rest : Bytes) :
    percentDecode (byte :: rest) = byte :: percentDecode rest := by
  match rest with
  | [] => rfl
  | [_] => rfl
  | _ :: _ :: _ => rw [percentDecode, if_neg fun h => hbyte h.1]

theorem hexUnit_facts : ∀ digit < 16, (hexUnit digit).toNat < 128 ∧
    hexValue (hexUnit digit).toUInt8 = some digit := by
  decide

theorem percentDecode_percentEncodeByte (byte : UInt8) (rest : Bytes) :
    percentDecode ((percentEncodeByte byte).map UInt16.toUInt8 ++ rest) =
      byte :: percentDecode rest := by
  have hbyte : byte.toNat < 256 := byte.toNat_lt
  have hhigh := (hexUnit_facts (byte.toNat / 16) (by omega)).2
  have hlow := (hexUnit_facts (byte.toNat % 16) (by omega)).2
  have hvalue : 16 * (byte.toNat / 16) + byte.toNat % 16 = byte.toNat := by omega
  rw [percentEncodeByte, List.map_cons, List.map_cons, List.map_cons, List.map_nil,
    List.cons_append, List.cons_append, List.cons_append, List.nil_append, percentDecode, hhigh,
    hlow, if_pos ⟨rfl, rfl, rfl⟩, Option.getD_some, Option.getD_some, hvalue]
  simp

theorem percentDecode_percentEncode (bytes rest : Bytes) :
    percentDecode ((bytes.flatMap percentEncodeByte).map UInt16.toUInt8 ++ rest) =
      bytes ++ percentDecode rest := by
  induction bytes with
  | nil => rfl
  | cons byte bytes ih =>
    rw [List.flatMap_cons, List.map_append, List.append_assoc,
      percentDecode_percentEncodeByte, ih, List.cons_append]

def percentEncodeChar (plain : Char → Bool) (character : Char) : JsText :=
  if plain character then [character.toNat.toUInt16]
  else (String.utf8EncodeChar character).flatMap percentEncodeByte

def percentEncode (plain : Char → Bool) (text : List Char) : JsText :=
  text.flatMap (percentEncodeChar plain)

def isAlphanumeric (character : Char) : Bool :=
  ('A' ≤ character && character ≤ 'Z') || ('a' ≤ character && character ≤ 'z') ||
    ('0' ≤ character && character ≤ '9')

/-- The plain characters are ASCII, with the letters and the digits. -/
structure PlainSet (plain : Char → Bool) : Prop where
  ascii : ∀ character, plain character = true → character.toNat < 128
  alphanumeric : ∀ character, isAlphanumeric character = true → plain character = true

theorem isAlphanumeric_ascii {character : Char} (h : isAlphanumeric character = true) :
    character.toNat < 128 := by
  have hle : ∀ last : Char, character ≤ last → character.toNat ≤ last.toNat := fun _ h => h
  simp only [isAlphanumeric, Bool.or_eq_true, Bool.and_eq_true, decide_eq_true_eq] at h
  obtain (⟨-, h⟩ | ⟨-, h⟩) | ⟨-, h⟩ := h
  · exact Nat.lt_of_le_of_lt (hle 'Z' h) (by decide)
  · exact Nat.lt_of_le_of_lt (hle 'z' h) (by decide)
  · exact Nat.lt_of_le_of_lt (hle '9' h) (by decide)

def isEncodedUnit (plain : Char → Bool) (unit : UInt16) : Bool :=
  (unit.toNat < 128 && plain (Char.ofNat unit.toNat)) || unit = 37

theorem ofNat_hexUnit : ∀ digit < 16, isAlphanumeric (Char.ofNat (hexUnit digit).toNat) = true := by
  decide

section Plain

variable {plain : Char → Bool} (hplain : PlainSet plain)

include hplain

theorem mem_percentEncodeByte {byte : UInt8} {unit : UInt16} (h : unit ∈ percentEncodeByte byte) :
    isEncodedUnit plain unit = true := by
  have hbyte : byte.toNat < 256 := byte.toNat_lt
  have hdigit : ∀ digit < 16, isEncodedUnit plain (hexUnit digit) = true := by
    intro digit hdigit
    rw [isEncodedUnit, decide_eq_true (hexUnit_facts digit hdigit).1,
      hplain.alphanumeric _ (ofNat_hexUnit digit hdigit)]
    rfl
  rw [percentEncodeByte, List.mem_cons, List.mem_cons, List.mem_singleton] at h
  obtain rfl | rfl | rfl := h
  · exact Bool.or_true _
  · exact hdigit _ (by omega)
  · exact hdigit _ (by omega)

theorem mem_percentEncodeChar {character : Char} {unit : UInt16}
    (h : unit ∈ percentEncodeChar plain character) : isEncodedUnit plain unit = true := by
  rw [percentEncodeChar] at h
  split at h
  case isTrue hcharacter =>
    have hascii := hplain.ascii character hcharacter
    have hunit : unit.toNat = character.toNat := by
      rw [List.mem_singleton.mp h, Nat.toUInt16, UInt16.toNat_ofNat']
      omega
    rw [isEncodedUnit, hunit, decide_eq_true hascii, Char.ofNat_toNat, hcharacter]
    rfl
  case isFalse =>
    obtain ⟨byte, -, hbyte⟩ := List.mem_flatMap.mp h
    exact mem_percentEncodeByte hplain hbyte

theorem mem_percentEncode {text : List Char} {unit : UInt16}
    (h : unit ∈ percentEncode plain text) : isEncodedUnit plain unit = true := by
  obtain ⟨character, -, hunit⟩ := List.mem_flatMap.mp h
  exact mem_percentEncodeChar hplain hunit

omit hplain in
theorem isEncodedUnit_ascii {unit : UInt16} (h : isEncodedUnit plain unit = true) :
    unit.toNat < 128 := by
  obtain h | h := Bool.or_eq_true_iff.mp h
  · exact of_decide_eq_true (Bool.and_eq_true_iff.mp h).1
  · rw [of_decide_eq_true h]
    decide

theorem asciiText_percentEncode (text : List Char) : asciiText (percentEncode plain text) :=
  fun _ hunit => isEncodedUnit_ascii (mem_percentEncode hplain hunit)

variable (hpercent : plain '%' = false)

include hpercent

theorem percentDecode_percentEncodeChar (character : Char) (rest : Bytes) :
    percentDecode ((percentEncodeChar plain character).map UInt16.toUInt8 ++ rest) =
      String.utf8EncodeChar character ++ percentDecode rest := by
  rw [percentEncodeChar]
  split
  case isTrue hcharacter =>
    have hascii := hplain.ascii character hcharacter
    have hbyte : character.toNat.toUInt16.toUInt8 = character.toNat.toUInt8 := by
      rw [← UInt8.toNat_inj, UInt16.toNat_toUInt8, Nat.toUInt16, UInt16.toNat_ofNat', Nat.toUInt8,
        UInt8.toNat_ofNat']
      omega
    have hsmall : character.toNat.toUInt8 < 128 := by
      rw [UInt8.lt_iff_toNat_lt, Nat.toUInt8, UInt8.toNat_ofNat']
      exact Nat.lt_of_le_of_lt (Nat.mod_le _ _) hascii
    have hutf8 : String.utf8EncodeChar character = [character.toNat.toUInt8] := by
      have hback : asciiCharacter character.toNat.toUInt8 = character := by
        rw [asciiCharacter, Nat.toUInt8, UInt8.toNat_ofNat',
          Nat.mod_eq_of_lt (Nat.lt_trans hascii (by decide))]
        exact Char.ofNat_toNat character
      have hencoded := utf8EncodeChar_asciiCharacter hsmall
      rwa [hback] at hencoded
    have hpercent : character.toNat.toUInt8 ≠ 37 := by
      intro h
      have hnat : character.toNat = 37 := by
        have hvalue := congrArg UInt8.toNat h
        rw [Nat.toUInt8, UInt8.toNat_ofNat',
          Nat.mod_eq_of_lt (Nat.lt_trans hascii (by decide))] at hvalue
        exact hvalue
      have hchar : character = '%' := by
        rw [← Char.ofNat_toNat character, hnat]
      rw [hchar, hpercent] at hcharacter
      exact Bool.false_ne_true hcharacter
    rw [List.map_cons, List.map_nil, hbyte, List.cons_append, List.nil_append,
      percentDecode_cons hpercent, hutf8]
    rfl
  case isFalse => exact percentDecode_percentEncode _ _

theorem percentDecode_percentEncodeText (text : List Char) (rest : Bytes) :
    percentDecode ((percentEncode plain text).map UInt16.toUInt8 ++ rest) =
      encodeUtf8 text ++ percentDecode rest := by
  induction text with
  | nil => rfl
  | cons character text ih =>
    rw [percentEncode, List.flatMap_cons, List.map_append, List.append_assoc,
      percentDecode_percentEncodeChar hplain hpercent, encodeUtf8, List.flatMap_cons,
      List.append_assoc]
    exact congrArg _ ih

theorem decodedBytes_percentEncode (text : List Char) :
    decodedBytes (percentEncode plain text) = encodeUtf8 text := by
  have h := percentDecode_percentEncodeText hplain hpercent text []
  rw [List.append_nil] at h
  rw [decodedBytes, pathBytes_ascii (asciiText_percentEncode hplain text), h, percentDecode,
    List.append_nil]
  exact nofun

end Plain

def isUriPlain (character : Char) : Bool :=
  isAlphanumeric character || ['-', '_', '.', '!', '~', '*', '\'', '(', ')'].contains character

def encodeURIComponent (text : JsText) : Option JsText :=
  (stringCharacters text).map (percentEncode isUriPlain)

theorem plainSet_of_marks {marks : List Char} (hmarks : marks.all (·.toNat < 128) = true) :
    PlainSet fun character => isAlphanumeric character || marks.contains character where
  ascii := by
    intro character h
    obtain h | h := Bool.or_eq_true_iff.mp h
    · exact isAlphanumeric_ascii h
    · exact of_decide_eq_true (List.all_eq_true.mp hmarks character (List.contains_iff_mem.mp h))
  alphanumeric := fun _ h => Bool.or_eq_true_iff.mpr (.inl h)

theorem plainSet_uri : PlainSet isUriPlain := plainSet_of_marks (by decide)

theorem encodeURIComponent_nil : encodeURIComponent [] = some [] := rfl

theorem decodedBytes_encodeURIComponent {value written : JsText}
    (h : encodeURIComponent value = some written) : decodedBytes written = pathBytes value := by
  obtain ⟨text, htext, rfl⟩ := Option.map_eq_some_iff.mp h
  rw [decodedBytes_percentEncode plainSet_uri (by decide), pathBytes,
    lossyString_of_stringCharacters htext]

def isFormPlain (character : Char) : Bool :=
  isAlphanumeric character || ['*', '-', '.', '_'].contains character

theorem plainSet_form : PlainSet isFormPlain := plainSet_of_marks (by decide)

def formEncodeChar (character : Char) : JsText :=
  if character = ' ' then [43] else percentEncodeChar isFormPlain character

def formEncode (text : List Char) : JsText := text.flatMap formEncodeChar

abbrev FormPair := List Char × List Char

def formField (pair : FormPair) : JsText := formEncode pair.1 ++ 61 :: formEncode pair.2

def formSerialize (pairs : List FormPair) : JsText := [38].intercalate (pairs.map formField)

def plusToSpace (bytes : Bytes) : Bytes := bytes.map fun byte => if byte = 43 then 32 else byte

def formDecode (bytes : Bytes) : List Char := fromUtf8Lossy (percentDecode (plusToSpace bytes))

def formPair (field : Bytes) : FormPair :=
  (formDecode (field.takeWhile (· ≠ 61)), formDecode ((field.dropWhile (· ≠ 61)).drop 1))

def formParse (text : JsText) : List FormPair :=
  (((pathBytes text).splitOn 38).filter (· ≠ [])).map formPair

def isFormUnit (unit : UInt16) : Bool := unit = 43 || isEncodedUnit isFormPlain unit

theorem mem_formEncode {text : List Char} {unit : UInt16} (h : unit ∈ formEncode text) :
    isFormUnit unit = true := by
  obtain ⟨character, -, hunit⟩ := List.mem_flatMap.mp h
  rw [formEncodeChar] at hunit
  split at hunit
  · rw [List.mem_singleton.mp hunit]
    rfl
  · exact Bool.or_eq_true_iff.mpr (.inr (mem_percentEncodeChar plainSet_form hunit))

theorem isFormUnit_ascii {unit : UInt16} (h : isFormUnit unit = true) : unit.toNat < 128 := by
  obtain h | h := Bool.or_eq_true_iff.mp h
  · rw [of_decide_eq_true h]
    decide
  · exact isEncodedUnit_ascii h

theorem notMem_formEncode {mark : UInt16} (hmark : isFormUnit mark = false) (text : List Char) :
    mark ∉ formEncode text := by
  intro h
  rw [mem_formEncode h] at hmark
  exact Bool.false_ne_true hmark.symm

theorem plusToSpace_append (front rest : Bytes) :
    plusToSpace (front ++ rest) = plusToSpace front ++ plusToSpace rest := List.map_append

theorem plusToSpace_percentEncodeChar (character : Char) :
    plusToSpace ((percentEncodeChar isFormPlain character).map UInt16.toUInt8) =
      (percentEncodeChar isFormPlain character).map UInt16.toUInt8 := by
  rw [plusToSpace, List.map_map]
  refine List.map_congr_left ?_
  intro unit hunit
  have hencoded := mem_percentEncodeChar plainSet_form hunit
  have hascii := isEncodedUnit_ascii hencoded
  refine if_neg ?_
  intro h
  have hvalue : unit = 43 := by
    have hnat := congrArg UInt8.toNat h
    rw [UInt16.toNat_toUInt8, Nat.mod_eq_of_lt (Nat.lt_trans hascii (by decide))] at hnat
    exact UInt16.toNat_inj.mp hnat
  rw [hvalue] at hencoded
  exact absurd hencoded (by decide)

theorem formDecode_formEncode (text : List Char) :
    formDecode ((formEncode text).map UInt16.toUInt8) = text := by
  have hdecode : percentDecode (plusToSpace ((formEncode text).map UInt16.toUInt8)) =
      encodeUtf8 text := by
    induction text with
    | nil => rfl
    | cons character text ih =>
      rw [formEncode, List.flatMap_cons, List.map_append, plusToSpace_append, formEncodeChar]
      split
      case isTrue hspace =>
        rw [hspace]
        show percentDecode (32 :: _) = _
        rw [percentDecode_cons (by decide)]
        exact congrArg (32 :: ·) ih
      case isFalse =>
        rw [plusToSpace_percentEncodeChar,
          percentDecode_percentEncodeChar plainSet_form (by decide)]
        exact congrArg (String.utf8EncodeChar character ++ ·) ih
  rw [formDecode, hdecode, fromUtf8Lossy_encodeUtf8]

theorem mem_formField {pair : FormPair} {unit : UInt16} (h : unit ∈ formField pair) :
    unit = 61 ∨ isFormUnit unit = true := by
  obtain h | h := List.mem_append.mp h
  · exact .inr (mem_formEncode h)
  · obtain rfl | h := List.mem_cons.mp h
    · exact .inl rfl
    · exact .inr (mem_formEncode h)

theorem asciiText_formField (pair : FormPair) : asciiText (formField pair) := by
  intro unit hunit
  obtain rfl | h := mem_formField hunit
  · decide
  · exact isFormUnit_ascii h

theorem formPair_formField (pair : FormPair) :
    formPair ((formField pair).map UInt16.toUInt8) = pair := by
  have hname : ∀ byte ∈ (formEncode pair.1).map UInt16.toUInt8, byte ≠ 61 := by
    intro byte hbyte h
    obtain ⟨unit, hunit, hvalue⟩ := List.mem_map.mp hbyte
    have hascii := isFormUnit_ascii (mem_formEncode hunit)
    have heq : unit = 61 := by
      have hnat := congrArg UInt8.toNat (hvalue.trans h)
      rw [UInt16.toNat_toUInt8, Nat.mod_eq_of_lt (Nat.lt_trans hascii (by decide))] at hnat
      exact UInt16.toNat_inj.mp hnat
    exact notMem_formEncode (by decide) pair.1 (heq ▸ hunit)
  have hpasses : ∀ byte ∈ (formEncode pair.1).map UInt16.toUInt8, decide (byte ≠ 61) = true :=
    fun byte hbyte => decide_eq_true (hname byte hbyte)
  rw [formField, List.map_append, List.map_cons]
  show formPair ((formEncode pair.1).map UInt16.toUInt8 ++ 61 :: _) = pair
  rw [formPair, List.takeWhile_append_of_pos hpasses, List.dropWhile_append_of_pos hpasses,
    List.takeWhile_cons_of_neg (by decide), List.dropWhile_cons_of_neg (by decide),
    List.append_nil, List.drop_one, List.tail_cons, formDecode_formEncode, formDecode_formEncode]

theorem formParse_formSerialize (pairs : List FormPair) :
    formParse (formSerialize pairs) = pairs := by
  cases pairs with
  | nil => rfl
  | cons pair rest =>
    have hascii : asciiText (formSerialize (pair :: rest)) := by
      intro unit hunit
      obtain rfl | ⟨part, hpart, hmem⟩ := ListCuts.mem_intercalate hunit
      · decide
      · obtain ⟨found, -, rfl⟩ := List.mem_map.mp hpart
        exact asciiText_formField found unit hmem
    have hfields : ∀ field ∈ ((pair :: rest).map formField).map (List.map UInt16.toUInt8),
        38 ∉ field ∧ field ≠ [] := by
      intro field hfield
      obtain ⟨units, hunits, rfl⟩ := List.mem_map.mp hfield
      obtain ⟨found, -, rfl⟩ := List.mem_map.mp hunits
      refine ⟨?_, ?_⟩
      · intro hmem
        obtain ⟨unit, hunit, hvalue⟩ := List.mem_map.mp hmem
        have hnat := congrArg UInt8.toNat hvalue
        rw [UInt16.toNat_toUInt8, Nat.mod_eq_of_lt
          (Nat.lt_trans (asciiText_formField found unit hunit) (by decide))] at hnat
        have heq : unit = 38 := UInt16.toNat_inj.mp hnat
        obtain h | h := mem_formField hunit
        · rw [heq] at h
          exact absurd h (by decide)
        · rw [heq] at h
          exact absurd h (by decide)
      · simp [formField]
    have hampersand : (38 : UInt16).toUInt8 = 38 := rfl
    rw [formParse, pathBytes_ascii hascii, formSerialize, ListCuts.map_intercalate, hampersand,
      List.splitOn_intercalate _ (fun field hfield => (hfields field hfield).1) (by simp),
      List.filter_eq_self.mpr fun field hfield => decide_eq_true (hfields field hfield).2,
      List.map_map, List.map_map]
    refine (List.map_congr_left fun found _ => ?_).trans (List.map_id _)
    exact formPair_formField found

end KodeGpt.PercentTexts
