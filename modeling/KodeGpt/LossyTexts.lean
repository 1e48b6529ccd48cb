import KodeGpt.TextEncodings

/-!
Bytes that are decoded as UTF-8 although they may not be, whole or piece by piece:
what is put in the place of what is no character, and how much longer the text is
than the bytes.
-/

namespace KodeGpt.LossyTexts

open TextEncodings
open JsonText (Bytes)

def byteLength (text : List Char) : Nat := (encodeUtf8 text).length

@[simp] theorem byteLength_nil : byteLength [] = 0 := rfl

theorem encodeUtf8_append (front back : List Char) :
    encodeUtf8 (front ++ back) = encodeUtf8 front ++ encodeUtf8 back :=
  List.flatMap_append

theorem encodeUtf8_cons (character : Char) (rest : List Char) :
    encodeUtf8 (character :: rest) = String.utf8EncodeChar character ++ encodeUtf8 rest := rfl

@[simp] theorem byteLength_append (front back : List Char) :
    byteLength (front ++ back) = byteLength front + byteLength back := by
  rw [byteLength, encodeUtf8_append, List.length_append]
  rfl

@[simp] theorem byteLength_cons (character : Char) (rest : List Char) :
    byteLength (character :: rest) = character.utf8Size + byteLength rest := by
  rw [byteLength, encodeUtf8_cons, List.length_append, String.length_utf8EncodeChar]
  rfl

theorem decodeCharacter_eq_some_iff {bytes : Bytes} {character : Char} :
    decodeCharacter bytes = some character ↔
      ∃ rest, bytes = String.utf8EncodeChar character ++ rest := by
  constructor
  · intro h
    have hsplit := ByteArray.eq_of_utf8DecodeChar?_eq_some h
    have hlist := congrArg (fun array => array.data.toList) hsplit
    exact ⟨_, by simpa using hlist⟩
  · rintro ⟨rest, rfl⟩
    have hdecode := @ByteArray.utf8DecodeChar?_utf8EncodeChar_append rest.toByteArray character
    rwa [← List.toByteArray_append] at hdecode

theorem invalidLength_pos (bytes : Bytes) : 0 < invalidLength bytes := by
  unfold invalidLength
  grind

theorem invalidLength_le (bytes : Bytes) : invalidLength bytes ≤ 3 := by
  unfold invalidLength
  grind

theorem invalidLength_le_length {bytes : Bytes} (hne : bytes ≠ []) :
    invalidLength bytes ≤ bytes.length := by
  unfold invalidLength
  split
  · rename_i first second rest
    cases rest with
    | nil => grind
    | cons third rest => grind
  · exact List.length_pos_iff.mpr hne

theorem lossyCharacters_limit {limit other : Nat} {bytes : Bytes} (hlimit : bytes.length ≤ limit)
    (hother : bytes.length ≤ other) :
    lossyCharacters limit bytes = lossyCharacters other bytes := by
  induction limit generalizing bytes other with
  | zero =>
    obtain rfl := List.length_eq_zero_iff.mp (Nat.le_zero.mp hlimit)
    cases other <;> rfl
  | succ limit ih =>
    cases bytes with
    | nil => cases other <;> rfl
    | cons byte rest =>
      obtain ⟨other, rfl⟩ : ∃ smaller, other = smaller + 1 :=
        ⟨other - 1, by simp only [List.length_cons] at hother; omega⟩
      have hpos := invalidLength_pos (byte :: rest)
      simp only [List.length_cons] at hlimit hother
      rw [lossyCharacters, lossyCharacters]
      cases decodeCharacter (byte :: rest) with
      | some character =>
        have hsize := character.utf8Size_pos
        refine congrArg (character :: ·) (ih ?_ ?_)
        all_goals simp only [List.length_drop, List.length_cons]; omega
      | none =>
        refine congrArg (replacementCharacter :: ·) (ih ?_ ?_)
        all_goals simp only [List.length_drop, List.length_cons]; omega

theorem fromUtf8Lossy_eq {limit : Nat} {bytes : Bytes} (hlimit : bytes.length ≤ limit) :
    lossyCharacters limit bytes = fromUtf8Lossy bytes :=
  lossyCharacters_limit hlimit (Nat.le_refl _)

@[simp] theorem fromUtf8Lossy_nil : fromUtf8Lossy [] = [] := rfl

theorem fromUtf8Lossy_character (character : Char) (rest : Bytes) :
    fromUtf8Lossy (String.utf8EncodeChar character ++ rest) = character :: fromUtf8Lossy rest := by
  have hdecode := decodeCharacter_eq_some_iff.mpr ⟨rest, (rfl :
    String.utf8EncodeChar character ++ rest = String.utf8EncodeChar character ++ rest)⟩
  have hlength := String.length_utf8EncodeChar character
  have hsize := character.utf8Size_pos
  cases hbytes : String.utf8EncodeChar character ++ rest with
  | nil =>
    have hempty := congrArg List.length hbytes
    simp only [List.length_append, List.length_nil] at hempty
    omega
  | cons byte tail =>
    rw [hbytes] at hdecode
    have hdrop : (byte :: tail).drop character.utf8Size = rest := by
      rw [← hbytes, ← hlength, List.drop_left]
    have htail := congrArg List.length hbytes
    simp only [List.length_append, List.length_cons] at htail
    rw [fromUtf8Lossy, List.length_cons, lossyCharacters, hdecode]
    dsimp only
    rw [hdrop, fromUtf8Lossy_eq (by omega)]

theorem encodeUtf8_injective {text other : List Char} (h : encodeUtf8 text = encodeUtf8 other) :
    text = other := by
  rw [← fromUtf8Lossy_encodeUtf8 text, h, fromUtf8Lossy_encodeUtf8]

theorem fromUtf8Lossy_text (text : List Char) (rest : Bytes) :
    fromUtf8Lossy (encodeUtf8 text ++ rest) = text ++ fromUtf8Lossy rest := by
  induction text with
  | nil => rfl
  | cons character text ih =>
    rw [encodeUtf8_cons, List.append_assoc, fromUtf8Lossy_character, ih, List.cons_append]

theorem fromUtf8Lossy_invalid {bytes : Bytes} (hne : bytes ≠ [])
    (hinvalid : decodeCharacter bytes = none) :
    fromUtf8Lossy bytes =
      replacementCharacter :: fromUtf8Lossy (bytes.drop (invalidLength bytes)) := by
  obtain ⟨byte, rest, rfl⟩ := List.exists_cons_of_ne_nil hne
  have hpos := invalidLength_pos (byte :: rest)
  rw [fromUtf8Lossy, List.length_cons, lossyCharacters, hinvalid]
  dsimp only
  rw [fromUtf8Lossy_eq]
  simp only [List.length_drop, List.length_cons]
  omega

/-- The bytes by which replacements are longer than what they stand for, in at most
as many characters as the first argument says. -/
def excessBytes : Nat → Bytes → Nat
  | 0, _ => 0
  | _, [] => 0
  | limit + 1, byte :: rest =>
    match decodeCharacter (byte :: rest) with
    | some character => excessBytes limit ((byte :: rest).drop character.utf8Size)
    | none =>
      (3 - invalidLength (byte :: rest)) +
        excessBytes limit ((byte :: rest).drop (invalidLength (byte :: rest)))

def excess (bytes : Bytes) : Nat := excessBytes bytes.length bytes

theorem byteLength_lossyCharacters (limit : Nat) {bytes : Bytes} (hlimit : bytes.length ≤ limit) :
    byteLength (lossyCharacters limit bytes) = bytes.length + excessBytes limit bytes := by
  induction limit generalizing bytes with
  | zero =>
    obtain rfl := List.length_eq_zero_iff.mp (Nat.le_zero.mp hlimit)
    rfl
  | succ limit ih =>
    cases bytes with
    | nil => rfl
    | cons byte rest =>
      have hpos := invalidLength_pos (byte :: rest)
      simp only [List.length_cons] at hlimit
      rw [lossyCharacters, excessBytes]
      cases hdecode : decodeCharacter (byte :: rest) with
      | some character =>
        have hsize := character.utf8Size_pos
        obtain ⟨tail, htail⟩ := decodeCharacter_eq_some_iff.mp hdecode
        have hlength := congrArg List.length htail
        rw [List.length_append, String.length_utf8EncodeChar] at hlength
        dsimp only
        rw [byteLength_cons, ih (by simp only [List.length_drop, List.length_cons]; omega),
          List.length_drop]
        omega
      | none =>
        have hle := invalidLength_le (byte :: rest)
        have hlength := invalidLength_le_length (List.cons_ne_nil byte rest)
        have hreplacement : replacementCharacter.utf8Size = 3 := rfl
        dsimp only
        rw [byteLength_cons, ih (by simp only [List.length_drop, List.length_cons]; omega),
          List.length_drop, hreplacement]
        omega

theorem byteLength_fromUtf8Lossy (bytes : Bytes) :
    byteLength (fromUtf8Lossy bytes) = bytes.length + excess bytes :=
  byteLength_lossyCharacters _ (Nat.le_refl _)

theorem length_le_flatMap_fromUtf8Lossy (pieces : List Bytes) :
    pieces.flatten.length ≤ byteLength (pieces.flatMap fromUtf8Lossy) := by
  induction pieces with
  | nil => exact Nat.le_refl _
  | cons piece rest ih =>
    rw [List.flatten_cons, List.length_append, List.flatMap_cons, byteLength_append,
      byteLength_fromUtf8Lossy]
    omega

theorem encodeUtf8_flatten (texts : List (List Char)) :
    encodeUtf8 texts.flatten = (texts.map encodeUtf8).flatten := by
  induction texts with
  | nil => rfl
  | cons text rest ih =>
    rw [List.flatten_cons, encodeUtf8_append, ih, List.map_cons, List.flatten_cons]

theorem exists_texts {chunks : List Bytes} (hvalid : ∀ chunk ∈ chunks, validUtf8 chunk = true) :
    ∃ texts : List (List Char), chunks = texts.map encodeUtf8 := by
  induction chunks with
  | nil => exact ⟨[], rfl⟩
  | cons chunk rest ih =>
    obtain ⟨text, rfl⟩ := exists_of_validUtf8 (hvalid chunk List.mem_cons_self)
    obtain ⟨texts, rfl⟩ := ih fun other hother => hvalid other (List.mem_cons_of_mem _ hother)
    exact ⟨text :: texts, rfl⟩

theorem encodeUtf8_prefix {front rest : List Char} {more : Bytes}
    (h : encodeUtf8 front ++ more = encodeUtf8 rest) :
    ∃ back, rest = front ++ back ∧ more = encodeUtf8 back := by
  induction front generalizing rest with
  | nil => exact ⟨rest, rfl, h⟩
  | cons character front ih =>
    rw [encodeUtf8_cons, List.append_assoc] at h
    have hdecode : decodeCharacter (encodeUtf8 rest) = some character :=
      decodeCharacter_eq_some_iff.mpr ⟨_, h.symm⟩
    cases rest with
    | nil => cases hdecode
    | cons other rest =>
      rw [decodeCharacter_encodeUtf8] at hdecode
      obtain rfl := Option.some.inj hdecode
      rw [encodeUtf8_cons, List.append_cancel_left_eq] at h
      obtain ⟨back, rfl, hmore⟩ := ih h
      exact ⟨back, rfl, hmore⟩

theorem exists_cut {front more : Bytes} {text : List Char} (h : front ++ more = encodeUtf8 text) :
    ∃ head part tail, text = head ++ tail ∧ front = encodeUtf8 head ++ part ∧
      (part = [] ∨ ∃ character rest missing, tail = character :: rest ∧ missing ≠ [] ∧ part ≠ [] ∧
        part ++ missing = String.utf8EncodeChar character) := by
  induction text generalizing front with
  | nil =>
    obtain ⟨rfl, -⟩ := List.append_eq_nil_iff.mp h
    exact ⟨[], [], [], rfl, rfl, .inl rfl⟩
  | cons character rest ih =>
    rw [encodeUtf8_cons] at h
    rcases List.append_eq_append_iff.mp h with ⟨missing, hcharacter, -⟩ | ⟨later, hfront, hrest⟩
    · by_cases hempty : front = []
      · exact ⟨[], [], character :: rest, rfl, hempty, .inl rfl⟩
      · by_cases hwhole : missing = []
        · refine ⟨[character], [], rest, rfl, ?_, .inl rfl⟩
          rw [encodeUtf8_cons, hcharacter, hwhole]
          simp [encodeUtf8]
        · exact ⟨[], front, character :: rest, rfl, rfl,
            .inr ⟨character, rest, missing, rfl, hwhole, hempty, hcharacter.symm⟩⟩
    · obtain ⟨head, part, tail, rfl, rfl, hcut⟩ := ih hrest.symm
      exact ⟨character :: head, part, tail, rfl, by rw [hfront, encodeUtf8_cons, List.append_assoc],
        hcut⟩

theorem decodeCharacter_part {part missing : Bytes} {character : Char}
    (hpart : part ++ missing = String.utf8EncodeChar character) (hmissing : missing ≠ []) :
    decodeCharacter part = none := by
  cases hdecode : decodeCharacter part with
  | none => rfl
  | some other =>
    obtain ⟨rest, rfl⟩ := decodeCharacter_eq_some_iff.mp hdecode
    have hwhole : encodeUtf8 [other] ++ (rest ++ missing) = encodeUtf8 [character] := by
      simpa [encodeUtf8] using hpart
    obtain ⟨back, hback, hmore⟩ := encodeUtf8_prefix hwhole
    obtain ⟨-, hnil⟩ := List.cons.inj hback
    obtain rfl : back = [] := hnil.symm
    exact absurd (List.append_eq_nil_iff.mp hmore).2 hmissing

theorem utf8EncodeChar_replacementCharacter :
    String.utf8EncodeChar replacementCharacter = [239, 191, 189] := by
  decide

theorem replacement_part {part missing : Bytes} (hpart : part ≠ []) (hmissing : missing ≠ [])
    (hwhole : part ++ missing = String.utf8EncodeChar replacementCharacter) :
    part.length ≤ 2 ∧ fromUtf8Lossy part = [replacementCharacter] := by
  rw [utf8EncodeChar_replacementCharacter] at hwhole
  have hcases : part = [239] ∨ part = [239, 191] := by
    rcases part with _ | ⟨first, _ | ⟨second, _ | ⟨third, rest⟩⟩⟩
    · exact absurd rfl hpart
    · simp_all
    · simp_all
    · simp_all
  rcases hcases with rfl | rfl <;> decide

theorem exists_replacement_run (text : List Char) :
    ∃ count rest, text = List.replicate count replacementCharacter ++ rest ∧
      rest.head? ≠ some replacementCharacter := by
  induction text with
  | nil => exact ⟨0, [], rfl, nofun⟩
  | cons character text ih =>
    by_cases hcharacter : character = replacementCharacter
    · obtain ⟨count, rest, rfl, hrest⟩ := ih
      refine ⟨count + 1, rest, ?_, hrest⟩
      rw [hcharacter, List.replicate_succ, List.cons_append]
    · exact ⟨0, character :: text, rfl, by simpa using hcharacter⟩

def replacementTail : Nat → Bytes
  | 0 => []
  | count + 1 =>
    (if count % 3 = 0 then 189 else if count % 3 = 1 then 191 else 239) :: replacementTail count

theorem replacementTail_eq (count : Nat) :
    replacementTail (3 * count) = encodeUtf8 (List.replicate count replacementCharacter) := by
  induction count with
  | zero => rfl
  | succ count ih =>
    have hcount : 3 * (count + 1) = 3 * count + 1 + 1 + 1 := by omega
    have hfirst : (3 * count + 1 + 1) % 3 = 2 := by omega
    have hsecond : (3 * count + 1) % 3 = 1 := by omega
    have hthird : 3 * count % 3 = 0 := by omega
    rw [hcount, replacementTail, replacementTail, replacementTail, hfirst, hsecond, hthird, ih,
      List.replicate_succ, encodeUtf8_cons, utf8EncodeChar_replacementCharacter]
    rfl

theorem prefix_drop {front whole : Bytes} {taken : Nat} (h : front <+: whole)
    (htaken : taken ≤ front.length) : front.drop taken <+: whole.drop taken := by
  obtain ⟨rest, rfl⟩ := h
  rw [List.drop_append_of_le_length htaken]
  exact List.prefix_append _ _

theorem replacementTail_length (count : Nat) : (replacementTail count).length = count := by
  induction count with
  | zero => rfl
  | succ count ih => rw [replacementTail, List.length_cons, ih]

theorem byteLength_replicate (count : Nat) :
    byteLength (List.replicate count replacementCharacter) = 3 * count := by
  rw [byteLength, ← replacementTail_eq, replacementTail_length]

theorem drop_replacementTail {count taken : Nat} (htaken : taken ≤ count) :
    (replacementTail count).drop taken = replacementTail (count - taken) := by
  induction taken generalizing count with
  | zero => rfl
  | succ taken ih =>
    obtain ⟨count, rfl⟩ : ∃ smaller, count = smaller + 1 := ⟨count - 1, by omega⟩
    rw [replacementTail, List.drop_succ_cons, ih (by omega), Nat.add_sub_add_right]

theorem decodeCharacter_continuation {byte : UInt8} (hbyte : byte = 189 ∨ byte = 191)
    (rest : Bytes) : decodeCharacter (byte :: rest) = none := by
  cases hdecode : decodeCharacter (byte :: rest) with
  | none => rfl
  | some character =>
    have hsome : ((byte :: rest).toByteArray.utf8DecodeChar? 0).isSome = true := by
      rw [← decodeCharacter, hdecode]
      rfl
    have hfirst := ByteArray.isUTF8FirstByte_of_isSome_utf8DecodeChar? hsome
    rw [List.getElem_toByteArray, List.getElem_cons_zero] at hfirst
    rcases hbyte with rfl | rfl <;> exact absurd hfirst (by decide)

theorem invalidLength_continuation {byte : UInt8} (hbyte : byte = 189 ∨ byte = 191)
    (rest : Bytes) : invalidLength (byte :: rest) = 1 := by
  cases rest with
  | nil => rfl
  | cons second rest =>
    have hsecond : isSecondByte byte second = false := by
      rcases hbyte with rfl | rfl <;> simp [isSecondByte]
    rw [invalidLength, hsecond]
    rfl

/-- A piece that begins in a run of replacement characters begins with one when it
is decoded, which stands for at most three bytes. -/
theorem fromUtf8Lossy_replacementTail {count : Nat} (hcount : 0 < count) {piece more : Bytes}
    (hne : piece ≠ []) (hpiece : piece <+: replacementTail count ++ more) :
    ∃ taken, 0 < taken ∧ taken ≤ 3 ∧ taken ≤ count ∧ taken ≤ piece.length ∧
      fromUtf8Lossy piece = replacementCharacter :: fromUtf8Lossy (piece.drop taken) := by
  obtain ⟨byte, rest, rfl⟩ := List.exists_cons_of_ne_nil hne
  obtain ⟨count, rfl⟩ : ∃ smaller, count = smaller + 1 := ⟨count - 1, by omega⟩
  rw [replacementTail, List.cons_append, List.cons_prefix_cons] at hpiece
  obtain ⟨hbyte, hrest⟩ := hpiece
  have hcontinuation : byte = 189 ∨ byte = 191 →
      ∃ taken, 0 < taken ∧ taken ≤ 3 ∧ taken ≤ count + 1 ∧ taken ≤ (byte :: rest).length ∧
        fromUtf8Lossy (byte :: rest) =
          replacementCharacter :: fromUtf8Lossy ((byte :: rest).drop taken) := by
    intro hcases
    refine ⟨1, by omega, by omega, by omega, by simp, ?_⟩
    rw [fromUtf8Lossy_invalid hne (decodeCharacter_continuation hcases rest),
      invalidLength_continuation hcases]
  by_cases hlast : count % 3 = 0
  · exact hcontinuation (.inl (by rw [hbyte, if_pos hlast]))
  by_cases hmiddle : count % 3 = 1
  · exact hcontinuation (.inr (by rw [hbyte, if_neg hlast, if_pos hmiddle]))
  -- The piece begins with the first byte of a character, and may end within it.
  obtain ⟨count, rfl⟩ : ∃ smaller, count = smaller + 1 + 1 := ⟨count - 2, by omega⟩
  rw [if_neg hlast, if_neg hmiddle] at hbyte
  rw [replacementTail, if_neg (by omega), if_pos (by omega), replacementTail, if_pos (by omega)]
    at hrest
  subst hbyte
  cases rest with
  | nil => exact ⟨1, by omega, by omega, by omega, by simp, by decide⟩
  | cons second rest =>
    rw [List.cons_append, List.cons_prefix_cons] at hrest
    obtain ⟨rfl, hrest⟩ := hrest
    cases rest with
    | nil => exact ⟨2, by omega, by omega, by omega, by simp, by decide⟩
    | cons third rest =>
      rw [List.cons_append, List.cons_prefix_cons] at hrest
      obtain ⟨rfl, -⟩ := hrest
      refine ⟨3, by omega, by omega, by omega, by simp, ?_⟩
      have hkept := fromUtf8Lossy_character replacementCharacter rest
      rw [utf8EncodeChar_replacementCharacter] at hkept
      exact hkept

/-- Of a piece that begins in a run, replacement characters come out until the run
or the piece is at its end. -/
theorem fromUtf8Lossy_run (length : Nat) {count : Nat} {piece more : Bytes}
    (hlength : piece.length ≤ length) (hpiece : piece <+: replacementTail count ++ more) :
    ∃ made taken, taken ≤ 3 * made ∧ taken ≤ count ∧ taken ≤ piece.length ∧
      fromUtf8Lossy piece =
        List.replicate made replacementCharacter ++ fromUtf8Lossy (piece.drop taken) ∧
      (taken = count ∨ taken = piece.length) := by
  induction length generalizing count piece with
  | zero =>
    obtain rfl := List.length_eq_zero_iff.mp (Nat.le_zero.mp hlength)
    exact ⟨0, 0, by omega, by omega, by omega, rfl, .inr rfl⟩
  | succ length ih =>
    by_cases hempty : piece = []
    · subst hempty
      exact ⟨0, 0, by omega, by omega, by omega, rfl, .inr rfl⟩
    by_cases hcount : count = 0
    · exact ⟨0, 0, by omega, by omega, by omega, rfl, .inl hcount.symm⟩
    obtain ⟨first, hpos, hthree, hle, hfits, hfirst⟩ :=
      fromUtf8Lossy_replacementTail (Nat.pos_of_ne_zero hcount) hempty hpiece
    have hrest : piece.drop first <+: replacementTail (count - first) ++ more := by
      have hdropped := prefix_drop hpiece hfits
      have htail : first ≤ (replacementTail count).length := by
        rwa [replacementTail_length]
      rwa [List.drop_append_of_le_length htail, drop_replacementTail hle] at hdropped
    obtain ⟨made, taken, hmade, htaken, hinside, hout, hend⟩ :=
      ih (by rw [List.length_drop]; omega) hrest
    rw [List.length_drop] at hinside hend
    refine ⟨made + 1, first + taken, by omega, by omega, by omega, ?_, by omega⟩
    rw [hfirst, hout, List.drop_drop, List.replicate_succ, List.cons_append]

/-- Of pieces that begin in a run, replacement characters come out until the run is
at its end, or nothing else does. -/
theorem flatMap_fromUtf8Lossy_run {count : Nat} {pieces : List Bytes} {more : Bytes}
    (hpieces : pieces.flatten <+: replacementTail count ++ more) :
    ∃ made rest, pieces.flatMap fromUtf8Lossy =
        List.replicate made replacementCharacter ++ rest ∧ (count ≤ 3 * made ∨ rest = []) := by
  induction pieces generalizing count with
  | nil => exact ⟨0, [], rfl, .inr rfl⟩
  | cons piece pieces ih =>
    rw [List.flatten_cons] at hpieces
    obtain ⟨made, taken, hmade, htaken, hinside, hout, hend⟩ :=
      fromUtf8Lossy_run piece.length (Nat.le_refl _) ((List.prefix_append _ _).trans hpieces)
    rw [List.flatMap_cons, hout]
    by_cases hcount : taken = count
    · exact ⟨made, fromUtf8Lossy (piece.drop taken) ++ pieces.flatMap fromUtf8Lossy,
        List.append_assoc _ _ _, .inl (by omega)⟩
    · have hwhole : taken = piece.length := hend.resolve_left hcount
      have hrest : pieces.flatten <+: replacementTail (count - taken) ++ more := by
        have hdropped := @prefix_drop _ _ taken hpieces (by rw [List.length_append]; omega)
        have htail : taken ≤ (replacementTail count).length := by
          rwa [replacementTail_length]
        rwa [hwhole, List.drop_left, ← hwhole, List.drop_append_of_le_length htail,
          drop_replacementTail htaken] at hdropped
      obtain ⟨later, rest, hlater, hlast⟩ := ih hrest
      refine ⟨made + later, rest, ?_, hlast.imp_left fun hleft => by omega⟩
      rw [hwhole, List.drop_length, fromUtf8Lossy_nil, List.append_nil, hlater,
        ← List.append_assoc, List.replicate_append_replicate]

end KodeGpt.LossyTexts
