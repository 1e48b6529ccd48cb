import KodeGpt.JsonText

/-!
JSON texts without white space as syntax trees: what a text says, how deep it
nests, and a reader that gets the tree back from the text. A string is a list
of items because an escape may name half of a surrogate pair, which stands
for no character.
-/

namespace KodeGpt.JsonDocuments

open JsonText (Bytes)

def quotationMark : Char := Char.ofNat 34

def backslash : Char := Char.ofNat 92

/-- The characters that stand for themselves in a string. -/
def IsPlain (character : Char) : Prop :=
  32 ≤ character.toNat ∧ character ≠ quotationMark ∧ character ≠ backslash

instance : DecidablePred IsPlain :=
  fun _ => inferInstanceAs (Decidable (_ ∧ _ ∧ _))

inductive ShortEscape where
  | quotationMark
  | backslash
  | slash
  | backspace
  | formFeed
  | lineFeed
  | carriageReturn
  | tab
  deriving DecidableEq

namespace ShortEscape

def letter : ShortEscape → Char
  | quotationMark => Char.ofNat 34
  | backslash => Char.ofNat 92
  | slash => '/'
  | backspace => 'b'
  | formFeed => 'f'
  | lineFeed => 'n'
  | carriageReturn => 'r'
  | tab => 't'

def character : ShortEscape → Char
  | quotationMark => Char.ofNat 34
  | backslash => Char.ofNat 92
  | slash => '/'
  | backspace => Char.ofNat 8
  | formFeed => Char.ofNat 12
  | lineFeed => Char.ofNat 10
  | carriageReturn => Char.ofNat 13
  | tab => Char.ofNat 9

def all : List ShortEscape :=
  [quotationMark, backslash, slash, backspace, formFeed, lineFeed, carriageReturn, tab]

def ofLetter (letter : Char) : Option ShortEscape :=
  all.find? fun escape => escape.letter = letter

theorem ofLetter_letter (escape : ShortEscape) : ofLetter escape.letter = some escape := by
  cases escape <;> decide

theorem letter_ne_u (escape : ShortEscape) : escape.letter ≠ 'u' := by
  cases escape <;> decide

end ShortEscape

/-- A piece of a string: a character, an escape by a letter, or an escape by
the four hexadecimal digits of a UTF-16 code unit. -/
inductive StringItem where
  | plain (character : Char) (hplain : IsPlain character)
  | short (escape : ShortEscape)
  | unit (code : UInt16)

def hexDigits (code : UInt16) : List Char :=
  [Nat.digitChar (code.toNat / 4096), Nat.digitChar (code.toNat / 256 % 16),
    Nat.digitChar (code.toNat / 16 % 16), Nat.digitChar (code.toNat % 16)]

def StringItem.text : StringItem → List Char
  | plain character _ => [character]
  | short escape => [backslash, escape.letter]
  | unit code => backslash :: 'u' :: hexDigits code

def itemsText (items : List StringItem) : List Char :=
  items.flatMap StringItem.text

def quoted (items : List StringItem) : List Char :=
  quotationMark :: itemsText items ++ [quotationMark]

def IsHighSurrogate (code : UInt16) : Prop :=
  55296 ≤ code.toNat ∧ code.toNat < 56320

def IsLowSurrogate (code : UInt16) : Prop :=
  56320 ≤ code.toNat ∧ code.toNat < 57344

instance : DecidablePred IsHighSurrogate :=
  fun _ => inferInstanceAs (Decidable (_ ∧ _))

instance : DecidablePred IsLowSurrogate :=
  fun _ => inferInstanceAs (Decidable (_ ∧ _))

def pairCharacter (high low : UInt16) : Char :=
  Char.ofNat (65536 + (high.toNat - 55296) * 1024 + (low.toNat - 56320))

/-- The characters a string stands for. There are none when a surrogate is not
half of a pair. -/
def characters : List StringItem → Option (List Char)
  | [] => some []
  | .plain character _ :: rest => (characters rest).map (character :: ·)
  | .short escape :: rest => (characters rest).map (escape.character :: ·)
  | .unit code :: rest =>
    if IsHighSurrogate code then
      match rest with
      | .unit low :: rest =>
        if IsLowSurrogate low then (characters rest).map (pairCharacter code low :: ·)
        else none
      | _ => none
    else if IsLowSurrogate code then none
    else (characters rest).map (Char.ofNat code.toNat :: ·)

theorem IsLowSurrogate.not_high {code : UInt16} (hlow : IsLowSurrogate code) :
    ¬ IsHighSurrogate code := by
  intro hhigh
  exact Nat.lt_irrefl _ (Nat.lt_of_lt_of_le hhigh.2 hlow.1)

theorem characters_unit {code : UInt16} (hhigh : ¬ IsHighSurrogate code)
    (hlow : ¬ IsLowSurrogate code) (rest : List StringItem) :
    characters (.unit code :: rest) = (characters rest).map (Char.ofNat code.toNat :: ·) := by
  cases rest with
  | nil => simp [characters, hhigh, hlow]
  | cons item rest => cases item <;> simp [characters, hhigh, hlow]

theorem characters_lowSurrogate {code : UInt16} (hlow : IsLowSurrogate code)
    (rest : List StringItem) : characters (.unit code :: rest) = none := by
  have hhigh := hlow.not_high
  cases rest with
  | nil => simp [characters, hhigh, hlow]
  | cons item rest => cases item <;> simp [characters, hhigh, hlow]

theorem characters_highSurrogate {code : UInt16} (hhigh : IsHighSurrogate code)
    {rest : List StringItem}
    (hrest : ∀ item ∈ rest.head?, ∀ low, item = .unit low → ¬ IsLowSurrogate low) :
    characters (.unit code :: rest) = none := by
  cases rest with
  | nil => simp [characters, hhigh]
  | cons item rest => cases item <;> simp_all [characters]

inductive NumeralState where
  | start
  | minus
  | zero
  | whole
  | point
  | fraction
  | exponent
  | exponentSign
  | exponentDigits
  deriving DecidableEq

def IsNumeralCharacter (character : Char) : Bool :=
  character.isDigit || character == '-' || character == '+' || character == '.' ||
    character == 'e' || character == 'E'

namespace NumeralState

def onDigit : NumeralState → Char → Option NumeralState
  | start, digit => some (if digit = '0' then zero else whole)
  | minus, digit => some (if digit = '0' then zero else whole)
  | zero, _ => none
  | whole, _ => some whole
  | point, _ => some fraction
  | fraction, _ => some fraction
  | exponent, _ => some exponentDigits
  | exponentSign, _ => some exponentDigits
  | exponentDigits, _ => some exponentDigits

def onSign : NumeralState → Char → Option NumeralState
  | start, sign => if sign = '-' then some minus else none
  | exponent, _ => some exponentSign
  | _, _ => none

def onPoint : NumeralState → Option NumeralState
  | zero => some point
  | whole => some point
  | _ => none

def onExponent : NumeralState → Option NumeralState
  | zero => some exponent
  | whole => some exponent
  | fraction => some exponent
  | _ => none

def next (state : NumeralState) (character : Char) : Option NumeralState :=
  if character.isDigit then state.onDigit character
  else if character = '-' ∨ character = '+' then state.onSign character
  else if character = '.' then state.onPoint
  else if character = 'e' ∨ character = 'E' then state.onExponent
  else none

def accepting : NumeralState → Bool
  | zero => true
  | whole => true
  | fraction => true
  | exponentDigits => true
  | _ => false

theorem next_numeralCharacter {state later : NumeralState} {character : Char}
    (hnext : state.next character = some later) : IsNumeralCharacter character = true := by
  unfold next at hnext
  split at hnext
  · simp_all [IsNumeralCharacter]
  · split at hnext
    · grind [IsNumeralCharacter]
    · split at hnext
      · simp_all [IsNumeralCharacter]
      · split at hnext
        · grind [IsNumeralCharacter]
        · simp at hnext

end NumeralState

def isNumeral (text : List Char) : Bool :=
  match text.foldlM NumeralState.next .start with
  | some state => state.accepting
  | none => false

structure Numeral where
  text : List Char
  valid : isNumeral text = true

theorem foldlM_numeralCharacters {text : List Char} {state later : NumeralState}
    (hrun : text.foldlM NumeralState.next state = some later) :
    ∀ character ∈ text, IsNumeralCharacter character = true := by
  induction text generalizing state with
  | nil =>
    intro character hmem
    exact absurd hmem List.not_mem_nil
  | cons head rest ih =>
    simp only [List.foldlM_cons, Option.bind_eq_bind, Option.bind_eq_some_iff] at hrun
    obtain ⟨middle, hhead, hrest⟩ := hrun
    intro character hmem
    obtain rfl | hmem := List.mem_cons.mp hmem
    · exact NumeralState.next_numeralCharacter hhead
    · exact ih hrest character hmem

namespace Numeral

theorem text_numeralCharacters (numeral : Numeral) :
    ∀ character ∈ numeral.text, IsNumeralCharacter character = true := by
  have hvalid := numeral.valid
  unfold isNumeral at hvalid
  split at hvalid
  · next state hrun => exact foldlM_numeralCharacters hrun
  · simp at hvalid

theorem text_ne_nil (numeral : Numeral) : numeral.text ≠ [] := by
  intro hnil
  have hvalid := numeral.valid
  rw [hnil] at hvalid
  exact absurd hvalid (by decide)

end Numeral

inductive Document where
  | null
  | bool (value : Bool)
  | number (numeral : Numeral)
  | string (items : List StringItem)
  | array (items : List Document)
  | object (members : List (List StringItem × Document))

/-- A JSON value. The members of an object stand in the order of the text. -/
inductive Value where
  | null
  | bool (value : Bool)
  | number (numeral : Numeral)
  | string (characters : List Char)
  | array (items : List Value)
  | object (members : List (List Char × Value))

namespace Document

mutual

def text : Document → List Char
  | null => "null".toList
  | bool true => "true".toList
  | bool false => "false".toList
  | number numeral => numeral.text
  | string items => quoted items
  | array [] => ['[', ']']
  | array (item :: rest) => '[' :: (item.text ++ moreItemsText rest)
  | object [] => ['{', '}']
  | object ((key, value) :: rest) =>
    '{' :: (quoted key ++ ':' :: (value.text ++ moreMembersText rest))

def moreItemsText : List Document → List Char
  | [] => [']']
  | item :: rest => ',' :: (item.text ++ moreItemsText rest)

def moreMembersText : List (List StringItem × Document) → List Char
  | [] => ['}']
  | (key, value) :: rest =>
    ',' :: (quoted key ++ ':' :: (value.text ++ moreMembersText rest))

end

mutual

def value : Document → Option Value
  | null => some .null
  | bool value => some (.bool value)
  | number numeral => some (.number numeral)
  | string items => (characters items).map .string
  | array items => (itemValues items).map .array
  | object members => (memberValues members).map .object

def itemValues : List Document → Option (List Value)
  | [] => some []
  | item :: rest => do
    let first ← item.value
    let values ← itemValues rest
    return first :: values

def memberValues : List (List StringItem × Document) → Option (List (List Char × Value))
  | [] => some []
  | (key, item) :: rest => do
    let name ← characters key
    let first ← item.value
    let values ← memberValues rest
    return (name, first) :: values

end

mutual

def nesting : Document → Nat
  | null => 0
  | bool _ => 0
  | number _ => 0
  | string _ => 0
  | array items => 1 + itemsNesting items
  | object members => 1 + membersNesting members

def itemsNesting : List Document → Nat
  | [] => 0
  | item :: rest => max item.nesting (itemsNesting rest)

def membersNesting : List (List StringItem × Document) → Nat
  | [] => 0
  | (_, value) :: rest => max value.nesting (membersNesting rest)

end

def bytes (document : Document) : Bytes :=
  document.text.flatMap String.utf8EncodeChar

end Document

def hexDigit (character : Char) : Option Nat :=
  if character.isDigit then some (character.toNat - 48)
  else if 97 ≤ character.toNat ∧ character.toNat ≤ 102 then some (character.toNat - 87)
  else if 65 ≤ character.toNat ∧ character.toNat ≤ 70 then some (character.toNat - 55)
  else none

def readUnit : List Char → Option (StringItem × List Char)
  | first :: second :: third :: fourth :: rest => do
    let a ← hexDigit first
    let b ← hexDigit second
    let c ← hexDigit third
    let d ← hexDigit fourth
    return (.unit (UInt16.ofNat (a * 4096 + b * 256 + c * 16 + d)), rest)
  | _ => none

def readEscape : List Char → Option (StringItem × List Char)
  | [] => none
  | letter :: rest =>
    if letter = 'u' then readUnit rest
    else (ShortEscape.ofLetter letter).map fun escape => (.short escape, rest)

def readItem : List Char → Option (StringItem × List Char)
  | [] => none
  | character :: rest =>
    if character = backslash then readEscape rest
    else if hplain : IsPlain character then some (.plain character hplain, rest)
    else none

def readItems : Nat → List Char → Option (List StringItem × List Char)
  | 0, _ => none
  | _ + 1, [] => none
  | fuel + 1, character :: rest =>
    if character = quotationMark then some ([], rest)
    else do
      let (item, rest) ← readItem (character :: rest)
      let (items, rest) ← readItems fuel rest
      return (item :: items, rest)

def readString (fuel : Nat) : List Char → Option (List StringItem × List Char)
  | [] => none
  | character :: rest =>
    if character = quotationMark then readItems fuel rest
    else none

def readNumeral (input : List Char) : Option (Document × List Char) :=
  if valid : isNumeral (input.takeWhile IsNumeralCharacter) = true then
    some (.number ⟨input.takeWhile IsNumeralCharacter, valid⟩,
      input.dropWhile IsNumeralCharacter)
  else none

def readLiteral (word : List Char) (document : Document) (input : List Char) :
    Option (Document × List Char) :=
  if word.isPrefixOf input then some (document, input.drop word.length) else none

def readColon : List Char → Option (List Char)
  | ':' :: rest => some rest
  | _ => none

mutual

def readValue : Nat → List Char → Option (Document × List Char)
  | 0, _ => none
  | _ + 1, [] => none
  | fuel + 1, character :: rest =>
    if character = 'n' then readLiteral "null".toList .null (character :: rest)
    else if character = 't' then readLiteral "true".toList (.bool true) (character :: rest)
    else if character = 'f' then readLiteral "false".toList (.bool false) (character :: rest)
    else if character = quotationMark then
      (readItems fuel rest).map fun found => (.string found.1, found.2)
    else if character = '[' then readArray fuel rest
    else if character = '{' then readObject fuel rest
    else readNumeral (character :: rest)

def readArray : Nat → List Char → Option (Document × List Char)
  | 0, _ => none
  | fuel + 1, input =>
    if input.head? = some ']' then some (.array [], input.tail)
    else do
      let (item, rest) ← readValue fuel input
      let (items, rest) ← readMoreItems fuel rest
      return (.array (item :: items), rest)

def readMoreItems : Nat → List Char → Option (List Document × List Char)
  | 0, _ => none
  | _ + 1, [] => none
  | fuel + 1, character :: rest =>
    if character = ']' then some ([], rest)
    else if character = ',' then do
      let (item, rest) ← readValue fuel rest
      let (items, rest) ← readMoreItems fuel rest
      return (item :: items, rest)
    else none

def readMember : Nat → List Char → Option ((List StringItem × Document) × List Char)
  | 0, _ => none
  | fuel + 1, input => do
    let (key, rest) ← readString fuel input
    let rest ← readColon rest
    let (value, rest) ← readValue fuel rest
    return ((key, value), rest)

def readObject : Nat → List Char → Option (Document × List Char)
  | 0, _ => none
  | fuel + 1, input =>
    if input.head? = some '}' then some (.object [], input.tail)
    else do
      let (member, rest) ← readMember fuel input
      let (members, rest) ← readMoreMembers fuel rest
      return (.object (member :: members), rest)

def readMoreMembers :
    Nat → List Char → Option (List (List StringItem × Document) × List Char)
  | 0, _ => none
  | _ + 1, [] => none
  | fuel + 1, character :: rest =>
    if character = '}' then some ([], rest)
    else if character = ',' then do
      let (member, rest) ← readMember fuel rest
      let (members, rest) ← readMoreMembers fuel rest
      return (member :: members, rest)
    else none

end

def readDocument (input : List Char) : Option Document :=
  match readValue (2 * input.length + 1) input with
  | some (document, []) => some document
  | _ => none

theorem hexDigit_digitChar {digit : Nat} (hdigit : digit < 16) :
    hexDigit (Nat.digitChar digit) = some digit := by
  have hall : ∀ value < 16, hexDigit (Nat.digitChar value) = some value := by decide
  exact hall digit hdigit

theorem readUnit_hexDigits (code : UInt16) (rest : List Char) :
    readUnit (hexDigits code ++ rest) = some (.unit code, rest) := by
  have hcode := code.toNat_lt
  have hvalue : code.toNat / 4096 * 4096 + code.toNat / 256 % 16 * 256 +
      code.toNat / 16 % 16 * 16 + code.toNat % 16 = code.toNat := by
    omega
  simp only [hexDigits, List.cons_append, List.nil_append, readUnit]
  rw [hexDigit_digitChar (by omega), hexDigit_digitChar (by omega),
    hexDigit_digitChar (by omega), hexDigit_digitChar (by omega)]
  simp only [Option.bind_eq_bind, Option.bind_some, Option.pure_def, hvalue,
    UInt16.ofNat_toNat]

theorem readItem_text (item : StringItem) (rest : List Char) :
    readItem (item.text ++ rest) = some (item, rest) := by
  cases item with
  | plain character hplain =>
    simp [StringItem.text, readItem, hplain.2.2, hplain]
  | short escape =>
    simp [StringItem.text, readItem, readEscape, escape.letter_ne_u,
      ShortEscape.ofLetter_letter]
  | unit code =>
    simp [StringItem.text, readItem, readEscape, readUnit_hexDigits]

theorem StringItem.text_head (item : StringItem) :
    ∃ character rest, item.text = character :: rest ∧ character ≠ quotationMark := by
  cases item with
  | plain character hplain => exact ⟨character, [], rfl, hplain.2.1⟩
  | short escape => exact ⟨backslash, [escape.letter], rfl, by decide⟩
  | unit code => exact ⟨backslash, 'u' :: hexDigits code, rfl, by decide⟩

theorem readItems_text {fuel : Nat} (items : List StringItem) (rest : List Char)
    (hfuel : (itemsText items).length < fuel) :
    readItems fuel (itemsText items ++ quotationMark :: rest) = some (items, rest) := by
  induction items generalizing fuel with
  | nil =>
    obtain ⟨fuel, rfl⟩ := Nat.exists_eq_succ_of_ne_zero (Nat.ne_of_gt hfuel)
    simp [itemsText, readItems]
  | cons item items ih =>
    obtain ⟨character, tail, htext, hcharacter⟩ := item.text_head
    have hitems : itemsText (item :: items) = item.text ++ itemsText items := rfl
    rw [hitems, htext] at hfuel
    simp only [List.length_append, List.length_cons] at hfuel
    obtain ⟨fuel, rfl⟩ := Nat.exists_eq_succ_of_ne_zero (Nat.ne_of_gt (Nat.lt_of_le_of_lt
      (Nat.zero_le _) hfuel))
    have hread := readItem_text item (itemsText items ++ quotationMark :: rest)
    rw [htext] at hread
    rw [hitems, htext]
    simp only [List.append_assoc, List.cons_append, readItems, if_neg hcharacter]
    simp only [List.cons_append] at hread
    have hlater : (itemsText items).length < fuel := by omega
    rw [hread]
    simp [ih hlater]

theorem readString_quoted {fuel : Nat} (items : List StringItem) (rest : List Char)
    (hfuel : (quoted items).length < fuel) :
    readString fuel (quoted items ++ rest) = some (items, rest) := by
  have hitems : (itemsText items).length < fuel := by
    simp [quoted] at hfuel
    omega
  simp [quoted, readString, readItems_text items rest hitems]

/-- The text goes on with no character of a number. -/
def EndsNumeral (rest : List Char) : Prop :=
  ∀ character ∈ rest.head?, IsNumeralCharacter character = false

theorem readNumeral_text (numeral : Numeral) {rest : List Char} (hrest : EndsNumeral rest) :
    readNumeral (numeral.text ++ rest) = some (.number numeral, rest) := by
  have hall := numeral.text_numeralCharacters
  have hnone : rest.takeWhile IsNumeralCharacter = [] := by
    cases rest with
    | nil => rfl
    | cons character rest => simp [hrest character rfl]
  have hkept : rest.dropWhile IsNumeralCharacter = rest := by
    cases rest with
    | nil => rfl
    | cons character rest => simp [hrest character rfl]
  have htake : (numeral.text ++ rest).takeWhile IsNumeralCharacter = numeral.text := by
    rw [List.takeWhile_append_of_pos hall, hnone, List.append_nil]
  have hdrop : (numeral.text ++ rest).dropWhile IsNumeralCharacter = rest := by
    rw [List.dropWhile_append_of_pos hall, hkept]
  simp only [readNumeral, htake, hdrop, numeral.valid, dite_true]

theorem readValue_numeral {fuel : Nat} (numeral : Numeral) {rest : List Char}
    (hrest : EndsNumeral rest) :
    readValue (fuel + 1) (numeral.text ++ rest) = some (.number numeral, rest) := by
  have hread := readNumeral_text numeral hrest
  have hall := numeral.text_numeralCharacters
  cases htext : numeral.text with
  | nil => exact absurd htext numeral.text_ne_nil
  | cons character tail =>
    rw [htext] at hread hall
    have hcharacter := hall character List.mem_cons_self
    have hne : ∀ other, IsNumeralCharacter other = false → character ≠ other := by
      rintro other hother rfl
      rw [hcharacter] at hother
      exact Bool.noConfusion hother
    simp only [List.cons_append] at hread ⊢
    simp only [readValue, if_neg (hne 'n' (by decide)), if_neg (hne 't' (by decide)),
      if_neg (hne 'f' (by decide)), if_neg (hne quotationMark (by decide)),
      if_neg (hne '[' (by decide)), if_neg (hne '{' (by decide)), hread]

theorem moreItemsText_endsNumeral (items : List Document) (rest : List Char) :
    EndsNumeral (Document.moreItemsText items ++ rest) := by
  intro character hhead
  cases items with
  | nil =>
    obtain rfl : ']' = character := by simpa [Document.moreItemsText] using hhead
    decide
  | cons item items =>
    obtain rfl : ',' = character := by simpa [Document.moreItemsText] using hhead
    decide

theorem moreMembersText_endsNumeral (members : List (List StringItem × Document))
    (rest : List Char) : EndsNumeral (Document.moreMembersText members ++ rest) := by
  intro character hhead
  cases members with
  | nil =>
    obtain rfl : '}' = character := by simpa [Document.moreMembersText] using hhead
    decide
  | cons member members =>
    obtain rfl : ',' = character := by simpa [Document.moreMembersText] using hhead
    decide

/-- The reader gets a document back from its text. -/
def ReadsBack (document : Document) : Prop :=
  ∀ (fuel : Nat) (rest : List Char), 2 * document.text.length < fuel → EndsNumeral rest →
    readValue fuel (document.text ++ rest) = some (document, rest)

theorem readMember_text {key : List StringItem} {value : Document} {fuel : Nat}
    {rest : List Char} (hback : ReadsBack value)
    (hfuel : 2 * (quoted key).length + 2 * value.text.length + 1 < fuel)
    (hrest : EndsNumeral rest) :
    readMember fuel (quoted key ++ ':' :: (value.text ++ rest)) = some ((key, value), rest) := by
  obtain ⟨fuel, rfl⟩ : ∃ less, fuel = less + 1 := ⟨fuel - 1, by omega⟩
  have hkey : (quoted key).length < fuel := by omega
  have hvalue : 2 * value.text.length < fuel := by omega
  simp [readMember, readString_quoted key _ hkey, readColon, hback fuel rest hvalue hrest]

theorem text_head_ne (document : Document) :
    ∃ character rest, document.text = character :: rest ∧ character ≠ ']' := by
  cases document with
  | null => exact ⟨'n', _, rfl, by decide⟩
  | bool value => cases value with
    | true => exact ⟨'t', _, rfl, by decide⟩
    | false => exact ⟨'f', _, rfl, by decide⟩
  | number numeral =>
    cases htext : numeral.text with
    | nil => exact absurd htext numeral.text_ne_nil
    | cons character rest =>
      refine ⟨character, rest, htext, ?_⟩
      rintro rfl
      have hnumeral := numeral.text_numeralCharacters ']' (by simp [htext])
      exact absurd hnumeral (by decide)
  | string items => exact ⟨quotationMark, _, rfl, by decide⟩
  | array items => cases items with
    | nil => exact ⟨'[', _, rfl, by decide⟩
    | cons item rest => exact ⟨'[', _, rfl, by decide⟩
  | object members => cases members with
    | nil => exact ⟨'{', _, rfl, by decide⟩
    | cons member rest => exact ⟨'{', _, rfl, by decide⟩

mutual

theorem readValue_text : ∀ document : Document, ReadsBack document
  | .null => by
    intro fuel rest hfuel hrest
    obtain ⟨fuel, rfl⟩ : ∃ less, fuel = less + 1 := ⟨fuel - 1, by omega⟩
    rfl
  | .bool true => by
    intro fuel rest hfuel hrest
    obtain ⟨fuel, rfl⟩ : ∃ less, fuel = less + 1 := ⟨fuel - 1, by omega⟩
    rfl
  | .bool false => by
    intro fuel rest hfuel hrest
    obtain ⟨fuel, rfl⟩ : ∃ less, fuel = less + 1 := ⟨fuel - 1, by omega⟩
    rfl
  | .number numeral => by
    intro fuel rest hfuel hrest
    obtain ⟨fuel, rfl⟩ : ∃ less, fuel = less + 1 := ⟨fuel - 1, by omega⟩
    exact readValue_numeral numeral hrest
  | .string items => by
    intro fuel rest hfuel hrest
    obtain ⟨fuel, rfl⟩ : ∃ less, fuel = less + 1 := ⟨fuel - 1, by omega⟩
    have hitems : (itemsText items).length < fuel := by
      simp [Document.text, quoted] at hfuel
      omega
    have hread := readItems_text items rest hitems
    simp only [Document.text, quoted, List.cons_append, List.append_assoc, List.nil_append]
    rw [readValue, if_neg (by decide), if_neg (by decide), if_neg (by decide), if_pos rfl,
      hread]
    rfl
  | .array [] => by
    intro fuel rest hfuel hrest
    obtain ⟨fuel, rfl⟩ : ∃ less, fuel = less + 2 := ⟨fuel - 2, by
      simp [Document.text] at hfuel
      omega⟩
    rfl
  | .array (item :: items) => by
    intro fuel rest hfuel hrest
    simp only [Document.text, List.length_cons, List.length_append] at hfuel
    obtain ⟨fuel, rfl⟩ : ∃ less, fuel = less + 2 := ⟨fuel - 2, by omega⟩
    have hitem := readValue_text item fuel (Document.moreItemsText items ++ rest) (by omega)
      (moreItemsText_endsNumeral items rest)
    have hitems := readMoreItems_text items fuel rest (by omega)
    obtain ⟨character, tail, htext, hcharacter⟩ := text_head_ne item
    have hhead : (item.text ++ (Document.moreItemsText items ++ rest)).head? ≠ some ']' := by
      simp [htext, hcharacter]
    simp only [Document.text, List.cons_append, List.append_assoc]
    rw [readValue, if_neg (by decide), if_neg (by decide), if_neg (by decide),
      if_neg (by decide), if_pos rfl, readArray, if_neg hhead, hitem]
    simp [hitems]
  | .object [] => by
    intro fuel rest hfuel hrest
    obtain ⟨fuel, rfl⟩ : ∃ less, fuel = less + 2 := ⟨fuel - 2, by
      simp [Document.text] at hfuel
      omega⟩
    rfl
  | .object ((key, value) :: members) => by
    intro fuel rest hfuel hrest
    simp only [Document.text, List.length_cons, List.length_append] at hfuel
    obtain ⟨fuel, rfl⟩ : ∃ less, fuel = less + 2 := ⟨fuel - 2, by omega⟩
    have hmember := @readMember_text key value fuel
      (Document.moreMembersText members ++ rest) (readValue_text value) (by omega)
      (moreMembersText_endsNumeral members rest)
    have hmembers := readMoreMembers_text members fuel rest (by omega)
    simp only [Document.text, List.cons_append, List.append_assoc]
    rw [readValue, if_neg (by decide), if_neg (by decide), if_neg (by decide),
      if_neg (by decide), if_neg (by decide), if_pos rfl, readObject, if_neg (by
        simp [quoted]
        decide), hmember]
    simp [hmembers]

theorem readMoreItems_text : ∀ (items : List Document) (fuel : Nat) (rest : List Char),
    2 * (Document.moreItemsText items).length < fuel →
      readMoreItems fuel (Document.moreItemsText items ++ rest) = some (items, rest)
  | [] => by
    intro fuel rest hfuel
    obtain ⟨fuel, rfl⟩ : ∃ less, fuel = less + 1 := ⟨fuel - 1, by omega⟩
    rfl
  | item :: items => by
    intro fuel rest hfuel
    simp only [Document.moreItemsText, List.length_cons, List.length_append] at hfuel
    obtain ⟨fuel, rfl⟩ : ∃ less, fuel = less + 1 := ⟨fuel - 1, by omega⟩
    have hitem := readValue_text item fuel (Document.moreItemsText items ++ rest) (by omega)
      (moreItemsText_endsNumeral items rest)
    have hitems := readMoreItems_text items fuel rest (by omega)
    simp only [Document.moreItemsText, List.cons_append, List.append_assoc]
    rw [readMoreItems, if_neg (by decide), if_pos rfl, hitem]
    simp [hitems]

theorem readMoreMembers_text :
    ∀ (members : List (List StringItem × Document)) (fuel : Nat) (rest : List Char),
      2 * (Document.moreMembersText members).length < fuel →
        readMoreMembers fuel (Document.moreMembersText members ++ rest) = some (members, rest)
  | [] => by
    intro fuel rest hfuel
    obtain ⟨fuel, rfl⟩ : ∃ less, fuel = less + 1 := ⟨fuel - 1, by omega⟩
    rfl
  | (key, value) :: members => by
    intro fuel rest hfuel
    simp only [Document.moreMembersText, List.length_cons, List.length_append] at hfuel
    obtain ⟨fuel, rfl⟩ : ∃ less, fuel = less + 1 := ⟨fuel - 1, by omega⟩
    have hmember := @readMember_text key value fuel
      (Document.moreMembersText members ++ rest) (readValue_text value) (by omega)
      (moreMembersText_endsNumeral members rest)
    have hmembers := readMoreMembers_text members fuel rest (by omega)
    simp only [Document.moreMembersText, List.cons_append, List.append_assoc]
    rw [readMoreMembers, if_neg (by decide), if_pos rfl, hmember]
    simp [hmembers]

end

theorem readDocument_text (document : Document) :
    readDocument document.text = some document := by
  have hread := readValue_text document (2 * document.text.length + 1) [] (by omega)
    (by simp [EndsNumeral])
  rw [List.append_nil] at hread
  rw [readDocument, hread]

def ofBytes (body : Bytes) : Option Document := do
  let text ← body.toByteArray.utf8Decode?
  readDocument text.toList

theorem ofBytes_bytes (document : Document) : ofBytes document.bytes = some document := by
  have htext : document.bytes.toByteArray.utf8Decode? = some document.text.toArray :=
    List.utf8Decode?_utf8Encode
  rw [ofBytes, htext]
  exact readDocument_text document

end KodeGpt.JsonDocuments
