import KodeGpt.FrameCodec

/-!
The frames the control plane writes. A JavaScript value stands here as
`JSON.stringify` reads it: getters and `toJSON` methods have run, and a function
or symbol counts as undefined. A string is its UTF-16 code units.
-/

namespace KodeGpt.JsFrames

open JsonDocuments FrameCodec
open JsonText (Bytes)

/-- A finite number is the text that it is converted to. -/
inductive JsNumber where
  | finite (text : Numeral)
  | nonFinite

inductive JsValue where
  | undefined
  | null
  | boolean (value : Bool)
  | number (value : JsNumber)
  | bigint (value : Int)
  | string (units : List UInt16)
  | array (items : List JsValue)
  | object (members : List (List UInt16 × JsValue))

inductive EncodeError where
  | bigintUnserializable
  | jsonUnserializable
  | frameTooLarge
  deriving DecidableEq

def isSurrogate (code : UInt16) : Bool :=
  decide (IsHighSurrogate code ∨ IsLowSurrogate code)

def shortEscape (code : UInt16) : Option ShortEscape :=
  if code = 8 then some .backspace
  else if code = 9 then some .tab
  else if code = 10 then some .lineFeed
  else if code = 12 then some .formFeed
  else if code = 13 then some .carriageReturn
  else if code = 34 then some .quotationMark
  else if code = 92 then some .backslash
  else none

/-- A code unit that is not half of a pair. A surrogate is escaped, which keeps
the text well formed. -/
def quoteUnit (code : UInt16) : StringItem :=
  match shortEscape code with
  | some escape => .short escape
  | none =>
    if hplain : isSurrogate code = false ∧ IsPlain (Char.ofNat code.toNat) then
      .plain (Char.ofNat code.toNat) hplain.2
    else .unit code

theorem toNat_ofNat {code : Nat} (hvalid : code.isValidChar) : (Char.ofNat code).toNat = code := by
  rw [Char.ofNat, dif_pos hvalid]
  rfl

theorem pairCharacter_toNat {high low : UInt16} (hhigh : IsHighSurrogate high)
    (hlow : IsLowSurrogate low) :
    (pairCharacter high low).toNat =
      65536 + (high.toNat - 55296) * 1024 + (low.toNat - 56320) := by
  obtain ⟨hhigh, hhigh'⟩ := hhigh
  obtain ⟨hlow, hlow'⟩ := hlow
  apply toNat_ofNat
  refine Or.inr ⟨?_, ?_⟩ <;> omega

theorem pairCharacter_isPlain {high low : UInt16} (hhigh : IsHighSurrogate high)
    (hlow : IsLowSurrogate low) : IsPlain (pairCharacter high low) := by
  have hvalue := pairCharacter_toNat hhigh hlow
  refine ⟨by omega, ?_, ?_⟩
  · intro heq
    have hmark : quotationMark.toNat = 34 := rfl
    rw [heq] at hvalue
    omega
  · intro heq
    have hmark : backslash.toNat = 92 := rfl
    rw [heq] at hvalue
    omega

def quote : List UInt16 → List StringItem
  | [] => []
  | [code] => [quoteUnit code]
  | high :: low :: rest =>
    if hpair : IsHighSurrogate high ∧ IsLowSurrogate low then
      .plain (pairCharacter high low) (pairCharacter_isPlain hpair.1 hpair.2) :: quote rest
    else quoteUnit high :: quote (low :: rest)

/-- A text is taken character by character: a pair, or one code unit. -/
theorem units_induction {motive : List UInt16 → Prop} (nil : motive [])
    (last : ∀ code, motive [code])
    (pair : ∀ high low rest, IsHighSurrogate high ∧ IsLowSurrogate low → motive rest →
      motive (high :: low :: rest))
    (unit : ∀ high low rest, ¬ (IsHighSurrogate high ∧ IsLowSurrogate low) →
      motive (low :: rest) → motive (high :: low :: rest)) (text : List UInt16) : motive text :=
  quote.induct motive nil last pair unit text

def stringCharacters : List UInt16 → Option (List Char)
  | [] => some []
  | [code] => if isSurrogate code then none else some [Char.ofNat code.toNat]
  | high :: low :: rest =>
    if IsHighSurrogate high ∧ IsLowSurrogate low then
      (stringCharacters rest).map (pairCharacter high low :: ·)
    else if isSurrogate high then none
    else (stringCharacters (low :: rest)).map (Char.ofNat high.toNat :: ·)

def isWellFormed : List UInt16 → Bool
  | [] => true
  | [code] => !isSurrogate code
  | high :: low :: rest =>
    if IsHighSurrogate high ∧ IsLowSurrogate low then isWellFormed rest
    else !isSurrogate high && isWellFormed (low :: rest)

theorem stringCharacters_isSome (units : List UInt16) :
    (stringCharacters units).isSome = isWellFormed units := by
  induction units using stringCharacters.induct with
  | case1 => rfl
  | case2 code hsurrogate => simp [stringCharacters, isWellFormed, hsurrogate]
  | case3 code hsurrogate => simp [stringCharacters, isWellFormed, hsurrogate]
  | case4 high low rest hpair ih => simp [stringCharacters, isWellFormed, hpair, ih]
  | case5 high low rest hpair hsurrogate =>
    simp [stringCharacters, isWellFormed, hpair, hsurrogate]
  | case6 high low rest hpair hsurrogate ih =>
    simp [stringCharacters, isWellFormed, hpair, hsurrogate, ih]

theorem quoteUnit_surrogate {code : UInt16} (hsurrogate : isSurrogate code = true) :
    quoteUnit code = .unit code := by
  have hrange : 55296 ≤ code.toNat := by
    have hor := of_decide_eq_true hsurrogate
    unfold IsHighSurrogate IsLowSurrogate at hor
    omega
  have hshort : shortEscape code = none := by
    have hne : ∀ small : UInt16, small.toNat < 55296 → code ≠ small := by
      rintro small hsmall rfl
      omega
    simp only [shortEscape, if_neg (hne 8 (by decide)), if_neg (hne 9 (by decide)),
      if_neg (hne 10 (by decide)), if_neg (hne 12 (by decide)), if_neg (hne 13 (by decide)),
      if_neg (hne 34 (by decide)), if_neg (hne 92 (by decide))]
  simp [quoteUnit, hshort, hsurrogate]

/-- A code unit that is no surrogate is written as its character, or as an escape
of it. -/
theorem characters_quoteUnit {code : UInt16} (hsurrogate : isSurrogate code = false)
    (rest : List StringItem) :
    characters (quoteUnit code :: rest) =
      (characters rest).map (Char.ofNat code.toNat :: ·) := by
  have hneither := of_decide_eq_false hsurrogate
  cases hshort : shortEscape code with
  | some escape =>
    have hcharacter : escape.character = Char.ofNat code.toNat := by
      unfold shortEscape at hshort
      split_ifs at hshort with h1 h2 h3 h4 h5 h6 h7 <;>
        (obtain rfl := Option.some.inj hshort; subst code; rfl)
    simp [quoteUnit, hshort, characters, hcharacter]
  | none =>
    simp only [quoteUnit, hshort]
    split
    · rfl
    · obtain ⟨hhigh, hlow⟩ := not_or.mp hneither
      exact characters_unit hhigh hlow rest

theorem quote_head {code : UInt16} (hlow : ¬ IsLowSurrogate code) (rest : List UInt16) :
    ∀ item ∈ (quote (code :: rest)).head?, ∀ low, item = .unit low → ¬ IsLowSurrogate low := by
  have hunit : ∀ low, quoteUnit code = .unit low → ¬ IsLowSurrogate low := by
    intro low hquote
    unfold quoteUnit at hquote
    split at hquote
    · cases hquote
    · split at hquote
      · cases hquote
      · obtain rfl := StringItem.unit.inj hquote
        exact hlow
  cases rest with
  | nil =>
    intro item hitem
    obtain rfl := Option.some.inj hitem
    exact hunit
  | cons next rest =>
    intro item hitem
    rw [quote] at hitem
    split at hitem
    · obtain rfl := Option.some.inj hitem
      simp
    · obtain rfl := Option.some.inj hitem
      exact hunit

theorem characters_surrogate {code : UInt16} (hsurrogate : isSurrogate code = true)
    {rest : List StringItem}
    (hrest : IsHighSurrogate code →
      ∀ item ∈ rest.head?, ∀ low, item = .unit low → ¬ IsLowSurrogate low) :
    characters (quoteUnit code :: rest) = none := by
  rw [quoteUnit_surrogate hsurrogate]
  obtain hhigh | hlow := of_decide_eq_true hsurrogate
  · exact characters_highSurrogate hhigh (hrest hhigh)
  · exact characters_lowSurrogate hlow rest

/-- A string is written so that it reads back: no characters are lost, and a
surrogate on its own stays one. -/
theorem characters_quote (units : List UInt16) :
    characters (quote units) = stringCharacters units := by
  induction units using stringCharacters.induct with
  | case1 => rfl
  | case2 code hsurrogate =>
    rw [quote, stringCharacters, if_pos hsurrogate]
    exact characters_surrogate hsurrogate (by simp)
  | case3 code hsurrogate =>
    have hnot : isSurrogate code = false := by simpa using hsurrogate
    rw [quote, characters_quoteUnit hnot, stringCharacters, if_neg hsurrogate]
    rfl
  | case4 high low rest hpair ih =>
    rw [quote, dif_pos hpair, stringCharacters, if_pos hpair, characters, ih]
  | case5 high low rest hpair hsurrogate =>
    rw [quote, dif_neg hpair, stringCharacters, if_neg hpair, if_pos hsurrogate]
    apply characters_surrogate hsurrogate
    intro hhigh
    exact quote_head (fun hlow => hpair ⟨hhigh, hlow⟩) rest
  | case6 high low rest hpair hsurrogate ih =>
    have hnot : isSurrogate high = false := by simpa using hsurrogate
    rw [quote, dif_neg hpair, stringCharacters, if_neg hpair, if_neg hsurrogate,
      characters_quoteUnit hnot, ih]

namespace JsValue

mutual

/-- `JSON.stringify`, as the document whose text it returns. There is no text for
undefined, and the conversion of a bigint throws. -/
def stringify : JsValue → Except EncodeError (Option Document)
  | undefined => .ok none
  | null => .ok (some .null)
  | boolean value => .ok (some (.bool value))
  | number (.finite text) => .ok (some (.number text))
  | number .nonFinite => .ok (some .null)
  | bigint _ => .error .bigintUnserializable
  | string units => .ok (some (.string (quote units)))
  | array items => do
    let documents ← stringifyItems items
    return some (.array documents)
  | object members => do
    let documents ← stringifyMembers members
    return some (.object documents)

def stringifyItems : List JsValue → Except EncodeError (List Document)
  | [] => .ok []
  | item :: rest => do
    let document ← stringify item
    let documents ← stringifyItems rest
    return document.getD .null :: documents

def stringifyMembers :
    List (List UInt16 × JsValue) → Except EncodeError (List (List StringItem × Document))
  | [] => .ok []
  | (key, value) :: rest => do
    let document ← stringify value
    let documents ← stringifyMembers rest
    return (document.map fun document => (quote key, document)).toList ++ documents

end

mutual

def json : JsValue → Option Value
  | undefined => none
  | null => some .null
  | boolean value => some (.bool value)
  | number (.finite text) => some (.number text)
  | number .nonFinite => some .null
  | bigint _ => none
  | string units => (stringCharacters units).map .string
  | array items => (jsonItems items).map .array
  | object members => (jsonMembers members).map .object

def jsonItems : List JsValue → Option (List Value)
  | [] => some []
  | undefined :: rest => (jsonItems rest).map (.null :: ·)
  | item :: rest => do
    let value ← item.json
    let values ← jsonItems rest
    return value :: values

def jsonMembers : List (List UInt16 × JsValue) → Option (List (List Char × Value))
  | [] => some []
  | (_, undefined) :: rest => jsonMembers rest
  | (key, item) :: rest => do
    let name ← stringCharacters key
    let value ← item.json
    let values ← jsonMembers rest
    return (name, value) :: values

end

mutual

def wellFormed : JsValue → Bool
  | undefined => true
  | null => true
  | boolean _ => true
  | number _ => true
  | bigint _ => true
  | string units => isWellFormed units
  | array items => itemsWellFormed items
  | object members => membersWellFormed members

def itemsWellFormed : List JsValue → Bool
  | [] => true
  | item :: rest => item.wellFormed && itemsWellFormed rest

def membersWellFormed : List (List UInt16 × JsValue) → Bool
  | [] => true
  | (_, undefined) :: rest => membersWellFormed rest
  | (key, item) :: rest => isWellFormed key && item.wellFormed && membersWellFormed rest

end

mutual

def nesting : JsValue → Nat
  | undefined => 0
  | null => 0
  | boolean _ => 0
  | number _ => 0
  | bigint _ => 0
  | string _ => 0
  | array items => 1 + itemsNesting items
  | object members => 1 + membersNesting members

def itemsNesting : List JsValue → Nat
  | [] => 0
  | item :: rest => max item.nesting (itemsNesting rest)

def membersNesting : List (List UInt16 × JsValue) → Nat
  | [] => 0
  | (_, item) :: rest => max item.nesting (membersNesting rest)

end

end JsValue

namespace JsValue

/-- A document says what the value says, at the same depth. -/
structure Writes (document : Document) (value : JsValue) : Prop where
  json : document.value = value.json
  wellFormed : value.json.isSome = value.wellFormed
  nesting : document.nesting = value.nesting

structure WritesItems (documents : List Document) (items : List JsValue) : Prop where
  json : Document.itemValues documents = jsonItems items
  wellFormed : (jsonItems items).isSome = itemsWellFormed items
  nesting : Document.itemsNesting documents = itemsNesting items

structure WritesMembers (documents : List (List StringItem × Document))
    (members : List (List UInt16 × JsValue)) : Prop where
  json : Document.memberValues documents = jsonMembers members
  wellFormed : (jsonMembers members).isSome = membersWellFormed members
  nesting : Document.membersNesting documents = membersNesting members

theorem jsonItems_cons {item : JsValue} (hitem : item ≠ undefined) (rest : List JsValue) :
    jsonItems (item :: rest) = do
      let value ← item.json
      let values ← jsonItems rest
      return value :: values := by
  cases item with
  | undefined => exact absurd rfl hitem
  | _ => rfl

theorem jsonMembers_cons {item : JsValue} (hitem : item ≠ undefined) (key : List UInt16)
    (rest : List (List UInt16 × JsValue)) :
    jsonMembers ((key, item) :: rest) = do
      let name ← stringCharacters key
      let value ← item.json
      let values ← jsonMembers rest
      return (name, value) :: values := by
  cases item with
  | undefined => exact absurd rfl hitem
  | _ => rfl

theorem membersWellFormed_cons {item : JsValue} (hitem : item ≠ undefined) (key : List UInt16)
    (rest : List (List UInt16 × JsValue)) :
    membersWellFormed ((key, item) :: rest) =
      (isWellFormed key && item.wellFormed && membersWellFormed rest) := by
  cases item with
  | undefined => exact absurd rfl hitem
  | _ => rfl

theorem WritesItems.cons {document : Document} {item : JsValue} {documents : List Document}
    {items : List JsValue} (hitem : item ≠ undefined) (hfirst : Writes document item)
    (hrest : WritesItems documents items) : WritesItems (document :: documents) (item :: items) where
  json := by
    rw [jsonItems_cons hitem, Document.itemValues, hfirst.json, hrest.json]
  wellFormed := by
    rw [jsonItems_cons hitem, itemsWellFormed, ← hfirst.wellFormed, ← hrest.wellFormed]
    cases item.json <;> cases jsonItems items <;> rfl
  nesting := by
    rw [Document.itemsNesting, itemsNesting, hfirst.nesting, hrest.nesting]

theorem WritesItems.consUndefined {documents : List Document} {items : List JsValue}
    (hrest : WritesItems documents items) :
    WritesItems (.null :: documents) (undefined :: items) where
  json := by
    rw [jsonItems, Document.itemValues, hrest.json]
    cases jsonItems items <;> rfl
  wellFormed := by
    rw [jsonItems, itemsWellFormed, ← hrest.wellFormed]
    cases jsonItems items <;> rfl
  nesting := by
    rw [Document.itemsNesting, itemsNesting, hrest.nesting]
    rfl

theorem WritesMembers.cons {document : Document} {item : JsValue}
    {documents : List (List StringItem × Document)} {members : List (List UInt16 × JsValue)}
    (key : List UInt16) (hitem : item ≠ undefined) (hfirst : Writes document item)
    (hrest : WritesMembers documents members) :
    WritesMembers ((quote key, document) :: documents) ((key, item) :: members) where
  json := by
    rw [jsonMembers_cons hitem, Document.memberValues, hfirst.json, hrest.json,
      characters_quote]
  wellFormed := by
    rw [jsonMembers_cons hitem, membersWellFormed_cons hitem, ← hfirst.wellFormed,
      ← hrest.wellFormed, ← stringCharacters_isSome]
    cases stringCharacters key <;> cases item.json <;> cases jsonMembers members <;> rfl
  nesting := by
    rw [Document.membersNesting, membersNesting, hfirst.nesting, hrest.nesting]

theorem WritesMembers.consUndefined {documents : List (List StringItem × Document)}
    {members : List (List UInt16 × JsValue)} (key : List UInt16)
    (hrest : WritesMembers documents members) :
    WritesMembers documents ((key, undefined) :: members) where
  json := by
    rw [jsonMembers, hrest.json]
  wellFormed := by
    rw [jsonMembers, membersWellFormed, hrest.wellFormed]
  nesting := by
    rw [hrest.nesting, JsValue.membersNesting]
    exact (Nat.zero_max _).symm

mutual

theorem stringify_writes : ∀ (value : JsValue) {written : Option Document},
    value.stringify = .ok written →
      (written = none ∧ value = undefined) ∨
        ∃ document, written = some document ∧ value ≠ undefined ∧ Writes document value
  | undefined, written => by
    intro hwritten
    exact Or.inl ⟨(Except.ok.inj hwritten).symm, rfl⟩
  | null, written => by
    intro hwritten
    exact Or.inr ⟨_, (Except.ok.inj hwritten).symm, by simp, rfl, rfl, rfl⟩
  | boolean value, written => by
    intro hwritten
    exact Or.inr ⟨_, (Except.ok.inj hwritten).symm, by simp, rfl, rfl, rfl⟩
  | number (.finite text), written => by
    intro hwritten
    exact Or.inr ⟨_, (Except.ok.inj hwritten).symm, by simp, rfl, rfl, rfl⟩
  | number .nonFinite, written => by
    intro hwritten
    exact Or.inr ⟨_, (Except.ok.inj hwritten).symm, by simp, rfl, rfl, rfl⟩
  | bigint value, written => by
    intro hwritten
    cases hwritten
  | string units, written => by
    intro hwritten
    refine Or.inr ⟨_, (Except.ok.inj hwritten).symm, by simp, ?_, ?_, rfl⟩
    · rw [Document.value, characters_quote, json]
    · rw [json, Option.isSome_map, stringCharacters_isSome, wellFormed]
  | array items, written => by
    intro hwritten
    rw [stringify] at hwritten
    cases hitems : stringifyItems items with
    | error error =>
      rw [hitems] at hwritten
      cases hwritten
    | ok documents =>
      rw [hitems] at hwritten
      have hwrites := stringifyItems_writes items hitems
      refine Or.inr ⟨_, (Except.ok.inj hwritten).symm, by simp, ?_, ?_, ?_⟩
      · rw [Document.value, hwrites.json, json]
      · rw [json, Option.isSome_map, hwrites.wellFormed, wellFormed]
      · rw [Document.nesting, hwrites.nesting, nesting]
  | object members, written => by
    intro hwritten
    rw [stringify] at hwritten
    cases hmembers : stringifyMembers members with
    | error error =>
      rw [hmembers] at hwritten
      cases hwritten
    | ok documents =>
      rw [hmembers] at hwritten
      have hwrites := stringifyMembers_writes members hmembers
      refine Or.inr ⟨_, (Except.ok.inj hwritten).symm, by simp, ?_, ?_, ?_⟩
      · rw [Document.value, hwrites.json, json]
      · rw [json, Option.isSome_map, hwrites.wellFormed, wellFormed]
      · rw [Document.nesting, hwrites.nesting, nesting]

theorem stringifyItems_writes : ∀ (items : List JsValue) {documents : List Document},
    stringifyItems items = .ok documents → WritesItems documents items
  | [], documents => by
    intro hdocuments
    obtain rfl := Except.ok.inj hdocuments
    exact ⟨rfl, rfl, rfl⟩
  | item :: rest, documents => by
    intro hdocuments
    rw [stringifyItems] at hdocuments
    cases hitem : stringify item with
    | error error =>
      rw [hitem] at hdocuments
      cases hdocuments
    | ok written =>
      rw [hitem] at hdocuments
      cases hrest : stringifyItems rest with
      | error error =>
        rw [hrest] at hdocuments
        cases hdocuments
      | ok later =>
        rw [hrest] at hdocuments
        obtain rfl := Except.ok.inj hdocuments
        have hlater := stringifyItems_writes rest hrest
        obtain ⟨rfl, rfl⟩ | ⟨document, rfl, hne, hwrites⟩ := stringify_writes item hitem
        · exact hlater.consUndefined
        · exact WritesItems.cons hne hwrites hlater

theorem stringifyMembers_writes : ∀ (members : List (List UInt16 × JsValue))
    {documents : List (List StringItem × Document)},
    stringifyMembers members = .ok documents → WritesMembers documents members
  | [], documents => by
    intro hdocuments
    obtain rfl := Except.ok.inj hdocuments
    exact ⟨rfl, rfl, rfl⟩
  | (key, item) :: rest, documents => by
    intro hdocuments
    rw [stringifyMembers] at hdocuments
    cases hitem : stringify item with
    | error error =>
      rw [hitem] at hdocuments
      cases hdocuments
    | ok written =>
      rw [hitem] at hdocuments
      cases hrest : stringifyMembers rest with
      | error error =>
        rw [hrest] at hdocuments
        cases hdocuments
      | ok later =>
        rw [hrest] at hdocuments
        obtain rfl := Except.ok.inj hdocuments
        have hlater := stringifyMembers_writes rest hrest
        obtain ⟨rfl, rfl⟩ | ⟨document, rfl, hne, hwrites⟩ := stringify_writes item hitem
        · exact hlater.consUndefined key
        · exact WritesMembers.cons key hne hwrites hlater

end

end JsValue

def encodeFrame (value : JsValue) : Except EncodeError Bytes := do
  match ← value.stringify with
  | none => throw .jsonUnserializable
  | some document =>
    let body := document.bytes
    if maxFrameBytes < body.length then throw .frameTooLarge
    else return frameHeader body.length ++ body

theorem encodeFrame_ok {value : JsValue} {frame : Bytes} (hframe : encodeFrame value = .ok frame) :
    ∃ document, value.stringify = .ok (some document) ∧
      document.bytes.length ≤ maxFrameBytes ∧
      frame = frameHeader document.bytes.length ++ document.bytes := by
  unfold encodeFrame at hframe
  cases hstringify : value.stringify with
  | error error =>
    rw [hstringify] at hframe
    cases hframe
  | ok written =>
    cases written with
    | none =>
      rw [hstringify] at hframe
      cases hframe
    | some document =>
      rw [hstringify] at hframe
      change (if maxFrameBytes < document.bytes.length then throw .frameTooLarge
        else pure (frameHeader document.bytes.length ++ document.bytes) :
          Except EncodeError Bytes) = .ok frame at hframe
      split at hframe
      · cases hframe
      · next hsize =>
          exact ⟨document, rfl, Nat.le_of_not_lt hsize, (Except.ok.inj hframe).symm⟩

def asciiUnits (text : String) : List UInt16 :=
  text.toList.map fun character => character.toNat.toUInt16

theorem foldlM_whole {text : List Char} (hdigits : ∀ digit ∈ text, digit.isDigit = true) :
    text.foldlM NumeralState.next .whole = some .whole := by
  induction text with
  | nil => rfl
  | cons digit rest ih =>
    have hdigit : NumeralState.next .whole digit = some .whole := by
      rw [NumeralState.next, if_pos (hdigits digit List.mem_cons_self)]
      rfl
    rw [List.foldlM_cons, hdigit]
    exact ih fun later hlater => hdigits later (List.mem_cons_of_mem _ hlater)

theorem isNumeral_toDigits (value : Nat) : isNumeral (Nat.toDigits 10 value) = true := by
  have hdigits : ∀ digit ∈ Nat.toDigits 10 value, digit.isDigit = true :=
    fun digit => Nat.isDigit_of_mem_toDigits (by decide) (by decide)
  obtain rfl | hpos := Nat.eq_zero_or_pos value
  · decide
  · have hhead := toDigits_head_ne_zero hpos
    cases htext : Nat.toDigits 10 value with
    | nil => exact absurd htext Nat.toDigits_ne_nil
    | cons digit rest =>
      rw [htext] at hdigits hhead
      have hne : digit ≠ '0' := by simpa using hhead
      have hfirst : NumeralState.next .start digit = some .whole := by
        rw [NumeralState.next, if_pos (hdigits digit List.mem_cons_self),
          NumeralState.onDigit, if_neg hne]
      have hrest := foldlM_whole fun later hlater =>
        hdigits later (List.mem_cons_of_mem _ hlater)
      have hrun : (digit :: rest).foldlM NumeralState.next .start = some .whole := by
        rw [List.foldlM_cons, hfirst]
        exact hrest
      rw [isNumeral, hrun]
      rfl

def naturalNumber (value : Nat) : JsValue :=
  .number (.finite ⟨Nat.toDigits 10 value, isNumeral_toDigits value⟩)

def jsonLength (value : JsValue) : Nat :=
  match value.stringify with
  | .ok (some document) => document.bytes.length
  | _ => 0

def requestValue (requestId method : List UInt16) (params : JsValue) : JsValue :=
  .object [(asciiUnits "jsonrpc", .string (asciiUnits "2.0")),
    (asciiUnits "id", .string requestId),
    (asciiUnits "method", .string method),
    (asciiUnits "params", params)]

end KodeGpt.JsFrames
