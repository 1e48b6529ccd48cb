import KodeGpt.JsFrames

/-!
The JSON values of the runtime and the text that `serde_json` writes for them.
What is known of its parser is a hypothesis: it nests no deeper than a limit,
and a number that it reads is the one that it would write again, which need not
be the numeral of the text.
-/

namespace KodeGpt.SerdeValues

open JsonDocuments
open JsonText (Bytes)
open JsFrames (shortEscape)

/-- A character as `format_escaped_str` writes it. -/
def escapeItem (character : Char) : StringItem :=
  if hplain : IsPlain character then .plain character hplain
  else match shortEscape character.toNat.toUInt16 with
    | some escape => .short escape
    | none => .unit character.toNat.toUInt16

mutual

/-- The document that `to_vec` writes. -/
def document : Value → Document
  | .null => .null
  | .bool value => .bool value
  | .number numeral => .number numeral
  | .string text => .string (text.map escapeItem)
  | .array items => .array (itemDocuments items)
  | .object members => .object (memberDocuments members)

def itemDocuments : List Value → List Document
  | [] => []
  | item :: rest => document item :: itemDocuments rest

def memberDocuments : List (List Char × Value) → List (List StringItem × Document)
  | [] => []
  | (key, item) :: rest => (key.map escapeItem, document item) :: memberDocuments rest

end

def toVec (value : Value) : Bytes :=
  (document value).bytes

mutual

def nesting : Value → Nat
  | .null => 0
  | .bool _ => 0
  | .number _ => 0
  | .string _ => 0
  | .array items => 1 + itemsNesting items
  | .object members => 1 + membersNesting members

def itemsNesting : List Value → Nat
  | [] => 0
  | item :: rest => max (nesting item) (itemsNesting rest)

def membersNesting : List (List Char × Value) → Nat
  | [] => 0
  | (_, item) :: rest => max (nesting item) (membersNesting rest)

end

mutual

def numerals : Value → List Numeral
  | .null => []
  | .bool _ => []
  | .number numeral => [numeral]
  | .string _ => []
  | .array items => itemNumerals items
  | .object members => memberNumerals members

def itemNumerals : List Value → List Numeral
  | [] => []
  | item :: rest => numerals item ++ itemNumerals rest

def memberNumerals : List (List Char × Value) → List Numeral
  | [] => []
  | (_, item) :: rest => numerals item ++ memberNumerals rest

end

mutual

def keysAscend : Value → Bool
  | .null => true
  | .bool _ => true
  | .number _ => true
  | .string _ => true
  | .array items => itemsAscend items
  | .object members =>
    decide ((members.map Prod.fst).Pairwise (· < ·)) && membersAscend members

def itemsAscend : List Value → Bool
  | [] => true
  | item :: rest => keysAscend item && itemsAscend rest

def membersAscend : List (List Char × Value) → Bool
  | [] => true
  | (_, item) :: rest => keysAscend item && membersAscend rest

end

/-- A value as the runtime holds it: an object is a map that is ordered by its
keys. -/
structure SerdeValue where
  value : Value
  ascending : keysAscend value = true

section Reading

variable (readNumber : Numeral → Option Numeral)

mutual

/-- The value with its numbers as they are read; none when a number is out of
range. -/
def readNumbers : Value → Option Value
  | .null => some .null
  | .bool value => some (.bool value)
  | .number numeral => (readNumber numeral).map .number
  | .string text => some (.string text)
  | .array items => (readItemNumbers items).map .array
  | .object members => (readMemberNumbers members).map .object

def readItemNumbers : List Value → Option (List Value)
  | [] => some []
  | item :: rest => do
    let first ← readNumbers item
    let later ← readItemNumbers rest
    return first :: later

def readMemberNumbers : List (List Char × Value) → Option (List (List Char × Value))
  | [] => some []
  | (key, item) :: rest => do
    let first ← readNumbers item
    let later ← readMemberNumbers rest
    return (key, first) :: later

end

/-- The parser reads the texts of values that nest no deeper than its limit and
refuses those that nest deeper. -/
structure SerdeJson (limit : Nat) (fromSlice : Bytes → Option Value) : Prop where
  reads : ∀ (document : Document) (value : Value), document.value = some value →
    keysAscend value = true → document.nesting ≤ limit →
      fromSlice document.bytes = readNumbers readNumber value
  refusesDeep : ∀ document : Document, limit < document.nesting →
    fromSlice document.bytes = none

def readJson (limit : Nat) (body : Bytes) : Option Value :=
  match ofBytes body with
  | none => none
  | some document =>
    if document.nesting ≤ limit then document.value.bind (readNumbers readNumber) else none

theorem readJson_serdeJson (limit : Nat) :
    SerdeJson readNumber limit (readJson readNumber limit) where
  reads := by
    intro document value hvalue hascend hnesting
    simp only [readJson, ofBytes_bytes, if_pos hnesting, hvalue, Option.bind_some]
  refusesDeep := by
    intro document hnesting
    simp only [readJson, ofBytes_bytes, if_neg (Nat.not_le.mpr hnesting)]

end Reading

theorem isPlain_of_large {character : Char} (hlarge : 128 ≤ character.toNat) :
    IsPlain character := by
  refine ⟨by omega, ?_, ?_⟩
  · rintro rfl
    exact absurd hlarge (by decide)
  · rintro rfl
    exact absurd hlarge (by decide)

theorem shortEscape_character : ∀ code < 128, ∀ escape ∈ shortEscape code.toUInt16,
    escape.character = Char.ofNat code := by
  decide

theorem smallCode : ∀ code < 128, ¬ IsHighSurrogate code.toUInt16 ∧
    ¬ IsLowSurrogate code.toUInt16 ∧ code.toUInt16.toNat = code := by
  decide

theorem characters_escapeItem (character : Char) (rest : List StringItem) :
    characters (escapeItem character :: rest) = (characters rest).map (character :: ·) := by
  unfold escapeItem
  split
  · rfl
  · next hescaped =>
      have hsmall : character.toNat < 128 := by
        by_contra hlarge
        exact hescaped (isPlain_of_large (Nat.le_of_not_lt hlarge))
      obtain ⟨hhigh, hlow, hcode⟩ := smallCode character.toNat hsmall
      split
      · next escape hescape =>
          have hsame := shortEscape_character character.toNat hsmall escape hescape
          rw [Char.ofNat_toNat] at hsame
          rw [characters, hsame]
      · rw [characters_unit hhigh hlow, hcode, Char.ofNat_toNat]

theorem characters_escaped (text : List Char) :
    characters (text.map escapeItem) = some text := by
  induction text with
  | nil => rfl
  | cons character rest ih =>
    rw [List.map_cons, characters_escapeItem, ih]
    rfl

mutual

theorem document_value : ∀ value : Value, (document value).value = some value
  | .null => rfl
  | .bool _ => rfl
  | .number _ => rfl
  | .string text => by
    rw [document, Document.value, characters_escaped]
    rfl
  | .array items => by
    rw [document, Document.value, itemDocuments_values items]
    rfl
  | .object members => by
    rw [document, Document.value, memberDocuments_values members]
    rfl

theorem itemDocuments_values : ∀ items : List Value,
    Document.itemValues (itemDocuments items) = some items
  | [] => rfl
  | item :: rest => by
    rw [itemDocuments, Document.itemValues, document_value item, itemDocuments_values rest]
    rfl

theorem memberDocuments_values : ∀ members : List (List Char × Value),
    Document.memberValues (memberDocuments members) = some members
  | [] => rfl
  | (key, item) :: rest => by
    rw [memberDocuments, Document.memberValues, characters_escaped, document_value item,
      memberDocuments_values rest]
    rfl

end

mutual

theorem document_nesting : ∀ value : Value, (document value).nesting = nesting value
  | .null => rfl
  | .bool _ => rfl
  | .number _ => rfl
  | .string _ => rfl
  | .array items => by
    rw [document, Document.nesting, itemDocuments_nesting items, nesting]
  | .object members => by
    rw [document, Document.nesting, memberDocuments_nesting members, nesting]

theorem itemDocuments_nesting : ∀ items : List Value,
    Document.itemsNesting (itemDocuments items) = itemsNesting items
  | [] => rfl
  | item :: rest => by
    rw [itemDocuments, Document.itemsNesting, document_nesting item, itemDocuments_nesting rest,
      itemsNesting]

theorem memberDocuments_nesting : ∀ members : List (List Char × Value),
    Document.membersNesting (memberDocuments members) = membersNesting members
  | [] => rfl
  | (key, item) :: rest => by
    rw [memberDocuments, Document.membersNesting, document_nesting item,
      memberDocuments_nesting rest, membersNesting]

end

section Reading

variable {readNumber : Numeral → Option Numeral}

/-- The number is read as the one that was written. -/
def Kept (readNumber : Numeral → Option Numeral) (numeral : Numeral) : Prop :=
  readNumber numeral = some numeral

theorem kept_append {first later : List Numeral} :
    (∀ numeral ∈ first ++ later, Kept readNumber numeral) ↔
      (∀ numeral ∈ first, Kept readNumber numeral) ∧
        ∀ numeral ∈ later, Kept readNumber numeral := by
  simp only [List.mem_append, or_imp, forall_and]

mutual

theorem readNumbers_self_iff : ∀ value : Value,
    readNumbers readNumber value = some value ↔
      ∀ numeral ∈ numerals value, Kept readNumber numeral
  | .null => by simp [readNumbers, numerals]
  | .bool _ => by simp [readNumbers, numerals]
  | .number numeral => by simp [readNumbers, numerals, Kept]
  | .string _ => by simp [readNumbers, numerals]
  | .array items => by
    simp [readNumbers, numerals, ← readItemNumbers_self_iff items]
  | .object members => by
    simp [readNumbers, numerals, ← readMemberNumbers_self_iff members]

theorem readItemNumbers_self_iff : ∀ items : List Value,
    readItemNumbers readNumber items = some items ↔
      ∀ numeral ∈ itemNumerals items, Kept readNumber numeral
  | [] => by simp [readItemNumbers, itemNumerals]
  | item :: rest => by
    rw [itemNumerals, kept_append, ← readNumbers_self_iff item, ← readItemNumbers_self_iff rest]
    simp [readItemNumbers, Option.bind_eq_some_iff]

theorem readMemberNumbers_self_iff : ∀ members : List (List Char × Value),
    readMemberNumbers readNumber members = some members ↔
      ∀ numeral ∈ memberNumerals members, Kept readNumber numeral
  | [] => by simp [readMemberNumbers, memberNumerals]
  | (key, item) :: rest => by
    rw [memberNumerals, kept_append, ← readNumbers_self_iff item,
      ← readMemberNumbers_self_iff rest]
    simp [readMemberNumbers, Option.bind_eq_some_iff]

end

/-- The value comes back from its text exactly when it nests no deeper than the
limit and keeps its numbers. -/
theorem fromSlice_toVec_iff {limit : Nat} {fromSlice : Bytes → Option Value}
    (hserde : SerdeJson readNumber limit fromSlice) (value : SerdeValue) :
    fromSlice (toVec value.value) = some value.value ↔
      nesting value.value ≤ limit ∧ ∀ numeral ∈ numerals value.value, Kept readNumber numeral := by
  have hnesting := document_nesting value.value
  by_cases hlimit : nesting value.value ≤ limit
  · rw [toVec, hserde.reads _ _ (document_value value.value) value.ascending (by rwa [hnesting]),
      readNumbers_self_iff]
    exact ⟨fun hkept => ⟨hlimit, hkept⟩, And.right⟩
  · rw [toVec, hserde.refusesDeep _ (by rw [hnesting]; exact Nat.lt_of_not_le hlimit)]
    exact ⟨fun hnone => (by cases hnone), fun hshallow => absurd hshallow.1 hlimit⟩

end Reading

end KodeGpt.SerdeValues
