import Mathlib.Algebra.Order.BigOperators.Group.List
import Mathlib.Algebra.Order.Group.Nat
import KodeGpt.LossyTexts

/-!
How many bytes the JSON text of a value takes: a string as many as its units
are escaped to, an array or an object the sum of its parts and what stands
between them.
-/

namespace KodeGpt.JsonSizes

open JsonDocuments JsFrames JsFrames.JsValue JsObjects
open LossyTexts (byteLength byteLength_nil byteLength_append byteLength_cons)

def escapedLength (text : JsText) : Nat :=
  byteLength (itemsText (quote text))

def isLongControl (code : UInt16) : Bool :=
  code < 32 && (shortEscape code).isNone

theorem byteLength_hexDigits (code : UInt16) : byteLength (hexDigits code) = 4 := by
  have hsize : ∀ digit < 16, (Nat.digitChar digit).utf8Size = 1 := by decide
  have hbound := code.toNat_lt
  rw [hexDigits, byteLength_cons, byteLength_cons, byteLength_cons, byteLength_cons, byteLength_nil,
    hsize _ (by omega), hsize _ (by omega), hsize _ (by omega), hsize _ (by omega)]

theorem byteLength_short (escape : ShortEscape) :
    byteLength (StringItem.short escape).text = 2 := by
  cases escape <;> decide

theorem byteLength_unit (code : UInt16) : byteLength (StringItem.unit code).text = 6 := by
  rw [StringItem.text, byteLength_cons, byteLength_cons, byteLength_hexDigits]
  decide

theorem byteLength_plain (character : Char) (hplain : IsPlain character) :
    byteLength (StringItem.plain character hplain).text = character.utf8Size := by
  rw [StringItem.text, byteLength_cons, byteLength_nil, Nat.add_zero]

theorem byteLength_item (item : StringItem) : byteLength item.text ≤ 6 := by
  cases item with
  | plain character hplain =>
    have hsize := character.utf8Size_le_four
    rw [byteLength_plain]
    omega
  | short escape => rw [byteLength_short]; decide
  | unit code => exact Nat.le_of_eq (byteLength_unit code)

theorem unitBytes_pos (code : UInt16) : 1 ≤ unitBytes code := by
  unfold unitBytes
  split
  · decide
  · split <;> decide

theorem toNat_ofNat_unit {code : UInt16} (hsurrogate : isSurrogate code = false) :
    (Char.ofNat code.toNat).toNat = code.toNat := by
  have hneither := of_decide_eq_false hsurrogate
  have hbound := code.toNat_lt
  unfold IsHighSurrogate IsLowSurrogate at hneither
  apply toNat_ofNat
  unfold Nat.isValidChar
  omega

theorem utf8Size_ofNat {code : UInt16} (hsurrogate : isSurrogate code = false) :
    (Char.ofNat code.toNat).utf8Size = unitBytes code := by
  have hbound := code.toNat_lt
  have hvalue : (Char.ofNat code.toNat).val.toNat = code.toNat := toNat_ofNat_unit hsurrogate
  unfold Char.utf8Size unitBytes
  simp only [UInt32.le_iff_toNat_le, UInt16.lt_iff_toNat_lt, hvalue, UInt32.toNat_ofNatLT,
    UInt16.reduceToNat]
  split_ifs <;> omega

theorem three_le_unitBytes {code : UInt16} (hcode : isLongControl code = false)
    (hshort : shortEscape code = none)
    (hescaped : ¬ (isSurrogate code = false ∧ IsPlain (Char.ofNat code.toNat))) :
    3 ≤ unitBytes code := by
  have hlarge : 32 ≤ code.toNat := by
    rw [isLongControl, hshort, Option.isNone_none, Bool.and_true] at hcode
    simpa [UInt16.lt_iff_toNat_lt] using hcode
  by_cases hsurrogate : isSurrogate code = true
  · have hrange := of_decide_eq_true hsurrogate
    unfold IsHighSurrogate IsLowSurrogate at hrange
    unfold unitBytes
    simp only [UInt16.lt_iff_toNat_lt, UInt16.reduceToNat]
    split_ifs <;> omega
  · have hsurrogate : isSurrogate code = false := by simpa using hsurrogate
    have hvalue := toNat_ofNat_unit hsurrogate
    have hspecial : code.toNat = 34 ∨ code.toNat = 92 := by
      by_contra hneither
      obtain ⟨hmark, hslash⟩ := not_or.mp hneither
      refine hescaped ⟨hsurrogate, by rw [hvalue]; exact hlarge, ?_, ?_⟩
      · intro heq
        exact hmark (by rw [← hvalue, heq]; rfl)
      · intro heq
        exact hslash (by rw [← hvalue, heq]; rfl)
    rcases hspecial with hmark | hslash
    · obtain rfl : code = 34 := UInt16.toNat_inj.mp hmark
      exact absurd hshort (by decide)
    · obtain rfl : code = 92 := UInt16.toNat_inj.mp hslash
      exact absurd hshort (by decide)

theorem byteLength_quoteUnit {code : UInt16} (hcode : isLongControl code = false) :
    byteLength (quoteUnit code).text ≤ 2 * unitBytes code := by
  have hpos := unitBytes_pos code
  unfold quoteUnit
  cases hshort : shortEscape code with
  | some escape =>
    dsimp only
    rw [byteLength_short]
    omega
  | none =>
    dsimp only
    split
    · rename_i hplain
      rw [byteLength_plain, utf8Size_ofNat hplain.1]
      omega
    · rename_i hescaped
      have hlong : 3 ≤ unitBytes code := three_le_unitBytes hcode hshort hescaped
      rw [byteLength_unit]
      omega

theorem escapedLength_pair {high low : UInt16}
    (hpair : IsHighSurrogate high ∧ IsLowSurrogate low) (rest : JsText) :
    escapedLength (high :: low :: rest) = 4 + escapedLength rest := by
  have hvalue := pairCharacter_toNat hpair.1 hpair.2
  have hsize : (pairCharacter high low).utf8Size = 4 := by
    have hcode : (pairCharacter high low).val.toNat =
        65536 + (high.toNat - 55296) * 1024 + (low.toNat - 56320) := hvalue
    unfold Char.utf8Size
    simp only [UInt32.le_iff_toNat_le, hcode, UInt32.toNat_ofNatLT]
    split_ifs <;> omega
  rw [escapedLength, quote, dif_pos hpair, itemsText, List.flatMap_cons, byteLength_append,
    byteLength_plain, hsize]
  rfl

theorem escapedLength_unit {high low : UInt16}
    (hpair : ¬ (IsHighSurrogate high ∧ IsLowSurrogate low)) (rest : JsText) :
    escapedLength (high :: low :: rest) =
      byteLength (quoteUnit high).text + escapedLength (low :: rest) := by
  rw [escapedLength, quote, dif_neg hpair, itemsText, List.flatMap_cons, byteLength_append]
  rfl

theorem escapedLength_last (code : UInt16) :
    escapedLength [code] = byteLength (quoteUnit code).text := by
  rw [escapedLength, quote, itemsText, List.flatMap_singleton]

theorem escapedLength_le_length (text : JsText) : escapedLength text ≤ 6 * text.length := by
  induction text using units_induction with
  | nil => exact Nat.le_refl _
  | last code =>
    rw [escapedLength_last]
    exact byteLength_item _
  | pair high low rest hpair ih =>
    rw [escapedLength_pair hpair, List.length_cons, List.length_cons]
    omega
  | unit high low rest hpair ih =>
    have hitem := byteLength_item (quoteUnit high)
    rw [escapedLength_unit hpair, List.length_cons]
    omega

theorem escapedLength_le {factor : Nat} (hfactor : 1 ≤ factor) {text : JsText}
    (htext : ∀ code ∈ text, byteLength (quoteUnit code).text ≤ factor * unitBytes code) :
    escapedLength text ≤ factor * utf8Length text := by
  induction text using units_induction with
  | nil => exact Nat.zero_le _
  | last code =>
    rw [escapedLength_last]
    exact htext code List.mem_cons_self
  | pair high low rest hpair ih =>
    have hrest := ih fun code hcode =>
      htext code (List.mem_cons_of_mem _ (List.mem_cons_of_mem _ hcode))
    rw [escapedLength_pair hpair, utf8Length, if_pos hpair, Nat.mul_add]
    omega
  | unit high low rest hpair ih =>
    have hfirst := htext high List.mem_cons_self
    have hrest := ih fun code hcode => htext code (List.mem_cons_of_mem _ hcode)
    rw [escapedLength_unit hpair, utf8Length, if_neg hpair, Nat.mul_add]
    omega

theorem escapedLength_le_six (text : JsText) : escapedLength text ≤ 6 * utf8Length text := by
  apply escapedLength_le (by decide)
  intro code _
  have hitem := byteLength_item (quoteUnit code)
  have hpos := unitBytes_pos code
  omega

theorem escapedLength_le_two {text : JsText} (htext : text.any isLongControl = false) :
    escapedLength text ≤ 2 * utf8Length text := by
  apply escapedLength_le (by decide)
  intro code hcode
  exact byteLength_quoteUnit (by simpa using List.any_eq_false.mp htext code hcode)

theorem escapedLength_eq {size : Nat} {text : JsText}
    (htext : ∀ code ∈ text,
      ¬ IsHighSurrogate code ∧ byteLength (quoteUnit code).text = size) :
    escapedLength text = text.length * size := by
  induction text using units_induction with
  | nil => rw [List.length_nil, Nat.zero_mul]; rfl
  | last code =>
    rw [escapedLength_last, (htext code List.mem_cons_self).2, List.length_singleton, Nat.one_mul]
  | pair high low rest hpair ih =>
    exact absurd hpair.1 (htext high List.mem_cons_self).1
  | unit high low rest hpair ih =>
    rw [escapedLength_unit hpair, (htext high List.mem_cons_self).2,
      ih fun code hcode => htext code (List.mem_cons_of_mem _ hcode)]
    simp only [List.length_cons, Nat.succ_mul]
    omega

def isPlainAscii (code : UInt16) : Bool :=
  34 < code && code < 127 && code ≠ 92

theorem escapedLength_plainAscii {text : JsText} (htext : text.all isPlainAscii = true) :
    escapedLength text = text.length := by
  have hcodes : ∀ value < 127, isPlainAscii (UInt16.ofNat value) = true →
      byteLength (quoteUnit (UInt16.ofNat value)).text = 1 := by decide
  have hunits : ∀ code ∈ text,
      ¬ IsHighSurrogate code ∧ byteLength (quoteUnit code).text = 1 := by
    intro code hcode
    have hplain := List.all_eq_true.mp htext code hcode
    have hsmall : code.toNat < 127 := by
      simp only [isPlainAscii, Bool.and_eq_true, decide_eq_true_eq, UInt16.lt_iff_toNat_lt,
        UInt16.reduceToNat] at hplain
      exact hplain.1.2
    refine ⟨fun hhigh => ?_, ?_⟩
    · have hrange := hhigh.1
      omega
    · have hsize := hcodes code.toNat hsmall
      rw [UInt16.ofNat_toNat] at hsize
      exact hsize hplain
  rw [escapedLength_eq hunits, Nat.mul_one]

/-- `JSON.stringify` gives a text for the value. -/
def HasText (value : JsValue) : Prop :=
  ∃ document, value.stringify = .ok (some document)

theorem jsonLength_of_stringify {value : JsValue} {document : Document}
    (h : value.stringify = .ok (some document)) : jsonLength value = byteLength document.text := by
  rw [jsonLength, h]
  rfl

theorem hasText_string (text : JsText) : HasText (.string text) := ⟨_, rfl⟩

theorem byteLength_quoted (items : List StringItem) :
    byteLength (quoted items) = byteLength (itemsText items) + 2 := by
  have hmark : quotationMark.utf8Size = 1 := by decide
  rw [quoted, List.cons_append, byteLength_cons, byteLength_append, byteLength_cons, byteLength_nil]
  omega

theorem jsonLength_string (text : JsText) : jsonLength (.string text) = escapedLength text + 2 := by
  rw [jsonLength_of_stringify (show JsValue.stringify (.string text) = _ from rfl)]
  exact byteLength_quoted (quote text)

theorem hasText_naturalNumber (value : Nat) : HasText (naturalNumber value) := ⟨_, rfl⟩

theorem byteLength_digits {digits : List Char}
    (hdigits : ∀ digit ∈ digits, digit.isDigit = true) : byteLength digits = digits.length := by
  induction digits with
  | nil => rfl
  | cons digit rest ih =>
    have hrange := Char.isDigit_iff_toNat.mp (hdigits digit List.mem_cons_self)
    have hsize : digit.utf8Size = 1 := by
      rw [Char.utf8Size_eq_one_iff, UInt32.le_iff_toNat_le]
      exact Nat.le_trans hrange.2 (by decide)
    have hrest := ih fun other hother => hdigits other (List.mem_cons_of_mem _ hother)
    rw [byteLength_cons, hsize, hrest, List.length_cons, Nat.add_comm]

theorem jsonLength_naturalNumber (value : Nat) :
    jsonLength (naturalNumber value) = (Nat.toDigits 10 value).length := by
  rw [jsonLength_of_stringify (show JsValue.stringify (naturalNumber value) = _ from rfl)]
  exact byteLength_digits fun digit => Nat.isDigit_of_mem_toDigits (by decide) (by decide)

theorem jsonLength_safeInteger {value : Nat} (hsafe : value ≤ maxSafeInteger + 1) :
    jsonLength (naturalNumber value) ≤ 16 := by
  rw [jsonLength_naturalNumber, Nat.length_toDigits_le_iff (by decide) (by decide)]
  unfold maxSafeInteger at hsafe
  omega

theorem byteLength_moreItemsText (items : List Document) :
    byteLength (Document.moreItemsText items) =
      1 + (items.map fun item => byteLength item.text + 1).sum := by
  induction items with
  | nil => decide
  | cons item rest ih =>
    have hcomma : ','.utf8Size = 1 := by decide
    rw [Document.moreItemsText, byteLength_cons, byteLength_append, ih, List.map_cons,
      List.sum_cons]
    omega

theorem byteLength_moreMembersText (members : List (List StringItem × Document)) :
    byteLength (Document.moreMembersText members) =
      1 + (members.map fun member =>
        byteLength (itemsText member.1) + byteLength member.2.text + 4).sum := by
  induction members with
  | nil => decide
  | cons member rest ih =>
    have hcomma : ','.utf8Size = 1 := by decide
    have hcolon : ':'.utf8Size = 1 := by decide
    rw [Document.moreMembersText, byteLength_cons, byteLength_append, byteLength_quoted,
      byteLength_cons, byteLength_append, ih, List.map_cons, List.sum_cons]
    omega

theorem byteLength_arrayText (items : List Document) :
    byteLength (Document.array items).text =
      max 2 (1 + (items.map fun item => byteLength item.text + 1).sum) := by
  cases items with
  | nil => decide
  | cons item rest =>
    have hbracket : '['.utf8Size = 1 := by decide
    rw [Document.text, byteLength_cons, byteLength_append, byteLength_moreItemsText,
      List.map_cons, List.sum_cons]
    omega

theorem byteLength_objectText (members : List (List StringItem × Document)) :
    byteLength (Document.object members).text =
      max 2 (1 + (members.map fun member =>
        byteLength (itemsText member.1) + byteLength member.2.text + 4).sum) := by
  cases members with
  | nil => decide
  | cons member rest =>
    have hbrace : '\x7b'.utf8Size = 1 := by decide
    have hcolon : ':'.utf8Size = 1 := by decide
    rw [Document.text, byteLength_cons, byteLength_append, byteLength_quoted, byteLength_cons,
      byteLength_append, byteLength_moreMembersText, List.map_cons, List.sum_cons]
    omega

theorem stringifyItems_sizes {items : List JsValue} (hitems : ∀ item ∈ items, HasText item) :
    ∃ documents, stringifyItems items = .ok documents ∧
      documents.map (fun document => byteLength document.text) = items.map jsonLength := by
  induction items with
  | nil => exact ⟨[], rfl, rfl⟩
  | cons item rest ih =>
    obtain ⟨document, hdocument⟩ := hitems item List.mem_cons_self
    obtain ⟨documents, hdocuments, hsizes⟩ := ih fun other hother =>
      hitems other (List.mem_cons_of_mem _ hother)
    refine ⟨document :: documents, ?_, ?_⟩
    · rw [stringifyItems, hdocument, hdocuments]
      rfl
    · rw [List.map_cons, List.map_cons, hsizes, jsonLength_of_stringify hdocument]

theorem stringifyMembers_sizes {members : List (JsText × JsValue)}
    (hmembers : ∀ member ∈ members, HasText member.2) :
    ∃ documents, stringifyMembers members = .ok documents ∧
      documents.map (fun entry => (byteLength (itemsText entry.1), byteLength entry.2.text)) =
        members.map fun entry => (escapedLength entry.1, jsonLength entry.2) := by
  induction members with
  | nil => exact ⟨[], rfl, rfl⟩
  | cons member rest ih =>
    obtain ⟨key, value⟩ := member
    obtain ⟨document, hdocument⟩ := hmembers (key, value) List.mem_cons_self
    obtain ⟨documents, hdocuments, hsizes⟩ := ih fun other hother =>
      hmembers other (List.mem_cons_of_mem _ hother)
    refine ⟨(quote key, document) :: documents, ?_, ?_⟩
    · rw [stringifyMembers, hdocument, hdocuments]
      rfl
    · rw [List.map_cons, List.map_cons, hsizes, jsonLength_of_stringify hdocument]
      rfl

theorem hasText_array {items : List JsValue} (hitems : ∀ item ∈ items, HasText item) :
    HasText (.array items) := by
  obtain ⟨documents, hdocuments, -⟩ := stringifyItems_sizes hitems
  refine ⟨.array documents, ?_⟩
  rw [stringify, hdocuments]
  rfl

theorem hasText_object {members : List (JsText × JsValue)}
    (hmembers : ∀ member ∈ members, HasText member.2) : HasText (.object members) := by
  obtain ⟨documents, hdocuments, -⟩ := stringifyMembers_sizes hmembers
  refine ⟨.object documents, ?_⟩
  rw [stringify, hdocuments]
  rfl

theorem jsonLength_array {items : List JsValue} (hitems : ∀ item ∈ items, HasText item) :
    jsonLength (.array items) = max 2 (1 + (items.map fun item => jsonLength item + 1).sum) := by
  obtain ⟨documents, hdocuments, hsizes⟩ := stringifyItems_sizes hitems
  have hstringify : JsValue.stringify (.array items) = .ok (some (.array documents)) := by
    rw [stringify, hdocuments]
    rfl
  have hsum := congrArg (List.map fun size => size + 1) hsizes
  rw [List.map_map, List.map_map] at hsum
  rw [jsonLength_of_stringify hstringify, byteLength_arrayText]
  exact congrArg (fun sizes => max 2 (1 + List.sum sizes)) hsum

theorem jsonLength_object {members : List (JsText × JsValue)}
    (hmembers : ∀ member ∈ members, HasText member.2) :
    jsonLength (.object members) =
      max 2 (1 + (members.map fun member =>
        escapedLength member.1 + jsonLength member.2 + 4).sum) := by
  obtain ⟨documents, hdocuments, hsizes⟩ := stringifyMembers_sizes hmembers
  have hstringify : JsValue.stringify (.object members) = .ok (some (.object documents)) := by
    rw [stringify, hdocuments]
    rfl
  have hsum := congrArg (List.map fun size : Nat × Nat => size.1 + size.2 + 4) hsizes
  rw [List.map_map, List.map_map] at hsum
  rw [jsonLength_of_stringify hstringify, byteLength_objectText]
  exact congrArg (fun sizes => max 2 (1 + List.sum sizes)) hsum

/-- Every field that is there has a text. -/
def FieldsHaveText (fields : Fields) : Prop :=
  ∀ field ∈ fields, ∀ value ∈ field.2, HasText value

theorem hasText_some {value : JsValue} (hvalue : HasText value) :
    ∀ found ∈ some value, HasText found := by
  rintro found ⟨rfl⟩
  exact hvalue

theorem hasText_map {α : Type} {write : α → JsValue} (hwrite : ∀ value, HasText (write value))
    (value : Option α) : ∀ found ∈ value.map write, HasText found := by
  intro found hfound
  obtain ⟨value, -, rfl⟩ := Option.map_eq_some_iff.mp hfound
  exact hwrite value

namespace FieldsHaveText

theorem nil : FieldsHaveText [] := nofun

theorem cons {key : JsText} {value : Option JsValue} {rest : Fields}
    (hvalue : ∀ found ∈ value, HasText found) (hrest : FieldsHaveText rest) :
    FieldsHaveText ((key, value) :: rest) :=
  List.forall_mem_cons.mpr ⟨hvalue, hrest⟩

theorem append {front back : Fields} (hfront : FieldsHaveText front)
    (hback : FieldsHaveText back) : FieldsHaveText (front ++ back) :=
  List.forall_mem_append.mpr ⟨hfront, hback⟩

end FieldsHaveText

def fieldLength (field : JsText × Option JsValue) : Nat :=
  (field.2.map fun value => escapedLength field.1 + jsonLength value + 4).getD 0

@[simp] theorem fieldLength_none (key : JsText) : fieldLength (key, none) = 0 := rfl

@[simp] theorem fieldLength_some (key : JsText) (value : JsValue) :
    fieldLength (key, some value) = escapedLength key + jsonLength value + 4 := rfl

theorem hasText_members {fields : Fields} (hfields : FieldsHaveText fields) :
    ∀ entry ∈ fields.filterMap (fun field => field.2.map fun value => (field.1, value)),
      HasText entry.2 := by
  intro entry hentry
  obtain ⟨field, hfield, hmap⟩ := List.mem_filterMap.mp hentry
  obtain ⟨value, hvalue, rfl⟩ := Option.map_eq_some_iff.mp hmap
  exact hfields field hfield value hvalue

theorem hasText_objectOf {fields : Fields} (hfields : FieldsHaveText fields) :
    HasText (objectOf fields) :=
  hasText_object (hasText_members hfields)

theorem jsonLength_objectOf {fields : Fields} (hfields : FieldsHaveText fields) :
    jsonLength (objectOf fields) = max 2 (1 + (fields.map fieldLength).sum) := by
  have hsum : ∀ fields : Fields, ((fields.filterMap fun field =>
      field.2.map fun value => (field.1, value)).map fun entry =>
        escapedLength entry.1 + jsonLength entry.2 + 4).sum = (fields.map fieldLength).sum := by
    intro fields
    induction fields with
    | nil => rfl
    | cons field rest ih =>
      obtain ⟨key, value⟩ := field
      cases value with
      | none => simpa [fieldLength] using ih
      | some value => simpa [fieldLength] using ih
  rw [objectOf, jsonLength_object (hasText_members hfields), hsum]

theorem fieldLength_le {fields : Fields} (hfields : FieldsHaveText fields)
    {field : JsText × Option JsValue} (hfield : field ∈ fields) :
    fieldLength field ≤ jsonLength (objectOf fields) := by
  have hmember := List.le_sum_of_mem (List.mem_map_of_mem (f := fieldLength) hfield)
  rw [jsonLength_objectOf hfields]
  omega

end KodeGpt.JsonSizes
