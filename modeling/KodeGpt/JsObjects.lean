import KodeGpt.JsFrames

/-!
Untyped JavaScript values as validators read them: the members of an object, its
keys, safe integers, and the UTF-8 length of a string. An object that is built
from optional fields has a member for each field that is there.
-/

namespace KodeGpt.JsObjects

open JsonDocuments JsFrames JsFrames.JsValue

/-- A string as its UTF-16 code units. -/
abbrev JsText := List UInt16

def member (value : JsValue) (key : JsText) : JsValue :=
  match value with
  | .object members =>
    match members.find? fun entry => entry.1 = key with
    | some entry => entry.2
    | none => .undefined
  | _ => .undefined

def isRecord : JsValue → Bool
  | .object _ => true
  | _ => false

/-- `Object.keys(value).every((key) => allowed.has(key))`. -/
def exactKeys (value : JsValue) (allowed : List JsText) : Bool :=
  match value with
  | .object members => members.all fun entry => allowed.contains entry.1
  | _ => false

def isUndefined : JsValue → Bool
  | .undefined => true
  | _ => false

abbrev Fields := List (JsText × Option JsValue)

def objectOf (fields : Fields) : JsValue :=
  .object (fields.filterMap fun field => field.2.map fun value => (field.1, value))

@[simp] theorem isRecord_objectOf (fields : Fields) : isRecord (objectOf fields) = true := rfl

theorem find?_members {fields : Fields} {key : JsText} {value : Option JsValue}
    (hkeys : (fields.map Prod.fst).Nodup) (hfield : (key, value) ∈ fields) :
    (fields.filterMap fun field => field.2.map fun value => (field.1, value)).find?
      (fun entry => entry.1 = key) = value.map fun value => (key, value) := by
  induction fields with
  | nil => exact absurd hfield List.not_mem_nil
  | cons field rest ih =>
    obtain ⟨hfirst, hrest⟩ := List.nodup_cons.mp (List.map_cons ▸ hkeys)
    obtain rfl | hlater := List.mem_cons.mp hfield
    · have habsent : (rest.filterMap fun field => field.2.map fun value => (field.1, value)).find?
          (fun entry => entry.1 = key) = none := by
        rw [List.find?_eq_none]
        intro entry hentry hkey
        obtain ⟨later, hlater, hmap⟩ := List.mem_filterMap.mp hentry
        obtain ⟨found, -, rfl⟩ := Option.map_eq_some_iff.mp hmap
        apply hfirst
        rw [← of_decide_eq_true hkey]
        exact List.mem_map.mpr ⟨later, hlater, rfl⟩
      cases value with
      | none => simpa using habsent
      | some value => simp
    · have hne : field.1 ≠ key := by
        intro heq
        apply hfirst
        rw [heq]
        exact List.mem_map_of_mem hlater
      obtain ⟨name, content⟩ := field
      cases content with
      | none => simpa using ih hrest hlater
      | some content => simpa [List.find?_cons, hne] using ih hrest hlater

theorem member_objectOf {fields : Fields} {key : JsText} {value : Option JsValue}
    (hkeys : (fields.map Prod.fst).Nodup) (hfield : (key, value) ∈ fields) :
    member (objectOf fields) key = value.getD .undefined := by
  rw [objectOf, member, find?_members hkeys hfield]
  cases value <;> rfl

theorem member_objectOf_some {fields : Fields} {key : JsText} {value : JsValue}
    (hkeys : (fields.map Prod.fst).Nodup) (hfield : (key, some value) ∈ fields) :
    member (objectOf fields) key = value :=
  member_objectOf hkeys hfield

theorem exactKeys_objectOf {fields : Fields} {allowed : List JsText}
    (hfields : ∀ field ∈ fields, field.1 ∈ allowed) : exactKeys (objectOf fields) allowed = true := by
  rw [objectOf, exactKeys, List.all_eq_true]
  intro entry hentry
  obtain ⟨field, hfield, hmap⟩ := List.mem_filterMap.mp hentry
  obtain ⟨found, -, rfl⟩ := Option.map_eq_some_iff.mp hmap
  simpa using hfields field hfield

/-- Both are left out, or both are written and stand for the same. -/
def Alike (left right : JsValue) : Prop :=
  (left = .undefined ∧ right = .undefined) ∨
    ∃ value, left.json = some value ∧ right.json = some value

def optionalValue (write : α → JsValue) : Option α → JsValue
  | some value => write value
  | none => .undefined

def maxSafeInteger : Nat := 2 ^ 53 - 1

def digitsValue (text : Numeral) : Nat := Nat.ofDigitChars 10 text.text 0

/-- The value, where `Number.isSafeInteger(value)` and it is positive. The text
of such a number is its digits. -/
def positiveSafeInteger : JsValue → Option Nat
  | .number (.finite text) =>
    if text.text.all Char.isDigit && decide (0 < digitsValue text) &&
        decide (digitsValue text ≤ maxSafeInteger) then
      some (digitsValue text)
    else none
  | _ => none

theorem positiveSafeInteger_naturalNumber {value : Nat} (hpos : 0 < value) :
    positiveSafeInteger (naturalNumber value) =
      if value ≤ maxSafeInteger then some value else none := by
  have hdigits : (Nat.toDigits 10 value).all Char.isDigit = true := by
    rw [List.all_eq_true]
    exact fun digit => Nat.isDigit_of_mem_toDigits (by decide) (by decide)
  rw [naturalNumber, positiveSafeInteger]
  simp only [digitsValue, hdigits, Nat.ofDigitChars_ten_toDigits, hpos, decide_true, Bool.true_and,
    decide_eq_true_eq]

theorem positiveSafeInteger_bounds {value : JsValue} {number : Nat}
    (h : positiveSafeInteger value = some number) : 0 < number ∧ number ≤ maxSafeInteger := by
  unfold positiveSafeInteger at h
  split at h
  · split at h
    · rename_i hbounds
      obtain rfl := Option.some.inj h
      simp only [Bool.and_eq_true, decide_eq_true_eq] at hbounds
      exact ⟨hbounds.1.2, hbounds.2⟩
    · cases h
  · cases h

/-- The bytes of a code unit that is not half of a pair; a surrogate on its own
is replaced by U+FFFD. -/
def unitBytes (code : UInt16) : Nat :=
  if code < 0x80 then 1 else if code < 0x800 then 2 else 3

/-- `Buffer.byteLength(value, "utf8")`. -/
def utf8Length : JsText → Nat
  | [] => 0
  | [code] => unitBytes code
  | high :: low :: rest =>
    if IsHighSurrogate high ∧ IsLowSurrogate low then 4 + utf8Length rest
    else unitBytes high + utf8Length (low :: rest)

/-- The characters that `for … of` takes from a string, each as its units. -/
def codePoints : JsText → List JsText
  | [] => []
  | [code] => [[code]]
  | high :: low :: rest =>
    if IsHighSurrogate high ∧ IsLowSurrogate low then [high, low] :: codePoints rest
    else [high] :: codePoints (low :: rest)

theorem codePoints_flatten (text : JsText) : (codePoints text).flatten = text := by
  induction text using units_induction with
  | nil => rfl
  | last code => rfl
  | pair high low rest hpair ih => rw [codePoints, if_pos hpair, List.flatten_cons, ih]; rfl
  | unit high low rest hpair ih => rw [codePoints, if_neg hpair, List.flatten_cons, ih]; rfl

/-- A string of at most so many bytes. -/
abbrev BoundedText (maxBytes : Nat) := { text : JsText // utf8Length text ≤ maxBytes }

section Validators

variable {ε α : Type} {read : JsValue → Except ε α} {write : α → JsValue}

def optional (read : JsValue → Except ε α) : JsValue → Except ε (Option α)
  | .undefined => .ok none
  | value => (read value).map some

theorem optional_write (hread : ∀ value, read (write value) = .ok value)
    (hdefined : ∀ value, write value ≠ .undefined) (value : Option α) :
    optional read ((value.map write).getD .undefined) = .ok value := by
  cases value with
  | none => rfl
  | some value =>
    have hvalue : optional read (write value) = (read (write value)).map some := by
      have hne := hdefined value
      cases hwritten : write value with
      | undefined => exact absurd hwritten hne
      | _ => rfl
    show optional read (write value) = .ok (some value)
    rw [hvalue, hread]
    rfl

def readAll (read : JsValue → Except ε α) :
    (items : List JsValue) → Except ε { values : List α // values.length = items.length }
  | [] => .ok ⟨[], rfl⟩
  | item :: rest => do
    let value ← read item
    let values ← readAll read rest
    return ⟨value :: values.val, by rw [List.length_cons, values.property, List.length_cons]⟩

theorem readAll_map (hread : ∀ value, read (write value) = .ok value) (values : List α) :
    readAll read (values.map write) = .ok ⟨values, (List.length_map write).symm⟩ := by
  induction values with
  | nil => rfl
  | cons value rest ih =>
    show readAll read (write value :: rest.map write) = _
    rw [readAll, hread, ih]
    rfl

def boundedArray (maxItems : Nat) (notArray tooMany : ε) (read : JsValue → Except ε α) :
    JsValue → Except ε { values : List α // values.length ≤ maxItems }
  | .array items =>
    if h : items.length ≤ maxItems then do
      let values ← readAll read items
      return ⟨values.val, le_of_eq_of_le values.property h⟩
    else .error tooMany
  | _ => .error notArray

theorem boundedArray_map {maxItems : Nat} {notArray tooMany : ε}
    (hread : ∀ value, read (write value) = .ok value)
    (values : { values : List α // values.length ≤ maxItems }) :
    boundedArray maxItems notArray tooMany read (.array (values.val.map write)) = .ok values := by
  have hlength : (values.val.map write).length ≤ maxItems := by
    rw [List.length_map]
    exact values.property
  rw [boundedArray, dif_pos hlength, readAll_map hread]
  rfl

end Validators

end KodeGpt.JsObjects
