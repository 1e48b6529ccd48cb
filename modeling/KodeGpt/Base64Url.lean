import KodeGpt.JsObjects

/-!
Base64 with the alphabet for URLs and without padding: how bytes are written as text and how
text is read back.
-/

namespace KodeGpt.Base64Url

open JsObjects
open JsonText (Bytes)

def digitUnit (digit : Nat) : UInt16 :=
  if digit < 26 then (65 + digit).toUInt16
  else if digit < 52 then (97 + (digit - 26)).toUInt16
  else if digit < 62 then (48 + (digit - 52)).toUInt16
  else if digit = 62 then 45
  else 95

def unitDigit (unit : UInt16) : Option Nat :=
  (List.range 64).find? fun digit => digitUnit digit = unit

theorem unitDigit_digitUnit {digit : Nat} (hdigit : digit < 64) :
    unitDigit (digitUnit digit) = some digit := by
  have hall : ∀ digit < 64, unitDigit (digitUnit digit) = some digit := by decide
  exact hall digit hdigit

def encode : Bytes → List Nat
  | x :: y :: z :: rest =>
    x.toNat / 4 :: (x.toNat % 4 * 16 + y.toNat / 16) :: (y.toNat % 16 * 4 + z.toNat / 64) ::
      z.toNat % 64 :: encode rest
  | [x, y] => [x.toNat / 4, x.toNat % 4 * 16 + y.toNat / 16, y.toNat % 16 * 4]
  | [x] => [x.toNat / 4, x.toNat % 4 * 16]
  | [] => []

def decode : List Nat → Bytes
  | a :: b :: c :: d :: rest =>
    (a * 4 + b / 16).toUInt8 :: (b % 16 * 16 + c / 4).toUInt8 :: (c % 4 * 64 + d).toUInt8 ::
      decode rest
  | [a, b, c] => [(a * 4 + b / 16).toUInt8, (b % 16 * 16 + c / 4).toUInt8]
  | [a, b] => [(a * 4 + b / 16).toUInt8]
  | _ => []

theorem encode_digits (bytes : Bytes) : ∀ digit ∈ encode bytes, digit < 64 := by
  induction bytes using encode.induct with
  | case1 x y z rest ih =>
    have hx := x.toNat_lt
    have hy := y.toNat_lt
    have hz := z.toNat_lt
    simp only [encode, List.forall_mem_cons]
    refine ⟨?_, ?_, ?_, ?_, ih⟩ <;> omega
  | case2 x y =>
    have hx := x.toNat_lt
    have hy := y.toNat_lt
    simp only [encode, List.forall_mem_cons]
    refine ⟨?_, ?_, ?_, nofun⟩ <;> omega
  | case3 x =>
    have hx := x.toNat_lt
    simp only [encode, List.forall_mem_cons]
    refine ⟨?_, ?_, nofun⟩ <;> omega
  | case4 => nofun

theorem encode_length (bytes : Bytes) : (encode bytes).length = (bytes.length * 8 + 5) / 6 := by
  induction bytes using encode.induct with
  | case1 x y z rest ih =>
    simp only [encode, List.length_cons, ih]
    omega
  | case2 x y => simp [encode]
  | case3 x => simp [encode]
  | case4 => rfl

theorem toUInt8_of_eq (byte : UInt8) {value : Nat} (h : value = byte.toNat) :
    value.toUInt8 = byte := by
  subst h
  simp

theorem decode_encode (bytes : Bytes) : decode (encode bytes) = bytes := by
  induction bytes using encode.induct with
  | case1 x y z rest ih =>
    have hx := x.toNat_lt
    have hy := y.toNat_lt
    have hz := z.toNat_lt
    rw [encode, decode, ih, toUInt8_of_eq x (by omega), toUInt8_of_eq y (by omega),
      toUInt8_of_eq z (by omega)]
  | case2 x y =>
    have hx := x.toNat_lt
    have hy := y.toNat_lt
    rw [encode, decode, toUInt8_of_eq x (by omega), toUInt8_of_eq y (by omega)]
  | case3 x =>
    have hx := x.toNat_lt
    rw [encode, decode, toUInt8_of_eq x (by omega)]
  | case4 => rfl

/-- `toString("base64url")` -/
def base64url (bytes : Bytes) : JsText := (encode bytes).map digitUnit

/-- `Buffer.from(text, "base64url")`, for a text of digits. -/
def fromBase64url (text : JsText) : Bytes := decode (text.filterMap unitDigit)

theorem fromBase64url_base64url (bytes : Bytes) : fromBase64url (base64url bytes) = bytes := by
  have hdigits : ∀ digits : List Nat, (∀ digit ∈ digits, digit < 64) →
      (digits.map digitUnit).filterMap unitDigit = digits := by
    intro digits hdigits
    rw [List.filterMap_map]
    refine (List.filterMap_congr ?_).trans List.filterMap_some
    intro digit hmem
    exact unitDigit_digitUnit (hdigits digit hmem)
  rw [fromBase64url, base64url, hdigits _ (encode_digits bytes), decode_encode]

theorem base64url_injective : Function.Injective base64url :=
  Function.LeftInverse.injective fromBase64url_base64url

theorem base64url_length (bytes : Bytes) : (base64url bytes).length = (bytes.length * 8 + 5) / 6 := by
  rw [base64url, List.length_map, encode_length]

theorem mem_base64url {bytes : Bytes} {unit : UInt16} (h : unit ∈ base64url bytes) :
    (unitDigit unit).isSome = true := by
  obtain ⟨digit, hdigit, rfl⟩ := List.mem_map.mp h
  rw [unitDigit_digitUnit (encode_digits bytes digit hdigit)]
  rfl

/-- The text of so many bytes, written as `base64url` writes it. -/
def isCanonicalBase64Url (value : JsText) (expectedBytes : Nat) : Bool :=
  value.length = (expectedBytes * 8 + 5) / 6 && (value.all fun unit => (unitDigit unit).isSome) &&
    (fromBase64url value).length = expectedBytes && base64url (fromBase64url value) = value

theorem isCanonicalBase64Url_iff {value : JsText} {expectedBytes : Nat} :
    isCanonicalBase64Url value expectedBytes = true ↔
      ∃ bytes : Bytes, bytes.length = expectedBytes ∧ value = base64url bytes := by
  simp only [isCanonicalBase64Url, Bool.and_eq_true, decide_eq_true_eq, List.all_eq_true]
  constructor
  · rintro ⟨⟨-, hlength⟩, hvalue⟩
    exact ⟨fromBase64url value, hlength, hvalue.symm⟩
  · rintro ⟨bytes, rfl, rfl⟩
    rw [fromBase64url_base64url]
    exact ⟨⟨⟨base64url_length bytes, fun unit hunit => mem_base64url hunit⟩, rfl⟩, rfl⟩

end KodeGpt.Base64Url
