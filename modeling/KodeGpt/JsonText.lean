import Mathlib.Data.UInt

/-!
The compact text of a JSON value, as bytes. Strings are the bytes of their
UTF-8 form.
-/

namespace KodeGpt.JsonText

abbrev Bytes := List UInt8

instance lawfulList {α : Type} [DecidableEq α] : LawfulBEq (List α) := inferInstance

def utf8 (text : String) : Bytes :=
  text.toUTF8.toList

inductive Json where
  | null
  | bool (value : Bool)
  | number (value : Int)
  | string (value : Bytes)
  | array (items : List Json)
  | object (members : List (Bytes × Json))

def hexDigit (digit : UInt8) : UInt8 :=
  if digit < 10 then 48 + digit else 87 + digit

def escapeByte (byte : UInt8) : Bytes :=
  if byte = 34 then [92, 34]
  else if byte = 92 then [92, 92]
  else if byte = 8 then [92, 98]
  else if byte = 9 then [92, 116]
  else if byte = 10 then [92, 110]
  else if byte = 12 then [92, 102]
  else if byte = 13 then [92, 114]
  else if byte < 32 then [92, 117, 48, 48, hexDigit (byte / 16), hexDigit (byte % 16)]
  else [byte]

def stringText (value : Bytes) : Bytes :=
  34 :: value.flatMap escapeByte ++ [34]

def digits (value : Nat) : Bytes :=
  (Nat.toDigits 10 value).map fun digit => digit.toNat.toUInt8

def numberText : Int → Bytes
  | .ofNat value => digits value
  | .negSucc value => 45 :: digits (value + 1)

def commaSeparated : List Bytes → Bytes
  | [] => []
  | [part] => part
  | part :: rest => part ++ 44 :: commaSeparated rest

namespace Json

mutual

def compact : Json → Bytes
  | null => [110, 117, 108, 108]
  | bool true => [116, 114, 117, 101]
  | bool false => [102, 97, 108, 115, 101]
  | number value => numberText value
  | string value => stringText value
  | array items => 91 :: commaSeparated (compactItems items) ++ [93]
  | object members => 123 :: commaSeparated (compactMembers members) ++ [125]

def compactItems : List Json → List Bytes
  | [] => []
  | item :: rest => compact item :: compactItems rest

def compactMembers : List (Bytes × Json) → List Bytes
  | [] => []
  | (key, value) :: rest => (stringText key ++ 58 :: compact value) :: compactMembers rest

end

end Json

def Json.member (key : Bytes) : Json → Option Json
  | .object members => (members.reverse.find? fun entry => entry.1 = key).map Prod.snd
  | _ => none

theorem Json.member_object {members : List (Bytes × Json)} {key : Bytes} {value : Json}
    (hkeys : (members.map Prod.fst).Nodup) (hmem : (key, value) ∈ members) :
    (Json.object members).member key = some value := by
  have hsome : (members.reverse.find? fun entry => entry.1 = key).isSome = true := by
    rw [List.find?_isSome]
    exact ⟨(key, value), List.mem_reverse.mpr hmem, by simp⟩
  obtain ⟨entry, hentry⟩ := Option.isSome_iff_exists.mp hsome
  have hkey : entry.1 = key := by simpa using List.find?_some hentry
  have hentryMem : entry ∈ members := List.mem_reverse.mp (List.mem_of_find?_eq_some hentry)
  have heq : entry = (key, value) := List.inj_on_of_nodup_map hkeys hentryMem hmem hkey
  rw [Json.member, hentry, heq]
  rfl

theorem escapeByte_newline (byte : UInt8) : 10 ∉ escapeByte byte := by
  have hall : ∀ value < 256, (10 : UInt8) ∉ escapeByte (UInt8.ofNat value) := by
    decide +kernel
  have hbyte := hall byte.toNat byte.toNat_lt
  rwa [UInt8.ofNat_toNat] at hbyte

theorem stringText_newline (value : Bytes) : 10 ∉ stringText value := by
  simp [stringText, escapeByte_newline]

theorem digits_newline (value : Nat) : 10 ∉ digits value := by
  intro hmem
  obtain ⟨digit, hdigit, heq⟩ := List.mem_map.mp hmem
  have hisDigit := Nat.isDigit_of_mem_toDigits (by decide) (by decide) hdigit
  obtain ⟨hlow, hhigh⟩ := Char.isDigit_iff_toNat.mp hisDigit
  change 48 ≤ digit.toNat at hlow
  change digit.toNat ≤ 57 at hhigh
  have hvalue := congrArg UInt8.toNat heq
  simp at hvalue
  omega

theorem numberText_newline (value : Int) : 10 ∉ numberText value := by
  cases value with
  | ofNat value => exact digits_newline value
  | negSucc value => simp [numberText, digits_newline]

theorem commaSeparated_newline {parts : List Bytes} (h : ∀ part ∈ parts, 10 ∉ part) :
    10 ∉ commaSeparated parts := by
  induction parts using commaSeparated.induct with
  | case1 => exact List.not_mem_nil
  | case2 part => exact h part List.mem_cons_self
  | case3 part rest hrest ih =>
    rw [commaSeparated]
    · simp [h part List.mem_cons_self, ih fun later hlater => h later (List.mem_cons_of_mem _ hlater)]
    · exact hrest

mutual

theorem compact_newline : ∀ value : Json, 10 ∉ value.compact
  | .null | .bool true | .bool false => by decide
  | .number value => numberText_newline value
  | .string value => stringText_newline value
  | .array items => by
    have hitems := commaSeparated_newline (compactItems_newline items)
    simp [Json.compact, hitems]
  | .object members => by
    have hmembers := commaSeparated_newline (compactMembers_newline members)
    simp [Json.compact, hmembers]

theorem compactItems_newline : ∀ items : List Json, ∀ part ∈ Json.compactItems items, 10 ∉ part
  | [] => by simp [Json.compactItems]
  | item :: rest => by
    have hitem := compact_newline item
    have hrest := compactItems_newline rest
    simpa [Json.compactItems, hitem] using hrest

theorem compactMembers_newline :
    ∀ members : List (Bytes × Json), ∀ part ∈ Json.compactMembers members, 10 ∉ part
  | [] => by simp [Json.compactMembers]
  | (key, value) :: rest => by
    have hvalue := compact_newline value
    have hkey := stringText_newline key
    have hrest := compactMembers_newline rest
    simpa [Json.compactMembers, hkey, hvalue] using hrest

end

end KodeGpt.JsonText
