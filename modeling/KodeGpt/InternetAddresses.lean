import KodeGpt.ListCuts
import Mathlib.Tactic.Ring

/-!
Internet addresses: their textual forms, subnets of them, and the IPv6 addresses that have an
IPv4 address in them.
-/

namespace KodeGpt.InternetAddresses

open ListCuts

/-- A subnet is a network address, whose other bits are zero, and the number of bits it has. -/
structure Subnet (width : Nat) where
  network : BitVec width
  size : Nat
  aligned : 2 ^ (width - size) ∣ network.toNat

section Subnets

variable {width : Nat}

def Subnet.contains (subnet : Subnet width) (address : BitVec width) : Bool :=
  address.toNat / 2 ^ (width - subnet.size) = subnet.network.toNat / 2 ^ (width - subnet.size)

def Subnet.last (subnet : Subnet width) : Nat :=
  subnet.network.toNat + (2 ^ (width - subnet.size) - 1)

/-- The addresses of a subnet are those from the network address to the last one. -/
theorem Subnet.contains_iff (subnet : Subnet width) (address : BitVec width) :
    subnet.contains address = true ↔
      subnet.network.toNat ≤ address.toNat ∧ address.toNat ≤ subnet.last := by
  obtain ⟨quotient, hquotient⟩ := subnet.aligned
  have hpositive : 0 < 2 ^ (width - subnet.size) := Nat.two_pow_pos _
  rw [Subnet.contains, Subnet.last, decide_eq_true_eq, hquotient,
    Nat.mul_div_cancel_left _ hpositive, Nat.div_eq_iff hpositive]
  constructor
  · rintro ⟨hlow, hhigh⟩
    rw [Nat.mul_comm] at hlow hhigh
    exact ⟨by omega, by omega⟩
  · rintro ⟨hlow, hhigh⟩
    rw [Nat.mul_comm quotient]
    exact ⟨by omega, by omega⟩

end Subnets

inductive InternetAddress where
  | v4 (address : BitVec 32)
  | v6 (address : BitVec 128)
  deriving DecidableEq

/-- `::ffff:a.b.c.d` -/
def mapped (address : BitVec 32) : BitVec 128 := (0xffff : BitVec 96) ++ address

/-- `::a.b.c.d` -/
def compatible (address : BitVec 32) : BitVec 128 := (0 : BitVec 96) ++ address

/-- `2002:aabb:ccdd::/48` -/
def sixToFour (address : BitVec 32) (rest : BitVec 80) : BitVec 128 :=
  (0x2002 : BitVec 16) ++ address ++ rest

/-- `64:ff9b::a.b.c.d` -/
def nat64 (address : BitVec 32) : BitVec 128 := (0x64ff9b0000000000000000 : BitVec 96) ++ address

def Embeds (address : BitVec 128) (inner : BitVec 32) : Prop :=
  address = mapped inner ∨ address = compatible inner ∨ (∃ rest, address = sixToFour inner rest) ∨
    address = nat64 inner

def unmapped? (address : BitVec 128) : Option (BitVec 32) :=
  if address.toNat / 2 ^ 32 = 0xffff then some (BitVec.ofNat 32 address.toNat) else none

theorem toNat_mapped (address : BitVec 32) :
    (mapped address).toNat = 0xffff * 2 ^ 32 + address.toNat := by
  rw [mapped, BitVec.toNat_append, ← Nat.shiftLeft_add_eq_or_of_lt address.isLt,
    Nat.shiftLeft_eq]
  rfl

theorem unmapped?_mapped (address : BitVec 32) : unmapped? (mapped address) = some address := by
  have hsmall := address.isLt
  have htop : (mapped address).toNat / 2 ^ 32 = 0xffff := by
    rw [toNat_mapped]
    omega
  have hlow : BitVec.ofNat 32 (mapped address).toNat = address := by
    apply BitVec.eq_of_toNat_eq
    rw [BitVec.toNat_ofNat, toNat_mapped]
    omega
  rw [unmapped?, if_pos htop, hlow]

def octet (text : List Char) : Option (BitVec 8) :=
  if text = [] ∨ text.all Char.isDigit = false ∨ (text.head? = some '0' ∧ text ≠ ['0']) then none
  else
    let value := Nat.ofDigitChars 10 text 0
    if 255 < value then none else some (BitVec.ofNat 8 value)

def parseV4 (text : List Char) : Option (BitVec 32) :=
  match (text.splitOn '.').mapM octet with
  | some [first, second, third, fourth] => some (first ++ second ++ third ++ fourth)
  | _ => none

def hexDigit (character : Char) : Option Nat :=
  if character.isDigit then some (character.toNat - '0'.toNat)
  else if 'a' ≤ character ∧ character ≤ 'f' then some (character.toNat - 'a'.toNat + 10)
  else if 'A' ≤ character ∧ character ≤ 'F' then some (character.toNat - 'A'.toNat + 10)
  else none

def hextet (text : List Char) : Option (BitVec 16) :=
  if text = [] ∨ 4 < text.length then none
  else (text.mapM hexDigit).map fun digits =>
    BitVec.ofNat 16 (digits.foldl (fun value digit => value * 16 + digit) 0)

def groupWords : List (List Char) → Option (List (BitVec 16))
  | [] => some []
  | [last] =>
    match hextet last with
    | some word => some [word]
    | none => (parseV4 last).map fun address =>
      [address.extractLsb' 16 16, address.extractLsb' 0 16]
  | group :: rest => do
    let word ← hextet group
    let words ← groupWords rest
    some (word :: words)

def colonGroups (text : List Char) : List (List Char) := if text = [] then [] else text.splitOn ':'

def parseWords (text : List Char) : Option (List (BitVec 16)) :=
  match cutFirst [':', ':'] text with
  | none => do
    let words ← groupWords (colonGroups text)
    if words.length = 8 then some words else none
  | some (front, back) => do
    let first ← (colonGroups front).mapM hextet
    let last ← groupWords (colonGroups back)
    if first.length + last.length < 8 then
      some (first ++ List.replicate (8 - first.length - last.length) 0 ++ last)
    else none

def isZoneCharacter (character : Char) : Bool :=
  character.isAlphanum || character = '-' || character = '.' || character = ':'

def parseV6 (text : List Char) : Option (BitVec 128) :=
  let zone := text.dropWhile (· ≠ '%')
  if zone ≠ [] ∧ (zone.tail = [] ∨ zone.tail.all isZoneCharacter = false) then none
  else
    (parseWords (text.takeWhile (· ≠ '%'))).map fun words =>
      BitVec.ofNat 128 (words.foldl (fun value word => value * 2 ^ 16 + word.toNat) 0)

def parseAddress (text : List Char) : Option InternetAddress :=
  match parseV4 text with
  | some address => some (.v4 address)
  | none => (parseV6 text).map .v6

end KodeGpt.InternetAddresses
