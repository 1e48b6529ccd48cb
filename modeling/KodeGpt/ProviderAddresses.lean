import KodeGpt.InternetAddresses
import KodeGpt.ProviderExecutions

/-!
The addresses that a provider's host may have: none of the classes that are denied, in an
IPv4-mapped address neither. What other IPv6 addresses have in them is not looked at.
-/

namespace KodeGpt.ProviderAddresses

open FallibleActions InternetAddresses
open ProviderExecutions (Address Family Failure denied)

def quad (first second third fourth : Nat) : BitVec 32 :=
  BitVec.ofNat 32 (((first * 256 + second) * 256 + third) * 256 + fourth)

def deniedV4 : List (Subnet 32) :=
  [⟨quad 0 0 0 0, 8, by decide⟩, ⟨quad 10 0 0 0, 8, by decide⟩, ⟨quad 100 64 0 0, 10, by decide⟩,
    ⟨quad 127 0 0 0, 8, by decide⟩, ⟨quad 169 254 0 0, 16, by decide⟩,
    ⟨quad 172 16 0 0, 12, by decide⟩, ⟨quad 192 0 0 0, 24, by decide⟩,
    ⟨quad 192 168 0 0, 16, by decide⟩, ⟨quad 198 18 0 0, 15, by decide⟩,
    ⟨quad 224 0 0 0, 4, by decide⟩, ⟨quad 240 0 0 0, 4, by decide⟩]

def deniedV6 : List (Subnet 128) :=
  [⟨0, 128, by decide⟩, ⟨1, 128, by decide⟩, ⟨0xfc00#128 <<< 112, 7, by decide⟩,
    ⟨0xfe80#128 <<< 112, 10, by decide⟩, ⟨0xff00#128 <<< 112, 8, by decide⟩]

/-- `DENIED_PROVIDER_ADDRESSES.check`: an IPv4 address and its IPv4-mapped form are the same. -/
def isDeniedAddress : InternetAddress → Bool
  | .v4 address =>
    deniedV4.any (·.contains address) || deniedV6.any (·.contains (mapped address))
  | .v6 address =>
    deniedV6.any (·.contains address) ||
      (unmapped? address).any fun inner => deniedV4.any (·.contains inner)

/-- `isIP`: the family of an address, if the text is one. -/
def isIP (text : List Char) : Option Family :=
  match parseAddress text with
  | some (.v4 _) => some .v4
  | some (.v6 _) => some .v6
  | none => none

def mappedStart : List Char := "::ffff:".toList

def assertProviderInternetAddressAllowed (input : Address) : Except Failure Unit :=
  let text := input.address.toList
  if isIP text ≠ some input.family then
    .error (denied "Provider DNS returned an invalid address")
  else if input.family = .v6 ∧ mappedStart.isPrefixOf (text.map Char.toLower) = true then
    .error (denied "Provider DNS resolved to a denied IPv4-mapped IPv6 address")
  else if (parseAddress text).any isDeniedAddress then
    .error (denied "Provider DNS resolved to a denied address class")
  else .ok ()

def selectProviderInternetAddress (addresses : List Address) : Except Failure Address := do
  match addresses with
  | [] => .error (denied "Provider DNS returned no addresses")
  | first :: _ =>
    addresses.forM assertProviderInternetAddressAllowed
    .ok ((addresses.find? fun answer => answer.family = .v4).getD first)

structure AddressRange (width : Nat) where
  first : BitVec width
  last : BitVec width
  deriving DecidableEq

def AddressRange.Has {width : Nat} (range : AddressRange width) (address : BitVec width) : Prop :=
  range.first.toNat ≤ address.toNat ∧ address.toNat ≤ range.last.toNat

instance {width : Nat} (range : AddressRange width) (address : BitVec width) :
    Decidable (range.Has address) :=
  inferInstanceAs (Decidable (_ ∧ _))

/-- This network, private networks, shared addresses, the host itself, links, assignments of
protocols, benchmarks, multicast and reserved addresses. -/
def classesV4 : List (AddressRange 32) :=
  [⟨quad 0 0 0 0, quad 0 255 255 255⟩, ⟨quad 10 0 0 0, quad 10 255 255 255⟩,
    ⟨quad 100 64 0 0, quad 100 127 255 255⟩, ⟨quad 127 0 0 0, quad 127 255 255 255⟩,
    ⟨quad 169 254 0 0, quad 169 254 255 255⟩, ⟨quad 172 16 0 0, quad 172 31 255 255⟩,
    ⟨quad 192 0 0 0, quad 192 0 0 255⟩, ⟨quad 192 168 0 0, quad 192 168 255 255⟩,
    ⟨quad 198 18 0 0, quad 198 19 255 255⟩, ⟨quad 224 0 0 0, quad 239 255 255 255⟩,
    ⟨quad 240 0 0 0, quad 255 255 255 255⟩]

def classesV6 : List (AddressRange 128) :=
  [⟨0, 0⟩, ⟨1, 1⟩, ⟨0xfc00#128 <<< 112, (0xfe00#128 <<< 112) - 1⟩,
    ⟨0xfe80#128 <<< 112, (0xfec0#128 <<< 112) - 1⟩, ⟨0xff00#128 <<< 112, BitVec.allOnes 128⟩]

/-- The address belongs to a class that is denied. -/
def IsDenied : InternetAddress → Prop
  | .v4 address => ∃ range ∈ classesV4, range.Has address
  | .v6 address => ∃ range ∈ classesV6, range.Has address

theorem any_contains_iff {width : Nat} {subnets : List (Subnet width)}
    {classes : List (AddressRange width)}
    (h : subnets.map (fun subnet => (subnet.network.toNat, subnet.last)) =
      classes.map fun range => (range.first.toNat, range.last.toNat)) (address : BitVec width) :
    subnets.any (·.contains address) = true ↔ ∃ range ∈ classes, range.Has address := by
  rw [List.any_eq_true]
  constructor
  · rintro ⟨subnet, hsubnet, hcontains⟩
    have hmem : (subnet.network.toNat, subnet.last) ∈
        classes.map fun range => (range.first.toNat, range.last.toNat) :=
      h ▸ List.mem_map_of_mem hsubnet
    obtain ⟨range, hrange, heq⟩ := List.mem_map.mp hmem
    obtain ⟨hfirst, hlast⟩ := Prod.ext_iff.mp heq
    have hbounds := (subnet.contains_iff address).mp hcontains
    exact ⟨range, hrange, hfirst.trans_le hbounds.1, hbounds.2.trans_eq hlast.symm⟩
  · rintro ⟨range, hrange, hhas⟩
    have hmem : (range.first.toNat, range.last.toNat) ∈
        subnets.map fun subnet => (subnet.network.toNat, subnet.last) :=
      h ▸ List.mem_map_of_mem hrange
    obtain ⟨subnet, hsubnet, heq⟩ := List.mem_map.mp hmem
    obtain ⟨hfirst, hlast⟩ := Prod.ext_iff.mp heq
    exact ⟨subnet, hsubnet, (subnet.contains_iff address).mpr
      ⟨hfirst.trans_le hhas.1, hhas.2.trans_eq hlast.symm⟩⟩

theorem any_deniedV4_iff (address : BitVec 32) :
    deniedV4.any (·.contains address) = true ↔ IsDenied (.v4 address) :=
  any_contains_iff (by decide) address

theorem any_deniedV6_iff (address : BitVec 128) :
    deniedV6.any (·.contains address) = true ↔ IsDenied (.v6 address) :=
  any_contains_iff (by decide) address

theorem assertProviderInternetAddressAllowed_ok {input : Address}
    (h : assertProviderInternetAddressAllowed input = .ok ()) :
    ∃ address, parseAddress input.address.toList = some address ∧
      isDeniedAddress address = false := by
  rw [assertProviderInternetAddressAllowed] at h
  split at h
  · cases h
  · rename_i hfamily
    split at h
    · cases h
    · split at h
      · cases h
      · rename_i hdenied
        cases hparsed : parseAddress input.address.toList with
        | none =>
          rw [isIP, hparsed] at hfamily
          exact absurd nofun hfamily
        | some address =>
          rw [hparsed] at hdenied
          exact ⟨address, rfl, Bool.eq_false_iff.mpr hdenied⟩

theorem not_isDenied {address : InternetAddress} (h : isDeniedAddress address = false) :
    ¬IsDenied address ∧ ∀ inner, address = .v6 (mapped inner) → ¬IsDenied (.v4 inner) := by
  cases address with
  | v4 address =>
    rw [isDeniedAddress, Bool.or_eq_false_iff, Bool.eq_false_iff, Ne, any_deniedV4_iff] at h
    exact ⟨h.1, nofun⟩
  | v6 address =>
    rw [isDeniedAddress, Bool.or_eq_false_iff, Bool.eq_false_iff, Ne, any_deniedV6_iff] at h
    refine ⟨h.1, ?_⟩
    rintro inner heq
    obtain rfl := InternetAddress.v6.inj heq
    rw [unmapped?_mapped, Option.any_some, Bool.eq_false_iff, Ne, any_deniedV4_iff] at h
    exact h.2

theorem selectProviderInternetAddress_ok {answers : List Address} {selected : Address}
    (h : selectProviderInternetAddress answers = .ok selected) :
    selected ∈ answers ∧ ∀ answer ∈ answers,
      assertProviderInternetAddressAllowed answer = .ok () := by
  rw [selectProviderInternetAddress.eq_def] at h
  cases answers with
  | nil => cases h
  | cons first rest =>
    dsimp only at h
    obtain ⟨_, hall, h⟩ := bind_eq_ok_iff.mp h
    refine ⟨?_, forall_of_forM hall⟩
    rw [← Except.ok.inj h]
    cases hfound : (first :: rest).find? fun answer => answer.family = .v4 with
    | none => exact List.mem_cons_self
    | some found => exact List.mem_of_find?_eq_some hfound

def isAllowed (answer : Address) : Bool :=
  (assertProviderInternetAddressAllowed answer).isOk

/-- The address that is selected is in no class that is denied, as an IPv4-mapped address
neither. -/
theorem selectProviderInternetAddress_notDenied {answers : List Address} {selected : Address}
    (h : selectProviderInternetAddress answers = .ok selected) :
    selected ∈ answers ∧ ∃ address, parseAddress selected.address.toList = some address ∧
      ¬IsDenied address ∧ ∀ inner, address = .v6 (mapped inner) → ¬IsDenied (.v4 inner) := by
  obtain ⟨hmem, hall⟩ := selectProviderInternetAddress_ok h
  obtain ⟨address, hparsed, hdenied⟩ :=
    assertProviderInternetAddressAllowed_ok (hall selected hmem)
  exact ⟨hmem, address, hparsed, not_isDenied hdenied⟩

theorem selectProviderInternetAddress_notDenied_mixed :
    (⟨"2001:DB8::10", .v6⟩ : Address) ∈ [(⟨"2001:DB8::10", .v6⟩ : Address)] ∧
      ∃ address, parseAddress "2001:DB8::10".toList = some address ∧
        ¬IsDenied address ∧ ∀ inner, address = .v6 (mapped inner) → ¬IsDenied (.v4 inner) :=
  selectProviderInternetAddress_notDenied (by rfl)

/-- The IPv4 address of an IPv4-compatible address is not looked at. -/
theorem compatible_not_denied : ¬∀ (answers : List Address) (selected : Address),
    selectProviderInternetAddress answers = .ok selected →
      ∃ address, parseAddress selected.address.toList = some address ∧ ¬IsDenied address ∧
        ∀ outer inner, address = .v6 outer → Embeds outer inner → ¬IsDenied (.v4 inner) := by
  intro h
  obtain ⟨address, hparsed, -, hinner⟩ := h [⟨"::127.0.0.1", .v6⟩] ⟨"::127.0.0.1", .v6⟩ (by rfl)
  have haddress : parseAddress "::127.0.0.1".toList =
      some (.v6 (compatible (quad 127 0 0 1))) := by rfl
  obtain rfl := Option.some.inj (hparsed.symm.trans haddress)
  exact hinner _ (quad 127 0 0 1) rfl (.inr (.inl rfl))
    ⟨⟨quad 127 0 0 0, quad 127 255 255 255⟩, by decide, by decide⟩

end KodeGpt.ProviderAddresses
