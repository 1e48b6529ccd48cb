import KodeGpt.CanonicalForms

/-!
What a schema is canonicalized to: its strings and keys are normalized, and its objects
arranged.
-/

namespace KodeGpt.CanonicalSchemas

open JsonDocuments JsFrames JsObjects JsonReadback ProviderInventories CanonicalForms
open FallibleActions (bind_eq_ok_iff)

def toMember (entry : JsText × Canonical) : JsText × JsValue := (entry.1, entry.2.value)

theorem assignAll_members {entries : List (JsText × Canonical)} {output result : Output}
    (h : assignAll entries output = .ok result) :
    result.members =
      output.members ++ (entries.map toMember).filter fun member => member.1 ≠ protoKey := by
  induction entries generalizing output with
  | nil =>
    obtain rfl := Except.ok.inj h
    exact (List.append_nil _).symm
  | cons entry rest ih =>
    obtain ⟨key, canonical⟩ := entry
    obtain ⟨next, hnext, h⟩ := bind_eq_ok_iff.mp h
    have hfilter : ((toMember (key, canonical)) :: rest.map toMember).filter
        (fun member => member.1 ≠ protoKey) =
          (if key = protoKey then [] else [(key, canonical.value)]) ++
            (rest.map toMember).filter fun member => member.1 ≠ protoKey := by
      rw [List.filter_cons]
      by_cases hkey : key = protoKey <;> simp [hkey, toMember]
    rw [ih h, List.map_cons, hfilter]
    unfold assign at hnext
    split at hnext
    · rename_i hproto
      obtain rfl := Except.ok.inj hnext
      rw [if_pos hproto, List.nil_append]
    · rename_i hkey
      split at hnext
      · cases hnext
      · obtain rfl := Except.ok.inj hnext
        rw [if_neg hkey, List.append_assoc]

theorem map_sortKeys (entries : List (JsText × Canonical)) :
    (sortKeys entries).map toMember = sortMembers (entries.map toMember) :=
  List.map_mergeSort fun _ _ _ _ => rfl

section Normalizing

variable (normalize : JsText → JsText)

mutual

def normalForm : JsValue → JsValue
  | .undefined => .undefined
  | .null => .null
  | .boolean flag => .boolean flag
  | .number value => .number value
  | .bigint value => .bigint value
  | .string units => .string (normalize units)
  | .array items => .array (normalItems items)
  | .object members => .object (normalMembers members)

def normalItems : List JsValue → List JsValue
  | [] => []
  | item :: rest => normalForm item :: normalItems rest

def normalMembers : Members → Members
  | [] => []
  | (key, value) :: rest => (normalize key, normalForm value) :: normalMembers rest

end

variable {normalize}

theorem canonicalizeJson_array {items : List JsValue} {depth : Nat} {canonical : Canonical} :
    canonicalizeJson normalize (.array items) depth = .ok canonical ↔
      depth ≤ maxStructuralDepth ∧ ∃ values,
        canonicalizeItems normalize items (depth + 1) = .ok values ∧
          canonical = frozenArray values := by
  rw [canonicalizeJson]
  split
  · rename_i hdepth
    exact iff_of_false nofun fun h => absurd h.1 (Nat.not_le.mpr hdepth)
  · rename_i hdepth
    constructor
    · intro h
      obtain ⟨values, hvalues, h⟩ := bind_eq_ok_iff.mp h
      exact ⟨Nat.not_lt.mp hdepth, values, hvalues, (Except.ok.inj h).symm⟩
    · rintro ⟨-, values, hvalues, rfl⟩
      exact bind_eq_ok_iff.mpr ⟨values, hvalues, rfl⟩

theorem canonicalizeJson_object {members : Members} {depth : Nat} {canonical : Canonical} :
    canonicalizeJson normalize (.object members) depth = .ok canonical ↔
      depth ≤ maxStructuralDepth ∧ ∃ entries output,
        canonicalizeEntries normalize members (depth + 1) [] = .ok entries ∧
          assignAll (sortKeys entries) ⟨[], []⟩ = .ok output ∧ canonical = frozen output := by
  rw [canonicalizeJson]
  split
  · rename_i hdepth
    exact iff_of_false nofun fun h => absurd h.1 (Nat.not_le.mpr hdepth)
  · rename_i hdepth
    constructor
    · intro h
      obtain ⟨entries, hentries, h⟩ := bind_eq_ok_iff.mp h
      obtain ⟨output, houtput, h⟩ := bind_eq_ok_iff.mp h
      exact ⟨Nat.not_lt.mp hdepth, entries, output, hentries, houtput, (Except.ok.inj h).symm⟩
    · rintro ⟨-, entries, output, hentries, houtput, rfl⟩
      exact bind_eq_ok_iff.mpr ⟨entries, hentries, bind_eq_ok_iff.mpr ⟨output, houtput, rfl⟩⟩

theorem canonicalizeJson_leaf {value : JsValue} {depth : Nat} {canonical : Canonical}
    (hleaf : isLeaf value = true) (h : canonicalizeJson normalize value depth = .ok canonical) :
    canonical = ⟨normalForm normalize value, []⟩ ∧ IsJson (normalForm normalize value) := by
  rw [canonicalizeJson.eq_def] at h
  split at h
  · cases h
  · cases value with
    | undefined => cases h
    | null => exact ⟨(Except.ok.inj h).symm, trivial⟩
    | boolean flag => exact ⟨(Except.ok.inj h).symm, trivial⟩
    | number value =>
      cases value with
      | nonFinite => cases h
      | finite text =>
        dsimp only at h
        split at h
        · cases h
        · exact ⟨(Except.ok.inj h).symm, trivial⟩
    | bigint value => cases h
    | string units =>
      dsimp only at h
      split at h
      · cases h
      · exact ⟨(Except.ok.inj h).symm, trivial⟩
    | array items => cases hleaf
    | object members => cases hleaf

/-- What a value is canonicalized to: its normal form, arranged. -/
def Canonicalized (normalize : JsText → JsText) (value result : JsValue) : Prop :=
  result = arranged (normalForm normalize value) ∧ IsJson (normalForm normalize value)

theorem canonicalized_leaf {value : JsValue} {depth : Nat} {canonical : Canonical}
    (hleaf : isLeaf value = true) (h : canonicalizeJson normalize value depth = .ok canonical) :
    Canonicalized normalize value canonical.value := by
  obtain ⟨rfl, hjson⟩ := canonicalizeJson_leaf hleaf h
  refine ⟨?_, hjson⟩
  cases value with
  | array items => cases hleaf
  | object members => cases hleaf
  | _ => rfl

mutual

theorem canonicalizeJson_canonicalized : ∀ (value : JsValue) (depth : Nat) (canonical : Canonical),
    canonicalizeJson normalize value depth = .ok canonical →
      Canonicalized normalize value canonical.value
  | .array items, depth, canonical, h => by
    obtain ⟨-, values, hvalues, rfl⟩ := canonicalizeJson_array.mp h
    obtain ⟨rfl, hjson⟩ := canonicalizeItems_canonicalized items (depth + 1) values hvalues
    exact ⟨rfl, hjson⟩
  | .object members, depth, canonical, h => by
    obtain ⟨-, entries, output, hentries, houtput, rfl⟩ := canonicalizeJson_object.mp h
    obtain ⟨hmembers, hjson⟩ :=
      canonicalizeEntries_canonicalized members (depth + 1) [] entries hentries
    refine ⟨?_, hjson⟩
    rw [frozen, assignAll_members houtput, List.nil_append, map_sortKeys, hmembers, normalForm,
      arranged]
  | .undefined, _, _, h => canonicalized_leaf rfl h
  | .null, _, _, h => canonicalized_leaf rfl h
  | .boolean _, _, _, h => canonicalized_leaf rfl h
  | .number _, _, _, h => canonicalized_leaf rfl h
  | .bigint _, _, _, h => canonicalized_leaf rfl h
  | .string _, _, _, h => canonicalized_leaf rfl h

theorem canonicalizeItems_canonicalized : ∀ (items : List JsValue) (depth : Nat)
    (values : List JsValue), canonicalizeItems normalize items depth = .ok values →
      values = arrangedItems (normalItems normalize items) ∧ ItemsJson (normalItems normalize items)
  | [], _, _, h => ⟨(Except.ok.inj h).symm, trivial⟩
  | item :: rest, depth, values, h => by
    obtain ⟨canonical, hitem, h⟩ := bind_eq_ok_iff.mp h
    obtain ⟨later, hrest, h⟩ := bind_eq_ok_iff.mp h
    obtain rfl := Except.ok.inj h
    obtain ⟨hvalue, hjson⟩ := canonicalizeJson_canonicalized item depth canonical hitem
    obtain ⟨rfl, hjsons⟩ := canonicalizeItems_canonicalized rest depth later hrest
    rw [hvalue]
    exact ⟨rfl, hjson, hjsons⟩

theorem canonicalizeEntries_canonicalized : ∀ (members : Members) (depth : Nat)
    (keys : List JsText) (entries : List (JsText × Canonical)),
    canonicalizeEntries normalize members depth keys = .ok entries →
      entries.map toMember = arrangedMembers (normalMembers normalize members) ∧
        MembersJson (normalMembers normalize members)
  | [], _, _, _, h => by
    obtain rfl := Except.ok.inj h
    exact ⟨rfl, trivial⟩
  | (rawKey, rawValue) :: rest, depth, keys, entries, h => by
    rw [canonicalizeEntries] at h
    split at h
    · cases h
    · split at h
      · cases h
      · obtain ⟨canonical, hvalue, h⟩ := bind_eq_ok_iff.mp h
        obtain ⟨later, hrest, h⟩ := bind_eq_ok_iff.mp h
        obtain rfl := Except.ok.inj h
        obtain ⟨hvalue, hjson⟩ :=
          canonicalizeJson_canonicalized rawValue depth canonical hvalue
        obtain ⟨hlater, hjsons⟩ :=
          canonicalizeEntries_canonicalized rest depth (normalize rawKey :: keys) later hrest
        rw [List.map_cons, hlater, toMember, hvalue]
        exact ⟨rfl, hjson, hjsons⟩

end

end Normalizing

end KodeGpt.CanonicalSchemas
