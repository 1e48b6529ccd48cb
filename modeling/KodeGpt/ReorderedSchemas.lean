import KodeGpt.CanonicalSchemas

/-!
Schemas without what is assigned to a prototype, and schemas with the members of their objects
in the reverse order. Both are accepted with a schema, and their canonical forms show what is
lost of it.
-/

namespace KodeGpt.ReorderedSchemas

open JsonDocuments JsFrames JsObjects JsonReadback ProviderInventories CanonicalForms
open CanonicalSchemas
open FallibleActions (bind_eq_ok_iff)
open NodePaths (pathBytes)
open PinnedSkills (compareUtf8)

def group (bytes : List UInt8) (members : Members) : Members :=
  members.filter fun member => pathBytes member.1 = bytes

theorem group_cons (bytes : List UInt8) (member : JsText × JsValue) (rest : Members) :
    group bytes (member :: rest) =
      if pathBytes member.1 = bytes then member :: group bytes rest else group bytes rest := by
  simp only [group, List.filter_cons, decide_eq_true_eq]

/-- Sorting keeps the order of members whose keys have the same bytes. -/
theorem group_sortMembers (bytes : List UInt8) (members : Members) :
    group bytes (sortMembers members) = group bytes members := by
  have hpairwise : (group bytes members).Pairwise
      fun left right => compareUtf8 left.1 right.1 = true := by
    rw [List.pairwise_iff_forall_sublist]
    intro left right hsub
    have hleft := hsub.subset List.mem_cons_self
    have hright := hsub.subset (List.mem_cons_of_mem _ List.mem_cons_self)
    have hsame := (of_decide_eq_true (List.mem_filter.mp hleft).2).trans
      (of_decide_eq_true (List.mem_filter.mp hright).2).symm
    exact compareUtf8_iff.mpr (hsame ▸ List.le_refl _)
  have hsub : (group bytes members).Sublist (sortMembers members) :=
    List.sublist_mergeSort (fun left middle right => compareUtf8_trans left.1 middle.1 right.1)
      (fun left right => compareUtf8_total left.1 right.1) hpairwise List.filter_sublist
  have hgroup : (group bytes members).Sublist (group bytes (sortMembers members)) := by
    have hfilter := hsub.filter fun member => decide (pathBytes member.1 = bytes)
    rwa [group, List.filter_filter, List.filter_congr fun _ _ => Bool.and_self _] at hfilter
  refine (hgroup.eq_of_length ?_).symm
  exact ((sortMembers_perm members).filter _).length_eq.symm

theorem eq_of_groups {members others : Members}
    (hmembers : members.Pairwise fun left right => compareUtf8 left.1 right.1 = true)
    (hothers : others.Pairwise fun left right => compareUtf8 left.1 right.1 = true)
    (hgroups : ∀ bytes, group bytes members = group bytes others) : members = others := by
  have hmem : ∀ {first second : Members}, (∀ bytes, group bytes first = group bytes second) →
      ∀ member ∈ first, member ∈ second := by
    intro first second hgroups member hmember
    have hgroup : member ∈ group (pathBytes member.1) first :=
      List.mem_filter.mpr ⟨hmember, decide_eq_true rfl⟩
    rw [hgroups] at hgroup
    exact List.mem_of_mem_filter hgroup
  induction members generalizing others with
  | nil =>
    cases others with
    | nil => rfl
    | cons other more =>
      exact absurd (hmem (fun bytes => (hgroups bytes).symm) other List.mem_cons_self)
        List.not_mem_nil
  | cons member rest ih =>
    cases others with
    | nil => exact absurd (hmem hgroups member List.mem_cons_self) List.not_mem_nil
    | cons other more =>
      obtain ⟨hfirst, hrest⟩ := List.pairwise_cons.mp hmembers
      obtain ⟨hfirst', hmore⟩ := List.pairwise_cons.mp hothers
      have hle : pathBytes member.1 ≤ pathBytes other.1 := by
        obtain rfl | hother := List.mem_cons.mp
          (hmem (fun bytes => (hgroups bytes).symm) other List.mem_cons_self)
        · exact List.le_refl _
        · exact compareUtf8_iff.mp (hfirst other hother)
      have hge : pathBytes other.1 ≤ pathBytes member.1 := by
        obtain rfl | hmember := List.mem_cons.mp (hmem hgroups member List.mem_cons_self)
        · exact List.le_refl _
        · exact compareUtf8_iff.mp (hfirst' member hmember)
      have hbytes := List.le_antisymm hle hge
      have hhead := hgroups (pathBytes member.1)
      rw [group_cons, group_cons, if_pos rfl, if_pos hbytes.symm] at hhead
      obtain ⟨rfl, htail⟩ := List.cons.inj hhead
      have hgroups' : ∀ bytes, group bytes rest = group bytes more := by
        intro bytes
        have hgroup := hgroups bytes
        rw [group_cons, group_cons] at hgroup
        split at hgroup
        · exact (List.cons.inj hgroup).2
        · exact hgroup
      rw [ih hrest hmore hgroups']

theorem group_filter (keep : JsText × JsValue → Bool) (bytes : List UInt8) (members : Members) :
    group bytes (members.filter keep) = (group bytes members).filter keep := by
  rw [group, group, List.filter_filter, List.filter_filter]
  exact List.filter_congr fun _ _ => Bool.and_comm _ _

theorem sortMembers_filter (keep : JsText × JsValue → Bool) (members : Members) :
    sortMembers (members.filter keep) = (sortMembers members).filter keep := by
  refine eq_of_groups (sortMembers_pairwise _) ((sortMembers_pairwise _).filter _) fun bytes => ?_
  rw [group_sortMembers, group_filter, group_filter, group_sortMembers]

section Fitting

variable (normalize : JsText → JsText)

def normalKeys (members : Members) : List JsText := members.map fun member => normalize member.1

mutual

/-- What is checked of a schema, assignments to a frozen prototype apart. -/
def Fits : JsValue → Nat → Prop
  | .null, depth => depth ≤ maxStructuralDepth
  | .boolean _, depth => depth ≤ maxStructuralDepth
  | .number (.finite text), depth => depth ≤ maxStructuralDepth ∧ isUnsafeInteger text = false
  | .string units, depth => depth ≤ maxStructuralDepth ∧ units.contains 0 = false
  | .array items, depth => depth ≤ maxStructuralDepth ∧ ItemsFit items (depth + 1)
  | .object members, depth =>
    depth ≤ maxStructuralDepth ∧ (normalKeys normalize members).Nodup ∧
      MembersFit members (depth + 1)
  | .number .nonFinite, _ => False
  | .undefined, _ => False
  | .bigint _, _ => False

def ItemsFit : List JsValue → Nat → Prop
  | [], _ => True
  | item :: rest, depth => Fits item depth ∧ ItemsFit rest depth

def MembersFit : Members → Nat → Prop
  | [], _ => True
  | (key, value) :: rest, depth =>
    (normalize key).contains 0 = false ∧ Fits value depth ∧ MembersFit rest depth

end

variable {normalize}

theorem membersFit_iff {members : Members} {depth : Nat} :
    MembersFit normalize members depth ↔ ∀ member ∈ members,
      (normalize member.1).contains 0 = false ∧ Fits normalize member.2 depth := by
  induction members with
  | nil => exact iff_of_true trivial (List.forall_mem_nil _)
  | cons member rest ih => rw [MembersFit, ih, List.forall_mem_cons, and_assoc]

theorem fits_leaf {value : JsValue} {depth : Nat} {canonical : Canonical}
    (hleaf : isLeaf value = true) (h : canonicalizeJson normalize value depth = .ok canonical) :
    Fits normalize value depth := by
  rw [canonicalizeJson.eq_def] at h
  split at h
  · cases h
  · rename_i hdepth
    have hdepth := Nat.not_lt.mp hdepth
    cases value with
    | undefined => cases h
    | null => exact hdepth
    | boolean flag => exact hdepth
    | number value =>
      cases value with
      | nonFinite => cases h
      | finite text =>
        dsimp only at h
        split at h
        · cases h
        · exact ⟨hdepth, Bool.eq_false_of_not_eq_true ‹_›⟩
    | bigint value => cases h
    | string units =>
      dsimp only at h
      split at h
      · cases h
      · exact ⟨hdepth, Bool.eq_false_of_not_eq_true ‹_›⟩
    | array items => cases hleaf
    | object members => cases hleaf

mutual

theorem fits_of_canonicalizeJson : ∀ (value : JsValue) (depth : Nat) (canonical : Canonical),
    canonicalizeJson normalize value depth = .ok canonical → Fits normalize value depth
  | .array items, depth, canonical, h => by
    obtain ⟨hdepth, values, hvalues, -⟩ := canonicalizeJson_array.mp h
    exact ⟨hdepth, itemsFit_of_canonicalizeItems items (depth + 1) values hvalues⟩
  | .object members, depth, canonical, h => by
    obtain ⟨hdepth, entries, output, hentries, -, -⟩ := canonicalizeJson_object.mp h
    obtain ⟨hkeys, -, hmembers⟩ :=
      membersFit_of_canonicalizeEntries members (depth + 1) [] entries hentries
    exact ⟨hdepth, hkeys, hmembers⟩
  | .undefined, _, _, h => fits_leaf rfl h
  | .null, _, _, h => fits_leaf rfl h
  | .boolean _, _, _, h => fits_leaf rfl h
  | .number _, _, _, h => fits_leaf rfl h
  | .bigint _, _, _, h => fits_leaf rfl h
  | .string _, _, _, h => fits_leaf rfl h

theorem itemsFit_of_canonicalizeItems : ∀ (items : List JsValue) (depth : Nat)
    (values : List JsValue), canonicalizeItems normalize items depth = .ok values →
      ItemsFit normalize items depth
  | [], _, _, _ => trivial
  | item :: rest, depth, values, h => by
    obtain ⟨canonical, hitem, h⟩ := bind_eq_ok_iff.mp h
    obtain ⟨later, hrest, -⟩ := bind_eq_ok_iff.mp h
    exact ⟨fits_of_canonicalizeJson item depth canonical hitem,
      itemsFit_of_canonicalizeItems rest depth later hrest⟩

theorem membersFit_of_canonicalizeEntries : ∀ (members : Members) (depth : Nat)
    (keys : List JsText) (entries : List (JsText × Canonical)),
    canonicalizeEntries normalize members depth keys = .ok entries →
      (normalKeys normalize members).Nodup ∧ (∀ key ∈ normalKeys normalize members, key ∉ keys) ∧
        MembersFit normalize members depth
  | [], _, _, _, _ => ⟨List.nodup_nil, List.forall_mem_nil _, trivial⟩
  | (rawKey, rawValue) :: rest, depth, keys, entries, h => by
    rw [canonicalizeEntries] at h
    split at h
    · cases h
    · rename_i hnul
      split at h
      · cases h
      · rename_i hnew
        obtain ⟨canonical, hvalue, h⟩ := bind_eq_ok_iff.mp h
        obtain ⟨later, hrest, -⟩ := bind_eq_ok_iff.mp h
        obtain ⟨hkeys, hapart, hmembers⟩ := membersFit_of_canonicalizeEntries rest depth
          (normalize rawKey :: keys) later hrest
        rw [List.contains_iff_mem] at hnew
        refine ⟨List.nodup_cons.mpr ⟨fun hmem => ?_, hkeys⟩,
          List.forall_mem_cons.mpr ⟨hnew, fun key hkey => ?_⟩,
          Bool.eq_false_of_not_eq_true hnul,
          fits_of_canonicalizeJson rawValue depth canonical hvalue, hmembers⟩
        · exact hapart _ hmem List.mem_cons_self
        · exact fun hmem => hapart key hkey (List.mem_cons_of_mem _ hmem)

end

theorem exists_assignAll {entries : List (JsText × Canonical)} {output : Output}
    (hinherited : output.inherited = []) (hentries : ∀ entry ∈ entries, entry.1 ≠ protoKey) :
    ∃ result, assignAll entries output = .ok result := by
  induction entries generalizing output with
  | nil => exact ⟨output, rfl⟩
  | cons entry rest ih =>
    obtain ⟨key, canonical⟩ := entry
    obtain ⟨hentry, hrest⟩ := List.forall_mem_cons.mp hentries
    have hassign : assign output key canonical =
        .ok { output with members := output.members ++ [(key, canonical.value)] } := by
      rw [assign, if_neg hentry, hinherited, if_neg List.not_mem_nil]
    obtain ⟨result, hresult⟩ :=
      @ih { output with members := output.members ++ [(key, canonical.value)] } hinherited hrest
    exact ⟨result, bind_eq_ok_iff.mpr ⟨_, hassign, hresult⟩⟩

theorem canonicalize_leaf {value : JsValue} {depth : Nat} (hleaf : isLeaf value = true)
    (h : Fits normalize value depth) :
    ∃ canonical, canonicalizeJson normalize value depth = .ok canonical := by
  have hdepth : ∀ {depth : Nat}, depth ≤ maxStructuralDepth → ¬ maxStructuralDepth < depth :=
    fun h => Nat.not_lt.mpr h
  rw [canonicalizeJson.eq_def]
  cases value with
  | undefined => cases h
  | null => exact ⟨_, if_neg (hdepth h)⟩
  | boolean flag => exact ⟨_, if_neg (hdepth h)⟩
  | number value =>
    cases value with
    | nonFinite => cases h
    | finite text =>
      rw [if_neg (hdepth h.1)]
      dsimp only
      rw [h.2]
      exact ⟨_, rfl⟩
  | bigint value => cases h
  | string units =>
    rw [if_neg (hdepth h.1)]
    dsimp only
    rw [h.2]
    exact ⟨_, rfl⟩
  | array items => cases hleaf
  | object members => cases hleaf

theorem normalMembers_eq_map (members : Members) :
    normalMembers normalize members =
      members.map fun member => (normalize member.1, normalForm normalize member.2) := by
  induction members with
  | nil => rfl
  | cons member rest ih => rw [normalMembers, ih, List.map_cons]

theorem normalMembers_keys (members : Members) :
    (normalMembers normalize members).map Prod.fst = normalKeys normalize members := by
  rw [normalMembers_eq_map, List.map_map]
  rfl

theorem canonicalizeEntries_keys {members : Members} {depth : Nat} {keys : List JsText}
    {entries : List (JsText × Canonical)}
    (h : canonicalizeEntries normalize members depth keys = .ok entries) :
    entries.map Prod.fst = normalKeys normalize members := by
  have hentries := (canonicalizeEntries_canonicalized members depth keys entries h).1
  have hkeys := congrArg (List.map Prod.fst) hentries
  rw [List.map_map, arrangedMembers_keys, normalMembers_keys] at hkeys
  exact hkeys

mutual

theorem exists_canonicalizeJson : ∀ (value : JsValue) (depth : Nat), Fits normalize value depth →
    PlainKeys (normalForm normalize value) →
      ∃ canonical, canonicalizeJson normalize value depth = .ok canonical
  | .array items, depth, h, hplain => by
    obtain ⟨values, hvalues⟩ := exists_canonicalizeItems items (depth + 1) h.2 hplain
    exact ⟨_, canonicalizeJson_array.mpr ⟨h.1, values, hvalues, rfl⟩⟩
  | .object members, depth, h, hplain => by
    obtain ⟨entries, hentries⟩ := exists_canonicalizeEntries members (depth + 1) [] h.2.2
      hplain.2 h.2.1 fun _ _ => List.not_mem_nil
    have hkeys : ∀ entry ∈ sortKeys entries, entry.1 ≠ protoKey := by
      rintro entry hentry hproto
      have hkey := List.mem_map_of_mem (f := Prod.fst)
        ((List.mergeSort_perm _ _).mem_iff.mp hentry)
      rw [canonicalizeEntries_keys hentries, hproto, ← normalMembers_keys] at hkey
      exact hplain.1 hkey
    obtain ⟨output, houtput⟩ := @exists_assignAll (sortKeys entries) ⟨[], []⟩ rfl hkeys
    exact ⟨_, canonicalizeJson_object.mpr ⟨h.1, entries, output, hentries, houtput, rfl⟩⟩
  | .undefined, _, h, _ => canonicalize_leaf rfl h
  | .null, _, h, _ => canonicalize_leaf rfl h
  | .boolean _, _, h, _ => canonicalize_leaf rfl h
  | .number _, _, h, _ => canonicalize_leaf rfl h
  | .bigint _, _, h, _ => canonicalize_leaf rfl h
  | .string _, _, h, _ => canonicalize_leaf rfl h

theorem exists_canonicalizeItems : ∀ (items : List JsValue) (depth : Nat),
    ItemsFit normalize items depth → ItemsPlain (normalItems normalize items) →
      ∃ values, canonicalizeItems normalize items depth = .ok values
  | [], _, _, _ => ⟨[], rfl⟩
  | item :: rest, depth, h, hplain => by
    obtain ⟨canonical, hitem⟩ := exists_canonicalizeJson item depth h.1 hplain.1
    obtain ⟨values, hrest⟩ := exists_canonicalizeItems rest depth h.2 hplain.2
    exact ⟨_, bind_eq_ok_iff.mpr ⟨canonical, hitem, bind_eq_ok_iff.mpr ⟨values, hrest, rfl⟩⟩⟩

theorem exists_canonicalizeEntries : ∀ (members : Members) (depth : Nat) (keys : List JsText),
    MembersFit normalize members depth → MembersPlain (normalMembers normalize members) →
      (normalKeys normalize members).Nodup →
        (∀ key ∈ normalKeys normalize members, key ∉ keys) →
          ∃ entries, canonicalizeEntries normalize members depth keys = .ok entries
  | [], _, _, _, _, _, _ => ⟨[], rfl⟩
  | (rawKey, rawValue) :: rest, depth, keys, h, hplain, hkeys, hapart => by
    obtain ⟨hnew, hapart⟩ := List.forall_mem_cons.mp hapart
    obtain ⟨hfresh, hkeys⟩ := List.nodup_cons.mp hkeys
    obtain ⟨canonical, hvalue⟩ := exists_canonicalizeJson rawValue depth h.2.1 hplain.1
    obtain ⟨entries, hrest⟩ := exists_canonicalizeEntries rest depth (normalize rawKey :: keys)
      h.2.2 hplain.2 hkeys fun key hkey => List.not_mem_cons_of_ne_of_not_mem
        (fun hsame => hfresh (show normalize rawKey ∈ _ from hsame ▸ hkey)) (hapart key hkey)
    refine ⟨(normalize rawKey, canonical) :: entries, ?_⟩
    have hcontains : keys.contains (normalize rawKey) = false :=
      Bool.eq_false_of_not_eq_true fun hmem => hnew (List.contains_iff_mem.mp hmem)
    rw [canonicalizeEntries, h.1, hcontains]
    exact bind_eq_ok_iff.mpr ⟨canonical, hvalue, bind_eq_ok_iff.mpr ⟨entries, hrest, rfl⟩⟩

end

section Dropping

variable (normalize)

mutual

def withoutProto : JsValue → JsValue
  | .undefined => .undefined
  | .null => .null
  | .boolean flag => .boolean flag
  | .number value => .number value
  | .bigint value => .bigint value
  | .string units => .string units
  | .array items => .array (itemsWithoutProto items)
  | .object members => .object (membersWithoutProto members)

def itemsWithoutProto : List JsValue → List JsValue
  | [] => []
  | item :: rest => withoutProto item :: itemsWithoutProto rest

def membersWithoutProto : Members → Members
  | [] => []
  | (key, value) :: rest =>
    if normalize key = protoKey then membersWithoutProto rest
    else (key, withoutProto value) :: membersWithoutProto rest

end

end Dropping

theorem filter_filter_proto (members : Members) :
    (sortMembers (members.filter fun member => member.1 ≠ protoKey)).filter
        (fun member => member.1 ≠ protoKey) =
      (sortMembers members).filter fun member => member.1 ≠ protoKey := by
  rw [sortMembers_filter, List.filter_filter]
  exact List.filter_congr fun _ _ => Bool.and_self _

mutual

theorem arranged_withoutProto : ∀ value : JsValue,
    arranged (normalForm normalize (withoutProto normalize value)) =
      arranged (normalForm normalize value)
  | .array items => congrArg JsValue.array (arrangedItems_withoutProto items)
  | .object members => by
    rw [withoutProto, normalForm, arranged, arrangedMembers_withoutProto members,
      filter_filter_proto, normalForm, arranged]
  | .undefined => rfl
  | .null => rfl
  | .boolean _ => rfl
  | .number _ => rfl
  | .bigint _ => rfl
  | .string _ => rfl

theorem arrangedItems_withoutProto : ∀ items : List JsValue,
    arrangedItems (normalItems normalize (itemsWithoutProto normalize items)) =
      arrangedItems (normalItems normalize items)
  | [] => rfl
  | item :: rest => by
    rw [itemsWithoutProto, normalItems, arrangedItems, arranged_withoutProto item,
      arrangedItems_withoutProto rest, normalItems, arrangedItems]

theorem arrangedMembers_withoutProto : ∀ members : Members,
    arrangedMembers (normalMembers normalize (membersWithoutProto normalize members)) =
      (arrangedMembers (normalMembers normalize members)).filter fun member => member.1 ≠ protoKey
  | [] => rfl
  | (key, value) :: rest => by
    have hrest := arrangedMembers_withoutProto rest
    rw [membersWithoutProto, normalMembers, arrangedMembers, List.filter_cons]
    by_cases hkey : normalize key = protoKey
    · simpa [hkey] using hrest
    · simp [hkey, normalMembers, arrangedMembers, arranged_withoutProto value, hrest]

end

theorem normalKeys_withoutProto (members : Members) :
    normalKeys normalize (membersWithoutProto normalize members) =
      (normalKeys normalize members).filter fun key => key ≠ protoKey := by
  induction members with
  | nil => rfl
  | cons member rest ih =>
    obtain ⟨key, value⟩ := member
    have hcons : normalKeys normalize ((key, value) :: rest) =
        normalize key :: normalKeys normalize rest := rfl
    rw [membersWithoutProto, hcons, List.filter_cons]
    by_cases hkey : normalize key = protoKey
    · simpa [hkey] using ih
    · simpa [hkey, normalKeys] using ih

mutual

theorem plain_withoutProto : ∀ value : JsValue,
    PlainKeys (normalForm normalize (withoutProto normalize value))
  | .array items => itemsPlain_withoutProto items
  | .object members => by
    refine ⟨?_, membersPlain_withoutProto members⟩
    rw [normalMembers_keys, normalKeys_withoutProto]
    simp
  | .undefined | .null | .boolean _ | .number _ | .bigint _ | .string _ => trivial

theorem itemsPlain_withoutProto : ∀ items : List JsValue,
    ItemsPlain (normalItems normalize (itemsWithoutProto normalize items))
  | [] => trivial
  | item :: rest => ⟨plain_withoutProto item, itemsPlain_withoutProto rest⟩

theorem membersPlain_withoutProto : ∀ members : Members,
    MembersPlain (normalMembers normalize (membersWithoutProto normalize members))
  | [] => trivial
  | (key, value) :: rest => by
    rw [membersWithoutProto]
    split
    · exact membersPlain_withoutProto rest
    · exact ⟨plain_withoutProto value, membersPlain_withoutProto rest⟩

end

mutual

theorem fits_withoutProto : ∀ (value : JsValue) (depth : Nat), Fits normalize value depth →
    Fits normalize (withoutProto normalize value) depth
  | .array items, depth, h => ⟨h.1, itemsFit_withoutProto items (depth + 1) h.2⟩
  | .object members, depth, h =>
    ⟨h.1, @normalKeys_withoutProto normalize members ▸ h.2.1.filter _,
      membersFit_withoutProto members (depth + 1) h.2.2⟩
  | .undefined, _, h => h
  | .null, _, h => h
  | .boolean _, _, h => h
  | .number _, _, h => h
  | .bigint _, _, h => h
  | .string _, _, h => h

theorem itemsFit_withoutProto : ∀ (items : List JsValue) (depth : Nat),
    ItemsFit normalize items depth → ItemsFit normalize (itemsWithoutProto normalize items) depth
  | [], _, h => h
  | item :: rest, depth, h =>
    ⟨fits_withoutProto item depth h.1, itemsFit_withoutProto rest depth h.2⟩

theorem membersFit_withoutProto : ∀ (members : Members) (depth : Nat),
    MembersFit normalize members depth →
      MembersFit normalize (membersWithoutProto normalize members) depth
  | [], _, h => h
  | (key, value) :: rest, depth, h => by
    rw [membersWithoutProto]
    split
    · exact membersFit_withoutProto rest depth h.2.2
    · exact ⟨h.1, fits_withoutProto value depth h.2.1,
        membersFit_withoutProto rest depth h.2.2⟩

end

mutual

def mirrored : JsValue → JsValue
  | .undefined => .undefined
  | .null => .null
  | .boolean flag => .boolean flag
  | .number value => .number value
  | .bigint value => .bigint value
  | .string units => .string units
  | .array items => .array (mirroredItems items)
  | .object members => .object (mirroredMembers members).reverse

def mirroredItems : List JsValue → List JsValue
  | [] => []
  | item :: rest => mirrored item :: mirroredItems rest

def mirroredMembers : Members → Members
  | [] => []
  | (key, value) :: rest => (key, mirrored value) :: mirroredMembers rest

end

theorem mirroredMembers_eq_map (members : Members) :
    mirroredMembers members = members.map fun member => (member.1, mirrored member.2) := by
  induction members with
  | nil => rfl
  | cons member rest ih => rw [mirroredMembers, ih, List.map_cons]

theorem mirroredMembers_keys (members : Members) :
    (mirroredMembers members).map Prod.fst = members.map Prod.fst := by
  rw [mirroredMembers_eq_map, List.map_map]
  rfl

mutual

theorem normalForm_mirrored : ∀ value : JsValue,
    normalForm normalize (mirrored value) = mirrored (normalForm normalize value)
  | .array items => congrArg JsValue.array (normalItems_mirrored items)
  | .object members => by
    rw [mirrored, normalForm, normalForm, mirrored, ← normalMembers_mirrored members,
      normalMembers_eq_map, normalMembers_eq_map, List.map_reverse]
  | .undefined => rfl
  | .null => rfl
  | .boolean _ => rfl
  | .number _ => rfl
  | .bigint _ => rfl
  | .string _ => rfl

theorem normalItems_mirrored : ∀ items : List JsValue,
    normalItems normalize (mirroredItems items) = mirroredItems (normalItems normalize items)
  | [] => rfl
  | item :: rest => by
    rw [mirroredItems, normalItems, normalForm_mirrored item, normalItems_mirrored rest,
      normalItems, mirroredItems]

theorem normalMembers_mirrored : ∀ members : Members,
    normalMembers normalize (mirroredMembers members) =
      mirroredMembers (normalMembers normalize members)
  | [] => rfl
  | (key, value) :: rest => by
    rw [mirroredMembers, normalMembers, normalForm_mirrored value, normalMembers_mirrored rest,
      normalMembers, mirroredMembers]

end

mutual

theorem sameUpToOrder_mirrored : ∀ value : JsValue, SameUpToOrder value (mirrored value)
  | .array items => ⟨mirroredItems items, rfl, sameItems_mirrored items⟩
  | .object members => ⟨(mirroredMembers members).reverse, mirroredMembers members, rfl,
      (List.reverse_perm _).symm, sameMembers_mirrored members⟩
  | .undefined => rfl
  | .null => rfl
  | .boolean _ => rfl
  | .number _ => rfl
  | .bigint _ => rfl
  | .string _ => rfl

theorem sameItems_mirrored : ∀ items : List JsValue, SameItems items (mirroredItems items)
  | [] => rfl
  | item :: rest =>
    ⟨mirrored item, mirroredItems rest, rfl, sameUpToOrder_mirrored item, sameItems_mirrored rest⟩

theorem sameMembers_mirrored : ∀ members : Members, SameMembers members (mirroredMembers members)
  | [] => rfl
  | (_, value) :: rest => ⟨mirrored value, mirroredMembers rest, rfl,
      sameUpToOrder_mirrored value, sameMembers_mirrored rest⟩

end

mutual

theorem plain_mirrored : ∀ value : JsValue, PlainKeys value → PlainKeys (mirrored value)
  | .array items, h => itemsPlain_mirrored items h
  | .object members, h => by
    refine ⟨?_, membersPlain_iff.mpr fun member hmember =>
      membersPlain_iff.mp (membersPlain_mirrored members h.2) member
        (List.mem_reverse.mp hmember)⟩
    rw [List.map_reverse, List.mem_reverse, mirroredMembers_keys]
    exact h.1
  | .undefined, h => h
  | .null, h => h
  | .boolean _, h => h
  | .number _, h => h
  | .bigint _, h => h
  | .string _, h => h

theorem itemsPlain_mirrored : ∀ items : List JsValue, ItemsPlain items →
    ItemsPlain (mirroredItems items)
  | [], h => h
  | item :: rest, h => ⟨plain_mirrored item h.1, itemsPlain_mirrored rest h.2⟩

theorem membersPlain_mirrored : ∀ members : Members, MembersPlain members →
    MembersPlain (mirroredMembers members)
  | [], h => h
  | (_, value) :: rest, h => ⟨plain_mirrored value h.1, membersPlain_mirrored rest h.2⟩

end

mutual

theorem fits_mirrored : ∀ (value : JsValue) (depth : Nat), Fits normalize value depth →
    Fits normalize (mirrored value) depth
  | .array items, depth, h => ⟨h.1, itemsFit_mirrored items (depth + 1) h.2⟩
  | .object members, depth, h => by
    have hmembers := membersFit_mirrored members (depth + 1) h.2.2
    refine ⟨h.1, ?_, membersFit_iff.mpr fun member hmember =>
      membersFit_iff.mp hmembers member (List.mem_reverse.mp hmember)⟩
    have hkeys : normalKeys normalize (mirroredMembers members).reverse =
        (normalKeys normalize members).reverse := by
      rw [normalKeys, List.map_reverse, mirroredMembers_eq_map, List.map_map]
      rfl
    rw [hkeys]
    exact List.nodup_reverse.mpr h.2.1
  | .undefined, _, h => h
  | .null, _, h => h
  | .boolean _, _, h => h
  | .number _, _, h => h
  | .bigint _, _, h => h
  | .string _, _, h => h

theorem itemsFit_mirrored : ∀ (items : List JsValue) (depth : Nat),
    ItemsFit normalize items depth → ItemsFit normalize (mirroredItems items) depth
  | [], _, h => h
  | item :: rest, depth, h => ⟨fits_mirrored item depth h.1, itemsFit_mirrored rest depth h.2⟩

theorem membersFit_mirrored : ∀ (members : Members) (depth : Nat),
    MembersFit normalize members depth → MembersFit normalize (mirroredMembers members) depth
  | [], _, h => h
  | (_, value) :: rest, depth, h =>
    ⟨h.1, fits_mirrored value depth h.2.1, membersFit_mirrored rest depth h.2.2⟩

end

end Fitting

end KodeGpt.ReorderedSchemas
