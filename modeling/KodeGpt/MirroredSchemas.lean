import KodeGpt.JsonSizes
import KodeGpt.ReorderedSchemas

/-!
What the canonical form of a reversed schema tells: it has the length of the schema's own,
and is the same only if the keys of each object have different bytes.
-/

namespace KodeGpt.MirroredSchemas

open JsonDocuments JsFrames JsObjects JsonReadback JsonSizes NodePaths TextEncodings
open ProviderInventories CanonicalForms CanonicalSchemas ReorderedSchemas
open JsonText (Bytes)

theorem encodeUtf16_lossyString {text : JsText} (h : asciiText (encodeUtf16 (lossyString text))) :
    encodeUtf16 (lossyString text) = text := by
  have hreplacement : utf16Units replacementCharacter = [65533] := by decide
  have hascii : ¬ (65533 : UInt16).toNat < 128 := by decide
  induction text using lossyString.induct with
  | case1 => rfl
  | case2 code =>
    rw [lossyString] at h ⊢
    by_cases hsurrogate : isSurrogate code = true
    · rw [if_pos hsurrogate] at h
      rw [encodeUtf16, List.flatMap_singleton, hreplacement] at h
      exact absurd (h 65533 (List.mem_singleton_self _)) hascii
    · rw [if_neg hsurrogate, encodeUtf16, List.flatMap_singleton,
        utf16Units_ofNat (Bool.eq_false_of_not_eq_true hsurrogate)]
  | case3 high low rest hpair ih =>
    rw [lossyString, if_pos hpair] at h ⊢
    rw [encodeUtf16, List.flatMap_cons, utf16Units_pairCharacter hpair.1 hpair.2] at h ⊢
    rw [← encodeUtf16] at h ⊢
    rw [ih fun unit hunit => h unit (List.mem_append_right _ hunit)]
    rfl
  | case4 high low rest hpair ih =>
    rw [lossyString, if_neg hpair] at h ⊢
    rw [encodeUtf16, List.flatMap_cons] at h ⊢
    rw [← encodeUtf16] at h ⊢
    rw [ih fun unit hunit => h unit (List.mem_append_right _ hunit)]
    by_cases hsurrogate : isSurrogate high = true
    · rw [if_pos hsurrogate, hreplacement] at h
      exact absurd (h 65533 (List.mem_append_left _ (List.mem_singleton_self _))) hascii
    · rw [if_neg hsurrogate, utf16Units_ofNat (Bool.eq_false_of_not_eq_true hsurrogate)]
      rfl

theorem eq_of_pathBytes {key other : JsText} (hother : asciiText other)
    (h : pathBytes key = pathBytes other) : key = other := by
  have htext : encodeUtf16 (lossyString key) = other := by
    rw [← pathText_encodeUtf8, ← pathBytes, h, pathText_pathBytes hother]
  rw [← htext, encodeUtf16_lossyString (htext ▸ hother)]

theorem isArrayIndex_ascii {key : JsText} (h : isArrayIndex key = true) : asciiText key := by
  intro unit hunit
  simp only [isArrayIndex, Bool.and_eq_true] at h
  have hdigit := List.all_eq_true.mp h.1.1.2 unit hunit
  simp only [isDigit, Bool.and_eq_true, decide_eq_true_eq, UInt16.le_iff_toNat_le] at hdigit
  exact Nat.lt_of_le_of_lt hdigit.2 (by decide)

theorem eq_of_reverse_eq {α : Type} {items : List α} (hnodup : items.Nodup)
    (hreverse : items.reverse = items) {first second : α} (hfirst : first ∈ items)
    (hsecond : second ∈ items) : first = second := by
  cases items with
  | nil => cases hfirst
  | cons head rest =>
    have hrest : rest = [] := by
      by_contra hne
      have hlast := congrArg List.getLast? hreverse
      rw [List.reverse_cons, List.getLast?_concat] at hlast
      have hmem : head ∈ rest := by
        have hrest := List.getLast?_eq_some_iff.mp hlast.symm
        obtain ⟨front, hfront⟩ := hrest
        cases front with
        | nil => exact absurd (List.cons.inj hfront).2 hne
        | cons other front =>
          rw [(List.cons.inj hfront).2]
          exact List.mem_append_right _ (List.mem_singleton_self _)
      exact (List.nodup_cons.mp hnodup).1 hmem
    rw [hrest] at hfirst hsecond
    rw [List.mem_singleton.mp hfirst, List.mem_singleton.mp hsecond]

mutual

/-- No key is twice in an object. -/
def DistinctKeys : JsValue → Prop
  | .array items => ItemsDistinct items
  | .object members => (members.map Prod.fst).Nodup ∧ MembersDistinct members
  | .undefined | .null | .boolean _ | .number _ | .bigint _ | .string _ => True

def ItemsDistinct : List JsValue → Prop
  | [] => True
  | item :: rest => DistinctKeys item ∧ ItemsDistinct rest

def MembersDistinct : Members → Prop
  | [] => True
  | (_, value) :: rest => DistinctKeys value ∧ MembersDistinct rest

end

section Fitting

variable {normalize : JsText → JsText}

mutual

theorem distinct_of_fits : ∀ (value : JsValue) (depth : Nat), Fits normalize value depth →
    DistinctKeys (normalForm normalize value)
  | .array items, depth, h => itemsDistinct_of_fit items (depth + 1) h.2
  | .object members, depth, h => by
    refine ⟨?_, membersDistinct_of_fit members (depth + 1) h.2.2⟩
    rw [normalMembers_keys]
    exact h.2.1
  | .undefined, _, _ => trivial
  | .null, _, _ => trivial
  | .boolean _, _, _ => trivial
  | .number _, _, _ => trivial
  | .bigint _, _, _ => trivial
  | .string _, _, _ => trivial

theorem itemsDistinct_of_fit : ∀ (items : List JsValue) (depth : Nat),
    ItemsFit normalize items depth → ItemsDistinct (normalItems normalize items)
  | [], _, _ => trivial
  | item :: rest, depth, h =>
    ⟨distinct_of_fits item depth h.1, itemsDistinct_of_fit rest depth h.2⟩

theorem membersDistinct_of_fit : ∀ (members : Members) (depth : Nat),
    MembersFit normalize members depth → MembersDistinct (normalMembers normalize members)
  | [], _, _ => trivial
  | (_, value) :: rest, depth, h =>
    ⟨distinct_of_fits value depth h.2.1, membersDistinct_of_fit rest depth h.2.2⟩

end

end Fitting

def named (members : Members) : Members := members.filter fun member => !isArrayIndex member.1

theorem named_propertyOrder (members : Members) :
    named (propertyOrder members) = named members := by
  have hindices : ((members.filter fun member => isArrayIndex member.1).mergeSort
      (fun left right => indexValue left.1 ≤ indexValue right.1)).filter
        (fun member => !isArrayIndex member.1) = [] := by
    refine List.filter_eq_nil_iff.mpr fun member hmember hnot => ?_
    have hmember := (List.mergeSort_perm _ _).mem_iff.mp hmember
    rw [(List.mem_filter.mp hmember).2] at hnot
    cases hnot
  rw [named, propertyOrder, List.filter_append, hindices, List.nil_append, named,
    List.filter_filter]
  exact List.filter_congr fun _ _ => Bool.and_self _

def namedKeys (bytes : Bytes) (keys : List JsText) : List JsText :=
  keys.filter fun key => decide (pathBytes key = bytes) && !isArrayIndex key

theorem map_group_named (bytes : Bytes) (members : Members) :
    (group bytes (named members)).map Prod.fst = namedKeys bytes (members.map Prod.fst) := by
  rw [group, named, List.filter_filter, namedKeys, List.filter_map]
  rfl

theorem keyBytes_nodup {members others : Members} (hdistinct : (members.map Prod.fst).Nodup)
    (hothers : others.map Prod.fst = (members.map Prod.fst).reverse)
    (h : propertyOrder (sortMembers others) = propertyOrder (sortMembers members)) :
    (keyBytes members).Nodup := by
  have hgroups : ∀ bytes, namedKeys bytes (members.map Prod.fst) =
      (namedKeys bytes (members.map Prod.fst)).reverse := by
    intro bytes
    have hnamed := congrArg (fun members => group bytes (named members)) h
    simp only [named_propertyOrder] at hnamed
    rw [named, named, group_filter, group_filter, group_sortMembers, group_sortMembers,
      ← group_filter, ← group_filter] at hnamed
    have hkeys := congrArg (List.map Prod.fst) hnamed
    rw [← named, ← named, map_group_named, map_group_named, hothers, namedKeys,
      List.filter_reverse] at hkeys
    exact hkeys.symm
  have hmembers : members.Nodup := hdistinct.of_map _
  refine (List.nodup_map_iff_inj_on hmembers).mpr fun first hfirst second hsecond hbytes => ?_
  refine List.inj_on_of_nodup_map hdistinct hfirst hsecond ?_
  by_cases hindex : isArrayIndex first.1 = true
  · exact (eq_of_pathBytes (isArrayIndex_ascii hindex) hbytes.symm).symm
  · by_cases hindex' : isArrayIndex second.1 = true
    · exact eq_of_pathBytes (isArrayIndex_ascii hindex') hbytes
    · have hmem : ∀ member ∈ members, pathBytes member.1 = pathBytes second.1 →
          ¬ isArrayIndex member.1 = true →
            member.1 ∈ namedKeys (pathBytes second.1) (members.map Prod.fst) := by
        intro member hmember hsame hnot
        refine List.mem_filter.mpr ⟨List.mem_map_of_mem hmember, ?_⟩
        rw [decide_eq_true hsame, Bool.eq_false_of_not_eq_true hnot]
        rfl
      exact eq_of_reverse_eq (hdistinct.filter _) (hgroups _).symm (hmem _ hfirst hbytes hindex)
        (hmem _ hsecond rfl hindex')

theorem arranged_mirrored_object {members : Members} (hplain : protoKey ∉ members.map Prod.fst) :
    arranged (mirrored (.object members)) = .object
      (propertyOrder (sortMembers (arrangedMembers (mirroredMembers members)).reverse)) := by
  have hkeys : protoKey ∉ ((mirroredMembers members).reverse).map Prod.fst := by
    rw [List.map_reverse, List.mem_reverse, mirroredMembers_keys]
    exact hplain
  rw [mirrored, arranged_object hkeys, arrangedMembers_eq_map, arrangedMembers_eq_map,
    List.map_reverse]

theorem members_of_arranged_mirrored {members : Members}
    (hdistinct : (members.map Prod.fst).Nodup) (hplain : protoKey ∉ members.map Prod.fst)
    (h : arranged (mirrored (.object members)) = arranged (.object members)) :
    (keyBytes members).Nodup ∧
      ∀ member ∈ members, arranged (mirrored member.2) = arranged member.2 := by
  rw [arranged_mirrored_object hplain, arranged_object hplain] at h
  have h := JsValue.object.inj h
  constructor
  · rw [← keyBytes_arrangedMembers]
    refine keyBytes_nodup ((arrangedMembers_keys members).symm ▸ hdistinct) ?_ h
    rw [List.map_reverse, arrangedMembers_keys, arrangedMembers_keys, mirroredMembers_keys]
  · intro member hmember
    have hsame : (arrangedMembers (mirroredMembers members)).Perm (arrangedMembers members) :=
      ((List.reverse_perm _).symm.trans (ordered_perm _).symm).trans (h ▸ ordered_perm _)
    have hmirrored : (member.1, arranged (mirrored member.2)) ∈
        arrangedMembers (mirroredMembers members) := by
      rw [arrangedMembers_eq_map, mirroredMembers_eq_map, List.map_map]
      exact List.mem_map.mpr ⟨member, hmember, rfl⟩
    have harranged := hsame.mem_iff.mp hmirrored
    rw [arrangedMembers_eq_map] at harranged
    obtain ⟨other, hother, heq⟩ := List.mem_map.mp harranged
    obtain ⟨hkey, hvalue⟩ := Prod.mk.inj heq
    obtain rfl := List.inj_on_of_nodup_map hdistinct hother hmember hkey
    exact hvalue.symm

mutual

theorem apart_of_arranged_mirrored : ∀ value : JsValue, DistinctKeys value → PlainKeys value →
    arranged (mirrored value) = arranged value → ApartKeys value
  | .array items, hdistinct, hplain, h =>
    itemsApart_of_arranged_mirrored items hdistinct hplain (JsValue.array.inj h)
  | .object members, hdistinct, hplain, h => by
    obtain ⟨hbytes, hmembers⟩ := members_of_arranged_mirrored hdistinct.1 hplain.1 h
    exact ⟨hbytes, membersApart_of_arranged_mirrored members hdistinct.2 hplain.2 hmembers⟩
  | .undefined, _, _, _ => trivial
  | .null, _, _, _ => trivial
  | .boolean _, _, _, _ => trivial
  | .number _, _, _, _ => trivial
  | .bigint _, _, _, _ => trivial
  | .string _, _, _, _ => trivial

theorem itemsApart_of_arranged_mirrored : ∀ items : List JsValue, ItemsDistinct items →
    ItemsPlain items → arrangedItems (mirroredItems items) = arrangedItems items → ItemsApart items
  | [], _, _, _ => trivial
  | item :: rest, hdistinct, hplain, h =>
    ⟨apart_of_arranged_mirrored item hdistinct.1 hplain.1 (List.cons.inj h).1,
      itemsApart_of_arranged_mirrored rest hdistinct.2 hplain.2 (List.cons.inj h).2⟩

theorem membersApart_of_arranged_mirrored : ∀ members : Members, MembersDistinct members →
    MembersPlain members →
      (∀ member ∈ members, arranged (mirrored member.2) = arranged member.2) →
        MembersApart members
  | [], _, _, _ => trivial
  | (key, value) :: rest, hdistinct, hplain, h =>
    ⟨apart_of_arranged_mirrored value hdistinct.1 hplain.1 (h (key, value) List.mem_cons_self),
      membersApart_of_arranged_mirrored rest hdistinct.2 hplain.2
        fun member hmember => h member (List.mem_cons_of_mem _ hmember)⟩

end

theorem hasText_of_isJson {value : JsValue} (h : IsJson value) : HasText value := by
  obtain ⟨document, hdocument, -⟩ := exists_stringify value h
  exact ⟨document, hdocument⟩

theorem itemsJson_iff {items : List JsValue} : ItemsJson items ↔ ∀ item ∈ items, IsJson item := by
  induction items with
  | nil => exact iff_of_true trivial (List.forall_mem_nil _)
  | cons item rest ih => rw [ItemsJson, ih, List.forall_mem_cons]

def memberLength (member : JsText × JsValue) : Nat :=
  escapedLength member.1 + jsonLength member.2 + 4

theorem jsonLength_members {members : Members} (h : MembersJson members) :
    jsonLength (.object members) = max 2 (1 + (members.map memberLength).sum) :=
  jsonLength_object fun member hmember => hasText_of_isJson (membersJson_iff.mp h member hmember)

theorem jsonLength_ordered {members others : Members}
    (hothers : (others.map memberLength).Perm (members.map memberLength))
    (hjson : MembersJson others) :
    jsonLength (.object (propertyOrder (sortMembers others))) =
      max 2 (1 + (members.map memberLength).sum) := by
  have hmembers : MembersJson (propertyOrder (sortMembers others)) :=
    membersJson_iff.mpr fun member hmember =>
      membersJson_iff.mp hjson member ((ordered_perm others).mem_iff.mp hmember)
  rw [jsonLength_members hmembers, (((ordered_perm others).map memberLength).trans hothers).sum_eq]

mutual

theorem isJson_mirrored : ∀ value : JsValue, IsJson value → IsJson (mirrored value)
  | .array items, h => itemsJson_mirrored items h
  | .object members, h => membersJson_iff.mpr fun member hmember =>
    membersJson_iff.mp (membersJson_mirrored members h) member (List.mem_reverse.mp hmember)
  | .undefined, h => h
  | .null, h => h
  | .boolean _, h => h
  | .number _, h => h
  | .bigint _, h => h
  | .string _, h => h

theorem itemsJson_mirrored : ∀ items : List JsValue, ItemsJson items →
    ItemsJson (mirroredItems items)
  | [], h => h
  | item :: rest, h => ⟨isJson_mirrored item h.1, itemsJson_mirrored rest h.2⟩

theorem membersJson_mirrored : ∀ members : Members, MembersJson members →
    MembersJson (mirroredMembers members)
  | [], h => h
  | (_, value) :: rest, h => ⟨isJson_mirrored value h.1, membersJson_mirrored rest h.2⟩

end

mutual

theorem jsonLength_mirrored : ∀ value : JsValue, IsJson value → PlainKeys value →
    jsonLength (arranged (mirrored value)) = jsonLength (arranged value)
  | .array items, hjson, hplain => by
    have hmirrored := itemsJson_iff.mp (itemsJson_arranged _ (itemsJson_mirrored items hjson))
    have hitems := itemsJson_iff.mp (itemsJson_arranged items hjson)
    rw [mirrored, arranged, arranged,
      jsonLength_array fun item hitem => hasText_of_isJson (hmirrored item hitem),
      jsonLength_array fun item hitem => hasText_of_isJson (hitems item hitem),
      itemLengths_mirrored items hjson hplain]
  | .object members, hjson, hplain => by
    have hmembers := membersJson_arranged members hjson
    have hmirrored := membersJson_arranged _ (membersJson_mirrored members hjson)
    have hreversed : MembersJson (arrangedMembers (mirroredMembers members)).reverse :=
      membersJson_iff.mpr fun member hmember =>
        membersJson_iff.mp hmirrored member (List.mem_reverse.mp hmember)
    have hlengths : ((arrangedMembers (mirroredMembers members)).reverse.map memberLength).Perm
        ((arrangedMembers members).map memberLength) := by
      rw [List.map_reverse, memberLengths_mirrored members hjson hplain.2]
      exact List.reverse_perm _
    rw [arranged_mirrored_object hplain.1, arranged_object hplain.1,
      jsonLength_ordered hlengths hreversed, jsonLength_ordered (List.Perm.refl _) hmembers]
  | .undefined, _, _ => rfl
  | .null, _, _ => rfl
  | .boolean _, _, _ => rfl
  | .number _, _, _ => rfl
  | .bigint _, _, _ => rfl
  | .string _, _, _ => rfl

theorem itemLengths_mirrored : ∀ items : List JsValue, ItemsJson items → ItemsPlain items →
    (arrangedItems (mirroredItems items)).map (fun item => jsonLength item + 1) =
      (arrangedItems items).map fun item => jsonLength item + 1
  | [], _, _ => rfl
  | item :: rest, hjson, hplain => by
    rw [mirroredItems, arrangedItems, List.map_cons, jsonLength_mirrored item hjson.1 hplain.1,
      itemLengths_mirrored rest hjson.2 hplain.2, arrangedItems, List.map_cons]

theorem memberLengths_mirrored : ∀ members : Members, MembersJson members →
    MembersPlain members →
      (arrangedMembers (mirroredMembers members)).map memberLength =
        (arrangedMembers members).map memberLength
  | [], _, _ => rfl
  | (key, value) :: rest, hjson, hplain => by
    rw [mirroredMembers, arrangedMembers, List.map_cons, memberLength,
      jsonLength_mirrored value hjson.1 hplain.1, memberLengths_mirrored rest hjson.2 hplain.2,
      arrangedMembers, List.map_cons, memberLength]

end

end KodeGpt.MirroredSchemas
