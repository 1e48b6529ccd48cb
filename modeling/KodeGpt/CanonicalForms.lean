import KodeGpt.ProviderInventories

/-!
Values up to the order of the keys of their objects. A value is arranged by sorting the keys
of every object; values that are the same up to order are arranged to the same one when no
two keys of an object have the same bytes.
-/

namespace KodeGpt.CanonicalForms

open JsonDocuments JsFrames JsObjects JsonReadback ProviderInventories
open NodePaths (pathBytes)
open PinnedSkills (compareUtf8)

def sortMembers (members : Members) : Members :=
  members.mergeSort fun left right => compareUtf8 left.1 right.1

theorem compareUtf8_iff {left right : JsText} :
    compareUtf8 left right = true ↔ pathBytes left ≤ pathBytes right := decide_eq_true_iff

theorem compareUtf8_trans (left middle right : JsText) (hleft : compareUtf8 left middle = true)
    (hright : compareUtf8 middle right = true) : compareUtf8 left right = true :=
  compareUtf8_iff.mpr (List.le_trans (compareUtf8_iff.mp hleft) (compareUtf8_iff.mp hright))

theorem compareUtf8_total (left right : JsText) :
    (compareUtf8 left right || compareUtf8 right left) = true := by
  rw [Bool.or_eq_true, compareUtf8_iff, compareUtf8_iff]
  exact List.le_total _ _

theorem sortMembers_perm (members : Members) : (sortMembers members).Perm members :=
  List.mergeSort_perm _ _

theorem sortMembers_pairwise (members : Members) :
    (sortMembers members).Pairwise fun left right => compareUtf8 left.1 right.1 = true :=
  List.pairwise_mergeSort (fun left middle right => compareUtf8_trans left.1 middle.1 right.1)
    (fun left right => compareUtf8_total left.1 right.1) members

def keyBytes (members : Members) : List (List UInt8) :=
  members.map fun member => pathBytes member.1

/-- Keys of different bytes are sorted in one order. -/
theorem sortMembers_congr {members others : Members} (hperm : members.Perm others)
    (hbytes : (keyBytes members).Nodup) : sortMembers members = sortMembers others := by
  have hsame : (sortMembers members).Perm (sortMembers others) :=
    ((sortMembers_perm members).trans hperm).trans (sortMembers_perm others).symm
  refine List.Perm.eq_of_pairwise ?_ (sortMembers_pairwise _) (sortMembers_pairwise _) hsame
  intro left right hleft hright hle hge
  have hleft := (sortMembers_perm members).mem_iff.mp hleft
  have hright := hperm.mem_iff.mpr ((sortMembers_perm others).mem_iff.mp hright)
  exact List.inj_on_of_nodup_map hbytes hleft hright
    (List.le_antisymm (compareUtf8_iff.mp hle) (compareUtf8_iff.mp hge))

theorem propertyOrder_perm (members : Members) : (propertyOrder members).Perm members :=
  ((List.mergeSort_perm _ _).append_right _).trans (List.filter_append_perm _ members)

theorem ordered_perm (members : Members) : (propertyOrder (sortMembers members)).Perm members :=
  (propertyOrder_perm _).trans (sortMembers_perm _)

section Values

mutual

def arranged : JsValue → JsValue
  | .undefined => .undefined
  | .null => .null
  | .boolean flag => .boolean flag
  | .number value => .number value
  | .bigint value => .bigint value
  | .string units => .string units
  | .array items => .array (arrangedItems items)
  | .object members =>
    .object (propertyOrder
      ((sortMembers (arrangedMembers members)).filter fun member => member.1 ≠ protoKey))

def arrangedItems : List JsValue → List JsValue
  | [] => []
  | item :: rest => arranged item :: arrangedItems rest

def arrangedMembers : Members → Members
  | [] => []
  | (key, value) :: rest => (key, arranged value) :: arrangedMembers rest

end

mutual

/-- The same value, up to the order of the keys of its objects. -/
def SameUpToOrder : JsValue → JsValue → Prop
  | .array items, other => ∃ others, other = .array others ∧ SameItems items others
  | .object members, other =>
    ∃ others arrangement, other = .object others ∧ arrangement.Perm others ∧
      SameMembers members arrangement
  | .undefined, other => other = .undefined
  | .null, other => other = .null
  | .boolean flag, other => other = .boolean flag
  | .number value, other => other = .number value
  | .bigint value, other => other = .bigint value
  | .string units, other => other = .string units

def SameItems : List JsValue → List JsValue → Prop
  | [], others => others = []
  | item :: rest, others =>
    ∃ other more, others = other :: more ∧ SameUpToOrder item other ∧ SameItems rest more

def SameMembers : Members → Members → Prop
  | [], others => others = []
  | (key, value) :: rest, others =>
    ∃ other more, others = (key, other) :: more ∧ SameUpToOrder value other ∧
      SameMembers rest more

end

mutual

/-- No object has a member `__proto__`. -/
def PlainKeys : JsValue → Prop
  | .array items => ItemsPlain items
  | .object members => protoKey ∉ members.map Prod.fst ∧ MembersPlain members
  | .undefined | .null | .boolean _ | .number _ | .bigint _ | .string _ => True

def ItemsPlain : List JsValue → Prop
  | [] => True
  | item :: rest => PlainKeys item ∧ ItemsPlain rest

def MembersPlain : Members → Prop
  | [] => True
  | (_, value) :: rest => PlainKeys value ∧ MembersPlain rest

end

mutual

/-- The keys of each object have different bytes. -/
def ApartKeys : JsValue → Prop
  | .array items => ItemsApart items
  | .object members => (keyBytes members).Nodup ∧ MembersApart members
  | .undefined | .null | .boolean _ | .number _ | .bigint _ | .string _ => True

def ItemsApart : List JsValue → Prop
  | [] => True
  | item :: rest => ApartKeys item ∧ ItemsApart rest

def MembersApart : Members → Prop
  | [] => True
  | (_, value) :: rest => ApartKeys value ∧ MembersApart rest

end

theorem arrangedMembers_keys (members : Members) :
    (arrangedMembers members).map Prod.fst = members.map Prod.fst := by
  induction members with
  | nil => rfl
  | cons member rest ih =>
    obtain ⟨key, value⟩ := member
    rw [arrangedMembers, List.map_cons, List.map_cons, ih]

theorem keyBytes_arrangedMembers (members : Members) :
    keyBytes (arrangedMembers members) = keyBytes members := by
  have hkeys := congrArg (List.map pathBytes) (arrangedMembers_keys members)
  rw [List.map_map, List.map_map] at hkeys
  exact hkeys

theorem filter_arranged {members : Members} (h : protoKey ∉ members.map Prod.fst) :
    (sortMembers (arrangedMembers members)).filter (fun member => member.1 ≠ protoKey) =
      sortMembers (arrangedMembers members) := by
  refine List.filter_eq_self.mpr fun member hmember => decide_eq_true ?_
  rintro hproto
  apply h
  rw [← arrangedMembers_keys, ← hproto]
  exact List.mem_map_of_mem ((sortMembers_perm _).mem_iff.mp hmember)

theorem arrangedMembers_eq_map (members : Members) :
    arrangedMembers members = members.map fun member => (member.1, arranged member.2) := by
  induction members with
  | nil => rfl
  | cons member rest ih => rw [arrangedMembers, ih, List.map_cons]

theorem membersPlain_iff {members : Members} :
    MembersPlain members ↔ ∀ member ∈ members, PlainKeys member.2 := by
  induction members with
  | nil => exact iff_of_true trivial (List.forall_mem_nil _)
  | cons member rest ih => rw [MembersPlain, ih, List.forall_mem_cons]

theorem arranged_object {members : Members} (h : protoKey ∉ members.map Prod.fst) :
    arranged (.object members) =
      .object (propertyOrder (sortMembers (arrangedMembers members))) := by
  rw [arranged, filter_arranged h]

/-- Members that are arranged to others in some order are arranged to them in one. -/
theorem exists_arrangement {members others : Members}
    (h : (arrangedMembers members).Perm (arrangedMembers others)) :
    ∃ arrangement, arrangement.Perm others ∧
      arrangedMembers members = arrangedMembers arrangement := by
  have hothers : List.Forall₂ (fun result member => result = (member.1, arranged member.2))
      (arrangedMembers others) others := by
    rw [arrangedMembers_eq_map, List.forall₂_map_left_iff, List.forall₂_same]
    exact fun _ _ => rfl
  obtain ⟨arrangement, hmembers, hperm⟩ := List.perm_comp_forall₂ h hothers
  refine ⟨arrangement, hperm, ?_⟩
  rw [arrangedMembers_eq_map arrangement]
  exact List.forall₂_eq_eq_eq ▸ List.forall₂_map_right_iff.mpr hmembers

theorem arranged_object_perm {members others : Members}
    (hmembers : protoKey ∉ members.map Prod.fst) (hothers : protoKey ∉ others.map Prod.fst)
    (h : arranged (.object members) = arranged (.object others)) :
    (arrangedMembers members).Perm (arrangedMembers others) := by
  rw [arranged_object hmembers, arranged_object hothers] at h
  exact (ordered_perm _).symm.trans ((JsValue.object.inj h) ▸ ordered_perm _)

def isLeaf : JsValue → Bool
  | .array _ | .object _ => false
  | .undefined | .null | .boolean _ | .number _ | .bigint _ | .string _ => true

theorem eq_of_arranged_leaf {value other : JsValue} (hleaf : isLeaf value = true)
    (h : arranged other = value) : other = value := by
  subst h
  cases other with
  | array items => cases hleaf
  | object members => cases hleaf
  | _ => rfl

mutual

/-- Plain values that are arranged to one value are the same up to order. -/
theorem sameUpToOrder_of_arranged : ∀ value other : JsValue, PlainKeys value → PlainKeys other →
    arranged value = arranged other → SameUpToOrder value other
  | .array items, other, hvalue, hother, h => by
    cases other with
    | array others =>
      exact ⟨others, rfl,
        sameItems_of_arranged items others hvalue hother (JsValue.array.inj h)⟩
    | _ => cases h
  | .object members, other, hvalue, hother, h => by
    cases other with
    | object others =>
      obtain ⟨arrangement, hperm, hmembers⟩ :=
        exists_arrangement (arranged_object_perm hvalue.1 hother.1 h)
      have hplain : MembersPlain arrangement := membersPlain_iff.mpr fun member hmember =>
        membersPlain_iff.mp hother.2 member (hperm.mem_iff.mp hmember)
      exact ⟨others, arrangement, rfl, hperm,
        sameMembers_of_arranged members arrangement hvalue.2 hplain hmembers⟩
    | _ => cases h
  | .undefined, _, _, _, h => eq_of_arranged_leaf rfl h.symm
  | .null, _, _, _, h => eq_of_arranged_leaf rfl h.symm
  | .boolean _, _, _, _, h => eq_of_arranged_leaf rfl h.symm
  | .number _, _, _, _, h => eq_of_arranged_leaf rfl h.symm
  | .bigint _, _, _, _, h => eq_of_arranged_leaf rfl h.symm
  | .string _, _, _, _, h => eq_of_arranged_leaf rfl h.symm

theorem sameItems_of_arranged : ∀ items others : List JsValue, ItemsPlain items →
    ItemsPlain others → arrangedItems items = arrangedItems others → SameItems items others
  | [], [], _, _, _ => rfl
  | item :: rest, other :: more, hitems, hothers, h =>
    ⟨other, more, rfl,
      sameUpToOrder_of_arranged item other hitems.1 hothers.1 (List.cons.inj h).1,
      sameItems_of_arranged rest more hitems.2 hothers.2 (List.cons.inj h).2⟩

theorem sameMembers_of_arranged : ∀ members others : Members, MembersPlain members →
    MembersPlain others → arrangedMembers members = arrangedMembers others →
    SameMembers members others
  | [], [], _, _, _ => rfl
  | (key, value) :: rest, (otherKey, other) :: more, hmembers, hothers, h => by
    obtain ⟨hmember, hrest⟩ := List.cons.inj h
    obtain ⟨rfl, hvalue⟩ := Prod.mk.inj hmember
    exact ⟨other, more, rfl, sameUpToOrder_of_arranged value other hmembers.1 hothers.1 hvalue,
      sameMembers_of_arranged rest more hmembers.2 hothers.2 hrest⟩

end

mutual

/-- Values that are the same up to order are arranged to one value when their keys are apart. -/
theorem arranged_of_sameUpToOrder : ∀ value other : JsValue, ApartKeys value →
    SameUpToOrder value other → arranged value = arranged other
  | .array items, other, hvalue, h => by
    obtain ⟨others, rfl, hitems⟩ := h
    rw [arranged, arranged, arrangedItems_of_sameItems items others hvalue hitems]
  | .object members, other, hvalue, h => by
    obtain ⟨others, arrangement, rfl, hperm, hmembers⟩ := h
    have harranged := arrangedMembers_of_sameMembers members arrangement hvalue.2 hmembers
    have hsorted :
        sortMembers (arrangedMembers members) = sortMembers (arrangedMembers others) := by
      refine sortMembers_congr ?_ ?_
      · rw [harranged, arrangedMembers_eq_map, arrangedMembers_eq_map]
        exact hperm.map _
      · rw [keyBytes_arrangedMembers]
        exact hvalue.1
    rw [arranged, arranged, hsorted]
  | .undefined, _, _, h => congrArg arranged h.symm
  | .null, _, _, h => congrArg arranged h.symm
  | .boolean _, _, _, h => congrArg arranged h.symm
  | .number _, _, _, h => congrArg arranged h.symm
  | .bigint _, _, _, h => congrArg arranged h.symm
  | .string _, _, _, h => congrArg arranged h.symm

theorem arrangedItems_of_sameItems : ∀ items others : List JsValue, ItemsApart items →
    SameItems items others → arrangedItems items = arrangedItems others
  | [], _, _, h => congrArg arrangedItems h.symm
  | item :: rest, _, hitems, h => by
    obtain ⟨other, more, rfl, hitem, hrest⟩ := h
    rw [arrangedItems, arrangedItems, arranged_of_sameUpToOrder item other hitems.1 hitem,
      arrangedItems_of_sameItems rest more hitems.2 hrest]

theorem arrangedMembers_of_sameMembers : ∀ members others : Members, MembersApart members →
    SameMembers members others → arrangedMembers members = arrangedMembers others
  | [], _, _, h => congrArg arrangedMembers h.symm
  | (key, value) :: rest, _, hmembers, h => by
    obtain ⟨other, more, rfl, hvalue, hrest⟩ := h
    rw [arrangedMembers, arrangedMembers,
      arranged_of_sameUpToOrder value other hmembers.1 hvalue,
      arrangedMembers_of_sameMembers rest more hmembers.2 hrest]

end

theorem membersJson_iff {members : Members} :
    MembersJson members ↔ ∀ member ∈ members, IsJson member.2 := by
  induction members with
  | nil => exact iff_of_true trivial (List.forall_mem_nil _)
  | cons member rest ih => rw [MembersJson, ih, List.forall_mem_cons]

mutual

theorem isJson_arranged : ∀ value : JsValue, IsJson value → IsJson (arranged value)
  | .array items, h => itemsJson_arranged items h
  | .object members, h => by
    have harranged := membersJson_iff.mp (membersJson_arranged members h)
    refine membersJson_iff.mpr fun member hmember => harranged member ?_
    exact (sortMembers_perm _).mem_iff.mp
      (List.mem_of_mem_filter ((propertyOrder_perm _).mem_iff.mp hmember))
  | .undefined, h => h
  | .null, h => h
  | .boolean _, h => h
  | .number _, h => h
  | .bigint _, h => h
  | .string _, h => h

theorem itemsJson_arranged : ∀ items : List JsValue, ItemsJson items →
    ItemsJson (arrangedItems items)
  | [], h => h
  | item :: rest, h => ⟨isJson_arranged item h.1, itemsJson_arranged rest h.2⟩

theorem membersJson_arranged : ∀ members : Members, MembersJson members →
    MembersJson (arrangedMembers members)
  | [], h => h
  | (_, value) :: rest, h => ⟨isJson_arranged value h.1, membersJson_arranged rest h.2⟩

end

end Values

end KodeGpt.CanonicalForms
