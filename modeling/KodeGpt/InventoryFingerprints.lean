import KodeGpt.CanonicalSchemas

/-!
When two inventories of a provider have one fingerprint.
-/

namespace KodeGpt.InventoryFingerprints

open JsonDocuments JsFrames JsObjects JsonReadback ProviderInventories CanonicalForms
open CanonicalSchemas
open FallibleActions (bind_eq_ok_iff map_eq_ok_iff)
open NodePaths (asciiText pathBytes_inj)
open PinnedSkills (compareUtf8)

def toolsOf (inventory : JsValue) : List JsValue :=
  match member inventory toolsKey with
  | .array items => items
  | _ => []

section Comparing

variable (normalize : JsText → JsText)

/-- The same schema, up to the order of keys and the normalization of strings. -/
def SameSchema (schema other : JsValue) : Prop :=
  SameUpToOrder (normalForm normalize schema) (normalForm normalize other)

structure SameTool (tool other : JsValue) : Prop where
  id : member tool idKey = member other idKey
  input : SameSchema normalize (member tool inputSchemaKey) (member other inputSchemaKey)
  output : SameSchema normalize (member tool outputSchemaKey) (member other outputSchemaKey)

/-- The same versions and the same tools, whatever the prose of both is. -/
structure SameInventory (inventory other : JsValue) : Prop where
  adapter : normalForm normalize (member inventory adapterVersionKey) =
    normalForm normalize (member other adapterVersionKey)
  provider : normalForm normalize (member inventory providerVersionKey) =
    normalForm normalize (member other providerVersionKey)
  tools : ∃ arrangement, arrangement.Perm (toolsOf other) ∧
    List.Forall₂ (SameTool normalize) (toolsOf inventory) arrangement

/-- All schemas of an inventory, normalized. -/
def EverySchema (holds : JsValue → Prop) (inventory : JsValue) : Prop :=
  ∀ tool ∈ toolsOf inventory, holds (normalForm normalize (member tool inputSchemaKey)) ∧
    holds (normalForm normalize (member tool outputSchemaKey))

structure ReadsTool (candidate : JsValue) (tool : Tool) : Prop where
  id : member candidate idKey = .string tool.id
  valid : isToolId tool.id = true
  input : Canonicalized normalize (member candidate inputSchemaKey) tool.inputSchema
  output : Canonicalized normalize (member candidate outputSchemaKey) tool.outputSchema

def versionValue : Option JsText → JsValue
  | some version => .string version
  | none => .null

structure ReadsInventory (value : JsValue) (inventory : Inventory) (read : List Tool) : Prop where
  adapter : normalForm normalize (member value adapterVersionKey) =
    .string inventory.adapterContractVersion
  provider : normalForm normalize (member value providerVersionKey) =
    versionValue inventory.providerContractVersion
  tools : List.Forall₂ (ReadsTool normalize) (toolsOf value) read
  sorted : inventory.tools = sortTools read
  distinct : requireDistinctIds inventory.tools = .ok ()

end Comparing

variable {normalize : JsText → JsText}

theorem requirePlainRecord_ok {value : JsValue} {message : String} {members : Members}
    (h : requirePlainRecord value message = .ok members) : value = .object members := by
  cases value with
  | object others => rw [Except.ok.inj h]
  | _ => cases h

theorem normalizeVersion_ok {value : JsValue} {label : String} {version : JsText}
    (h : normalizeVersion normalize value label = .ok version) :
    normalForm normalize value = .string version := by
  cases value with
  | string units =>
    unfold normalizeVersion at h
    dsimp only at h
    split at h
    · cases h
    · rw [← Except.ok.inj h]
      rfl
  | _ => cases h

theorem providerVersion_ok {value : JsValue} {version : Option JsText}
    (h : providerVersion normalize value = .ok version) :
    normalForm normalize value = versionValue version := by
  unfold providerVersion at h
  split at h
  · obtain rfl := Except.ok.inj h
    rfl
  · obtain ⟨text, htext, rfl⟩ := map_eq_ok_iff.mp h
    exact normalizeVersion_ok htext

theorem normalizeToolId_ok {value : JsValue} {id : JsText} (h : normalizeToolId value = .ok id) :
    value = .string id ∧ isToolId id = true := by
  cases value with
  | string units =>
    unfold normalizeToolId at h
    dsimp only at h
    split at h
    · obtain rfl := Except.ok.inj h
      exact ⟨rfl, ‹_›⟩
    · cases h
  | _ => cases h

theorem normalizeTool_ok {index : Nat} {candidate : JsValue} {tool : Tool}
    (h : normalizeTool normalize index candidate = .ok tool) :
    ReadsTool normalize candidate tool := by
  obtain ⟨members, hmembers, h⟩ := bind_eq_ok_iff.mp h
  obtain ⟨_, -, h⟩ := bind_eq_ok_iff.mp h
  obtain ⟨id, hid, h⟩ := bind_eq_ok_iff.mp h
  obtain ⟨input, hinput, h⟩ := bind_eq_ok_iff.mp h
  obtain ⟨output, houtput, h⟩ := bind_eq_ok_iff.mp h
  obtain ⟨_, -, h⟩ := bind_eq_ok_iff.mp h
  obtain ⟨_, -, h⟩ := bind_eq_ok_iff.mp h
  obtain rfl := Except.ok.inj h
  obtain rfl := requirePlainRecord_ok hmembers
  obtain ⟨hid, hvalid⟩ := normalizeToolId_ok hid
  exact ⟨hid, hvalid, canonicalizeJson_canonicalized _ _ _ hinput,
    canonicalizeJson_canonicalized _ _ _ houtput⟩

theorem normalizeTools_ok {index : Nat} {candidates : List JsValue} {tools : List Tool}
    (h : normalizeTools normalize index candidates = .ok tools) :
    List.Forall₂ (ReadsTool normalize) candidates tools := by
  induction candidates generalizing index tools with
  | nil =>
    obtain rfl := Except.ok.inj h
    exact .nil
  | cons candidate rest ih =>
    obtain ⟨tool, htool, h⟩ := bind_eq_ok_iff.mp h
    obtain ⟨later, hlater, h⟩ := bind_eq_ok_iff.mp h
    obtain rfl := Except.ok.inj h
    exact .cons (normalizeTool_ok htool) (ih hlater)

theorem requireTools_ok {value : JsValue} {items : List JsValue}
    (h : requireTools value = .ok items) :
    value = .array items := by
  cases value with
  | array others =>
    unfold requireTools at h
    dsimp only at h
    split at h
    · cases h
    · rw [Except.ok.inj h]
  | _ => cases h

theorem normalizeProviderInventory_ok {value : JsValue} {inventory : Inventory}
    (h : normalizeProviderInventory normalize value = .ok inventory) :
    ∃ tools, ReadsInventory normalize value inventory tools := by
  obtain ⟨members, hmembers, h⟩ := bind_eq_ok_iff.mp h
  obtain ⟨_, -, h⟩ := bind_eq_ok_iff.mp h
  obtain ⟨adapter, hadapter, h⟩ := bind_eq_ok_iff.mp h
  obtain ⟨provider, hprovider, h⟩ := bind_eq_ok_iff.mp h
  obtain ⟨candidates, hcandidates, h⟩ := bind_eq_ok_iff.mp h
  obtain ⟨tools, htools, h⟩ := bind_eq_ok_iff.mp h
  obtain ⟨_, hdistinct, h⟩ := bind_eq_ok_iff.mp h
  dsimp only at h
  split at h
  · cases h
  · obtain rfl := Except.ok.inj h
    obtain rfl := requirePlainRecord_ok hmembers
    have hcandidates : toolsOf (.object members) = candidates := by
      rw [toolsOf, requireTools_ok hcandidates]
    exact ⟨tools, normalizeVersion_ok hadapter, providerVersion_ok hprovider,
      hcandidates ▸ normalizeTools_ok htools, rfl, hdistinct⟩

theorem isJson_tools {candidates : List JsValue} {tools : List Tool}
    (h : List.Forall₂ (ReadsTool normalize) candidates tools) :
    ∀ tool ∈ tools, IsJson (toolValue tool) := by
  intro tool htool
  obtain ⟨index, hindex, rfl⟩ := List.getElem_of_mem htool
  have hread := h.get (h.length_eq ▸ hindex) hindex
  exact ⟨trivial, hread.input.1 ▸ isJson_arranged _ hread.input.2,
    hread.output.1 ▸ isJson_arranged _ hread.output.2, trivial⟩

theorem itemsJson_toolValues {tools : List Tool} (h : ∀ tool ∈ tools, IsJson (toolValue tool)) :
    ItemsJson (tools.map toolValue) := by
  induction tools with
  | nil => exact trivial
  | cons tool rest ih =>
    obtain ⟨htool, hrest⟩ := List.forall_mem_cons.mp h
    exact ⟨htool, ih hrest⟩

theorem isJson_inventoryValue {inventory : Inventory}
    (h : ∀ tool ∈ inventory.tools, IsJson (toolValue tool)) :
    IsJson (inventoryValue inventory) := by
  have hversion : ∀ version : Option JsText, IsJson (versionValue version) := by
    intro version
    cases version <;> exact trivial
  exact ⟨trivial, hversion inventory.providerContractVersion, itemsJson_toolValues h, trivial⟩

theorem ReadsInventory.isJson {value : JsValue} {inventory : Inventory} {read : List Tool}
    (h : ReadsInventory normalize value inventory read) : IsJson (inventoryValue inventory) :=
  isJson_inventoryValue fun tool htool =>
    isJson_tools h.tools tool ((List.mergeSort_perm _ _).mem_iff.mp (h.sorted ▸ htool))

theorem toolValue_injective : Function.Injective toolValue := by
  intro tool other h
  cases tool
  cases other
  simp only [toolValue, JsValue.object.injEq, List.cons.injEq, Prod.mk.injEq, true_and,
    JsValue.string.injEq, and_true] at h
  obtain ⟨rfl, rfl, rfl⟩ := h
  rfl

theorem versionValue_injective : Function.Injective versionValue := by
  intro version other h
  cases version with
  | none =>
    cases other with
    | none => rfl
    | some other => cases h
  | some version =>
    cases other with
    | none => cases h
    | some other => rw [JsValue.string.inj h]

theorem inventoryValue_injective : Function.Injective inventoryValue := by
  intro inventory other h
  obtain ⟨adapter, provider, tools⟩ := inventory
  obtain ⟨adapter', provider', tools'⟩ := other
  have hprovider : (inventoryValue ⟨adapter, provider, tools⟩) =
      .object [(adapterVersionKey, .string adapter), (providerVersionKey, versionValue provider),
        (toolsKey, .array (tools.map toolValue))] := rfl
  have hprovider' : (inventoryValue ⟨adapter', provider', tools'⟩) =
      .object [(adapterVersionKey, .string adapter'), (providerVersionKey, versionValue provider'),
        (toolsKey, .array (tools'.map toolValue))] := rfl
  rw [hprovider, hprovider'] at h
  simp only [JsValue.object.injEq, List.cons.injEq, Prod.mk.injEq, true_and, JsValue.string.injEq,
    JsValue.array.injEq, and_true] at h
  obtain ⟨rfl, hversion, htools⟩ := h
  rw [versionValue_injective hversion, toolValue_injective.list_map htools]

theorem canonicalBytes_inj {value other : JsValue} {inventory inventory' : Inventory}
    {read read' : List Tool} (h : ReadsInventory normalize value inventory read)
    (h' : ReadsInventory normalize other inventory' read')
    (hbytes : canonicalBytes inventory = canonicalBytes inventory') : inventory = inventory' :=
  inventoryValue_injective (jsonBytes_inj h.isJson h'.isJson hbytes)

theorem isAlphanumeric_ascii {unit : UInt16} (h : isAlphanumeric unit = true) :
    unit.toNat < 128 := by
  simp only [isAlphanumeric, isDigit, Bool.or_eq_true, Bool.and_eq_true, decide_eq_true_eq,
    UInt16.le_iff_toNat_le] at h
  obtain (⟨-, h⟩ | ⟨-, h⟩) | ⟨-, h⟩ := h
  all_goals exact Nat.lt_of_le_of_lt h (by decide)

theorem isIdUnit_ascii {unit : UInt16} (h : isIdUnit unit = true) : unit.toNat < 128 := by
  rw [isIdUnit, Bool.or_eq_true] at h
  obtain h | h := h
  · exact isAlphanumeric_ascii h
  · have hall : ([46, 95, 58, 43, 45] : JsText).all
        (fun unit => decide (unit.toNat < 128)) = true := by decide
    exact of_decide_eq_true (List.all_eq_true.mp hall unit (List.contains_iff_mem.mp h))

theorem asciiText_isToolId {id : JsText} (h : isToolId id = true) : asciiText id := by
  cases id with
  | nil => exact nofun
  | cons first rest =>
    rw [isToolId, Bool.and_eq_true, Bool.and_eq_true] at h
    exact List.forall_mem_cons.mpr ⟨isAlphanumeric_ascii h.1.1,
      fun unit hunit => isIdUnit_ascii (List.all_eq_true.mp h.1.2 unit hunit)⟩

theorem requireDistinctIds_ok {tools : List Tool} (h : requireDistinctIds tools = .ok ()) :
    tools.IsChain fun first second => first.id ≠ second.id := by
  induction tools using requireDistinctIds.induct with
  | case1 first second rest hsame =>
    rw [requireDistinctIds, if_pos hsame] at h
    cases h
  | case2 first second rest hdiffer ih =>
    rw [requireDistinctIds, if_neg hdiffer] at h
    exact List.isChain_cons_cons.mpr ⟨hdiffer, ih h⟩
  | case3 tools htools =>
    match tools with
    | [] => exact .nil
    | [tool] => exact .singleton tool
    | first :: second :: rest => exact absurd rfl (htools first second rest)

theorem sortTools_perm (tools : List Tool) : (sortTools tools).Perm tools :=
  List.mergeSort_perm _ _

theorem sortTools_pairwise (tools : List Tool) :
    (sortTools tools).Pairwise fun left right => compareUtf8 left.id right.id = true :=
  List.pairwise_mergeSort (fun left middle right => compareUtf8_trans left.id middle.id right.id)
    (fun left right => compareUtf8_total left.id right.id) tools

theorem id_eq_of_compare {first second : Tool} (hfirst : isToolId first.id = true)
    (hsecond : isToolId second.id = true) (hle : compareUtf8 first.id second.id = true)
    (hge : compareUtf8 second.id first.id = true) : first.id = second.id :=
  pathBytes_inj (asciiText_isToolId hfirst) (asciiText_isToolId hsecond)
    (List.le_antisymm (compareUtf8_iff.mp hle) (compareUtf8_iff.mp hge))

/-- In sorted order equal identifiers would stand next to each other. -/
theorem nodup_of_isChain {tools : List Tool} (hvalid : ∀ tool ∈ tools, isToolId tool.id = true)
    (hle : tools.Pairwise fun left right => compareUtf8 left.id right.id = true)
    (hne : tools.IsChain fun first second => first.id ≠ second.id) : (tools.map Tool.id).Nodup := by
  induction tools with
  | nil => exact List.nodup_nil
  | cons first rest ih =>
    obtain ⟨hfirst, hrest⟩ := List.forall_mem_cons.mp hvalid
    obtain ⟨hbefore, hle⟩ := List.pairwise_cons.mp hle
    refine List.nodup_cons.mpr ⟨fun hmem => ?_, ih hrest hle hne.of_cons⟩
    obtain ⟨later, hlater, hsame⟩ := List.mem_map.mp hmem
    cases rest with
    | nil => cases hlater
    | cons second more =>
      obtain ⟨hdiffer, -⟩ := List.isChain_cons_cons.mp hne
      apply hdiffer
      obtain rfl | hmore := List.mem_cons.mp hlater
      · exact hsame.symm
      · have hsecond := (List.pairwise_cons.mp hle).1 later hmore
        rw [hsame] at hsecond
        exact id_eq_of_compare hfirst (hrest _ List.mem_cons_self)
          (hbefore _ List.mem_cons_self) hsecond

theorem ids_nodup {tools : List Tool} (hvalid : ∀ tool ∈ tools, isToolId tool.id = true)
    (h : requireDistinctIds (sortTools tools) = .ok ()) : (tools.map Tool.id).Nodup := by
  have hperm := sortTools_perm tools
  have hsorted := nodup_of_isChain (fun tool htool => hvalid tool (hperm.mem_iff.mp htool))
    (sortTools_pairwise tools) (requireDistinctIds_ok h)
  exact (hperm.map Tool.id).nodup_iff.mp hsorted

/-- Tools of distinct identifiers are sorted in one order. -/
theorem sortTools_congr {tools others : List Tool} (hperm : tools.Perm others)
    (hvalid : ∀ tool ∈ tools, isToolId tool.id = true) (hids : (tools.map Tool.id).Nodup) :
    sortTools tools = sortTools others := by
  have hsame : (sortTools tools).Perm (sortTools others) :=
    ((sortTools_perm tools).trans hperm).trans (sortTools_perm others).symm
  refine List.Perm.eq_of_pairwise ?_ (sortTools_pairwise _) (sortTools_pairwise _) hsame
  intro first second hfirst hsecond hle hge
  have hfirst := (sortTools_perm tools).mem_iff.mp hfirst
  have hsecond := hperm.mem_iff.mpr ((sortTools_perm others).mem_iff.mp hsecond)
  exact List.inj_on_of_nodup_map hids hfirst hsecond
    (id_eq_of_compare (hvalid _ hfirst) (hvalid _ hsecond) hle hge)

theorem forall₂_through {α β γ : Type} {first : α → β → Prop} {second : β → γ → Prop}
    {result : α → γ → Prop} {lefts : List α} {middles : List β} {rights : List γ}
    (hfirst : List.Forall₂ first lefts middles) (hsecond : List.Forall₂ second middles rights)
    (h : ∀ left ∈ lefts, ∀ middle ∈ middles, ∀ right ∈ rights,
      first left middle → second middle right → result left right) :
    List.Forall₂ result lefts rights := by
  induction hfirst generalizing rights with
  | nil =>
    obtain rfl := List.forall₂_nil_left_iff.mp hsecond
    exact .nil
  | cons hhead htail ih =>
    cases hsecond with
    | cons hhead' htail' =>
      have hfirst := h _ List.mem_cons_self _ List.mem_cons_self _ List.mem_cons_self
      refine .cons (hfirst hhead hhead')
        (ih htail' fun left hleft middle hmiddle right hright => ?_)
      exact h left (List.mem_cons_of_mem _ hleft) middle (List.mem_cons_of_mem _ hmiddle) right
        (List.mem_cons_of_mem _ hright)

section Fingerprints

variable {value other : JsValue} {inventory inventory' : Inventory} {read read' : List Tool}

theorem ReadsInventory.valid (h : ReadsInventory normalize value inventory read) :
    ∀ tool ∈ read, isToolId tool.id = true := by
  intro tool htool
  obtain ⟨index, hindex, rfl⟩ := List.getElem_of_mem htool
  exact (h.tools.get (h.tools.length_eq ▸ hindex) hindex).valid

theorem ReadsInventory.nodup (h : ReadsInventory normalize value inventory read) :
    (read.map Tool.id).Nodup :=
  ids_nodup h.valid (h.sorted ▸ h.distinct)

theorem sameInventory_of_eq (h : ReadsInventory normalize value inventory read)
    (h' : ReadsInventory normalize other inventory read')
    (hplain : EverySchema normalize PlainKeys value)
    (hplain' : EverySchema normalize PlainKeys other) : SameInventory normalize value other := by
  refine ⟨h.adapter.trans h'.adapter.symm, h.provider.trans h'.provider.symm, ?_⟩
  have hsorted : sortTools read = sortTools read' := h.sorted.symm.trans h'.sorted
  have hperm : read.Perm read' :=
    (sortTools_perm read).symm.trans (hsorted ▸ sortTools_perm read')
  obtain ⟨arrangement, harrangement, hother⟩ := List.perm_comp_forall₂ hperm h'.tools.flip
  refine ⟨arrangement, hother, forall₂_through h.tools harrangement ?_⟩
  intro tool htool middle _ tool' htool' hread hread'
  have hfirst := hplain tool htool
  have hsecond := hplain' tool' (hother.mem_iff.mp htool')
  exact ⟨hread.id.trans hread'.id.symm,
    sameUpToOrder_of_arranged _ _ hfirst.1 hsecond.1 (hread.input.1.symm.trans hread'.input.1),
    sameUpToOrder_of_arranged _ _ hfirst.2 hsecond.2 (hread.output.1.symm.trans hread'.output.1)⟩

theorem ReadsTool.eq_of_sameTool {tool tool' : JsValue} {found read : Tool}
    (h : ReadsTool normalize tool found)
    (hapart : ApartKeys (normalForm normalize (member tool inputSchemaKey)) ∧
      ApartKeys (normalForm normalize (member tool outputSchemaKey)))
    (hsame : SameTool normalize tool tool') (h' : ReadsTool normalize tool' read) :
    found = read := by
  obtain ⟨id, input, output⟩ := found
  obtain ⟨id', input', output'⟩ := read
  obtain rfl : id = id' := JsValue.string.inj (h.id.symm.trans (hsame.id.trans h'.id))
  obtain rfl : input = input' := h.input.1.trans
    ((arranged_of_sameUpToOrder _ _ hapart.1 hsame.input).trans h'.input.1.symm)
  obtain rfl : output = output' := h.output.1.trans
    ((arranged_of_sameUpToOrder _ _ hapart.2 hsame.output).trans h'.output.1.symm)
  rfl

theorem eq_of_sameInventory (h : ReadsInventory normalize value inventory read)
    (h' : ReadsInventory normalize other inventory' read')
    (hapart : EverySchema normalize ApartKeys value) (hsame : SameInventory normalize value other) :
    inventory = inventory' := by
  obtain ⟨adapter, provider, tools⟩ := inventory
  obtain ⟨adapter', provider', tools'⟩ := inventory'
  obtain rfl : adapter = adapter' :=
    JsValue.string.inj (h.adapter.symm.trans (hsame.adapter.trans h'.adapter))
  obtain rfl : provider = provider' :=
    versionValue_injective (h.provider.symm.trans (hsame.provider.trans h'.provider))
  obtain ⟨arrangement, harrangement, hsame⟩ := hsame.tools
  obtain ⟨between, hbetween, hperm⟩ := List.perm_comp_forall₂ harrangement h'.tools
  have hfound : List.Forall₂
      (fun tool read => ∀ found, ReadsTool normalize tool found → found = read)
      (toolsOf value) between :=
    forall₂_through hsame hbetween fun tool htool _ _ _ _ hsame hread found hfound =>
      hfound.eq_of_sameTool (hapart tool htool) hsame hread
  have heq : read = between := by
    rw [← List.forall₂_eq_eq_eq]
    exact forall₂_through h.tools.flip hfound fun found _ _ _ _ _ hread heq => heq found hread
  have hsorted : sortTools read = sortTools read' := sortTools_congr (heq ▸ hperm) h.valid h.nodup
  have htools : tools = tools' := h.sorted.trans (hsorted.trans h'.sorted.symm)
  rw [htools]

end Fingerprints

end KodeGpt.InventoryFingerprints
