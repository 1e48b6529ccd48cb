import KodeGpt.InventoryFingerprints
import KodeGpt.MirroredSchemas

/-!
For which inventories the fingerprint is canonical: those in whose schemas no key is
`__proto__`, and no object has two keys of the same bytes.
-/

namespace KodeGpt.FingerprintFaults

open JsonDocuments JsFrames JsObjects JsonReadback JsonSizes ProviderInventories CanonicalForms
open CanonicalSchemas ReorderedSchemas MirroredSchemas InventoryFingerprints
open FallibleActions (bind_eq_ok_iff)

section Rebuilding

variable (transform : JsValue → JsValue)

def rebuiltTool (tool : JsValue) : JsValue :=
  .object [(idKey, member tool idKey), (inputSchemaKey, transform (member tool inputSchemaKey)),
    (outputSchemaKey, transform (member tool outputSchemaKey))]

def rebuilt (inventory : JsValue) : JsValue :=
  .object [(adapterVersionKey, member inventory adapterVersionKey),
    (providerVersionKey, member inventory providerVersionKey),
    (toolsKey, .array ((toolsOf inventory).map (rebuiltTool transform)))]

end Rebuilding

variable {normalize : JsText → JsText} {transform : JsValue → JsValue}

/-- The other schema is accepted with the schema, and as long. -/
def Keeps (normalize : JsText → JsText) (transform : JsValue → JsValue) (schema : JsValue) : Prop :=
  ∀ canonical, canonicalizeJson normalize schema 0 = .ok canonical →
    ∃ canonical', canonicalizeJson normalize (transform schema) 0 = .ok canonical' ∧
      jsonLength canonical'.value = jsonLength canonical.value

/-- Tools of the same identifier and schemas of the same lengths. -/
structure Alike (tool other : Tool) : Prop where
  id : other.id = tool.id
  input : jsonLength other.inputSchema = jsonLength tool.inputSchema
  output : jsonLength other.outputSchema = jsonLength tool.outputSchema

theorem enforceSchemaBytes_ok {value other : JsValue} {maximum : Nat} {kind : String}
    (hlength : jsonLength other = jsonLength value)
    (h : enforceSchemaBytes value maximum kind = .ok ()) :
    enforceSchemaBytes other maximum kind = .ok () := by
  rw [enforceSchemaBytes, hlength]
  exact h

theorem normalizeTool_rebuilt {index : Nat} {candidate : JsValue} {tool : Tool}
    (h : normalizeTool normalize index candidate = .ok tool)
    (hinput : Keeps normalize transform (member candidate inputSchemaKey))
    (houtput : Keeps normalize transform (member candidate outputSchemaKey)) :
    ∃ other, normalizeTool normalize index (rebuiltTool transform candidate) = .ok other ∧
      Alike tool other := by
  obtain ⟨members, hmembers, h⟩ := bind_eq_ok_iff.mp h
  obtain ⟨_, -, h⟩ := bind_eq_ok_iff.mp h
  obtain ⟨id, hid, h⟩ := bind_eq_ok_iff.mp h
  obtain ⟨input, hcanonical, h⟩ := bind_eq_ok_iff.mp h
  obtain ⟨output, hcanonical', h⟩ := bind_eq_ok_iff.mp h
  obtain ⟨_, hbytes, h⟩ := bind_eq_ok_iff.mp h
  obtain ⟨_, hbytes', h⟩ := bind_eq_ok_iff.mp h
  obtain rfl := Except.ok.inj h
  obtain rfl := requirePlainRecord_ok hmembers
  obtain ⟨input', hinput', hlength⟩ := hinput input hcanonical
  obtain ⟨output', houtput', hlength'⟩ := houtput output hcanonical'
  refine ⟨⟨id, input'.value, output'.value⟩, ?_, rfl, hlength, hlength'⟩
  refine bind_eq_ok_iff.mpr ⟨_, rfl, bind_eq_ok_iff.mpr ⟨(), rfl, ?_⟩⟩
  refine bind_eq_ok_iff.mpr ⟨id, hid, bind_eq_ok_iff.mpr ⟨input', hinput', ?_⟩⟩
  refine bind_eq_ok_iff.mpr ⟨output', houtput', bind_eq_ok_iff.mpr ⟨(), ?_, ?_⟩⟩
  · exact enforceSchemaBytes_ok hlength hbytes
  · exact bind_eq_ok_iff.mpr ⟨(), enforceSchemaBytes_ok hlength' hbytes', rfl⟩

theorem normalizeTools_rebuilt {index : Nat} {candidates : List JsValue} {tools : List Tool}
    (h : normalizeTools normalize index candidates = .ok tools)
    (hkeeps : ∀ candidate ∈ candidates,
      Keeps normalize transform (member candidate inputSchemaKey) ∧
        Keeps normalize transform (member candidate outputSchemaKey)) :
    ∃ others, normalizeTools normalize index (candidates.map (rebuiltTool transform)) =
      .ok others ∧ List.Forall₂ Alike tools others := by
  induction candidates generalizing index tools with
  | nil =>
    obtain rfl := Except.ok.inj h
    exact ⟨[], rfl, .nil⟩
  | cons candidate rest ih =>
    obtain ⟨tool, htool, h⟩ := bind_eq_ok_iff.mp h
    obtain ⟨later, hlater, h⟩ := bind_eq_ok_iff.mp h
    obtain rfl := Except.ok.inj h
    obtain ⟨hcandidate, hrest⟩ := List.forall_mem_cons.mp hkeeps
    obtain ⟨other, hother, halike⟩ := normalizeTool_rebuilt htool hcandidate.1 hcandidate.2
    obtain ⟨others, hothers, halikes⟩ := ih hlater hrest
    exact ⟨other :: others, bind_eq_ok_iff.mpr ⟨other, hother,
      bind_eq_ok_iff.mpr ⟨others, hothers, rfl⟩⟩, .cons halike halikes⟩

theorem requireDistinctIds_of_nodup {tools : List Tool} (h : (tools.map Tool.id).Nodup) :
    requireDistinctIds tools = .ok () := by
  induction tools using requireDistinctIds.induct with
  | case1 first second rest hsame =>
    exact absurd (hsame ▸ List.mem_cons_self) (List.nodup_cons.mp h).1
  | case2 first second rest hdiffer ih =>
    rw [requireDistinctIds, if_neg hdiffer]
    exact ih (List.nodup_cons.mp h).2
  | case3 tools htools =>
    obtain _ | ⟨first, _ | ⟨second, rest⟩⟩ := tools
    · rfl
    · rfl
    · exact absurd rfl (htools first second rest)

theorem alike_ids {tools others : List Tool} (h : List.Forall₂ Alike tools others) :
    others.map Tool.id = tools.map Tool.id := by
  induction h with
  | nil => rfl
  | cons halike _ ih => rw [List.map_cons, List.map_cons, halike.id, ih]

def toolLength (tool : Tool) : Nat := jsonLength (toolValue tool) + 1

theorem Alike.toolLength_eq {tool other : Tool} (h : Alike tool other)
    (htool : IsJson (toolValue tool)) (hother : IsJson (toolValue other)) :
    toolLength other = toolLength tool := by
  rw [toolLength, toolLength, toolValue, toolValue, jsonLength_members hother,
    jsonLength_members htool]
  simp only [List.map_cons, List.map_nil, memberLength, jsonLength_string, h.id, h.input, h.output]

theorem toolLengths_alike {tools others : List Tool} (h : List.Forall₂ Alike tools others)
    (htools : ∀ tool ∈ tools, IsJson (toolValue tool))
    (hothers : ∀ tool ∈ others, IsJson (toolValue tool)) :
    others.map toolLength = tools.map toolLength := by
  induction h with
  | nil => rfl
  | cons halike _ ih =>
    obtain ⟨htool, htools⟩ := List.forall_mem_cons.mp htools
    obtain ⟨hother, hothers⟩ := List.forall_mem_cons.mp hothers
    rw [List.map_cons, List.map_cons, halike.toolLength_eq htool hother, ih htools hothers]

theorem jsonLength_inventoryValue {adapter : JsText} {provider : Option JsText}
    {tools others : List Tool} (hlengths : (others.map toolLength).Perm (tools.map toolLength))
    (htools : ∀ tool ∈ tools, IsJson (toolValue tool))
    (hothers : ∀ tool ∈ others, IsJson (toolValue tool)) :
    jsonLength (inventoryValue ⟨adapter, provider, others⟩) =
      jsonLength (inventoryValue ⟨adapter, provider, tools⟩) := by
  have hitems : ∀ {tools : List Tool}, (∀ tool ∈ tools, IsJson (toolValue tool)) →
      jsonLength (.array (tools.map toolValue)) = max 2 (1 + (tools.map toolLength).sum) := by
    intro tools htools
    have hjson := itemsJson_iff.mp (itemsJson_toolValues htools)
    rw [jsonLength_array fun item hitem => hasText_of_isJson (hjson item hitem), List.map_map]
    rfl
  have harray : jsonLength (.array (others.map toolValue)) =
      jsonLength (.array (tools.map toolValue)) := by
    rw [hitems hothers, hitems htools, hlengths.sum_eq]
  have hjson := @isJson_inventoryValue ⟨adapter, provider, tools⟩ htools
  have hjson' := @isJson_inventoryValue ⟨adapter, provider, others⟩ hothers
  rw [inventoryValue, inventoryValue, jsonLength_members hjson, jsonLength_members hjson']
  simp only [List.map_cons, List.map_nil, memberLength, harray]

theorem normalizeTools_valid {index : Nat} {candidates : List JsValue} {tools : List Tool}
    (h : normalizeTools normalize index candidates = .ok tools) :
    ∀ tool ∈ tools, isToolId tool.id = true := by
  intro tool htool
  have hreads := normalizeTools_ok h
  obtain ⟨index, hindex, rfl⟩ := List.getElem_of_mem htool
  exact (hreads.get (hreads.length_eq ▸ hindex) hindex).valid

theorem requireTools_length {value : JsValue} {items : List JsValue}
    (h : requireTools value = .ok items) : items.length ≤ maxTools := by
  unfold requireTools at h
  split at h
  · split at h
    · cases h
    · obtain rfl := Except.ok.inj h
      exact Nat.not_lt.mp ‹_›
  · cases h

theorem normalizeProviderInventory_rebuilt {value : JsValue} {inventory : Inventory}
    (h : normalizeProviderInventory normalize value = .ok inventory)
    (hkeeps : ∀ tool ∈ toolsOf value,
      Keeps normalize transform (member tool inputSchemaKey) ∧
        Keeps normalize transform (member tool outputSchemaKey)) :
    ∃ other, normalizeProviderInventory normalize (rebuilt transform value) = .ok other := by
  obtain ⟨read, hread⟩ := normalizeProviderInventory_ok h
  obtain ⟨members, hmembers, h⟩ := bind_eq_ok_iff.mp h
  obtain ⟨_, -, h⟩ := bind_eq_ok_iff.mp h
  obtain ⟨adapter, hadapter, h⟩ := bind_eq_ok_iff.mp h
  obtain ⟨provider, hprovider, h⟩ := bind_eq_ok_iff.mp h
  obtain ⟨candidates, hcandidates, h⟩ := bind_eq_ok_iff.mp h
  obtain ⟨tools, htools, h⟩ := bind_eq_ok_iff.mp h
  obtain ⟨_, hdistinct, h⟩ := bind_eq_ok_iff.mp h
  dsimp only at h
  split at h
  · cases h
  · rename_i hbytes
    obtain rfl := requirePlainRecord_ok hmembers
    have hlist : toolsOf (.object members) = candidates := by
      rw [toolsOf, requireTools_ok hcandidates]
    rw [hlist] at hkeeps
    obtain ⟨others, hothers, halike⟩ := normalizeTools_rebuilt htools hkeeps
    have hjson := isJson_tools (normalizeTools_ok htools)
    have hjson' := isJson_tools (normalizeTools_ok hothers)
    have hids : (others.map Tool.id).Nodup :=
      alike_ids halike ▸ ids_nodup (normalizeTools_valid htools) hdistinct
    have hdistinct' : requireDistinctIds (sortTools others) = .ok () :=
      requireDistinctIds_of_nodup (((sortTools_perm others).map Tool.id).nodup_iff.mpr hids)
    have hlengths :
        ((sortTools others).map toolLength).Perm ((sortTools tools).map toolLength) := by
      refine ((sortTools_perm others).map _).trans ?_
      rw [toolLengths_alike halike hjson hjson']
      exact ((sortTools_perm tools).map _).symm
    have hbytes' : ¬ maxCanonicalInventoryBytes <
        jsonLength (inventoryValue ⟨adapter, provider, sortTools others⟩) := by
      rwa [jsonLength_inventoryValue hlengths
        (fun tool htool => hjson tool ((sortTools_perm tools).mem_iff.mp htool))
        (fun tool htool => hjson' tool ((sortTools_perm others).mem_iff.mp htool))]
    have hcount : requireTools (.array (candidates.map (rebuiltTool transform))) =
        .ok (candidates.map (rebuiltTool transform)) := by
      have hcandidates := requireTools_length hcandidates
      rw [requireTools, List.length_map, if_neg (Nat.not_lt.mpr hcandidates)]
    refine ⟨⟨adapter, provider, sortTools others⟩, ?_⟩
    rw [rebuilt, hlist]
    refine bind_eq_ok_iff.mpr ⟨_, rfl, bind_eq_ok_iff.mpr ⟨(), rfl, ?_⟩⟩
    refine bind_eq_ok_iff.mpr ⟨adapter, hadapter, bind_eq_ok_iff.mpr ⟨provider, hprovider, ?_⟩⟩
    refine bind_eq_ok_iff.mpr ⟨_, hcount, bind_eq_ok_iff.mpr ⟨others, hothers, ?_⟩⟩
    exact bind_eq_ok_iff.mpr ⟨(), hdistinct', if_neg hbytes'⟩

theorem normalizeTools_fit {index : Nat} {candidates : List JsValue} {tools : List Tool}
    (h : normalizeTools normalize index candidates = .ok tools) :
    ∀ tool ∈ candidates, Fits normalize (member tool inputSchemaKey) 0 ∧
      Fits normalize (member tool outputSchemaKey) 0 := by
  induction candidates generalizing index tools with
  | nil => exact List.forall_mem_nil _
  | cons candidate rest ih =>
    obtain ⟨tool, htool, h⟩ := bind_eq_ok_iff.mp h
    obtain ⟨later, hlater, -⟩ := bind_eq_ok_iff.mp h
    refine List.forall_mem_cons.mpr ⟨?_, ih hlater⟩
    obtain ⟨members, hmembers, h⟩ := bind_eq_ok_iff.mp htool
    obtain ⟨_, -, h⟩ := bind_eq_ok_iff.mp h
    obtain ⟨id, -, h⟩ := bind_eq_ok_iff.mp h
    obtain ⟨input, hinput, h⟩ := bind_eq_ok_iff.mp h
    obtain ⟨output, houtput, -⟩ := bind_eq_ok_iff.mp h
    rw [requirePlainRecord_ok hmembers]
    exact ⟨fits_of_canonicalizeJson _ _ _ hinput, fits_of_canonicalizeJson _ _ _ houtput⟩

theorem normalizeProviderInventory_fit {value : JsValue} {inventory : Inventory}
    (h : normalizeProviderInventory normalize value = .ok inventory) :
    ∀ tool ∈ toolsOf value, Fits normalize (member tool inputSchemaKey) 0 ∧
      Fits normalize (member tool outputSchemaKey) 0 := by
  obtain ⟨members, hmembers, h⟩ := bind_eq_ok_iff.mp h
  obtain ⟨_, -, h⟩ := bind_eq_ok_iff.mp h
  obtain ⟨adapter, -, h⟩ := bind_eq_ok_iff.mp h
  obtain ⟨provider, -, h⟩ := bind_eq_ok_iff.mp h
  obtain ⟨candidates, hcandidates, h⟩ := bind_eq_ok_iff.mp h
  obtain ⟨tools, htools, -⟩ := bind_eq_ok_iff.mp h
  have hlist : toolsOf value = candidates := by
    rw [requirePlainRecord_ok hmembers, toolsOf, requireTools_ok hcandidates]
  exact hlist ▸ normalizeTools_fit htools

theorem keeps_withoutProto {schema : JsValue} (h : Fits normalize schema 0) :
    Keeps normalize (withoutProto normalize) schema := by
  intro canonical hcanonical
  obtain ⟨canonical', hcanonical'⟩ := exists_canonicalizeJson _ 0 (fits_withoutProto schema 0 h)
    (plain_withoutProto schema)
  refine ⟨canonical', hcanonical', ?_⟩
  rw [(canonicalizeJson_canonicalized _ _ _ hcanonical').1, arranged_withoutProto,
    ← (canonicalizeJson_canonicalized _ _ _ hcanonical).1]

theorem keeps_mirrored {schema : JsValue} (h : Fits normalize schema 0)
    (hplain : PlainKeys (normalForm normalize schema)) : Keeps normalize mirrored schema := by
  intro canonical hcanonical
  obtain ⟨canonical', hcanonical'⟩ := exists_canonicalizeJson _ 0 (fits_mirrored schema 0 h)
    (@normalForm_mirrored normalize schema ▸ plain_mirrored _ hplain)
  refine ⟨canonical', hcanonical', ?_⟩
  obtain ⟨hvalue, hjson⟩ := canonicalizeJson_canonicalized _ _ _ hcanonical
  rw [(canonicalizeJson_canonicalized _ _ _ hcanonical').1, normalForm_mirrored,
    jsonLength_mirrored _ hjson hplain, hvalue]

mutual

theorem plain_of_sameUpToOrder : ∀ value other : JsValue, SameUpToOrder value other →
    PlainKeys other → PlainKeys value
  | .array items, _, h, hother => by
    obtain ⟨others, rfl, hitems⟩ := h
    exact itemsPlain_of_sameItems items others hitems hother
  | .object members, _, h, hother => by
    obtain ⟨others, arrangement, rfl, hperm, hmembers⟩ := h
    have hplain : MembersPlain arrangement := membersPlain_iff.mpr fun member hmember =>
      membersPlain_iff.mp hother.2 member (hperm.mem_iff.mp hmember)
    obtain ⟨hkeys, hvalues⟩ := membersPlain_of_sameMembers members arrangement hmembers hplain
    exact ⟨hkeys ▸ fun hmem => hother.1 ((hperm.map Prod.fst).mem_iff.mp hmem), hvalues⟩
  | .undefined, _, _, _ => trivial
  | .null, _, _, _ => trivial
  | .boolean _, _, _, _ => trivial
  | .number _, _, _, _ => trivial
  | .bigint _, _, _, _ => trivial
  | .string _, _, _, _ => trivial

theorem itemsPlain_of_sameItems : ∀ items others : List JsValue, SameItems items others →
    ItemsPlain others → ItemsPlain items
  | [], _, _, _ => trivial
  | item :: rest, _, h, hothers => by
    obtain ⟨other, more, rfl, hitem, hrest⟩ := h
    exact ⟨plain_of_sameUpToOrder item other hitem hothers.1,
      itemsPlain_of_sameItems rest more hrest hothers.2⟩

theorem membersPlain_of_sameMembers : ∀ members others : Members, SameMembers members others →
    MembersPlain others →
      members.map Prod.fst = others.map Prod.fst ∧ MembersPlain members
  | [], _, h, _ => ⟨congrArg (List.map Prod.fst) h.symm, trivial⟩
  | (key, value) :: rest, _, h, hothers => by
    obtain ⟨other, more, rfl, hvalue, hrest⟩ := h
    obtain ⟨hkeys, hplain⟩ := membersPlain_of_sameMembers rest more hrest hothers.2
    exact ⟨congrArg (key :: ·) hkeys, plain_of_sameUpToOrder value other hvalue hothers.1, hplain⟩

end

theorem plain_of_sameInventory {value other : JsValue} (h : SameInventory normalize value other)
    (hother : EverySchema normalize PlainKeys other) : EverySchema normalize PlainKeys value := by
  obtain ⟨arrangement, hperm, hsame⟩ := h.tools
  intro tool htool
  obtain ⟨index, hindex, rfl⟩ := List.getElem_of_mem htool
  have hindex' : index < arrangement.length := hsame.length_eq ▸ hindex
  have hsame := hsame.get hindex hindex'
  have hplain := hother _ (hperm.mem_iff.mp (List.getElem_mem hindex'))
  exact ⟨plain_of_sameUpToOrder _ _ hsame.input hplain.1,
    plain_of_sameUpToOrder _ _ hsame.output hplain.2⟩

theorem everySchema_rebuilt {holds : JsValue → Prop} {value : JsValue}
    (h : ∀ tool ∈ toolsOf value,
      holds (normalForm normalize (transform (member tool inputSchemaKey))) ∧
        holds (normalForm normalize (transform (member tool outputSchemaKey)))) :
    EverySchema normalize holds (rebuilt transform value) := by
  intro tool htool
  obtain ⟨candidate, hcandidate, rfl⟩ := List.mem_map.mp htool
  exact h candidate hcandidate

theorem reads_rebuilt {value : JsValue} {inventory inventory' : Inventory}
    {read read' : List Tool} (h : ReadsInventory normalize value inventory read)
    (h' : ReadsInventory normalize (rebuilt transform value) inventory' read') :
    inventory'.adapterContractVersion = inventory.adapterContractVersion ∧
      inventory'.providerContractVersion = inventory.providerContractVersion ∧
      List.Forall₂ (fun tool read => ReadsTool normalize (rebuiltTool transform tool) read)
        (toolsOf value) read' :=
  ⟨JsValue.string.inj (h'.adapter.symm.trans h.adapter),
    versionValue_injective (h'.provider.symm.trans h.provider),
    List.forall₂_map_left_iff.mp h'.tools⟩

theorem canonicalBytes_withoutProto {value : JsValue} {inventory inventory' : Inventory}
    (h : normalizeProviderInventory normalize value = .ok inventory)
    (h' : normalizeProviderInventory normalize (rebuilt (withoutProto normalize) value) =
      .ok inventory') : inventory' = inventory := by
  obtain ⟨read, hread⟩ := normalizeProviderInventory_ok h
  obtain ⟨read', hread'⟩ := normalizeProviderInventory_ok h'
  obtain ⟨hadapter, hprovider, htools⟩ := reads_rebuilt hread hread'
  have hsame : read = read' := by
    rw [← List.forall₂_eq_eq_eq]
    refine forall₂_through hread.tools.flip htools
      fun tool _ candidate _ tool' _ hfirst hsecond => ?_
    obtain ⟨id, input, output⟩ := tool
    obtain ⟨id', input', output'⟩ := tool'
    obtain rfl : id = id' := JsValue.string.inj (hfirst.id.symm.trans hsecond.id)
    obtain rfl : input = input' :=
      hfirst.input.1.trans ((arranged_withoutProto _).symm.trans hsecond.input.1.symm)
    obtain rfl : output = output' :=
      hfirst.output.1.trans ((arranged_withoutProto _).symm.trans hsecond.output.1.symm)
    rfl
  obtain ⟨adapter, provider, tools⟩ := inventory
  obtain ⟨adapter', provider', tools'⟩ := inventory'
  obtain rfl := hadapter
  obtain rfl := hprovider
  have htools : tools' = tools := hread'.sorted.trans (hsame ▸ hread.sorted.symm)
  rw [htools]

theorem sameInventory_mirrored (value : JsValue) :
    SameInventory normalize value (rebuilt mirrored value) where
  adapter := rfl
  provider := rfl
  tools := by
    refine ⟨_, List.Perm.refl _, List.forall₂_map_right_iff.mpr (List.forall₂_same.mpr ?_)⟩
    intro tool _
    have hsame : ∀ schema, SameSchema normalize schema (mirrored schema) := by
      intro schema
      rw [SameSchema, normalForm_mirrored]
      exact sameUpToOrder_mirrored _
    exact ⟨rfl, hsame _, hsame _⟩

theorem eq_of_perm_map {α β : Type} {f : α → β} {items others : List α} (hperm : items.Perm others)
    (hmap : items.map f = others.map f) (hnodup : (items.map f).Nodup) : items = others := by
  refine List.ext_getElem hperm.length_eq fun index hindex hindex' => ?_
  refine List.inj_on_of_nodup_map hnodup (List.getElem_mem hindex)
    (hperm.mem_iff.mpr (List.getElem_mem hindex')) ?_
  have hvalue := congrArg (fun items => items[index]?) hmap
  simpa [hindex, hindex'] using hvalue

theorem apart_of_mirrored {value : JsValue} {inventory : Inventory}
    (h : normalizeProviderInventory normalize value = .ok inventory)
    (h' : normalizeProviderInventory normalize (rebuilt mirrored value) = .ok inventory)
    (hplain : EverySchema normalize PlainKeys value) : EverySchema normalize ApartKeys value := by
  obtain ⟨read, hread⟩ := normalizeProviderInventory_ok h
  obtain ⟨read', hread'⟩ := normalizeProviderInventory_ok h'
  obtain ⟨-, -, htools⟩ := reads_rebuilt hread hread'
  have hsorted : sortTools read = sortTools read' := hread.sorted.symm.trans hread'.sorted
  have hperm : read.Perm read' := (sortTools_perm read).symm.trans (hsorted ▸ sortTools_perm read')
  have hids : read.map Tool.id = read'.map Tool.id := by
    rw [← List.forall₂_eq_eq_eq, List.forall₂_map_left_iff, List.forall₂_map_right_iff]
    exact forall₂_through hread.tools.flip htools fun _ _ _ _ _ _ hfirst hsecond =>
      JsValue.string.inj (hfirst.id.symm.trans hsecond.id)
  obtain rfl := eq_of_perm_map hperm hids hread.nodup
  have hfit := normalizeProviderInventory_fit h
  intro tool htool
  obtain ⟨index, hindex, rfl⟩ := List.getElem_of_mem htool
  have hindex' : index < read.length := hread.tools.length_eq ▸ hindex
  have hfirst := hread.tools.get hindex hindex'
  have hsecond := htools.get hindex hindex'
  have hmirrored : ∀ {schema value : JsValue}, Canonicalized normalize schema value →
      Canonicalized normalize (mirrored schema) value →
        arranged (mirrored (normalForm normalize schema)) =
          arranged (normalForm normalize schema) := by
    intro schema value hschema hreversed
    rw [← normalForm_mirrored, ← hreversed.1, hschema.1]
  exact ⟨apart_of_arranged_mirrored _ (distinct_of_fits _ _ (hfit _ htool).1) (hplain _ htool).1
      (hmirrored hfirst.input hsecond.input),
    apart_of_arranged_mirrored _ (distinct_of_fits _ _ (hfit _ htool).2) (hplain _ htool).2
      (hmirrored hfirst.output hsecond.output)⟩

/-- The canonical bytes of an inventory are those of the same inventories, among all that have
no key `__proto__`. -/
def FingerprintCanonical (normalize : JsText → JsText) (value : JsValue) : Prop :=
  ∀ inventory, normalizeProviderInventory normalize value = .ok inventory →
    ∀ other inventory', normalizeProviderInventory normalize other = .ok inventory' →
      EverySchema normalize PlainKeys other →
        (canonicalBytes inventory = canonicalBytes inventory' ↔ SameInventory normalize value other)

/-- An accepted inventory has a canonical fingerprint if no key of its schemas is `__proto__` and
no object has two keys of the same bytes, and only then. -/
theorem fingerprintProviderInventory_canonical_iff (normalize : JsText → JsText)
    (value : JsValue) :
    FingerprintCanonical normalize value ↔
      ∀ inventory, normalizeProviderInventory normalize value = .ok inventory →
        EverySchema normalize PlainKeys value ∧ EverySchema normalize ApartKeys value := by
  constructor
  · intro hcanonical inventory h
    have hfit := normalizeProviderInventory_fit h
    have hplain : EverySchema normalize PlainKeys value := by
      obtain ⟨inventory', h'⟩ := normalizeProviderInventory_rebuilt h fun tool htool =>
        ⟨keeps_withoutProto (hfit tool htool).1, keeps_withoutProto (hfit tool htool).2⟩
      have hwithout : EverySchema normalize PlainKeys (rebuilt (withoutProto normalize) value) :=
        everySchema_rebuilt fun _ _ => ⟨plain_withoutProto _, plain_withoutProto _⟩
      refine plain_of_sameInventory
        ((hcanonical inventory h _ inventory' h' hwithout).mp ?_) hwithout
      rw [canonicalBytes_withoutProto h h']
    obtain ⟨inventory', h'⟩ := normalizeProviderInventory_rebuilt h fun tool htool =>
      ⟨keeps_mirrored (hfit tool htool).1 (hplain tool htool).1,
        keeps_mirrored (hfit tool htool).2 (hplain tool htool).2⟩
    have hmirrored : EverySchema normalize PlainKeys (rebuilt mirrored value) :=
      everySchema_rebuilt fun tool htool => by
        rw [normalForm_mirrored, normalForm_mirrored]
        exact ⟨plain_mirrored _ (hplain tool htool).1, plain_mirrored _ (hplain tool htool).2⟩
    have hbytes := (hcanonical inventory h _ inventory' h' hmirrored).mpr
      (sameInventory_mirrored value)
    obtain ⟨read, hread⟩ := normalizeProviderInventory_ok h
    obtain ⟨read', hread'⟩ := normalizeProviderInventory_ok h'
    obtain rfl := canonicalBytes_inj hread hread' hbytes
    exact ⟨hplain, apart_of_mirrored h h' hplain⟩
  · intro hregular inventory h other inventory' h' hother
    obtain ⟨hplain, hapart⟩ := hregular inventory h
    obtain ⟨read, hread⟩ := normalizeProviderInventory_ok h
    obtain ⟨read', hread'⟩ := normalizeProviderInventory_ok h'
    constructor
    · intro hbytes
      obtain rfl := canonicalBytes_inj hread hread' hbytes
      exact sameInventory_of_eq hread hread' hplain hother
    · intro hsame
      rw [eq_of_sameInventory hread hread' hapart hsame]

def readCandidate (schema : JsValue) : JsValue :=
  .object [(idKey, .string (asciiUnits "read")), (inputSchemaKey, schema),
    (outputSchemaKey, .object [])]

def inventoryOf (schema : JsValue) : JsValue :=
  .object [(adapterVersionKey, .string (asciiUnits "1")), (providerVersionKey, .null),
    (toolsKey, .array [readCandidate schema])]

def emptyTool : Tool := ⟨asciiUnits "read", .object [], .object []⟩

/-- `{"__proto__": {}}`, as a text of JSON is parsed. -/
def protoSchema : JsValue := .object [(protoKey, .object [])]

theorem canonicalizeJson_empty {depth : Nat} (h : depth ≤ maxStructuralDepth) :
    canonicalizeJson id (.object []) depth = .ok ⟨.object [], []⟩ := by
  rw [canonicalizeJson_object]
  refine ⟨h, [], ⟨[], []⟩, rfl, ?_, ?_⟩
  · simp [sortKeys, assignAll]
  · simp [frozen, propertyOrder]

theorem canonicalizeJson_proto : canonicalizeJson id protoSchema 0 = .ok ⟨.object [], []⟩ := by
  rw [protoSchema, canonicalizeJson_object]
  refine ⟨by decide, [(protoKey, ⟨.object [], []⟩)], ⟨[], []⟩, ?_, ?_, ?_⟩
  · rw [canonicalizeEntries, canonicalizeJson_empty (by decide)]
    rfl
  · simp [sortKeys, assignAll, assign]
    rfl
  · simp [frozen, propertyOrder]

theorem inventoryOf_ok {schema : JsValue}
    (h : canonicalizeJson id schema 0 = .ok ⟨.object [], []⟩) :
    normalizeProviderInventory id (inventoryOf schema) =
      .ok ⟨asciiUnits "1", none, [emptyTool]⟩ := by
  have htool : normalizeTool id 0 (readCandidate schema) = .ok emptyTool := by
    show ((canonicalizeJson id schema 0) >>= fun inputSchema =>
      (canonicalizeJson id (.object []) 0) >>= fun outputSchema => _) = _
    rw [h, canonicalizeJson_empty (by decide)]
    rfl
  have htools : normalizeTools id 0 [readCandidate schema] = .ok [emptyTool] := by
    rw [normalizeTools, htool]
    rfl
  have hsort : sortTools [emptyTool] = [emptyTool] := List.mergeSort_singleton _
  have hlength : jsonLength (inventoryValue ⟨asciiUnits "1", none, [emptyTool]⟩) = 120 := by rfl
  have hbytes : ¬ maxCanonicalInventoryBytes <
      jsonLength (inventoryValue ⟨asciiUnits "1", none, [emptyTool]⟩) := by
    rw [hlength]
    decide
  show (normalizeTools id 0 _ >>= fun tools => _) = _
  rw [htools]
  show (requireDistinctIds (sortTools [emptyTool]) >>= fun _ => if maxCanonicalInventoryBytes <
    jsonLength (inventoryValue ⟨asciiUnits "1", none, sortTools [emptyTool]⟩) then _ else _) = _
  rw [hsort]
  refine bind_eq_ok_iff.mpr ⟨(), rfl, ?_⟩
  rw [if_neg hbytes]
  rfl

theorem proto_not_canonical :
    ¬ ∀ normalize value other inventory inventory',
      normalizeProviderInventory normalize value = .ok inventory →
        normalizeProviderInventory normalize other = .ok inventory' →
          (canonicalBytes inventory = canonicalBytes inventory' ↔
            SameInventory normalize value other) := by
  intro h
  have hsame := (h id _ _ _ _ (inventoryOf_ok canonicalizeJson_proto)
    (inventoryOf_ok (canonicalizeJson_empty (by decide)))).mp rfl
  have hempty : EverySchema id PlainKeys (inventoryOf (.object [])) :=
    List.forall_mem_singleton.mpr
      ⟨⟨List.not_mem_nil, trivial⟩, ⟨List.not_mem_nil, trivial⟩⟩
  have hplain := plain_of_sameInventory hsame hempty _ (List.mem_singleton_self _)
  exact hplain.1.1 List.mem_cons_self

end KodeGpt.FingerprintFaults
