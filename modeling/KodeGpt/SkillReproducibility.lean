import KodeGpt.PinStoreRuns
import KodeGpt.SkillLookups

/-!
Pinned skills are reproducible as long as the live sources can be got through: a lookup falls
back to the pin only when every step of the live bundle succeeds or finds its source
unavailable.
-/

namespace KodeGpt.SkillReproducibility

open JsObjects KeyedFamily NodePaths PinnedSkills BundleFingerprints SkillCatalogs SkillLookups
open JsonText (Bytes)
open JsFrames (asciiUnits)
open PinStoreRuns (sampleDocument sampleSourceId samplePlatform sampleInput)

section Reproducing

variable {WorkspaceId Details Report : Type} [DecidableEq WorkspaceId]
  (p : Platform) (reader : Reader Details Report)

/-- A snapshot that loads, with a document that has the name and the description of the
manifest. -/
structure Intact (s : PinStores.State) (skillId fingerprint : JsText) (raw : RawLoad)
    (parsed : ParsedDocument Details) : Prop where
  load : loadPin p s skillId fingerprint = .ok raw
  document : parsePinnedSkillDocument reader raw = .ok parsed

/-- What an answer says of the skill is what the pin says. -/
structure PinnedEntry (raw : RawLoad) (parsed : ParsedDocument Details)
    (entry : CatalogEntry Report) : Prop where
  skillId : entry.skillId = raw.manifest.skillId
  fingerprint : entry.fingerprint = raw.manifest.fingerprint
  name : entry.name = raw.manifest.name
  description : entry.description = raw.manifest.description
  sourceId : entry.sourceId = raw.manifest.sourceId
  descriptorFingerprint : entry.descriptorFingerprint = p.sha256 raw.skillDocument
  compatibility : entry.compatibility = reader.analyze parsed

structure PinnedInspection (raw : RawLoad) (parsed : ParsedDocument Details)
    (inspection : Inspection Details Report) : Prop where
  skill : PinnedEntry p reader raw parsed inspection.skill
  parsed : inspection.parsed = parsed
  resources : inspection.resources.Perm (raw.resources.map resourceRecord)
  bundleBytes : inspection.bundleBytes = (raw.manifest.files.map FileRecord.bytes).sum

/-- Resources of the pin that one call may ask for. -/
structure Admissible (raw : RawLoad) (requested : List JsText) : Prop where
  count : requested.length ≤ maxLoadedResources
  distinct : requested.Nodup
  known : ∀ path ∈ requested, path ∈ raw.resources.map Resource.path

structure PinnedLoad (raw : RawLoad) (parsed : ParsedDocument Details) (requested : List JsText)
    (answer : CatalogRawLoad Report) : Prop where
  skill : PinnedEntry p reader raw parsed answer.skill
  skillDocument : answer.skillDocument = raw.skillDocument
  paths : (answer.resources.map Resource.path).Perm requested
  resources : ∀ resource ∈ answer.resources, resource ∈ raw.resources

variable (manager : SourceManager WorkspaceId) (pins : Option PinStores.State)
  (workspaceId : Option WorkspaceId)

structure Reproduced (skillId fingerprint : JsText) (raw : RawLoad)
    (parsed : ParsedDocument Details) : Prop where
  inspects : ∃ inspection,
    inspect p reader manager pins ⟨skillId, some fingerprint, workspaceId⟩ = .ok inspection ∧
      PinnedInspection p reader raw parsed inspection
  loads : ∀ requested : Option (List JsText), Admissible raw (requested.getD []) → ∃ answer,
    loadRaw p reader manager pins ⟨skillId, some fingerprint, workspaceId⟩ requested = .ok answer ∧
      PinnedLoad p reader raw parsed (requested.getD []) answer

/-- Intact pins are found with what was pinned, and what is listed is found as it is listed. -/
structure Reproducible : Prop where
  pinned : ∀ s, pins = some s → ∀ skillId fingerprint raw parsed,
    Intact p reader s skillId fingerprint raw parsed →
      Reproduced p reader manager pins workspaceId skillId fingerprint raw parsed
  listed : ∀ result, list p reader manager pins workspaceId = .ok result →
    ∀ entry ∈ result.skills,
      (∃ inspection, inspect p reader manager pins
        ⟨entry.skillId, some entry.fingerprint, workspaceId⟩ = .ok inspection ∧
          inspection.skill = entry) ∧
      ∃ answer, loadRaw p reader manager pins
        ⟨entry.skillId, some entry.fingerprint, workspaceId⟩ none = .ok answer ∧ answer.skill = entry

/-- The lookup of a pin gets through the live sources: through the discovery, through the
bundle of the live skill with the same identifier, and through the listing of the pins when
that bundle has the fingerprint of the pin. -/
def Reaches (s : PinStores.State) (skillId fingerprint : JsText) : Prop :=
  DiscoveryHolds p reader
    (fun skill => skill.skillId = skillId → BundleHolds p (manager.view workspaceId)
      (fun files => fingerprintSkillBundle p (files.map bundleRecord) = .ok fingerprint →
        ∃ manifests, listPins p s = .ok manifests) skill)
    (manager.view workspaceId)

variable {p reader manager pins workspaceId}

omit [DecidableEq WorkspaceId] in
theorem reaches_iff {s : PinStores.State} {skillId fingerprint : JsText} :
    Reaches p reader manager workspaceId s skillId fingerprint ↔
      ∃ discovery, discover p reader (manager.view workspaceId) = .ok discovery ∧
        ∀ skill ∈ discovery.skills, skill.skillId = skillId →
          Tolerates (buildBundle p (manager.view workspaceId) skill) fun bundle =>
            bundle.bundleFingerprint = fingerprint → ∃ manifests, listPins p s = .ok manifests := by
  have hbundle : ∀ skill : DiscoveredSkill Details Report,
      BundleHolds p (manager.view workspaceId)
        (fun files => fingerprintSkillBundle p (files.map bundleRecord) = .ok fingerprint →
          ∃ manifests, listPins p s = .ok manifests) skill ↔
      Tolerates (buildBundle p (manager.view workspaceId) skill) fun bundle =>
        bundle.bundleFingerprint = fingerprint → ∃ manifests, listPins p s = .ok manifests := by
    intro skill
    rw [← tolerates_buildBundle]
    cases hbuilt : buildBundle p (manager.view workspaceId) skill with
    | error error => exact Iff.rfl
    | ok bundle =>
      have hfingerprint := (assembled_of_buildBundle hbuilt).2.fingerprint
      simp only [Tolerates, hfingerprint, Except.ok.injEq]
  unfold Reaches
  rw [← discover_iff fun _ _ => Iff.rfl]
  simp only [hbundle]

section Lookups

variable {request : Request WorkspaceId} {discovery : Discovery Details Report} {α : Type}
  {fromBundle : Bundle Details Report → Bool → Except SkillError α}
  {fromPinned : RawLoad → Except SkillError α}

theorem lookup_live {bundle : Bundle Details Report} {pinned : Bool}
    (hdiscovery : discover p reader (manager.view request.workspaceId) = .ok discovery)
    (hlive : liveBundle p manager pins request
      (discovery.skills.find? fun skill => skill.skillId = request.skillId) =
        .ok (some (bundle, pinned))) :
    lookup p reader manager pins request fromBundle fromPinned = fromBundle bundle pinned := by
  rw [lookup, hdiscovery]
  show (liveBundle p manager pins request _ >>= _) = _
  rw [hlive]
  rfl

theorem lookup_pinned {raw : RawLoad}
    (hdiscovery : discover p reader (manager.view request.workspaceId) = .ok discovery)
    (hlive : liveBundle p manager pins request
      (discovery.skills.find? fun skill => skill.skillId = request.skillId) = .ok none)
    (hpin : loadPinned p pins request.skillId request.fingerprint = .ok (some raw)) :
    lookup p reader manager pins request fromBundle fromPinned = fromPinned raw := by
  rw [lookup, hdiscovery]
  show (liveBundle p manager pins request _ >>= _) = _
  rw [hlive]
  show (loadPinned p pins request.skillId request.fingerprint >>= _) = _
  rw [hpin]
  rfl

end Lookups

theorem find?_skill {skills : List (DiscoveredSkill Details Report)}
    (hnodup : (skills.map DiscoveredSkill.skillId).Nodup) {skill : DiscoveredSkill Details Report}
    (hmem : skill ∈ skills) :
    (skills.find? fun other => other.skillId = skill.skillId) = some skill := by
  cases hfind : skills.find? fun other => other.skillId = skill.skillId with
  | none => exact absurd (decide_eq_true rfl) (List.find?_eq_none.mp hfind skill hmem)
  | some other =>
    have hsame : other.skillId = skill.skillId := by simpa using List.find?_some hfind
    rw [List.inj_on_of_nodup_map hnodup (List.mem_of_find?_eq_some hfind) hmem hsame]

omit [DecidableEq WorkspaceId] in
theorem liveBundle_cases {s : PinStores.State} {skillId fingerprint : JsText}
    {discovery : Discovery Details Report}
    (hreaches : ∀ skill ∈ discovery.skills, skill.skillId = skillId →
      Tolerates (buildBundle p (manager.view workspaceId) skill) fun bundle =>
        bundle.bundleFingerprint = fingerprint → ∃ manifests, listPins p s = .ok manifests) :
    liveBundle p manager (some s) ⟨skillId, some fingerprint, workspaceId⟩
        (discovery.skills.find? fun skill => skill.skillId = skillId) = .ok none ∨
      ∃ skill ∈ discovery.skills, ∃ bundle pinned, skill.skillId = skillId ∧
        buildBundle p (manager.view workspaceId) skill = .ok bundle ∧
        bundle.bundleFingerprint = fingerprint ∧
        liveBundle p manager (some s) ⟨skillId, some fingerprint, workspaceId⟩
          (discovery.skills.find? fun skill => skill.skillId = skillId) =
            .ok (some (bundle, pinned)) := by
  cases hfind : discovery.skills.find? fun skill => skill.skillId = skillId with
  | none => exact Or.inl rfl
  | some skill =>
    have hmem := List.mem_of_find?_eq_some hfind
    have hskillId : skill.skillId = skillId := by simpa using List.find?_some hfind
    have htolerates := hreaches skill hmem hskillId
    rw [liveBundle]
    dsimp only
    cases hbuilt : buildBundle p (manager.view workspaceId) skill with
    | error error =>
      rw [hbuilt] at htolerates
      exact Or.inl (if_pos htolerates)
    | ok bundle =>
      rw [hbuilt] at htolerates
      dsimp only
      by_cases hfingerprint : bundle.bundleFingerprint = fingerprint
      · obtain ⟨manifests, hmanifests⟩ := htolerates hfingerprint
        have hpins : ∃ pinned, hasPinned p (some s) skillId bundle.bundleFingerprint =
            .ok pinned := by
          rw [hasPinned, hmanifests]
          exact ⟨_, rfl⟩
        obtain ⟨pinned, hpinned⟩ := hpins
        refine Or.inr ⟨skill, hmem, bundle, pinned, hskillId, hbuilt, hfingerprint, ?_⟩
        rw [if_pos (Or.inr (congrArg some hfingerprint.symm)), hpinned]
      · refine Or.inl (if_neg ?_)
        rintro (hnone | hsome)
        · cases hnone
        · exact hfingerprint (Option.some.inj hsome).symm

theorem reaches_of_lookup (hinjective : Function.Injective p.sha256) {s : PinStores.State}
    {skillId fingerprint : JsText} {α : Type}
    {fromBundle : Bundle Details Report → Bool → Except SkillError α}
    {fromPinned : RawLoad → Except SkillError α} {answer : α}
    (h : lookup p reader manager (some s) ⟨skillId, some fingerprint, workspaceId⟩ fromBundle
      fromPinned = .ok answer) : Reaches p reader manager workspaceId s skillId fingerprint := by
  obtain ⟨discovery, hdiscovery, h⟩ := bind_eq_ok h
  obtain ⟨found, hlive, -⟩ := bind_eq_ok h
  refine reaches_iff.mpr ⟨discovery, hdiscovery, ?_⟩
  rintro skill hskill rfl
  rw [find?_skill (nodup_discover hinjective hdiscovery) hskill, liveBundle] at hlive
  dsimp only at hlive
  cases hbuilt : buildBundle p (manager.view workspaceId) skill with
  | error error =>
    rw [hbuilt] at hlive
    dsimp only at hlive
    split at hlive
    · rename_i hunavailable
      exact hunavailable
    · cases hlive
  | ok bundle =>
    rw [hbuilt] at hlive
    intro hfingerprint
    dsimp only at hlive
    rw [if_pos (Or.inr (congrArg some hfingerprint.symm)), hasPinned] at hlive
    cases hmanifests : listPins p s with
    | ok manifests => exact ⟨manifests, rfl⟩
    | error error =>
      rw [hmanifests] at hlive
      have hdefinite := definite_listPins s error hmanifests
      have hfailed : (if isUnavailableSourceError error then
          (.ok none : Except SkillError (Option (Bundle Details Report × Bool)))
        else .error error) = .ok found := hlive
      rw [hdefinite] at hfailed
      cases hfailed

section Content

variable {raw : RawLoad} {parsed : ParsedDocument Details} {skill : DiscoveredSkill Details Report}
  {bundle : Bundle Details Report}

theorem nodup_of_fingerprint {records : List FileRecord} {fingerprint : JsText}
    (h : fingerprintSkillBundle p records = .ok fingerprint) :
    (records.map FileRecord.path).Nodup := by
  unfold fingerprintSkillBundle at h
  dsimp only at h
  split at h
  · rename_i hvalid
    have hperm : (sortRecords records).Perm records := List.perm_insertionSort _ _
    exact (hperm.map FileRecord.path).nodup_iff.mp hvalid.2
  · cases h

theorem parsePinnedSkillDocument_ok (h : parsePinnedSkillDocument reader raw = .ok parsed) :
    reader.frontmatter raw.skillDocument = .ok parsed ∧ validSkillName parsed.name = true ∧
      parsed.name = raw.manifest.name ∧ parsed.description = raw.manifest.description := by
  unfold parsePinnedSkillDocument at h
  split at h
  · cases h
  · rename_i found hfound
    split at h
    · rename_i hdescription
      obtain rfl := Except.ok.inj h
      obtain ⟨hdocument, hvalid, hname⟩ := parseSkillDocument_ok hfound
      exact ⟨hdocument, hvalid, hname, hdescription⟩
    · cases h

theorem identity_of_validateManifest {manifest : Manifest}
    (h : validateManifest p manifest = true) :
    isSourceId manifest.sourceId = true ∧
      manifest.skillId = deriveSkillId p manifest.sourceId manifest.name := by
  simp only [validateManifest, pinnedManifestSchema, Bool.and_eq_true, decide_eq_true_eq] at h
  exact ⟨h.1.1.1.1.1.1.1.1.1.1.1.1.2, h.1.1.1.1.1.2⟩

/-- A live bundle with the fingerprint of a pin has the content of the pin. -/
structure SameContent (raw : RawLoad) (parsed : ParsedDocument Details)
    (bundle : Bundle Details Report) : Prop where
  records : (bundle.files.map bundleRecord).Perm raw.manifest.files
  document : bundle.skillDocument = raw.skillDocument
  parsed : bundle.skill.parsed = parsed
  name : bundle.skill.name = raw.manifest.name
  sourceId : bundle.skill.sourceId = raw.manifest.sourceId

theorem sameContent (hinjective : Function.Injective p.sha256) (hloaded : Loaded p raw)
    (hdocument : parsePinnedSkillDocument reader raw = .ok parsed)
    (hgenuine : Genuine p reader bundle.skill) (hassembled : Assembled p bundle)
    (hskillId : bundle.skill.skillId = raw.manifest.skillId)
    (hfingerprint : bundle.bundleFingerprint = raw.manifest.fingerprint) :
    SameContent raw parsed bundle := by
  have hrecords : (bundle.files.map bundleRecord).Perm raw.manifest.files :=
    records_of_fingerprint hinjective hassembled.fingerprint (hfingerprint ▸ hloaded.fingerprint)
  obtain ⟨file, hfile, hpath, hbytes⟩ := hassembled.document
  have hmem : bundleRecord file ∈ raw.manifest.files :=
    hrecords.mem_iff.mp (List.mem_map_of_mem hfile)
  have hfound := List.mem_of_find?_eq_some hloaded.document
  have hrecord : bundleRecord file = skillRecord p raw.skillDocument :=
    List.inj_on_of_nodup_map (nodup_of_fingerprint hloaded.fingerprint) hmem hfound hpath
  have hsame : bundle.skillDocument = raw.skillDocument := by
    have hdigest := congrArg FileRecord.sha256 hrecord
    change file.sha256 = p.sha256 raw.skillDocument at hdigest
    rw [hassembled.digests file hfile] at hdigest
    rw [← hbytes, hinjective hdigest]
  obtain ⟨hfrontmatter, hvalid, hname, -⟩ := parsePinnedSkillDocument_ok hdocument
  obtain ⟨bytes, hdescriptor, hread⟩ := hgenuine.document
  have hparsed : bundle.skill.parsed = parsed := by
    rw [← hassembled.descriptor, hsame] at hdescriptor
    rw [← hinjective hdescriptor, hfrontmatter] at hread
    exact (Except.ok.inj hread).symm
  have hsameName : bundle.skill.name = raw.manifest.name := by
    rw [hgenuine.name, hparsed, hname]
  obtain ⟨hsource, hderived⟩ := identity_of_validateManifest hloaded.valid
  rw [hgenuine.skillId, hderived] at hskillId
  have hascii : asciiText raw.manifest.name := hname ▸ asciiText_of_validSkillName hvalid
  exact ⟨hrecords, hsame, hparsed, hsameName, (deriveSkillId_inj hinjective hgenuine.source hsource
    (asciiText_of_validSkillName hgenuine.valid) hascii hskillId).1⟩

theorem SameContent.entry (h : SameContent raw parsed bundle)
    (hdocument : parsePinnedSkillDocument reader raw = .ok parsed)
    (hgenuine : Genuine p reader bundle.skill) (hassembled : Assembled p bundle)
    (hskillId : bundle.skill.skillId = raw.manifest.skillId)
    (hfingerprint : bundle.bundleFingerprint = raw.manifest.fingerprint) (pinned : Bool) :
    PinnedEntry p reader raw parsed (entryFromBundle bundle pinned) where
  skillId := hskillId
  fingerprint := hfingerprint
  name := h.name
  description := by
    show bundle.skill.description = _
    rw [hgenuine.description, h.parsed, (parsePinnedSkillDocument_ok hdocument).2.2.2]
  sourceId := h.sourceId
  descriptorFingerprint := by
    show bundle.skill.descriptorFingerprint = _
    rw [← hassembled.descriptor, h.document]
  compatibility := by
    show bundle.skill.compatibility = _
    rw [hgenuine.compatibility, h.parsed]

theorem SameContent.resources (h : SameContent raw parsed bundle) (hloaded : Loaded p raw) :
    (sortedResources (bundle.files.map bundleRecord)).Perm (raw.resources.map resourceRecord) := by
  have hsorted : (sortedResources (bundle.files.map bundleRecord)).Perm
      ((bundle.files.map bundleRecord).filter fun record => record.path ≠ skillFile) :=
    List.perm_insertionSort _ _
  rw [hloaded.resources]
  exact hsorted.trans (h.records.filter _)

theorem SameContent.inspection (h : SameContent raw parsed bundle) (hloaded : Loaded p raw)
    {pinned : Bool} (hentry : PinnedEntry p reader raw parsed (entryFromBundle bundle pinned)) :
    PinnedInspection p reader raw parsed (inspectionFromBundle bundle pinned) where
  skill := hentry
  parsed := h.parsed
  resources := h.resources hloaded
  bundleBytes := by
    have hsum := (h.records.map FileRecord.bytes).sum_nat
    rw [List.map_map] at hsum
    exact hsum

theorem pickResources_ok {available : List Resource} (paths : List JsText)
    (hknown : ∀ path ∈ paths, path ∈ available.map Resource.path) :
    ∃ resources, pickResources available paths = .ok resources ∧
      resources.map Resource.path = paths ∧ ∀ resource ∈ resources, resource ∈ available := by
  induction paths with
  | nil => exact ⟨[], rfl, rfl, nofun⟩
  | cons path rest ih =>
    obtain ⟨hpath, hrest⟩ := List.forall_mem_cons.mp hknown
    obtain ⟨later, hlater, hpaths, hmem⟩ := ih hrest
    rw [pickResources]
    cases hfind : available.find? fun resource => resource.path = path with
    | none =>
      obtain ⟨resource, hresource, rfl⟩ := List.mem_map.mp hpath
      exact absurd (decide_eq_true rfl) (List.find?_eq_none.mp hfind resource hresource)
    | some resource =>
      have hsame : resource.path = path := by simpa using List.find?_some hfind
      dsimp only
      rw [hlater]
      refine ⟨resource :: later, rfl, ?_, ?_⟩
      · rw [List.map_cons, hsame, hpaths]
      · exact List.forall_mem_cons.mpr ⟨List.mem_of_find?_eq_some hfind, hmem⟩

theorem validateRequestedResources_ok {requested : Option (List JsText)} {paths : List JsText}
    (hadmissible : Admissible raw (requested.getD []))
    (hpaths : ∀ path, path ∈ raw.resources.map Resource.path → path ∈ paths) :
    validateRequestedResources requested paths = .ok ((requested.getD []).insertionSort
      fun left right => compareUtf8 left right) := by
  have hknown : ∀ path ∈ requested.getD [], path ∈ paths :=
    fun path hpath => hpaths path (hadmissible.known path hpath)
  unfold validateRequestedResources requireThat
  dsimp only
  rw [if_pos hadmissible.count, if_pos hadmissible.distinct, if_pos hknown]
  rfl

theorem mem_sortedPaths {requested : List JsText} {path : JsText} :
    path ∈ requested.insertionSort (fun left right => compareUtf8 left right) ↔ path ∈ requested :=
  List.mem_insertionSort _

theorem SameContent.load (h : SameContent raw parsed bundle) (hinjective : Function.Injective p.sha256)
    (hloaded : Loaded p raw) (hassembled : Assembled p bundle) {pinned : Bool}
    (hentry : PinnedEntry p reader raw parsed (entryFromBundle bundle pinned))
    {requested : Option (List JsText)} (hadmissible : Admissible raw (requested.getD [])) :
    ∃ answer, rawLoadFromBundle bundle pinned requested = .ok answer ∧
      PinnedLoad p reader raw parsed (requested.getD []) answer := by
  have hresources := h.resources hloaded
  have hpaths : ∀ path, path ∈ raw.resources.map Resource.path →
      path ∈ (sortedResources (bundle.files.map bundleRecord)).map FileRecord.path := by
    intro path hpath
    obtain ⟨resource, hresource, rfl⟩ := List.mem_map.mp hpath
    exact List.mem_map.mpr ⟨resourceRecord resource,
      hresources.mem_iff.mpr (List.mem_map_of_mem hresource), rfl⟩
  have hfiles : ∀ path ∈ (sortedResources (bundle.files.map bundleRecord)).map FileRecord.path,
      path ∈ (bundle.files.map bundleResource).map Resource.path := by
    intro path hpath
    obtain ⟨record, hrecord, rfl⟩ := List.mem_map.mp hpath
    obtain ⟨file, hfile, rfl⟩ := List.mem_map.mp
      (List.mem_filter.mp ((List.perm_insertionSort _ _).mem_iff.mp hrecord)).1
    exact List.mem_map.mpr ⟨bundleResource file, List.mem_map_of_mem hfile, rfl⟩
  obtain ⟨resources, hpicked, hpicks, hmem⟩ := pickResources_ok
    ((requested.getD []).insertionSort fun left right => compareUtf8 left right)
    fun path hpath => hfiles path (hpaths path (hadmissible.known path (mem_sortedPaths.mp hpath)))
  refine ⟨⟨entryFromBundle bundle pinned, bundle.skillDocument, resources⟩, ?_, hentry, h.document,
    ?_, ?_⟩
  · rw [rawLoadFromBundle, validateRequestedResources_ok hadmissible hpaths]
    show (pickResources _ _ >>= _) = _
    rw [hpicked]
    rfl
  · rw [hpicks]
    exact List.perm_insertionSort _ _
  · intro resource hresource
    obtain ⟨file, hfile, rfl⟩ := List.mem_map.mp (hmem resource hresource)
    have hrequested : file.path ∈ requested.getD [] := by
      refine mem_sortedPaths.mp ?_
      rw [← hpicks]
      exact List.mem_map.mpr ⟨_, hresource, rfl⟩
    obtain ⟨record, hrecord, hpath⟩ := List.mem_map.mp
      (hpaths file.path (hadmissible.known file.path hrequested))
    obtain ⟨pick, hpick, rfl⟩ := List.mem_map.mp (hresources.mem_iff.mp hrecord)
    have hpickRecord : resourceRecord pick ∈ raw.manifest.files := by
      have hrecords : resourceRecord pick ∈ resourceRecords raw.manifest :=
        hloaded.resources ▸ List.mem_map_of_mem hpick
      exact (List.mem_filter.mp hrecords).1
    have hsame : resourceRecord pick = bundleRecord file :=
      List.inj_on_of_nodup_map (nodup_of_fingerprint hloaded.fingerprint) hpickRecord
        (h.records.mem_iff.mp (List.mem_map_of_mem hfile)) hpath
    have hdigest := congrArg FileRecord.sha256 hsame
    change pick.sha256 = file.sha256 at hdigest
    have hbytes : pick.bytes = file.bytes := by
      refine hinjective ?_
      rw [← hloaded.digests pick hpick, hdigest, hassembled.digests file hfile]
    have hpickFile : bundleResource file = pick := by
      cases pick
      cases file
      simp only [bundleResource, Resource.mk.injEq]
      exact ⟨hpath.symm, hbytes.symm, hdigest.symm⟩
    rw [hpickFile]
    exact hpick

theorem entryFromPinnedLoad_ok (hloaded : Loaded p raw)
    (hdocument : parsePinnedSkillDocument reader raw = .ok parsed) :
    ∃ entry : CatalogEntry Report, entryFromPinnedLoad reader raw = .ok entry ∧
      PinnedEntry p reader raw parsed entry := by
  unfold entryFromPinnedLoad
  rw [hloaded.document]
  dsimp only
  rw [hdocument]
  refine ⟨_, rfl, rfl, rfl, rfl, rfl, rfl, rfl, rfl⟩

theorem inspectionFromPinned_ok (hloaded : Loaded p raw)
    (hdocument : parsePinnedSkillDocument reader raw = .ok parsed) :
    ∃ inspection : Inspection Details Report, inspectionFromPinned reader raw = .ok inspection ∧
      PinnedInspection p reader raw parsed inspection := by
  obtain ⟨entry, hentry, hpinned⟩ := @entryFromPinnedLoad_ok _ Report _ _ _ _ hloaded hdocument
  rw [inspectionFromPinned, hdocument]
  show ∃ inspection, (entryFromPinnedLoad reader raw >>= _) = _ ∧ _
  rw [hentry]
  exact ⟨_, rfl, hpinned, rfl, List.perm_insertionSort _ _, rfl⟩

theorem rawLoadFromPinned_ok (hloaded : Loaded p raw)
    (hdocument : parsePinnedSkillDocument reader raw = .ok parsed)
    {requested : Option (List JsText)} (hadmissible : Admissible raw (requested.getD [])) :
    ∃ answer : CatalogRawLoad Report, rawLoadFromPinned reader raw requested = .ok answer ∧
      PinnedLoad p reader raw parsed (requested.getD []) answer := by
  obtain ⟨entry, hentry, hpinned⟩ := @entryFromPinnedLoad_ok _ Report _ _ _ _ hloaded hdocument
  obtain ⟨resources, hpicked, hpicks, hmem⟩ := pickResources_ok
    ((requested.getD []).insertionSort fun left right => compareUtf8 left right)
    fun path hpath => hadmissible.known path (mem_sortedPaths.mp hpath)
  refine ⟨⟨entry, raw.skillDocument, resources⟩, ?_, hpinned, rfl, ?_, hmem⟩
  · rw [rawLoadFromPinned, validateRequestedResources_ok hadmissible fun _ => id]
    show (entryFromPinnedLoad reader raw >>= _) = _
    rw [hentry]
    show (pickResources _ _ >>= _) = _
    rw [hpicked]
    rfl
  · rw [hpicks]
    exact List.perm_insertionSort _ _

end Content

theorem reproduced_of_reaches (hinjective : Function.Injective p.sha256) {s : PinStores.State}
    {skillId fingerprint : JsText} {raw : RawLoad} {parsed : ParsedDocument Details}
    (hintact : Intact p reader s skillId fingerprint raw parsed)
    (hreaches : Reaches p reader manager workspaceId s skillId fingerprint) :
    Reproduced p reader manager (some s) workspaceId skillId fingerprint raw parsed := by
  obtain ⟨hloaded, hskillId, hfingerprint⟩ := loaded_of_loadPin hintact.load
  obtain ⟨discovery, hdiscovery, htolerates⟩ := reaches_iff.mp hreaches
  obtain hlive | ⟨skill, hmem, bundle, pinned, hsame, hbuilt, hbundle, hlive⟩ :=
    liveBundle_cases htolerates
  · have hpin : loadPinned p (some s) skillId (some fingerprint) = .ok (some raw) := by
      rw [loadPinned, hintact.load]
    refine ⟨?_, ?_⟩
    · rw [inspect, lookup_pinned hdiscovery hlive hpin]
      exact inspectionFromPinned_ok hloaded hintact.document
    · intro requested hadmissible
      rw [loadRaw, lookup_pinned hdiscovery hlive hpin]
      exact rawLoadFromPinned_ok hloaded hintact.document hadmissible
  · obtain ⟨rfl, hassembled⟩ := assembled_of_buildBundle hbuilt
    have hgenuine := genuine_of_discover hdiscovery bundle.skill hmem
    have hid := hsame.trans hskillId.symm
    have hprint := hbundle.trans hfingerprint.symm
    have hcontent := sameContent hinjective hloaded hintact.document hgenuine hassembled hid hprint
    have hentry := hcontent.entry hintact.document hgenuine hassembled hid hprint pinned
    refine ⟨?_, ?_⟩
    · rw [inspect, lookup_live hdiscovery hlive]
      exact ⟨_, rfl, hcontent.inspection hloaded hentry⟩
    · intro requested hadmissible
      rw [loadRaw, lookup_live hdiscovery hlive]
      exact hcontent.load hinjective hloaded hassembled hentry hadmissible

section Listing

variable {view : View} {skills : List (DiscoveredSkill Details Report)}

structure LiveListed (p : Platform) (view : View) (skills : List (DiscoveredSkill Details Report))
    (versions final : Versions Report) : Prop where
  bundled : ∀ skill ∈ skills, Tolerates (buildBundle p view skill) fun bundle =>
    (skill.skillId, bundle.bundleFingerprint) ∈ final
  kept : ∀ key ∈ versions, key ∈ final
  entries : ∀ key entry, final.lookup key = some entry →
    (∃ skill ∈ skills, ∃ bundle, buildBundle p view skill = .ok bundle ∧
      key = (skill.skillId, bundle.bundleFingerprint) ∧ entry = entryFromBundle bundle false) ∨
    versions.lookup key = some entry

theorem liveListed {versions : Versions Report} {unavailable : Bool} {live : Versions Report × Bool}
    (h : listLive p view skills versions unavailable = .ok live) :
    LiveListed p view skills versions live.1 := by
  induction skills generalizing versions unavailable with
  | nil =>
    obtain rfl := Except.ok.inj h
    exact ⟨nofun, fun _ => id, fun _ _ => Or.inr⟩
  | cons skill rest ih =>
    rw [listLive] at h
    cases hbuilt : buildBundle p view skill with
    | error error =>
      rw [hbuilt] at h
      dsimp only at h
      split at h
      · rename_i hunavailable
        obtain ⟨hbundled, hkept, hentries⟩ := ih h
        refine ⟨List.forall_mem_cons.mpr ⟨?_, hbundled⟩, hkept, ?_⟩
        · rw [hbuilt]
          exact hunavailable
        · intro key entry hlookup
          obtain ⟨found, hfound, hrest⟩ | hold := hentries key entry hlookup
          · exact Or.inl ⟨found, List.mem_cons_of_mem _ hfound, hrest⟩
          · exact Or.inr hold
      · cases h
    | ok bundle =>
      rw [hbuilt] at h
      obtain ⟨hbundled, hkept, hentries⟩ := ih h
      refine ⟨List.forall_mem_cons.mpr ⟨?_, hbundled⟩, ?_, ?_⟩
      · rw [hbuilt]
        exact hkept _ (AList.mem_insert _ |>.mpr (Or.inl rfl))
      · intro key hkey
        exact hkept key ((AList.mem_insert _).mpr (Or.inr hkey))
      · intro key entry hlookup
        obtain ⟨found, hfound, hrest⟩ | hold := hentries key entry hlookup
        · exact Or.inl ⟨found, List.mem_cons_of_mem _ hfound, hrest⟩
        · obtain ⟨rfl, rfl⟩ | ⟨-, hold⟩ := lookup_insert_eq_some hold
          · exact Or.inl ⟨skill, List.mem_cons_self, bundle, hbuilt, rfl, rfl⟩
          · exact Or.inr hold

theorem listPinned_entries {s : PinStores.State} {manifests : List Manifest}
    (hnodup : (manifests.map versionKey).Nodup) {versions final : Versions Report}
    (h : listPinned p reader s manifests versions = .ok final) :
    ∀ key entry, final.lookup key = some entry →
      (∃ current, versions.lookup key = some current ∧ entry =
        if key ∈ manifests.map versionKey then
          { current with availability := .livePinned, pinned := true }
        else current) ∨
      (versions.lookup key = none ∧ ∃ raw, loadPin p s key.1 key.2 = .ok raw ∧
        entryFromPinnedLoad reader raw = .ok entry) := by
  induction manifests generalizing versions with
  | nil =>
    obtain rfl := Except.ok.inj h
    exact fun key entry hlookup => Or.inl ⟨entry, hlookup, rfl⟩
  | cons manifest rest ih =>
    rw [List.map_cons] at hnodup
    obtain ⟨hfresh, hrest⟩ := List.nodup_cons.mp hnodup
    intro key entry hlookup
    have hmem : key ≠ versionKey manifest →
        (key ∈ (manifest :: rest).map versionKey ↔ key ∈ rest.map versionKey) := by
      intro hne
      rw [List.map_cons, List.mem_cons]
      exact or_iff_right hne
    rw [listPinned] at h
    cases hcurrent : versions.lookup (manifest.skillId, manifest.fingerprint) with
    | some current =>
      rw [hcurrent] at h
      by_cases hkey : key = versionKey manifest
      · subst hkey
        refine Or.inl ⟨current, hcurrent, ?_⟩
        rw [if_pos (List.mem_map_of_mem List.mem_cons_self)]
        obtain ⟨found, hfound, rfl⟩ | ⟨hnone, -⟩ := ih hrest h _ entry hlookup
        · rw [versionKey, AList.lookup_insert] at hfound
          rw [if_neg hfresh, Option.some.inj hfound]
        · rw [versionKey, AList.lookup_insert] at hnone
          cases hnone
      · simp only [hmem hkey]
        have hne : key ≠ (manifest.skillId, manifest.fingerprint) := hkey
        have hold := ih hrest h key entry hlookup
        rw [AList.lookup_insert_ne hne] at hold
        exact hold
    | none =>
      rw [hcurrent] at h
      obtain ⟨raw, hraw, h⟩ := bind_eq_ok h
      obtain ⟨pinned, hpinned, h⟩ := bind_eq_ok h
      by_cases hkey : key = versionKey manifest
      · subst hkey
        refine Or.inr ⟨hcurrent, raw, hraw, ?_⟩
        obtain ⟨found, hfound, rfl⟩ | ⟨hnone, -⟩ := ih hrest h _ entry hlookup
        · rw [versionKey, AList.lookup_insert] at hfound
          rw [if_neg hfresh, hpinned, Option.some.inj hfound]
        · rw [versionKey, AList.lookup_insert] at hnone
          cases hnone
      · simp only [hmem hkey]
        have hne : key ≠ (manifest.skillId, manifest.fingerprint) := hkey
        have hold := ih hrest h key entry hlookup
        rw [AList.lookup_insert_ne hne] at hold
        exact hold

end Listing

theorem parsed_of_entryFromPinnedLoad {raw : RawLoad} {entry : CatalogEntry Report}
    (h : entryFromPinnedLoad reader raw = .ok entry) :
    ∃ parsed, parsePinnedSkillDocument reader raw = .ok parsed := by
  unfold entryFromPinnedLoad at h
  split at h
  · cases h
  · obtain ⟨parsed, hparsed, -⟩ := bind_eq_ok h
    exact ⟨parsed, hparsed⟩

theorem loadPinned_ok {s : PinStores.State} {skillId fingerprint : JsText} {raw : RawLoad}
    (h : loadPin p s skillId fingerprint = .ok raw) :
    loadPinned p (some s) skillId (some fingerprint) = .ok (some raw) := by
  rw [loadPinned, h]

theorem found_live {discovery : Discovery Details Report} (hinjective : Function.Injective p.sha256)
    (hdiscovery : discover p reader (manager.view workspaceId) = .ok discovery)
    {skill : DiscoveredSkill Details Report} (hskill : skill ∈ discovery.skills)
    {bundle : Bundle Details Report}
    (hbuilt : buildBundle p (manager.view workspaceId) skill = .ok bundle) {pinned : Bool}
    (hpinned : hasPinned p pins skill.skillId bundle.bundleFingerprint = .ok pinned) :
    (∃ inspection, inspect p reader manager pins
      ⟨skill.skillId, some bundle.bundleFingerprint, workspaceId⟩ = .ok inspection ∧
        inspection.skill = entryFromBundle bundle pinned) ∧
    ∃ answer, loadRaw p reader manager pins
      ⟨skill.skillId, some bundle.bundleFingerprint, workspaceId⟩ none = .ok answer ∧
        answer.skill = entryFromBundle bundle pinned := by
  have hlive : liveBundle p manager pins ⟨skill.skillId, some bundle.bundleFingerprint, workspaceId⟩
      (discovery.skills.find? fun other => other.skillId = skill.skillId) =
        .ok (some (bundle, pinned)) := by
    rw [find?_skill (nodup_discover hinjective hdiscovery) hskill, liveBundle]
    dsimp only
    rw [hbuilt]
    dsimp only
    rw [if_pos (Or.inr rfl), hpinned]
  constructor
  · rw [inspect, lookup_live hdiscovery hlive]
    exact ⟨_, rfl, rfl⟩
  · rw [loadRaw, lookup_live hdiscovery hlive]
    exact ⟨_, rfl, rfl⟩

theorem found_pinned {discovery : Discovery Details Report} {s : PinStores.State}
    (hdiscovery : discover p reader (manager.view workspaceId) = .ok discovery)
    {skillId fingerprint : JsText}
    (hlive : liveBundle p manager (some s) ⟨skillId, some fingerprint, workspaceId⟩
      (discovery.skills.find? fun skill => skill.skillId = skillId) = .ok none)
    {raw : RawLoad} (hraw : loadPin p s skillId fingerprint = .ok raw) {entry : CatalogEntry Report}
    (hentry : entryFromPinnedLoad reader raw = .ok entry) :
    (∃ inspection, inspect p reader manager (some s) ⟨skillId, some fingerprint, workspaceId⟩ =
      .ok inspection ∧ inspection.skill = entry) ∧
    ∃ answer, loadRaw p reader manager (some s) ⟨skillId, some fingerprint, workspaceId⟩ none =
      .ok answer ∧ answer.skill = entry := by
  obtain ⟨parsed, hparsed⟩ := parsed_of_entryFromPinnedLoad hentry
  constructor
  · rw [inspect, lookup_pinned hdiscovery hlive (loadPinned_ok hraw), inspectionFromPinned, hparsed]
    show ∃ inspection, (entryFromPinnedLoad reader raw >>= _) = _ ∧ _
    rw [hentry]
    exact ⟨_, rfl, rfl⟩
  · rw [loadRaw, lookup_pinned hdiscovery hlive (loadPinned_ok hraw), rawLoadFromPinned]
    show ∃ answer, (entryFromPinnedLoad reader raw >>= _) = _ ∧ _
    rw [hentry]
    exact ⟨_, rfl, rfl⟩

theorem mem_sortEntries {versions : Versions Report} {entry : CatalogEntry Report} :
    entry ∈ sortEntries (versions.entries.map Sigma.snd) ↔
      ∃ key, versions.lookup key = some entry := by
  rw [sortEntries, List.mem_insertionSort, List.mem_map]
  constructor
  · rintro ⟨⟨key, value⟩, hmem, rfl⟩
    exact ⟨key, AList.mem_lookup_iff.mpr hmem⟩
  · rintro ⟨key, hlookup⟩
    exact ⟨⟨key, entry⟩, AList.mem_lookup_iff.mp hlookup, rfl⟩

theorem hasPinned_eq {s : PinStores.State} {manifests : List Manifest}
    (hmanifests : listPins p s = .ok manifests) (skillId fingerprint : JsText) :
    hasPinned p (some s) skillId fingerprint =
      .ok (decide ((skillId, fingerprint) ∈ manifests.map versionKey)) := by
  rw [hasPinned, hmanifests]
  refine congrArg Except.ok ?_
  rw [Bool.eq_iff_iff]
  simp [versionKey]

theorem mark_entryFromBundle {bundle : Bundle Details Report} {condition : Prop}
    [Decidable condition] :
    (if condition then
      { (entryFromBundle bundle false : CatalogEntry Report) with
        availability := .livePinned, pinned := true }
    else entryFromBundle bundle false) = entryFromBundle bundle (decide condition) := by
  by_cases hcondition : condition
  · rw [if_pos hcondition, decide_eq_true hcondition]
    rfl
  · rw [if_neg hcondition, decide_eq_false hcondition]

theorem listed_found (hinjective : Function.Injective p.sha256) {result : CatalogList Report}
    (h : list p reader manager pins workspaceId = .ok result) :
    ∀ entry ∈ result.skills,
      (∃ inspection, inspect p reader manager pins
        ⟨entry.skillId, some entry.fingerprint, workspaceId⟩ = .ok inspection ∧
          inspection.skill = entry) ∧
      ∃ answer, loadRaw p reader manager pins
        ⟨entry.skillId, some entry.fingerprint, workspaceId⟩ none = .ok answer ∧
          answer.skill = entry := by
  obtain ⟨discovery, hdiscovery, h⟩ := bind_eq_ok h
  obtain ⟨live, hlive, h⟩ := bind_eq_ok h
  obtain ⟨versions, hversions, h⟩ := bind_eq_ok h
  obtain ⟨sourceIds, -, h⟩ := bind_eq_ok h
  obtain rfl := Except.ok.inj h
  have hlisted := liveListed hlive
  have hentries : ∀ key entry, live.1.lookup key = some entry →
      ∃ skill ∈ discovery.skills, ∃ bundle,
        buildBundle p (manager.view workspaceId) skill = .ok bundle ∧
        key = (skill.skillId, bundle.bundleFingerprint) ∧ entry = entryFromBundle bundle false := by
    intro key entry hlookup
    obtain hfound | hnone := hlisted.entries key entry hlookup
    · exact hfound
    · cases hnone
  intro entry hentry
  obtain ⟨key, hlookup⟩ := mem_sortEntries.mp hentry
  cases pins with
  | none =>
    obtain rfl := Except.ok.inj hversions
    obtain ⟨skill, hskill, bundle, hbuilt, -, rfl⟩ := hentries key entry hlookup
    obtain ⟨rfl, -⟩ := assembled_of_buildBundle hbuilt
    exact found_live hinjective hdiscovery hskill hbuilt rfl
  | some s =>
    obtain ⟨manifests, hmanifests, hversions⟩ := bind_eq_ok hversions
    obtain ⟨current, hcurrent, rfl⟩ | ⟨hnone, raw, hraw, hpinned⟩ :=
      listPinned_entries (keys_listPins hmanifests) hversions key entry hlookup
    · obtain ⟨skill, hskill, bundle, hbuilt, rfl, rfl⟩ := hentries key current hcurrent
      obtain ⟨rfl, -⟩ := assembled_of_buildBundle hbuilt
      have hpins := hasPinned_eq hmanifests bundle.skill.skillId bundle.bundleFingerprint
      have hfound := found_live hinjective hdiscovery hskill hbuilt hpins
      rw [mark_entryFromBundle]
      exact hfound
    · obtain ⟨parsed, hparsed⟩ := parsed_of_entryFromPinnedLoad hpinned
      obtain ⟨hloaded, hskillId, hfingerprint⟩ := loaded_of_loadPin hraw
      obtain ⟨entry', hentry', hsame⟩ := @entryFromPinnedLoad_ok _ Report _ _ _ _ hloaded hparsed
      obtain rfl := Except.ok.inj (hpinned.symm.trans hentry')
      rw [hsame.skillId, hsame.fingerprint, hskillId, hfingerprint]
      have htolerates : ∀ skill ∈ discovery.skills, skill.skillId = key.1 →
          Tolerates (buildBundle p (manager.view workspaceId) skill) fun bundle =>
            bundle.bundleFingerprint = key.2 → ∃ manifests, listPins p s = .ok manifests := by
        intro skill hskill hid
        have hbundled := hlisted.bundled skill hskill
        cases hbuilt : buildBundle p (manager.view workspaceId) skill with
        | error error =>
          rw [hbuilt] at hbundled
          exact hbundled
        | ok bundle => exact fun _ => ⟨manifests, hmanifests⟩
      refine found_pinned hdiscovery ?_ hraw hpinned
      obtain hlive | ⟨skill, hskill, bundle, -, hid, hbuilt, hprint, -⟩ := liveBundle_cases htolerates
      · exact hlive
      · have hbundled := hlisted.bundled skill hskill
        rw [hbuilt] at hbundled
        have hkey : (skill.skillId, bundle.bundleFingerprint) = key := Prod.ext hid hprint
        exact absurd (hkey ▸ hbundled) (AList.lookup_eq_none.mp hnone)

/-- Pinned skills are reproducible just if every lookup of an intact pin gets through the live
sources. -/
theorem reproducible_iff (hinjective : Function.Injective p.sha256) :
    Reproducible p reader manager pins workspaceId ↔
      ∀ s, pins = some s → ∀ skillId fingerprint raw parsed,
        Intact p reader s skillId fingerprint raw parsed →
          Reaches p reader manager workspaceId s skillId fingerprint := by
  constructor
  · rintro h s rfl skillId fingerprint raw parsed hintact
    obtain ⟨inspection, hinspection, -⟩ := (h.pinned s rfl _ _ _ _ hintact).inspects
    exact reaches_of_lookup hinjective hinspection
  · intro h
    refine ⟨?_, fun result hresult => listed_found hinjective hresult⟩
    rintro s rfl skillId fingerprint raw parsed hintact
    exact reproduced_of_reaches hinjective hintact (h s rfl _ _ _ _ hintact)

end Reproducing

def widen (byte : UInt8) : UInt16 := byte.toUInt16 + 256

def sampleFiles : List FileRecord := [skillRecord samplePlatform sampleDocument]

def sampleBundle : Bytes :=
  pathBytes (asciiUnits "kodegpt-skill-bundle:v1\n") ++ sampleFiles.flatMap recordLine

def apartPlatform : Platform where
  sha256 := fun bytes =>
    if bytes = sampleDocument ∨ bytes = pathBytes (sampleSourceId ++ [0, 97]) ∨
        bytes = sampleBundle then samplePlatform.sha256 bytes
    else bytes.map widen
  isDate := samplePlatform.isDate

theorem widen_toNat (byte : UInt8) : (widen byte).toNat = byte.toNat + 256 := by
  have hbyte := byte.toNat_lt
  simp only [widen, UInt16.toNat_add, UInt8.toNat_toUInt16]
  exact Nat.mod_eq_of_lt (Nat.lt_trans (Nat.add_lt_add_right hbyte 256) (by decide))

theorem widen_injective : Function.Injective widen := by
  intro left right h
  have hsame := congrArg UInt16.toNat h
  rw [widen_toNat, widen_toNat] at hsame
  exact UInt8.toNat_inj.mp (Nat.add_right_cancel hsame)

theorem digest_ne_widened (bytes other : Bytes) :
    samplePlatform.sha256 bytes ≠ other.map widen := by
  have hdigest : ∃ unit rest, samplePlatform.sha256 bytes = unit :: rest ∧ unit.toNat < 256 := by
    unfold samplePlatform
    dsimp only
    split_ifs <;> exact ⟨_, _, rfl, by decide⟩
  obtain ⟨unit, rest, hunits, hsmall⟩ := hdigest
  rw [hunits]
  intro h
  obtain ⟨byte, later, -, rfl, -⟩ := List.map_eq_cons_iff.mp h.symm
  rw [widen_toNat] at hsmall
  omega

theorem sampleDigests_nodup : ([sampleDocument, pathBytes (sampleSourceId ++ [0, 97]),
    sampleBundle].map samplePlatform.sha256).Nodup := by decide +kernel

theorem apartPlatform_injective : Function.Injective apartPlatform.sha256 := by
  intro left right h
  unfold apartPlatform at h
  dsimp only at h
  split_ifs at h with hleft hright hright
  · refine List.inj_on_of_nodup_map sampleDigests_nodup ?_ ?_ h
    · simpa using hleft
    · simpa using hright
  · exact absurd h (digest_ne_widened left right)
  · exact absurd h.symm (digest_ne_widened right left)
  · exact List.map_injective_iff.mpr widen_injective h

def sampleManifest : Manifest where
  skillId := sampleInput.skillId
  name := sampleInput.name
  description := sampleInput.description
  fingerprint := sampleInput.fingerprint
  sourceId := sampleInput.sourceId
  sourceRelativePath := sampleInput.sourceRelativePath
  pinnedAt := asciiUnits "2026-01-01T00:00:00.000Z"
  files := sampleFiles

def sampleTree : Tree where
  files := (∅ : Family Path File).insert [skillFile] (.data sampleDocument)
    |>.insert [manifestFile] (.manifest sampleManifest)
  directories := []

def samplePins : PinStores.State where
  rootExists := true
  skills := (∅ : Family JsText (Family PinStores.Name Tree)).insert sampleInput.skillId
    ((∅ : Family PinStores.Name Tree).insert (.final sampleInput.fingerprint) sampleTree)
  torn := []
  calls := fun _ => none

def sampleReader : Reader Unit Unit where
  frontmatter := fun bytes =>
    if bytes = sampleDocument then .ok ⟨sampleInput.name, sampleInput.description, ()⟩
    else .error .invalid
  analyze := fun _ => ()

theorem samplePin_intact : ∃ raw parsed, Intact apartPlatform sampleReader samplePins
    sampleInput.skillId sampleInput.fingerprint raw parsed := by
  have hrun : (match (loadPin apartPlatform samplePins sampleInput.skillId sampleInput.fingerprint >>=
      fun raw => parsePinnedSkillDocument sampleReader raw) with
    | .ok _ => true
    | .error _ => false) = true := by decide +kernel
  split at hrun
  · rename_i parsed hparsed
    obtain ⟨raw, hraw, hparsed⟩ := bind_eq_ok hparsed
    exact ⟨raw, parsed, hraw, hparsed⟩
  · cases hrun

def linkedView : View where
  listSources := .ok ⟨[⟨sampleSourceId, by decide⟩], by decide⟩
  tree := fun _ path =>
    if path = dotName then
      .ok ⟨[⟨asciiUnits "a", .directory, 0⟩, ⟨asciiUnits "a/SKILL.md", .file, 31⟩,
        ⟨asciiUnits "a/link", .symlink, 0⟩], false, by decide⟩
    else .ok ⟨[⟨asciiUnits "a/SKILL.md", .file, 31⟩, ⟨asciiUnits "a/link", .symlink, 0⟩], false,
      by decide⟩
  readBytes := fun _ _ _ => .ok ⟨sampleDocument, 31, true⟩

def removedView : View where
  listSources := .ok ⟨[], List.nodup_nil⟩
  tree := fun _ _ => .error .other
  readBytes := fun _ _ _ => .error .other

def sampleManager (view : View) : SourceManager Nat where
  view := fun _ => view
  listReadyWorkspaceIds := none

theorem removedSource_reproducible :
    Reproducible apartPlatform sampleReader (sampleManager removedView) (some samplePins) none := by
  refine (reproducible_iff apartPlatform_injective).mpr ?_
  intro s hs skillId fingerprint raw parsed hintact
  exact ⟨⟨[], List.nodup_nil⟩, rfl, nofun⟩

theorem linkedSource_not_reproducible :
    ¬∀ (Details Report : Type) (p : Platform) (reader : Reader Details Report)
      (manager : SourceManager Nat) (pins : Option PinStores.State) (workspaceId : Option Nat),
      Function.Injective p.sha256 → Reproducible p reader manager pins workspaceId := by
  intro h
  have hreproducible := h Unit Unit apartPlatform sampleReader (sampleManager linkedView)
    (some samplePins) none apartPlatform_injective
  obtain ⟨raw, parsed, hintact⟩ := samplePin_intact
  obtain ⟨inspection, hinspection, -⟩ :=
    (hreproducible.pinned samplePins rfl _ _ raw parsed hintact).inspects
  have hrun : (match (inspect apartPlatform sampleReader (sampleManager linkedView) (some samplePins)
      ⟨sampleInput.skillId, some sampleInput.fingerprint, none⟩) with
    | .ok _ => false
    | .error error => decide (error = resourceUnsupported)) = true := by decide +kernel
  rw [hinspection] at hrun
  cases hrun

end KodeGpt.SkillReproducibility
