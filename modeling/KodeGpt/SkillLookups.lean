import KodeGpt.BundleFingerprints
import KodeGpt.ListCuts
import KodeGpt.SkillCatalogs

/-!
What the discovery of skills, the building of a bundle and the pins answer with, and when the
live sources can be got through: every step succeeds or finds its source unavailable.
-/

namespace KodeGpt.SkillLookups

open JsObjects NodePaths PinnedSkills BundleFingerprints SkillCatalogs
open JsonText (Bytes)

/-- A value with the property, or a source that is unavailable. -/
def Tolerates {α : Type} (answer : Except SkillError α) (P : α → Prop) : Prop :=
  match answer with
  | .ok value => P value
  | .error error => isUnavailableSourceError error = true

section Tolerances

variable {Details Report : Type} (p : Platform) (reader : Reader Details Report)
  (P : DiscoveredSkill Details Report → Prop) (view : View)

/-- Every document up to the first unavailable one can be read, and its skill has the
property. -/
def DocumentsHold (sourceId : JsText) (tree : TreeResult) : List JsText → Prop
  | [] => True
  | directory :: rest =>
    if (skillMdMaxBytes : Int) <
        ((tree.find (documentPath directory)).map TreeEntry.sizeBytes).getD 0 then
      DocumentsHold sourceId tree rest
    else Tolerates (sourceCall (view.readBytes sourceId (documentPath directory) skillMdMaxBytes))
      fun read =>
        (∀ parsed, read.eof = true → parseSkillDocument reader read.bytes directory = .ok parsed →
          P (discoveredSkill p reader sourceId directory read.bytes parsed)) ∧
        DocumentsHold sourceId tree rest

def SourceHolds (sourceId : JsText) : Prop :=
  Tolerates (sourceCall (view.tree sourceId dotName)) fun tree =>
    DocumentsHold p reader P view sourceId tree ((candidates tree).take maxSkillsPerSource)

def DiscoveryHolds : Prop :=
  ∃ list, view.listSources = .ok list ∧
    ∀ source ∈ list.sources, SourceHolds p reader P view source.sourceId

structure ListingFits (relativeDirectory : JsText) (tree : TreeResult) : Prop where
  whole : tree.truncated = false
  beneath : ∀ entry ∈ tree.entries, (relativeDirectory ++ [slash]) <+: entry.path
  plain : ∀ entry ∈ tree.entries, entry.path.drop (relativeDirectory.length + 1) ≠ [] →
    entry.kind = .file ∨ entry.kind = .directory
  document : skillFile ∈ (regularFiles relativeDirectory tree.entries).map RegularFile.relativePath
  count : ((regularFiles relativeDirectory tree.entries).filter fun file =>
    file.relativePath ≠ skillFile).length ≤ maxResourcesPerSkill
  sizes : ∀ file ∈ regularFiles relativeDirectory tree.entries,
    0 ≤ file.sizeBytes ∧ file.sizeBytes ≤ maxSafeInteger
  total : ((regularFiles relativeDirectory tree.entries).map RegularFile.sizeBytes).sum ≤
    skillBundleMaxBytes

/-- Every file up to the first unavailable one is read with the size it is listed with, and
the files have the property if all are read. -/
def ReadsHold (sourceId : JsText) : (List BundleFile → Prop) → Nat → List RegularFile → Prop
  | Q, _, [] => Q []
  | Q, total, file :: rest =>
    Tolerates (sourceCall (view.readBytes sourceId file.path (max 1 file.sizeBytes.toNat)))
      fun read =>
        (read.eof = true ∧ read.bytesRead = file.sizeBytes ∧
          (read.bytes.length : Int) = file.sizeBytes) ∧
        total + read.bytes.length ≤ skillBundleMaxBytes ∧
        ReadsHold sourceId (fun later => Q (⟨file.relativePath, read.bytes, p.sha256 read.bytes⟩ :: later))
          (total + read.bytes.length) rest

/-- The files have valid records, and the document is the one that was discovered. -/
structure FilesFit (descriptorFingerprint : JsText) (files : List BundleFile) : Prop where
  document : ((files.find? fun file => file.path = skillFile).map BundleFile.sha256) =
    some descriptorFingerprint
  records : ∃ fingerprint, fingerprintSkillBundle p (files.map bundleRecord) = .ok fingerprint

def BundleHolds (Q : List BundleFile → Prop) (skill : DiscoveredSkill Details Report) : Prop :=
  Tolerates (sourceCall (view.tree skill.sourceId skill.relativeDirectory)) fun tree =>
    ListingFits skill.relativeDirectory tree ∧
    ReadsHold p view skill.sourceId (fun files => FilesFit p skill.descriptorFingerprint files ∧ Q files) 0
      (regularFiles skill.relativeDirectory tree.entries)

end Tolerances

section Discovering

variable {Details Report : Type} {p : Platform} {reader : Reader Details Report}
  {P : DiscoveredSkill Details Report → Prop} {view : View}

def documentSkills (p : Platform) (reader : Reader Details Report) (sourceId directory : JsText)
    (read : ReadResult) : List (DiscoveredSkill Details Report) :=
  if read.eof then
    match parseSkillDocument reader read.bytes directory with
    | .ok parsed => [discoveredSkill p reader sourceId directory read.bytes parsed]
    | .error _ => []
  else []

theorem mem_documentSkills {sourceId directory : JsText} {read : ReadResult}
    {skill : DiscoveredSkill Details Report} :
    skill ∈ documentSkills p reader sourceId directory read ↔
      ∃ parsed, read.eof = true ∧ parseSkillDocument reader read.bytes directory = .ok parsed ∧
        skill = discoveredSkill p reader sourceId directory read.bytes parsed := by
  unfold documentSkills
  split
  · rename_i heof
    split
    · rename_i parsed hparsed
      simp [heof, hparsed]
    · rename_i reason hreason
      simp [hreason]
  · rename_i heof
    simp [heof]

theorem discoverCandidates_read {sourceId directory : JsText} {tree : TreeResult}
    {rest : List JsText} {read : ReadResult}
    (hlisted : ¬ (skillMdMaxBytes : Int) <
      ((tree.find (documentPath directory)).map TreeEntry.sizeBytes).getD 0)
    (hread : sourceCall (view.readBytes sourceId (documentPath directory) skillMdMaxBytes) = .ok read) :
    ∃ reasons : List TruncationReason → List TruncationReason,
      discoverCandidates p reader view sourceId tree (directory :: rest) =
        (discoverCandidates p reader view sourceId tree rest).map fun later =>
          (documentSkills p reader sourceId directory read ++ later.1, reasons later.2) := by
  rw [discoverCandidates, if_neg hlisted, hread]
  dsimp only
  unfold documentSkills
  cases discoverCandidates p reader view sourceId tree rest with
  | error error => exact ⟨id, rfl⟩
  | ok later =>
    cases read.eof with
    | false => exact ⟨(.descriptorSizeLimit :: ·), rfl⟩
    | true =>
      rw [if_pos rfl]
      cases parseSkillDocument reader read.bytes directory with
      | ok parsed => exact ⟨id, rfl⟩
      | error reason =>
        cases reason with
        | invalid => exact ⟨id, rfl⟩
        | descriptorSizeLimit => exact ⟨(.descriptorSizeLimit :: ·), rfl⟩

theorem discoverCandidates_iff {sourceId : JsText} {tree : TreeResult} (directories : List JsText) :
    (∃ found, discoverCandidates p reader view sourceId tree directories = .ok found ∧
      ∀ skill ∈ found.1, P skill) ↔ DocumentsHold p reader P view sourceId tree directories := by
  induction directories with
  | nil => exact ⟨fun _ => trivial, fun _ => ⟨_, rfl, nofun⟩⟩
  | cons directory rest ih =>
    rw [DocumentsHold]
    split
    · rename_i hlarge
      rw [← ih, discoverCandidates, if_pos hlarge]
      cases discoverCandidates p reader view sourceId tree rest with
      | error error => exact ⟨by rintro ⟨_, ⟨⟩, -⟩, by rintro ⟨_, ⟨⟩, -⟩⟩
      | ok later =>
        constructor
        · rintro ⟨found, hfound, hall⟩
          obtain rfl := Except.ok.inj hfound
          exact ⟨later, rfl, hall⟩
        · rintro ⟨found, hfound, hall⟩
          obtain rfl := Except.ok.inj hfound
          exact ⟨_, rfl, hall⟩
    · rename_i hlisted
      cases hread : sourceCall (view.readBytes sourceId (documentPath directory)
          skillMdMaxBytes) with
      | error error =>
        rw [discoverCandidates, if_neg hlisted, hread]
        dsimp only [Tolerates]
        split
        · rename_i hunavailable
          exact ⟨fun _ => hunavailable, fun _ => ⟨_, rfl, nofun⟩⟩
        · rename_i hunavailable
          exact ⟨by rintro ⟨_, ⟨⟩, -⟩, fun h => absurd h hunavailable⟩
      | ok read =>
        obtain ⟨reasons, heq⟩ := @discoverCandidates_read _ _ p reader view _ _ _ rest _ hlisted hread
        rw [heq]
        dsimp only [Tolerates]
        rw [← ih]
        cases discoverCandidates p reader view sourceId tree rest with
        | error error => exact ⟨by rintro ⟨_, ⟨⟩, -⟩, by rintro ⟨-, _, ⟨⟩, -⟩⟩
        | ok later =>
          constructor
          · rintro ⟨found, hfound, hall⟩
            obtain rfl := Except.ok.inj hfound
            obtain ⟨hdocument, hlater⟩ := List.forall_mem_append.mp hall
            refine ⟨?_, later, rfl, hlater⟩
            intro parsed heof hparsed
            exact hdocument _ (mem_documentSkills.mpr ⟨parsed, heof, hparsed, rfl⟩)
          · rintro ⟨hdocument, found, hfound, hlater⟩
            obtain rfl := Except.ok.inj hfound
            refine ⟨_, rfl, List.forall_mem_append.mpr ⟨?_, hlater⟩⟩
            intro skill hskill
            obtain ⟨parsed, heof, hparsed, rfl⟩ := mem_documentSkills.mp hskill
            exact hdocument parsed heof hparsed

theorem discoverSource_iff {sourceId : JsText} :
    (∃ found, discoverSource p reader view sourceId = .ok found ∧ ∀ skill ∈ found.1, P skill) ↔
      SourceHolds p reader P view sourceId := by
  unfold discoverSource SourceHolds
  cases sourceCall (view.tree sourceId dotName) with
  | error error =>
    dsimp only [Tolerates]
    split
    · rename_i hunavailable
      exact ⟨fun _ => hunavailable, fun _ => ⟨_, rfl, nofun⟩⟩
    · rename_i hunavailable
      exact ⟨by rintro ⟨_, ⟨⟩, -⟩, fun h => absurd h hunavailable⟩
  | ok tree =>
    dsimp only [Tolerates]
    rw [← discoverCandidates_iff]
    constructor
    · rintro ⟨found, hfound, hall⟩
      obtain ⟨later, hlater, h⟩ := bind_eq_ok hfound
      obtain rfl := Except.ok.inj h
      exact ⟨later, hlater, hall⟩
    · rintro ⟨later, hlater, hall⟩
      rw [hlater]
      exact ⟨_, rfl, hall⟩

theorem discoverSources_iff (sourceIds : List JsText) :
    (∃ found, discoverSources p reader view sourceIds = .ok found ∧ ∀ skill ∈ found.1, P skill) ↔
      ∀ sourceId ∈ sourceIds, SourceHolds p reader P view sourceId := by
  induction sourceIds with
  | nil => exact ⟨fun _ => nofun, fun _ => ⟨_, rfl, nofun⟩⟩
  | cons sourceId rest ih =>
    rw [List.forall_mem_cons, ← ih, ← discoverSource_iff]
    constructor
    · rintro ⟨found, hfound, hall⟩
      obtain ⟨first, hfirst, h⟩ := bind_eq_ok hfound
      obtain ⟨later, hlater, h⟩ := bind_eq_ok h
      obtain rfl := Except.ok.inj h
      obtain ⟨hhead, htail⟩ := List.forall_mem_append.mp hall
      exact ⟨⟨first, hfirst, hhead⟩, later, hlater, htail⟩
    · rintro ⟨⟨first, hfirst, hhead⟩, later, hlater, htail⟩
      refine ⟨(first.1 ++ later.1, first.2 ++ later.2), ?_, List.forall_mem_append.mpr ⟨hhead, htail⟩⟩
      rw [discoverSources, hfirst]
      show (discoverSources p reader view rest >>= _) = _
      rw [hlater]
      rfl

theorem sourceCall_ok {α : Type} {answer : Except Failure α} {value : α} :
    sourceCall answer = .ok value ↔ answer = .ok value := by
  cases answer with
  | ok other =>
    rw [sourceCall]
    exact ⟨fun h => congrArg _ (Except.ok.inj h), fun h => congrArg _ (Except.ok.inj h)⟩
  | error failure => cases failure <;> exact ⟨nofun, nofun⟩

theorem mem_discover {skills : List (DiscoveredSkill Details Report)}
    {skill : DiscoveredSkill Details Report} :
    skill ∈ sortDiscovered (markCollisions skills) ↔
      ∃ found ∈ skills, ∃ collision, skill = { found with nameCollision := collision } ∧
        collision = decide (1 < (skills.filter fun other => other.name = found.name).length) := by
  unfold sortDiscovered markCollisions
  rw [List.mem_insertionSort, List.mem_map]
  constructor
  · rintro ⟨found, hfound, rfl⟩
    exact ⟨found, hfound, _, rfl, rfl⟩
  · rintro ⟨found, hfound, collision, rfl, rfl⟩
    exact ⟨found, hfound, rfl⟩

theorem forall_mem_discover {skills : List (DiscoveredSkill Details Report)}
    (hP : ∀ skill collision, P { skill with nameCollision := collision } ↔ P skill) :
    (∀ skill ∈ sortDiscovered (markCollisions skills), P skill) ↔ ∀ skill ∈ skills, P skill := by
  constructor
  · intro h skill hskill
    exact (hP skill _).mp (h _ (mem_discover.mpr ⟨skill, hskill, _, rfl, rfl⟩))
  · intro h skill hskill
    obtain ⟨found, hfound, collision, rfl, -⟩ := mem_discover.mp hskill
    exact (hP found collision).mpr (h found hfound)

/-- A discovery succeeds with skills that all have the property just if it can be got
through with it. -/
theorem discover_iff (hP : ∀ skill collision, P { skill with nameCollision := collision } ↔ P skill) :
    (∃ discovery, discover p reader view = .ok discovery ∧ ∀ skill ∈ discovery.skills, P skill) ↔
      DiscoveryHolds p reader P view := by
  have hmem : ∀ (list : SourceList) sourceId, sourceId ∈
      (list.sources.map Source.sourceId).insertionSort (fun left right => compareUtf8 left right) ↔
        ∃ source ∈ list.sources, source.sourceId = sourceId := by
    intro list sourceId
    rw [List.mem_insertionSort, List.mem_map]
  constructor
  · rintro ⟨discovery, hdiscovery, hall⟩
    obtain ⟨list, hlist, h⟩ := bind_eq_ok hdiscovery
    obtain ⟨found, hfound, h⟩ := bind_eq_ok h
    obtain rfl := Except.ok.inj h
    refine ⟨list, sourceCall_ok.mp hlist, ?_⟩
    intro source hsource
    have hsources := (discoverSources_iff _).mp ⟨found, hfound, (forall_mem_discover hP).mp hall⟩
    exact hsources source.sourceId ((hmem list _).mpr ⟨source, hsource, rfl⟩)
  · rintro ⟨list, hlist, hsources⟩
    obtain ⟨found, hfound, hall⟩ := (discoverSources_iff
      ((list.sources.map Source.sourceId).insertionSort
        fun left right => compareUtf8 left right)).mpr fun sourceId hsourceId => by
          obtain ⟨source, hsource, rfl⟩ := (hmem list sourceId).mp hsourceId
          exact hsources source hsource
    rw [discover, sourceCall_ok.mpr hlist]
    show ∃ discovery, (discoverSources p reader view _ >>= _) = _ ∧ _
    rw [hfound]
    exact ⟨_, rfl, (forall_mem_discover hP).mpr hall⟩

theorem DocumentsHold.imp {Q : DiscoveredSkill Details Report → Prop} {sourceId : JsText}
    {tree : TreeResult} {directories : List JsText}
    (h : DocumentsHold p reader P view sourceId tree directories)
    (himp : ∀ directory bytes parsed, parseSkillDocument reader bytes directory = .ok parsed →
      P (discoveredSkill p reader sourceId directory bytes parsed) →
      Q (discoveredSkill p reader sourceId directory bytes parsed)) :
    DocumentsHold p reader Q view sourceId tree directories := by
  induction directories with
  | nil => trivial
  | cons directory rest ih =>
    rw [DocumentsHold] at h ⊢
    split
    · rename_i hlarge
      rw [if_pos hlarge] at h
      exact ih h
    · rename_i hlisted
      rw [if_neg hlisted] at h
      cases hread : sourceCall (view.readBytes sourceId (documentPath directory)
          skillMdMaxBytes) with
      | error error =>
        rw [hread] at h
        exact h
      | ok read =>
        rw [hread] at h
        obtain ⟨hdocument, hrest⟩ := h
        refine ⟨?_, ih hrest⟩
        intro parsed heof hparsed
        exact himp directory read.bytes parsed hparsed (hdocument parsed heof hparsed)

theorem DiscoveryHolds.imp {Q : DiscoveredSkill Details Report → Prop}
    (h : DiscoveryHolds p reader P view)
    (himp : ∀ sourceId directory bytes parsed, isSourceId sourceId = true →
      parseSkillDocument reader bytes directory = .ok parsed →
      P (discoveredSkill p reader sourceId directory bytes parsed) →
      Q (discoveredSkill p reader sourceId directory bytes parsed)) :
    DiscoveryHolds p reader Q view := by
  obtain ⟨list, hlist, hsources⟩ := h
  refine ⟨list, hlist, ?_⟩
  intro source hsource
  have hsource := hsources source hsource
  unfold SourceHolds at hsource ⊢
  cases htree : sourceCall (view.tree source.sourceId dotName) with
  | error error =>
    rw [htree] at hsource
    exact hsource
  | ok tree =>
    rw [htree] at hsource
    exact hsource.imp fun directory bytes parsed hparsed =>
      himp source.sourceId directory bytes parsed source.valid hparsed

/-- A skill has the name of its directory and what its document says. -/
structure Genuine (p : Platform) (reader : Reader Details Report)
    (skill : DiscoveredSkill Details Report) : Prop where
  source : isSourceId skill.sourceId = true
  skillId : skill.skillId = deriveSkillId p skill.sourceId skill.name
  valid : validSkillName skill.name = true
  document : ∃ bytes, skill.descriptorFingerprint = p.sha256 bytes ∧
    reader.frontmatter bytes = .ok skill.parsed
  name : skill.name = skill.parsed.name
  description : skill.description = skill.parsed.description
  compatibility : skill.compatibility = reader.analyze skill.parsed

theorem parseSkillDocument_ok {bytes : Bytes} {name : JsText} {parsed : ParsedDocument Details}
    (h : parseSkillDocument reader bytes name = .ok parsed) :
    reader.frontmatter bytes = .ok parsed ∧ validSkillName parsed.name = true ∧ parsed.name = name := by
  unfold parseSkillDocument at h
  split at h
  · cases h
  · split at h
    · cases h
    · rename_i found hfound
      split at h
      · rename_i hname
        obtain rfl := Except.ok.inj h
        exact ⟨hfound, hname⟩
      · cases h

theorem genuine_discoveredSkill {sourceId directory : JsText} {bytes : Bytes}
    {parsed : ParsedDocument Details} (hsource : isSourceId sourceId = true)
    (hparsed : parseSkillDocument reader bytes directory = .ok parsed) :
    Genuine p reader (discoveredSkill p reader sourceId directory bytes parsed) where
  source := hsource
  skillId := rfl
  valid := (parseSkillDocument_ok hparsed).2.1
  document := ⟨bytes, rfl, (parseSkillDocument_ok hparsed).1⟩
  name := rfl
  description := rfl
  compatibility := rfl

theorem genuine_of_discover {discovery : Discovery Details Report}
    (h : discover p reader view = .ok discovery) : ∀ skill ∈ discovery.skills, Genuine p reader skill := by
  have hholds : DiscoveryHolds p reader (fun _ => True) view :=
    (discover_iff fun _ _ => Iff.rfl).mp ⟨discovery, h, fun _ _ => trivial⟩
  have hgenuine : DiscoveryHolds p reader (Genuine p reader) view :=
    hholds.imp fun sourceId directory bytes parsed hsource hparsed _ =>
      genuine_discoveredSkill hsource hparsed
  obtain ⟨found, hfound, hall⟩ := (discover_iff fun skill collision =>
    ⟨fun h => ⟨h.source, h.skillId, h.valid, h.document, h.name, h.description, h.compatibility⟩,
      fun h => ⟨h.source, h.skillId, h.valid, h.document, h.name, h.description,
        h.compatibility⟩⟩).mpr hgenuine
  obtain rfl := Except.ok.inj (h.symm.trans hfound)
  exact hall

theorem names_discoverCandidates {sourceId : JsText} {tree : TreeResult} {directories : List JsText}
    {found : List (DiscoveredSkill Details Report) × List TruncationReason}
    (h : discoverCandidates p reader view sourceId tree directories = .ok found) :
    (found.1.map DiscoveredSkill.name).Sublist directories ∧
      ∀ skill ∈ found.1, skill.sourceId = sourceId := by
  induction directories generalizing found with
  | nil =>
    obtain rfl := Except.ok.inj h
    exact ⟨List.Sublist.refl _, nofun⟩
  | cons directory rest ih =>
    by_cases hlisted : (skillMdMaxBytes : Int) <
        ((tree.find (documentPath directory)).map TreeEntry.sizeBytes).getD 0
    · rw [discoverCandidates, if_pos hlisted] at h
      obtain ⟨later, hlater, h⟩ := bind_eq_ok h
      obtain rfl := Except.ok.inj h
      obtain ⟨hnames, hsources⟩ := ih hlater
      exact ⟨hnames.cons directory, hsources⟩
    · cases hread : sourceCall (view.readBytes sourceId (documentPath directory)
          skillMdMaxBytes) with
      | error error =>
        rw [discoverCandidates, if_neg hlisted, hread] at h
        dsimp only at h
        split at h
        · obtain rfl := Except.ok.inj h
          exact ⟨List.nil_sublist _, nofun⟩
        · cases h
      | ok read =>
        obtain ⟨reasons, heq⟩ := @discoverCandidates_read _ _ p reader view _ _ _ rest _ hlisted hread
        rw [heq] at h
        cases hlater : discoverCandidates p reader view sourceId tree rest with
        | error error =>
          rw [hlater] at h
          cases h
        | ok later =>
          rw [hlater] at h
          obtain rfl := Except.ok.inj h
          obtain ⟨hnames, hsources⟩ := ih hlater
          have hdocument : ((documentSkills p reader sourceId directory read).map
              DiscoveredSkill.name).Sublist [directory] := by
            unfold documentSkills
            split
            · split
              · rename_i parsed hparsed
                rw [← (parseSkillDocument_ok hparsed).2.2]
                exact List.Sublist.refl _
              · exact List.nil_sublist _
            · exact List.nil_sublist _
          refine ⟨?_, List.forall_mem_append.mpr ⟨?_, hsources⟩⟩
          · rw [List.map_append]
            exact hdocument.append hnames
          · intro skill hskill
            obtain ⟨parsed, -, -, rfl⟩ := mem_documentSkills.mp hskill
            rfl

theorem candidates_nodup (tree : TreeResult) : (candidates tree).Nodup := by
  unfold candidates
  refine (List.perm_insertionSort _ _).nodup_iff.mpr ?_
  exact tree.unique.sublist ((List.filter_sublist.trans List.filter_sublist).map TreeEntry.path)

def sourceAndName (skill : DiscoveredSkill Details Report) : JsText × JsText :=
  (skill.sourceId, skill.name)

theorem nodup_discoverSource {sourceId : JsText}
    {found : List (DiscoveredSkill Details Report) × List TruncationReason}
    (h : discoverSource p reader view sourceId = .ok found) :
    (found.1.map sourceAndName).Nodup ∧ ∀ skill ∈ found.1, skill.sourceId = sourceId := by
  unfold discoverSource at h
  split at h
  · split at h
    · obtain rfl := Except.ok.inj h
      exact ⟨List.nodup_nil, nofun⟩
    · cases h
  · rename_i tree htree
    obtain ⟨later, hlater, h⟩ := bind_eq_ok h
    obtain rfl := Except.ok.inj h
    obtain ⟨hnames, hsources⟩ := names_discoverCandidates hlater
    refine ⟨?_, hsources⟩
    have hnodup := (candidates_nodup tree).sublist
      (hnames.trans (List.take_sublist maxSkillsPerSource (candidates tree)))
    refine List.Nodup.of_map Prod.snd ?_
    rw [List.map_map]
    exact hnodup

theorem nodup_discoverSources {sourceIds : List JsText} (hsourceIds : sourceIds.Nodup)
    {found : List (DiscoveredSkill Details Report) × List TruncationReason}
    (h : discoverSources p reader view sourceIds = .ok found) :
    (found.1.map sourceAndName).Nodup ∧ ∀ skill ∈ found.1, skill.sourceId ∈ sourceIds := by
  induction sourceIds generalizing found with
  | nil =>
    obtain rfl := Except.ok.inj h
    exact ⟨List.nodup_nil, nofun⟩
  | cons sourceId rest ih =>
    obtain ⟨hfresh, hrest⟩ := List.nodup_cons.mp hsourceIds
    obtain ⟨first, hfirst, h⟩ := bind_eq_ok h
    obtain ⟨later, hlater, h⟩ := bind_eq_ok h
    obtain rfl := Except.ok.inj h
    obtain ⟨hnodup, hsource⟩ := nodup_discoverSource hfirst
    obtain ⟨hothers, hmem⟩ := ih hrest hlater
    constructor
    · rw [List.map_append]
      refine hnodup.append hothers ?_
      intro key hkey hother
      obtain ⟨skill, hskill, rfl⟩ := List.mem_map.mp hkey
      obtain ⟨other, hskill', heq⟩ := List.mem_map.mp hother
      have hsame : other.sourceId = skill.sourceId := (Prod.mk.inj heq).1
      exact hfresh (hsource skill hskill ▸ hsame ▸ hmem other hskill')
    · refine List.forall_mem_append.mpr ⟨?_, ?_⟩
      · intro skill hskill
        exact List.mem_cons.mpr (Or.inl (hsource skill hskill))
      · intro skill hskill
        exact List.mem_cons_of_mem _ (hmem skill hskill)

theorem asciiText_of_validSkillName {name : JsText} (h : validSkillName name = true) :
    asciiText name := by
  simp only [validSkillName, Bool.and_eq_true, List.all_eq_true] at h
  intro unit hmem
  have hwords : List.intercalate [45] (name.splitOn 45) = name := List.intercalate_splitOn 45
  rw [← hwords] at hmem
  obtain rfl | ⟨word, hword, hunit⟩ := ListCuts.mem_intercalate hmem
  · decide
  · have hname := (h.2 word hword).2 unit hunit
    simp only [isNameUnit, Bool.or_eq_true, Bool.and_eq_true, decide_eq_true_eq,
      UInt16.le_iff_toNat_le] at hname
    obtain ⟨-, hhigh⟩ | ⟨-, hhigh⟩ := hname
    · exact Nat.lt_of_le_of_lt hhigh (by decide)
    · exact Nat.lt_of_le_of_lt hhigh (by decide)

theorem nodup_discover (hinjective : Function.Injective p.sha256)
    {discovery : Discovery Details Report} (h : discover p reader view = .ok discovery) :
    (discovery.skills.map DiscoveredSkill.skillId).Nodup := by
  have hgenuine := genuine_of_discover h
  obtain ⟨list, hlist, h⟩ := bind_eq_ok h
  obtain ⟨found, hfound, h⟩ := bind_eq_ok h
  obtain rfl := Except.ok.inj h
  obtain ⟨hnodup, -⟩ := nodup_discoverSources
    ((List.perm_insertionSort _ _).nodup_iff.mpr list.unique) hfound
  have hperm : (sortDiscovered (markCollisions found.1)).Perm (markCollisions found.1) :=
    List.perm_insertionSort _ _
  have hmarked : (markCollisions found.1).map sourceAndName = found.1.map sourceAndName := by
    rw [markCollisions, List.map_map]
    rfl
  have hkeys : ((sortDiscovered (markCollisions found.1)).map sourceAndName).Nodup := by
    rw [(hperm.map sourceAndName).nodup_iff, hmarked]
    exact hnodup
  refine List.Nodup.map_on ?_ hkeys.of_map
  intro left hleft right hright heq
  refine List.inj_on_of_nodup_map hkeys hleft hright ?_
  have hl := hgenuine left hleft
  have hr := hgenuine right hright
  rw [hl.skillId, hr.skillId] at heq
  obtain ⟨hsource, hname⟩ := deriveSkillId_inj hinjective hl.source hr.source
    (asciiText_of_validSkillName hl.valid) (asciiText_of_validSkillName hr.valid) heq
  exact Prod.ext hsource hname

/-- The answer is never an unavailable source. -/
def Definite {α : Type} (answer : Except SkillError α) : Prop :=
  ∀ error, answer = .error error → isUnavailableSourceError error = false

theorem definite_ok {α : Type} (value : α) : Definite (.ok value) := nofun

theorem definite_error {α : Type} {error : SkillError} (h : isUnavailableSourceError error = false) :
    Definite (.error error : Except SkillError α) := by
  rintro _ ⟨⟩
  exact h

theorem definite_requireThat {condition : Prop} [Decidable condition] {error : SkillError}
    (h : isUnavailableSourceError error = false) : Definite (requireThat condition error) := by
  unfold requireThat
  split
  · exact definite_ok ()
  · exact definite_error h

theorem Definite.bind {α β : Type} {action : Except SkillError α} {next : α → Except SkillError β}
    (h : Definite action) (hnext : ∀ value, Definite (next value)) : Definite (action >>= next) := by
  cases action with
  | error error => exact definite_error (h error rfl)
  | ok value => exact hnext value

theorem Definite.tolerates {α : Type} {answer : Except SkillError α} {Q : α → Prop}
    (h : Definite answer) : Tolerates answer Q ↔ ∃ value, answer = .ok value ∧ Q value := by
  cases answer with
  | error error =>
    refine ⟨fun hunavailable => ?_, by rintro ⟨_, ⟨⟩, -⟩⟩
    exact absurd ((h error rfl).symm.trans hunavailable) (by decide)
  | ok value => exact ⟨fun hvalue => ⟨value, rfl, hvalue⟩, by rintro ⟨_, ⟨⟩, hvalue⟩; exact hvalue⟩

theorem tolerates_bind {α β : Type} {action : Except SkillError α}
    {next : α → Except SkillError β} {Q : β → Prop} :
    Tolerates (action >>= next) Q ↔ Tolerates action fun value => Tolerates (next value) Q := by
  cases action <;> rfl

theorem tolerates_requireThat {condition : Prop} [Decidable condition] {error : SkillError}
    {Q : Unit → Prop} (herror : isUnavailableSourceError error = false) :
    Tolerates (requireThat condition error) Q ↔ condition ∧ Q () := by
  rw [(definite_requireThat herror).tolerates]
  simp only [requireThat_eq_ok]
  exact ⟨fun ⟨_, h⟩ => h, fun h => ⟨(), h⟩⟩

theorem tolerates_iff {α : Type} {answer : Except SkillError α} {P Q : α → Prop}
    (h : ∀ value, P value ↔ Q value) : Tolerates answer P ↔ Tolerates answer Q := by
  cases answer with
  | ok value => exact h value
  | error error => exact Iff.rfl

theorem tolerates_checkListing {relativeDirectory : JsText} {tree : TreeResult} {Q : Unit → Prop} :
    Tolerates (checkListing relativeDirectory tree) Q ↔
      ListingFits relativeDirectory tree ∧ Q () := by
  have hkind : ∀ kind : EntryKind, (kind ≠ .symlink ∧ kind ≠ .other) ↔
      (kind = .file ∨ kind = .directory) := by
    intro kind
    cases kind <;> decide
  simp only [checkListing, tolerates_bind]
  rw [tolerates_requireThat rfl, tolerates_requireThat rfl, tolerates_requireThat rfl,
    tolerates_requireThat rfl, tolerates_requireThat rfl, tolerates_requireThat rfl,
    tolerates_requireThat rfl]
  simp only [hkind]
  constructor
  · rintro ⟨hwhole, hbeneath, hplain, hdocument, hcount, hsizes, htotal, hQ⟩
    exact ⟨⟨hwhole, hbeneath, hplain, hdocument, hcount, hsizes, htotal⟩, hQ⟩
  · rintro ⟨⟨hwhole, hbeneath, hplain, hdocument, hcount, hsizes, htotal⟩, hQ⟩
    exact ⟨hwhole, hbeneath, hplain, hdocument, hcount, hsizes, htotal, hQ⟩

theorem tolerates_readFiles {sourceId : JsText} (files : List RegularFile)
    (Q : List BundleFile → Prop) (total : Nat) :
    Tolerates (readFiles p view sourceId total files) Q ↔ ReadsHold p view sourceId Q total files := by
  induction files generalizing Q total with
  | nil => exact Iff.rfl
  | cons file rest ih =>
    rw [readFiles, ReadsHold, tolerates_bind]
    refine tolerates_iff fun read => ?_
    rw [tolerates_bind, tolerates_requireThat rfl, tolerates_bind, tolerates_requireThat rfl,
      tolerates_bind, ih]
    exact Iff.rfl

theorem definite_fingerprintSkillBundle (records : List FileRecord) :
    Definite (fingerprintSkillBundle p records) := by
  unfold fingerprintSkillBundle
  dsimp only
  split
  · exact definite_ok _
  · exact definite_error rfl

/-- A bundle is built with files that have the property, or its source is unavailable, just
if its tree can be got through with the property. -/
theorem tolerates_buildBundle {skill : DiscoveredSkill Details Report} {Q : List BundleFile → Prop} :
    Tolerates (buildBundle p view skill) (fun bundle => Q bundle.files) ↔
      BundleHolds p view Q skill := by
  unfold buildBundle BundleHolds
  rw [tolerates_bind]
  refine tolerates_iff fun tree => ?_
  rw [tolerates_bind, tolerates_checkListing, tolerates_bind]
  refine and_congr_right fun _ => ?_
  rw [← tolerates_readFiles]
  refine tolerates_iff fun files => ?_
  cases hfind : files.find? fun file => file.path = skillFile with
  | none =>
    refine ⟨by rintro ⟨⟩, ?_⟩
    rintro ⟨⟨hdocument, -⟩, -⟩
    rw [hfind] at hdocument
    cases hdocument
  | some document =>
    dsimp only
    rw [tolerates_bind, tolerates_requireThat rfl, tolerates_bind,
      (definite_fingerprintSkillBundle _).tolerates]
    constructor
    · rintro ⟨hdigest, fingerprint, hfingerprint, hQ⟩
      exact ⟨⟨by rw [hfind, ← hdigest]; rfl, fingerprint, hfingerprint⟩, hQ⟩
    · rintro ⟨⟨hdocument, fingerprint, hfingerprint⟩, hQ⟩
      rw [hfind] at hdocument
      exact ⟨Option.some.inj hdocument, fingerprint, hfingerprint, hQ⟩

structure Assembled (p : Platform) (bundle : Bundle Details Report) : Prop where
  fingerprint : fingerprintSkillBundle p (bundle.files.map bundleRecord) = .ok bundle.bundleFingerprint
  document : ∃ file ∈ bundle.files, file.path = skillFile ∧ file.bytes = bundle.skillDocument
  descriptor : p.sha256 bundle.skillDocument = bundle.skill.descriptorFingerprint
  digests : ∀ file ∈ bundle.files, file.sha256 = p.sha256 file.bytes

theorem digests_of_readFiles {sourceId : JsText} {total : Nat} {files : List RegularFile}
    {read : List BundleFile} (h : readFiles p view sourceId total files = .ok read) :
    ∀ file ∈ read, file.sha256 = p.sha256 file.bytes := by
  induction files generalizing total read with
  | nil =>
    obtain rfl := Except.ok.inj h
    exact nofun
  | cons file rest ih =>
    obtain ⟨answer, -, h⟩ := bind_eq_ok h
    obtain ⟨⟨⟩, -, h⟩ := bind_eq_ok h
    obtain ⟨⟨⟩, -, h⟩ := bind_eq_ok h
    obtain ⟨later, hlater, h⟩ := bind_eq_ok h
    obtain rfl := Except.ok.inj h
    exact List.forall_mem_cons.mpr ⟨rfl, ih hlater⟩

theorem assembled_of_buildBundle {skill : DiscoveredSkill Details Report}
    {bundle : Bundle Details Report} (h : buildBundle p view skill = .ok bundle) :
    bundle.skill = skill ∧ Assembled p bundle := by
  obtain ⟨tree, -, h⟩ := bind_eq_ok h
  obtain ⟨⟨⟩, -, h⟩ := bind_eq_ok h
  obtain ⟨files, hfiles, h⟩ := bind_eq_ok h
  have hdigests := digests_of_readFiles hfiles
  split at h
  · cases h
  · rename_i document hfind
    obtain ⟨⟨⟩, hdigest, h⟩ := bind_eq_ok h
    obtain ⟨fingerprint, hfingerprint, h⟩ := bind_eq_ok h
    obtain rfl := Except.ok.inj h
    have hmem := List.mem_of_find?_eq_some hfind
    exact ⟨rfl,
      { fingerprint := hfingerprint
        document := ⟨document, hmem, by simpa using List.find?_some hfind, rfl⟩
        descriptor := (hdigests document hmem).symm.trans (requireThat_eq_ok.mp hdigest)
        digests := hdigests }⟩

end Discovering

section Pins

variable {p : Platform} {s : PinStores.State}

structure Loaded (p : Platform) (raw : RawLoad) : Prop where
  valid : validateManifest p raw.manifest = true
  fingerprint : fingerprintSkillBundle p raw.manifest.files = .ok raw.manifest.fingerprint
  document : raw.manifest.files.find? (fun file => file.path = skillFile) =
    some (skillRecord p raw.skillDocument)
  resources : raw.resources.map resourceRecord = resourceRecords raw.manifest
  digests : ∀ resource ∈ raw.resources, resource.sha256 = p.sha256 resource.bytes

theorem readAndVerifyFile_ok {tree : Tree} {path : Path} {record : FileRecord} {bytes : Bytes}
    (h : readAndVerifyFile p tree path record = .ok bytes) :
    bytes.length = record.bytes ∧ p.sha256 bytes = record.sha256 := by
  unfold readAndVerifyFile at h
  split at h
  · split at h
    · rename_i hmatch
      obtain rfl := Except.ok.inj h
      exact hmatch
    · cases h
  · cases h

theorem readResources_ok {tree : Tree} {records : List FileRecord} {resources : List Resource}
    (h : readResources p tree records = .ok resources) :
    resources.map resourceRecord = records ∧
      ∀ resource ∈ resources, resource.sha256 = p.sha256 resource.bytes := by
  induction records generalizing resources with
  | nil =>
    obtain rfl := Except.ok.inj h
    exact ⟨rfl, nofun⟩
  | cons record rest ih =>
    obtain ⟨bytes, hbytes, h⟩ := bind_eq_ok h
    obtain ⟨later, hlater, h⟩ := bind_eq_ok h
    obtain rfl := Except.ok.inj h
    obtain ⟨hlength, hdigest⟩ := readAndVerifyFile_ok hbytes
    obtain ⟨hrecords, hdigests⟩ := ih hlater
    refine ⟨?_, List.forall_mem_cons.mpr ⟨hdigest.symm, hdigests⟩⟩
    rw [List.map_cons, hrecords, resourceRecord, hlength]

theorem loaded_of_load {tree : Tree} {skillId fingerprint : JsText} {raw : RawLoad}
    (h : load p tree skillId fingerprint = .ok raw) :
    Loaded p raw ∧ raw.manifest.skillId = skillId ∧ raw.manifest.fingerprint = fingerprint := by
  obtain ⟨hvalid, hskillId, hname⟩ := names_of_readManifest (manifest_of_load h)
  obtain ⟨manifest, -, h⟩ := bind_eq_ok h
  obtain ⟨⟨⟩, -, h⟩ := bind_eq_ok h
  split at h
  · cases h
  · rename_i record hfind
    obtain ⟨skillDocument, hdocument, h⟩ := bind_eq_ok h
    obtain ⟨resources, hresources, h⟩ := bind_eq_ok h
    obtain ⟨computed, hcomputed, h⟩ := bind_eq_ok h
    obtain ⟨⟨⟩, hsame, h⟩ := bind_eq_ok h
    obtain rfl := Except.ok.inj h
    obtain ⟨hlength, hdigest⟩ := readAndVerifyFile_ok hdocument
    obtain ⟨hrecords, hdigests⟩ := readResources_ok hresources
    have hpath : record.path = skillFile := by simpa using List.find?_some hfind
    have hrecord : record = skillRecord p skillDocument := by
      rw [skillRecord, hlength, hdigest, ← hpath]
    refine ⟨⟨hvalid, ?_, hrecord ▸ hfind, hrecords, hdigests⟩, hskillId, hname⟩
    rw [hcomputed]
    exact congrArg _ (requireThat_eq_ok.mp hsame)

theorem loaded_of_loadPin {skillId fingerprint : JsText} {raw : RawLoad}
    (h : loadPin p s skillId fingerprint = .ok raw) :
    Loaded p raw ∧ raw.manifest.skillId = skillId ∧ raw.manifest.fingerprint = fingerprint := by
  unfold loadPin at h
  split at h
  · split at h
    · cases h
    · exact loaded_of_load h
  · cases h

theorem definite_readManifest (tree : Tree) (skillId fingerprint : JsText) :
    Definite (readManifest p tree skillId fingerprint) := by
  unfold readManifest
  split
  · split
    · exact definite_ok _
    · exact definite_error rfl
  · exact definite_error rfl

theorem definite_readManifests (skillId : JsText) (names : List PinStores.Name) :
    Definite (readManifests p s skillId names) := by
  induction names with
  | nil => exact definite_ok _
  | cons name rest ih =>
    cases name with
    | temporary fingerprint number => exact ih
    | final fingerprint =>
      refine (definite_requireThat rfl).bind fun _ => ?_
      split
      · exact definite_error rfl
      · exact (definite_readManifest _ _ _).bind fun _ => ih.bind fun _ => definite_ok _

theorem definite_readSkills (skillIds : List JsText) : Definite (readSkills p s skillIds) := by
  induction skillIds with
  | nil => exact definite_ok _
  | cons skillId rest ih =>
    refine (definite_requireThat rfl).bind fun _ => ?_
    split
    · exact definite_error rfl
    · exact (definite_readManifests _ _).bind fun _ => ih.bind fun _ => definite_ok _

theorem definite_listPins (s : PinStores.State) : Definite (listPins p s) := by
  unfold listPins
  split
  · exact definite_readSkills _
  · exact definite_ok _

def versionKey (manifest : Manifest) : JsText × JsText := (manifest.skillId, manifest.fingerprint)

theorem keys_readManifests {skillId : JsText} {names : List PinStores.Name} (hnames : names.Nodup)
    {manifests : List Manifest} (h : readManifests p s skillId names = .ok manifests) :
    (manifests.map Manifest.fingerprint).Nodup ∧ ∀ manifest ∈ manifests,
      manifest.skillId = skillId ∧ .final manifest.fingerprint ∈ names := by
  induction names generalizing manifests with
  | nil =>
    obtain rfl := Except.ok.inj h
    exact ⟨List.nodup_nil, nofun⟩
  | cons name rest ih =>
    obtain ⟨hfresh, hrest⟩ := List.nodup_cons.mp hnames
    cases name with
    | temporary fingerprint number =>
      obtain ⟨hnodup, hmem⟩ := ih hrest h
      exact ⟨hnodup, fun manifest hmanifest =>
        ⟨(hmem manifest hmanifest).1, List.mem_cons_of_mem _ (hmem manifest hmanifest).2⟩⟩
    | final fingerprint =>
      obtain ⟨⟨⟩, -, h⟩ := bind_eq_ok h
      split at h
      · cases h
      · obtain ⟨manifest, hmanifest, h⟩ := bind_eq_ok h
        obtain ⟨later, hlater, h⟩ := bind_eq_ok h
        obtain rfl := Except.ok.inj h
        obtain ⟨-, hskillId, rfl⟩ := names_of_readManifest hmanifest
        obtain ⟨hnodup, hmem⟩ := ih hrest hlater
        constructor
        · rw [List.map_cons, List.nodup_cons]
          refine ⟨?_, hnodup⟩
          intro hother
          obtain ⟨other, hother, heq⟩ := List.mem_map.mp hother
          exact hfresh (heq ▸ (hmem other hother).2)
        · refine List.forall_mem_cons.mpr ⟨⟨hskillId, List.mem_cons_self⟩, ?_⟩
          intro other hother
          exact ⟨(hmem other hother).1, List.mem_cons_of_mem _ (hmem other hother).2⟩

theorem keys_readSkills {skillIds : List JsText} (hskillIds : skillIds.Nodup)
    {manifests : List Manifest} (h : readSkills p s skillIds = .ok manifests) :
    (manifests.map versionKey).Nodup ∧ ∀ manifest ∈ manifests, manifest.skillId ∈ skillIds := by
  induction skillIds generalizing manifests with
  | nil =>
    obtain rfl := Except.ok.inj h
    exact ⟨List.nodup_nil, nofun⟩
  | cons skillId rest ih =>
    obtain ⟨hfresh, hrest⟩ := List.nodup_cons.mp hskillIds
    obtain ⟨⟨⟩, -, h⟩ := bind_eq_ok h
    split at h
    · cases h
    · rename_i directory hdirectory
      obtain ⟨first, hfirst, h⟩ := bind_eq_ok h
      obtain ⟨later, hlater, h⟩ := bind_eq_ok h
      obtain rfl := Except.ok.inj h
      obtain ⟨hnodup, hmem⟩ := keys_readManifests
        ((List.perm_insertionSort _ _).nodup_iff.mpr directory.keys_nodup) hfirst
      obtain ⟨hothers, hlaterMem⟩ := ih hrest hlater
      constructor
      · rw [List.map_append]
        refine List.Nodup.append ?_ hothers ?_
        · refine List.Nodup.of_map Prod.snd ?_
          rw [List.map_map]
          exact hnodup
        · intro key hkey hother
          obtain ⟨manifest, hmanifest, rfl⟩ := List.mem_map.mp hkey
          obtain ⟨other, hother, heq⟩ := List.mem_map.mp hother
          have hsame : other.skillId = manifest.skillId := (Prod.mk.inj heq).1
          exact hfresh ((hmem manifest hmanifest).1 ▸ hsame ▸ hlaterMem other hother)
      · refine List.forall_mem_append.mpr ⟨?_, ?_⟩
        · intro manifest hmanifest
          exact List.mem_cons.mpr (Or.inl (hmem manifest hmanifest).1)
        · intro manifest hmanifest
          exact List.mem_cons_of_mem _ (hlaterMem manifest hmanifest)

theorem keys_listPins {manifests : List Manifest} (h : listPins p s = .ok manifests) :
    (manifests.map versionKey).Nodup := by
  unfold listPins at h
  split at h
  · exact (keys_readSkills ((List.perm_insertionSort _ _).nodup_iff.mpr s.skills.keys_nodup) h).1
  · obtain rfl := Except.ok.inj h
    exact List.nodup_nil

end Pins

end KodeGpt.SkillLookups
