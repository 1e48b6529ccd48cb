import KodeGpt.FailureLogs
import KodeGpt.FallibleActions
import KodeGpt.SkillReproducibility
import KodeGpt.TextPages

/-!
The texts that `skill.load` returns, and those that a source of skills is read with. A byte
order mark at the front of a file is no part of the text that `TextDecoder` makes of it.
-/

namespace KodeGpt.LoadedTexts

open JsObjects LossyTexts PinnedSkills SkillCatalogs TextEncodings TextPages
open FailureLogs (byteOrderMark)
open FallibleActions (bind_eq_ok_iff)
open JsonText (Bytes)
open JsFrames (asciiUnits)
open NodePaths (pathBytes dotName)
open PinStoreRuns (sampleDocument sampleSourceId samplePlatform sampleInput)
open SkillReproducibility (linkedView sampleReader sampleManager)
open SkillLookups (Loaded Assembled assembled_of_buildBundle loaded_of_loadPin)

/-- `new TextDecoder("utf-8", { fatal: true }).decode(bytes)` -/
def textDecode (bytes : Bytes) : Option (List Char) :=
  (decodeUtf8 bytes).map fun text => if text.head? = some byteOrderMark then text.tail else text

def markBytes : Bytes := [239, 187, 191]

/-- A text that begins with a byte order mark. -/
def Marked (bytes : Bytes) : Prop := validUtf8 bytes = true ∧ markBytes <+: bytes

theorem utf8EncodeChar_byteOrderMark : String.utf8EncodeChar byteOrderMark = markBytes := by decide

theorem marked_encodeUtf8_iff {text : List Char} :
    Marked (encodeUtf8 text) ↔ text.head? = some byteOrderMark := by
  rw [Marked, and_iff_right (validUtf8_encodeUtf8 text)]
  have hone : encodeUtf8 [byteOrderMark] = markBytes := by decide
  constructor
  · rintro ⟨rest, hrest⟩
    rw [← hone] at hrest
    obtain ⟨back, rfl, -⟩ := encodeUtf8_prefix hrest
    rfl
  · intro hhead
    obtain ⟨rest, rfl⟩ := List.head?_eq_some_iff.mp hhead
    exact ⟨encodeUtf8 rest, by rw [encodeUtf8_cons, utf8EncodeChar_byteOrderMark]⟩

/-- What is decoded is as long as its bytes exactly when there is no mark, and then it is the
same text. -/
theorem textDecode_eq_some {bytes : Bytes} {contents : List Char}
    (h : textDecode bytes = some contents) :
    (¬Marked bytes → encodeUtf8 contents = bytes) ∧
      ((encodeUtf8 contents).length = bytes.length ↔ ¬Marked bytes) := by
  obtain ⟨text, htext, rfl⟩ := Option.map_eq_some_iff.mp h
  have hvalid : validUtf8 bytes = true := by rw [validUtf8, htext]; rfl
  obtain ⟨other, rfl⟩ := exists_of_validUtf8 hvalid
  obtain rfl : other = text := Option.some.inj ((decodeUtf8_encodeUtf8 other).symm.trans htext)
  rw [marked_encodeUtf8_iff]
  split
  · rename_i hhead
    refine ⟨fun hmark => absurd hhead hmark, iff_of_false ?_ (not_not.mpr hhead)⟩
    obtain ⟨rest, rfl⟩ := List.head?_eq_some_iff.mp hhead
    rw [encodeUtf8_cons, List.length_append, utf8EncodeChar_byteOrderMark, List.tail_cons]
    simp [markBytes]
  · rename_i hhead
    exact ⟨fun _ => rfl, iff_of_true rfl hhead⟩

def skillToolLoadResourceMax : Nat := 32

def skillToolLoadMaxBytes : Nat := 512 * 1024

structure LoadedText where
  path : JsText
  contents : List Char
  bytes : Nat
  sha256 : JsText
  deriving DecidableEq

structure LoadResult (Report : Type) where
  skill : CatalogEntry Report
  instructions : JsText
  resources : List LoadedText
  totalBytes : Nat

def loadTexts (maxBytes : Nat) : Nat → List Resource → Except SkillError (List LoadedText × Nat)
  | total, [] => .ok ([], total)
  | total, resource :: rest =>
    match textDecode resource.bytes with
    | none => .error resourceUnsupported
    | some contents => do
      requireThat (total + resource.bytes.length ≤ maxBytes) loadLimit
      let (later, total) ← loadTexts maxBytes (total + resource.bytes.length) rest
      .ok (⟨resource.path, contents, resource.bytes.length, resource.sha256⟩ :: later, total)

section Loading

variable {WorkspaceId Details Report : Type} [DecidableEq WorkspaceId]
  (p : Platform) (reader : Reader Details Report) (manager : SourceManager WorkspaceId)
  (pins : Option PinStores.State) (instructionsOf : Details → JsText)

/-- `load` of the tool adapter; `instructionsOf` is the text after the front matter. -/
def load (request : Request WorkspaceId) (resources : Option (List JsText))
    (maxBytes : Option Int) : Except SkillError (LoadResult Report) := do
  let requested := resources.getD []
  requireThat (requested.length ≤ skillToolLoadResourceMax) loadLimit
  requireThat requested.Nodup resourceUnsupported
  let bounded := maxBytes.getD skillToolLoadMaxBytes
  requireThat (0 < bounded ∧ bounded ≤ skillToolLoadMaxBytes) loadLimit
  let raw ← loadRaw p reader manager pins request (some requested)
  requireThat (raw.skill.skillId = request.skillId) bundleInvalid
  requireThat (∀ fingerprint ∈ request.fingerprint, raw.skill.fingerprint = fingerprint)
    fingerprintMismatch
  requireThat (raw.resources.length = requested.length ∧ (raw.resources.map Resource.path).Nodup ∧
    ∀ path ∈ requested, path ∈ raw.resources.map Resource.path) bundleInvalid
  match parseSkillDocument reader raw.skillDocument raw.skill.name with
  | .error _ => .error bundleInvalid
  | .ok parsed => do
    requireThat (parsed.description = raw.skill.description) bundleInvalid
    let instructions := instructionsOf parsed.details
    requireThat ((pathBytes instructions).length ≤ bounded.toNat) loadLimit
    let (texts, totalBytes) ←
      loadTexts bounded.toNat (pathBytes instructions).length raw.resources
    .ok { skill := raw.skill, instructions, resources := texts, totalBytes }

/-- The resources that a load asks for, as the catalog gives them. -/
def Requested (request : Request WorkspaceId) (resources : Option (List JsText))
    (found : List Resource) : Prop :=
  ∃ raw, loadRaw p reader manager pins request (some (resources.getD [])) = .ok raw ∧
    raw.resources = found

/-- Each text has the size and the digest that are reported for it, and the sizes add up. -/
structure TextsExact (maxBytes : Option Int) (result : LoadResult Report) : Prop where
  texts : ∀ text ∈ result.resources, (encodeUtf8 text.contents).length = text.bytes ∧
    p.sha256 (encodeUtf8 text.contents) = text.sha256
  total : result.totalBytes =
    (pathBytes result.instructions).length + (result.resources.map LoadedText.bytes).sum
  within : (result.totalBytes : Int) ≤ maxBytes.getD skillToolLoadMaxBytes

variable {p reader manager pins instructionsOf} {request : Request WorkspaceId}
  {resources : Option (List JsText)} {maxBytes : Option Int}

theorem mem_of_pickResources {available picked : List Resource} {paths : List JsText}
    (h : pickResources available paths = .ok picked) :
    ∀ resource ∈ picked, resource ∈ available := by
  induction paths generalizing picked with
  | nil =>
    obtain rfl := Except.ok.inj h
    exact nofun
  | cons path rest ih =>
    rw [pickResources] at h
    split at h
    · cases h
    · rename_i resource hfind
      obtain ⟨later, hlater, h⟩ := bind_eq_ok_iff.mp h
      obtain rfl := Except.ok.inj h
      exact List.forall_mem_cons.mpr ⟨List.mem_of_find?_eq_some hfind, ih hlater⟩

theorem missing_ne_ok {α : Type} {discovery : Discovery Details Report}
    {liveSkill : Option (DiscoveredSkill Details Report)} {value : α} :
    missing p reader manager request discovery liveSkill ≠ .ok value := by
  unfold missing
  split
  · nofun
  · intro h
    obtain ⟨scope, -, h⟩ := bind_eq_ok_iff.mp h
    split at h
    · cases h
    · split at h <;> cases h

omit [DecidableEq WorkspaceId] in
theorem assembled_of_liveBundle {liveSkill : Option (DiscoveredSkill Details Report)}
    {bundle : Bundle Details Report} {pinned : Bool}
    (h : liveBundle p manager pins request liveSkill = .ok (some (bundle, pinned))) :
    Assembled p bundle := by
  unfold liveBundle at h
  split at h
  · cases h
  · split at h
    · split at h <;> cases h
    · rename_i built hbuilt
      split at h
      · split at h
        · obtain ⟨rfl, -⟩ := Prod.mk.inj (Option.some.inj (Except.ok.inj h))
          exact (assembled_of_buildBundle hbuilt).2
        · split at h <;> cases h
      · cases h

theorem loaded_of_loadPinned {skillId : JsText} {fingerprint : Option JsText} {raw : RawLoad}
    (h : loadPinned p pins skillId fingerprint = .ok (some raw)) : Loaded p raw := by
  unfold loadPinned at h
  split at h
  · cases h
  · split at h
    · split at h
      · rename_i pinned hpinned
        obtain rfl := Option.some.inj (Except.ok.inj h)
        exact (loaded_of_loadPin hpinned).1
      · split at h <;> cases h
    · obtain ⟨manifests, -, h⟩ := bind_eq_ok_iff.mp h
      split at h
      · cases h
      · obtain ⟨pinned, hpinned, h⟩ := bind_eq_ok_iff.mp h
        obtain rfl := Option.some.inj (Except.ok.inj h)
        exact (loaded_of_loadPin hpinned).1

theorem digests_of_loadRaw {requested : Option (List JsText)} {raw : CatalogRawLoad Report}
    (h : loadRaw p reader manager pins request requested = .ok raw) :
    ∀ resource ∈ raw.resources, resource.sha256 = p.sha256 resource.bytes := by
  unfold loadRaw lookup at h
  obtain ⟨discovery, -, h⟩ := bind_eq_ok_iff.mp h
  obtain ⟨live, hlive, h⟩ := bind_eq_ok_iff.mp h
  split at h
  · obtain ⟨paths, -, h⟩ := bind_eq_ok_iff.mp h
    obtain ⟨picked, hpicked, h⟩ := bind_eq_ok_iff.mp h
    obtain rfl := Except.ok.inj h
    intro resource hresource
    obtain ⟨file, hfile, rfl⟩ := List.mem_map.mp (mem_of_pickResources hpicked resource hresource)
    exact (assembled_of_liveBundle hlive).digests file hfile
  · obtain ⟨pinned, hpinned, h⟩ := bind_eq_ok_iff.mp h
    split at h
    · obtain ⟨paths, -, h⟩ := bind_eq_ok_iff.mp h
      obtain ⟨skill, -, h⟩ := bind_eq_ok_iff.mp h
      obtain ⟨picked, hpicked, h⟩ := bind_eq_ok_iff.mp h
      obtain rfl := Except.ok.inj h
      exact fun resource hresource => (loaded_of_loadPinned hpinned).digests resource
        (mem_of_pickResources hpicked resource hresource)
    · exact absurd h missing_ne_ok

theorem loadTexts_ok {bound total totalBytes : Nat} {found : List Resource}
    {texts : List LoadedText}
    (hdigests : ∀ resource ∈ found, resource.sha256 = p.sha256 resource.bytes)
    (htotal : total ≤ bound) (h : loadTexts bound total found = .ok (texts, totalBytes)) :
    totalBytes = total + (texts.map LoadedText.bytes).sum ∧ totalBytes ≤ bound ∧
      ((∀ text ∈ texts, (encodeUtf8 text.contents).length = text.bytes ∧
        p.sha256 (encodeUtf8 text.contents) = text.sha256) ↔
          ∀ resource ∈ found, ¬Marked resource.bytes) := by
  induction found generalizing total texts with
  | nil =>
    obtain ⟨rfl, rfl⟩ := Prod.mk.inj (Except.ok.inj h)
    exact ⟨rfl, htotal, iff_of_true nofun nofun⟩
  | cons resource rest ih =>
    rw [loadTexts] at h
    split at h
    · cases h
    · rename_i contents hcontents
      obtain ⟨⟨⟩, hbound, h⟩ := bind_eq_ok_iff.mp h
      obtain ⟨⟨later, last⟩, hlater, h⟩ := bind_eq_ok_iff.mp h
      obtain ⟨rfl, rfl⟩ := Prod.mk.inj (Except.ok.inj h)
      obtain ⟨hdigest, hrest⟩ := List.forall_mem_cons.mp hdigests
      obtain ⟨hsum, hwithin, hexact⟩ := ih hrest (requireThat_eq_ok.mp hbound) hlater
      obtain ⟨hsame, hlength⟩ := textDecode_eq_some hcontents
      refine ⟨?_, hwithin, ?_⟩
      · rw [hsum, List.map_cons, List.sum_cons, Nat.add_assoc]
      · rw [List.forall_mem_cons, List.forall_mem_cons, hexact]
        refine and_congr_left' ?_
        rw [hlength, hdigest]
        exact and_iff_left_of_imp fun hmark => by rw [hsame hmark]

/-- A load is exact if and only if no resource that it asks for begins with a byte order
mark. -/
theorem load_exact_iff {result : LoadResult Report} {found : List Resource}
    (h : load p reader manager pins instructionsOf request resources maxBytes = .ok result)
    (hfound : Requested p reader manager pins request resources found) :
    TextsExact p maxBytes result ↔ ∀ resource ∈ found, ¬Marked resource.bytes := by
  obtain ⟨raw, hraw, rfl⟩ := hfound
  unfold load at h
  obtain ⟨⟨⟩, -, h⟩ := bind_eq_ok_iff.mp h
  obtain ⟨⟨⟩, -, h⟩ := bind_eq_ok_iff.mp h
  obtain ⟨⟨⟩, hbounded, h⟩ := bind_eq_ok_iff.mp h
  obtain ⟨raw', hraw', h⟩ := bind_eq_ok_iff.mp h
  obtain rfl := Except.ok.inj (hraw.symm.trans hraw')
  obtain ⟨⟨⟩, -, h⟩ := bind_eq_ok_iff.mp h
  obtain ⟨⟨⟩, -, h⟩ := bind_eq_ok_iff.mp h
  obtain ⟨⟨⟩, -, h⟩ := bind_eq_ok_iff.mp h
  split at h
  · cases h
  · obtain ⟨⟨⟩, -, h⟩ := bind_eq_ok_iff.mp h
    obtain ⟨⟨⟩, hlimit, h⟩ := bind_eq_ok_iff.mp h
    obtain ⟨⟨texts, totalBytes⟩, htexts, h⟩ := bind_eq_ok_iff.mp h
    obtain rfl := Except.ok.inj h
    obtain ⟨hsum, hwithin, hexact⟩ :=
      loadTexts_ok (digests_of_loadRaw hraw) (requireThat_eq_ok.mp hlimit) htexts
    rw [← hexact]
    refine ⟨TextsExact.texts, fun hall => ⟨hall, hsum, ?_⟩⟩
    have hpos := (requireThat_eq_ok.mp hbounded).1
    show (totalBytes : Int) ≤ _
    omega

end Loading

/-- A page as `SkillSourceManager.read` gives it. -/
structure SourceText where
  contents : List Char
  bytesRead : Nat
  eof : Bool
  deriving DecidableEq

def readPersisted (file : Bytes) (offset maxBytes : Nat) : Option SourceText :=
  match readFile file offset maxBytes with
  | .error _ => none
  | .ok page =>
    if page.bytesRead ≠ (encodeUtf8 page.contents).length ∨ page.bytesRead > maxBytes ∨
        (page.eof = false ∧ page.bytesRead ≠ maxBytes) then none
    else some ⟨page.contents, page.bytesRead, page.eof⟩

def readWorkspace (file : Bytes) (offset maxBytes : Nat) : Option SourceText :=
  match readBytes file offset maxBytes with
  | .error _ => none
  | .ok read =>
    match textDecode read.bytes with
    | none => none
    | some contents =>
      if (encodeUtf8 contents).length ≠ read.bytesRead then none
      else some ⟨contents, read.bytesRead, read.eof⟩

/-- Both kinds of source give the same page if and only if it does not begin with a byte order
mark. -/
theorem readPersisted_eq_iff {file : Bytes} {offset maxBytes : Nat}
    (hmax : maxBytes ≤ inlineReadMaxBytes) :
    readPersisted file offset maxBytes = readWorkspace file offset maxBytes ↔
      ¬Marked ((file.drop offset).take maxBytes) := by
  rw [readPersisted, readWorkspace, readBytes_ok hmax]
  dsimp only
  cases hdecode : textDecode ((file.drop offset).take maxBytes) with
  | none =>
    have hinvalid : validUtf8 ((file.drop offset).take maxBytes) ≠ true := by
      rw [validUtf8, Option.map_eq_none_iff.mp hdecode]
      exact Bool.false_ne_true
    refine iff_of_true ?_ fun hmarked => hinvalid hmarked.1
    cases hread : readFile file offset maxBytes with
    | error error => rfl
    | ok page =>
      refine absurd ?_ hinvalid
      rw [← ((readFile_ok_iff hmax).mp hread).1]
      exact validUtf8_encodeUtf8 _
  | some contents =>
    obtain ⟨text, htext, -⟩ := Option.map_eq_some_iff.mp hdecode
    obtain ⟨hsame, hlength⟩ := textDecode_eq_some hdecode
    have hvalid : validUtf8 ((file.drop offset).take maxBytes) = true := by
      rw [validUtf8, htext]
      rfl
    obtain ⟨other, hother⟩ := exists_of_validUtf8 hvalid
    have hread : readFile file offset maxBytes =
        .ok ⟨other, ((file.drop offset).take maxBytes).length,
          decide ((file.drop offset).length ≤ maxBytes)⟩ :=
      (readFile_ok_iff hmax).mpr ⟨hother.symm, rfl, rfl⟩
    have hchecks : ¬(((file.drop offset).take maxBytes).length ≠ (encodeUtf8 other).length ∨
        ((file.drop offset).take maxBytes).length > maxBytes ∨
        (decide ((file.drop offset).length ≤ maxBytes) = false ∧
          ((file.drop offset).take maxBytes).length ≠ maxBytes)) := by
      rw [← hother, decide_eq_false_iff_not, List.length_take]
      omega
    rw [hread]
    dsimp only
    rw [if_neg hchecks]
    by_cases hmark : Marked ((file.drop offset).take maxBytes)
    · rw [if_pos fun h => hlength.mp h hmark]
      exact iff_of_false (by simp) (not_not.mpr hmark)
    · have hcontents : contents = other :=
        encodeUtf8_injective ((hsame hmark).trans hother)
      rw [if_neg (not_not.mpr (hlength.mpr hmark)), hcontents]
      exact iff_of_true rfl hmark

/-- Loaded texts are exact, and both kinds of source are read alike, exactly where no file
begins with a byte order mark. -/
theorem texts_exact_iff {WorkspaceId Details Report : Type} [DecidableEq WorkspaceId]
    (p : Platform) (reader : Reader Details Report) (manager : SourceManager WorkspaceId)
    (pins : Option PinStores.State) (instructionsOf : Details → JsText) :
    (∀ request resources maxBytes result found,
      load p reader manager pins instructionsOf request resources maxBytes = .ok result →
      Requested p reader manager pins request resources found →
        (TextsExact p maxBytes result ↔ ∀ resource ∈ found, ¬Marked resource.bytes)) ∧
    ∀ file offset maxBytes, maxBytes ≤ inlineReadMaxBytes →
      (readPersisted file offset maxBytes = readWorkspace file offset maxBytes ↔
        ¬Marked ((file.drop offset).take maxBytes)) :=
  ⟨fun _ _ _ _ _ h hfound => load_exact_iff h hfound, fun _ _ _ hmax => readPersisted_eq_iff hmax⟩

def markedView : View where
  listSources := linkedView.listSources
  tree := fun _ path =>
    if path = dotName then
      .ok ⟨[⟨asciiUnits "a", .directory, 0⟩, ⟨asciiUnits "a/SKILL.md", .file, 31⟩,
        ⟨asciiUnits "a/r", .file, 3⟩], false, by decide⟩
    else .ok ⟨[⟨asciiUnits "a/SKILL.md", .file, 31⟩, ⟨asciiUnits "a/r", .file, 3⟩], false,
      by decide⟩
  readBytes := fun _ path _ =>
    if path = asciiUnits "a/r" then .ok ⟨markBytes, 3, true⟩ else .ok ⟨sampleDocument, 31, true⟩

def loadMarked : Except SkillError (LoadResult Unit) :=
  load samplePlatform sampleReader (sampleManager markedView) none (fun _ => [])
    ⟨sampleInput.skillId, none, none⟩ (some [asciiUnits "r"]) none

theorem loadMarked_ok : ∃ result found, loadMarked = .ok result ∧
    Requested samplePlatform sampleReader (sampleManager markedView) none
      ⟨sampleInput.skillId, none, none⟩ (some [asciiUnits "r"]) found ∧
    result.resources.any (fun text => text.contents = [] && text.bytes = 3) = true := by
  have hrun : (loadMarked >>= fun result =>
      loadRaw samplePlatform sampleReader (sampleManager markedView) none
        ⟨sampleInput.skillId, none, none⟩ (some [asciiUnits "r"]) >>= fun _ =>
          .ok (result.resources.any fun text => text.contents = [] && text.bytes = 3)) =
        .ok true := by decide +kernel
  obtain ⟨result, hresult, hrest⟩ := bind_eq_ok hrun
  obtain ⟨raw, hraw, hmarked⟩ := bind_eq_ok hrest
  exact ⟨result, raw.resources, hresult, ⟨raw, hraw, rfl⟩, Except.ok.inj hmarked⟩

theorem loadMarked_texts : ∃ result, ∃ found : List Resource, loadMarked = .ok result ∧
    (TextsExact samplePlatform none result ↔ ∀ resource ∈ found, ¬Marked resource.bytes) ∧
    (readPersisted markBytes 0 4 = readWorkspace markBytes 0 4 ↔
      ¬Marked ((markBytes.drop 0).take 4)) := by
  obtain ⟨result, found, hresult, hfound, -⟩ := loadMarked_ok
  obtain ⟨hload, hread⟩ := texts_exact_iff samplePlatform sampleReader (sampleManager markedView)
    none fun _ => []
  exact ⟨result, found, hresult, hload _ _ _ result found hresult hfound,
    hread markBytes 0 4 (by decide)⟩

/-- The text of the resource is empty, and its size is 3. -/
theorem loadMarked_not_exact :
    ¬∀ (Details Report : Type) (p : Platform) (reader : Reader Details Report)
      (manager : SourceManager Nat) (pins : Option PinStores.State)
      (instructionsOf : Details → JsText),
      (∀ request resources maxBytes result,
        load p reader manager pins instructionsOf request resources maxBytes = .ok result →
          TextsExact p maxBytes result) ∧
      ∀ file offset maxBytes, maxBytes ≤ inlineReadMaxBytes →
        readPersisted file offset maxBytes = readWorkspace file offset maxBytes := by
  intro h
  obtain ⟨result, found, hresult, -, hany⟩ := loadMarked_ok
  obtain ⟨text, htext, hempty⟩ := List.any_eq_true.mp hany
  obtain ⟨hcontents, hbytes⟩ := Bool.and_eq_true_iff.mp hempty
  have hexact := (h Unit Unit samplePlatform sampleReader (sampleManager markedView) none
    fun _ => []).1 _ _ _ result hresult
  have hlength := (hexact.texts text htext).1
  rw [of_decide_eq_true hcontents, of_decide_eq_true hbytes] at hlength
  cases hlength

end KodeGpt.LoadedTexts
