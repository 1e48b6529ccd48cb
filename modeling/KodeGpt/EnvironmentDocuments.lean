import KodeGpt.DeveloperEnvironments
import KodeGpt.TransitionSystem

/-!
What the store of developer environments writes, it reads back: as long as executable
directories are given in a form that one pass normalizes, and no bootstrap candidate has
the root of another entry of the bootstrap.
-/

namespace KodeGpt.EnvironmentDocuments

open JsonDocuments JsFrames JsObjects NodePaths DeveloperEnvironments TransitionSystem
open JsonText (Bytes utf8)

/-- The document that was written last reads back as what was written. -/
def Readable (registry : Registry) : Prop :=
  ∀ entries, registry = some entries → parseDocument (documentValue entries) = .ok entries

/-- The normal form of the directory is relative, and stays as it is. -/
def Settled (value : JsText) : Prop :=
  isAbsolute (normalizeDir value) = false ∧ normalizeDir (normalizeDir value) = normalizeDir value

/-- The only bootstrap entry with the candidate's root is the one that it replaces. -/
def Unclashed (m : Machine) (trustedWorkspaceRoots : List JsText) (entries : List Entry)
    (label : JsText) (root : Option JsText) : Prop :=
  ∀ candidate inspected index entry, root = some candidate →
    inspectCandidate m candidate binDirs trustedWorkspaceRoots = .ok inspected →
      entries[index]? = some entry → entry.canonicalRoot = inspected.canonicalRoot →
        entry.source = .bootstrap → existingIndex entries label = some index

def Sound (registry : Registry) (event : Event) : Prop :=
  match event.call with
  | .add _ executableDirs _ _ _ => ∀ value ∈ executableDirs, Settled value
  | .ensureBootstrap nodeRoot rustRoot trustedWorkspaceRoots =>
    ∀ entries, readDocument registry = .ok entries →
      Unclashed event.machine trustedWorkspaceRoots entries nodeLabel nodeRoot ∧
        ∀ withNode, bootstrapOptional event.machine trustedWorkspaceRoots entries nodeLabel
            nodeRoot = .ok withNode →
          Unclashed event.machine trustedWorkspaceRoots withNode rustLabel rustRoot
  | _ => True

theorem refuseIf_ok_iff {condition : Prop} [Decidable condition] {error : StoreError} :
    DeveloperEnvironments.refuseIf condition error = .ok () ↔ ¬condition := by
  unfold DeveloperEnvironments.refuseIf
  split
  · rename_i hcondition
    exact iff_of_false nofun (not_not.mpr hcondition)
  · rename_i hcondition
    exact iff_of_true rfl hcondition

theorem bind_eq_ok {α β : Type} {action : Except StoreError α} {next : α → Except StoreError β}
    {value : β} (h : action >>= next = .ok value) :
    ∃ middle, action = .ok middle ∧ next middle = .ok value := by
  cases action with
  | error error => cases h
  | ok middle => exact ⟨middle, rfl, h⟩

theorem refuseIf_bind {condition : Prop} [Decidable condition] {error : StoreError} {β : Type}
    {next : Except StoreError β} {value : β}
    (h : (DeveloperEnvironments.refuseIf condition error >>= fun _ => next) = .ok value) :
    ¬condition ∧ next = .ok value := by
  obtain ⟨checked, hchecked, hnext⟩ := bind_eq_ok h
  exact ⟨refuseIf_ok_iff.mp hchecked, hnext⟩

theorem dropDotSlash_cases (value : JsText) :
    dropDotSlash value = value ∨ value = 46 :: 47 :: dropDotSlash value := by
  unfold dropDotSlash
  split
  · exact Or.inr rfl
  · exact Or.inl rfl

theorem dropSlash_cases (value : JsText) :
    dropSlash value = value ∨ value = dropSlash value ++ [slash] := by
  unfold dropSlash
  split
  · rename_i hlast
    exact Or.inr (List.dropLast_append_getLast? slash hlast).symm
  · exact Or.inl rfl

theorem normalizeDir_keeps (value : JsText) :
    (normalizeDir value).length ≤ value.length ∧ (∀ unit ∈ normalizeDir value, unit ∈ value) ∧
      ∀ name ∈ (normalizeDir value).splitOnP isSeparator, name ∈ value.splitOnP isSeparator := by
  have hfirst : (dropDotSlash value).length ≤ value.length ∧
      (∀ unit ∈ dropDotSlash value, unit ∈ value) ∧
      ∀ name ∈ (dropDotSlash value).splitOnP isSeparator, name ∈ value.splitOnP isSeparator := by
    obtain hsame | hcut := dropDotSlash_cases value
    · rw [hsame]
      exact ⟨Nat.le_refl _, fun _ => id, fun _ => id⟩
    · generalize dropDotSlash value = rest at hcut
      subst hcut
      refine ⟨Nat.le_add_right _ 2, ?_, ?_⟩
      · intro unit hunit
        exact List.mem_cons_of_mem _ (List.mem_cons_of_mem _ hunit)
      · intro name hname
        have hseparator : isSeparator 47 = true := rfl
        have hsplit := List.splitOnP_append_cons [46] rest hseparator
        rw [List.singleton_append] at hsplit
        rw [hsplit]
        exact List.mem_append_right _ hname
  have hlast (text : JsText) : (dropSlash text).length ≤ text.length ∧
      (∀ unit ∈ dropSlash text, unit ∈ text) ∧
      ∀ name ∈ (dropSlash text).splitOnP isSeparator, name ∈ text.splitOnP isSeparator := by
    obtain hsame | hcut := dropSlash_cases text
    · rw [hsame]
      exact ⟨Nat.le_refl _, fun _ => id, fun _ => id⟩
    · generalize dropSlash text = front at hcut
      subst hcut
      refine ⟨?_, ?_, ?_⟩
      · rw [List.length_append]
        exact Nat.le_add_right _ _
      · intro unit hunit
        exact List.mem_append_left _ hunit
      · intro name hname
        have hseparator : isSeparator slash = true := rfl
        rw [List.splitOnP_append_cons front [] hseparator]
        exact List.mem_append_left _ hname
  unfold normalizeDir
  split
  · rename_i hdot
    rw [hdot]
    exact ⟨Nat.le_refl _, fun _ => id, fun _ => id⟩
  · obtain ⟨hlength, hunits, hnames⟩ := hlast (dropDotSlash value)
    refine ⟨Nat.le_trans hlength hfirst.1, ?_, ?_⟩
    · intro unit hunit
      exact hfirst.2.1 unit (hunits unit hunit)
    · intro name hname
      exact hfirst.2.2 name (hnames name hname)

theorem dirRefused_normalizeDir {value : JsText} (hvalue : dirRefused value = false)
    (hlength : (normalizeDir value).length ≠ 0) (hrelative : isAbsolute (normalizeDir value) = false) :
    dirRefused (normalizeDir value) = false := by
  obtain ⟨hshorter, hunits, hnames⟩ := normalizeDir_keeps value
  unfold dirRefused at hvalue ⊢
  simp only [Bool.or_eq_false_iff, decide_eq_false_iff_not, Nat.not_lt] at hvalue ⊢
  obtain ⟨⟨⟨⟨⟨-, hlong⟩, hnull⟩, hcolon⟩, -⟩, hup⟩ := hvalue
  refine ⟨⟨⟨⟨⟨hlength, Nat.le_trans hshorter hlong⟩, ?_⟩, ?_⟩, hrelative⟩, ?_⟩
  · rw [List.contains_eq_mem, decide_eq_false_iff_not] at hnull ⊢
    exact fun hmem => hnull (hunits 0 hmem)
  · rw [List.contains_eq_mem, decide_eq_false_iff_not] at hcolon ⊢
    exact fun hmem => hcolon (hunits colon hmem)
  · rw [List.contains_eq_mem, decide_eq_false_iff_not] at hup ⊢
    exact fun hmem => hup (hnames dotDotName hmem)

theorem normalizeDirs_spec {normalized values result : List JsText}
    (hresult : normalizeDirs normalized values = .ok result) (hnodup : normalized.Nodup) :
    result = normalized ++ values.map normalizeDir ∧ result.Nodup ∧
      ∀ value ∈ values, dirRefused value = false ∧ (normalizeDir value).length ≠ 0 := by
  induction values generalizing normalized with
  | nil =>
    obtain rfl := Except.ok.inj hresult
    exact ⟨(List.append_nil _).symm, hnodup, fun _ h => absurd h List.not_mem_nil⟩
  | cons value rest ih =>
    obtain ⟨hrefused, hresult⟩ := refuseIf_bind hresult
    obtain ⟨hcandidate, hresult⟩ := refuseIf_bind hresult
    obtain ⟨hlength, hfresh⟩ := not_or.mp hcandidate
    have hnext : (normalized ++ [normalizeDir value]).Nodup := by
      rw [List.nodup_append]
      refine ⟨hnodup, List.nodup_singleton _, ?_⟩
      rintro name hname other hother rfl
      exact hfresh (List.mem_singleton.mp hother ▸ hname)
    obtain ⟨hsame, hunique, hrest⟩ := ih hresult hnext
    refine ⟨?_, hunique, ?_⟩
    · rw [hsame, List.append_assoc, List.map_cons, List.singleton_append]
    · intro later hlater
      obtain rfl | hlater := List.mem_cons.mp hlater
      · exact ⟨by simpa using hrefused, hlength⟩
      · exact hrest later hlater

theorem normalizeDirs_fixed {normalized values : List JsText}
    (hvalues : ∀ value ∈ values, dirRefused value = false ∧ value.length ≠ 0 ∧
      normalizeDir value = value) (hnodup : (normalized ++ values).Nodup) :
    normalizeDirs normalized values = .ok (normalized ++ values) := by
  induction values generalizing normalized with
  | nil => rw [normalizeDirs, List.append_nil]
  | cons value rest ih =>
    obtain ⟨hrefused, hlength, hfixed⟩ := hvalues value List.mem_cons_self
    have hsplit : normalized ++ value :: rest = normalized ++ [value] ++ rest := by
      rw [List.append_assoc, List.singleton_append]
    have hfresh : value ∉ normalized := by
      intro hmem
      exact (List.nodup_append.mp hnodup).2.2 value hmem value List.mem_cons_self rfl
    rw [normalizeDirs, hfixed, refuseIf_ok_iff.mpr (by rw [hrefused]; exact Bool.false_ne_true),
      refuseIf_ok_iff.mpr (not_or.mpr ⟨hlength, hfresh⟩), hsplit]
    rw [hsplit] at hnodup
    exact ih (fun later hlater => hvalues later (List.mem_cons_of_mem _ hlater)) hnodup

theorem validateExecutableDirs_again {values dirs : List JsText}
    (hdirs : validateExecutableDirs values = .ok dirs) (hsettled : ∀ value ∈ values, Settled value) :
    validateExecutableDirs dirs = .ok dirs := by
  obtain ⟨hcount, hnormalized⟩ := refuseIf_bind hdirs
  obtain ⟨hsame, hunique, hvalues⟩ := normalizeDirs_spec hnormalized List.nodup_nil
  rw [List.nil_append] at hsame
  have hlength : dirs.length = values.length := by rw [hsame, List.length_map]
  unfold validateExecutableDirs
  rw [refuseIf_ok_iff.mpr (by rw [hlength]; exact hcount)]
  refine normalizeDirs_fixed ?_ hunique
  intro dir hdir
  rw [hsame] at hdir
  obtain ⟨value, hvalue, rfl⟩ := List.mem_map.mp hdir
  obtain ⟨hrefused, hnonempty⟩ := hvalues value hvalue
  obtain ⟨hrelative, hfixed⟩ := hsettled value hvalue
  exact ⟨dirRefused_normalizeDir hrefused hnonempty hrelative, hnonempty, hfixed⟩

structure ValidEntry (entry : Entry) : Prop where
  id : isId entry.id = true
  label : validateLabel entry.label = .ok ()
  root : isAbsolute entry.canonicalRoot = true ∧ 0 ∉ entry.canonicalRoot
  dirs : validateExecutableDirs entry.executableDirs = .ok entry.executableDirs
  devices : entry.identity.deviceMajor ≤ maxSafeInteger ∧
    entry.identity.deviceMinor ≤ maxSafeInteger
  inode : isDigits entry.identity.inode = true

structure Valid (entries : List Entry) : Prop where
  entry : ∀ entry ∈ entries, ValidEntry entry
  ids : (entries.map Entry.id).Nodup
  roots : (entries.map Entry.canonicalRoot).Nodup
  count : entries.length ≤ maxDeveloperEnvironments

theorem safeNatural_naturalNumber {value : Nat} (hvalue : value ≤ maxSafeInteger) :
    safeNatural (naturalNumber value) = some value := by
  have hdigits : (Nat.toDigits 10 value).all Char.isDigit = true := by
    rw [List.all_eq_true]
    exact fun digit => Nat.isDigit_of_mem_toDigits (by decide) (by decide)
  rw [naturalNumber, safeNatural]
  simp only [digitsValue, hdigits, Nat.ofDigitChars_ten_toDigits, hvalue, decide_true,
    Bool.and_self, if_true]

theorem validateSource_sourceText (source : Source) :
    validateSource (sourceText source) = .ok source := by
  have htexts : asciiUnits "operator" ≠ asciiUnits "bootstrap" ∧
      asciiUnits "synced-shell" ≠ asciiUnits "bootstrap" ∧
      asciiUnits "synced-shell" ≠ asciiUnits "operator" := by decide
  cases source with
  | bootstrap => simp [validateSource, sourceText]
  | operator => simp [validateSource, sourceText, htexts]
  | syncedShell => simp [validateSource, sourceText, htexts]

theorem stringsOf_map (failure : StoreError) (texts : List JsText) :
    stringsOf failure (texts.map .string) = .ok texts := by
  induction texts with
  | nil => rfl
  | cons text rest ih =>
    rw [List.map_cons, stringsOf, ih]
    rfl

theorem parseIdentity_identityValue {entry : Entry} (h : ValidEntry entry) :
    parseIdentity (identityValue entry.identity) = .ok entry.identity := by
  obtain ⟨id, label, source, canonicalRoot, executableDirs, major, minor, inode⟩ := entry
  obtain ⟨-, -, -, -, hdevices, hinode⟩ := h
  have hkeys : ([asciiUnits "deviceMajor", asciiUnits "deviceMinor", asciiUnits "inode"]).Nodup := by
    decide
  have hexact : DeveloperEnvironments.exactKeys (identityValue ⟨major, minor, inode⟩)
      [asciiUnits "deviceMajor", asciiUnits "deviceMinor", asciiUnits "inode"] = true :=
    List.isPerm_iff.mpr (List.Perm.refl _)
  have hmajor : member (identityValue ⟨major, minor, inode⟩) (asciiUnits "deviceMajor") =
      naturalNumber major := member_objectOf_some hkeys (by simp)
  have hminor : member (identityValue ⟨major, minor, inode⟩) (asciiUnits "deviceMinor") =
      naturalNumber minor := member_objectOf_some hkeys (by simp)
  have hnumber : member (identityValue ⟨major, minor, inode⟩) (asciiUnits "inode") =
      .string inode := member_objectOf_some hkeys (by simp)
  simp only [parseIdentity, hexact, hmajor, hminor, hnumber, safeNatural_naturalNumber hdevices.1,
    safeNatural_naturalNumber hdevices.2, if_true]
  exact if_pos hinode

theorem parseEntry_entryValue {entry : Entry} (h : ValidEntry entry) :
    parseEntry (entryValue entry) = .ok entry := by
  have hkeys : (["id", "label", "source", "canonicalRoot", "executableDirs", "identity"].map
      asciiUnits).Nodup := by decide
  have hexact : DeveloperEnvironments.exactKeys (entryValue entry) (["id", "label", "source",
      "canonicalRoot", "executableDirs", "identity"].map asciiUnits) = true :=
    List.isPerm_iff.mpr (List.Perm.refl _)
  have hid : member (entryValue entry) (asciiUnits "id") = .string entry.id :=
    member_objectOf_some hkeys (by simp)
  have hlabel : member (entryValue entry) (asciiUnits "label") = .string entry.label :=
    member_objectOf_some hkeys (by simp)
  have hsource : member (entryValue entry) (asciiUnits "source") =
      .string (sourceText entry.source) := member_objectOf_some hkeys (by simp)
  have hroot : member (entryValue entry) (asciiUnits "canonicalRoot") =
      .string entry.canonicalRoot := member_objectOf_some hkeys (by simp)
  have hdirs : member (entryValue entry) (asciiUnits "executableDirs") =
      .array (entry.executableDirs.map .string) := member_objectOf_some hkeys (by simp)
  have hidentity : member (entryValue entry) (asciiUnits "identity") =
      identityValue entry.identity := member_objectOf_some hkeys (by simp)
  have habsolute : ¬(isAbsolute entry.canonicalRoot = false ∨ 0 ∈ entry.canonicalRoot) := by
    rintro (hrelative | hnull)
    · exact Bool.false_ne_true (hrelative.symm.trans h.root.1)
    · exact h.root.2 hnull
  unfold parseEntry
  rw [refuseIf_ok_iff.mpr (by rw [hexact]; exact Bool.noConfusion), hid, hlabel, hsource, hroot,
    hdirs, hidentity, parseIdentity_identityValue h]
  dsimp only [stringOf, itemsOf, bind, Except.bind]
  rw [refuseIf_ok_iff.mpr (by rw [h.id]; exact Bool.noConfusion), h.label,
    validateSource_sourceText, refuseIf_ok_iff.mpr habsolute, stringsOf_map]
  dsimp only
  rw [h.dirs]

theorem parseEntries_map {entries : List Entry} (h : ∀ entry ∈ entries, ValidEntry entry) :
    parseEntries (entries.map entryValue) = .ok entries := by
  induction entries with
  | nil => rfl
  | cons entry rest ih =>
    have hrest := ih fun later hlater => h later (List.mem_cons_of_mem _ hlater)
    rw [List.map_cons, parseEntries, parseEntry_entryValue (h entry List.mem_cons_self), hrest]
    rfl

theorem checkUnique_of_nodup {ids roots : List JsText} {entries : List Entry}
    (hids : (entries.map Entry.id).Nodup) (hroots : (entries.map Entry.canonicalRoot).Nodup)
    (hfresh : ∀ entry ∈ entries, entry.id ∉ ids ∧ entry.canonicalRoot ∉ roots) :
    checkUnique ids roots entries = .ok () := by
  induction entries generalizing ids roots with
  | nil => rfl
  | cons entry rest ih =>
    obtain ⟨hid, hids⟩ := List.nodup_cons.mp hids
    obtain ⟨hroot, hroots⟩ := List.nodup_cons.mp hroots
    obtain ⟨hnewId, hnewRoot⟩ := hfresh entry List.mem_cons_self
    rw [checkUnique, refuseIf_ok_iff.mpr (not_or.mpr ⟨hnewId, hnewRoot⟩)]
    refine ih hids hroots ?_
    intro later hlater
    obtain ⟨hlaterId, hlaterRoot⟩ := hfresh later (List.mem_cons_of_mem _ hlater)
    refine ⟨?_, ?_⟩
    · intro hmem
      obtain heq | hmem := List.mem_cons.mp hmem
      · exact hid (heq ▸ List.mem_map_of_mem hlater)
      · exact hlaterId hmem
    · intro hmem
      obtain heq | hmem := List.mem_cons.mp hmem
      · exact hroot (heq ▸ List.mem_map_of_mem hlater)
      · exact hlaterRoot hmem

theorem parseDocument_documentValue {entries : List Entry} (h : Valid entries) :
    parseDocument (documentValue entries) = .ok entries := by
  have hkeys : (["schemaVersion", "entries"].map asciiUnits).Nodup := by decide
  have hexact : DeveloperEnvironments.exactKeys (documentValue entries)
      (["schemaVersion", "entries"].map asciiUnits) = true :=
    List.isPerm_iff.mpr (List.Perm.refl _)
  have hversion : member (documentValue entries) (asciiUnits "schemaVersion") =
      naturalNumber 1 := member_objectOf_some hkeys (by simp)
  have hentries : member (documentValue entries) (asciiUnits "entries") =
      .array (entries.map entryValue) := member_objectOf_some hkeys (by simp)
  have hcount : ¬maxDeveloperEnvironments < (entries.map entryValue).length := by
    rw [List.length_map]
    exact Nat.not_lt.mpr h.count
  have hone : safeNatural (naturalNumber 1) = some 1 := safeNatural_naturalNumber (by decide)
  unfold parseDocument
  rw [refuseIf_ok_iff.mpr (by rw [hexact]; exact Bool.noConfusion), hversion, hentries,
    refuseIf_ok_iff.mpr (not_not.mpr hone)]
  dsimp only [itemsOf, bind, Except.bind]
  rw [refuseIf_ok_iff.mpr hcount, parseEntries_map h.entry]
  dsimp only
  rw [checkUnique_of_nodup h.ids h.roots fun _ _ => ⟨List.not_mem_nil, List.not_mem_nil⟩]

structure ValidInspected (inspected : Inspected) : Prop where
  root : isAbsolute inspected.canonicalRoot = true ∧ 0 ∉ inspected.canonicalRoot
  devices : inspected.identity.deviceMajor ≤ maxSafeInteger ∧
    inspected.identity.deviceMinor ≤ maxSafeInteger
  inode : isDigits inspected.identity.inode = true

theorem isDigits_digitUnits (value : Nat) : isDigits (digitUnits value) = true := by
  unfold isDigits digitUnits
  rw [Bool.and_eq_true, decide_eq_true_eq, List.all_map, List.all_eq_true]
  refine ⟨fun hnil => Nat.toDigits_ne_nil (List.map_eq_nil_iff.mp hnil), ?_⟩
  intro digit hdigit
  have hrange := Nat.isDigit_of_mem_toDigits (by decide) (by decide) hdigit
  rw [Char.isDigit, Bool.and_eq_true, decide_eq_true_eq, decide_eq_true_eq] at hrange
  obtain ⟨hlow, hhigh⟩ := hrange
  have hlower : 48 ≤ digit.toNat := hlow
  have hupper : digit.toNat ≤ 57 := hhigh
  have hunits : digit.toNat.toUInt16.toNat = digit.toNat :=
    UInt16.toNat_ofNat_of_lt' (Nat.lt_of_le_of_lt hupper (by decide))
  rw [Function.comp_apply, Bool.and_eq_true, decide_eq_true_eq, decide_eq_true_eq,
    UInt16.le_iff_toNat_le, UInt16.le_iff_toNat_le, hunits]
  exact ⟨hlower, hupper⟩

theorem liftHost_ok {α : Type} {message missing : String} {outcome : Except HostError α} {value : α}
    (h : liftHost message missing outcome = .ok value) : outcome = .ok value := by
  cases outcome with
  | error error => cases h
  | ok found =>
    obtain rfl := Except.ok.inj h
    rfl

theorem filesystemIdentity_valid {device inode : UInt64} {identity : Identity}
    (h : filesystemIdentity device inode = .ok identity) :
    (identity.deviceMajor ≤ maxSafeInteger ∧ identity.deviceMinor ≤ maxSafeInteger) ∧
      isDigits identity.inode = true := by
  obtain ⟨hdevices, h⟩ := refuseIf_bind h
  obtain rfl := Except.ok.inj h
  obtain ⟨hmajor, hminor⟩ := not_or.mp hdevices
  exact ⟨⟨Nat.le_of_not_lt hmajor, Nat.le_of_not_lt hminor⟩, isDigits_digitUnits _⟩

variable {m : Machine}

theorem inspectCandidate_spec {root : JsText} {dirs trustedWorkspaceRoots : List JsText}
    {inspected : Inspected}
    (h : inspectCandidate m root dirs trustedWorkspaceRoots = .ok inspected) :
    ∃ metadata, m.host.realpathText root = .ok inspected.canonicalRoot ∧
      m.host.statText inspected.canonicalRoot = .ok metadata ∧ metadata.directory = true ∧
      explicitRootModeIsSafe metadata = true ∧
      checkExecutableDirs m inspected.canonicalRoot dirs = .ok () ∧
      filesystemIdentity metadata.device metadata.inode = .ok inspected.identity := by
  obtain ⟨-, h⟩ := refuseIf_bind h
  obtain ⟨canonicalRoot, hroot, h⟩ := bind_eq_ok h
  obtain ⟨canonicalStateRoot, -, h⟩ := bind_eq_ok h
  obtain ⟨-, h⟩ := refuseIf_bind h
  obtain ⟨-, -, h⟩ := bind_eq_ok h
  obtain ⟨metadata, hstat, h⟩ := bind_eq_ok h
  obtain ⟨hsafe, h⟩ := refuseIf_bind h
  obtain ⟨⟨⟩, hdirs, h⟩ := bind_eq_ok h
  obtain ⟨identity, hidentity, h⟩ := bind_eq_ok h
  obtain rfl := Except.ok.inj h
  obtain ⟨hdirectory, hmode⟩ := not_or.mp hsafe
  exact ⟨metadata, liftHost_ok hroot, liftHost_ok hstat, by simpa using hdirectory,
    by simpa using hmode, hdirs, hidentity⟩

theorem inspectCandidate_valid {root : JsText} {dirs trustedWorkspaceRoots : List JsText}
    {inspected : Inspected}
    (h : inspectCandidate m root dirs trustedWorkspaceRoots = .ok inspected) :
    ValidInspected inspected := by
  obtain ⟨metadata, hroot, -, -, -, -, hidentity⟩ := inspectCandidate_spec h
  obtain ⟨hdevices, hinode⟩ := filesystemIdentity_valid hidentity
  exact ⟨m.host.realpathText_canonical hroot, hdevices, hinode⟩

theorem inspectOrSkip_some {root : JsText} {dirs trustedWorkspaceRoots : List JsText}
    {inspected : Inspected}
    (h : inspectOrSkip m root dirs trustedWorkspaceRoots = .ok (some inspected)) :
    inspectCandidate m root dirs trustedWorkspaceRoots = .ok inspected := by
  unfold inspectOrSkip at h
  split at h
  · rename_i found hfound
    obtain rfl := Option.some.inj (Except.ok.inj h)
    exact hfound
  · cases h
  · cases h

theorem ValidInspected.entry {inspected : Inspected} (h : ValidInspected inspected) {id label : JsText}
    {source : Source} {dirs : List JsText} (hid : isId id = true) (hlabel : validateLabel label = .ok ())
    (hdirs : validateExecutableDirs dirs = .ok dirs) :
    ValidEntry ⟨id, label, source, inspected.canonicalRoot, dirs, inspected.identity⟩ :=
  ⟨hid, hlabel, h.root, hdirs, h.devices, h.inode⟩

namespace Valid

variable {entries : List Entry} {entry : Entry}

theorem empty : Valid [] :=
  ⟨fun _ h => absurd h List.not_mem_nil, List.nodup_nil, List.nodup_nil, Nat.zero_le _⟩

theorem concat (h : Valid entries) (hentry : ValidEntry entry)
    (hid : entry.id ∉ entries.map Entry.id)
    (hroot : entry.canonicalRoot ∉ entries.map Entry.canonicalRoot)
    (hcount : ¬maxDeveloperEnvironments ≤ entries.length) : Valid (entries ++ [entry]) := by
  refine ⟨?_, ?_, ?_, ?_⟩
  · intro found hfound
    obtain hfound | hfound := List.mem_append.mp hfound
    · exact h.entry found hfound
    · obtain rfl := List.mem_singleton.mp hfound
      exact hentry
  · rw [List.map_append, List.nodup_append]
    refine ⟨h.ids, List.nodup_singleton _, ?_⟩
    rintro id hmem other hother rfl
    exact hid (List.mem_singleton.mp hother ▸ hmem)
  · rw [List.map_append, List.nodup_append]
    refine ⟨h.roots, List.nodup_singleton _, ?_⟩
    rintro root hmem other hother rfl
    exact hroot (List.mem_singleton.mp hother ▸ hmem)
  · rw [List.length_append]
    exact Nat.succ_le_of_lt (Nat.lt_of_not_le hcount)

theorem filter (h : Valid entries) (p : Entry → Bool) : Valid (entries.filter p) := by
  have hsub : (entries.filter p).Sublist entries := List.filter_sublist
  exact ⟨fun found hfound => h.entry found (hsub.subset hfound), (hsub.map _).nodup h.ids,
    (hsub.map _).nodup h.roots, Nat.le_trans hsub.length_le h.count⟩

theorem nodup_set {α : Type} {values : List α} {index : Nat} {value : α} (hnodup : values.Nodup)
    (hfresh : ∀ other, values[other]? = some value → other = index) :
    (values.set index value).Nodup := by
  rw [List.nodup_iff_getElem?_ne_getElem?]
  intro first second hless hlength
  rw [List.length_set] at hlength
  have hne : first ≠ second := Nat.ne_of_lt hless
  have hkept := List.nodup_iff_getElem?_ne_getElem?.mp hnodup first second hless hlength
  rw [List.getElem?_set, List.getElem?_set]
  by_cases hfirst : index = first
  · subst hfirst
    rw [if_pos rfl, if_neg hne, if_pos (Nat.lt_trans hless hlength)]
    intro heq
    exact hne (hfresh second heq.symm).symm
  · by_cases hsecond : index = second
    · subst hsecond
      rw [if_neg hfirst, if_pos rfl, if_pos hlength]
      intro heq
      exact hne (hfresh first heq)
    · rw [if_neg hfirst, if_neg hsecond]
      exact hkept

theorem set (h : Valid entries) (hentry : ValidEntry entry) {index : Nat} {old : Entry}
    (hold : entries[index]? = some old) (hid : entry.id = old.id)
    (hroot : ∀ other found, entries[other]? = some found →
      found.canonicalRoot = entry.canonicalRoot → other = index) :
    Valid (entries.set index entry) := by
  refine ⟨?_, ?_, ?_, ?_⟩
  · intro found hfound
    obtain hfound | rfl := List.mem_or_eq_of_mem_set hfound
    · exact h.entry found hfound
    · exact hentry
  · rw [List.map_set]
    refine nodup_set h.ids ?_
    intro other hother
    rw [hid] at hother
    have hsame : (entries.map Entry.id)[index]? = some old.id := by
      rw [List.getElem?_map, hold]
      rfl
    obtain ⟨hlength, hget⟩ := List.getElem?_eq_some_iff.mp hother
    obtain ⟨hlength', hget'⟩ := List.getElem?_eq_some_iff.mp hsame
    exact (List.Nodup.getElem_inj_iff h.ids).mp (hget.trans hget'.symm)
  · rw [List.map_set]
    refine nodup_set h.roots ?_
    intro other hother
    rw [List.getElem?_map] at hother
    obtain ⟨found, hfound, hsame⟩ := Option.map_eq_some_iff.mp hother
    exact hroot other found hfound hsame
  · rw [List.length_set]
    exact h.count

end Valid

theorem newEntryId_fresh {entries : List Entry} (h : Valid entries) :
    newEntryId m entries ∉ entries.map Entry.id := by
  refine m.newId_fresh _ ?_
  rw [List.length_map]
  exact h.count

theorem validateLabel_syncLabel {number : Nat} (hnumber : number ≤ maxDeveloperEnvironments) :
    validateLabel (syncLabel number) = .ok () := by
  have hall : ∀ value < 33, ¬(utf8Length (syncLabel value) < 1 ∨
      maxDeveloperEnvironmentLabelBytes < utf8Length (syncLabel value) ∨
        0 ∈ syncLabel value) := by decide
  exact refuseIf_ok_iff.mpr (hall number (Nat.lt_succ_of_le hnumber))

theorem validateLabel_nodeLabel : validateLabel nodeLabel = .ok () :=
  refuseIf_ok_iff.mpr (by decide)

theorem validateLabel_rustLabel : validateLabel rustLabel = .ok () :=
  refuseIf_ok_iff.mpr (by decide)

theorem validateExecutableDirs_singleton {name : JsText} (hname : dirRefused name = false ∧
    name.length ≠ 0 ∧ normalizeDir name = name) : validateExecutableDirs [name] = .ok [name] := by
  refine normalizeDirs_fixed ?_ (List.nodup_singleton name)
  intro value hvalue
  obtain rfl := List.mem_singleton.mp hvalue
  exact hname

theorem validateExecutableDirs_dot : validateExecutableDirs [dotName] = .ok [dotName] :=
  validateExecutableDirs_singleton (by decide)

theorem validateExecutableDirs_bin : validateExecutableDirs binDirs = .ok binDirs :=
  validateExecutableDirs_singleton (by decide)

theorem addEntry_valid {entries next : List Entry} (h : Valid entries) {root : JsText}
    {dirs : List JsText} {label source : JsText} {trustedWorkspaceRoots : List JsText}
    (hsettled : ∀ value ∈ dirs, Settled value)
    (hnext : addEntry m entries root dirs label source trustedWorkspaceRoots = .ok next) :
    Valid next := by
  obtain ⟨⟨⟩, hlabel, hnext⟩ := bind_eq_ok hnext
  obtain ⟨source, -, hnext⟩ := bind_eq_ok hnext
  obtain ⟨normalized, hdirs, hnext⟩ := bind_eq_ok hnext
  obtain ⟨hcount, hnext⟩ := refuseIf_bind hnext
  obtain ⟨inspected, hinspected, hnext⟩ := bind_eq_ok hnext
  obtain ⟨hroot, hnext⟩ := refuseIf_bind hnext
  obtain rfl := Except.ok.inj hnext
  refine h.concat ?_ (newEntryId_fresh h) hroot hcount
  exact (inspectCandidate_valid hinspected).entry (m.newId_isId _) hlabel
    (validateExecutableDirs_again hdirs hsettled)

theorem syncEntries_valid {candidates trustedWorkspaceRoots : List JsText}
    {entries next : List Entry} (h : Valid entries)
    (hnext : syncEntries m trustedWorkspaceRoots entries candidates = .ok next) : Valid next := by
  induction candidates generalizing entries with
  | nil =>
    obtain rfl := Except.ok.inj hnext
    exact h
  | cons rawCandidate rest ih =>
    rw [syncEntries] at hnext
    split at hnext
    · exact ih h hnext
    · obtain ⟨outcome, houtcome, hnext⟩ := bind_eq_ok hnext
      cases outcome with
      | none => exact ih h hnext
      | some inspected =>
        dsimp only at hnext
        split at hnext
        · exact ih h hnext
        · rename_i hroot
          obtain ⟨hcount, hnext⟩ := refuseIf_bind hnext
          refine ih ?_ hnext
          refine h.concat ?_ (newEntryId_fresh h) hroot hcount
          exact (inspectCandidate_valid (inspectOrSkip_some houtcome)).entry (m.newId_isId _)
            (validateLabel_syncLabel (Nat.lt_of_not_le hcount)) validateExecutableDirs_dot

theorem bootstrapCandidate_valid {trustedWorkspaceRoots : List JsText} {entries next : List Entry}
    (h : Valid entries) {label root : JsText} (hlabel : validateLabel label = .ok ())
    (hunclashed : Unclashed m trustedWorkspaceRoots entries label (some root))
    (hnext : bootstrapCandidate m trustedWorkspaceRoots entries label root = .ok next) :
    Valid next := by
  obtain ⟨outcome, houtcome, hnext⟩ := bind_eq_ok hnext
  cases outcome with
  | none =>
    obtain rfl := Except.ok.inj hnext
    exact h
  | some inspected =>
    have hinspected := inspectOrSkip_some houtcome
    dsimp only at hnext
    split at hnext
    · obtain rfl := Except.ok.inj hnext
      exact h
    · rename_i hforeign
      -- an entry with the root is the bootstrap's, and the one that is replaced
      have hsame (index : Nat) (entry : Entry) (hentry : entries[index]? = some entry)
          (hroot : entry.canonicalRoot = inspected.canonicalRoot) :
          existingIndex entries label = some index := by
        refine hunclashed root inspected index entry rfl hinspected hentry hroot ?_
        by_contra hsource
        apply hforeign
        have hfound : (entries.find? fun entry =>
            entry.canonicalRoot = inspected.canonicalRoot) = some entry := by
          cases hfind : entries.find? fun entry =>
              entry.canonicalRoot = inspected.canonicalRoot with
          | none =>
            have hnot := List.find?_eq_none.mp hfind entry (List.mem_of_getElem? hentry)
            exact absurd (decide_eq_true hroot) hnot
          | some other =>
            have hother : other.canonicalRoot = inspected.canonicalRoot := by
              simpa using List.find?_some hfind
            have hmem := List.mem_of_find?_eq_some hfind
            rw [List.inj_on_of_nodup_map h.roots hmem (List.mem_of_getElem? hentry)
              (hother.trans hroot.symm)]
        rw [hfound]
        exact decide_eq_true hsource
      have hid : isId (bootstrapEntry m entries label inspected).id = true := by
        show isId ((((existingIndex entries label).bind fun index => entries[index]?).map
          Entry.id).getD (newEntryId m entries)) = true
        cases hold : (existingIndex entries label).bind fun index => entries[index]? with
        | none => exact m.newId_isId _
        | some old =>
          obtain ⟨index, -, hget⟩ := Option.bind_eq_some_iff.mp hold
          exact (h.entry old (List.mem_of_getElem? hget)).id
      have hentry : ValidEntry (bootstrapEntry m entries label inspected) :=
        (inspectCandidate_valid hinspected).entry hid hlabel validateExecutableDirs_bin
      cases hexisting : existingIndex entries label with
      | some index =>
        rw [hexisting] at hnext
        obtain rfl := Except.ok.inj hnext
        obtain ⟨hlength, -⟩ := List.findIdx?_eq_some_iff_getElem.mp hexisting
        refine h.set hentry (List.getElem?_eq_getElem hlength) ?_ ?_
        · show (((existingIndex entries label).bind fun index => entries[index]?).map
            Entry.id).getD (newEntryId m entries) = _
          rw [hexisting]
          show ((entries[index]?).map Entry.id).getD (newEntryId m entries) = _
          rw [List.getElem?_eq_getElem hlength]
          rfl
        · intro other found hfound hroot
          exact Option.some.inj ((hsame other found hfound hroot).symm.trans hexisting)
      | none =>
        rw [hexisting] at hnext
        obtain ⟨hcount, hnext⟩ := refuseIf_bind hnext
        obtain rfl := Except.ok.inj hnext
        refine h.concat hentry ?_ ?_ hcount
        · show (((existingIndex entries label).bind fun index => entries[index]?).map
            Entry.id).getD (newEntryId m entries) ∉ _
          rw [hexisting]
          exact newEntryId_fresh h
        · intro hmem
          obtain ⟨entry, hentry, hroot⟩ := List.mem_map.mp hmem
          obtain ⟨index, hindex⟩ := List.mem_iff_getElem?.mp hentry
          rw [hsame index entry hindex hroot] at hexisting
          cases hexisting

theorem bootstrapOptional_valid {trustedWorkspaceRoots : List JsText} {entries next : List Entry}
    (h : Valid entries) {label : JsText} (hlabel : validateLabel label = .ok ())
    {root : Option JsText} (hunclashed : Unclashed m trustedWorkspaceRoots entries label root)
    (hnext : bootstrapOptional m trustedWorkspaceRoots entries label root = .ok next) :
    Valid next := by
  cases root with
  | none =>
    obtain rfl := Except.ok.inj hnext
    exact h
  | some root => exact bootstrapCandidate_valid h hlabel hunclashed hnext

def Inv (registry : Registry) : Prop := ∀ entries, registry = some entries → Valid entries

theorem Inv.readDocument {registry : Registry} (h : Inv registry) :
    ∃ entries, readDocument registry = .ok entries ∧ Valid entries := by
  cases registry with
  | none => exact ⟨[], rfl, Valid.empty⟩
  | some entries =>
    have hvalid := h entries rfl
    exact ⟨entries, parseDocument_documentValue hvalid, hvalid⟩

theorem update_valid {registry : Registry} {event : Event} (hsound : Sound registry event)
    {entries next : List Entry} (hread : readDocument registry = .ok entries)
    (h : Valid entries) (hnext : update event.machine entries event.call = .ok (some next)) :
    Valid next := by
  unfold Sound at hsound
  cases hcall : event.call with
  | add root dirs label source trustedWorkspaceRoots =>
    rw [hcall] at hnext hsound
    obtain ⟨added, hadded, hnext⟩ := bind_eq_ok hnext
    obtain rfl := Option.some.inj (Except.ok.inj hnext)
    exact addEntry_valid h hsound hadded
  | syncPath pathValue trustedWorkspaceRoots =>
    rw [hcall] at hnext
    obtain ⟨synced, hsynced, hnext⟩ := bind_eq_ok hnext
    have hvalid := syncEntries_valid h hsynced
    have hsome := Except.ok.inj hnext
    split at hsome
    · obtain rfl := Option.some.inj hsome
      exact hvalid
    · cases hsome
  | remove id =>
    rw [hcall] at hnext
    obtain ⟨-, hnext⟩ := refuseIf_bind hnext
    have hsome := Except.ok.inj hnext
    split at hsome
    · cases hsome
    · obtain rfl := Option.some.inj hsome
      exact h.filter _
  | ensureBootstrap nodeRoot rustRoot trustedWorkspaceRoots =>
    rw [hcall] at hnext hsound
    obtain ⟨hnode, hrust⟩ := hsound entries hread
    obtain ⟨withNode, hwithNode, hnext⟩ := bind_eq_ok hnext
    obtain ⟨withRust, hwithRust, hnext⟩ := bind_eq_ok hnext
    have hvalid := bootstrapOptional_valid h validateLabel_nodeLabel hnode hwithNode
    have hvalid' := bootstrapOptional_valid hvalid validateLabel_rustLabel
      (hrust withNode hwithNode) hwithRust
    have hsome := Except.ok.inj hnext
    split at hsome
    · cases hsome
    · obtain rfl := Option.some.inj hsome
      exact hvalid'

theorem Inv.next {registry : Registry} (h : Inv registry) {event : Event}
    (hsound : Sound registry event) : Inv (next registry event) := by
  obtain ⟨entries, hread, hvalid⟩ := h.readDocument
  unfold DeveloperEnvironments.next
  split
  · rename_i updated hupdated
    split
    · rw [hread] at hupdated
      intro written hwritten
      obtain rfl := Option.some.inj hwritten
      exact update_valid hsound hread hvalid hupdated
    · exact h
  · exact h

/-- In a run whose calls all meet the condition, every document that is written reads
back as it was written. -/
theorem readable_of_sound (events : List Event)
    (hsound : ∀ front event back, events = front ++ event :: back →
      Sound (front.foldl next none) event) : Readable (events.foldl next none) := by
  have hstart : Inv none := fun entries hnone => nomatch hnone
  have hstep : ∀ registry event, Inv registry → Sound registry event →
      Inv (next registry event) := fun registry event h hok => Inv.next h hok
  have hinv : Inv (events.foldl next none) := foldl_invariant_of hstep hstart hsound
  intro entries hentries
  exact parseDocument_documentValue (hinv entries hentries)

def toolId (number : Nat) : JsText :=
  asciiUnits "denv_" ++ (List.replicate 30 48 ++
    [(48 + number / 10).toUInt16, (48 + number % 10).toUInt16])

def toolIds : List JsText := (List.range 33).map toolId

def freshToolId (used : List JsText) : JsText :=
  (toolIds.find? fun id => id ∉ used).getD (toolId 0)

theorem freshToolId_isId (used : List JsText) : isId (freshToolId used) = true := by
  have hall : ∀ id ∈ toolIds, isId id = true := by decide
  unfold freshToolId
  cases hfind : toolIds.find? fun id => id ∉ used with
  | none => exact hall (toolId 0) (by decide)
  | some id => exact hall id (List.mem_of_find?_eq_some hfind)

theorem freshToolId_fresh (used : List JsText) (hcount : used.length ≤ maxDeveloperEnvironments) :
    freshToolId used ∉ used := by
  unfold freshToolId
  cases hfind : toolIds.find? fun id => id ∉ used with
  | some id => simpa using List.find?_some hfind
  | none =>
    have hnodup : toolIds.Nodup := List.Nodup.of_map (List.drop 35) (by decide)
    have hsubset : toolIds ⊆ used := by
      intro id hid
      simpa using List.find?_eq_none.mp hfind id hid
    have hlength : toolIds.length ≤ used.length := (List.subperm_of_subset hnodup hsubset).length_le
    have hsize : toolIds.length = 33 := rfl
    rw [hsize] at hlength
    exact absurd (Nat.le_trans hlength hcount) (by decide)

def toolRoot : Bytes := utf8 "/opt/tool"

def toolHost : Host where
  realpath := fun _ => .ok ⟨toolRoot, by decide +kernel⟩
  stat := fun _ => .ok ⟨true, 0o755, 0, 0, 2049, 1001⟩

def toolMachine : Machine where
  host := toolHost
  canonicalStateRoot := .ok (asciiUnits "/state")
  resolve := id
  newId := freshToolId
  newId_isId := freshToolId_isId
  newId_fresh := freshToolId_fresh

def addTool (executableDir : JsText) : Event :=
  ⟨toolMachine, .add (asciiUnits "/opt/tool") [executableDir] (asciiUnits "tool")
    (asciiUnits "operator") [], true⟩

theorem binTool_readable : Readable ([addTool (asciiUnits "bin")].foldl next none) := by
  refine readable_of_sound _ ?_
  intro front event back hsplit
  obtain ⟨-, rfl, -⟩ : front = [] ∧ event = addTool (asciiUnits "bin") ∧ back = [] := by
    cases front with
    | nil =>
      obtain ⟨hevent, hback⟩ := List.cons.inj hsplit
      exact ⟨rfl, hevent.symm, hback.symm⟩
    | cons first rest =>
      obtain ⟨-, hrest⟩ := List.cons.inj hsplit
      cases rest with
      | nil => cases hrest
      | cons _ _ => cases hrest
  intro value hvalue
  obtain rfl := List.mem_singleton.mp hvalue
  exact ⟨by decide, by decide⟩

/-- The slash that is left of `.//bin` makes the entry absolute when it is read. -/
theorem slashedTool_not_readable :
    ¬∀ events : List Event, Readable (events.foldl next none) := by
  intro h
  have hparsed : ((next none (addTool (asciiUnits ".//bin"))).map fun entries =>
      (parseDocument (documentValue entries)).toBool) = some false := by decide +kernel
  obtain ⟨entries, hentries, hrefused⟩ := Option.map_eq_some_iff.mp hparsed
  have hread := h [addTool (asciiUnits ".//bin")] entries hentries
  rw [hread] at hrefused
  cases hrefused

end KodeGpt.EnvironmentDocuments
