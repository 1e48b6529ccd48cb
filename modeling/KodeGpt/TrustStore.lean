import KodeGpt.JsonText

/-!
The document of trusted workspaces: what a file of it holds, and what a call of
`trust` or `untrust` makes of it. The comparison of roots is that of the locale.
-/

namespace KodeGpt.TrustStore

open JsonText

inductive ProfileCeiling where
  | observe
  | develop
  | trusted
  deriving DecidableEq, Repr

structure PersistentFilesystemIdentity where
  deviceMajor : Int
  deviceMinor : Int
  inode : Bytes
  deriving DecidableEq, Repr

structure TrustedWorkspaceEntry where
  id : Bytes
  canonicalRoot : Bytes
  identity : PersistentFilesystemIdentity
  profileCeiling : ProfileCeiling
  trustedAt : Bytes
  deriving DecidableEq, Repr

inductive TrustStoreError where
  | invalid (message : String)
  | versionUnsupported
  | io
  deriving DecidableEq, Repr

def maxSafeInteger : Int := 2 ^ 53 - 1

def isDevice (value : Int) : Bool := 0 ≤ value && value ≤ maxSafeInteger

def isInode (value : Bytes) : Bool :=
  !value.isEmpty && value.all fun byte => 48 ≤ byte && byte ≤ 57

def validateCanonicalRoot (value : Bytes) : Except TrustStoreError Unit :=
  if value.head? = some 47 then .ok ()
  else .error (.invalid "Canonical workspace root must be absolute")

def validateIdentity (value : PersistentFilesystemIdentity) : Except TrustStoreError Unit :=
  if isDevice value.deviceMajor && isDevice value.deviceMinor && isInode value.inode then .ok ()
  else .error (.invalid "Invalid persistent filesystem identity")

/-- An entry that the store accepts: what it writes and what it reads. -/
def ValidEntry (entry : TrustedWorkspaceEntry) : Prop :=
  validateCanonicalRoot entry.canonicalRoot = .ok () ∧ validateIdentity entry.identity = .ok ()

inductive TrustFile where
  | missing
  | notJson
  | value (document : Json)

def ceilingText : ProfileCeiling → Bytes
  | .observe => utf8 "observe"
  | .develop => utf8 "develop"
  | .trusted => utf8 "trusted"

def parseCeiling (text : Bytes) : Except TrustStoreError ProfileCeiling :=
  if text = utf8 "observe" then .ok .observe
  else if text = utf8 "develop" then .ok .develop
  else if text = utf8 "trusted" then .ok .trusted
  else .error (.invalid "Invalid profile ceiling")

def identityJson (identity : PersistentFilesystemIdentity) : Json :=
  .object
    [(utf8 "deviceMajor", .number identity.deviceMajor),
      (utf8 "deviceMinor", .number identity.deviceMinor), (utf8 "inode", .string identity.inode)]

def entryJson (entry : TrustedWorkspaceEntry) : Json :=
  .object
    [(utf8 "id", .string entry.id), (utf8 "canonicalRoot", .string entry.canonicalRoot),
      (utf8 "identity", identityJson entry.identity),
      (utf8 "profileCeiling", .string (ceilingText entry.profileCeiling)),
      (utf8 "trustedAt", .string entry.trustedAt)]

def documentJson (entries : List TrustedWorkspaceEntry) : Json :=
  .object [(utf8 "schemaVersion", .number 1), (utf8 "entries", .array (entries.map entryJson))]

def isRecord : Json → Bool
  | .object _ => true
  | _ => false

def parseIdentity (value : Json) : Except TrustStoreError PersistentFilesystemIdentity :=
  match value.member (utf8 "deviceMajor"), value.member (utf8 "deviceMinor"),
      value.member (utf8 "inode") with
  | some (.number deviceMajor), some (.number deviceMinor), some (.string inode) => do
    let identity : PersistentFilesystemIdentity := ⟨deviceMajor, deviceMinor, inode⟩
    validateIdentity identity
    pure identity
  | _, _, _ => .error (.invalid "Invalid persistent filesystem identity")

def parseEntry (value : Json) : Except TrustStoreError TrustedWorkspaceEntry :=
  if isRecord value then
    match value.member (utf8 "id"), value.member (utf8 "canonicalRoot"),
        value.member (utf8 "identity"), value.member (utf8 "profileCeiling"),
        value.member (utf8 "trustedAt") with
    | some (.string id), some (.string canonicalRoot), some (.object identity),
        some (.string profileCeiling), some (.string trustedAt) => do
        validateCanonicalRoot canonicalRoot
        let identity ← parseIdentity (.object identity)
        let profileCeiling ← parseCeiling profileCeiling
        pure { id, canonicalRoot, identity, profileCeiling, trustedAt }
    | _, _, _, _, _ => .error (.invalid "Trusted workspace entry has invalid fields")
  else .error (.invalid "Trusted workspace entry must be an object")

def parseEntries : List Json → Except TrustStoreError (List TrustedWorkspaceEntry)
  | [] => .ok []
  | value :: rest => do
    let entry ← parseEntry value
    let entries ← parseEntries rest
    pure (entry :: entries)

/-- `#read`: no file is an empty document. -/
def readDocument : TrustFile → Except TrustStoreError (List TrustedWorkspaceEntry)
  | .missing => .ok []
  | .notJson => .error (.invalid "Workspace trust store is invalid JSON")
  | .value document =>
    if isRecord document then
      match document.member (utf8 "schemaVersion") with
      | some (.number 1) =>
        match document.member (utf8 "entries") with
        | some (.array entries) => parseEntries entries
        | _ => .error (.invalid "Workspace trust entries must be an array")
      | _ => .error .versionUnsupported
    else .error (.invalid "Workspace trust store must be an object")

theorem parseIdentity_identityJson {identity : PersistentFilesystemIdentity}
    (h : validateIdentity identity = .ok ()) : parseIdentity (identityJson identity) = .ok identity := by
  have hkeys : [utf8 "deviceMajor", utf8 "deviceMinor", utf8 "inode"].Nodup := by decide +kernel
  have hmajor : (identityJson identity).member (utf8 "deviceMajor") =
      some (.number identity.deviceMajor) := Json.member_object hkeys (by simp)
  have hminor : (identityJson identity).member (utf8 "deviceMinor") =
      some (.number identity.deviceMinor) := Json.member_object hkeys (by simp)
  have hinode : (identityJson identity).member (utf8 "inode") = some (.string identity.inode) :=
    Json.member_object hkeys (by simp)
  simp only [parseIdentity, hmajor, hminor, hinode, h]
  rfl

theorem parseCeiling_ceilingText (ceiling : ProfileCeiling) :
    parseCeiling (ceilingText ceiling) = .ok ceiling := by
  have htexts : utf8 "develop" ≠ utf8 "observe" ∧ utf8 "trusted" ≠ utf8 "observe" ∧
      utf8 "trusted" ≠ utf8 "develop" := by decide +kernel
  cases ceiling <;> simp [parseCeiling, ceilingText, htexts]

theorem parseEntry_entryJson {entry : TrustedWorkspaceEntry} (h : ValidEntry entry) :
    parseEntry (entryJson entry) = .ok entry := by
  have hkeys : [utf8 "id", utf8 "canonicalRoot", utf8 "identity", utf8 "profileCeiling",
      utf8 "trustedAt"].Nodup := by decide +kernel
  have hid : (entryJson entry).member (utf8 "id") = some (.string entry.id) :=
    Json.member_object hkeys (by simp)
  have hroot : (entryJson entry).member (utf8 "canonicalRoot") =
      some (.string entry.canonicalRoot) := Json.member_object hkeys (by simp)
  have hidentity : (entryJson entry).member (utf8 "identity") = some (identityJson entry.identity) :=
    Json.member_object hkeys (by simp)
  have hceiling : (entryJson entry).member (utf8 "profileCeiling") =
      some (.string (ceilingText entry.profileCeiling)) := Json.member_object hkeys (by simp)
  have htime : (entryJson entry).member (utf8 "trustedAt") = some (.string entry.trustedAt) :=
    Json.member_object hkeys (by simp)
  have hparsed := parseIdentity_identityJson h.2
  rw [identityJson] at hidentity hparsed
  rw [parseEntry, if_pos (by rfl)]
  simp only [hid, hroot, hidentity, hceiling, htime, h.1, hparsed, parseCeiling_ceilingText]
  rfl

theorem readDocument_documentJson {entries : List TrustedWorkspaceEntry}
    (h : ∀ entry ∈ entries, ValidEntry entry) :
    readDocument (.value (documentJson entries)) = .ok entries := by
  have hkeys : [utf8 "schemaVersion", utf8 "entries"].Nodup := by decide +kernel
  have hversion : (documentJson entries).member (utf8 "schemaVersion") = some (.number 1) :=
    Json.member_object hkeys (by simp)
  have hentries : (documentJson entries).member (utf8 "entries") =
      some (.array (entries.map entryJson)) := Json.member_object hkeys (by simp)
  have hparsed : parseEntries (entries.map entryJson) = .ok entries := by
    clear hversion hentries
    induction entries with
    | nil => rfl
    | cons entry rest ih =>
      have hrest := ih fun later hlater => h later (List.mem_cons_of_mem _ hlater)
      rw [List.map_cons, parseEntries, parseEntry_entryJson (h entry List.mem_cons_self), hrest]
      rfl
  rw [readDocument, if_pos (by rfl)]
  simp only [hversion, hentries, hparsed]

theorem parseIdentity_valid {value : Json} {identity : PersistentFilesystemIdentity}
    (h : parseIdentity value = .ok identity) : validateIdentity identity = .ok () := by
  unfold parseIdentity at h
  split at h
  · rename_i deviceMajor deviceMinor inode hmajor hminor hinode
    cases hvalid : validateIdentity ⟨deviceMajor, deviceMinor, inode⟩ with
    | error error => simp [hvalid, bind, Except.bind] at h
    | ok _ =>
      simp only [hvalid, bind, Except.bind, pure, Except.pure, Except.ok.injEq] at h
      rw [← h, hvalid]
  · cases h

theorem parseEntry_valid {value : Json} {entry : TrustedWorkspaceEntry}
    (h : parseEntry value = .ok entry) : ValidEntry entry := by
  unfold parseEntry at h
  split at h
  · split at h
    · rename_i id root identity ceiling time _ _ _ _ _
      cases hroot : validateCanonicalRoot root with
      | error error => simp [hroot, bind, Except.bind] at h
      | ok _ =>
        cases hidentity : parseIdentity (.object identity) with
        | error error => simp [hroot, hidentity, bind, Except.bind] at h
        | ok parsed =>
          cases hceiling : parseCeiling ceiling with
          | error error => simp [hroot, hidentity, hceiling, bind, Except.bind] at h
          | ok _ =>
            simp only [hroot, hidentity, hceiling, bind, Except.bind, pure, Except.pure,
              Except.ok.injEq] at h
            rw [← h]
            exact ⟨hroot, parseIdentity_valid hidentity⟩
    · cases h
  · cases h

theorem parseEntries_valid {values : List Json} {entries : List TrustedWorkspaceEntry}
    (h : parseEntries values = .ok entries) : ∀ entry ∈ entries, ValidEntry entry := by
  induction values generalizing entries with
  | nil =>
    obtain rfl := Except.ok.inj h
    exact nofun
  | cons value rest ih =>
    cases hvalue : parseEntry value with
    | error error => simp [parseEntries, hvalue, bind, Except.bind] at h
    | ok entry =>
      cases hrest : parseEntries rest with
      | error error => simp [parseEntries, hvalue, hrest, bind, Except.bind] at h
      | ok parsed =>
        simp only [parseEntries, hvalue, hrest, bind, Except.bind, pure, Except.pure,
          Except.ok.injEq] at h
        rw [← h]
        intro later hlater
        rcases List.mem_cons.mp hlater with rfl | hmem
        · exact parseEntry_valid hvalue
        · exact ih hrest later hmem

theorem readDocument_valid {file : TrustFile} {entries : List TrustedWorkspaceEntry}
    (h : readDocument file = .ok entries) : ∀ entry ∈ entries, ValidEntry entry := by
  unfold readDocument at h
  split at h
  · obtain rfl := Except.ok.inj h
    exact nofun
  · cases h
  · split at h
    · split at h
      · split at h
        · exact parseEntries_valid h
        · cases h
      · cases h
    · cases h

structure TrustInput where
  canonicalRoot : Bytes
  identity : PersistentFilesystemIdentity
  profileCeiling : ProfileCeiling
  deriving DecidableEq, Repr

/-- A call, with the random id and the time of day that it draws. -/
inductive TrustCall where
  | trust (input : TrustInput) (freshId now : Bytes)
  | untrust (id : Bytes)
  deriving DecidableEq, Repr

/-- `localeCompare` of two roots is at most zero. -/
abbrev LocaleOrder := Bytes → Bytes → Bool

def trustedEntry (entries : List TrustedWorkspaceEntry) (input : TrustInput) (freshId now : Bytes) :
    TrustedWorkspaceEntry where
  id := ((entries.find? fun entry => entry.canonicalRoot = input.canonicalRoot).map
    TrustedWorkspaceEntry.id).getD freshId
  canonicalRoot := input.canonicalRoot
  identity := input.identity
  profileCeiling := input.profileCeiling
  trustedAt := now

def trustEntries (locale : LocaleOrder) (entries : List TrustedWorkspaceEntry) (input : TrustInput)
    (freshId now : Bytes) : List TrustedWorkspaceEntry :=
  let entry := trustedEntry entries input freshId now
  let placed :=
    match entries.findIdx? fun candidate => candidate.canonicalRoot = input.canonicalRoot with
    | some index => entries.set index entry
    | none => entries ++ [entry]
  placed.mergeSort fun left right => locale left.canonicalRoot right.canonicalRoot

def untrustEntries (entries : List TrustedWorkspaceEntry) (id : Bytes) :
    List TrustedWorkspaceEntry :=
  entries.filter fun entry => entry.id ≠ id

namespace TrustCall

def validate : TrustCall → Except TrustStoreError Unit
  | trust input _ _ => do
    validateCanonicalRoot input.canonicalRoot
    validateIdentity input.identity
  | untrust _ => .ok ()

def update (locale : LocaleOrder) (entries : List TrustedWorkspaceEntry) :
    TrustCall → Option (List TrustedWorkspaceEntry)
  | trust input freshId now => some (trustEntries locale entries input freshId now)
  | untrust id =>
    if (untrustEntries entries id).length = entries.length then none
    else some (untrustEntries entries id)

def apply (locale : LocaleOrder) (entries : List TrustedWorkspaceEntry) (this : TrustCall) :
    List TrustedWorkspaceEntry :=
  (this.update locale entries).getD entries

end TrustCall

theorem update_valid {locale : LocaleOrder} {entries next : List TrustedWorkspaceEntry}
    {this : TrustCall} (hvalid : this.validate = .ok ()) (h : ∀ entry ∈ entries, ValidEntry entry)
    (hupdate : this.update locale entries = some next) : ∀ entry ∈ next, ValidEntry entry := by
  cases this with
  | trust input freshId now =>
    obtain rfl := Option.some.inj hupdate
    have hentry : ValidEntry (trustedEntry entries input freshId now) := by
      cases hroot : validateCanonicalRoot input.canonicalRoot with
      | error error => simp [TrustCall.validate, hroot, bind, Except.bind] at hvalid
      | ok _ =>
        rw [TrustCall.validate, hroot] at hvalid
        exact ⟨hroot, hvalid⟩
    intro entry hmem
    rw [trustEntries, List.mem_mergeSort] at hmem
    split at hmem
    · rcases List.mem_or_eq_of_mem_set hmem with hold | rfl
      · exact h entry hold
      · exact hentry
    · rcases List.mem_append.mp hmem with hold | hnew
      · exact h entry hold
      · rw [List.mem_singleton.mp hnew]
        exact hentry
  | untrust id =>
    rw [TrustCall.update] at hupdate
    split at hupdate
    · cases hupdate
    · obtain rfl := Option.some.inj hupdate
      intro entry hmem
      exact h entry (List.mem_of_mem_filter hmem)

/-- A root that is trusted has an entry, whatever else the document has. -/
theorem root_mem_trustEntries (locale : LocaleOrder) (entries : List TrustedWorkspaceEntry)
    (input : TrustInput) (freshId now : Bytes) :
    input.canonicalRoot ∈
      (trustEntries locale entries input freshId now).map TrustedWorkspaceEntry.canonicalRoot := by
  rw [List.mem_map]
  refine ⟨trustedEntry entries input freshId now, ?_, rfl⟩
  rw [trustEntries, List.mem_mergeSort]
  split
  · rename_i index hindex
    obtain ⟨hlt, -⟩ := List.findIdx?_eq_some_iff_findIdx_eq.mp hindex
    exact List.mem_set hlt _
  · simp

theorem mem_trustEntries_of_ne {locale : LocaleOrder} {entries : List TrustedWorkspaceEntry}
    {input : TrustInput} (freshId now : Bytes) {entry : TrustedWorkspaceEntry}
    (hentry : entry ∈ entries) (hne : entry.canonicalRoot ≠ input.canonicalRoot) :
    entry ∈ trustEntries locale entries input freshId now := by
  rw [trustEntries, List.mem_mergeSort]
  split
  · rename_i index hindex
    obtain ⟨hlt, hat⟩ := List.findIdx?_eq_some_iff_findIdx_eq.mp hindex
    obtain ⟨place, hplace, rfl⟩ := List.getElem_of_mem hentry
    have hplaces : place ≠ index := by
      rintro rfl
      subst hat
      exact hne (by simpa using List.findIdx_getElem (w := hlt))
    rw [List.mem_iff_getElem]
    refine ⟨place, by simpa using hplace, ?_⟩
    rw [List.getElem_set_of_ne hplaces.symm]
  · exact List.mem_append_left _ hentry

theorem root_mem_trustEntries_of_mem {locale : LocaleOrder} {entries : List TrustedWorkspaceEntry}
    (input : TrustInput) (freshId now : Bytes) {root : Bytes}
    (hroot : root ∈ entries.map TrustedWorkspaceEntry.canonicalRoot) :
    root ∈ (trustEntries locale entries input freshId now).map
      TrustedWorkspaceEntry.canonicalRoot := by
  by_cases hsame : root = input.canonicalRoot
  · rw [hsame]
    exact root_mem_trustEntries locale entries input freshId now
  · obtain ⟨entry, hentry, rfl⟩ := List.mem_map.mp hroot
    exact List.mem_map.mpr ⟨entry, mem_trustEntries_of_ne freshId now hentry hsame, rfl⟩

end KodeGpt.TrustStore
