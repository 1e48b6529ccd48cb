import KodeGpt.Base64Url
import KodeGpt.RawSpool

/-!
What a call of `create` that fails does to the artifacts of the spool: its retention
runs before the execution id is known to be new, before the audit of the creation,
and before it is known whether there is room at all.
-/

namespace KodeGpt.SpoolEvictions

open Base64Url FallibleActions JsonText RawSpool RawSpool.RawSpoolStore RpcResponses

/-- The bytes of the files. A file that is not written to keeps its entry. -/
structure Contents where
  bytes : SpoolEntry → Bytes
  length_bytes : ∀ entry, (bytes entry).length = entry.length

structure ArtifactReadResult where
  schemaVersion : Nat
  dataBase64 : Bytes
  bytesRead : Nat
  nextOffset : Nat
  eof : Bool
  deriving DecidableEq

/-- The calls of `read` that can fail. -/
inductive ReadCall where
  | decision
  | outcome
  | metadata
  | openFile
  | seek
  | readFile
  | fileMetadata
  deriving DecidableEq

def artifactReadMaxBytes : Nat := 1024 * 1024

def base64Digit (digit : Nat) : UInt8 :=
  if digit < 26 then (65 + digit).toUInt8
  else if digit < 52 then (97 + (digit - 26)).toUInt8
  else if digit < 62 then (48 + (digit - 52)).toUInt8
  else if digit = 62 then 43
  else 47

/-- The standard alphabet, filled up with `=`. -/
def base64 (bytes : Bytes) : Bytes :=
  (encode bytes).map base64Digit ++ List.replicate ((3 - bytes.length % 3) % 3) 61

def entry? (store : RawSpoolStore) (name : Bytes) : Option SpoolEntry :=
  store.directory.find? fun entry => entry.name == name

def callRead (failing : ReadCall → Bool) (this : ReadCall) (error : RawSpoolError) :
    Except RawSpoolError Unit :=
  if failing this then .error error else .ok ()

def readResult (contents : Contents) (entry : SpoolEntry) (offset maxBytes : Nat) :
    ArtifactReadResult :=
  let buffer := ((contents.bytes entry).drop offset).take maxBytes
  let nextOffset := saturatingAdd offset buffer.length
  { schemaVersion := 1, dataBase64 := base64 buffer, bytesRead := buffer.length,
    nextOffset := nextOffset, eof := decide (entry.length ≤ nextOffset) }

/-- An offset from `2 ^ 63` on is refused by the seek. -/
def readInner (contents : Contents) (failing : ReadCall → Bool) (store : RawSpoolStore)
    (artifactId : Bytes) (offset maxBytes : Nat) : Except RawSpoolError ArtifactReadResult := do
  callRead failing .metadata .io
  match entry? store artifactId with
  | none => .error .artifactNotFound
  | some entry =>
    if !entry.regular then .error .artifactNotRegular
    else do
      callRead failing .openFile .io
      if 2 ^ 63 ≤ offset then .error .io
      else do
        callRead failing .seek .io
        callRead failing .readFile .io
        callRead failing .fileMetadata .io
        .ok (readResult contents entry offset maxBytes)

def read (contents : Contents) (failing : ReadCall → Bool) (store : RawSpoolStore)
    (artifactId : Bytes) (offset maxBytes : Nat) : Except RawSpoolError ArtifactReadResult := do
  validateArtifactId artifactId
  if maxBytes = 0 ∨ artifactReadMaxBytes < maxBytes then .error .readLimitExceeded
  else do
    callRead failing .decision .auditUnavailable
    let result := readInner contents failing store artifactId offset maxBytes
    callRead failing .outcome .auditUnavailable
    result

/-- Every reading of a completed artifact that has not expired gives the same
afterwards. -/
def ArtifactsKept (contents : Contents) (now : Nat) (before after : RawSpoolStore) : Prop :=
  ∀ entry ∈ before.directory, entry.name ∉ before.activeArtifacts →
    now - entry.modified < artifactTtl →
    ∀ failing offset maxBytes result,
      read contents failing before entry.name offset maxBytes = .ok result →
      read contents failing after entry.name offset maxBytes = .ok result

theorem read_congr {contents : Contents} {failing : ReadCall → Bool}
    {store other : RawSpoolStore} {artifactId : Bytes} (offset maxBytes : Nat)
    (hentry : entry? other artifactId = entry? store artifactId) :
    read contents failing other artifactId offset maxBytes =
      read contents failing store artifactId offset maxBytes := by
  unfold read readInner
  rw [hentry]

theorem entry?_of_mem {store : RawSpoolStore} {entry : SpoolEntry}
    (hnames : (store.directory.map SpoolEntry.name).Nodup) (hentry : entry ∈ store.directory) :
    entry? store entry.name = some entry := by
  unfold entry?
  generalize store.directory = directory at hnames hentry
  induction directory with
  | nil => simp at hentry
  | cons first rest ih =>
    rw [List.map_cons, List.nodup_cons, List.mem_map] at hnames
    rcases List.mem_cons.mp hentry with rfl | hrest
    · simp
    · have hne : first.name ≠ entry.name := fun heq => hnames.1 ⟨entry, hrest, heq.symm⟩
      rw [List.find?_cons_of_neg (by simpa using hne)]
      exact ih hnames.2 hrest

theorem read_ok {contents : Contents} {store : RawSpoolStore} {entry : SpoolEntry}
    (hvalid : validateArtifactId entry.name = .ok ()) (hregular : entry.regular = true)
    (hentry : entry? store entry.name = some entry) :
    read contents (fun _ => false) store entry.name 0 1 =
      .ok (readResult contents entry 0 1) := by
  unfold read readInner callRead
  rw [hvalid, hentry]
  simp [bind, Except.bind, hregular, artifactReadMaxBytes]

theorem readInner_ok {contents : Contents} {failing : ReadCall → Bool} {store : RawSpoolStore}
    {artifactId : Bytes} {offset maxBytes : Nat} {result : ArtifactReadResult}
    (hread : readInner contents failing store artifactId offset maxBytes = .ok result) :
    ∃ entry, entry? store artifactId = some entry ∧
      result = readResult contents entry offset maxBytes := by
  unfold readInner at hread
  obtain ⟨-, -, hread⟩ := bind_eq_ok_iff.mp hread
  cases hentry : entry? store artifactId with
  | none =>
    rw [hentry] at hread
    cases hread
  | some entry =>
    rw [hentry] at hread
    dsimp only at hread
    split at hread
    · cases hread
    obtain ⟨-, -, hread⟩ := bind_eq_ok_iff.mp hread
    split at hread
    · cases hread
    obtain ⟨-, -, hread⟩ := bind_eq_ok_iff.mp hread
    obtain ⟨-, -, hread⟩ := bind_eq_ok_iff.mp hread
    obtain ⟨-, -, hread⟩ := bind_eq_ok_iff.mp hread
    exact ⟨entry, rfl, (Except.ok.inj hread).symm⟩

theorem readInner_of_read {contents : Contents} {failing : ReadCall → Bool}
    {store : RawSpoolStore} {artifactId : Bytes} {offset maxBytes : Nat}
    {result : ArtifactReadResult}
    (hread : read contents failing store artifactId offset maxBytes = .ok result) :
    readInner contents failing store artifactId offset maxBytes = .ok result := by
  unfold read at hread
  obtain ⟨-, -, hread⟩ := bind_eq_ok_iff.mp hread
  split at hread
  · cases hread
  obtain ⟨-, -, hread⟩ := bind_eq_ok_iff.mp hread
  obtain ⟨-, -, hread⟩ := bind_eq_ok_iff.mp hread
  exact hread

def isCollected (active : List Bytes) (now : Nat) (entry : SpoolEntry) : Bool :=
  (validateArtifactId entry.name).isOk && entry.regular && !active.contains entry.name &&
    decide (now - entry.modified < artifactTtl)

def isScanned (failing : Failing) (active : List Bytes) (now : Nat) (entry : SpoolEntry) : Bool :=
  !failing (.readEntry entry.name) &&
    (!(validateArtifactId entry.name).isOk ||
      !failing (.readMetadata entry.name) &&
        (!entry.regular || active.contains entry.name ||
          decide (now - entry.modified < artifactTtl) || !failing (.removeFile entry.name)))

def completedArtifacts (store : RawSpoolStore) (now : Nat) : List SpoolEntry :=
  store.directory.filter (isCollected store.activeArtifacts now)

def projectedBytes (store : RawSpoolStore) (now : Nat) : Nat :=
  ((completedArtifacts store now).map SpoolEntry.length).sum +
    store.activeArtifacts.length * rawSpoolSourceCapBytes

/-- The retention of this call takes an artifact that has not expired: it is
reached, its scan succeeds, the spool has no room for another writer, and the
oldest of the completed artifacts can be removed. -/
structure Evicts (request : CreateCall) (store : RawSpoolStore) : Prop where
  execution : validateExecutionId request.executionId = .ok ()
  media : validateMediaType request.mediaType = .ok ()
  decision : request.failing .cleanupDecision = false
  directory : request.failing .readDirectory = false
  scanned : store.directory.all
    (isScanned request.failing store.activeArtifacts request.now) = true
  full : targetBeforeNew < projectedBytes store request.now
  oldest : ∃ entry,
    ((completedArtifacts store request.now).mergeSort olderOrSame).head? = some entry ∧
    request.failing (.removeFile entry.name) = false

/-- The entries that are kept are in the directory, which has a name once. -/
structure Holds (kept directory : List SpoolEntry) : Prop where
  names : (directory.map SpoolEntry.name).Nodup
  kept : ∀ entry ∈ kept, entry ∈ directory

namespace Holds

variable {kept directory : List SpoolEntry} {name : Bytes}

theorem remove (h : Holds kept directory) (hname : ∀ entry ∈ kept, entry.name ≠ name) :
    Holds kept (directory.filter fun entry => entry.name ≠ name) := by
  refine ⟨h.names.sublist (List.filter_sublist.map _), ?_⟩
  intro entry hentry
  exact List.mem_filter.mpr ⟨h.kept entry hentry, by simpa using hname entry hentry⟩

theorem concat {entry : SpoolEntry} (h : Holds kept directory)
    (hfresh : ∀ other ∈ directory, other.name ≠ entry.name) :
    Holds kept (directory ++ [entry]) := by
  refine ⟨?_, fun other hother => List.mem_append_left _ (h.kept other hother)⟩
  rw [List.map_append, List.nodup_append]
  refine ⟨h.names, List.nodup_singleton _, ?_⟩
  rintro taken htaken other hother rfl
  obtain ⟨old, hold, hname⟩ := List.mem_map.mp htaken
  exact hfresh old hold (hname.trans (List.mem_singleton.mp hother))

end Holds

theorem saturatingAdd_assoc (total length more : Nat) :
    min (saturatingAdd total length + more) maxU64 = min (total + (length + more)) maxU64 := by
  rw [saturatingAdd]
  omega

/-- What the scan collects, and what it leaves: the entries that have expired are
the only ones it takes. -/
theorem scanEntries_triple (failing : Failing) (active : List Bytes) (now : Nat)
    {kept : List SpoolEntry} (rest completed : List SpoolEntry) (total : Nat)
    (hkept : ∀ entry ∈ rest, artifactTtl ≤ now - entry.modified →
      ∀ other ∈ kept, other.name ≠ entry.name) (htotal : total ≤ maxU64) :
    Triple (fun s => Holds kept s.directory) (scanEntries failing active now rest completed total)
      (fun collected s => Holds kept s.directory ∧ rest.all (isScanned failing active now) = true ∧
        collected.1 = completed ++ rest.filter (isCollected active now) ∧
        collected.2 = min (total + ((rest.filter (isCollected active now)).map
          SpoolEntry.length).sum) maxU64)
      (fun _ s => Holds kept s.directory ∧ rest.all (isScanned failing active now) = false) := by
  induction rest generalizing completed total with
  | nil =>
    refine Triple.pure fun s h => ⟨h, rfl, by simp, ?_⟩
    simpa using htotal
  | cons entry rest ih =>
    have hrest : ∀ entry ∈ rest, artifactTtl ≤ now - entry.modified →
        ∀ other ∈ kept, other.name ≠ entry.name :=
      fun entry hentry => hkept entry (List.mem_cons_of_mem _ hentry)
    -- The scan goes on past an entry that it does not collect.
    have hpass : isScanned failing active now entry = true →
        isCollected active now entry = false →
        Triple (fun s => Holds kept s.directory)
          (scanEntries failing active now rest completed total)
          (fun collected s => Holds kept s.directory ∧
            (entry :: rest).all (isScanned failing active now) = true ∧
            collected.1 = completed ++ (entry :: rest).filter (isCollected active now) ∧
            collected.2 = min (total + (((entry :: rest).filter
              (isCollected active now)).map SpoolEntry.length).sum) maxU64)
          (fun _ s => Holds kept s.directory ∧
            (entry :: rest).all (isScanned failing active now) = false) := by
      intro hscanned hcollected
      rw [List.all_cons, hscanned, Bool.true_and,
        List.filter_cons_of_neg (by simp [hcollected])]
      exact ih completed total hrest htotal
    have hstop : isScanned failing active now entry = false →
        (entry :: rest).all (isScanned failing active now) = false := by
      intro hscanned
      rw [List.all_cons, hscanned, Bool.false_and]
    refine Triple.bindAttempt (fun s => Holds kept s.directory) (fun _ => id) (fun hread => ?_) fun hread s h =>
      ⟨h, hstop (by simp [isScanned, hread])⟩
    refine Triple.ite (fun hvalid => ?_) fun hinvalid =>
      hpass (by simp [isScanned, hread, hinvalid]) (by simp [isCollected, hinvalid])
    refine Triple.bindAttempt (fun s => Holds kept s.directory) (fun _ => id) (fun hmetadata => ?_) fun hmetadata s h =>
      ⟨h, hstop (by simp [isScanned, hvalid, hmetadata])⟩
    refine Triple.ite (fun hregular => ?_) fun hirregular =>
      hpass (by simp [isScanned, hread, hmetadata, hirregular]) (by simp [isCollected, hirregular])
    refine Triple.ite (fun hactive => ?_) fun hinactive => ?_
    · exact hpass (by simp [isScanned, hread, hmetadata, List.contains_iff_mem.mp hactive])
        (by simp [isCollected, List.contains_iff_mem.mp hactive])
    have hname : entry.name ∉ active := by simpa using hinactive
    refine Triple.ite (fun hexpired => ?_) fun hfresh => ?_
    · refine Triple.bindAttempt (fun s => Holds kept s.directory) ?_ (fun hremove => ?_) fun hremove s h => ⟨h, hstop ?_⟩
      · exact fun s h => h.remove (hkept entry List.mem_cons_self hexpired)
      · exact hpass (by simp [isScanned, hread, hmetadata, hremove])
          (by simp [isCollected, hexpired])
      · simp [isScanned, hvalid, hregular, hname, hremove, Nat.not_lt.mpr hexpired]
    · have hscanned : isScanned failing active now entry = true := by
        simp [isScanned, hread, hmetadata, Nat.not_le.mp hfresh]
      have hcollected : isCollected active now entry = true := by
        simp [isCollected, hvalid, hregular, hname, Nat.not_le.mp hfresh]
      have hlist : completed ++ entry :: rest.filter (isCollected active now) =
          completed ++ [entry] ++ rest.filter (isCollected active now) := by simp
      rw [List.all_cons, hscanned, Bool.true_and, List.filter_cons_of_pos hcollected, hlist,
        List.map_cons, List.sum_cons, ← saturatingAdd_assoc]
      exact ih (completed ++ [entry]) (saturatingAdd total entry.length) hrest
        (Nat.min_le_right _ _)

/-- How the creation of the file may change what is said of the directory. -/
structure Stable (P : List SpoolEntry → Prop) : Prop where
  concat : ∀ directory entry, P directory → entry.length = 0 →
    (∀ other ∈ directory, other.name ≠ entry.name) → P (directory ++ [entry])

/-- The artifact has been added last: `P` was said before it, and is said with it. -/
def Added (P : List SpoolEntry → Prop) (artifactId : Bytes) (s : RawSpoolStore) : Prop :=
  P s.directory ∧ P (s.directory.filter fun entry => entry.name ≠ artifactId)

theorem createFile_triple {P : List SpoolEntry → Prop} (hP : Stable P) (failing : Failing)
    (clock : Nat → Nat) (left : Nat) :
    Triple (fun s => P s.directory) (createFile failing clock left) (Added P)
      (fun _ s => P s.directory) := by
  induction left with
  | zero => exact Triple.throw fun _ => id
  | succ left ih =>
    refine Triple.bindGet fun seen => ?_
    refine Triple.bind (fun _ s => s.directory = seen.directory ∧ P s.directory)
      (Triple.modify ?_) fun _ => ?_
    · rintro s ⟨rfl, h⟩
      exact ⟨rfl, h⟩
    refine Triple.bind (fun _ s => s.directory = seen.directory ∧ P s.directory)
      (Triple.attempt (fun _ _ => id) fun _ _ h => h.2) fun _ => ?_
    refine Triple.ite (fun _ => ih.weaken fun _ h => h.2) fun hfresh => ?_
    have hnames : ∀ other ∈ seen.directory,
        other.name ≠ nextArtifactId (clock left) seen.nextSequence := by
      intro other hother hname
      apply hfresh
      rw [hasEntry, List.any_eq_true]
      exact ⟨other, hother, by simpa using hname⟩
    refine Triple.bind (fun _ => Added P (nextArtifactId (clock left) seen.nextSequence))
      (Triple.modify ?_) fun _ => ?_
    · rintro s ⟨hsame, h⟩
      rw [← hsame] at hnames
      refine ⟨hP.concat _ _ h rfl hnames, ?_⟩
      rw [addEntry, List.filter_append, List.filter_eq_self.mpr (by simpa using hnames)]
      simpa using h
    · refine Triple.bind (fun _ => Added P (nextArtifactId (clock left) seen.nextSequence))
        (Triple.attempt (fun _ _ => id) fun _ _ h => h.1) fun _ => ?_
      exact Triple.pure fun _ => id

theorem enforceRetention_triple {P Q : List SpoolEntry → Prop}
    (hPQ : ∀ directory, P directory → Q directory) {failing : Failing} {now : Nat}
    {store : RawSpoolStore} (hstart : failing .cleanupDecision = true → Q store.directory)
    (hinner : failing .cleanupDecision = false →
      Triple (fun s => s = store) (enforceRetentionInner failing now)
        (fun _ s => P s.directory) (fun _ s => Q s.directory)) :
    Triple (fun s => s = store) (enforceRetention failing now)
      (fun _ s => P s.directory) (fun _ s => Q s.directory) := by
  refine Triple.bindAttempt (fun s => s = store) (fun _ h => h) (fun hdecision => ?_) ?_
  · refine Triple.bind _ (hinner hdecision).observe fun result => ?_
    cases result with
    | ok value =>
      refine Triple.bind (fun _ s => P s.directory)
        (Triple.attempt (fun _ _ h => h) fun _ s h => hPQ _ h) fun _ => ?_
      exact Triple.pure fun _ h => h
    | error error =>
      refine Triple.bind (fun _ s => Q s.directory)
        (Triple.attempt (fun _ _ h => h) fun _ s h => h) fun _ => ?_
      exact Triple.throw fun _ h => h
  · rintro hdecision s rfl
    exact hstart hdecision

/-- A call that fails leaves a directory of `Q`: where it fails before the
retention, `Q` is said of the directory it began with, and what the retention
succeeds with is stable under the creation of the file. -/
theorem create_triple {P Q : List SpoolEntry → Prop} (hP : Stable P)
    (hPQ : ∀ directory, P directory → Q directory) {request : CreateCall} {store : RawSpoolStore}
    (hstart : ¬(validateExecutionId request.executionId = .ok () ∧
      validateMediaType request.mediaType = .ok () ∧
      request.failing .cleanupDecision = false) → Q store.directory)
    (hinner : validateExecutionId request.executionId = .ok () →
      validateMediaType request.mediaType = .ok () →
      request.failing .cleanupDecision = false →
      Triple (fun s => s = store) (enforceRetentionInner request.failing request.now)
        (fun _ s => P s.directory) (fun _ s => Q s.directory)) :
    Triple (fun s => s = store) (create request) (fun _ _ => True)
      (fun _ s => Q s.directory) := by
  refine Triple.bind (fun _ s => s = store ∧ validateExecutionId request.executionId = .ok ())
    (Triple.ofExcept ?_ ?_) fun _ => ?_
  · exact fun value s hexecution h => ⟨h, hexecution⟩
  · rintro error s hexecution rfl
    apply hstart
    rintro ⟨hvalid, -⟩
    cases hexecution.symm.trans hvalid
  refine Triple.bind (fun _ s => s = store ∧ validateExecutionId request.executionId = .ok () ∧
    validateMediaType request.mediaType = .ok ()) (Triple.ofExcept ?_ ?_) fun _ => ?_
  · exact fun value s hmedia h => ⟨h.1, h.2, hmedia⟩
  · rintro error s hmedia ⟨rfl, -⟩
    apply hstart
    rintro ⟨-, hvalid, -⟩
    cases hmedia.symm.trans hvalid
  refine Triple.bind (fun _ s => P s.directory) ?_ fun _ => ?_
  · rintro s ⟨hstore, hexecution, hmedia⟩
    refine enforceRetention_triple hPQ ?_ (hinner hexecution hmedia) s hstore
    intro hdecision
    apply hstart
    rintro ⟨-, -, hdone⟩
    cases hdecision.symm.trans hdone
  refine Triple.bindGet fun seen => ?_
  refine Triple.bind (fun _ s => P s.directory) (Triple.onlyIf ?_ ?_) fun _ => ?_
  · exact fun _ => Triple.throw fun s h => hPQ _ h.2
  · exact fun _ s h => h.2
  refine Triple.bind (fun _ s => P s.directory) (Triple.attempt ?_ ?_) fun _ => ?_
  · exact fun _ _ => id
  · exact fun _ s h => hPQ _ h
  refine Triple.bind (Added P) ?_ fun artifactId => ?_
  · refine Triple.bind _ (createFile_triple hP _ _ _).observe fun result => ?_
    cases result with
    | ok artifactId => exact Triple.pure fun _ => id
    | error error =>
      refine Triple.bind (fun _ s => P s.directory) (Triple.attempt ?_ ?_) fun _ =>
        Triple.throw fun s h => hPQ _ h
      · exact fun _ _ => id
      · exact fun _ s h => hPQ _ h
  refine Triple.bind (fun _ => Added P artifactId) (Triple.modify fun _ => id) fun _ => ?_
  have hcall : Triple (Added P artifactId)
      (call request.failing .createOutcome .auditUnavailable) (fun _ _ => True)
      (fun _ => Added P artifactId) :=
    Triple.attempt (fun _ _ _ => trivial) fun _ _ => id
  refine Triple.bind (fun _ _ => True) (Triple.onError hcall ?_) fun _ => ?_
  · intro _ s h
    unfold giveUp
    split
    · exact hPQ _ h.1
    · exact hPQ _ h.2
  · exact Triple.bind (fun _ _ => True) (Triple.modify fun _ => id) fun _ =>
      Triple.pure fun _ => id

def startingProjection (store : RawSpoolStore) (now : Nat) : Nat :=
  saturatingAdd
    (min (0 + ((completedArtifacts store now).map SpoolEntry.length).sum) maxU64)
    (saturatingMul store.activeArtifacts.length rawSpoolSourceCapBytes)

theorem startingProjection_full {store : RawSpoolStore} {now : Nat} :
    targetBeforeNew < startingProjection store now ↔
      targetBeforeNew < projectedBytes store now := by
  have htarget : targetBeforeNew < maxU64 := by decide
  rw [startingProjection, projectedBytes, saturatingAdd, saturatingMul]
  omega

/-- The retention up to the eviction, which is left to the caller. -/
theorem enforceRetentionInner_triple {failing : Failing} {now : Nat} {store : RawSpoolStore}
    {kept : List SpoolEntry} {P Q : List SpoolEntry → Prop} (hholds : Holds kept store.directory)
    (hkept : ∀ other ∈ kept, now - other.modified < artifactTtl)
    (hfailed : (failing .readDirectory = false →
      store.directory.all (isScanned failing store.activeArtifacts now) = false) →
      ∀ directory, Holds kept directory → Q directory)
    (hevict : failing .readDirectory = false →
      store.directory.all (isScanned failing store.activeArtifacts now) = true →
      Triple (fun s => Holds kept s.directory)
        (evict failing ((completedArtifacts store now).mergeSort olderOrSame)
          (startingProjection store now))
        (fun projected s => if targetBeforeNew < projected then Q s.directory else P s.directory)
        (fun _ s => Q s.directory)) :
    Triple (fun s => s = store) (enforceRetentionInner failing now)
      (fun _ s => P s.directory) (fun _ s => Q s.directory) := by
  have hdistinct : ∀ entry ∈ store.directory, artifactTtl ≤ now - entry.modified →
      ∀ other ∈ kept, other.name ≠ entry.name := by
    intro entry hentry hexpired other hother hname
    have hsame : other = entry :=
      List.inj_on_of_nodup_map hholds.names (hholds.kept other hother) hentry hname
    exact absurd (hsame ▸ hkept other hother) (Nat.not_lt.mpr hexpired)
  refine Triple.bindGet fun seen => ?_
  refine Triple.bindAttempt (fun s => s = seen ∧ s = store) (fun _ h => h) (fun hdirectory => ?_) ?_
  · rintro s ⟨rfl, rfl⟩
    have hscan := (scanEntries_triple failing s.activeArtifacts now s.directory [] 0
      hdistinct (Nat.zero_le _)).conseq (fun _ h => h) (fun _ _ h => h)
      (fun _ t h => hfailed (fun _ => h.2) t.directory h.1)
    refine Triple.bind _ hscan (fun collected => ?_) s hholds
    rintro t ⟨h, hscanned, hcompleted, htotal⟩
    obtain ⟨completed, total⟩ := collected
    dsimp only at hcompleted htotal ⊢
    rw [List.nil_append] at hcompleted
    rw [hcompleted, htotal]
    refine Triple.bind _ (hevict hdirectory hscanned) (fun projected => ?_) t h
    refine Triple.onlyIf (fun hfull => Triple.throw fun u hu => ?_) fun hroom u hu => ?_
    · rwa [if_pos hfull] at hu
    · rwa [if_neg hroom] at hu
  · rintro hdirectory s ⟨-, rfl⟩
    exact hfailed (fun h => nomatch hdirectory.symm.trans h) _ hholds

theorem evict_spared (failing : Failing) {P : RawSpoolStore → Prop} {remaining : List SpoolEntry}
    {projected : Nat}
    (hspared : targetBeforeNew < projected → ∀ entry, remaining.head? = some entry →
      failing (.removeFile entry.name) = true) :
    Triple P (evict failing remaining projected) (fun _ => P) (fun _ => P) := by
  cases remaining with
  | nil => exact Triple.pure fun _ => id
  | cons entry rest =>
    refine Triple.ite (fun _ => Triple.pure fun _ => id) fun hfull => ?_
    have hfails := hspared (Nat.not_le.mp hfull) entry rfl
    refine Triple.bindAttempt (fun _ => True) (fun _ _ => trivial) (fun hremove => ?_) fun _ _ => id
    rw [hfails] at hremove
    cases hremove

theorem create_spared {request : CreateCall} {store : RawSpoolStore} {kept : List SpoolEntry}
    (hholds : Holds kept store.directory)
    (hkept : ∀ other ∈ kept, request.now - other.modified < artifactTtl)
    (hspared : ¬Evicts request store) :
    Triple (fun s => s = store) (create request) (fun _ _ => True)
      (fun _ s => Holds kept s.directory) := by
  refine create_triple ⟨fun _ _ h _ hfresh => h.concat hfresh⟩ (fun _ h => h) (fun _ => hholds) ?_
  intro hexecution hmedia hdecision
  refine enforceRetentionInner_triple hholds hkept (fun _ _ h => h) ?_
  intro hdirectory hscanned
  refine (evict_spared _ ?_).conseq (fun _ h => h) (fun _ _ h => by rwa [ite_self])
    fun _ _ h => h
  intro hfull entry hentry
  by_contra hremove
  exact hspared ⟨hexecution, hmedia, hdecision, hdirectory, hscanned,
    startingProjection_full.mp hfull, entry, hentry, by simpa using hremove⟩

def Gone (entry : SpoolEntry) (directory : List SpoolEntry) : Prop :=
  ∀ other ∈ directory, other.name ≠ entry.name

/-- What goes by the name of the entry, if anything, is without bytes. -/
def Blank (entry : SpoolEntry) (directory : List SpoolEntry) : Prop :=
  ∀ other ∈ directory, other.name = entry.name → other.length = 0

theorem Gone.blank {entry : SpoolEntry} {directory : List SpoolEntry} (h : Gone entry directory) :
    Blank entry directory :=
  fun other hother hname => absurd hname (h other hother)

theorem Gone.remove {entry : SpoolEntry} {directory : List SpoolEntry} (h : Gone entry directory)
    (name : Bytes) : Gone entry (directory.filter fun other => other.name ≠ name) :=
  fun other hother => h other (List.mem_filter.mp hother).1

theorem gone_removed (entry : SpoolEntry) (directory : List SpoolEntry) :
    Gone entry (directory.filter fun other => other.name ≠ entry.name) :=
  fun _ hother => by simpa using (List.mem_filter.mp hother).2

/-- While the eviction runs: its first artifact is gone, and so is one with bytes
once the projection has come down. -/
structure Taking (all : List SpoolEntry) (first : SpoolEntry) (start projected : Nat)
    (directory : List SpoolEntry) : Prop where
  first : Gone first directory
  sized : projected < start → ∃ entry ∈ all, 0 < entry.length ∧ Gone entry directory

theorem Taking.remove {all : List SpoolEntry} {first entry : SpoolEntry} {start projected : Nat}
    {directory : List SpoolEntry} (h : Taking all first start projected directory)
    (hentry : entry ∈ all) :
    Taking all first start (projected - entry.length)
      (directory.filter fun other => other.name ≠ entry.name) := by
  refine ⟨h.first.remove entry.name, fun hless => ?_⟩
  by_cases hearlier : projected < start
  · obtain ⟨other, hother, hlength, hgone⟩ := h.sized hearlier
    exact ⟨other, hother, hlength, hgone.remove entry.name⟩
  · exact ⟨entry, hentry, by omega, gone_removed entry directory⟩

theorem evict_taking (failing : Failing) {all : List SpoolEntry} {first : SpoolEntry}
    {start : Nat} (remaining : List SpoolEntry) (hremaining : ∀ entry ∈ remaining, entry ∈ all)
    (projected : Nat) :
    Triple (fun s => Taking all first start projected s.directory)
      (evict failing remaining projected)
      (fun projected s => Taking all first start projected s.directory)
      (fun _ s => Gone first s.directory) := by
  induction remaining generalizing projected with
  | nil => exact Triple.pure fun _ => id
  | cons entry rest ih =>
    refine Triple.ite (fun _ => Triple.pure fun _ => id) fun _ => ?_
    refine Triple.bind
      (fun _ s => Taking all first start (projected - entry.length) s.directory)
      (Triple.attempt ?_ ?_) fun _ => ?_
    · exact fun _ s h => h.remove (hremaining entry List.mem_cons_self)
    · exact fun _ s h => h.first
    · exact ih (fun other hother => hremaining other (List.mem_cons_of_mem _ hother)) _

theorem evict_takes {failing : Failing} {remaining : List SpoolEntry} {first : SpoolEntry}
    {start : Nat} (hfirst : remaining.head? = some first)
    (hremove : failing (.removeFile first.name) = false) (hfull : targetBeforeNew < start) :
    Triple (fun _ => True) (evict failing remaining start)
      (fun projected s => Taking remaining first start projected s.directory)
      (fun _ s => Gone first s.directory) := by
  obtain ⟨rest, rfl⟩ := List.head?_eq_some_iff.mp hfirst
  refine Triple.ite (fun hroom => absurd hroom (Nat.not_le.mpr hfull)) fun _ => ?_
  refine Triple.bindAttempt
    (fun s => Taking (first :: rest) first start (start - first.length) s.directory) ?_ ?_ ?_
  · intro s _
    refine ⟨gone_removed first s.directory, fun hless => ?_⟩
    exact ⟨first, List.mem_cons_self, by omega, gone_removed first s.directory⟩
  · exact fun _ => evict_taking failing rest (fun _ => List.mem_cons_of_mem _) _
  · intro hfails
    rw [hremove] at hfails
    cases hfails

/-- An artifact of the list is not in the directory any more, or had bytes and
is there without any. -/
def Lost (completed directory : List SpoolEntry) : Prop :=
  ∃ entry ∈ completed, Gone entry directory ∨ (0 < entry.length ∧ Blank entry directory)

/-- Retention that succeeds has taken an artifact that had bytes. -/
def LostBytes (completed directory : List SpoolEntry) : Prop :=
  ∃ entry ∈ completed, 0 < entry.length ∧ Blank entry directory

theorem lostBytes_stable (completed : List SpoolEntry) : Stable (LostBytes completed) := by
  refine ⟨?_⟩
  rintro directory added ⟨entry, hentry, hlength, hblank⟩ hempty -
  refine ⟨entry, hentry, hlength, fun other hother hname => ?_⟩
  rcases List.mem_append.mp hother with hold | hnew
  · exact hblank other hold hname
  · rw [List.mem_singleton.mp hnew]
    exact hempty

theorem create_takes {request : CreateCall} {store : RawSpoolStore}
    (hnames : (store.directory.map SpoolEntry.name).Nodup) (h : Evicts request store) :
    Triple (fun s => s = store) (create request) (fun _ _ => True)
      (fun _ s => Lost (completedArtifacts store request.now) s.directory) := by
  refine create_triple (lostBytes_stable (completedArtifacts store request.now)) ?_ ?_ ?_
  · rintro directory ⟨entry, hentry, hlost⟩
    exact ⟨entry, hentry, .inr hlost⟩
  · exact fun hrejected => absurd ⟨h.execution, h.media, h.decision⟩ hrejected
  intro _ _ _
  have hholds : Holds [] store.directory := ⟨hnames, nofun⟩
  refine enforceRetentionInner_triple hholds nofun ?_ ?_
  · intro hfails
    rw [h.scanned] at hfails
    cases hfails h.directory
  intro _ _
  obtain ⟨first, hfirst, hremove⟩ := h.oldest
  have hmem : ∀ entry ∈ (completedArtifacts store request.now).mergeSort olderOrSame,
      entry ∈ completedArtifacts store request.now :=
    fun entry => (List.mergeSort_perm _ _).mem_iff.mp
  have hfirstMem := hmem first (List.mem_of_mem_head? hfirst)
  refine (evict_takes hfirst hremove (startingProjection_full.mpr h.full)).conseq
    (fun _ _ => trivial) ?_ fun _ s hgone => ⟨first, hfirstMem, .inl hgone⟩
  intro projected s htaking
  split
  · exact ⟨first, hfirstMem, .inl htaking.first⟩
  · rename_i hroom
    have hfull := startingProjection_full.mpr h.full
    obtain ⟨entry, hentry, hlength, hgone⟩ := htaking.sized (by omega)
    exact ⟨entry, hmem entry hentry, hlength, hgone.blank⟩

def unexpired (store : RawSpoolStore) (now : Nat) : List SpoolEntry :=
  store.directory.filter fun entry =>
    !store.activeArtifacts.contains entry.name && decide (now - entry.modified < artifactTtl)

theorem mem_unexpired {store : RawSpoolStore} {now : Nat} {entry : SpoolEntry} :
    entry ∈ unexpired store now ↔ entry ∈ store.directory ∧ entry.name ∉ store.activeArtifacts ∧
      now - entry.modified < artifactTtl := by
  simp [unexpired]

theorem artifactsKept_of_holds {contents : Contents} {now : Nat} {before after : RawSpoolStore}
    (hnames : (before.directory.map SpoolEntry.name).Nodup)
    (h : Holds (unexpired before now) after.directory) :
    ArtifactsKept contents now before after := by
  intro entry hentry hactive hfresh failing offset maxBytes result hread
  have hkept := h.kept entry (mem_unexpired.mpr ⟨hentry, hactive, hfresh⟩)
  have hsame : entry? after entry.name = entry? before entry.name := by
    rw [entry?_of_mem h.names hkept, entry?_of_mem hnames hentry]
  rw [read_congr offset maxBytes hsame, hread]

theorem not_artifactsKept_of_lost {contents : Contents} {now : Nat}
    {before after : RawSpoolStore} (hnames : (before.directory.map SpoolEntry.name).Nodup)
    (h : Lost (completedArtifacts before now) after.directory) :
    ¬ArtifactsKept contents now before after := by
  intro hkept
  obtain ⟨entry, hmem, hlost⟩ := h
  obtain ⟨hentry, hcollected⟩ := List.mem_filter.mp hmem
  simp only [isCollected, Bool.and_eq_true, Bool.not_eq_true', List.contains_eq_mem,
    decide_eq_true_eq, decide_eq_false_iff_not] at hcollected
  obtain ⟨⟨⟨hisOk, hregular⟩, hactive⟩, hfresh⟩ := hcollected
  have hvalid : validateArtifactId entry.name = .ok () := by
    unfold validateArtifactId at hisOk ⊢
    split at hisOk
    · rename_i hid
      rw [if_pos hid]
    · cases hisOk
  have hbefore := @read_ok contents before entry hvalid hregular (entry?_of_mem hnames hentry)
  have hafter := hkept entry hentry hactive hfresh _ _ _ _ hbefore
  obtain ⟨other, hother, hresult⟩ := readInner_ok (readInner_of_read hafter)
  have hname : other.name = entry.name := by simpa using List.find?_some hother
  have hpresent : other ∈ after.directory := List.mem_of_find?_eq_some hother
  rcases hlost with hgone | ⟨hlength, hblank⟩
  · exact hgone other hpresent hname
  · have hread := congrArg ArtifactReadResult.bytesRead hresult
    simp only [readResult, List.drop_zero, List.length_take, contents.length_bytes,
      hblank other hpresent hname] at hread
    omega

/-- A failing call keeps the completed artifacts unless its retention takes one:
what is taken to make room is not given back when nothing is created. -/
theorem create_artifactsKept_iff (contents : Contents) {request : CreateCall}
    {store after : RawSpoolStore} {error : RawSpoolError}
    (hnames : (store.directory.map SpoolEntry.name).Nodup)
    (hfailed : create request store = .error error after) :
    ArtifactsKept contents request.now store after ↔ ¬Evicts request store := by
  constructor
  · intro hkept hevicts
    exact not_artifactsKept_of_lost hnames ((create_takes hnames hevicts).error rfl hfailed) hkept
  · intro hspared
    have hholds : Holds (unexpired store request.now) store.directory :=
      ⟨hnames, fun entry hentry => (mem_unexpired.mp hentry).1⟩
    have hfresh : ∀ other ∈ unexpired store request.now,
        request.now - other.modified < artifactTtl :=
      fun other hother => (mem_unexpired.mp hother).2.2
    exact artifactsKept_of_holds hnames ((create_spared hholds hfresh hspared).error rfl hfailed)

section Keeping

variable {P : RawSpoolStore → Prop} (hP : ∀ s name, P s → P (s.removeEntry name))
include hP

theorem scanEntries_keeps (failing : Failing) (active : List Bytes) (now : Nat)
    (rest completed : List SpoolEntry) (total : Nat) :
    Triple P (scanEntries failing active now rest completed total) (fun _ => P)
      (fun _ _ => True) := by
  induction rest generalizing completed total with
  | nil => exact Triple.pure fun _ => id
  | cons entry rest ih =>
    have hread : ∀ this, Triple P (call failing this .io) (fun _ => P) (fun _ _ => True) :=
      fun _ => Triple.attempt (fun _ _ => id) fun _ _ _ => trivial
    refine Triple.bind _ (hread _) fun _ => Triple.ite (fun _ => ?_) fun _ => ih _ _
    refine Triple.bind _ (hread _) fun _ => Triple.ite (fun _ => ?_) fun _ => ih _ _
    refine Triple.ite (fun _ => ih _ _) fun _ => Triple.ite (fun _ => ?_) fun _ => ih _ _
    exact Triple.bind (fun _ => P)
      (Triple.attempt (fun _ s => hP s entry.name) fun _ _ _ => trivial) fun _ => ih _ _

theorem evict_keeps (failing : Failing) (remaining : List SpoolEntry) (projected : Nat) :
    Triple P (evict failing remaining projected) (fun _ => P) (fun _ _ => True) := by
  induction remaining generalizing projected with
  | nil => exact Triple.pure fun _ => id
  | cons entry rest ih =>
    refine Triple.ite (fun _ => Triple.pure fun _ => id) fun _ => ?_
    exact Triple.bind (fun _ => P)
      (Triple.attempt (fun _ s => hP s entry.name) fun _ _ _ => trivial) fun _ => ih _

theorem enforceRetention_keeps (failing : Failing) (now : Nat) :
    Triple P (enforceRetention failing now) (fun _ => P) (fun _ _ => True) := by
  have hcall : ∀ this error, Triple P (call failing this error) (fun _ => P) (fun _ _ => True) :=
    fun _ _ => Triple.attempt (fun _ _ => id) fun _ _ _ => trivial
  have hinner : Triple P (enforceRetentionInner failing now) (fun _ => P) (fun _ _ => True) := by
    refine Triple.bindGet fun seen => ?_
    refine Triple.bind (fun _ => P) ((hcall _ _).weaken fun _ h => h.2) fun _ => ?_
    refine Triple.bind _ (scanEntries_keeps hP _ _ _ _ _ _) fun ⟨completed, total⟩ => ?_
    refine Triple.bind _ (evict_keeps hP _ _ _) fun projected => ?_
    exact Triple.onlyIf (fun _ => Triple.throw fun _ _ => trivial) fun _ _ => id
  refine Triple.bind _ (hcall _ _) fun _ => Triple.bind _ hinner.observe fun result => ?_
  cases result with
  | ok value => exact Triple.bind _ (hcall _ _) fun _ => Triple.pure fun _ => id
  | error error =>
    refine Triple.bind (fun _ _ => True) (Triple.attempt ?_ ?_) fun _ =>
      Triple.throw fun _ _ => trivial
    · exact fun _ _ _ => trivial
    · exact fun _ _ _ => trivial

end Keeping

theorem create_refused {request : CreateCall} {store : RawSpoolStore} {error : RawSpoolError}
    (hinvalid : validateExecutionId request.executionId = .error error) :
    create request store = .error error store := by
  unfold create
  rw [hinvalid]
  rfl

theorem create_duplicate {request : CreateCall} {store : RawSpoolStore}
    (hissued : request.executionId ∈ store.issuedExecutions) :
    ∃ error after, create request store = .error error after := by
  have hfails : Triple (fun s => request.executionId ∈ s.issuedExecutions) (create request)
      (fun _ _ => False) (fun _ _ => True) := by
    refine Triple.bind (fun _ s => request.executionId ∈ s.issuedExecutions)
      (Triple.ofExcept (fun _ _ _ => id) fun _ _ _ _ => trivial) fun _ => ?_
    refine Triple.bind (fun _ s => request.executionId ∈ s.issuedExecutions)
      (Triple.ofExcept (fun _ _ _ => id) fun _ _ _ _ => trivial) fun _ => ?_
    refine Triple.bind _ (enforceRetention_keeps (fun _ _ => id) _ _) fun _ => ?_
    refine Triple.bindGet fun seen => ?_
    refine Triple.bind (fun _ _ => False) (Triple.onlyIf ?_ ?_) fun _ _ h => h.elim
    · exact fun _ => Triple.throw fun _ _ => trivial
    · rintro hnew s ⟨rfl, h⟩
      exact hnew h
  cases hrun : create request store with
  | ok value after => exact (hfails.ok hissued hrun).elim
  | error error after => exact ⟨error, after, rfl⟩

def oldArtifact : SpoolEntry :=
  { name := [107, 97, 95, 65], regular := true, length := rawSpoolSourceCapBytes, modified := 0 }

def busyArtifact (index : Nat) : Bytes := [107, 97, 95, (97 + index).toUInt8]

def busyExecution (index : Nat) : Bytes := [101, 120, 95, (97 + index).toUInt8]

def busySpool : RawSpoolStore :=
  { directory := oldArtifact :: (List.range 15).map fun index =>
      { name := busyArtifact index, regular := true, length := 0, modified := 0 }
    activeArtifacts := (List.range 15).map busyArtifact
    issuedExecutions := (List.range 15).map busyExecution
    writers := (List.range 15).map fun index =>
      { artifactId := busyArtifact index, mediaType := utf8 "text/plain", bytesWritten := 0,
        sourceTruncated := false }
    nextSequence := 17 }

def createAgain (executionId : Bytes) : CreateCall :=
  { executionId := executionId, mediaType := utf8 "text/plain", now := 1, clock := fun _ => 1,
    failing := fun _ => false }

def zeroBytes : Contents :=
  ⟨fun entry => List.replicate entry.length 0, fun _ => List.length_replicate⟩

theorem busySpool_names : (busySpool.directory.map SpoolEntry.name).Nodup := by
  decide

theorem createAgain_evicts : Evicts (createAgain (busyExecution 0)) busySpool := by
  have hcompleted : completedArtifacts busySpool 1 = [oldArtifact] := by decide +kernel
  have hfull : targetBeforeNew < projectedBytes busySpool 1 := by
    rw [projectedBytes, hcompleted]
    decide
  refine ⟨by decide +kernel, by decide +kernel, rfl, rfl, by decide +kernel, hfull, ?_⟩
  refine ⟨oldArtifact, ?_, rfl⟩
  show ((completedArtifacts busySpool 1).mergeSort olderOrSame).head? = some oldArtifact
  rw [hcompleted, List.mergeSort_singleton]
  rfl

theorem createRefused_artifactsKept_iff :
    ArtifactsKept zeroBytes 1 busySpool busySpool ↔ ¬Evicts (createAgain []) busySpool :=
  create_artifactsKept_iff zeroBytes busySpool_names
    (@create_refused (createAgain []) busySpool .invalidExecutionId (by decide +kernel))

/-- The artifact that makes room for a duplicate is lost. -/
theorem createAgain_not_artifactsKept :
    ¬∀ (contents : Contents) (request : CreateCall) (store after : RawSpoolStore)
      (error : RawSpoolError), (store.directory.map SpoolEntry.name).Nodup →
      create request store = .error error after →
      ArtifactsKept contents request.now store after := by
  intro hall
  have hissued : busyExecution 0 ∈ busySpool.issuedExecutions := by decide
  obtain ⟨error, after, hrun⟩ := @create_duplicate (createAgain (busyExecution 0)) _ hissued
  have htaken := (create_takes busySpool_names createAgain_evicts).error rfl hrun
  exact not_artifactsKept_of_lost busySpool_names htaken
    (hall zeroBytes _ _ _ _ busySpool_names hrun)

end KodeGpt.SpoolEvictions
