import Mathlib.Algebra.BigOperators.Group.List.Basic
import KodeGpt.FallibleActions
import KodeGpt.RpcResponses

/-!
The raw spool: artifact files in one directory, the writers that are active, and
the retention that makes room before a new artifact is created. A file is known
by its length; its bytes are left out.
-/

namespace KodeGpt.RawSpool

open FallibleActions JsonText RpcResponses

def rawSpoolSourceCapBytes : Nat := 64 * 1024 * 1024

def artifactAggregateCapBytes : Nat := 1024 * 1024 * 1024

def artifactTtl : Nat := 24 * 60 * 60 * 1000000000

structure SpoolEntry where
  name : Bytes
  regular : Bool
  length : Nat
  modified : Nat
  deriving DecidableEq

/-- A `RawSpoolWriter`, with the fields of its metadata that are not fixed. -/
structure RawSpoolWriter where
  artifactId : Bytes
  mediaType : Bytes
  bytesWritten : Nat
  sourceTruncated : Bool
  deriving DecidableEq

/-- The store, the writers it has handed out, and the directory. The last field
is the process-wide counter of artifact ids. -/
structure RawSpoolStore where
  directory : List SpoolEntry
  activeArtifacts : List Bytes
  issuedExecutions : List Bytes
  writers : List RawSpoolWriter
  nextSequence : Nat
  deriving DecidableEq

/-- The calls of `create` that can fail. The attempts of `openFile` are counted
down, and it fails for another reason than that the file exists. -/
inductive SpoolCall where
  | cleanupDecision
  | cleanupOutcome
  | readDirectory
  | readEntry (name : Bytes)
  | readMetadata (name : Bytes)
  | removeFile (name : Bytes)
  | createDecision
  | createOutcome
  | openFile (attempt : Nat)
  | setPermissions
  deriving DecidableEq

abbrev Failing := SpoolCall → Bool

abbrev Action := EStateM RawSpoolError RawSpoolStore

def call (failing : Failing) (this : SpoolCall) (error : RawSpoolError)
    (effect : RawSpoolStore → RawSpoolStore := id) : Action Unit :=
  attempt (failing this) error effect

def maxU64 : Nat := 2 ^ 64 - 1

def saturatingAdd (a b : Nat) : Nat := min (a + b) maxU64

def saturatingMul (a b : Nat) : Nat := min (a * b) maxU64

def hexText (value : Nat) : Bytes :=
  if value < 16 then [hexDigit value.toUInt8]
  else hexText (value / 16) ++ [hexDigit (value % 16).toUInt8]
termination_by value

def isIdByte (byte : UInt8) : Bool :=
  (48 ≤ byte && byte ≤ 57) || (65 ≤ byte && byte ≤ 90) || (97 ≤ byte && byte ≤ 122) ||
    byte == 95 || byte == 45

/-- The shape that execution and artifact ids share: a prefix, and one or more
id bytes. -/
def validId (idPrefix value : Bytes) : Bool :=
  match value.dropPrefix? idPrefix with
  | none => false
  | some suffix => !suffix.isEmpty && value.length ≤ 96 && suffix.all isIdByte

def validateExecutionId (executionId : Bytes) : Except RawSpoolError Unit :=
  if validId (utf8 "ex_") executionId then .ok () else .error .invalidExecutionId

def validateArtifactId (artifactId : Bytes) : Except RawSpoolError Unit :=
  if validId (utf8 "ka_") artifactId then .ok () else .error .invalidArtifactId

def validateMediaType (mediaType : Bytes) : Except RawSpoolError Unit :=
  if mediaType.isEmpty || mediaType.length > 255 || mediaType.any (128 ≤ ·) ||
      mediaType.any (fun byte => byte < 32 || byte == 127) then
    .error .invalidMediaType
  else .ok ()

def nextArtifactId (timestamp sequence : Nat) : Bytes :=
  utf8 "ka_" ++ hexText (timestamp % 2 ^ 128) ++ utf8 "_" ++ hexText (sequence % 2 ^ 64)

theorem hexDigit_isIdByte {value : Nat} (hvalue : value < 16) :
    isIdByte (hexDigit value.toUInt8) = true := by
  have hall : ∀ value : Fin 16, isIdByte (hexDigit value.val.toUInt8) = true := by decide
  exact hall ⟨value, hvalue⟩

theorem hexText_all (value : Nat) : (hexText value).all isIdByte = true := by
  induction value using hexText.induct with
  | case1 value hvalue =>
    rw [hexText, if_pos hvalue]
    simp [hexDigit_isIdByte hvalue]
  | case2 value hvalue ih =>
    rw [hexText, if_neg hvalue, List.all_append, ih]
    simp [hexDigit_isIdByte (Nat.mod_lt value (by decide : 0 < 16))]

theorem hexText_ne_nil (value : Nat) : hexText value ≠ [] := by
  rw [hexText]
  split <;> simp

theorem hexText_length {count value : Nat} (hvalue : value < 16 ^ (count + 1)) :
    (hexText value).length ≤ count + 1 := by
  induction count generalizing value with
  | zero =>
    rw [hexText, if_pos (by simpa using hvalue)]
    simp
  | succ count ih =>
    rw [hexText]
    split
    · simp
    · have hquotient : value / 16 < 16 ^ (count + 1) := by
        apply Nat.div_lt_of_lt_mul
        rw [Nat.mul_comm, ← Nat.pow_succ]
        exact hvalue
      simpa using ih hquotient

theorem validId_append {idPrefix suffix : Bytes} (hsuffix : suffix ≠ [])
    (hall : suffix.all isIdByte = true) (hlength : (idPrefix ++ suffix).length ≤ 96) :
    validId idPrefix (idPrefix ++ suffix) = true := by
  have hdrop : (idPrefix ++ suffix).dropPrefix? idPrefix = some suffix := by
    rw [List.dropPrefix?_eq_some_iff]
    exact ⟨idPrefix, rfl, beq_self_eq_true idPrefix⟩
  have hnonempty : suffix.isEmpty = false := by simpa using hsuffix
  rw [List.length_append] at hlength
  simp [validId, hdrop, hnonempty, hall, hlength]

theorem nextArtifactId_valid (timestamp sequence : Nat) :
    validateArtifactId (nextArtifactId timestamp sequence) = .ok () := by
  have htime : (hexText (timestamp % 2 ^ 128)).length ≤ 32 :=
    @hexText_length 31 _ (Nat.mod_lt _ (by decide))
  have hcount : (hexText (sequence % 2 ^ 64)).length ≤ 16 :=
    @hexText_length 15 _ (Nat.mod_lt _ (by decide))
  have hprefix : (utf8 "ka_").length = 3 := by decide +kernel
  have hmark : utf8 "_" = [95] := by decide +kernel
  have hvalid : validId (utf8 "ka_") (nextArtifactId timestamp sequence) = true := by
    rw [nextArtifactId, List.append_assoc, List.append_assoc, hmark]
    apply validId_append
    · simp [hexText_ne_nil]
    · rw [List.all_append, List.all_append, hexText_all, hexText_all]
      rfl
    · simp only [List.length_append, List.length_singleton]
      omega
  rw [validateArtifactId, if_pos hvalid]

namespace RawSpoolStore

def isActive (store : RawSpoolStore) (name : Bytes) : Bool :=
  store.activeArtifacts.contains name

def hasEntry (store : RawSpoolStore) (name : Bytes) : Bool :=
  store.directory.any fun entry => entry.name == name

def removeEntry (name : Bytes) (store : RawSpoolStore) : RawSpoolStore :=
  { store with directory := store.directory.filter fun entry => entry.name ≠ name }

def addEntry (name : Bytes) (modified : Nat) (store : RawSpoolStore) : RawSpoolStore :=
  { store with
    directory := store.directory ++
      [{ name := name, regular := true, length := 0, modified := modified }] }

/-- `fetch_add` on the counter of artifact ids. -/
def countSequence (store : RawSpoolStore) : RawSpoolStore :=
  { store with nextSequence := store.nextSequence + 1 }

def activate (name : Bytes) (store : RawSpoolStore) : RawSpoolStore :=
  { store with activeArtifacts := store.activeArtifacts.insert name }

def deactivate (name : Bytes) (store : RawSpoolStore) : RawSpoolStore :=
  { store with activeArtifacts := store.activeArtifacts.filter fun active => active ≠ name }

def issue (executionId : Bytes) (writer : RawSpoolWriter) (store : RawSpoolStore) :
    RawSpoolStore :=
  { store with
    issuedExecutions := store.issuedExecutions.insert executionId
    writers := writer :: store.writers }

end RawSpoolStore

/-- The scan of the directory: expired artifacts go, the other completed ones are
collected with their bytes. `active` is the set as it was when the scan
began. -/
def scanEntries (failing : Failing) (active : List Bytes) (now : Nat) :
    List SpoolEntry → List SpoolEntry → Nat → Action (List SpoolEntry × Nat)
  | [], completed, completedBytes => pure (completed, completedBytes)
  | entry :: rest, completed, completedBytes => do
    call failing (.readEntry entry.name) .io
    if (validateArtifactId entry.name).isOk then do
      call failing (.readMetadata entry.name) .io
      if entry.regular then
        if active.contains entry.name then
          scanEntries failing active now rest completed completedBytes
        else if artifactTtl ≤ now - entry.modified then do
          call failing (.removeFile entry.name) .io (RawSpoolStore.removeEntry entry.name)
          scanEntries failing active now rest completed completedBytes
        else
          scanEntries failing active now rest (completed ++ [entry])
            (saturatingAdd completedBytes entry.length)
      else scanEntries failing active now rest completed completedBytes
    else scanEntries failing active now rest completed completedBytes

def targetBeforeNew : Nat := artifactAggregateCapBytes - rawSpoolSourceCapBytes

/-- Remove artifacts from the front of the list until the projection is within
the target. -/
def evict (failing : Failing) : List SpoolEntry → Nat → Action Nat
  | [], projected => pure projected
  | entry :: rest, projected =>
    if projected ≤ targetBeforeNew then pure projected
    else do
      call failing (.removeFile entry.name) .io (RawSpoolStore.removeEntry entry.name)
      evict failing rest (projected - entry.length)

def olderOrSame (left right : SpoolEntry) : Bool :=
  left.modified < right.modified || (left.modified == right.modified && !(right.name < left.name))

def enforceRetentionInner (failing : Failing) (now : Nat) : Action Unit := do
  let store ← get
  call failing .readDirectory .io
  let (completed, completedBytes) ←
    scanEntries failing store.activeArtifacts now store.directory [] 0
  let activeReservation := saturatingMul store.activeArtifacts.length rawSpoolSourceCapBytes
  let projected ←
    evict failing (completed.mergeSort olderOrSame) (saturatingAdd completedBytes activeReservation)
  onlyIf (targetBeforeNew < projected) (throw .quotaExceeded)

def enforceRetention (failing : Failing) (now : Nat) : Action Unit := do
  call failing .cleanupDecision .auditUnavailable
  let result ← observing (enforceRetentionInner failing now)
  call failing .cleanupOutcome .auditUnavailable
  MonadExcept.ofExcept result

/-- `clock` is the time at which an attempt to create the file is made, by the
attempts that are left. -/
structure CreateCall where
  executionId : Bytes
  mediaType : Bytes
  now : Nat
  clock : Nat → Nat
  failing : Failing

def createFile (failing : Failing) (clock : Nat → Nat) : Nat → Action Bytes
  | 0 => throw .io
  | left + 1 => do
    let store ← get
    let artifactId := nextArtifactId (clock left) store.nextSequence
    modify RawSpoolStore.countSequence
    call failing (.openFile left) .io
    if store.hasEntry artifactId then createFile failing clock left
    else do
      modify (RawSpoolStore.addEntry artifactId (clock left))
      call failing .setPermissions .io
      pure artifactId

/-- `create_file` under the outcome of its audit: when it fails, the failure is
recorded first. -/
def createAudited (failing : Failing) (clock : Nat → Nat) : Action Bytes := do
  match ← observing (createFile failing clock 8) with
  | .ok artifactId => pure artifactId
  | .error error => do
    call failing .createOutcome .auditUnavailable
    throw error

def giveUp (failing : Failing) (artifactId : Bytes) (store : RawSpoolStore) : RawSpoolStore :=
  if failing (.removeFile artifactId) then store.deactivate artifactId
  else (store.deactivate artifactId).removeEntry artifactId

def create (request : CreateCall) : Action RawSpoolWriter := do
  MonadExcept.ofExcept (validateExecutionId request.executionId)
  MonadExcept.ofExcept (validateMediaType request.mediaType)
  enforceRetention request.failing request.now
  let store ← get
  onlyIf (request.executionId ∈ store.issuedExecutions) (throw .duplicateExecution)
  call request.failing .createDecision .auditUnavailable
  let artifactId ← createAudited request.failing request.clock
  modify (RawSpoolStore.activate artifactId)
  onError (call request.failing .createOutcome .auditUnavailable)
    (giveUp request.failing artifactId)
  let writer : RawSpoolWriter :=
    { artifactId := artifactId, mediaType := request.mediaType, bytesWritten := 0,
      sourceTruncated := false }
  modify (RawSpoolStore.issue request.executionId writer)
  pure writer

/-- What `write_source` takes of a source of this length. -/
def RawSpoolWriter.accepted (writer : RawSpoolWriter) (source : Nat) : Nat :=
  min (rawSpoolSourceCapBytes - writer.bytesWritten) source

namespace RawSpoolStore

def writer? (store : RawSpoolStore) (artifactId : Bytes) : Option RawSpoolWriter :=
  store.writers.find? fun writer => writer.artifactId == artifactId

def changeWriter (artifactId : Bytes) (change : RawSpoolWriter → RawSpoolWriter)
    (store : RawSpoolStore) : RawSpoolStore :=
  { store with
    writers := store.writers.map fun writer =>
      if writer.artifactId = artifactId then change writer else writer }

/-- The file is longer by `count` bytes, written at `now`. -/
def growFile (artifactId : Bytes) (count now : Nat) (store : RawSpoolStore) : RawSpoolStore :=
  { store with
    directory := store.directory.map fun entry =>
      if entry.name = artifactId then
        { entry with length := entry.length + count, modified := now }
      else entry }

/-- `Drop`: the artifact of the writer is no longer active. -/
def dropWriter (artifactId : Bytes) (store : RawSpoolStore) : RawSpoolStore :=
  { store.deactivate artifactId with
    writers := store.writers.filter fun writer => writer.artifactId ≠ artifactId }

end RawSpoolStore

/-- Where `write_all` stops, when it fails: after fewer bytes than it was given. -/
abbrev StopsAfter := Option Nat

def writtenBytes (accepted : Nat) : StopsAfter → Nat
  | none => accepted
  | some written => if written < accepted then written else accepted

def writeFails (accepted : Nat) : StopsAfter → Bool
  | none => false
  | some written => written < accepted

/-- A source is given by its length. The count of the writer moves on only when
all that was accepted is in the file. -/
def writeSource (writer : RawSpoolWriter) (source : Nat) (stopsAfter : StopsAfter) (now : Nat) :
    Action Nat := do
  let accepted := writer.accepted source
  onlyIf (accepted < source)
    (modify (RawSpoolStore.changeWriter writer.artifactId fun writer =>
      { writer with sourceTruncated := true }))
  if accepted = 0 then pure 0
  else do
    modify (RawSpoolStore.growFile writer.artifactId (writtenBytes accepted stopsAfter) now)
    onlyIf (writeFails accepted stopsAfter) (throw .io)
    modify (RawSpoolStore.changeWriter writer.artifactId fun writer =>
      { writer with bytesWritten := writer.bytesWritten + accepted })
    pure accepted

def finish (writer : RawSpoolWriter) (syncFails : Bool) : Action RawSpoolWriter := do
  modify (RawSpoolStore.dropWriter writer.artifactId)
  onlyIf syncFails (throw .io)
  pure writer

/-- Another process opens the store: the directory is what is left of the one
before. -/
def reopen (store : RawSpoolStore) : RawSpoolStore :=
  { directory := store.directory, activeArtifacts := [], issuedExecutions := [], writers := [],
    nextSequence := 1 }

end KodeGpt.RawSpool
