import KodeGpt.TextEncodings

/-!
The status of a repository, as `git status --porcelain=v2 -z --branch` prints it
and as the runtime parses what it has captured of it.
-/

namespace KodeGpt.GitStatus

open JsonText TextEncodings

inductive RecordType where
  | ordinary
  | rename
  | unmerged
  | untracked
  deriving DecidableEq, Repr

inductive PathIdentityKind where
  | file
  | directory
  | symlink
  | other
  deriving DecidableEq, Repr

@[ext]
structure PathIdentityResult where
  present : Bool
  kind : Option PathIdentityKind
  sizeBytes : Option Nat
  sha256 : Option Bytes
  hashTruncated : Bool
  deriving DecidableEq, Repr

@[ext]
structure CheckpointRecord where
  recordType : RecordType
  path : Bytes
  originalPath : Option Bytes
  indexStatus : Option UInt8
  worktreeStatus : Option UInt8
  headMode : Option Bytes
  indexMode : Option Bytes
  worktreeMode : Option Bytes
  headOid : Option Bytes
  indexOid : Option Bytes
  stage1Oid : Option Bytes
  stage2Oid : Option Bytes
  stage3Oid : Option Bytes
  currentIdentity : Option PathIdentityResult
  deriving DecidableEq, Repr

inductive StatusError where
  | invalidCheckpointStatus
  | checkpointIdentityUnavailable
  deriving DecidableEq, Repr

def space : UInt8 := 32

def checkpointMaxRecords : Nat := 10000

def checkpointStatusMaxBytes : Nat := 4 * 1024 * 1024

/-- `splitn`, with the number of cuts. -/
def splitSpaces : Nat → Bytes → List Bytes
  | 0, text => [text]
  | cuts + 1, text =>
    match text.span (· ≠ space) with
    | (front, _ :: rest) => front :: splitSpaces cuts rest
    | (front, []) => [front]

def isLowerHex (byte : UInt8) : Bool :=
  (48 ≤ byte && byte ≤ 57) || (97 ≤ byte && byte ≤ 102)

def isObjectId (value : Bytes) : Bool :=
  (value.length = 40 || value.length = 64) && value.all isLowerHex

def isLineEnd (byte : UInt8) : Bool := byte = 13 || byte = 10

def trimLineEnds (text : Bytes) : Bytes := (text.reverse.dropWhile isLineEnd).reverse

def parseRepositoryHeadOid (text : Bytes) : Option Bytes :=
  if validUtf8 text && isObjectId (trimLineEnds text) then some (trimLineEnds text) else none

def isGraphic (byte : UInt8) : Bool := 33 ≤ byte && byte ≤ 126

def normalizeStatus (value : UInt8) : Option UInt8 := if value = 46 then none else some value

def parseXy : Bytes → Option (Option UInt8 × Option UInt8)
  | [index, worktree] =>
    if isGraphic index && isGraphic worktree then
      some (normalizeStatus index, normalizeStatus worktree)
    else none
  | _ => none

def plainRecord (recordType : RecordType) (path : Bytes) : CheckpointRecord where
  recordType := recordType
  path := path
  originalPath := none
  indexStatus := none
  worktreeStatus := none
  headMode := none
  indexMode := none
  worktreeMode := none
  headOid := none
  indexOid := none
  stage1Oid := none
  stage2Oid := none
  stage3Oid := none
  currentIdentity := none

def trackedRecord (xy : Bytes) (record : CheckpointRecord) : Option CheckpointRecord :=
  match parseXy xy with
  | some (indexStatus, worktreeStatus) =>
    if record.path.isEmpty then none else some { record with indexStatus, worktreeStatus }
  | none => none

def parseOrdinaryRecord (field : Bytes) : Option CheckpointRecord :=
  match splitSpaces 8 field with
  | [_, xy, _, headMode, indexMode, worktreeMode, headOid, indexOid, path] =>
    trackedRecord xy { plainRecord .ordinary path with
      headMode := headMode, indexMode := indexMode, worktreeMode := worktreeMode
      headOid := headOid, indexOid := indexOid }
  | _ => none

def isScore (score : Bytes) : Bool := score.head? = some 82 || score.head? = some 67

def parseRenameRecord (field : Bytes) : Option CheckpointRecord :=
  match splitSpaces 9 field with
  | [_, xy, _, headMode, indexMode, worktreeMode, headOid, indexOid, score, path] =>
    if isScore score then
      trackedRecord xy { plainRecord .rename path with
        headMode := headMode, indexMode := indexMode, worktreeMode := worktreeMode
        headOid := headOid, indexOid := indexOid }
    else none
  | _ => none

def parseUnmergedRecord (field : Bytes) : Option CheckpointRecord :=
  match splitSpaces 10 field with
  | [_, xy, _, mode1, mode2, _, worktreeMode, oid1, oid2, oid3, path] =>
    trackedRecord xy { plainRecord .unmerged path with
      headMode := mode1, indexMode := mode2, worktreeMode := worktreeMode
      stage1Oid := oid1, stage2Oid := oid2, stage3Oid := oid3 }
  | _ => none

def untrackedRecord (path : Bytes) : CheckpointRecord :=
  { plainRecord .untracked path with worktreeStatus := some 63 }

/-- `pending` is a rename that waits for its original path. -/
structure Parsed where
  headOid : Option Bytes
  records : List CheckpointRecord
  pending : Option CheckpointRecord
  truncated : Bool

inductive Field where
  | headOid (value : Bytes)
  | skipped
  | record (record : CheckpointRecord)
  | rename (record : CheckpointRecord)
  | invalid

def branchOid : Bytes := utf8 "branch.oid "

def fieldOf (record : Option CheckpointRecord) (kind : CheckpointRecord → Field) : Field :=
  match record with
  | some record => kind record
  | none => .invalid

/-- The first two bytes tell the kind of a field: the headers begin with a hash, and
an exclamation mark, a question mark, `1`, `2` and `u` stand before the paths. -/
def readField (field : Bytes) : Field :=
  match field with
  | 35 :: 32 :: header =>
    if branchOid.isPrefixOf header then .headOid (header.drop branchOid.length) else .skipped
  | 33 :: 32 :: _ => .skipped
  | 63 :: 32 :: path => if path.isEmpty then .invalid else .record (untrackedRecord path)
  | 49 :: 32 :: _ => fieldOf (parseOrdinaryRecord field) .record
  | 50 :: 32 :: _ => fieldOf (parseRenameRecord field) .rename
  | 117 :: 32 :: _ => fieldOf (parseUnmergedRecord field) .record
  | _ => .invalid

def parseFields (sourceTruncated : Bool) : List Bytes → Parsed → Option Parsed
  | [], found =>
    match found.pending with
    | none => some found
    | some _ => if sourceTruncated then some { found with truncated := true } else none
  | field :: rest, found =>
    match found.pending with
    | some record =>
      if validUtf8 field then
        parseFields sourceTruncated rest { found with
          records := found.records ++ [{ record with originalPath := field }]
          pending := none }
      else none
    | none =>
      if checkpointMaxRecords ≤ found.records.length then some { found with truncated := true }
      else if validUtf8 field then
        match readField field with
        | .headOid value =>
          match found.headOid, parseRepositoryHeadOid value with
          | none, some headOid =>
            parseFields sourceTruncated rest { found with headOid }
          | _, _ => none
        | .skipped => parseFields sourceTruncated rest found
        | .record record =>
          parseFields sourceTruncated rest
            { found with records := found.records ++ [record] }
        | .rename record => parseFields sourceTruncated rest { found with pending := record }
        | .invalid => none
      else none

def completeFields (text : Bytes) (sourceTruncated : Bool) : Option (List Bytes) :=
  let fields := text.splitOn 0
  if text.isEmpty || text.getLast? = some 0 then some fields.dropLast
  else if sourceTruncated then some fields.dropLast
  else none

def parseCheckpointStatus (text : Bytes) (sourceTruncated : Bool) :
    Option (Bytes × List CheckpointRecord × Bool) := do
  let fields ← completeFields text sourceTruncated
  let found ← parseFields sourceTruncated fields ⟨none, [], none, sourceTruncated⟩
  let headOid ← found.headOid
  some (headOid, found.records, found.truncated)

/-- A part of a line that ends at the next space. -/
abbrev Word := { text : Bytes // space ∉ text ∧ (0 : UInt8) ∉ text }

/-- What ends at the next NUL. -/
abbrev PathText := { text : Bytes // text ≠ [] ∧ (0 : UInt8) ∉ text }

abbrev StatusLetter := { value : UInt8 // isGraphic value = true }

/-- Both letters, the state of a submodule and the mode in the worktree. -/
structure Change where
  index : StatusLetter
  worktree : StatusLetter
  submodule : Word
  worktreeMode : Word

structure TrackedSides where
  headMode : Word
  indexMode : Word
  headOid : Word
  indexOid : Word

structure Stages where
  mode1 : Word
  mode2 : Word
  mode3 : Word
  oid1 : Word
  oid2 : Word
  oid3 : Word

/-- A path that git reports; the score of a rename is a letter and digits. -/
inductive StatusEntry where
  | ordinary (change : Change) (sides : TrackedSides) (path : PathText)
  | renamed (change : Change) (sides : TrackedSides) (copied : Bool) (similarity : Word)
      (path original : PathText)
  | unmerged (change : Change) (stages : Stages) (path : PathText)
  | untracked (path : PathText)

def words (parts : List Bytes) (path : Bytes) : Bytes :=
  parts.flatMap (· ++ [space]) ++ path

namespace Change

def xy (change : Change) : Bytes := [change.index.val, change.worktree.val]

end Change

namespace StatusEntry

def path : StatusEntry → Bytes
  | ordinary _ _ path | renamed _ _ _ _ path _ | unmerged _ _ path | untracked path => path.val

def scoreLetter (copied : Bool) : UInt8 := if copied then 67 else 82

def fields : StatusEntry → List Bytes
  | ordinary change sides path =>
    [words [[49], change.xy, change.submodule.val, sides.headMode.val, sides.indexMode.val,
      change.worktreeMode.val, sides.headOid.val, sides.indexOid.val] path.val]
  | renamed change sides copied similarity path original =>
    [words [[50], change.xy, change.submodule.val, sides.headMode.val, sides.indexMode.val,
        change.worktreeMode.val, sides.headOid.val, sides.indexOid.val,
        scoreLetter copied :: similarity.val] path.val, original.val]
  | unmerged change stages path =>
    [words [[117], change.xy, change.submodule.val, stages.mode1.val, stages.mode2.val,
      stages.mode3.val, change.worktreeMode.val, stages.oid1.val, stages.oid2.val,
      stages.oid3.val] path.val]
  | untracked path => [words [[63]] path.val]

def record : StatusEntry → CheckpointRecord
  | ordinary change sides path =>
    { plainRecord .ordinary path.val with
      indexStatus := normalizeStatus change.index.val
      worktreeStatus := normalizeStatus change.worktree.val
      headMode := sides.headMode.val, indexMode := sides.indexMode.val
      worktreeMode := change.worktreeMode.val
      headOid := sides.headOid.val, indexOid := sides.indexOid.val }
  | renamed change sides _ _ path original =>
    { plainRecord .rename path.val with
      originalPath := original.val
      indexStatus := normalizeStatus change.index.val
      worktreeStatus := normalizeStatus change.worktree.val
      headMode := sides.headMode.val, indexMode := sides.indexMode.val
      worktreeMode := change.worktreeMode.val
      headOid := sides.headOid.val, indexOid := sides.indexOid.val }
  | unmerged change stages path =>
    { plainRecord .unmerged path.val with
      indexStatus := normalizeStatus change.index.val
      worktreeStatus := normalizeStatus change.worktree.val
      headMode := stages.mode1.val, indexMode := stages.mode2.val
      worktreeMode := change.worktreeMode.val
      stage1Oid := stages.oid1.val, stage2Oid := stages.oid2.val
      stage3Oid := stages.oid3.val }
  | untracked path => untrackedRecord path.val

end StatusEntry

/-- A header that is not the object id of the branch. -/
abbrev Header :=
  { text : Bytes // branchOid.isPrefixOf text = false ∧ (0 : UInt8) ∉ text }

/-- Everything that git prints of a repository with these paths. -/
structure StatusReport where
  branch : { text : Bytes // (0 : UInt8) ∉ text }
  headers : List Header
  entries : List StatusEntry

namespace StatusReport

def fields (report : StatusReport) : List Bytes :=
  (35 :: 32 :: (branchOid ++ report.branch.val)) ::
    report.headers.map (fun header => 35 :: 32 :: header.val) ++
    report.entries.flatMap StatusEntry.fields

def text (report : StatusReport) : Bytes :=
  report.fields.flatMap (· ++ [0])

end StatusReport

theorem splitSpaces_word (cuts : Nat) {word : Bytes} (hword : space ∉ word) (rest : Bytes) :
    splitSpaces (cuts + 1) (word ++ space :: rest) = word :: splitSpaces cuts rest := by
  rw [splitSpaces, span_append_cons hword]

theorem splitSpaces_words {parts : List Bytes} (hparts : ∀ part ∈ parts, space ∉ part)
    (path : Bytes) : splitSpaces parts.length (words parts path) = parts ++ [path] := by
  induction parts with
  | nil => rfl
  | cons part rest ih =>
    have hrest := ih fun later hlater => hparts later (List.mem_cons_of_mem _ hlater)
    have hwords : words (part :: rest) path = part ++ space :: words rest path := by
      simp [words]
    rw [hwords, List.length_cons, splitSpaces_word _ (hparts part List.mem_cons_self), hrest,
      List.cons_append]

theorem space_notMem_xy (change : Change) : space ∉ change.xy := by
  have hne : ∀ letter : StatusLetter, space ≠ letter.val := by
    rintro ⟨value, hgraphic⟩ rfl
    cases hgraphic
  simp [Change.xy, hne]

theorem trackedRecord_xy (change : Change) {record : CheckpointRecord} (hpath : record.path ≠ []) :
    trackedRecord change.xy record = some { record with
      indexStatus := normalizeStatus change.index.val
      worktreeStatus := normalizeStatus change.worktree.val } := by
  have hxy : parseXy change.xy = some (normalizeStatus change.index.val,
      normalizeStatus change.worktree.val) := by
    rw [Change.xy, parseXy, change.index.property, change.worktree.property]
    rfl
  have hempty : record.path.isEmpty = false := by
    cases hpath' : record.path with
    | nil => exact absurd hpath' hpath
    | cons first rest => rfl
  simp [trackedRecord, hxy, hempty]

theorem space_notMem_word (word : Word) : space ∉ word.val := word.property.1

theorem readField_ordinary (change : Change) (sides : TrackedSides) (path : PathText) :
    readField (words [[49], change.xy, change.submodule.val, sides.headMode.val,
      sides.indexMode.val, change.worktreeMode.val, sides.headOid.val, sides.indexOid.val]
        path.val) = .record (StatusEntry.ordinary change sides path).record := by
  have hparts : ∀ part ∈ [[49], change.xy, change.submodule.val, sides.headMode.val,
      sides.indexMode.val, change.worktreeMode.val, sides.headOid.val, sides.indexOid.val],
      space ∉ part := by
    simp [space_notMem_xy, space_notMem_word, -Subtype.forall]
    decide
  have hparsed : parseOrdinaryRecord (words [[49], change.xy, change.submodule.val,
      sides.headMode.val, sides.indexMode.val, change.worktreeMode.val, sides.headOid.val,
      sides.indexOid.val] path.val) = some (StatusEntry.ordinary change sides path).record := by
    have hsplit := splitSpaces_words hparts path.val
    simp only [List.length_cons, List.length_nil, Nat.zero_add, Nat.reduceAdd, List.cons_append,
      List.nil_append] at hsplit
    rw [parseOrdinaryRecord, hsplit]
    exact trackedRecord_xy change path.property.1
  show fieldOf (parseOrdinaryRecord _) .record = _
  rw [hparsed]
  rfl

theorem readField_rename (change : Change) (sides : TrackedSides) (copied : Bool)
    (similarity : Word) (path original : PathText) :
    readField (words [[50], change.xy, change.submodule.val, sides.headMode.val,
      sides.indexMode.val, change.worktreeMode.val, sides.headOid.val, sides.indexOid.val,
      StatusEntry.scoreLetter copied :: similarity.val] path.val) =
        .rename { (StatusEntry.renamed change sides copied similarity path original).record with
          originalPath := none } := by
  have hparts : ∀ part ∈ [[50], change.xy, change.submodule.val, sides.headMode.val,
      sides.indexMode.val, change.worktreeMode.val, sides.headOid.val, sides.indexOid.val,
      StatusEntry.scoreLetter copied :: similarity.val], space ∉ part := by
    have hletter : space ≠ StatusEntry.scoreLetter copied := by
      cases copied <;> decide
    simp [space_notMem_xy, space_notMem_word, hletter, -Subtype.forall]
    decide
  have hscore : isScore (StatusEntry.scoreLetter copied :: similarity.val) = true := by
    cases copied <;> rfl
  have hparsed : parseRenameRecord (words [[50], change.xy, change.submodule.val,
      sides.headMode.val, sides.indexMode.val, change.worktreeMode.val, sides.headOid.val,
      sides.indexOid.val, StatusEntry.scoreLetter copied :: similarity.val] path.val) =
        some { (StatusEntry.renamed change sides copied similarity path original).record with
          originalPath := none } := by
    have hsplit := splitSpaces_words hparts path.val
    simp only [List.length_cons, List.length_nil, Nat.zero_add, Nat.reduceAdd, List.cons_append,
      List.nil_append] at hsplit
    rw [parseRenameRecord, hsplit]
    dsimp only
    rw [if_pos hscore]
    exact trackedRecord_xy change path.property.1
  show fieldOf (parseRenameRecord _) .rename = _
  rw [hparsed]
  rfl

theorem readField_unmerged (change : Change) (stages : Stages) (path : PathText) :
    readField (words [[117], change.xy, change.submodule.val, stages.mode1.val, stages.mode2.val,
      stages.mode3.val, change.worktreeMode.val, stages.oid1.val, stages.oid2.val,
      stages.oid3.val] path.val) = .record (StatusEntry.unmerged change stages path).record := by
  have hparts : ∀ part ∈ [[117], change.xy, change.submodule.val, stages.mode1.val,
      stages.mode2.val, stages.mode3.val, change.worktreeMode.val, stages.oid1.val,
      stages.oid2.val, stages.oid3.val], space ∉ part := by
    simp [space_notMem_xy, space_notMem_word, -Subtype.forall]
    decide
  have hparsed : parseUnmergedRecord (words [[117], change.xy, change.submodule.val,
      stages.mode1.val, stages.mode2.val, stages.mode3.val, change.worktreeMode.val,
      stages.oid1.val, stages.oid2.val, stages.oid3.val] path.val) =
        some (StatusEntry.unmerged change stages path).record := by
    have hsplit := splitSpaces_words hparts path.val
    simp only [List.length_cons, List.length_nil, Nat.zero_add, Nat.reduceAdd, List.cons_append,
      List.nil_append] at hsplit
    rw [parseUnmergedRecord, hsplit]
    exact trackedRecord_xy change path.property.1
  show fieldOf (parseUnmergedRecord _) .record = _
  rw [hparsed]
  rfl

theorem readField_untracked (path : PathText) :
    readField (words [[63]] path.val) = .record (StatusEntry.untracked path).record := by
  have hempty : path.val.isEmpty = false := by
    cases hpath : path.val with
    | nil => exact absurd hpath path.property.1
    | cons first rest => rfl
  show (if path.val.isEmpty then Field.invalid else .record (untrackedRecord path.val)) = _
  rw [hempty]
  rfl

/-- A parse of fields that have all been captured. -/
def Parses (fields : List Bytes) (found later : Parsed) : Prop :=
  parseFields false fields found = some later

section Parses

variable {field : Bytes} {rest : List Bytes} {found later : Parsed} {record : CheckpointRecord}

theorem Parses.cons (h : Parses (field :: rest) found later) (hpending : found.pending = none)
    (hroom : found.records.length < checkpointMaxRecords) :
    validUtf8 field = true ∧ match readField field with
    | .headOid value => ∃ headOid, parseRepositoryHeadOid value = some headOid ∧
        found.headOid = none ∧ Parses rest { found with headOid := some headOid } later
    | .skipped => Parses rest found later
    | .record record => Parses rest { found with records := found.records ++ [record] } later
    | .rename record => Parses rest { found with pending := some record } later
    | .invalid => False := by
  obtain ⟨oid, records, pending, truncated⟩ := found
  obtain rfl : pending = none := hpending
  rw [Parses, parseFields] at h
  dsimp only at h
  rw [if_neg (Nat.not_le.mpr hroom)] at h
  split at h
  · rename_i hvalid
    refine ⟨hvalid, ?_⟩
    cases hread : readField field with
    | headOid value =>
      rw [hread] at h
      dsimp only at h
      split at h
      · rename_i headOid hvalue
        exact ⟨headOid, hvalue, rfl, h⟩
      · cases h
    | skipped =>
      rw [hread] at h
      exact h
    | record record =>
      rw [hread] at h
      exact h
    | rename record =>
      rw [hread] at h
      exact h
    | invalid =>
      rw [hread] at h
      cases h
  · cases h

theorem Parses.original (h : Parses (field :: rest) found later)
    (hpending : found.pending = some record) :
    validUtf8 field = true ∧ Parses rest { found with
      records := found.records ++ [{ record with originalPath := some field }]
      pending := none } later := by
  rw [Parses, parseFields, hpending] at h
  dsimp only at h
  split at h
  · exact ⟨‹_›, h⟩
  · cases h

theorem Parses.entry (entry : StatusEntry) (h : Parses (entry.fields ++ rest) found later)
    (hpending : found.pending = none) (hroom : found.records.length < checkpointMaxRecords) :
    (∀ field ∈ entry.fields, validUtf8 field = true) ∧
      Parses rest { found with records := found.records ++ [entry.record] } later := by
  cases entry with
  | ordinary change sides path =>
    obtain ⟨hvalid, hcons⟩ := h.cons hpending hroom
    rw [readField_ordinary] at hcons
    exact ⟨List.forall_mem_singleton.mpr hvalid, hcons⟩
  | renamed change sides copied similarity path original =>
    obtain ⟨hvalid, hcons⟩ := h.cons hpending hroom
    rw [readField_rename change sides copied similarity path original] at hcons
    obtain ⟨hvalid', horiginal⟩ := Parses.original hcons rfl
    rw [← hpending] at horiginal
    exact ⟨List.forall_mem_cons.mpr ⟨hvalid, List.forall_mem_singleton.mpr hvalid'⟩, horiginal⟩
  | unmerged change stages path =>
    obtain ⟨hvalid, hcons⟩ := h.cons hpending hroom
    rw [readField_unmerged] at hcons
    exact ⟨List.forall_mem_singleton.mpr hvalid, hcons⟩
  | untracked path =>
    obtain ⟨hvalid, hcons⟩ := h.cons hpending hroom
    rw [readField_untracked] at hcons
    exact ⟨List.forall_mem_singleton.mpr hvalid, hcons⟩

theorem Parses.entries (entries : List StatusEntry)
    (h : Parses (entries.flatMap StatusEntry.fields) found later) (hpending : found.pending = none)
    (hroom : found.records.length + entries.length ≤ checkpointMaxRecords) :
    (∀ entry ∈ entries, ∀ field ∈ entry.fields, validUtf8 field = true) ∧
      later = { found with records := found.records ++ entries.map StatusEntry.record } := by
  induction entries generalizing found with
  | nil =>
    rw [Parses, List.flatMap_nil, parseFields, hpending] at h
    obtain rfl := Option.some.inj h
    exact ⟨nofun, by rw [List.map_nil, List.append_nil]⟩
  | cons entry rest ih =>
    rw [List.length_cons] at hroom
    rw [List.flatMap_cons] at h
    obtain ⟨hvalid, hrest⟩ := h.entry entry hpending (by omega)
    obtain ⟨hlater, rfl⟩ := ih hrest hpending (by
      dsimp only
      rw [List.length_append, List.length_singleton]
      omega)
    refine ⟨List.forall_mem_cons.mpr ⟨hvalid, hlater⟩, ?_⟩
    rw [List.map_cons, List.append_assoc, List.singleton_append]

theorem Parses.headers (headers : List Header) {fields : List Bytes}
    (h : Parses (headers.map (fun header => 35 :: 32 :: header.val) ++ fields) found later)
    (hpending : found.pending = none) (hroom : found.records.length < checkpointMaxRecords) :
    Parses fields found later := by
  induction headers with
  | nil => exact h
  | cons header rest ih =>
    obtain ⟨-, hcons⟩ := h.cons hpending hroom
    have hread : readField (35 :: 32 :: header.val) = .skipped := by
      show (if branchOid.isPrefixOf header.val then _ else _) = _
      rw [header.property.1]
      rfl
    rw [hread] at hcons
    exact ih hcons

end Parses

end KodeGpt.GitStatus
