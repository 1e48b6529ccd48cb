import KodeGpt.JsObjects
import KodeGpt.TerminatedLines

/-!
Unified patches: how a patch is parsed into files and hunks, and how hunks are applied
to a text. A line keeps its ending.
-/

namespace KodeGpt.UnifiedPatches

open JsFrames JsObjects TerminatedLines

inductive LineKind where
  | context
  | remove
  | add
  deriving DecidableEq, Repr

structure PatchLine where
  kind : LineKind
  text : JsText
  deriving DecidableEq, Repr

structure ParsedHunk where
  oldStart : Nat
  oldCount : Nat
  newStart : Nat
  newCount : Nat
  lines : List PatchLine
  deriving DecidableEq, Repr

inductive PatchFileAction where
  | create
  | update
  | delete
  deriving DecidableEq, Repr

structure ParsedFile where
  path : JsText
  action : PatchFileAction
  hunks : List ParsedHunk
  deriving DecidableEq, Repr

/-- `CapabilityError` with its code. -/
inductive PatchError where
  | inputInvalid (message : String)
  | limitExceeded (message : String)
  | preconditionFailed (message : String)
  deriving DecidableEq, Repr

def maxPatchFiles : Nat := 64
def maxPatchHunks : Nat := 256

def lineFeed : UInt16 := 10
def carriageReturn : UInt16 := 13
def space : UInt16 := 32
def comma : UInt16 := 44
def slash : UInt16 := 47
def tab : UInt16 := 9

def splitLinesPreservingEndings (value : JsText) : List JsText := linesOf lineFeed value

def controlText (line : JsText) : JsText :=
  if [carriageReturn, lineFeed].isSuffixOf line then line.take (line.length - 2)
  else if [lineFeed].isSuffixOf line then line.dropLast
  else line

/-- `text.includes(part)`. -/
def includes (part : JsText) : JsText → Bool
  | [] => part.isEmpty
  | code :: rest => part.isPrefixOf (code :: rest) || includes part rest

def unsupportedMarkers : List JsText :=
  [asciiUnits "GIT binary patch", asciiUnits "Binary files ", asciiUnits "rename from ",
    asciiUnits "rename to ", asciiUnits "copy from ", asciiUnits "copy to "]

def validatePatchPath (path : JsText) : Bool :=
  !(path.isEmpty || path.head? = some slash || path.contains 0 ||
    (path.splitOn slash).any fun segment => segment = [] || segment = [46] || segment = [46, 46])

/-- There is no path where the side is `/dev/null`. -/
def parseHeaderPath (line start sidePrefix : JsText) : Except PatchError (Option JsText) :=
  let raw := line.drop start.length
  if raw.contains tab then
    .error (.inputInvalid "Patch header timestamps are unsupported in v1")
  else if raw = asciiUnits "/dev/null" then .ok none
  else if sidePrefix.isPrefixOf raw then
    if validatePatchPath (raw.drop 2) then .ok (some (raw.drop 2))
    else .error (.inputInvalid "Patch path is not a safe relative path")
  else .error (.inputInvalid "Patch path must use canonical a/ and b/ prefixes")

def resolveFileAction (oldPath newPath : Option JsText) :
    Except PatchError (JsText × PatchFileAction) :=
  match oldPath, newPath with
  | none, some path => .ok (path, .create)
  | some path, none => .ok (path, .delete)
  | some path, some other =>
    if path = other then .ok (path, .update)
    else .error (.inputInvalid "Patch rename/copy operations are unsupported in v1")
  | none, none => .error (.inputInvalid "Patch rename/copy operations are unsupported in v1")

def isDigit (code : UInt16) : Bool := 48 ≤ code && code ≤ 57

/-- `Number`, of decimal digits. -/
def decimalValue (digits : JsText) : Nat :=
  digits.foldl (fun value code => 10 * value + (code.toNat - 48)) 0

/-- `\d+`, and what follows. -/
def readNumber (text : JsText) : Option (Nat × JsText) :=
  if text.takeWhile isDigit = [] then none
  else some (decimalValue (text.takeWhile isDigit), text.dropWhile isDigit)

/-- `(?:,(\d+))?`, which stands for 1 where it is left out. -/
def readCount (text : JsText) : Nat × JsText :=
  match text with
  | code :: rest => if code = comma then (readNumber rest).getD (1, text) else (1, text)
  | [] => (1, [])

def stripStart (start text : JsText) : Option JsText :=
  if start.isPrefixOf text then some (text.drop start.length) else none

/-- What `.` does not match. -/
def isLineTerminator (code : UInt16) : Bool :=
  code = 10 || code = 13 || code = 8232 || code = 8233

/-- `(?: .*)?$`. -/
def isHeaderEnd (text : JsText) : Bool :=
  match text with
  | [] => true
  | code :: rest => code = space && rest.all fun other => !isLineTerminator other

structure HunkRange where
  oldStart : Nat
  oldCount : Nat
  newStart : Nat
  newCount : Nat
  deriving DecidableEq, Repr

def readRange (header : JsText) : Option HunkRange := do
  let rest ← stripStart (asciiUnits "@@ -") header
  let (oldStart, rest) ← readNumber rest
  let (oldCount, rest) := readCount rest
  let rest ← stripStart (asciiUnits " +") rest
  let (newStart, rest) ← readNumber rest
  let (newCount, rest) := readCount rest
  let rest ← stripStart (asciiUnits " @@") rest
  if isHeaderEnd rest then some { oldStart, oldCount, newStart, newCount } else none

def HunkRange.isValid (range : HunkRange) : Bool :=
  decide (range.oldStart ≤ maxSafeInteger) && decide (range.oldCount ≤ maxSafeInteger) &&
    decide (range.newStart ≤ maxSafeInteger) && decide (range.newCount ≤ maxSafeInteger) &&
    (range.oldCount = 0 || decide (1 ≤ range.oldStart)) &&
    (range.newCount = 0 || decide (1 ≤ range.newStart))

def noNewlineMarker : JsText := asciiUnits "\\ No newline at end of file"

def LineKind.sign : LineKind → UInt16
  | context => 32
  | remove => 45
  | add => 43

def LineKind.all : List LineKind := [.context, .remove, .add]

def readLine (raw : JsText) : Option PatchLine :=
  match raw with
  | [] => none
  | code :: text => (LineKind.all.find? fun kind => kind.sign = code).map fun kind => ⟨kind, text⟩

def LineKind.isOld (kind : LineKind) : Bool := kind != .add

def LineKind.isNew (kind : LineKind) : Bool := kind != .remove

def parseBody (oldCount newCount : Nat) (oldSeen newSeen : Nat) (body : List PatchLine) :
    List JsText → Except PatchError (List PatchLine × List JsText)
  | [] =>
    if oldSeen < oldCount ∨ newSeen < newCount then
      .error (.inputInvalid "Patch hunk body is truncated")
    else .ok (body, [])
  | raw :: rest =>
    if oldSeen < oldCount ∨ newSeen < newCount then
      if noNewlineMarker.isPrefixOf raw then
        .error (.inputInvalid "No-newline patch markers are unsupported in v1")
      else
        match readLine raw with
        | none => .error (.inputInvalid "Patch hunk contains an invalid line prefix")
        | some line =>
          let oldSeen := oldSeen + line.kind.isOld.toNat
          let newSeen := newSeen + line.kind.isNew.toNat
          if oldCount < oldSeen ∨ newCount < newSeen then
            .error (.inputInvalid "Patch hunk line counts exceed the declared range")
          else parseBody oldCount newCount oldSeen newSeen (body ++ [line]) rest
    else .ok (body, raw :: rest)

def parseHunk (header : JsText) (rest : List JsText) :
    Except PatchError (ParsedHunk × List JsText) :=
  match readRange (controlText header) with
  | none => .error (.inputInvalid "Patch hunk range is malformed")
  | some range =>
    if range.isValid then do
      let (lines, rest) ← parseBody range.oldCount range.newCount 0 0 [] rest
      return (⟨range.oldStart, range.oldCount, range.newStart, range.newCount, lines⟩, rest)
    else .error (.inputInvalid "Patch hunk range is invalid")

/-- The hunks of a file. The limit is on the hunks of the whole patch. The fuel is
more than there are lines. -/
def parseHunks : Nat → List JsText → Nat → List ParsedHunk →
    Except PatchError (List ParsedHunk × Nat × List JsText)
  | _, [], totalHunks, hunks => .ok (hunks, totalHunks, [])
  | 0, lines, totalHunks, hunks => .ok (hunks, totalHunks, lines)
  | fuel + 1, line :: rest, totalHunks, hunks =>
    if (asciiUnits "@@").isPrefixOf (controlText line) then
      if maxPatchHunks < totalHunks + 1 then
        .error (.limitExceeded "Patch exceeds the maximum hunk count")
      else do
        let (hunk, rest) ← parseHunk line rest
        parseHunks fuel rest (totalHunks + 1) (hunks ++ [hunk])
    else .ok (hunks, totalHunks, line :: rest)

structure ParseState where
  files : List ParsedFile
  seenPaths : List JsText
  totalHunks : Nat

def parseFile (fuel : Nat) (control : JsText) (rest : List JsText) (state : ParseState) :
    Except PatchError (ParseState × List JsText) :=
  if (asciiUnits "--- ").isPrefixOf control then do
    let oldPath ← parseHeaderPath control (asciiUnits "--- ") (asciiUnits "a/")
    match rest with
    | [] => .error (.inputInvalid "Patch is missing the new-file header")
    | second :: rest =>
      if (asciiUnits "+++ ").isPrefixOf (controlText second) then do
        let newPath ← parseHeaderPath (controlText second) (asciiUnits "+++ ") (asciiUnits "b/")
        let (path, action) ← resolveFileAction oldPath newPath
        if state.seenPaths.contains path then
          .error (.inputInvalid "Patch contains the same path more than once")
        else if maxPatchFiles < state.files.length + 1 then
          .error (.limitExceeded "Patch exceeds the maximum file count")
        else do
          let (hunks, totalHunks, rest) ← parseHunks fuel rest state.totalHunks []
          if hunks.isEmpty then .error (.inputInvalid "Patch file contains no hunks")
          else
            return (⟨state.files ++ [⟨path, action, hunks⟩], state.seenPaths ++ [path],
              totalHunks⟩, rest)
      else .error (.inputInvalid "Patch is missing the new-file header")
  else .error (.inputInvalid "Patch file header is malformed")

def parseFiles : Nat → List JsText → ParseState → Except PatchError (List ParsedFile)
  | _, [], state => .ok state.files
  | 0, _, state => .ok state.files
  | fuel + 1, line :: rest, state =>
    if controlText line = [] ∨ (asciiUnits "diff --git ").isPrefixOf (controlText line) then
      parseFiles fuel rest state
    else do
      let (state, rest) ← parseFile fuel (controlText line) rest state
      parseFiles fuel rest state

def parseUnifiedPatch (patch : JsText) : Except PatchError (List ParsedFile) :=
  if unsupportedMarkers.any fun marker => includes marker patch then
    .error (.inputInvalid "Patch contains unsupported metadata")
  else do
    let lines := splitLinesPreservingEndings patch
    let files ← parseFiles lines.length lines ⟨[], [], 0⟩
    if files.isEmpty then .error (.inputInvalid "Patch contains no files")
    else return files

def ParsedHunk.oldTarget (hunk : ParsedHunk) : Nat :=
  if hunk.oldCount = 0 then hunk.oldStart else hunk.oldStart - 1

def ParsedHunk.newTarget (hunk : ParsedHunk) : Nat :=
  if hunk.newCount = 0 then hunk.newStart else hunk.newStart - 1

structure ApplyState where
  output : List JsText
  sourceCursor : Nat
  cumulativeDelta : Int

def applyLine (source : List JsText) (state : ApplyState) (line : PatchLine) :
    Except PatchError ApplyState :=
  if line.kind = .add then .ok { state with output := state.output ++ [line.text] }
  else if source[state.sourceCursor]? = some line.text then
    .ok { state with
      output := if line.kind = .context then state.output ++ [line.text] else state.output
      sourceCursor := state.sourceCursor + 1 }
  else .error (.preconditionFailed "Patch hunk text does not match current content")

def applyHunk (source : List JsText) (state : ApplyState) (hunk : ParsedHunk) :
    Except PatchError ApplyState :=
  if (hunk.newTarget : Int) ≠ hunk.oldTarget + state.cumulativeDelta ∨
      hunk.oldTarget < state.sourceCursor ∨ source.length < hunk.oldTarget then
    .error (.preconditionFailed "Patch hunk position does not match current content")
  else do
    let kept := (source.take hunk.oldTarget).drop state.sourceCursor
    let state ← hunk.lines.foldlM (applyLine source)
      { state with output := state.output ++ kept, sourceCursor := hunk.oldTarget }
    return { state with
      cumulativeDelta := state.cumulativeDelta + (hunk.newCount - hunk.oldCount : Int) }

def applyHunks (current : JsText) (hunks : List ParsedHunk) : Except PatchError JsText := do
  let source := splitLinesPreservingEndings current
  let state ← hunks.foldlM (applyHunk source) ⟨[], 0, 0⟩
  return (state.output ++ source.drop state.sourceCursor).flatten

end KodeGpt.UnifiedPatches
