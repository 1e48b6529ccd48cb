import KodeGpt.PatchSplices

/-!
Patches as they are written: the headers of a file, the header of a hunk and its lines,
each line with its ending. What is parsed of such a text.
-/

namespace KodeGpt.PatchRenderings

open JsFrames JsObjects TerminatedLines UnifiedPatches PatchSplices
open FallibleActions (bind_eq_ok_iff)

/-- With a line `diff --git` or without, and with a count of 1 or without. -/
structure Style where
  gitLine : Bool
  brief : Bool

def decimalText (value : Nat) : JsText :=
  (Nat.toDigits 10 value).map fun digit => digit.toNat.toUInt16

def rangeText (brief : Bool) (start count : Nat) : JsText :=
  decimalText start ++ if brief = true ∧ count = 1 then [] else comma :: decimalText count

def hunkHeader (brief : Bool) (hunk : ParsedHunk) : JsText :=
  asciiUnits "@@ -" ++ rangeText brief hunk.oldStart hunk.oldCount ++ asciiUnits " +" ++
    rangeText brief hunk.newStart hunk.newCount ++ asciiUnits " @@"

def endLine (line : JsText) : JsText := line ++ [lineFeed]

def renderHunk (brief : Bool) (hunk : ParsedHunk) : List JsText :=
  endLine (hunkHeader brief hunk) :: hunk.lines.map rawLine

def oldSide (file : ParsedFile) : JsText :=
  if file.action = .create then asciiUnits "/dev/null" else asciiUnits "a/" ++ file.path

def newSide (file : ParsedFile) : JsText :=
  if file.action = .delete then asciiUnits "/dev/null" else asciiUnits "b/" ++ file.path

def gitLine (file : ParsedFile) : JsText :=
  asciiUnits "diff --git a/" ++ file.path ++ asciiUnits " b/" ++ file.path

def renderFile (style : Style) (file : ParsedFile) : List JsText :=
  (if style.gitLine then [endLine (gitLine file)] else []) ++
    endLine (asciiUnits "--- " ++ oldSide file) :: endLine (asciiUnits "+++ " ++ newSide file) ::
      file.hunks.flatMap (renderHunk style.brief)

def renderLines (style : ParsedFile → Style) (files : List ParsedFile) : List JsText :=
  files.flatMap fun file => renderFile (style file) file

def renderPatch (style : ParsedFile → Style) (files : List ParsedFile) : JsText :=
  (renderLines style files).flatten

/-- The counts of a hunk are right, its numbers are safe and its lines are ended. -/
structure HunkChange (hunk : ParsedHunk) : Prop where
  consistent : Consistent hunk
  oldStart : hunk.oldStart ≤ maxSafeInteger
  oldCount : hunk.oldCount ≤ maxSafeInteger
  newStart : hunk.newStart ≤ maxSafeInteger
  newCount : hunk.newCount ≤ maxSafeInteger
  ended : ∀ line ∈ hunk.lines, Ended lineFeed line.text

structure FileChange (file : ParsedFile) : Prop where
  path : validatePatchPath file.path = true
  hunks : ∀ hunk ∈ file.hunks, HunkChange hunk
  nonempty : file.hunks ≠ []

theorem digit_unit {digit : Char} (hdigit : digit.isDigit = true) :
    (digit.toNat.toUInt16).toNat = digit.toNat ∧ isDigit digit.toNat.toUInt16 = true := by
  have hrange : 48 ≤ digit.toNat ∧ digit.toNat ≤ 57 := Char.isDigit_iff_toNat.mp hdigit
  have hsmall : digit.toNat < 65536 := by omega
  have hvalue : (digit.toNat.toUInt16).toNat = digit.toNat :=
    UInt16.toNat_ofNat_of_lt' hsmall
  refine ⟨hvalue, ?_⟩
  simp only [isDigit, Bool.and_eq_true, decide_eq_true_eq, UInt16.le_iff_toNat_le, hvalue,
    UInt16.reduceToNat]
  exact hrange

theorem isDigit_toDigits {value : Nat} {digit : Char} (h : digit ∈ Nat.toDigits 10 value) :
    digit.isDigit = true :=
  Nat.isDigit_of_mem_toDigits (by decide) (by decide) h

theorem isDigit_decimalText (value : Nat) : ∀ code ∈ decimalText value, isDigit code = true := by
  intro code hcode
  obtain ⟨digit, hdigit, rfl⟩ := List.mem_map.mp hcode
  exact (digit_unit (isDigit_toDigits hdigit)).2

theorem decimalText_ne_nil (value : Nat) : decimalText value ≠ [] :=
  fun h => Nat.toDigits_ne_nil (List.map_eq_nil_iff.mp h)

theorem decimalValue_map {digits : List Char} (hdigits : ∀ digit ∈ digits, digit.isDigit = true)
    (start : Nat) :
    (digits.map fun digit => digit.toNat.toUInt16).foldl
        (fun value code => 10 * value + (code.toNat - 48)) start =
      Nat.ofDigitChars 10 digits start := by
  induction digits generalizing start with
  | nil => rfl
  | cons digit rest ih =>
    obtain ⟨hdigit, hrest⟩ := List.forall_mem_cons.mp hdigits
    rw [List.map_cons, List.foldl_cons, (digit_unit hdigit).1, ih hrest]
    rfl

theorem decimalValue_decimalText (value : Nat) : decimalValue (decimalText value) = value := by
  rw [decimalValue, decimalText, decimalValue_map fun digit => isDigit_toDigits,
    Nat.ofDigitChars_ten_toDigits]

theorem readNumber_decimalText {rest : JsText} (hrest : ∀ code ∈ rest.head?, isDigit code = false)
    (value : Nat) : readNumber (decimalText value ++ rest) = some (value, rest) := by
  have htake : (decimalText value ++ rest).takeWhile isDigit = decimalText value := by
    rw [List.takeWhile_append_of_pos (isDigit_decimalText value)]
    cases rest with
    | nil => simp
    | cons code rest => simp [hrest code rfl]
  have hdrop : (decimalText value ++ rest).dropWhile isDigit = rest := by
    rw [List.dropWhile_append_of_pos (isDigit_decimalText value)]
    cases rest with
    | nil => rfl
    | cons code rest => simp [hrest code rfl]
  rw [readNumber, htake, hdrop, if_neg (decimalText_ne_nil value), decimalValue_decimalText]

theorem readRange_rangeText (brief : Bool) (start count : Nat) (rest : JsText) :
    ∃ more, readNumber (rangeText brief start count ++ space :: rest) = some (start, more) ∧
      readCount more = (count, space :: rest) := by
  have hspace : ∀ code ∈ (space :: rest).head?, isDigit code = false := by
    rintro code ⟨⟩
    decide
  by_cases hbrief : brief = true ∧ count = 1
  · refine ⟨space :: rest, ?_, ?_⟩
    · rw [rangeText, if_pos hbrief, List.append_nil, readNumber_decimalText hspace]
    · rw [readCount, if_neg (by decide), hbrief.2]
  · refine ⟨comma :: (decimalText count ++ space :: rest), ?_, ?_⟩
    · rw [rangeText, if_neg hbrief, List.append_assoc, List.cons_append, readNumber_decimalText]
      rintro code ⟨⟩
      decide
    · rw [readCount, if_pos rfl, readNumber_decimalText hspace]
      rfl

theorem stripStart_append (start text : JsText) : stripStart start (start ++ text) = some text := by
  rw [stripStart, if_pos (List.isPrefixOf_iff_prefix.mpr (List.prefix_append _ _)),
    List.drop_left]

theorem readRange_hunkHeader (brief : Bool) (hunk : ParsedHunk) :
    readRange (hunkHeader brief hunk) =
      some ⟨hunk.oldStart, hunk.oldCount, hunk.newStart, hunk.newCount⟩ := by
  obtain ⟨oldMore, hold, holdCount⟩ := readRange_rangeText brief hunk.oldStart hunk.oldCount
    (asciiUnits "+" ++ (rangeText brief hunk.newStart hunk.newCount ++ asciiUnits " @@"))
  obtain ⟨newMore, hnew, hnewCount⟩ := readRange_rangeText brief hunk.newStart hunk.newCount
    (asciiUnits "@@")
  have hheader : hunkHeader brief hunk = asciiUnits "@@ -" ++
      (rangeText brief hunk.oldStart hunk.oldCount ++ space :: (asciiUnits "+" ++
        (rangeText brief hunk.newStart hunk.newCount ++ space :: asciiUnits "@@"))) := by
    simp only [hunkHeader, List.append_assoc]
    rfl
  have hplus : stripStart (asciiUnits " +") (space :: (asciiUnits "+" ++
      (rangeText brief hunk.newStart hunk.newCount ++ asciiUnits " @@"))) =
        some (rangeText brief hunk.newStart hunk.newCount ++ asciiUnits " @@") :=
    stripStart_append (asciiUnits " +") _
  have hend : stripStart (asciiUnits " @@") (space :: asciiUnits "@@") = some [] :=
    stripStart_append (asciiUnits " @@") []
  have hspace : asciiUnits " @@" = space :: asciiUnits "@@" := rfl
  rw [hspace] at hold holdCount hplus
  rw [hheader, readRange, stripStart_append]
  simp only [bind, Option.bind, hold, holdCount, hplus, hnew, hnewCount, hend, isHeaderEnd,
    if_true]

theorem controlText_endLine {line : JsText} (hline : line.getLast? ≠ some carriageReturn) :
    controlText (endLine line) = line := by
  rcases List.eq_nil_or_concat line with rfl | ⟨front, last, rfl⟩
  · rfl
  · have hlast : carriageReturn ≠ last := by
      rintro rfl
      exact hline (by rw [List.concat_eq_append, List.getLast?_concat])
    simp [controlText, endLine, List.isSuffixOf, List.isPrefixOf, hlast]

theorem controlText_endLine_carriageReturn (line : JsText) :
    controlText (endLine (line ++ [carriageReturn])) = line := by
  simp [controlText, endLine, List.isSuffixOf, List.isPrefixOf]

theorem hunkHeader_getLast? (brief : Bool) (hunk : ParsedHunk) :
    (hunkHeader brief hunk).getLast? = some 64 := by
  have hend : asciiUnits " @@" = asciiUnits " @" ++ [64] := rfl
  rw [hunkHeader, hend, ← List.append_assoc, List.getLast?_concat]

theorem HunkChange.isValid {hunk : ParsedHunk} (h : HunkChange hunk) :
    HunkRange.isValid ⟨hunk.oldStart, hunk.oldCount, hunk.newStart, hunk.newCount⟩ = true := by
  have hold := h.consistent.oldStart
  have hnew := h.consistent.newStart
  simp only [HunkRange.isValid, h.oldStart, h.oldCount, h.newStart, h.newCount, decide_true,
    Bool.true_and, Bool.and_eq_true, Bool.or_eq_true, decide_eq_true_eq]
  omega

theorem isPrefixOf_rawLine (line : PatchLine) :
    noNewlineMarker.isPrefixOf (rawLine line) = false := by
  obtain ⟨kind, text⟩ := line
  cases kind <;> rfl

theorem texts_pos (line : PatchLine) (rest : List PatchLine) :
    0 < (oldTexts (line :: rest)).length + (newTexts (line :: rest)).length := by
  obtain ⟨kind, text⟩ := line
  rw [oldTexts_cons, newTexts_cons]
  cases kind <;> simp <;> omega

theorem parseBody_rawLines {oldCount newCount oldSeen newSeen : Nat} (body more : List PatchLine)
    (rest : List JsText) (hold : oldSeen + (oldTexts more).length = oldCount)
    (hnew : newSeen + (newTexts more).length = newCount) :
    parseBody oldCount newCount oldSeen newSeen body (more.map rawLine ++ rest) =
      .ok (body ++ more, rest) := by
  induction more generalizing oldSeen newSeen body with
  | nil =>
    have hdone : ¬ (oldSeen < oldCount ∨ newSeen < newCount) := by
      simp only [oldTexts, newTexts, List.filter_nil, List.map_nil, List.length_nil] at hold hnew
      omega
    rw [List.map_nil, List.nil_append, List.append_nil]
    cases rest with
    | nil => rw [parseBody, if_neg hdone]
    | cons raw rest => rw [parseBody, if_neg hdone]
  | cons line more ih =>
    have hpos := texts_pos line more
    have holdSum := oldTexts_append [line] more
    have hnewSum := newTexts_append [line] more
    have holdLength := congrArg List.length holdSum
    have hnewLength := congrArg List.length hnewSum
    rw [List.length_append, ← toNat_isOld, List.singleton_append] at holdLength
    rw [List.length_append, ← toNat_isNew, List.singleton_append] at hnewLength
    rw [List.map_cons, List.cons_append, parseBody, if_pos (by omega), isPrefixOf_rawLine,
      if_neg (by decide), readLine_rawLine]
    dsimp only
    rw [if_neg (by omega), ih _ (by omega) (by omega), List.append_assoc, List.singleton_append]

theorem parseHunk_render {hunk : ParsedHunk} (h : HunkChange hunk) (brief : Bool)
    (rest : List JsText) :
    parseHunk (endLine (hunkHeader brief hunk)) (hunk.lines.map rawLine ++ rest) =
      .ok (hunk, rest) := by
  have hcontrol : controlText (endLine (hunkHeader brief hunk)) = hunkHeader brief hunk := by
    apply controlText_endLine
    rw [hunkHeader_getLast?]
    decide
  have hbody := @parseBody_rawLines hunk.oldCount hunk.newCount 0 0 [] hunk.lines rest
    ((Nat.zero_add _).trans h.consistent.old) ((Nat.zero_add _).trans h.consistent.new)
  rw [parseHunk, hcontrol, readRange_hunkHeader]
  dsimp only
  rw [if_pos h.isValid, hbody]
  rfl

/-- A line that does not begin another hunk. -/
def StopsHunks (lines : List JsText) : Prop :=
  ∀ line ∈ lines.head?, (asciiUnits "@@").isPrefixOf (controlText line) = false

theorem isPrefixOf_hunkHeader (brief : Bool) (hunk : ParsedHunk) :
    (asciiUnits "@@").isPrefixOf (controlText (endLine (hunkHeader brief hunk))) = true := by
  have hstart : asciiUnits "@@ -" = asciiUnits "@@" ++ asciiUnits " -" := rfl
  rw [controlText_endLine (by rw [hunkHeader_getLast?]; decide), List.isPrefixOf_iff_prefix]
  simp only [hunkHeader, hstart, List.append_assoc]
  exact List.prefix_append _ _

theorem parseHunks_render {hunks : List ParsedHunk} (hhunks : ∀ hunk ∈ hunks, HunkChange hunk)
    (brief : Bool) {rest : List JsText} (hrest : StopsHunks rest) {fuel total : Nat}
    (hfuel : hunks.length ≤ fuel) (htotal : total + hunks.length ≤ maxPatchHunks)
    (found : List ParsedHunk) :
    parseHunks fuel (hunks.flatMap (renderHunk brief) ++ rest) total found =
      .ok (found ++ hunks, total + hunks.length, rest) := by
  induction hunks generalizing fuel total found with
  | nil =>
    rw [List.flatMap_nil, List.nil_append, List.append_nil]
    cases rest with
    | nil => cases fuel <;> rfl
    | cons line rest =>
      cases fuel with
      | zero => rfl
      | succ fuel =>
        rw [parseHunks, hrest line rfl]
        rfl
  | cons hunk hunks ih =>
    obtain ⟨hhunk, hlater⟩ := List.forall_mem_cons.mp hhunks
    rw [List.length_cons] at hfuel htotal
    obtain ⟨fuel, rfl⟩ : ∃ smaller, fuel = smaller + 1 := ⟨fuel - 1, by omega⟩
    rw [List.flatMap_cons, renderHunk, List.cons_append, List.cons_append, parseHunks,
      if_pos (isPrefixOf_hunkHeader brief hunk), if_neg (by omega), List.append_assoc,
      parseHunk_render hhunk]
    show parseHunks fuel _ (total + 1) (found ++ [hunk]) = _
    rw [ih hlater (by omega) (by omega), List.append_assoc, List.length_cons,
      Nat.add_assoc, Nat.add_comm 1]
    rfl

/-- A path as it is read from its header: the ending of the line takes a carriage
return with it. -/
def shownPath (path : JsText) : JsText :=
  if path.getLast? = some carriageReturn then path.dropLast else path

theorem shownPath_eq_iff {path : JsText} :
    shownPath path = path ↔ path.getLast? ≠ some carriageReturn := by
  unfold shownPath
  split
  · rename_i hlast
    refine iff_of_false (fun heq => ?_) fun h => h hlast
    have hlength := congrArg List.length heq
    have hne : path ≠ [] := by
      rintro rfl
      cases hlast
    have hpos := List.length_pos_iff.mpr hne
    rw [List.length_dropLast] at hlength
    omega
  · rename_i hlast
    exact iff_of_true rfl hlast

theorem mem_of_mem_shownPath {path : JsText} {code : UInt16} (h : code ∈ shownPath path) :
    code ∈ path := by
  unfold shownPath at h
  split at h
  · exact (List.dropLast_sublist path).subset h
  · exact h

theorem controlText_shown {start : JsText}
    (hstart : start.getLast? ≠ some carriageReturn) (path : JsText) :
    controlText (endLine (start ++ path)) = start ++ shownPath path := by
  rcases List.eq_nil_or_concat path with rfl | ⟨front, last, rfl⟩
  · rw [List.append_nil, controlText_endLine hstart, shownPath, if_neg nofun, List.append_nil]
  · rw [List.concat_eq_append]
    by_cases hlast : last = carriageReturn
    · rw [hlast, ← List.append_assoc, controlText_endLine_carriageReturn, shownPath,
        List.getLast?_concat, if_pos rfl, List.dropLast_concat]
    · have hend : (front ++ [last]).getLast? ≠ some carriageReturn := by
        rw [List.getLast?_concat]
        exact fun h => hlast (Option.some.inj h)
      rw [shownPath, if_neg hend, controlText_endLine]
      rwa [← List.append_assoc, List.getLast?_concat, ← List.getLast?_concat]

theorem parseHeaderPath_path (start : JsText) {letter : UInt16} (hletter : letter ≠ slash)
    (htabLetter : letter ≠ tab) {path : JsText} (htab : tab ∉ path) :
    parseHeaderPath (start ++ ([letter, slash] ++ path)) start [letter, slash] =
      if validatePatchPath path then .ok (some path)
      else .error (.inputInvalid "Patch path is not a safe relative path") := by
  have hraw : (start ++ ([letter, slash] ++ path)).drop start.length = [letter, slash] ++ path :=
    List.drop_left
  have htabs : ([letter, slash] ++ path).contains tab = false := by
    have hslash : tab ≠ slash := by decide
    simp [htab, Ne.symm htabLetter, hslash]
  have hnull : [letter, slash] ++ path ≠ asciiUnits "/dev/null" :=
    fun heq => hletter (List.cons.inj heq).1
  have hside : [letter, slash].isPrefixOf ([letter, slash] ++ path) = true :=
    List.isPrefixOf_iff_prefix.mpr (List.prefix_append _ _)
  unfold parseHeaderPath
  dsimp only
  rw [hraw, if_neg (by rw [htabs]; decide), if_neg hnull, if_pos hside]
  rfl

theorem parseHeaderPath_null (start sidePrefix : JsText) :
    parseHeaderPath (start ++ asciiUnits "/dev/null") start sidePrefix = .ok none := by
  have hraw : (start ++ asciiUnits "/dev/null").drop start.length = asciiUnits "/dev/null" :=
    List.drop_left
  unfold parseHeaderPath
  dsimp only
  rw [hraw, if_neg (by decide), if_pos rfl]

def withFile (state : ParseState) (file : ParsedFile) : ParseState :=
  ⟨state.files ++ [{ file with path := shownPath file.path }],
    state.seenPaths ++ [shownPath file.path], state.totalHunks + file.hunks.length⟩

def readRendered (state : ParseState) (file : ParsedFile) (rest : List JsText) :
    Except PatchError (ParseState × List JsText) :=
  if validatePatchPath (shownPath file.path) then
    if state.seenPaths.contains (shownPath file.path) then
      .error (.inputInvalid "Patch contains the same path more than once")
    else if maxPatchFiles < state.files.length + 1 then
      .error (.limitExceeded "Patch exceeds the maximum file count")
    else .ok (withFile state file, rest)
  else .error (.inputInvalid "Patch path is not a safe relative path")

theorem controlText_null (start : JsText) :
    controlText (endLine (start ++ asciiUnits "/dev/null")) = start ++ asciiUnits "/dev/null" := by
  have hend : asciiUnits "/dev/null" = asciiUnits "/dev/nul" ++ [108] := rfl
  apply controlText_endLine
  rw [hend, ← List.append_assoc, List.getLast?_concat]
  decide

theorem controlText_side {start : JsText} (letter : UInt16) (path : JsText) :
    controlText (endLine (start ++ ([letter, slash] ++ path))) =
      start ++ ([letter, slash] ++ shownPath path) := by
  have hstart : (start ++ [letter, slash]).getLast? ≠ some carriageReturn := by
    have hsplit : start ++ [letter, slash] = (start ++ [letter]) ++ [slash] := by simp
    rw [hsplit, List.getLast?_concat]
    decide
  rw [← List.append_assoc, controlText_shown hstart, List.append_assoc]

theorem isPrefixOf_append (start rest : JsText) : start.isPrefixOf (start ++ rest) = true :=
  List.isPrefixOf_iff_prefix.mpr (List.prefix_append _ _)

theorem parseFile_oldError {fuel : Nat} {control : JsText} {rest : List JsText}
    {state : ParseState} {error : PatchError}
    (hcontrol : (asciiUnits "--- ").isPrefixOf control = true)
    (hold : parseHeaderPath control (asciiUnits "--- ") (asciiUnits "a/") = .error error) :
    parseFile fuel control rest state = .error error := by
  rw [parseFile, if_pos hcontrol, hold]
  rfl

theorem parseFile_newError {fuel : Nat} {control second : JsText} {rest : List JsText}
    {state : ParseState} {oldPath : Option JsText} {error : PatchError}
    (hcontrol : (asciiUnits "--- ").isPrefixOf control = true)
    (hold : parseHeaderPath control (asciiUnits "--- ") (asciiUnits "a/") = .ok oldPath)
    (hsecond : (asciiUnits "+++ ").isPrefixOf (controlText second) = true)
    (hnew : parseHeaderPath (controlText second) (asciiUnits "+++ ") (asciiUnits "b/") =
      .error error) :
    parseFile fuel control (second :: rest) state = .error error := by
  rw [parseFile, if_pos hcontrol, hold]
  simp only [bind, Except.bind, if_pos hsecond, hnew]

theorem parseFile_headers {fuel : Nat} {control second : JsText} {rest left : List JsText}
    {state : ParseState} {oldPath newPath : Option JsText} {path : JsText}
    {action : PatchFileAction} {hunks : List ParsedHunk} {total : Nat}
    (hcontrol : (asciiUnits "--- ").isPrefixOf control = true)
    (hold : parseHeaderPath control (asciiUnits "--- ") (asciiUnits "a/") = .ok oldPath)
    (hsecond : (asciiUnits "+++ ").isPrefixOf (controlText second) = true)
    (hnew : parseHeaderPath (controlText second) (asciiUnits "+++ ") (asciiUnits "b/") =
      .ok newPath)
    (haction : resolveFileAction oldPath newPath = .ok (path, action))
    (hhunks : parseHunks fuel rest state.totalHunks [] = .ok (hunks, total, left))
    (hne : hunks ≠ []) :
    parseFile fuel control (second :: rest) state =
      if state.seenPaths.contains path then
        .error (.inputInvalid "Patch contains the same path more than once")
      else if maxPatchFiles < state.files.length + 1 then
        .error (.limitExceeded "Patch exceeds the maximum file count")
      else .ok (⟨state.files ++ [⟨path, action, hunks⟩], state.seenPaths ++ [path], total⟩,
        left) := by
  have hempty : hunks.isEmpty = false := by simpa using hne
  rw [parseFile, if_pos hcontrol, hold]
  simp only [bind, Except.bind, if_pos hsecond, hnew, haction, hhunks, hempty]
  rfl

theorem parseFile_render {file : ParsedFile} (hfile : FileChange file) (htab : tab ∉ file.path)
    (brief : Bool) {rest : List JsText} (hrest : StopsHunks rest) {fuel : Nat}
    (hfuel : file.hunks.length ≤ fuel) {state : ParseState}
    (htotal : state.totalHunks + file.hunks.length ≤ maxPatchHunks) :
    parseFile fuel (controlText (endLine (asciiUnits "--- " ++ oldSide file)))
        (endLine (asciiUnits "+++ " ++ newSide file) ::
          (file.hunks.flatMap (renderHunk brief) ++ rest)) state =
      readRendered state file rest := by
  have hshown : tab ∉ shownPath file.path := fun hmem => htab (mem_of_mem_shownPath hmem)
  have hhunks := parseHunks_render hfile.hunks brief hrest hfuel htotal []
  have hold := parseHeaderPath_path (asciiUnits "--- ") (by decide : (97 : UInt16) ≠ slash)
    (by decide) hshown
  have hnew := parseHeaderPath_path (asciiUnits "+++ ") (by decide : (98 : UInt16) ≠ slash)
    (by decide) hshown
  have holdNull := parseHeaderPath_null (asciiUnits "--- ") (asciiUnits "a/")
  have hnewNull := parseHeaderPath_null (asciiUnits "+++ ") (asciiUnits "b/")
  have holdControl := @controlText_side (asciiUnits "--- ") 97 file.path
  have hnewControl := @controlText_side (asciiUnits "+++ ") 98 file.path
  have hnewPrefix := isPrefixOf_append (asciiUnits "+++ ") ([98, slash] ++ shownPath file.path)
  have hnullPrefix := isPrefixOf_append (asciiUnits "+++ ") (asciiUnits "/dev/null")
  rw [← hnewControl] at hnew hnewPrefix
  rw [← controlText_null] at hnewNull hnullPrefix
  unfold readRendered
  cases haction : file.action with
  | create =>
    have hside : oldSide file = asciiUnits "/dev/null" := by rw [oldSide, if_pos haction]
    have hother : newSide file = [98, slash] ++ file.path := by
      rw [newSide, if_neg (by rw [haction]; decide)]
      rfl
    rw [hside, hother, controlText_null]
    split
    · rename_i hvalid
      rw [if_pos hvalid] at hnew
      rw [parseFile_headers (isPrefixOf_append _ _) holdNull hnewPrefix hnew rfl hhunks
        hfile.nonempty, withFile, haction]
      rfl
    · rename_i hvalid
      rw [if_neg hvalid] at hnew
      exact parseFile_newError (isPrefixOf_append _ _) holdNull hnewPrefix hnew
  | update =>
    have hside : oldSide file = [97, slash] ++ file.path := by
      rw [oldSide, if_neg (by rw [haction]; decide)]
      rfl
    have hother : newSide file = [98, slash] ++ file.path := by
      rw [newSide, if_neg (by rw [haction]; decide)]
      rfl
    rw [hside, hother, holdControl]
    split
    · rename_i hvalid
      rw [if_pos hvalid] at hold hnew
      rw [parseFile_headers (isPrefixOf_append _ _) hold hnewPrefix hnew (if_pos rfl) hhunks
        hfile.nonempty, withFile, haction]
      rfl
    · rename_i hvalid
      rw [if_neg hvalid] at hold
      exact parseFile_oldError (isPrefixOf_append _ _) hold
  | delete =>
    have hside : oldSide file = [97, slash] ++ file.path := by
      rw [oldSide, if_neg (by rw [haction]; decide)]
      rfl
    have hother : newSide file = asciiUnits "/dev/null" := by rw [newSide, if_pos haction]
    rw [hside, hother, holdControl]
    split
    · rename_i hvalid
      rw [if_pos hvalid] at hold
      rw [parseFile_headers (isPrefixOf_append _ _) hold hnullPrefix hnewNull rfl hhunks
        hfile.nonempty, withFile, haction]
      rfl
    · rename_i hvalid
      rw [if_neg hvalid] at hold
      exact parseFile_oldError (isPrefixOf_append _ _) hold

theorem controlText_gitLine (file : ParsedFile) :
    ∃ tail, controlText (endLine (gitLine file)) = asciiUnits "diff --git " ++ tail := by
  have hsplit : gitLine file = asciiUnits "diff --git " ++
      (asciiUnits "a/" ++ file.path ++ asciiUnits " b/" ++ file.path) := by
    have hstart : asciiUnits "diff --git a/" = asciiUnits "diff --git " ++ asciiUnits "a/" := rfl
    simp only [gitLine, hstart, List.append_assoc]
  rw [hsplit, controlText_shown (by decide)]
  exact ⟨_, rfl⟩

theorem controlText_header (file : ParsedFile) :
    ∃ tail, controlText (endLine (asciiUnits "--- " ++ oldSide file)) =
      asciiUnits "--- " ++ tail := by
  rw [controlText_shown (by decide)]
  exact ⟨_, rfl⟩

theorem stopsHunks_renderFile (style : Style) (file : ParsedFile) (rest : List JsText) :
    StopsHunks (renderFile style file ++ rest) := by
  intro line hline
  rw [renderFile] at hline
  split at hline
  · obtain rfl := Option.some.inj hline
    obtain ⟨tail, htail⟩ := controlText_gitLine file
    rw [htail]
    rfl
  · obtain rfl := Option.some.inj hline
    obtain ⟨tail, htail⟩ := controlText_header file
    rw [htail]
    rfl

theorem stopsHunks_renderLines (style : ParsedFile → Style) (files : List ParsedFile) :
    StopsHunks (renderLines style files) := by
  cases files with
  | nil => exact nofun
  | cons file files => exact stopsHunks_renderFile (style file) file _

theorem length_le_renderHunks (brief : Bool) (hunks : List ParsedHunk) :
    hunks.length ≤ (hunks.flatMap (renderHunk brief)).length := by
  induction hunks with
  | nil => exact Nat.le_refl _
  | cons hunk hunks ih =>
    rw [List.flatMap_cons, List.length_append, renderHunk, List.length_cons, List.length_cons]
    omega

theorem parseFiles_headers {file : ParsedFile} (hfile : FileChange file) (htab : tab ∉ file.path)
    (brief : Bool) {rest : List JsText} (hrest : StopsHunks rest) {fuel : Nat}
    {state : ParseState}
    (hfuel : (file.hunks.flatMap (renderHunk brief) ++ rest).length ≤ fuel)
    (htotal : state.totalHunks + file.hunks.length ≤ maxPatchHunks) :
    parseFiles (fuel + 1) (endLine (asciiUnits "--- " ++ oldSide file) ::
        endLine (asciiUnits "+++ " ++ newSide file) ::
          (file.hunks.flatMap (renderHunk brief) ++ rest)) state =
      (readRendered state file rest >>= fun found => parseFiles fuel found.2 found.1) := by
  have hcount := length_le_renderHunks brief file.hunks
  rw [List.length_append] at hfuel
  obtain ⟨tail, htail⟩ := controlText_header file
  have hskip : ¬ (controlText (endLine (asciiUnits "--- " ++ oldSide file)) = [] ∨
      (asciiUnits "diff --git ").isPrefixOf
        (controlText (endLine (asciiUnits "--- " ++ oldSide file))) = true) := by
    rw [htail]
    rintro (hnil | hgit)
    · cases hnil
    · cases hgit
  rw [parseFiles, if_neg hskip, parseFile_render hfile htab brief hrest (by omega) htotal]

theorem parseFiles_render {file : ParsedFile} (hfile : FileChange file) (htab : tab ∉ file.path)
    (style : Style) {rest : List JsText} (hrest : StopsHunks rest) {fuel : Nat}
    {state : ParseState} (hfuel : (renderFile style file ++ rest).length ≤ fuel)
    (htotal : state.totalHunks + file.hunks.length ≤ maxPatchHunks) :
    ∃ later, rest.length ≤ later ∧ parseFiles fuel (renderFile style file ++ rest) state =
      (readRendered state file rest >>= fun found => parseFiles later found.2 found.1) := by
  rw [renderFile] at hfuel ⊢
  split at hfuel
  · rename_i hgit
    simp only [List.cons_append, List.nil_append, List.length_cons, List.length_append] at hfuel
    obtain ⟨fuel, rfl⟩ : ∃ smaller, fuel = smaller + 1 + 1 := ⟨fuel - 2, by omega⟩
    obtain ⟨tail, htail⟩ := controlText_gitLine file
    refine ⟨fuel, by omega, ?_⟩
    have hskip : (asciiUnits "diff --git ").isPrefixOf (controlText (endLine (gitLine file))) =
        true := by
      rw [htail]
      exact isPrefixOf_append _ _
    rw [if_pos hgit, List.cons_append, List.nil_append, List.cons_append, parseFiles,
      if_pos (.inr hskip)]
    exact parseFiles_headers hfile htab style.brief hrest
      (by rw [List.length_append]; omega) htotal
  · rename_i hgit
    simp only [List.cons_append, List.nil_append, List.length_cons, List.length_append] at hfuel
    obtain ⟨fuel, rfl⟩ : ∃ smaller, fuel = smaller + 1 := ⟨fuel - 1, by omega⟩
    refine ⟨fuel, by omega, ?_⟩
    rw [if_neg hgit]
    exact parseFiles_headers hfile htab style.brief hrest
      (by rw [List.length_append]; omega) htotal

def hunkCount (files : List ParsedFile) : Nat := (files.map fun file => file.hunks.length).sum

theorem parseFiles_renderLines {files : List ParsedFile} (hfiles : ∀ file ∈ files, FileChange file)
    (htabs : ∀ file ∈ files, tab ∉ file.path) (style : ParsedFile → Style) {fuel : Nat}
    {state : ParseState} {out : List ParsedFile}
    (hfuel : (renderLines style files).length ≤ fuel)
    (htotal : state.totalHunks + hunkCount files ≤ maxPatchHunks)
    (h : parseFiles fuel (renderLines style files) state = .ok out) :
    out = state.files ++ files.map fun file => { file with path := shownPath file.path } := by
  induction files generalizing fuel state with
  | nil =>
    have hdone : parseFiles fuel [] state = .ok state.files := by cases fuel <;> rfl
    rw [renderLines, List.flatMap_nil, hdone] at h
    cases h
    rw [List.map_nil, List.append_nil]
  | cons file files ih =>
    obtain ⟨hfile, hrest⟩ := List.forall_mem_cons.mp hfiles
    obtain ⟨htab, htabs⟩ := List.forall_mem_cons.mp htabs
    rw [hunkCount, List.map_cons, List.sum_cons] at htotal
    rw [renderLines, List.flatMap_cons] at hfuel h
    obtain ⟨later, hlater, hstep⟩ := @parseFiles_render file hfile htab (style file) _
      (stopsHunks_renderLines style files) fuel state hfuel (by omega)
    rw [renderLines] at hstep
    rw [hstep, bind_eq_ok_iff] at h
    obtain ⟨found, hfound, h⟩ := h
    unfold readRendered at hfound
    split at hfound
    · split at hfound
      · cases hfound
      · split at hfound
        · cases hfound
        · cases hfound
          have hout := ih hrest htabs hlater (by
            rw [withFile, hunkCount]
            dsimp only
            omega) h
          rw [hout, withFile, List.map_cons, List.append_assoc, List.singleton_append]
    · cases hfound

theorem parseFiles_renderLines_ok {files : List ParsedFile}
    (hfiles : ∀ file ∈ files, FileChange file) (htabs : ∀ file ∈ files, tab ∉ file.path)
    (hshown : ∀ file ∈ files, shownPath file.path = file.path) (style : ParsedFile → Style)
    {fuel : Nat} {state : ParseState} (hfuel : (renderLines style files).length ≤ fuel)
    (htotal : state.totalHunks + hunkCount files ≤ maxPatchHunks)
    (hcount : state.files.length + files.length ≤ maxPatchFiles)
    (hpaths : (state.seenPaths ++ files.map ParsedFile.path).Nodup) :
    parseFiles fuel (renderLines style files) state = .ok (state.files ++ files) := by
  induction files generalizing fuel state with
  | nil =>
    rw [renderLines, List.flatMap_nil, List.append_nil]
    cases fuel <;> rfl
  | cons file files ih =>
    obtain ⟨hfile, hrest⟩ := List.forall_mem_cons.mp hfiles
    obtain ⟨htab, htabs⟩ := List.forall_mem_cons.mp htabs
    obtain ⟨hpath, hshown⟩ := List.forall_mem_cons.mp hshown
    rw [hunkCount, List.map_cons, List.sum_cons] at htotal
    rw [List.length_cons] at hcount
    rw [List.map_cons, List.nodup_middle, ← List.nodup_middle] at hpaths
    rw [renderLines, List.flatMap_cons] at hfuel ⊢
    obtain ⟨later, hlater, hstep⟩ := @parseFiles_render file hfile htab (style file) _
      (stopsHunks_renderLines style files) fuel state hfuel (by omega)
    have hfresh : state.seenPaths.contains file.path = false := by
      have hnot := (List.nodup_middle.mp hpaths)
      have hmem := (List.nodup_cons.mp hnot).1
      simp only [List.mem_append, not_or] at hmem
      simpa using hmem.1
    have hfound : readRendered state file (renderLines style files) =
        .ok (withFile state file, renderLines style files) := by
      rw [readRendered, hpath, if_pos hfile.path, hfresh, if_neg (by decide),
        if_neg (by omega)]
    have hkept : { file with path := shownPath file.path } = file := by rw [hpath]
    rw [renderLines] at hstep hfound
    rw [hstep, hfound]
    have hnext := @ih hrest htabs hshown later (withFile state file) hlater
      (by rw [withFile, hunkCount]; dsimp only; omega)
      (by rw [withFile]; simp only [List.length_append, List.length_singleton]; omega)
      (by
        rw [withFile, hpath]
        rwa [List.append_assoc, List.singleton_append])
    have hall : (withFile state file).files ++ files = state.files ++ file :: files := by
      rw [withFile, hkept, List.append_assoc, List.singleton_append]
    rw [hall] at hnext
    exact hnext

/-- A path that can stand in a header. -/
def PlainPath (path : JsText) : Prop := tab ∉ path ∧ lineFeed ∉ path

theorem parseHeaderPath_plain {line start sidePrefix path : JsText}
    (hline : lineFeed ∉ line) (h : parseHeaderPath line start sidePrefix = .ok (some path)) :
    PlainPath path := by
  unfold parseHeaderPath at h
  dsimp only at h
  split at h
  · cases h
  · rename_i htab
    split at h
    · cases h
    · split at h
      · split at h
        · cases h
          constructor
          · intro hmem
            exact htab (by simpa using List.mem_of_mem_drop hmem)
          · intro hmem
            exact hline (List.mem_of_mem_drop (List.mem_of_mem_drop hmem))
        · cases h
      · cases h

theorem resolveFileAction_path {oldPath newPath : Option JsText} {path : JsText}
    {action : PatchFileAction} (h : resolveFileAction oldPath newPath = .ok (path, action)) :
    oldPath = some path ∨ newPath = some path := by
  unfold resolveFileAction at h
  split at h
  · cases h
    exact .inr rfl
  · cases h
    exact .inl rfl
  · split at h
    · cases h
      exact .inl rfl
    · cases h
  · cases h

theorem parseFile_plain {fuel : Nat} {control : JsText} {lines rest : List JsText}
    {state later : ParseState} (hcontrol : lineFeed ∉ control)
    (hlines : ∀ line ∈ lines, lineFeed ∉ controlText line)
    (h : parseFile fuel control lines state = .ok (later, rest)) :
    ∀ file ∈ later.files, file ∈ state.files ∨ PlainPath file.path := by
  unfold parseFile at h
  split at h
  · obtain ⟨oldPath, hold, h⟩ := bind_eq_ok_iff.mp h
    cases lines with
    | nil => cases h
    | cons second lines =>
      dsimp only at h
      split at h
      · obtain ⟨newPath, hnew, h⟩ := bind_eq_ok_iff.mp h
        obtain ⟨⟨path, action⟩, haction, h⟩ := bind_eq_ok_iff.mp h
        have hpath : PlainPath path := by
          rcases resolveFileAction_path haction with rfl | rfl
          · exact parseHeaderPath_plain hcontrol hold
          · exact parseHeaderPath_plain (hlines second List.mem_cons_self) hnew
        dsimp only at h
        split at h
        · cases h
        · split at h
          · cases h
          · obtain ⟨⟨hunks, total, left⟩, hhunks, h⟩ := bind_eq_ok_iff.mp h
            dsimp only at h
            split at h
            · cases h
            · cases h
              intro file hfile
              rcases List.mem_append.mp hfile with hmem | hmem
              · exact .inl hmem
              · rw [List.mem_singleton.mp hmem]
                exact .inr hpath
      · cases h
  · cases h

theorem parseFiles_plain {fuel : Nat} {lines : List JsText} {state : ParseState}
    {files : List ParsedFile} (hlines : ∀ line ∈ lines, lineFeed ∉ controlText line)
    (h : parseFiles fuel lines state = .ok files) :
    ∀ file ∈ files, file ∈ state.files ∨ PlainPath file.path := by
  induction fuel generalizing lines state with
  | zero =>
    cases lines <;> (cases h; exact fun file hfile => .inl hfile)
  | succ fuel ih =>
    cases lines with
    | nil =>
      cases h
      exact fun file hfile => .inl hfile
    | cons line lines =>
      obtain ⟨hline, hrest⟩ := List.forall_mem_cons.mp hlines
      rw [parseFiles] at h
      split at h
      · exact ih hrest h
      · obtain ⟨⟨later, rest⟩, hfile, h⟩ := bind_eq_ok_iff.mp h
        have hsub := (parseFile_ok hfile).2
        intro file hmem
        rcases ih (fun other hother => hrest other (hsub.subset hother)) h file hmem with
          hlater | hplain
        · exact parseFile_plain hline hrest hfile file hlater
        · exact .inr hplain

theorem controlText_plain {line : JsText} (hline : Ended lineFeed line ∨ lineFeed ∉ line) :
    lineFeed ∉ controlText line := by
  have hsub : ∀ code ∈ controlText line, code ∈ line := by
    intro code hcode
    unfold controlText at hcode
    split at hcode
    · exact List.mem_of_mem_take hcode
    · split at hcode
      · exact (List.dropLast_sublist line).subset hcode
      · exact hcode
  rcases hline with ⟨body, hbody, rfl⟩ | hnone
  · show lineFeed ∉ controlText (endLine body)
    by_cases hlast : body.getLast? = some carriageReturn
    · obtain ⟨front, rfl⟩ := List.getLast?_eq_some_iff.mp hlast
      rw [controlText_endLine_carriageReturn]
      exact fun hmem => hbody (List.mem_append_left _ hmem)
    · rwa [controlText_endLine hlast]
  · exact fun hmem => hnone (hsub _ hmem)

theorem controlText_lines {lines : List JsText} (h : Lines lineFeed lines) :
    ∀ line ∈ lines, lineFeed ∉ controlText line := by
  induction h with
  | nil => exact nofun
  | unended hne hline =>
    rintro line hmem
    rw [List.mem_singleton.mp hmem]
    exact controlText_plain (.inr hline)
  | cons hline h ih => exact List.forall_mem_cons.mpr ⟨controlText_plain (.inl hline), ih⟩

theorem ended_endLine {line : JsText} (hline : lineFeed ∉ line) : Ended lineFeed (endLine line) :=
  ⟨line, hline, rfl⟩

theorem decimalText_plain (value : Nat) : lineFeed ∉ decimalText value := by
  intro hmem
  exact absurd (isDigit_decimalText value lineFeed hmem) (by decide)

theorem rangeText_plain (brief : Bool) (start count : Nat) :
    lineFeed ∉ rangeText brief start count := by
  have hcomma : lineFeed ≠ comma := by decide
  rw [rangeText]
  split
  · rw [List.append_nil]
    exact decimalText_plain start
  · simp [decimalText_plain, hcomma]

theorem hunkHeader_plain (brief : Bool) (hunk : ParsedHunk) :
    lineFeed ∉ hunkHeader brief hunk := by
  have hstart : lineFeed ∉ asciiUnits "@@ -" := by decide
  have hplus : lineFeed ∉ asciiUnits " +" := by decide
  have hend : lineFeed ∉ asciiUnits " @@" := by decide
  simp only [hunkHeader, List.mem_append, not_or]
  exact ⟨⟨⟨⟨hstart, rangeText_plain _ _ _⟩, hplus⟩, rangeText_plain _ _ _⟩, hend⟩

theorem renderFile_ended {file : ParsedFile} (hfile : FileChange file)
    (hpath : lineFeed ∉ file.path) (style : Style) :
    AllEnded lineFeed (renderFile style file) := by
  have hgit : lineFeed ∉ gitLine file := by
    have hfirst : lineFeed ∉ asciiUnits "diff --git a/" := by decide
    have hsecond : lineFeed ∉ asciiUnits " b/" := by decide
    simp only [gitLine, List.mem_append, not_or]
    exact ⟨⟨⟨hfirst, hpath⟩, hsecond⟩, hpath⟩
  have hold : lineFeed ∉ asciiUnits "--- " ++ oldSide file := by
    rw [List.mem_append, not_or, oldSide]
    refine ⟨by decide, ?_⟩
    split
    · decide
    · exact List.mem_append.not.mpr (not_or.mpr ⟨by decide, hpath⟩)
  have hnew : lineFeed ∉ asciiUnits "+++ " ++ newSide file := by
    rw [List.mem_append, not_or, newSide]
    refine ⟨by decide, ?_⟩
    split
    · decide
    · exact List.mem_append.not.mpr (not_or.mpr ⟨by decide, hpath⟩)
  have hhunks : AllEnded lineFeed (file.hunks.flatMap (renderHunk style.brief)) := by
    intro line hline
    obtain ⟨hunk, hhunk, hline⟩ := List.mem_flatMap.mp hline
    rcases List.mem_cons.mp hline with rfl | hline
    · exact ended_endLine (hunkHeader_plain _ _)
    · obtain ⟨body, hbody, rfl⟩ := List.mem_map.mp hline
      exact ended_rawLine.mpr ((hfile.hunks hunk hhunk).ended body hbody)
  rw [renderFile]
  refine allEnded_append.mpr ⟨?_, List.forall_mem_cons.mpr ⟨ended_endLine hold,
    List.forall_mem_cons.mpr ⟨ended_endLine hnew, hhunks⟩⟩⟩
  split
  · exact List.forall_mem_cons.mpr ⟨ended_endLine hgit, nofun⟩
  · exact nofun

theorem split_renderPatch {files : List ParsedFile} (hfiles : ∀ file ∈ files, FileChange file)
    (hpaths : ∀ file ∈ files, lineFeed ∉ file.path) (style : ParsedFile → Style) :
    splitLinesPreservingEndings (renderPatch style files) = renderLines style files := by
  have hended : AllEnded lineFeed (renderLines style files) := by
    intro line hline
    obtain ⟨file, hfile, hline⟩ := List.mem_flatMap.mp hline
    exact renderFile_ended (hfiles file hfile) (hpaths file hfile) (style file) line hline
  exact hended.isLines.linesOf_flatten

/-- A patch is parsed to the files that it was made of as long as its text has no
marker of metadata and its headers can hold the paths. -/
theorem parseUnifiedPatch_render_iff {files : List ParsedFile} (style : ParsedFile → Style)
    (hne : files ≠ []) (hcount : files.length ≤ maxPatchFiles)
    (hpaths : (files.map ParsedFile.path).Nodup) (hhunks : hunkCount files ≤ maxPatchHunks)
    (hfiles : ∀ file ∈ files, FileChange file) :
    parseUnifiedPatch (renderPatch style files) = .ok files ↔
      (∀ marker ∈ unsupportedMarkers, includes marker (renderPatch style files) = false) ∧
        ∀ file ∈ files, PlainPath file.path ∧ file.path.getLast? ≠ some carriageReturn := by
  unfold parseUnifiedPatch
  dsimp only
  constructor
  · intro h
    split at h
    · cases h
    · rename_i hmarkers
      obtain ⟨found, hfound, h⟩ := bind_eq_ok_iff.mp h
      split at h
      · cases h
      · cases h
        have hplain : ∀ file ∈ files, PlainPath file.path := by
          intro file hfile
          have hcontrols := controlText_lines (lines_linesOf (renderPatch style files))
          exact (parseFiles_plain hcontrols hfound file hfile).resolve_left List.not_mem_nil
        have hsplit := split_renderPatch hfiles (fun file hfile => (hplain file hfile).2) style
        rw [hsplit] at hfound
        have hout := parseFiles_renderLines hfiles (fun file hfile => (hplain file hfile).1) style
          (Nat.le_refl _) (Nat.le_trans (Nat.le_of_eq (Nat.zero_add _)) hhunks) hfound
        refine ⟨fun marker hmarker => ?_, fun file hfile => ⟨hplain file hfile, ?_⟩⟩
        · by_contra hincludes
          refine hmarkers (List.any_eq_true.mpr ⟨marker, hmarker, ?_⟩)
          simpa using hincludes
        · rw [List.nil_append] at hout
          have hsame := List.map_inj_left.mp (hout.symm.trans (List.map_id files).symm) file hfile
          exact shownPath_eq_iff.mp (congrArg ParsedFile.path hsame)
  · rintro ⟨hmarkers, hplain⟩
    have hnone : ¬ (unsupportedMarkers.any fun marker =>
        includes marker (renderPatch style files)) = true := by
      rw [List.any_eq_true]
      rintro ⟨marker, hmarker, hincludes⟩
      rw [hmarkers marker hmarker] at hincludes
      cases hincludes
    have hsplit := split_renderPatch hfiles (fun file hfile => (hplain file hfile).1.2) style
    have hparse := @parseFiles_renderLines_ok files hfiles
      (fun file hfile => (hplain file hfile).1.1)
      (fun file hfile => shownPath_eq_iff.mpr (hplain file hfile).2) style
      (renderLines style files).length ⟨[], [], 0⟩ (Nat.le_refl _)
      (Nat.le_trans (Nat.le_of_eq (Nat.zero_add _)) hhunks)
      (Nat.le_trans (Nat.le_of_eq (Nat.zero_add _)) hcount) hpaths
    have hempty : files.isEmpty = false := by simpa using hne
    rw [if_neg hnone, hsplit, hparse]
    simp only [bind, Except.bind, List.nil_append, hempty]
    rfl

def oneLineFile (text : String) : ParsedFile :=
  ⟨asciiUnits "f", .update, [⟨1, 1, 1, 1,
    [⟨.remove, endLine (asciiUnits "a")⟩, ⟨.add, endLine (asciiUnits text)⟩]⟩]⟩

theorem fileChange_oneLineFile {text : String} (htext : lineFeed ∉ asciiUnits text) :
    FileChange (oneLineFile text) where
  path := by
    show validatePatchPath (asciiUnits "f") = true
    decide
  hunks := by
    intro hunk hhunk
    obtain rfl := List.mem_singleton.mp hhunk
    have hsafe : 1 ≤ maxSafeInteger := by decide
    refine ⟨⟨rfl, rfl, fun _ => Nat.le_refl _, fun _ => Nat.le_refl _⟩, hsafe, hsafe, hsafe,
      hsafe, ?_⟩
    refine List.forall_mem_cons.mpr ⟨ended_endLine (by decide), List.forall_mem_cons.mpr
      ⟨ended_endLine htext, nofun⟩⟩
  nonempty := nofun

def gitStyle : ParsedFile → Style := fun _ => ⟨true, true⟩

theorem oneLine_render_iff :
    parseUnifiedPatch (renderPatch gitStyle [oneLineFile "b"]) = .ok [oneLineFile "b"] ↔
      (∀ marker ∈ unsupportedMarkers,
        includes marker (renderPatch gitStyle [oneLineFile "b"]) = false) ∧
        ∀ file ∈ [oneLineFile "b"],
          PlainPath file.path ∧ file.path.getLast? ≠ some carriageReturn :=
  parseUnifiedPatch_render_iff gitStyle nofun (by decide) (by decide) (by decide)
    (List.forall_mem_cons.mpr ⟨fileChange_oneLineFile (by decide), nofun⟩)

theorem copyLine_not_parsed :
    ¬ ∀ (style : ParsedFile → Style) (files : List ParsedFile), files ≠ [] →
      files.length ≤ maxPatchFiles → (files.map ParsedFile.path).Nodup →
        hunkCount files ≤ maxPatchHunks → (∀ file ∈ files, FileChange file) →
          parseUnifiedPatch (renderPatch style files) = .ok files := by
  intro hparse
  have h := hparse gitStyle [oneLineFile "copy to b"] nofun (by decide) (by decide) (by decide)
    (List.forall_mem_cons.mpr ⟨fileChange_oneLineFile (by decide), nofun⟩)
  exact absurd h (by decide)

end KodeGpt.PatchRenderings
