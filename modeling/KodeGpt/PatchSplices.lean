import KodeGpt.FallibleActions
import KodeGpt.UnifiedPatches

/-!
What the hunks of a patch do to a text, as a splice of its lines: the lines that a hunk
names are replaced by others, where it says. The lines of the result are those of the
splice as long as no line without ending gets another line behind it.
-/

namespace KodeGpt.PatchSplices

open JsFrames JsObjects TerminatedLines UnifiedPatches
open FallibleActions (bind_eq_ok_iff)

def rawLine (line : PatchLine) : JsText := line.kind.sign :: line.text

def oldTexts (lines : List PatchLine) : List JsText :=
  (lines.filter fun line => line.kind.isOld).map PatchLine.text

def newTexts (lines : List PatchLine) : List JsText :=
  (lines.filter fun line => line.kind.isNew).map PatchLine.text

def rawLines (hunks : List ParsedHunk) : List JsText :=
  hunks.flatMap fun hunk => hunk.lines.map rawLine

/-- The counts of a hunk are those of its lines. -/
structure Consistent (hunk : ParsedHunk) : Prop where
  old : (oldTexts hunk.lines).length = hunk.oldCount
  new : (newTexts hunk.lines).length = hunk.newCount
  oldStart : hunk.oldCount ≠ 0 → 1 ≤ hunk.oldStart
  newStart : hunk.newCount ≠ 0 → 1 ≤ hunk.newStart

theorem oldTexts_append (front back : List PatchLine) :
    oldTexts (front ++ back) = oldTexts front ++ oldTexts back := by
  rw [oldTexts, List.filter_append, List.map_append]
  rfl

theorem newTexts_append (front back : List PatchLine) :
    newTexts (front ++ back) = newTexts front ++ newTexts back := by
  rw [newTexts, List.filter_append, List.map_append]
  rfl

theorem oldTexts_cons (line : PatchLine) (rest : List PatchLine) :
    oldTexts (line :: rest) = if line.kind = .add then oldTexts rest
      else line.text :: oldTexts rest := by
  obtain ⟨kind, text⟩ := line
  cases kind <;> rfl

theorem newTexts_cons (line : PatchLine) (rest : List PatchLine) :
    newTexts (line :: rest) = if line.kind = .remove then newTexts rest
      else line.text :: newTexts rest := by
  obtain ⟨kind, text⟩ := line
  cases kind <;> rfl

theorem eq_nil_of_texts {lines : List PatchLine} (hold : oldTexts lines = [])
    (hnew : newTexts lines = []) : lines = [] := by
  cases lines with
  | nil => rfl
  | cons line rest =>
    obtain ⟨kind, text⟩ := line
    rw [oldTexts_cons] at hold
    rw [newTexts_cons] at hnew
    cases kind <;> simp_all

theorem readLine_rawLine (line : PatchLine) : readLine (rawLine line) = some line := by
  obtain ⟨kind, text⟩ := line
  cases kind <;> rfl

theorem rawLine_of_readLine {raw : JsText} {line : PatchLine} (h : readLine raw = some line) :
    raw = rawLine line := by
  cases raw with
  | nil => cases h
  | cons code text =>
    obtain ⟨kind, hkind, rfl⟩ := Option.map_eq_some_iff.mp h
    have hsign := List.find?_some hkind
    rw [rawLine, of_decide_eq_true hsign]

theorem toNat_isOld (line : PatchLine) :
    line.kind.isOld.toNat = (oldTexts [line]).length := by
  obtain ⟨kind, text⟩ := line
  cases kind <;> rfl

theorem toNat_isNew (line : PatchLine) :
    line.kind.isNew.toNat = (newTexts [line]).length := by
  obtain ⟨kind, text⟩ := line
  cases kind <;> rfl

theorem parseBody_ok {oldCount newCount oldSeen newSeen : Nat} {body out : List PatchLine}
    {lines rest : List JsText} (hold : oldSeen ≤ oldCount) (hnew : newSeen ≤ newCount)
    (h : parseBody oldCount newCount oldSeen newSeen body lines = .ok (out, rest)) :
    ∃ more, out = body ++ more ∧ lines = more.map rawLine ++ rest ∧
      oldSeen + (oldTexts more).length = oldCount ∧
      newSeen + (newTexts more).length = newCount := by
  induction lines generalizing oldSeen newSeen body with
  | nil =>
    unfold parseBody at h
    split at h
    · cases h
    · cases h
      exact ⟨[], (List.append_nil _).symm, rfl, by simp [oldTexts]; omega,
        by simp [newTexts]; omega⟩
  | cons raw lines ih =>
    unfold parseBody at h
    split at h
    · split at h
      · cases h
      · cases hread : readLine raw with
        | none =>
          rw [hread] at h
          cases h
        | some line =>
          rw [hread] at h
          dsimp only at h
          split at h
          · cases h
          · rename_i hfits
            obtain ⟨more, rfl, rfl, holdCount, hnewCount⟩ := ih (by omega) (by omega) h
            have holdTexts := oldTexts_append [line] more
            have hnewTexts := newTexts_append [line] more
            rw [toNat_isOld] at holdCount
            rw [toNat_isNew] at hnewCount
            refine ⟨line :: more, by simp, by rw [rawLine_of_readLine hread]; rfl, ?_, ?_⟩
            · rw [← List.singleton_append, holdTexts, List.length_append]
              omega
            · rw [← List.singleton_append, hnewTexts, List.length_append]
              omega
    · cases h
      exact ⟨[], (List.append_nil _).symm, rfl, by simp [oldTexts]; omega,
        by simp [newTexts]; omega⟩

theorem parseHunk_ok {header : JsText} {lines rest : List JsText} {hunk : ParsedHunk}
    (h : parseHunk header lines = .ok (hunk, rest)) :
    Consistent hunk ∧ lines = hunk.lines.map rawLine ++ rest := by
  unfold parseHunk at h
  cases hrange : readRange (controlText header) with
  | none =>
    rw [hrange] at h
    cases h
  | some range =>
    rw [hrange] at h
    dsimp only at h
    split at h
    · rename_i hvalid
      cases hbody : parseBody range.oldCount range.newCount 0 0 [] lines with
      | error error =>
        rw [hbody] at h
        cases h
      | ok parsed =>
        rw [hbody] at h
        cases h
        obtain ⟨body, rest⟩ := parsed
        obtain ⟨more, hmore, hlines, hold, hnew⟩ :=
          parseBody_ok (Nat.zero_le _) (Nat.zero_le _) hbody
        rw [List.nil_append] at hmore
        subst hmore
        simp only [HunkRange.isValid, Bool.and_eq_true, Bool.or_eq_true, decide_eq_true_eq]
          at hvalid
        rw [Nat.zero_add] at hold hnew
        exact ⟨⟨hold, hnew, fun hne => hvalid.1.2.resolve_left hne,
          fun hne => hvalid.2.resolve_left hne⟩, hlines⟩
    · cases h

theorem parseHunks_ok {fuel total later : Nat} {lines rest : List JsText}
    {hunks out : List ParsedHunk} (h : parseHunks fuel lines total hunks = .ok (out, later, rest)) :
    ∃ more, out = hunks ++ more ∧ (∀ hunk ∈ more, Consistent hunk) ∧
      List.Sublist (rawLines more ++ rest) lines := by
  induction fuel generalizing lines total hunks with
  | zero =>
    cases lines with
    | nil =>
      cases h
      exact ⟨[], (List.append_nil _).symm, nofun, List.Sublist.refl _⟩
    | cons line lines =>
      cases h
      exact ⟨[], (List.append_nil _).symm, nofun, List.Sublist.refl _⟩
  | succ fuel ih =>
    cases lines with
    | nil =>
      cases h
      exact ⟨[], (List.append_nil _).symm, nofun, List.Sublist.refl _⟩
    | cons line lines =>
      rw [parseHunks] at h
      split at h
      · split at h
        · cases h
        · obtain ⟨⟨hunk, left⟩, hhunk, h⟩ := bind_eq_ok_iff.mp h
          obtain ⟨hconsistent, hlines⟩ := parseHunk_ok hhunk
          obtain ⟨more, rfl, hmore, hsub⟩ := ih h
          refine ⟨hunk :: more, by simp, List.forall_mem_cons.mpr ⟨hconsistent, hmore⟩, ?_⟩
          rw [rawLines, List.flatMap_cons, List.append_assoc, hlines]
          exact (hsub.append_left _).cons _
      · cases h
        exact ⟨[], (List.append_nil _).symm, nofun, List.Sublist.refl _⟩

/-- The hunks of a file have been read from these lines. -/
structure ReadFrom (lines : List JsText) (file : ParsedFile) : Prop where
  consistent : ∀ hunk ∈ file.hunks, Consistent hunk
  raw : List.Sublist (rawLines file.hunks) lines

theorem ReadFrom.mono {lines more : List JsText} {file : ParsedFile} (h : ReadFrom lines file)
    (hsub : List.Sublist lines more) : ReadFrom more file :=
  ⟨h.consistent, h.raw.trans hsub⟩

theorem parseFile_ok {fuel : Nat} {control : JsText} {lines rest : List JsText}
    {state later : ParseState} (h : parseFile fuel control lines state = .ok (later, rest)) :
    (∃ file, later.files = state.files ++ [file] ∧ ReadFrom lines file) ∧
      List.Sublist rest lines := by
  unfold parseFile at h
  split at h
  · obtain ⟨oldPath, -, h⟩ := bind_eq_ok_iff.mp h
    cases lines with
    | nil => cases h
    | cons second lines =>
      dsimp only at h
      split at h
      · obtain ⟨newPath, -, h⟩ := bind_eq_ok_iff.mp h
        obtain ⟨⟨path, action⟩, -, h⟩ := bind_eq_ok_iff.mp h
        dsimp only at h
        split at h
        · cases h
        · split at h
          · cases h
          · obtain ⟨⟨hunks, total, left⟩, hhunks, h⟩ := bind_eq_ok_iff.mp h
            obtain ⟨more, rfl, hconsistent, hsub⟩ := parseHunks_ok hhunks
            dsimp only at h
            split at h
            · cases h
            · cases h
              refine ⟨⟨_, rfl, hconsistent, ?_⟩, ?_⟩
              · exact ((List.sublist_append_left _ _).trans hsub).cons _
              · exact ((List.sublist_append_right _ _).trans hsub).cons _
      · cases h
  · cases h

theorem parseFiles_ok {fuel : Nat} {lines : List JsText} {state : ParseState}
    {files : List ParsedFile} (h : parseFiles fuel lines state = .ok files) :
    ∀ file ∈ files, file ∈ state.files ∨ ReadFrom lines file := by
  induction fuel generalizing lines state with
  | zero =>
    cases lines <;> (cases h; exact fun file hfile => .inl hfile)
  | succ fuel ih =>
    cases lines with
    | nil =>
      cases h
      exact fun file hfile => .inl hfile
    | cons line lines =>
      rw [parseFiles] at h
      split at h
      · intro file hfile
        exact (ih h file hfile).imp_right fun hread => hread.mono (List.sublist_cons_self _ _)
      · obtain ⟨⟨later, rest⟩, hfile, h⟩ := bind_eq_ok_iff.mp h
        obtain ⟨⟨found, hfiles, hfound⟩, hsub⟩ := parseFile_ok hfile
        intro file hmem
        rcases ih h file hmem with hlater | hread
        · rw [hfiles, List.mem_append, List.mem_singleton] at hlater
          rcases hlater with hold | rfl
          · exact .inl hold
          · exact .inr (hfound.mono (List.sublist_cons_self _ _))
        · exact .inr (hread.mono (hsub.trans (List.sublist_cons_self _ _)))

theorem parseUnifiedPatch_ok {patch : JsText} {files : List ParsedFile}
    (h : parseUnifiedPatch patch = .ok files) {file : ParsedFile} (hfile : file ∈ files) :
    (∀ hunk ∈ file.hunks, Consistent hunk) ∧ Lines lineFeed (rawLines file.hunks) := by
  unfold parseUnifiedPatch at h
  split at h
  · cases h
  · obtain ⟨found, hfiles, h⟩ := bind_eq_ok_iff.mp h
    split at h
    · cases h
    · cases h
      rcases parseFiles_ok hfiles file hfile with hnone | hread
      · exact absurd hnone List.not_mem_nil
      · exact ⟨hread.consistent, (lines_linesOf patch).sublist hread.raw⟩

/-- From old line `oldAt` and new line `newAt` on, the old lines are replaced by the new
ones where the hunks say, and only there. -/
inductive Splices : Nat → Nat → List ParsedHunk → List JsText → List JsText → Prop
  | done (oldAt newAt : Nat) (rest : List JsText) : Splices oldAt newAt [] rest rest
  | hunk {oldAt newAt : Nat} {hunk : ParsedHunk} {hunks : List ParsedHunk}
      {kept oldRest newRest : List JsText} (hold : oldAt + kept.length = hunk.oldTarget)
      (hnew : newAt + kept.length = hunk.newTarget)
      (h : Splices (hunk.oldTarget + hunk.oldCount) (hunk.newTarget + hunk.newCount) hunks
        oldRest newRest) :
      Splices oldAt newAt (hunk :: hunks) (kept ++ (oldTexts hunk.lines ++ oldRest))
        (kept ++ (newTexts hunk.lines ++ newRest))

theorem cons_prefix_drop {source : List JsText} {cursor : Nat} {text : JsText}
    {rest : List JsText} :
    text :: rest <+: source.drop cursor ↔
      source[cursor]? = some text ∧ rest <+: source.drop (cursor + 1) := by
  by_cases hcursor : cursor < source.length
  · rw [List.drop_eq_getElem_cons hcursor, List.cons_prefix_cons,
      List.getElem?_eq_getElem hcursor, Option.some_inj, eq_comm]
  · rw [List.drop_eq_nil_of_le (Nat.le_of_not_lt hcursor),
      List.getElem?_eq_none (Nat.le_of_not_lt hcursor)]
    simp

theorem applyLines_ok_iff {source : List JsText} {lines : List PatchLine}
    {state later : ApplyState} :
    lines.foldlM (applyLine source) state = .ok later ↔
      oldTexts lines <+: source.drop state.sourceCursor ∧
        later = ⟨state.output ++ newTexts lines, state.sourceCursor + (oldTexts lines).length,
          state.cumulativeDelta⟩ := by
  induction lines generalizing state with
  | nil =>
    rw [List.foldlM_nil]
    constructor
    · rintro ⟨⟩
      exact ⟨List.nil_prefix, by simp [oldTexts, newTexts]⟩
    · rintro ⟨-, rfl⟩
      simp [oldTexts, newTexts, pure, Except.pure]
  | cons line rest ih =>
    obtain ⟨kind, text⟩ := line
    rw [List.foldlM_cons, bind_eq_ok_iff]
    cases kind with
    | add =>
      have hstep : applyLine source state ⟨.add, text⟩ =
          .ok { state with output := state.output ++ [text] } := rfl
      simp only [hstep, Except.ok.injEq, exists_eq_left', ih, oldTexts_cons, newTexts_cons,
        if_true, reduceCtorEq, if_false, List.append_assoc, List.singleton_append]
    | context =>
      rw [oldTexts_cons, newTexts_cons, if_neg nofun, if_neg nofun, cons_prefix_drop, applyLine]
      by_cases hread : source[state.sourceCursor]? = some text
      · simp [hread, ih, Nat.add_assoc, Nat.add_comm 1]
      · simp [hread]
    | remove =>
      rw [oldTexts_cons, newTexts_cons, if_neg nofun, if_pos rfl, cons_prefix_drop, applyLine]
      by_cases hread : source[state.sourceCursor]? = some text
      · simp [hread, ih, Nat.add_assoc, Nat.add_comm 1]
      · simp [hread]

theorem applyHunk_ok_iff {source : List JsText} {hunk : ParsedHunk} (hhunk : Consistent hunk)
    {state later : ApplyState} :
    applyHunk source state hunk = .ok later ↔
      ((hunk.newTarget : Int) = hunk.oldTarget + state.cumulativeDelta ∧
        state.sourceCursor ≤ hunk.oldTarget ∧ hunk.oldTarget ≤ source.length) ∧
      oldTexts hunk.lines <+: source.drop hunk.oldTarget ∧
      later = ⟨state.output ++ (source.take hunk.oldTarget).drop state.sourceCursor ++
          newTexts hunk.lines, hunk.oldTarget + hunk.oldCount,
        state.cumulativeDelta + (hunk.newCount - hunk.oldCount : Int)⟩ := by
  unfold applyHunk
  split
  · rename_i hposition
    constructor
    · rintro ⟨⟩
    · rintro ⟨hfits, -, -⟩
      omega
  · rename_i hposition
    dsimp only
    rw [bind_eq_ok_iff]
    simp only [applyLines_ok_iff]
    constructor
    · rintro ⟨applied, ⟨hold, rfl⟩, hlater⟩
      cases hlater
      refine ⟨by omega, hold, ?_⟩
      rw [hhunk.old]
    · rintro ⟨-, hold, rfl⟩
      refine ⟨_, ⟨hold, rfl⟩, ?_⟩
      rw [hhunk.old]
      rfl

theorem splices_of_applyHunks {source : List JsText} {hunks : List ParsedHunk}
    (hhunks : ∀ hunk ∈ hunks, Consistent hunk) {state later : ApplyState}
    (hdelta : (state.output.length : Int) = state.sourceCursor + state.cumulativeDelta)
    (h : hunks.foldlM (applyHunk source) state = .ok later) :
    ∃ new, Splices state.sourceCursor state.output.length hunks
        (source.drop state.sourceCursor) new ∧
      later.output ++ source.drop later.sourceCursor = state.output ++ new := by
  induction hunks generalizing state with
  | nil =>
    cases h
    exact ⟨_, .done _ _ _, rfl⟩
  | cons hunk hunks ih =>
    obtain ⟨hhunk, hrest⟩ := List.forall_mem_cons.mp hhunks
    rw [List.foldlM_cons, bind_eq_ok_iff] at h
    obtain ⟨middle, hmiddle, h⟩ := h
    obtain ⟨⟨hnew, hcursor, hlength⟩, ⟨oldRest, hold⟩, rfl⟩ := (applyHunk_ok_iff hhunk).mp hmiddle
    have hkept : ((source.take hunk.oldTarget).drop state.sourceCursor).length =
        hunk.oldTarget - state.sourceCursor := by
      rw [List.length_drop, List.length_take, Nat.min_eq_left hlength]
    have hnewLength : (newTexts hunk.lines).length = hunk.newCount := hhunk.new
    obtain ⟨newRest, hsplices, hout⟩ := ih hrest (by
      simp only [List.length_append, hkept, hnewLength]
      omega) h
    have holdRest : source.drop (hunk.oldTarget + hunk.oldCount) = oldRest := by
      rw [← List.drop_drop, ← hold, ← hhunk.old, List.drop_left]
    have hnewAt : (state.output ++ (source.take hunk.oldTarget).drop state.sourceCursor ++
        newTexts hunk.lines).length = hunk.newTarget + hunk.newCount := by
      simp only [List.length_append, hkept, hnewLength]
      omega
    have hsource : source.drop state.sourceCursor =
        (source.take hunk.oldTarget).drop state.sourceCursor ++
          (oldTexts hunk.lines ++ oldRest) := by
      rw [hold, ← List.drop_append_of_le_length (by rw [List.length_take]; omega),
        List.take_append_drop]
    dsimp only at hsplices hout
    rw [hnewAt, holdRest] at hsplices
    refine ⟨(source.take hunk.oldTarget).drop state.sourceCursor ++
      (newTexts hunk.lines ++ newRest), ?_, ?_⟩
    · rw [hsource]
      exact .hunk (by rw [hkept]; omega) (by rw [hkept]; omega) hsplices
    · rw [hout]
      simp only [List.append_assoc]

theorem applyHunks_of_splices {source old new : List JsText} {oldAt newAt : Nat}
    {hunks : List ParsedHunk} (h : Splices oldAt newAt hunks old new)
    (hhunks : ∀ hunk ∈ hunks, Consistent hunk) {state : ApplyState}
    (hold : old = source.drop oldAt) (holdAt : state.sourceCursor = oldAt)
    (hnewAt : state.output.length = newAt) (hlength : oldAt ≤ source.length)
    (hdelta : (newAt : Int) = oldAt + state.cumulativeDelta) :
    ∃ later, hunks.foldlM (applyHunk source) state = .ok later ∧
      later.output ++ source.drop later.sourceCursor = state.output ++ new := by
  induction h generalizing state with
  | done oldAt newAt rest =>
    refine ⟨state, rfl, ?_⟩
    rw [holdAt, hold]
  | @hunk oldAt newAt hunk hunks kept oldRest newRest holdTarget hnewTarget h ih =>
    obtain ⟨hhunk, hrest⟩ := List.forall_mem_cons.mp hhunks
    have htotal := congrArg List.length hold
    simp only [List.length_append, List.length_drop, hhunk.old] at htotal
    have hfound : oldTexts hunk.lines ++ oldRest = source.drop hunk.oldTarget := by
      rw [← holdTarget, ← List.drop_drop, ← hold, List.drop_left]
    have hkept : (source.take hunk.oldTarget).drop oldAt = kept := by
      rw [← holdTarget, ← List.take_drop, ← hold, List.take_left]
    have happly := (@applyHunk_ok_iff source hunk hhunk state _).mpr
      ⟨⟨by omega, by omega, by omega⟩, ⟨oldRest, hfound⟩, rfl⟩
    rw [holdAt, hkept] at happly
    obtain ⟨later, hlater, hout⟩ := @ih hrest
      ⟨state.output ++ kept ++ newTexts hunk.lines, hunk.oldTarget + hunk.oldCount,
        state.cumulativeDelta + (hunk.newCount - hunk.oldCount : Int)⟩
      (by rw [← List.drop_drop, ← hfound, ← hhunk.old, List.drop_left]) rfl
      (by
        simp only [List.length_append, hhunk.new]
        omega) (by omega) (by
        dsimp only
        omega)
    refine ⟨later, ?_, ?_⟩
    · rw [List.foldlM_cons, happly]
      exact hlater
    · rw [hout]
      simp only [List.append_assoc]

theorem applyHunks_ok_iff {current result : JsText} {hunks : List ParsedHunk}
    (hhunks : ∀ hunk ∈ hunks, Consistent hunk) :
    applyHunks current hunks = .ok result ↔
      ∃ new, Splices 0 0 hunks (splitLinesPreservingEndings current) new ∧
        result = new.flatten := by
  unfold applyHunks
  dsimp only
  rw [bind_eq_ok_iff]
  constructor
  · rintro ⟨later, hlater, hresult⟩
    obtain ⟨new, hsplices, hout⟩ := splices_of_applyHunks hhunks (by simp) hlater
    cases hresult
    exact ⟨new, hsplices, by rw [hout]; rfl⟩
  · rintro ⟨new, hsplices, rfl⟩
    obtain ⟨later, hlater, hout⟩ :=
      @applyHunks_of_splices (splitLinesPreservingEndings current) _ _ _ _ _ hsplices hhunks
        ⟨[], 0, 0⟩ rfl rfl rfl (Nat.zero_le _) rfl
    exact ⟨later, hlater, by rw [hout]; rfl⟩

def reverseKind : LineKind → LineKind
  | .context => .context
  | .remove => .add
  | .add => .remove

def reverseLine (line : PatchLine) : PatchLine := ⟨reverseKind line.kind, line.text⟩

def reverseHunk (hunk : ParsedHunk) : ParsedHunk :=
  ⟨hunk.newStart, hunk.newCount, hunk.oldStart, hunk.oldCount, hunk.lines.map reverseLine⟩

theorem oldTexts_reverse (lines : List PatchLine) :
    oldTexts (lines.map reverseLine) = newTexts lines := by
  induction lines with
  | nil => rfl
  | cons line rest ih =>
    obtain ⟨kind, text⟩ := line
    cases kind <;> simp [oldTexts_cons, newTexts_cons, reverseLine, reverseKind, ih]

theorem newTexts_reverse (lines : List PatchLine) :
    newTexts (lines.map reverseLine) = oldTexts lines := by
  induction lines with
  | nil => rfl
  | cons line rest ih =>
    obtain ⟨kind, text⟩ := line
    cases kind <;> simp [oldTexts_cons, newTexts_cons, reverseLine, reverseKind, ih]

theorem Consistent.reverse {hunk : ParsedHunk} (h : Consistent hunk) :
    Consistent (reverseHunk hunk) where
  old := by
    rw [reverseHunk, oldTexts_reverse]
    exact h.new
  new := by
    rw [reverseHunk, newTexts_reverse]
    exact h.old
  oldStart := h.newStart
  newStart := h.oldStart

theorem Splices.reverse {oldAt newAt : Nat} {hunks : List ParsedHunk} {old new : List JsText}
    (h : Splices oldAt newAt hunks old new) :
    Splices newAt oldAt (hunks.map reverseHunk) new old := by
  induction h with
  | done oldAt newAt rest => exact .done _ _ _
  | @hunk oldAt newAt hunk hunks kept oldRest newRest hold hnew h ih =>
    rw [List.map_cons, ← oldTexts_reverse hunk.lines, ← newTexts_reverse hunk.lines]
    exact @Splices.hunk _ _ (reverseHunk hunk) _ _ _ _ hnew hold ih

theorem sign_ne_lineFeed (kind : LineKind) : lineFeed ≠ kind.sign := by
  cases kind <;> decide

theorem mem_rawLine {line : PatchLine} : lineFeed ∈ rawLine line ↔ lineFeed ∈ line.text := by
  rw [rawLine, List.mem_cons, or_iff_right (sign_ne_lineFeed line.kind)]

theorem ended_rawLine {line : PatchLine} :
    Ended lineFeed (rawLine line) ↔ Ended lineFeed line.text := by
  constructor
  · rintro ⟨body, hbody, hraw⟩
    cases body with
    | nil => exact absurd (List.cons.inj hraw).1.symm (sign_ne_lineFeed line.kind)
    | cons sign body =>
      exact ⟨body, fun hmem => hbody (List.mem_cons_of_mem _ hmem), (List.cons.inj hraw).2⟩
  · rintro ⟨body, hbody, htext⟩
    refine ⟨line.kind.sign :: body, ?_, by rw [rawLine, htext, List.cons_append]⟩
    rw [List.mem_cons, not_or]
    exact ⟨sign_ne_lineFeed line.kind, hbody⟩

theorem allEnded_texts {lines : List PatchLine} (h : AllEnded lineFeed (lines.map rawLine)) :
    AllEnded lineFeed (oldTexts lines) ∧ AllEnded lineFeed (newTexts lines) := by
  have htexts : ∀ line ∈ lines, Ended lineFeed line.text := fun line hline =>
    ended_rawLine.mp (h (rawLine line) (List.mem_map_of_mem hline))
  constructor
  · rintro text htext
    obtain ⟨line, hline, rfl⟩ := List.mem_map.mp htext
    exact htexts line (List.mem_filter.mp hline).1
  · rintro text htext
    obtain ⟨line, hline, rfl⟩ := List.mem_map.mp htext
    exact htexts line (List.mem_filter.mp hline).1

theorem exists_unended {lines : List PatchLine} (h : Lines lineFeed (lines.map rawLine))
    (hnot : ¬ AllEnded lineFeed (lines.map rawLine)) :
    ∃ front last, lines = front ++ [last] ∧ AllEnded lineFeed (front.map rawLine) ∧
      lineFeed ∉ last.text := by
  rcases List.eq_nil_or_concat lines with rfl | ⟨front, last, rfl⟩
  · exact absurd AllEnded.nil hnot
  · rw [List.concat_eq_append, List.map_append, List.map_singleton] at h hnot
    have hfront := h.front_ended (List.cons_ne_nil _ _)
    refine ⟨front, last, List.concat_eq_append, hfront, ?_⟩
    rcases h.of_append_right.ended_or with hlast | ⟨-, -, hlast⟩
    · refine absurd (allEnded_append.mpr ⟨hfront, ?_⟩) hnot
      rintro line hline
      rwa [List.mem_singleton.mp hline]
    · exact fun hmem => hlast (mem_rawLine.mpr hmem)

theorem lines_of_rawLines_nil {hunks : List ParsedHunk} (h : rawLines hunks = []) :
    ∀ hunk ∈ hunks, hunk.lines = [] := by
  intro hunk hhunk
  exact List.map_eq_nil_iff.mp (List.flatMap_eq_nil_iff.mp h hunk hhunk)

theorem Splices.eq_of_rawLines_nil {oldAt newAt : Nat} {hunks : List ParsedHunk}
    {old new : List JsText} (h : Splices oldAt newAt hunks old new) (hraw : rawLines hunks = []) :
    new = old := by
  induction h with
  | done oldAt newAt rest => rfl
  | @hunk oldAt newAt hunk hunks kept oldRest newRest hold hnew h ih =>
    rw [rawLines, List.flatMap_cons, List.append_eq_nil_iff] at hraw
    rw [ih hraw.2, List.map_eq_nil_iff.mp hraw.1]
    rfl

/-- A hunk puts no line behind one without ending: `tail` tells whether the last of the
`count` old lines is such a line. -/
structure Apart (tail : Prop) (count : Nat) (hunk : ParsedHunk) : Prop where
  behind : tail → hunk.oldCount = 0 → hunk.newCount ≠ 0 → hunk.oldTarget ≠ count
  added : ∀ text, hunk.lines.getLast? = some ⟨.add, text⟩ → lineFeed ∉ text →
    text ≠ [] ∧ hunk.oldTarget + hunk.oldCount = count

section Apart

variable {tail : Prop} {count : Nat} {hunk : ParsedHunk}

theorem Apart.of_no_lines (hhunk : Consistent hunk) (hlines : hunk.lines = []) :
    Apart tail count hunk where
  behind := by
    intro _ _ hnew
    rw [← hhunk.new, hlines] at hnew
    exact absurd rfl hnew
  added := by
    intro text hlast
    rw [hlines] at hlast
    cases hlast

theorem added_of_ended {lines : List PatchLine} (h : AllEnded lineFeed (lines.map rawLine))
    {text : JsText} (hlast : lines.getLast? = some ⟨.add, text⟩) : lineFeed ∈ text :=
  (ended_rawLine.mp (h _ (List.mem_map_of_mem (List.mem_of_getLast? hlast)))).mem

end Apart

theorem not_ended {text : JsText} (htext : lineFeed ∉ text) : ¬ Ended lineFeed text :=
  fun h => htext h.mem

theorem unended_last {front rest : List JsText} {text : JsText} (htext : lineFeed ∉ text)
    (h : Lines lineFeed (front ++ (text :: rest))) :
    AllEnded lineFeed front ∧ text ≠ [] ∧ rest = [] := by
  rcases h.of_append_right.ended_or with hended | ⟨hrest, hne, -⟩
  · exact absurd hended (not_ended htext)
  · exact ⟨h.front_ended (List.cons_ne_nil _ _), hne, hrest⟩

theorem lines_of_unended {front : List JsText} {text : JsText} (hfront : AllEnded lineFeed front)
    (hne : text ≠ []) (htext : lineFeed ∉ text) : Lines lineFeed (front ++ [text]) :=
  (lines_append_iff hfront).mpr (.unended hne htext)

/-- The last hunk, if its last line is without ending. -/
theorem lines_unendedHunk_iff {hunk : ParsedHunk} (hhunk : Consistent hunk)
    {front : List PatchLine} {last : PatchLine} (hlines : hunk.lines = front ++ [last])
    (hfront : AllEnded lineFeed (front.map rawLine)) (hlast : lineFeed ∉ last.text)
    {kept oldRest : List JsText} {count : Nat}
    (hold : Lines lineFeed (kept ++ (oldTexts hunk.lines ++ oldRest)))
    (hcount : hunk.oldTarget + hunk.oldCount + oldRest.length = count) :
    Lines lineFeed (kept ++ (newTexts hunk.lines ++ oldRest)) ↔
      Apart (¬ AllEnded lineFeed (kept ++ (oldTexts hunk.lines ++ oldRest))) count hunk := by
  obtain ⟨holdFront, hnewFront⟩ := allEnded_texts hfront
  have holdCount := hhunk.old
  have hnewCount := hhunk.new
  obtain ⟨kind, text⟩ := last
  have hlastLine : hunk.lines.getLast? = some ⟨kind, text⟩ := by
    rw [hlines, List.getLast?_concat]
  have holdAll : oldTexts hunk.lines = oldTexts front ++ oldTexts [⟨kind, text⟩] := by
    rw [hlines, oldTexts_append]
  have hnewAll : newTexts hunk.lines = newTexts front ++ newTexts [⟨kind, text⟩] := by
    rw [hlines, newTexts_append]
  rw [holdAll] at hold holdCount ⊢
  rw [hnewAll] at hnewCount ⊢
  cases kind with
  | add =>
    have holdLast : oldTexts [⟨.add, text⟩] = [] := rfl
    have hnewLast : newTexts [⟨.add, text⟩] = [text] := rfl
    rw [holdLast, List.append_nil] at hold holdCount ⊢
    rw [hnewLast] at hnewCount ⊢
    constructor
    · intro hnew
      rw [List.append_assoc, ← List.append_assoc] at hnew
      obtain ⟨hended, hne, rfl⟩ := unended_last hlast hnew
      constructor
      · intro htail
        refine absurd ?_ htail
        rw [List.append_nil]
        exact allEnded_append.mpr ⟨(allEnded_append.mp hended).1, holdFront⟩
      · intro other hother _
        rw [hlastLine] at hother
        cases hother
        exact ⟨hne, hcount⟩
    · intro hapart
      obtain ⟨hne, hat⟩ := hapart.added text hlastLine hlast
      obtain rfl : oldRest = [] := List.length_eq_zero_iff.mp (by omega)
      have hkept : AllEnded lineFeed kept := by
        by_cases hempty : oldTexts front = []
        · by_contra hnot
          rw [hempty] at holdCount
          refine hapart.behind (fun hall => hnot (allEnded_append.mp hall).1) holdCount.symm ?_
            (by rw [← hat, ← holdCount]; rfl)
          rw [← hnewCount, List.length_append]
          exact Nat.succ_ne_zero _
        · rw [List.append_nil] at hold
          exact hold.front_ended hempty
      rw [List.append_nil, ← List.append_assoc]
      exact lines_of_unended (allEnded_append.mpr ⟨hkept, hnewFront⟩) hne hlast
  | context =>
    have holdLast : oldTexts [⟨.context, text⟩] = [text] := rfl
    have hnewLast : newTexts [⟨.context, text⟩] = [text] := rfl
    rw [holdLast] at hold holdCount ⊢
    rw [hnewLast]
    rw [List.append_assoc, ← List.append_assoc] at hold
    obtain ⟨hended, hne, rfl⟩ := unended_last hlast hold
    refine iff_of_true ?_ ⟨?_, ?_⟩
    · rw [List.append_nil, ← List.append_assoc]
      exact lines_of_unended (allEnded_append.mpr
        ⟨(allEnded_append.mp hended).1, hnewFront⟩) hne hlast
    · intro _ hzero
      rw [List.length_append, List.length_singleton, hzero] at holdCount
      exact absurd holdCount (Nat.succ_ne_zero _)
    · intro other hother
      rw [hlastLine] at hother
      cases hother
  | remove =>
    have holdLast : oldTexts [⟨.remove, text⟩] = [text] := rfl
    have hnewLast : newTexts [⟨.remove, text⟩] = [] := rfl
    rw [holdLast] at hold holdCount ⊢
    rw [hnewLast]
    rw [List.append_assoc, ← List.append_assoc] at hold
    obtain ⟨hended, hne, rfl⟩ := unended_last hlast hold
    refine iff_of_true ?_ ⟨?_, ?_⟩
    · rw [List.append_nil, List.append_nil]
      exact (allEnded_append.mpr ⟨(allEnded_append.mp hended).1, hnewFront⟩).isLines
    · intro _ hzero
      rw [List.length_append, List.length_singleton, hzero] at holdCount
      exact absurd holdCount (Nat.succ_ne_zero _)
    · intro other hother
      rw [hlastLine] at hother
      cases hother

theorem not_apart {hunk : ParsedHunk} (hhunk : Consistent hunk) (hlines : hunk.lines ≠ [])
    {kept oldRest : List JsText} {count : Nat} (hkept : ¬ AllEnded lineFeed kept)
    (hold : Lines lineFeed (kept ++ (oldTexts hunk.lines ++ oldRest)))
    (hcount : hunk.oldTarget + hunk.oldCount + oldRest.length = count) :
    newTexts hunk.lines ≠ [] ∧
      ¬ Apart (¬ AllEnded lineFeed (kept ++ (oldTexts hunk.lines ++ oldRest))) count hunk := by
  have hempty : oldTexts hunk.lines ++ oldRest = [] := by
    by_contra hne
    exact hkept (hold.front_ended hne)
  obtain ⟨hnone, rfl⟩ := List.append_eq_nil_iff.mp hempty
  have hnew : newTexts hunk.lines ≠ [] := fun hnil => hlines (eq_nil_of_texts hnone hnil)
  have holdCount : hunk.oldCount = 0 := by
    rw [← hhunk.old, hnone]
    rfl
  refine ⟨hnew, fun hapart => hapart.behind ?_ holdCount ?_ ?_⟩
  · exact fun hall => hkept (allEnded_append.mp hall).1
  · rw [← hhunk.new]
    exact fun hzero => hnew (List.length_eq_zero_iff.mp hzero)
  · rw [← hcount, holdCount]
    rfl

/-- A hunk with all endings, before the other hunks. -/
theorem lines_endedHunk_iff {hunk : ParsedHunk} (hhunk : Consistent hunk)
    (hended : AllEnded lineFeed (hunk.lines.map rawLine)) (hlines : hunk.lines ≠ [])
    {kept oldRest newRest : List JsText} {count : Nat}
    (hold : Lines lineFeed (kept ++ (oldTexts hunk.lines ++ oldRest)))
    (hcount : hunk.oldTarget + hunk.oldCount + oldRest.length = count) :
    Lines lineFeed (kept ++ (newTexts hunk.lines ++ newRest)) ↔
      Apart (¬ AllEnded lineFeed (kept ++ (oldTexts hunk.lines ++ oldRest))) count hunk ∧
        Lines lineFeed newRest := by
  obtain ⟨holdEnded, hnewEnded⟩ := allEnded_texts hended
  by_cases hkept : AllEnded lineFeed kept
  · have hapart : Apart (¬ AllEnded lineFeed (kept ++ (oldTexts hunk.lines ++ oldRest)))
        count hunk := by
      constructor
      · intro htail _ _ hat
        obtain rfl : oldRest = [] := List.length_eq_zero_iff.mp (by omega)
        rw [List.append_nil] at htail
        exact htail (allEnded_append.mpr ⟨hkept, holdEnded⟩)
      · intro text hlast htext
        exact absurd (added_of_ended hended hlast) htext
    rw [lines_append_iff hkept, lines_append_iff hnewEnded, and_iff_right hapart]
  · obtain ⟨hnew, hnot⟩ := not_apart hhunk hlines hkept hold hcount
    refine iff_of_false ?_ fun h => hnot h.1
    intro hlater
    exact hkept (hlater.front_ended (List.append_ne_nil_of_left_ne_nil hnew _))

/-- The lines of the splice are those of a text when every hunk keeps them apart. -/
theorem Splices.lines_iff {oldAt newAt : Nat} {hunks : List ParsedHunk} {old new : List JsText}
    (h : Splices oldAt newAt hunks old new) (hhunks : ∀ hunk ∈ hunks, Consistent hunk)
    (hraw : Lines lineFeed (rawLines hunks)) {kept : List JsText} {count : Nat}
    (hold : Lines lineFeed (kept ++ old)) (hcount : oldAt + old.length = count) :
    Lines lineFeed (kept ++ new) ↔
      ∀ hunk ∈ hunks, Apart (¬ AllEnded lineFeed (kept ++ old)) count hunk := by
  induction h generalizing kept with
  | done oldAt newAt rest => exact iff_of_true hold nofun
  | @hunk oldAt newAt hunk hunks more oldRest newRest holdTarget hnewTarget h ih =>
    obtain ⟨hhunk, hrest⟩ := List.forall_mem_cons.mp hhunks
    rw [rawLines, List.flatMap_cons] at hraw
    have hrawRest : Lines lineFeed (rawLines hunks) := hraw.of_append_right
    have hrestCount : hunk.oldTarget + hunk.oldCount + oldRest.length = count := by
      rw [List.length_append, List.length_append, hhunk.old] at hcount
      omega
    rw [← List.append_assoc kept] at hold ⊢
    rw [← List.append_assoc kept, List.forall_mem_cons]
    by_cases hended : AllEnded lineFeed (hunk.lines.map rawLine)
    · by_cases hlines : hunk.lines = []
      · have hnone : oldTexts hunk.lines = [] ∧ newTexts hunk.lines = [] := by
          rw [hlines]
          exact ⟨rfl, rfl⟩
        rw [hnone.1, List.nil_append] at hold ⊢
        rw [hnone.2, List.nil_append, ih hrest hrawRest hold hrestCount,
          and_iff_right (Apart.of_no_lines hhunk hlines)]
      · rw [lines_endedHunk_iff hhunk hended hlines hold hrestCount]
        by_cases hkept : AllEnded lineFeed (kept ++ more)
        · have hrestLines : Lines lineFeed ([] ++ oldRest) :=
            hold.of_append_right.of_append_right
          have hall : AllEnded lineFeed (kept ++ more ++ (oldTexts hunk.lines ++ oldRest)) ↔
              AllEnded lineFeed ([] ++ oldRest) :=
            (allEnded_append.trans (and_iff_right hkept)).trans
              (allEnded_append.trans (and_iff_right (allEnded_texts hended).1))
          have hlater := ih hrest hrawRest hrestLines hrestCount
          rw [List.nil_append] at hlater
          rw [hlater, hall]
        · have hnot := (not_apart hhunk hlines hkept hold hrestCount).2
          exact iff_of_false (fun h => hnot h.1) fun h => hnot h.1
    · obtain ⟨front, last, hlines, hfront, hlast⟩ := exists_unended hraw.of_append_left hended
      have hnone : rawLines hunks = [] := by
        by_contra hne
        exact hended (hraw.front_ended hne)
      rw [h.eq_of_rawLines_nil hnone,
        lines_unendedHunk_iff hhunk hlines hfront hlast hold hrestCount]
      refine (and_iff_left fun other hother => ?_).symm
      exact Apart.of_no_lines (hrest other hother) (lines_of_rawLines_nil hnone other hother)

theorem Splices.unique {oldAt newAt : Nat} {hunks : List ParsedHunk} {old new other : List JsText}
    (h : Splices oldAt newAt hunks old new) (hother : Splices oldAt newAt hunks old other) :
    new = other := by
  induction h generalizing other with
  | done oldAt newAt rest =>
    cases hother
    rfl
  | @hunk oldAt newAt hunk hunks kept oldRest newRest holdTarget hnewTarget h ih =>
    generalize hsame : kept ++ (oldTexts hunk.lines ++ oldRest) = old at hother
    cases hother with
    | @hunk _ _ _ _ kept' oldRest' newRest' holdTarget' hnewTarget' h' =>
      have hlength : kept.length = kept'.length := by omega
      obtain ⟨rfl, hrest⟩ := List.append_inj hsame hlength
      obtain rfl := List.append_cancel_left hrest
      rw [ih h']

/-- The result is the text with its lines spliced, and the hunks can be undone. -/
structure IsSplice (current : JsText) (hunks : List ParsedHunk) (result : JsText) : Prop where
  lines : Splices 0 0 hunks (splitLinesPreservingEndings current)
    (splitLinesPreservingEndings result)
  reverse : applyHunks result (hunks.map reverseHunk) = .ok current

/-- No line is added behind one without ending, be it the last line of the text or the
last line of the patch. -/
def KeepsApart (current : JsText) (hunks : List ParsedHunk) : Prop :=
  ∀ hunk ∈ hunks, Apart (current ≠ [] ∧ current.getLast? ≠ some lineFeed)
    (splitLinesPreservingEndings current).length hunk

theorem not_allEnded_split (current : JsText) :
    (¬ AllEnded lineFeed (splitLinesPreservingEndings current)) ↔
      (current ≠ [] ∧ current.getLast? ≠ some lineFeed) := by
  have hlines : Lines lineFeed (splitLinesPreservingEndings current) := lines_linesOf current
  have htext : (splitLinesPreservingEndings current).flatten = current := flatten_linesOf current
  rw [hlines.allEnded_iff, htext, not_or]

/-- Hunks that are applied splice the lines of a text, and can be undone, when they keep
the lines apart. -/
theorem applyHunks_isSplice_iff {patch current result : JsText} {files : List ParsedFile}
    {file : ParsedFile} (hparse : parseUnifiedPatch patch = .ok files) (hfile : file ∈ files)
    (happly : applyHunks current file.hunks = .ok result) :
    IsSplice current file.hunks result ↔ KeepsApart current file.hunks := by
  obtain ⟨hconsistent, hraw⟩ := parseUnifiedPatch_ok hparse hfile
  obtain ⟨new, hsplices, rfl⟩ := (applyHunks_ok_iff hconsistent).mp happly
  have hold : Lines lineFeed ([] ++ splitLinesPreservingEndings current) := lines_linesOf current
  have hnew := hsplices.lines_iff hconsistent hraw hold (Nat.zero_add _)
  rw [List.nil_append, List.nil_append, not_allEnded_split] at hnew
  have hsplit : splitLinesPreservingEndings new.flatten = new ↔ Lines lineFeed new :=
    linesOf_flatten_iff
  rw [KeepsApart, ← hnew, ← hsplit]
  constructor
  · exact fun h => (hsplices.unique h.lines).symm
  · intro hsame
    have hlines : Splices 0 0 file.hunks (splitLinesPreservingEndings current)
        (splitLinesPreservingEndings new.flatten) := by
      rw [hsame]
      exact hsplices
    refine ⟨hlines, ?_⟩
    have hreverse : ∀ hunk ∈ file.hunks.map reverseHunk, Consistent hunk :=
      List.forall_mem_map.mpr fun hunk hhunk => (hconsistent hunk hhunk).reverse
    refine (applyHunks_ok_iff hreverse).mpr ⟨_, hlines.reverse, ?_⟩
    exact (flatten_linesOf current).symm

def unendedPatch : JsText :=
  asciiUnits "--- a/f\n+++ b/f\n@@ -0,0 +1 @@\n+x"

def endedPatch : JsText :=
  asciiUnits "--- a/f\n+++ b/f\n@@ -1 +1,2 @@\n a\n+b\n"

theorem endedPatch_isSplice_iff :
    let hunks : List ParsedHunk :=
      [⟨1, 1, 1, 2, [⟨.context, asciiUnits "a\n"⟩, ⟨.add, asciiUnits "b\n"⟩]⟩]
    IsSplice (asciiUnits "a\nc") hunks (asciiUnits "a\nb\nc") ↔
      KeepsApart (asciiUnits "a\nc") hunks :=
  @applyHunks_isSplice_iff endedPatch _ _
    [⟨asciiUnits "f", .update,
      [⟨1, 1, 1, 2, [⟨.context, asciiUnits "a\n"⟩, ⟨.add, asciiUnits "b\n"⟩]⟩]⟩]
    ⟨asciiUnits "f", .update,
      [⟨1, 1, 1, 2, [⟨.context, asciiUnits "a\n"⟩, ⟨.add, asciiUnits "b\n"⟩]⟩]⟩
    (by decide) (by decide) (by decide)

/-- The line that is added and the line behind it are one line of the result. -/
theorem unendedPatch_not_splice :
    ¬ ∀ (patch current result : JsText) (files : List ParsedFile) (file : ParsedFile),
      parseUnifiedPatch patch = .ok files → file ∈ files →
        applyHunks current file.hunks = .ok result → IsSplice current file.hunks result := by
  intro hsplice
  have h := hsplice unendedPatch (asciiUnits "a\n") (asciiUnits "xa\n")
    [⟨asciiUnits "f", .update, [⟨0, 0, 1, 1, [⟨.add, asciiUnits "x"⟩]⟩]⟩]
    ⟨asciiUnits "f", .update, [⟨0, 0, 1, 1, [⟨.add, asciiUnits "x"⟩]⟩]⟩
    (by decide) (by decide) (by decide)
  exact absurd h.reverse (by decide)

end KodeGpt.PatchSplices
