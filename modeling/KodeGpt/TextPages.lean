import KodeGpt.LossyTexts

/-!
Pages of a text file, and the files that a context is built from. A page is cut at a number of
bytes and then read as a text, which fails where the cut is inside a character.
-/

namespace KodeGpt.TextPages

open LossyTexts TextEncodings
open JsonText (Bytes)

def inlineReadMaxBytes : Nat := 1024 * 1024

inductive WorkspaceReadError where
  | limitExceeded
  | invalidUtf8
  deriving DecidableEq

structure ReadBytesResult where
  bytes : Bytes
  bytesRead : Nat
  eof : Bool

structure ReadFileResult where
  contents : List Char
  bytesRead : Nat
  eof : Bool

/-- `file` is what a regular file has. -/
def readBytes (file : Bytes) (offset maxBytes : Nat) :
    Except WorkspaceReadError ReadBytesResult :=
  if maxBytes > inlineReadMaxBytes then .error .limitExceeded
  else
    let found := (file.drop offset).take (maxBytes + 1)
    let eof := decide (found.length ≤ maxBytes)
    let bytes := if eof then found else found.take maxBytes
    .ok ⟨bytes, bytes.length, eof⟩

def readFile (file : Bytes) (offset maxBytes : Nat) :
    Except WorkspaceReadError ReadFileResult := do
  let result ← readBytes file offset maxBytes
  match decodeUtf8 result.bytes with
  | some contents => .ok ⟨contents, result.bytesRead, result.eof⟩
  | none => .error .invalidUtf8

/-- Page after page, advancing by what was read. -/
inductive Pages (file : Bytes) (maxBytes : Nat) : Nat → List Char → Prop where
  | last {offset : Nat} {page : ReadFileResult} (hpage : readFile file offset maxBytes = .ok page)
      (heof : page.eof = true) : Pages file maxBytes offset page.contents
  | more {offset : Nat} {page : ReadFileResult} {rest : List Char}
      (hpage : readFile file offset maxBytes = .ok page) (heof : page.eof = false)
      (hrest : Pages file maxBytes (offset + page.bytesRead) rest) :
      Pages file maxBytes offset (page.contents ++ rest)

def maxContextMaxBytes : Nat := 1024 * 1024

def maxContextRegionSourceBytes : Nat := 128 * 1024

inductive Selected where
  | region (content : List Char)
  | contents (page : ReadFileResult)
  | invalidReadResult
  | unreadable

def sourceReadLimit (regional : Bool) (readLimit : Nat) : Nat :=
  if regional then min maxContextMaxBytes (max readLimit maxContextRegionSourceBytes)
  else readLimit

/-- `choose` is the region that is taken out of a file that was read to its end. -/
def selectFile (file : Bytes) (regional : Bool) (readLimit remaining : Nat)
    (choose : List Char → Option (List Char)) : Selected :=
  let sourceLimit := sourceReadLimit regional readLimit
  match readFile file 0 sourceLimit with
  | .error _ => .unreadable
  | .ok source =>
    if (encodeUtf8 source.contents).length ≠ source.bytesRead then .invalidReadResult
    else
      match if source.eof then choose source.contents else none with
      | some content => .region content
      | none =>
        match if sourceLimit ≠ readLimit then readFile file 0 readLimit else .ok source with
        | .error _ => .unreadable
        | .ok page =>
          if (encodeUtf8 page.contents).length ≠ page.bytesRead ∨
              (encodeUtf8 page.contents).length > remaining then .invalidReadResult
          else .contents page

/-- No character goes across the offset. -/
def AtBoundary (file : Bytes) (offset : Nat) : Prop :=
  offset ≤ file.length ∧ validUtf8 (file.take offset) = true

def pageEnd (file : Bytes) (offset maxBytes : Nat) : Nat := min (offset + maxBytes) file.length

/-- The page is the next part of the file, ends at a character and says whether it is the
last. -/
def PageExact (file : Bytes) (offset maxBytes : Nat) : Prop :=
  ∃ page, readFile file offset maxBytes = .ok page ∧
    encodeUtf8 page.contents <+: file.drop offset ∧
    (encodeUtf8 page.contents).length = page.bytesRead ∧
    AtBoundary file (offset + page.bytesRead) ∧
    (page.bytesRead = 0 → file.drop offset = []) ∧
    (page.eof = true ↔ file.drop (offset + page.bytesRead) = [])

section Reading

variable {file : Bytes} {offset maxBytes : Nat} {page : ReadFileResult}

theorem readBytes_ok (hmax : maxBytes ≤ inlineReadMaxBytes) :
    readBytes file offset maxBytes =
      .ok ⟨(file.drop offset).take maxBytes, ((file.drop offset).take maxBytes).length,
        decide ((file.drop offset).length ≤ maxBytes)⟩ := by
  rw [readBytes, if_neg (Nat.not_lt.mpr hmax)]
  by_cases hlength : (file.drop offset).length ≤ maxBytes
  · rw [List.take_of_length_le (Nat.le_succ_of_le hlength), List.take_of_length_le hlength]
    simp only [decide_eq_true hlength, if_true]
  · have hfound : ¬((file.drop offset).take (maxBytes + 1)).length ≤ maxBytes := by
      rw [List.length_take]
      omega
    simp only [decide_eq_false hfound, decide_eq_false hlength, if_false, Bool.false_eq_true,
      List.take_take, Nat.min_eq_left (Nat.le_succ maxBytes)]

theorem readFile_ok_iff (hmax : maxBytes ≤ inlineReadMaxBytes) :
    readFile file offset maxBytes = .ok page ↔
      encodeUtf8 page.contents = (file.drop offset).take maxBytes ∧
        page.bytesRead = ((file.drop offset).take maxBytes).length ∧
        page.eof = decide ((file.drop offset).length ≤ maxBytes) := by
  rw [readFile, readBytes_ok hmax]
  dsimp only [bind, Except.bind]
  split
  · rename_i contents hdecode
    have hvalid : validUtf8 ((file.drop offset).take maxBytes) = true := by
      rw [validUtf8, hdecode]
      rfl
    obtain ⟨text, htext⟩ := exists_of_validUtf8 hvalid
    obtain rfl : text = contents := by
      rw [htext, decodeUtf8_encodeUtf8] at hdecode
      exact Option.some.inj hdecode
    constructor
    · intro h
      obtain rfl := Except.ok.inj h
      exact ⟨htext.symm, rfl, rfl⟩
    · obtain ⟨found, bytesRead, eof⟩ := page
      rintro ⟨hcontents, rfl, rfl⟩
      obtain rfl : found = text := encodeUtf8_injective (hcontents.trans htext)
      rfl
  · rename_i hdecode
    refine ⟨by simp, fun h => ?_⟩
    rw [← h.1, decodeUtf8_encodeUtf8] at hdecode
    cases hdecode

theorem validUtf8_append_iff {front rest : Bytes} (hfront : validUtf8 front = true) :
    validUtf8 (front ++ rest) = true ↔ validUtf8 rest = true := by
  refine ⟨fun h => ?_, validUtf8_append hfront⟩
  obtain ⟨text, htext⟩ := exists_of_validUtf8 h
  obtain ⟨head, rfl⟩ := exists_of_validUtf8 hfront
  obtain ⟨back, -, rfl⟩ := encodeUtf8_prefix htext
  exact validUtf8_encodeUtf8 back

theorem atBoundary_pageEnd_iff (hoffset : AtBoundary file offset) :
    AtBoundary file (pageEnd file offset maxBytes) ↔
      validUtf8 ((file.drop offset).take maxBytes) = true := by
  have htake : file.take (pageEnd file offset maxBytes) =
      file.take offset ++ (file.drop offset).take maxBytes := by
    rw [pageEnd, ← List.take_take, List.take_length, List.take_add]
  rw [AtBoundary, htake, validUtf8_append_iff hoffset.2]
  exact and_iff_right (Nat.min_le_right _ _)

theorem readFile_succeeds_iff (hmax : maxBytes ≤ inlineReadMaxBytes)
    (hoffset : AtBoundary file offset) :
    (∃ page, readFile file offset maxBytes = .ok page) ↔
      AtBoundary file (pageEnd file offset maxBytes) := by
  rw [atBoundary_pageEnd_iff hoffset]
  constructor
  · rintro ⟨page, hpage⟩
    rw [← ((readFile_ok_iff hmax).mp hpage).1]
    exact validUtf8_encodeUtf8 _
  · intro hvalid
    obtain ⟨text, htext⟩ := exists_of_validUtf8 hvalid
    exact ⟨⟨text, _, _⟩, (readFile_ok_iff hmax).mpr ⟨htext.symm, rfl, rfl⟩⟩

theorem add_bytesRead (hmax : maxBytes ≤ inlineReadMaxBytes) (hoffset : AtBoundary file offset)
    (hpage : readFile file offset maxBytes = .ok page) :
    offset + page.bytesRead = pageEnd file offset maxBytes := by
  rw [((readFile_ok_iff hmax).mp hpage).2.1, List.length_take, List.length_drop, pageEnd]
  have hlength := hoffset.1
  omega

/-- A page is exact if and only if no character goes across its end. -/
theorem pageExact_iff (hmax : maxBytes ≤ inlineReadMaxBytes) (hpos : 0 < maxBytes)
    (hoffset : AtBoundary file offset) :
    PageExact file offset maxBytes ↔ AtBoundary file (pageEnd file offset maxBytes) := by
  rw [← readFile_succeeds_iff hmax hoffset]
  refine exists_congr fun page => and_iff_left_of_imp fun hpage => ?_
  obtain ⟨hcontents, hread, heof⟩ := (readFile_ok_iff hmax).mp hpage
  have hend := (readFile_succeeds_iff hmax hoffset).mp ⟨page, hpage⟩
  rw [← add_bytesRead hmax hoffset hpage] at hend
  rw [hcontents, heof]
  refine ⟨List.take_prefix _ _, hread.symm, hend, fun hzero => ?_, ?_⟩
  · rw [hread, List.length_take] at hzero
    exact List.length_eq_zero_iff.mp (by omega)
  · rw [decide_eq_true_eq, List.drop_eq_nil_iff, hread, List.length_take, List.length_drop]
    have hlength := hoffset.1
    omega

theorem atBoundary_length (hvalid : validUtf8 file = true) : AtBoundary file file.length :=
  ⟨Nat.le_refl _, by rwa [List.take_length]⟩

/-- The pages are read to the end if and only if no character goes across one of their ends. -/
theorem pages_iff (hvalid : validUtf8 file = true) (hmax : maxBytes ≤ inlineReadMaxBytes)
    (hpos : 0 < maxBytes) (hoffset : AtBoundary file offset) :
    (∃ text, Pages file maxBytes offset text ∧ encodeUtf8 text = file.drop offset) ↔
      ∀ count, AtBoundary file (pageEnd file offset (count * maxBytes)) := by
  constructor
  · rintro ⟨text, hpages, -⟩ count
    induction hpages generalizing count with
    | @last offset page hpage heof =>
      have heof' := ((readFile_ok_iff hmax).mp hpage).2.2.symm.trans heof
      cases count with
      | zero => rwa [Nat.zero_mul, pageEnd, Nat.add_zero, Nat.min_eq_left hoffset.1]
      | succ count =>
        have hlast : pageEnd file offset ((count + 1) * maxBytes) = file.length := by
          have hall := of_decide_eq_true heof'
          rw [List.length_drop] at hall
          rw [pageEnd, Nat.succ_mul]
          omega
        rw [hlast]
        exact atBoundary_length hvalid
    | @more offset page rest hpage heof hrest ih =>
      have hend := (readFile_succeeds_iff hmax hoffset).mp ⟨page, hpage⟩
      have hnext := add_bytesRead hmax hoffset hpage
      cases count with
      | zero => rwa [Nat.zero_mul, pageEnd, Nat.add_zero, Nat.min_eq_left hoffset.1]
      | succ count =>
        have hsame := ih (hnext ▸ hend) count
        rw [hnext] at hsame
        have heq : pageEnd file (pageEnd file offset maxBytes) (count * maxBytes) =
            pageEnd file offset ((count + 1) * maxBytes) := by
          rw [pageEnd, pageEnd, pageEnd, Nat.succ_mul]
          omega
        rwa [heq] at hsame
  · intro hends
    induction hleft : file.length - offset using Nat.strongRecOn generalizing offset with
    | ind left ih =>
      have hfirst := hends 1
      rw [Nat.one_mul] at hfirst
      obtain ⟨page, hpage⟩ := (readFile_succeeds_iff hmax hoffset).mpr hfirst
      obtain ⟨hcontents, -, heof⟩ := (readFile_ok_iff hmax).mp hpage
      have hnext := add_bytesRead hmax hoffset hpage
      by_cases hall : (file.drop offset).length ≤ maxBytes
      · refine ⟨_, .last hpage (heof.trans (decide_eq_true hall)), ?_⟩
        rw [hcontents, List.take_of_length_le hall]
      · have hlength := hoffset.1
        rw [List.length_drop] at hall
        have hshort : pageEnd file offset maxBytes = offset + maxBytes := by
          rw [pageEnd]
          omega
        obtain ⟨rest, hrest, htext⟩ := ih (file.length - (offset + maxBytes)) (by omega)
          (hshort ▸ hfirst) (fun count => by
            have hlater := hends (count + 1)
            rw [pageEnd, Nat.succ_mul] at hlater
            rwa [pageEnd, Nat.add_assoc, Nat.add_comm maxBytes]) rfl
        refine ⟨page.contents ++ rest, .more hpage ?_ (hnext ▸ hshort ▸ hrest), ?_⟩
        · rw [heof, List.length_drop]
          exact decide_eq_false hall
        · rw [encodeUtf8_append, hcontents, htext, ← List.drop_drop, List.take_append_drop]

end Reading

section Contexts

variable {file : Bytes} {regional : Bool} {readLimit remaining : Nat}
  {choose : List Char → Option (List Char)}

def takesRegion (file : Bytes) (regional : Bool) (readLimit : Nat)
    (choose : List Char → Option (List Char)) : Bool :=
  file.length ≤ sourceReadLimit regional readLimit &&
    (decodeUtf8 file).any fun text => (choose text).isSome

theorem sourceReadLimit_le (hlimit : readLimit ≤ maxContextMaxBytes) :
    sourceReadLimit regional readLimit ≤ inlineReadMaxBytes := by
  unfold sourceReadLimit
  split
  · exact Nat.min_le_left _ _
  · exact hlimit

theorem atBoundary_zero : AtBoundary file 0 := ⟨Nat.zero_le _, rfl⟩

/-- A text file is unreadable exactly when a read of it ends inside a character. -/
theorem selectFile_unreadable_iff (hlimit : readLimit ≤ maxContextMaxBytes) :
    selectFile file regional readLimit remaining choose = .unreadable ↔
      ¬(AtBoundary file (pageEnd file 0 (sourceReadLimit regional readLimit)) ∧
        (takesRegion file regional readLimit choose = true ∨
          AtBoundary file (pageEnd file 0 readLimit))) := by
  have hsource : sourceReadLimit regional readLimit ≤ inlineReadMaxBytes :=
    sourceReadLimit_le hlimit
  rw [← readFile_succeeds_iff hsource atBoundary_zero,
    ← readFile_succeeds_iff (show readLimit ≤ inlineReadMaxBytes from hlimit) atBoundary_zero]
  unfold selectFile
  dsimp only
  cases hread : readFile file 0 (sourceReadLimit regional readLimit) with
  | error error => exact iff_of_true rfl fun h => nomatch h.1
  | ok source =>
    obtain ⟨hcontents, hbytes, heof⟩ := (readFile_ok_iff hsource).mp hread
    rw [List.drop_zero] at hcontents hbytes heof
    have htakes : takesRegion file regional readLimit choose =
        (if source.eof then choose source.contents else none).isSome := by
      rw [takesRegion, heof]
      by_cases hall : file.length ≤ sourceReadLimit regional readLimit
      · rw [List.take_of_length_le hall] at hcontents
        rw [decide_eq_true hall, Bool.true_and, if_pos rfl, ← hcontents, decodeUtf8_encodeUtf8]
        rfl
      · rw [decide_eq_false hall]
        rfl
    have hlength : ¬(encodeUtf8 source.contents).length ≠ source.bytesRead :=
      not_not.mpr (by rw [hcontents, hbytes])
    rw [htakes, and_iff_right ⟨source, rfl⟩]
    dsimp only
    rw [if_neg hlength]
    cases hchosen : (if source.eof then choose source.contents else none) with
    | some content => exact iff_of_false nofun fun h => h (Or.inl rfl)
    | none =>
      have hsecond : (if sourceReadLimit regional readLimit ≠ readLimit then
          readFile file 0 readLimit else .ok source) = readFile file 0 readLimit := by
        split
        · rfl
        · rename_i hsame
          rw [← hread, not_not.mp hsame]
      rw [hsecond]
      cases readFile file 0 readLimit with
      | error error => exact iff_of_true rfl (by rintro (h | ⟨page, hpage⟩) <;> contradiction)
      | ok page =>
        refine iff_of_false ?_ fun h => h (Or.inr ⟨page, rfl⟩)
        dsimp only
        split <;> nofun

end Contexts

/-- Paged reading is exact, and a context finds no text file unreadable, exactly when no
character goes across the end of a read. -/
theorem textPages_exact_iff (file : Bytes) (hvalid : validUtf8 file = true) :
    (∀ offset maxBytes, AtBoundary file offset → 4 ≤ maxBytes → maxBytes ≤ inlineReadMaxBytes →
      (PageExact file offset maxBytes ↔ AtBoundary file (pageEnd file offset maxBytes))) ∧
    (∀ maxBytes, 4 ≤ maxBytes → maxBytes ≤ inlineReadMaxBytes →
      ((∃ text, Pages file maxBytes 0 text ∧ encodeUtf8 text = file) ↔
        ∀ count, AtBoundary file (pageEnd file 0 (count * maxBytes)))) ∧
    ∀ regional readLimit remaining choose, readLimit ≤ maxContextMaxBytes →
      (selectFile file regional readLimit remaining choose ≠ .unreadable ↔
        AtBoundary file (pageEnd file 0 (sourceReadLimit regional readLimit)) ∧
          (takesRegion file regional readLimit choose = true ∨
            AtBoundary file (pageEnd file 0 readLimit))) := by
  refine ⟨fun offset maxBytes hoffset hmin hmax => pageExact_iff hmax (by omega) hoffset,
    fun maxBytes hmin hmax => ?_, fun regional readLimit remaining choose hlimit => ?_⟩
  · have hpages := pages_iff hvalid hmax (by omega) atBoundary_zero
    rwa [List.drop_zero] at hpages
  · rw [ne_eq, selectFile_unreadable_iff hlimit, not_not]

/-- `aaa` and a character of two bytes. -/
def accented : Bytes := [97, 97, 97, 195, 169]

theorem accented_pages : (PageExact accented 3 4 ↔ AtBoundary accented (pageEnd accented 3 4)) ∧
    ((∃ text, Pages accented 4 0 text ∧ encodeUtf8 text = accented) ↔
      ∀ count, AtBoundary accented (pageEnd accented 0 (count * 4))) ∧
    (selectFile accented false 4 4 (fun _ => none) ≠ .unreadable ↔
      AtBoundary accented (pageEnd accented 0 4) ∧
        (takesRegion accented false 4 (fun _ => none) = true ∨
          AtBoundary accented (pageEnd accented 0 4))) := by
  obtain ⟨hpage, hpages, hcontext⟩ := textPages_exact_iff accented (by decide)
  exact ⟨hpage 3 4 ⟨by decide, by decide⟩ (by decide) (by decide), hpages 4 (by decide) (by decide),
    hcontext false 4 4 (fun _ => none) (by decide)⟩

/-- A page of four bytes ends inside the character. -/
theorem accented_cut : ¬∀ file, validUtf8 file = true →
    (∀ offset maxBytes, AtBoundary file offset → 4 ≤ maxBytes → maxBytes ≤ inlineReadMaxBytes →
      PageExact file offset maxBytes) ∧
    (∀ maxBytes, 4 ≤ maxBytes → maxBytes ≤ inlineReadMaxBytes →
      ∃ text, Pages file maxBytes 0 text ∧ encodeUtf8 text = file) ∧
    ∀ regional readLimit remaining choose, readLimit ≤ maxContextMaxBytes →
      selectFile file regional readLimit remaining choose ≠ .unreadable := by
  intro h
  have hexact := (h accented (by decide)).1 0 4 atBoundary_zero (by decide) (by decide)
  rw [pageExact_iff (by decide) (by decide) atBoundary_zero] at hexact
  exact absurd hexact.2 (by decide)

end KodeGpt.TextPages
