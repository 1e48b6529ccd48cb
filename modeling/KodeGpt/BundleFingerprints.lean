import KodeGpt.PinnedSkills

/-!
What is hashed for a fingerprint or a skill identifier can be read back: different bundles
give different texts, and so do different sources or names.
-/

namespace KodeGpt.BundleFingerprints

open JsonDocuments TextEncodings JsFrames JsObjects NodePaths PinnedSkills

def itemUnits : StringItem → JsText
  | .plain character _ => utf16Units character
  | .short escape => utf16Units escape.character
  | .unit code => [code]

def unquote (items : List StringItem) : JsText := items.flatMap itemUnits

theorem utf16Units_shortEscape {code : UInt16} {escape : ShortEscape}
    (h : shortEscape code = some escape) : utf16Units escape.character = [code] := by
  unfold shortEscape at h
  split_ifs at h <;> subst_vars <;> obtain rfl := Option.some.inj h <;> decide

theorem itemUnits_quoteUnit (code : UInt16) : itemUnits (quoteUnit code) = [code] := by
  unfold quoteUnit
  split
  · rename_i escape hescape
    exact utf16Units_shortEscape hescape
  · split
    · rename_i hplain
      exact utf16Units_ofNat hplain.1
    · rfl

theorem unquote_quote (text : JsText) : unquote (quote text) = text := by
  induction text using units_induction with
  | nil => rfl
  | last code => exact List.flatMap_singleton _ _ |>.trans (itemUnits_quoteUnit code)
  | pair high low rest hpair ih =>
    rw [quote, dif_pos hpair, unquote, List.flatMap_cons]
    show utf16Units (pairCharacter high low) ++ unquote (quote rest) = _
    rw [ih, utf16Units_pairCharacter hpair.1 hpair.2]
    rfl
  | unit high low rest hpair ih =>
    rw [quote, dif_neg hpair, unquote, List.flatMap_cons, itemUnits_quoteUnit]
    show [high] ++ unquote (quote (low :: rest)) = _
    rw [ih]
    rfl

theorem quote_injective : Function.Injective quote :=
  Function.LeftInverse.injective unquote_quote

def recordDocument (record : FileRecord) : Document :=
  .object [(quote (asciiUnits "path"), .string (quote record.path)),
    (quote (asciiUnits "type"), .string (quote (asciiUnits "file"))),
    (quote (asciiUnits "bytes"),
      .number ⟨Nat.toDigits 10 record.bytes, isNumeral_toDigits record.bytes⟩),
    (quote (asciiUnits "sha256"), .string (quote record.sha256))]

theorem recordLine_eq (record : FileRecord) :
    recordLine record = encodeUtf8 ((recordDocument record).text ++ ['\n']) := by
  have hbytes : recordLine record = (recordDocument record).bytes ++ [10] := rfl
  rw [hbytes, encodeUtf8, List.flatMap_append]
  rfl

theorem recordDocument_injective : Function.Injective recordDocument := by
  intro left right h
  cases left with | mk path bytes sha256 =>
  cases right with | mk path' bytes' sha256' =>
      simp only [recordDocument, Document.object.injEq, List.cons.injEq, Prod.mk.injEq,
        Document.string.injEq, Document.number.injEq, Numeral.mk.injEq, true_and, and_true] at h
      obtain ⟨hpath, hbytes, hsha256⟩ := h
      obtain rfl := quote_injective hpath
      obtain rfl := quote_injective hsha256
      have hsame : bytes = bytes' := by
        have hvalue := congrArg (fun digits => Nat.ofDigitChars 10 digits 0) hbytes
        simpa using hvalue
      rw [hsame]

def linesText (records : List FileRecord) : List Char :=
  records.flatMap fun record => (recordDocument record).text ++ ['\n']

theorem flatMap_recordLine (records : List FileRecord) :
    records.flatMap recordLine = encodeUtf8 (linesText records) := by
  rw [encodeUtf8, linesText, List.flatMap_assoc]
  refine List.flatMap_congr ?_
  intro record hmem
  exact recordLine_eq record

theorem readValue_linesText (record : FileRecord) (rest : List FileRecord) (fuel : Nat)
    (hfuel : 2 * (linesText (record :: rest)).length < fuel) :
    readValue fuel (linesText (record :: rest)) =
      some (recordDocument record, '\n' :: linesText rest) := by
  have htext : linesText (record :: rest) =
      (recordDocument record).text ++ '\n' :: linesText rest := by
    rw [linesText, List.flatMap_cons, List.append_assoc]
    rfl
  rw [htext] at hfuel ⊢
  refine readValue_text (recordDocument record) fuel _ ?_ ?_
  · rw [List.length_append] at hfuel
    omega
  · intro character hhead
    obtain rfl : '\n' = character := by simpa using hhead
    decide

theorem linesText_injective : Function.Injective linesText := by
  intro left right h
  induction left generalizing right with
  | nil =>
    cases right with
    | nil => rfl
    | cons record rest =>
      have hread := readValue_linesText record rest _ (Nat.lt_succ_self _)
      rw [← h] at hread
      cases hread
  | cons record rest ih =>
    have hread := readValue_linesText record rest _ (Nat.lt_succ_self _)
    cases right with
    | nil =>
      rw [h] at hread
      cases hread
    | cons record' rest' =>
      rw [h, readValue_linesText record' rest' _ (Nat.lt_succ_self _)] at hread
      obtain ⟨hdocument, hrest⟩ := Prod.mk.inj (Option.some.inj hread)
      rw [recordDocument_injective hdocument, ih (List.cons.inj hrest).2.symm]

variable {p : Platform}

theorem records_of_fingerprint (hinjective : Function.Injective p.sha256)
    {left right : List FileRecord} {fingerprint : JsText}
    (hleft : fingerprintSkillBundle p left = .ok fingerprint)
    (hright : fingerprintSkillBundle p right = .ok fingerprint) : left.Perm right := by
  unfold fingerprintSkillBundle at hleft hright
  dsimp only at hleft hright
  split at hleft
  · split at hright
    · have hbytes := hinjective ((Except.ok.inj hleft).trans (Except.ok.inj hright).symm)
      rw [List.append_cancel_left_eq, flatMap_recordLine, flatMap_recordLine] at hbytes
      have htext : linesText (sortRecords left) = linesText (sortRecords right) := by
        have hdecoded := congrArg decodeUtf8 hbytes
        rw [decodeUtf8_encodeUtf8, decodeUtf8_encodeUtf8] at hdecoded
        exact Option.some.inj hdecoded
      have hsorted := linesText_injective htext
      have hperm : ∀ records, (sortRecords records).Perm records :=
        fun records => List.perm_insertionSort _ records
      exact (hperm left).symm.trans (hsorted ▸ hperm right)
    · cases hright
  · cases hleft

theorem isLowerHex_bounds {unit : UInt16} (h : isLowerHex unit = true) :
    unit ≠ 0 ∧ unit.toNat < 128 := by
  simp only [isLowerHex, Bool.or_eq_true, Bool.and_eq_true, decide_eq_true_eq,
    UInt16.le_iff_toNat_le] at h
  have hbounds : 0 < unit.toNat ∧ unit.toNat < 128 := by
    obtain ⟨hlow, hhigh⟩ | ⟨hlow, hhigh⟩ := h
    · exact ⟨Nat.lt_of_lt_of_le (by decide) hlow, Nat.lt_of_le_of_lt hhigh (by decide)⟩
    · exact ⟨Nat.lt_of_lt_of_le (by decide) hlow, Nat.lt_of_le_of_lt hhigh (by decide)⟩
  refine ⟨?_, hbounds.2⟩
  rintro rfl
  exact Nat.lt_irrefl _ hbounds.1

theorem units_of_isSourceId {sourceId : JsText} (h : isSourceId sourceId = true) :
    0 ∉ sourceId ∧ asciiText sourceId := by
  simp only [isSourceId, Bool.and_eq_true, decide_eq_true_eq] at h
  obtain ⟨hhead, -, hdigits⟩ := h
  have hsplit : sourceId = [115, 115, 95] ++ sourceId.drop 3 := by
    rw [← hhead, List.take_append_drop]
  have hunits : ∀ unit ∈ sourceId, unit ≠ 0 ∧ unit.toNat < 128 := by
    intro unit hmem
    rw [hsplit] at hmem
    obtain hmem | hmem := List.mem_append.mp hmem
    · have hall : ([115, 115, 95] : JsText).all
          (fun unit => decide (unit ≠ 0 ∧ unit.toNat < 128)) = true := by decide
      exact of_decide_eq_true (List.all_eq_true.mp hall unit hmem)
    · exact isLowerHex_bounds (List.all_eq_true.mp hdigits unit hmem)
  exact ⟨fun hzero => (hunits 0 hzero).1 rfl, fun unit hmem => (hunits unit hmem).2⟩

theorem deriveSkillId_inj (hinjective : Function.Injective p.sha256)
    {sourceId sourceId' name name' : JsText} (hsource : isSourceId sourceId = true)
    (hsource' : isSourceId sourceId' = true) (hname : asciiText name) (hname' : asciiText name')
    (h : deriveSkillId p sourceId name = deriveSkillId p sourceId' name') :
    sourceId = sourceId' ∧ name = name' := by
  obtain ⟨hzero, hascii⟩ := units_of_isSourceId hsource
  obtain ⟨hzero', hascii'⟩ := units_of_isSourceId hsource'
  have hall : ∀ {source other : JsText}, asciiText source → asciiText other →
      asciiText (source ++ 0 :: other) := by
    intro source other hleft hright unit hmem
    obtain hmem | hmem := List.mem_append.mp hmem
    · exact hleft unit hmem
    · obtain rfl | hmem := List.mem_cons.mp hmem
      · decide
      · exact hright unit hmem
  have htexts := pathBytes_inj (hall hascii hname) (hall hascii' hname')
    (hinjective (List.append_cancel_left h))
  have hlengths : ∀ {source other : JsText}, 0 ∉ source →
      (source ++ 0 :: other).idxOf 0 = source.length := by
    intro source other hfresh
    rw [List.idxOf_append_of_notMem hfresh, List.idxOf_cons_self, Nat.add_zero]
  have hlength : sourceId.length = sourceId'.length := by
    rw [← hlengths hzero, htexts, hlengths hzero']
  obtain ⟨rfl, hrest⟩ := List.append_inj htexts hlength
  exact ⟨rfl, (List.cons.inj hrest).2⟩

end KodeGpt.BundleFingerprints
