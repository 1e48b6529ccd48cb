import KodeGpt.FailureExcerpts

/-!
Which logs `ci.failure` reads as it should: those that the limit does not cut inside
a character, and whose chunks do not hide what comes after the limit.
-/

namespace KodeGpt.ScannedLogs

open JsObjects TextEncodings CodePoints ResponseBudgets FailureLogs FailureExcerpts
open JsonText (Bytes)
open JsFrames (asciiUnits)

theorem concatenateFrom_eq (front : Bytes) (chunks : List Bytes) :
    concatenateFrom (front ++ List.replicate chunks.flatten.length 0) front.length chunks =
      .ok (front ++ chunks.flatten) := by
  induction chunks generalizing front with
  | nil => simp [concatenateFrom]
  | cons chunk rest ih =>
    have hset : setBytes (front ++ List.replicate (chunk :: rest).flatten.length 0) chunk
        front.length = .ok (front ++ chunk ++ List.replicate rest.flatten.length 0) := by
      have hfits : front.length + chunk.length ≤
          (front ++ List.replicate (chunk :: rest).flatten.length (0 : UInt8)).length := by
        simp
      rw [setBytes, if_pos hfits, List.take_left, List.drop_append, List.drop_replicate]
      simp
    have hrest := ih (front ++ chunk)
    rw [List.length_append] at hrest
    rw [concatenateFrom, hset]
    change concatenateFrom (front ++ chunk ++ List.replicate rest.flatten.length 0)
      (front.length + chunk.length) rest = _
    rw [hrest, List.append_assoc]
    rfl

theorem concatenate_eq {chunks : List Bytes} {total : Nat}
    (htotal : total = chunks.flatten.length) :
    concatenate chunks total = .ok chunks.flatten := by
  rw [concatenate, htotal]
  exact concatenateFrom_eq [] chunks

/-- Chunks of just so many bytes are followed by an empty one, and more bytes come after that. -/
def HidesRest (limit : Nat) (chunks : List Bytes) : Prop :=
  ∃ front back, chunks = front ++ [] :: back ∧ front.flatten.length = limit ∧ back.flatten ≠ []

theorem hidesRest_cons {limit : Nat} {chunk : Bytes} {rest : List Bytes}
    (hless : chunk.length < limit) :
    HidesRest limit (chunk :: rest) ↔ HidesRest (limit - chunk.length) rest := by
  constructor
  · rintro ⟨front, back, hsplit, hlength, hback⟩
    cases front with
    | nil => exact absurd hlength (by simp; omega)
    | cons first front =>
      obtain ⟨rfl, hrest⟩ := List.cons.inj hsplit
      rw [List.flatten_cons, List.length_append] at hlength
      exact ⟨front, back, hrest, by omega, hback⟩
  · rintro ⟨front, back, rfl, hlength, hback⟩
    refine ⟨chunk :: front, back, rfl, ?_, hback⟩
    rw [List.flatten_cons, List.length_append]
    omega

theorem not_hidesRest_of_longer {limit : Nat} {chunk : Bytes} {rest : List Bytes}
    (hpos : 0 < limit) (hlonger : limit < chunk.length) : ¬ HidesRest limit (chunk :: rest) := by
  rintro ⟨front, back, hsplit, hlength, -⟩
  cases front with
  | nil => exact absurd hlength (by simp; omega)
  | cons first front =>
    obtain ⟨rfl, -⟩ := List.cons.inj hsplit
    rw [List.flatten_cons, List.length_append] at hlength
    omega

theorem readNext_values {chunk : Bytes} (hpos : 0 < chunk.length) (rest : List Bytes) :
    ∃ truncated, readNext (rest.map .value) = .ok truncated ∧
      (truncated = true ↔ rest.flatten ≠ [] ∧ ¬ HidesRest chunk.length (chunk :: rest)) := by
  cases rest with
  | nil => exact ⟨false, rfl, by simp⟩
  | cons next later =>
    refine ⟨_, rfl, ?_⟩
    rw [decide_eq_true_eq, List.flatten_cons]
    cases next with
    | nil =>
      refine iff_of_false (Nat.lt_irrefl 0) ?_
      rintro ⟨hmore, hshown⟩
      exact hshown ⟨[chunk], later, rfl, by simp, hmore⟩
    | cons byte next =>
      refine iff_of_true (Nat.succ_pos _) ⟨nofun, ?_⟩
      rintro ⟨front, back, hsplit, hlength, -⟩
      cases front with
      | nil => exact absurd hlength (by simp; omega)
      | cons first front =>
        obtain ⟨rfl, hrest⟩ := List.cons.inj hsplit
        rw [List.flatten_cons, List.length_append] at hlength
        cases front with
        | nil => cases hrest
        | cons second front =>
          obtain ⟨rfl, -⟩ := List.cons.inj hrest
          rw [List.flatten_cons, List.length_append, List.length_cons] at hlength
          omega

theorem readLoop_values {scanMaxBytes : Nat} (rest chunks : List Bytes)
    (hroom : chunks.flatten.length < scanMaxBytes) :
    ∃ kept truncated, readLoop scanMaxBytes (rest.map .value) chunks chunks.flatten.length =
        .ok (kept, kept.flatten.length, truncated) ∧
      kept.flatten = (chunks.flatten ++ rest.flatten).take scanMaxBytes ∧
      (truncated = true ↔ scanMaxBytes < (chunks.flatten ++ rest.flatten).length ∧
        ¬ HidesRest (scanMaxBytes - chunks.flatten.length) rest) := by
  induction rest generalizing chunks with
  | nil =>
    rw [List.flatten_nil, List.append_nil, List.take_of_length_le (Nat.le_of_lt hroom)]
    exact ⟨chunks, false, rfl, rfl, iff_of_false nofun fun hmore => by omega⟩
  | cons chunk rest ih =>
    have hfront : chunks.flatten.take scanMaxBytes = chunks.flatten :=
      List.take_of_length_le (Nat.le_of_lt hroom)
    have hflatten : ∀ piece : Bytes, (chunks ++ [piece]).flatten = chunks.flatten ++ piece := by
      intro piece
      rw [List.flatten_append, List.flatten_singleton]
    rw [List.map_cons, readLoop, if_pos (Nat.le_of_lt hroom), List.flatten_cons]
    dsimp only
    split
    · -- The chunk reaches beyond the limit.
      rename_i hlonger
      rw [if_pos (by omega)]
      have hkept :
          (chunks ++ [chunk.take (scanMaxBytes - chunks.flatten.length)]).flatten.length =
            chunks.flatten.length + (scanMaxBytes - chunks.flatten.length) := by
        rw [hflatten, List.length_append, List.length_take]
        omega
      refine ⟨_, _, congrArg Except.ok (Prod.ext rfl (Prod.ext hkept.symm rfl)), ?_, ?_⟩
      · rw [hflatten, List.take_append, hfront,
          List.take_append_of_le_length (Nat.le_of_lt hlonger)]
      · refine iff_of_true rfl ⟨?_, not_hidesRest_of_longer (by omega) hlonger⟩
        rw [List.length_append, List.length_append]
        omega
    · rename_i hwithin
      have hsum := congrArg List.length (hflatten chunk)
      rw [List.length_append] at hsum
      split
      · -- The chunk ends at the limit, and one more read tells whether there is more.
        rename_i hexact
        obtain ⟨truncated, hnext, hshown⟩ := @readNext_values chunk (by omega) rest
        have hlimit : scanMaxBytes - chunks.flatten.length = chunk.length := by omega
        rw [hnext]
        refine ⟨chunks ++ [chunk], truncated, ?_, ?_, ?_⟩
        · rw [hsum]
          rfl
        · rw [hflatten, List.take_append, hfront, hlimit, List.take_left]
        · rw [hshown, hlimit, List.length_append, List.length_append,
            ← List.length_pos_iff]
          exact and_congr_left' (by omega)
      · rename_i hshort
        have hrest := ih (chunks ++ [chunk]) (by omega)
        rw [hsum, hflatten, List.append_assoc] at hrest
        obtain ⟨kept, truncated, hloop, hkept, hshown⟩ := hrest
        refine ⟨kept, truncated, hloop, hkept, hshown.trans ?_⟩
        rw [hidesRest_cons (by omega), Nat.sub_sub]

/-- Of every log, in any chunks, the first bytes up to the limit are kept; it is known to be
longer exactly if no chunk hides that. -/
theorem readBoundedLog_value (body : Option (List Bytes)) {scanMaxBytes : Nat}
    (hlimit : 0 < scanMaxBytes) :
    ∃ truncated, readBoundedLog (body.map fun chunks => chunks.map .value) scanMaxBytes =
        .ok ⟨(body.getD []).flatten.take scanMaxBytes, truncated⟩ ∧
      (truncated = true ↔ scanMaxBytes < (body.getD []).flatten.length ∧
        ¬ HidesRest scanMaxBytes (body.getD [])) := by
  cases body with
  | none => exact ⟨false, by simp [readBoundedLog], by simp⟩
  | some chunks =>
    obtain ⟨kept, truncated, hloop, hkept, hshown⟩ := @readLoop_values scanMaxBytes chunks []
      hlimit
    have hbytes := concatenate_eq (rfl : kept.flatten.length = kept.flatten.length)
    refine ⟨truncated, ?_, hshown⟩
    change readLoop scanMaxBytes (chunks.map .value) [] 0 = _ at hloop
    rw [Option.map_some, readBoundedLog, hloop]
    change (concatenate kept kept.flatten.length).bind _ = _
    rw [hbytes, hkept]
    rfl

theorem utf8Length_text_eq (text : JsText) (start count : Nat) :
    utf8Length text = utf8Length ((codePoints text).take start).flatten +
      (utf8Length (pieceOf text start count) +
        utf8Length (((codePoints text).drop start).drop count).flatten) := by
  have hdrop : AreCodePoints ((codePoints text).drop start) := drop_areCodePoints text start
  rw [pieceOf, utf8Length_addsUp.flatten (take_areCodePoints text start),
    utf8Length_addsUp.flatten (hdrop.take count), utf8Length_addsUp.flatten (hdrop.drop count),
    ← List.sum_append, ← List.map_append, List.take_append_drop, ← List.sum_append,
    ← List.map_append, List.take_append_drop, utf8Length_addsUp.sum]

/-- A piece has fewer bytes unless it is the whole text. -/
theorem utf8Length_pieceOf_lt_iff (text : JsText) (start count : Nat) :
    utf8Length (pieceOf text start count) < utf8Length text ↔ pieceOf text start count ≠ text := by
  constructor
  · intro hless heq
    rw [heq] at hless
    exact Nat.lt_irrefl _ hless
  · intro hne
    by_contra hall
    have hlength := utf8Length_text_eq text start count
    have hbefore := eq_nil_of_utf8Length
      (show utf8Length ((codePoints text).take start).flatten = 0 by omega)
    have hafter := eq_nil_of_utf8Length
      (show utf8Length (((codePoints text).drop start).drop count).flatten = 0 by omega)
    apply hne
    conv_rhs => rw [← codePoints_flatten text, ← List.take_append_drop start (codePoints text),
      ← List.take_append_drop count ((codePoints text).drop start)]
    rw [List.flatten_append, List.flatten_append, hbefore, hafter, List.nil_append,
      List.append_nil]
    rfl

theorem mem_canonicalReasons {reason : TruncationReason} {reasons : List TruncationReason} :
    reason ∈ canonicalReasons reasons ↔ reason ∈ reasons := by
  have hall : reason ∈ ciTruncationReasons := by cases reason <;> decide
  rw [canonicalReasons, List.mem_filter, decide_eq_true_eq]
  exact and_iff_right hall

theorem mem_reported {flag : Prop} [Decidable flag] {reason other : TruncationReason} :
    other ∈ (if flag then [reason] else []) ↔ flag ∧ other = reason := by
  split <;> simp [*]

/-- The excerpt of the log and what is told of it: it is a piece of the text after the secrets
were taken out, and the limit is reported if anything is missing. -/
structure TellsOf (redactedLog : JsText) (truncated : Bool) (excerpt : JsText)
    (reasons : List TruncationReason) : Prop where
  piece : ∃ start count, excerpt = pieceOf redactedLog start count
  bounded : utf8Length excerpt ≤ ciLogExcerptDefaultBytes
  reported : .logByteLimit ∈ reasons ↔ truncated = true ∨ excerpt ≠ redactedLog

section Failure

variable (redactCiText : JsText → JsText → JsText) (casing : LowerCasing)

theorem failureExcerpt_ok (metadata : FailureMetadata) (token : JsText) {log : GitHubLogRead}
    {decodedLog : JsText} (hrequests : 1 ≤ log.providerRequests ∧ log.providerRequests ≤ 2)
    (hbytes : log.bytes.length ≤ ciLogScanMaxBytes)
    (hdecoded : decodeLog log.bytes = some decodedLog) :
    ∃ excerpt reasons, failureExcerpt redactCiText casing metadata token log =
        .ok (excerpt, reasons) ∧
      TellsOf (redactCiText decodedLog token) log.truncated excerpt reasons := by
  have hmetadata := metadata.requests_bounds
  rw [failureExcerpt, if_neg (by omega), if_neg (by unfold failureRequestBudget; omega),
    if_neg (by omega), hdecoded]
  obtain ⟨start, count, hpiece, hbounded⟩ := extractFailureExcerpt_piece casing
    (redactCiText decodedLog token) ((metadata.failedStep.toList ++
      [metadata.jobName, asciiUnits "error", asciiUnits "fail"]).filter
        fun value => 0 < value.length)
  refine ⟨_, _, rfl, ⟨start, count, hpiece⟩, hbounded, ?_⟩
  rw [mem_canonicalReasons]
  simp only [List.mem_append, mem_reported, reduceCtorEq, and_false, or_false, false_or, and_true,
    Bool.or_eq_true, decide_eq_true_eq]
  rw [hpiece, utf8Length_pieceOf_lt_iff]

/-- A complete reading: the bytes up to the limit are kept, it is known
whether there are more, and the excerpt is told to be cut exactly if something is missing. -/
structure ReadsLog (metadata : FailureMetadata) (token : JsText) (redirected : Bool)
    (body : Option (List Bytes)) : Prop where
  kept : readBoundedLog (body.map fun chunks => chunks.map .value) ciLogScanMaxBytes =
    .ok ⟨(body.getD []).flatten.take ciLogScanMaxBytes,
      ciLogScanMaxBytes < (body.getD []).flatten.length⟩
  told : ∃ decodedLog excerpt reasons,
    decodeLog ((body.getD []).flatten.take ciLogScanMaxBytes) = some decodedLog ∧
      failureLog redactCiText casing metadata token redirected
          (body.map fun chunks => chunks.map .value) = .ok (excerpt, reasons) ∧
        TellsOf (redactCiText decodedLog token)
          (ciLogScanMaxBytes < (body.getD []).flatten.length) excerpt reasons

theorem HidesRest.longer {limit : Nat} {chunks : List Bytes} (hhides : HidesRest limit chunks) :
    limit < chunks.flatten.length := by
  obtain ⟨front, back, rfl, hlength, hback⟩ := hhides
  have hpos := List.length_pos_iff.mpr hback
  rw [List.flatten_append, List.flatten_cons, List.nil_append, List.length_append]
  omega

theorem decodeLog_isSome (bytes : Bytes) : (decodeLog bytes).isSome = validUtf8 bytes := by
  rw [decodeLog, Option.isSome_map]
  rfl

/-- A log is read as it should be exactly if its first bytes up to the limit are whole
characters, and no empty chunk right after them hides what follows. -/
theorem readsLog_iff (metadata : FailureMetadata) (token : JsText) (redirected : Bool)
    (body : Option (List Bytes)) :
    ReadsLog redactCiText casing metadata token redirected body ↔
      validUtf8 ((body.getD []).flatten.take ciLogScanMaxBytes) = true ∧
        ¬ HidesRest ciLogScanMaxBytes (body.getD []) := by
  obtain ⟨truncated, hread, hshown⟩ := readBoundedLog_value body
    (show 0 < ciLogScanMaxBytes by decide)
  constructor
  · intro hreads
    obtain ⟨decodedLog, excerpt, reasons, hdecoded, -, -⟩ := hreads.told
    refine ⟨?_, fun hhides => ?_⟩
    · rw [← decodeLog_isSome, hdecoded]
      rfl
    · have hflag : truncated = decide (ciLogScanMaxBytes < (body.getD []).flatten.length) :=
        congrArg BoundedLog.truncated (Except.ok.inj (hread.symm.trans hreads.kept))
      have hmore : truncated = true := by rw [hflag, decide_eq_true hhides.longer]
      exact (hshown.mp hmore).2 hhides
  · rintro ⟨hvalid, hshows⟩
    have hflag : truncated = decide (ciLogScanMaxBytes < (body.getD []).flatten.length) := by
      rw [Bool.eq_iff_iff, hshown, decide_eq_true_eq]
      exact and_iff_left hshows
    rw [hflag] at hread
    rw [← decodeLog_isSome, Option.isSome_iff_exists] at hvalid
    obtain ⟨decodedLog, hdecoded⟩ := hvalid
    have hrequests : 1 ≤ (if redirected then 2 else 1) ∧ (if redirected then 2 else 1) ≤ 2 := by
      cases redirected <;> decide
    refine ⟨hread, decodedLog, ?_⟩
    obtain ⟨excerpt, reasons, hok, htells⟩ := @failureExcerpt_ok redactCiText casing metadata token
      ⟨⟨(body.getD []).flatten.take ciLogScanMaxBytes,
        ciLogScanMaxBytes < (body.getD []).flatten.length⟩, if redirected then 2 else 1⟩
      decodedLog hrequests
      (by rw [List.length_take]; exact Nat.min_le_left _ _) hdecoded
    refine ⟨excerpt, reasons, hdecoded, ?_, htells⟩
    rw [failureLog, hread]
    exact hok

end Failure

def splitLog (count : Nat) : Bytes := List.replicate count 97 ++ [195, 169]

theorem validUtf8_splitLog (count : Nat) : validUtf8 (splitLog count) = true := by
  refine validUtf8_append (validUtf8_ascii fun byte hbyte => ?_) (by decide)
  rw [List.eq_of_mem_replicate hbyte]
  decide

theorem take_splitLog (count : Nat) :
    (splitLog count).take (count + 1) = List.replicate count 97 ++ [195] := by
  have hlength : (List.replicate count (97 : UInt8)).length = count := List.length_replicate
  rw [splitLog, List.take_append, hlength, List.take_of_length_le (by omega),
    Nat.add_sub_cancel_left]
  rfl

theorem not_validUtf8_cut (count : Nat) :
    validUtf8 ((splitLog count).take (count + 1)) = false := by
  rw [take_splitLog, Bool.eq_false_iff]
  induction count with
  | zero => decide
  | succ count ih =>
    intro hvalid
    rw [List.replicate_succ, List.cons_append] at hvalid
    exact ih (@validUtf8_split [] (List.replicate count 97 ++ [195]) 97 (by decide) hvalid).2

def failedJob : FailureMetadata where
  providerRequests := 2
  requests_bounds := by decide
  jobName := asciiUnits "build"
  failedStep := some (asciiUnits "test")
  jobLimitReached := false
  stepLimitReached := false
  annotationLimitReached := false
  providerPageLimited := false

/-- The log ends one byte after the limit, with a character that begins before it. -/
theorem splitLog_not_read : ¬ ∀ (redactCiText : JsText → JsText → JsText) (casing : LowerCasing)
    (metadata : FailureMetadata) (token : JsText) (redirected : Bool) (body : Option (List Bytes)),
    validUtf8 (body.getD []).flatten = true →
      ReadsLog redactCiText casing metadata token redirected body := by
  intro hall
  have hbody : ∀ count, ((some [splitLog count]).getD []).flatten = splitLog count := fun count =>
    List.flatten_singleton
  have hreads := hall (fun text _ => text) asciiCasing failedJob [] true (some [splitLog 524287])
    (by rw [hbody]; exact validUtf8_splitLog _)
  have hvalid := ((readsLog_iff _ _ _ _ _ _).mp hreads).1
  rw [hbody] at hvalid
  have hcut := not_validUtf8_cut 524287
  rw [show 524287 + 1 = ciLogScanMaxBytes from rfl] at hcut
  rw [hcut] at hvalid
  cases hvalid

end KodeGpt.ScannedLogs
