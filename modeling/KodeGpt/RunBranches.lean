import KodeGpt.FailureExcerpts
import KodeGpt.FallibleActions
import KodeGpt.RunPages

/-!
Which pages of workflow runs are reported at all: one run of a branch whose name is
not plain makes the whole page fail.
-/

namespace KodeGpt.RunBranches

open FallibleActions JsFrames JsObjects SafeRefs RunPages
open JsonText (Bytes utf8)
open FailureLogs (LowerCasing)
open FailureExcerpts (asciiCasing)
open GitCommands (validBranchName)

section Pages

variable (casing : LowerCasing) (newUrl : JsText → Option Url)
  (isoString : JsText → Option JsText) (isDatetime : JsText → Bool)

/-- A text of some units at most, without control characters. -/
def IsText (value : JsValue) (max : Nat) : Prop :=
  ∃ text, value = .string text ∧ isBounded text max = true

def timeFields : List JsText :=
  [asciiUnits "created_at", asciiUnits "run_started_at", asciiUnits "updated_at"]

/-- A run in the documented shape, with any name of a branch: its URL is written as a URL is
converted to a text, and the schema knows the format of its times. -/
structure DocumentedRun (raw : JsValue) : Prop where
  record : isRecord raw = true
  id : ∃ count ≤ maxSafeInteger, member raw (asciiUnits "id") = naturalNumber count
  name : IsText (member raw (asciiUnits "name")) 256
  displayTitle : isAbsent (member raw (asciiUnits "display_title")) = true ∨
    IsText (member raw (asciiUnits "display_title")) 256
  status : IsText (member raw (asciiUnits "status")) 64
  conclusion : isAbsent (member raw (asciiUnits "conclusion")) = true ∨
    IsText (member raw (asciiUnits "conclusion")) 64
  headSha : ∃ oid, member raw (asciiUnits "head_sha") = .string oid ∧ isOid oid = true
  headBranch : member raw (asciiUnits "head_branch") = .null ∨
    ∃ branch, member raw (asciiUnits "head_branch") = .string branch
  event : isAbsent (member raw (asciiUnits "event")) = true ∨
    IsText (member raw (asciiUnits "event")) 128
  htmlUrl : ∀ text url, member raw (asciiUnits "html_url") = .string text →
    newUrl text = some url → url.href = text
  times : ∀ field ∈ timeFields, ∀ text time, member raw field = .string text →
    isoString text = some time → isDatetime time = true

/-- The run has no branch, or one whose name is plain. -/
def HasPlainBranch (raw : JsValue) : Prop :=
  member raw (asciiUnits "head_branch") = .null ∨
    ∃ name : Bytes, member raw (asciiUnits "head_branch") = .string (name.map UInt8.toUInt16) ∧
      validBranchName name = true ∧ IsPlainName name

theorem expectBoundedString_of_isText {value : JsValue} {max : Nat} (hvalue : IsText value max) :
    ∃ text, expectBoundedString value max = .ok text ∧ 0 < text.length ∧ text.length ≤ max := by
  obtain ⟨text, rfl, hbounded⟩ := hvalue
  have hlengths := hbounded
  simp only [isBounded, Bool.and_eq_true, decide_eq_true_eq] at hlengths
  exact ⟨text, if_pos hbounded, hlengths.1⟩

theorem isBoundedName_of {text : JsText} (hpos : 0 < text.length) (hmax : text.length ≤ 256) :
    isBoundedName text = true := by
  rw [isBoundedName, decide_eq_true hpos, decide_eq_true hmax]
  rfl

theorem isDecimalId_digits (count : Nat) :
    isDecimalId (asciiUnits (String.ofList (Nat.toDigits 10 count))) = true := by
  have hunits : asciiUnits (String.ofList (Nat.toDigits 10 count)) =
      (Nat.toDigits 10 count).map fun character => character.toNat.toUInt16 := by
    rw [asciiUnits, String.toList_ofList]
  rw [isDecimalId, hunits, Bool.and_eq_true, decide_eq_true_eq, List.all_eq_true]
  refine ⟨fun hnil => ?_, fun unit hunit => ?_⟩
  · exact absurd (List.map_eq_nil_iff.mp hnil) Nat.toDigits_ne_nil
  · obtain ⟨digit, hdigit, rfl⟩ := List.mem_map.mp hunit
    have hrange := Char.isDigit_iff_toNat.mp
      (Nat.isDigit_of_mem_toDigits (by decide) (by decide) hdigit)
    change 48 ≤ digit.toNat ∧ digit.toNat ≤ 57 at hrange
    have hvalue : digit.toNat.toUInt16.toNat = digit.toNat := by
      change digit.toNat % 65536 = digit.toNat
      omega
    rw [isDigit, Bool.and_eq_true, decide_eq_true_eq, decide_eq_true_eq,
      UInt16.le_iff_toNat_le, UInt16.le_iff_toNat_le, hvalue]
    exact hrange

theorem safeCount_naturalNumber {count : Nat} (hcount : count ≤ maxSafeInteger) :
    safeCount (naturalNumber count) = some count := by
  have hdigits : (Nat.toDigits 10 count).all Char.isDigit = true := by
    rw [List.all_eq_true]
    exact fun digit => Nat.isDigit_of_mem_toDigits (by decide) (by decide)
  rw [naturalNumber, safeCount]
  simp only [digitsValue, hdigits, Nat.ofDigitChars_ten_toDigits, hcount, decide_true,
    Bool.true_and, if_true]

theorem hasControl_of_isSafeRef {ref : JsText} (href : isSafeRef ref = true) :
    hasControl ref = false := by
  have hunits : ∀ unit ∈ ref, isControl unit = false := by
    intro unit hunit
    obtain rfl | hname := mem_safeRef href unit hunit
    · decide
    · rw [Bool.eq_false_iff]
      intro hcontrol
      simp only [isNameUnit, isAlphanumeric, isControl, Bool.or_eq_true, Bool.and_eq_true,
        decide_eq_true_eq, UInt16.le_iff_toNat_le, UInt16.lt_iff_toNat_lt, ← UInt16.toNat_inj,
        UInt16.reduceToNat] at hname hcontrol
      omega
  exact hasControl_eq_false hunits

theorem expectSafeRef_string (branch : JsText) :
    expectSafeRef (.string branch) =
      if isSafeRefName branch then .ok branch else .error invalidResponse := by
  cases hsafe : isSafeRef branch with
  | true =>
    have hcontrol := hasControl_of_isSafeRef hsafe
    rw [expectSafeRef, expectBoundedString, isBounded, isSafeRefName, hcontrol, hsafe,
      Bool.not_false]
    split
    · change (if isSafeRef branch = true then _ else _) = _
      rw [hsafe, if_pos rfl]
    · rfl
  | false =>
    rw [isSafeRefName, hsafe, Bool.and_false, if_neg Bool.false_ne_true, expectSafeRef,
      expectBoundedString]
    split
    · change (if isSafeRef branch = true then _ else _) = _
      rw [hsafe, if_neg Bool.false_ne_true]
    · rfl

theorem normalizeRef_ok_iff {raw : JsValue}
    (hbranch : member raw (asciiUnits "head_branch") = .null ∨
      ∃ branch, member raw (asciiUnits "head_branch") = .string branch) :
    (∃ ref, normalizeRef (member raw (asciiUnits "head_branch")) = .ok ref ∧
      ref.all isSafeRefName = true) ↔ HasPlainBranch raw := by
  unfold HasPlainBranch
  obtain hnull | ⟨branch, hstring⟩ := hbranch
  · rw [hnull]
    exact iff_of_true ⟨none, rfl, rfl⟩ (Or.inl rfl)
  · rw [hstring]
    change (∃ ref, (expectSafeRef (.string branch)).map some = .ok ref ∧ _) ↔ _
    rw [expectSafeRef_string]
    split
    · rename_i hsafe
      obtain ⟨name, rfl, hname⟩ := (isSafeRefName_iff_exists branch).mp hsafe
      exact iff_of_true ⟨some _, rfl, hsafe⟩ (Or.inr ⟨name, rfl, hname⟩)
    · rename_i hunsafe
      refine iff_of_false (fun ⟨_, herror, _⟩ => nomatch herror) ?_
      rintro (hnull | ⟨name, heq, hname⟩)
      · cases hnull
      · obtain rfl := JsValue.string.inj heq
        exact hunsafe ((isSafeRefName_iff name).mpr hname)

theorem expectDisplay_of {value : JsValue} {workflow : JsText}
    (hvalue : isAbsent value = true ∨ IsText value 256)
    (hworkflow : 0 < workflow.length ∧ workflow.length ≤ 256) :
    ∃ text, expectDisplay value workflow = .ok text ∧ 0 < text.length ∧ text.length ≤ 256 := by
  rw [expectDisplay]
  split
  · exact ⟨workflow, rfl, hworkflow⟩
  · rename_i habsent
    exact expectBoundedString_of_isText (hvalue.resolve_left habsent)

theorem nullableBoundedString_of {value : JsValue} {max : Nat}
    (hvalue : isAbsent value = true ∨ IsText value max) :
    ∃ text, nullableBoundedString value max = .ok text ∧
      text.all (fun text => 0 < text.length && text.length ≤ max) = true := by
  rw [nullableBoundedString]
  split
  · exact ⟨none, rfl, rfl⟩
  · rename_i habsent
    obtain ⟨text, hok, hpos, hmax⟩ := expectBoundedString_of_isText (hvalue.resolve_left habsent)
    refine ⟨some text, by rw [hok]; rfl, ?_⟩
    rw [Option.all_some, decide_eq_true hpos, decide_eq_true hmax]
    rfl

theorem normalizeGithubConclusionNullable_of {value : JsValue}
    (hvalue : isAbsent value = true ∨ IsText value 64) :
    ∃ conclusion, normalizeGithubConclusionNullable casing value = .ok conclusion := by
  rw [normalizeGithubConclusionNullable]
  split
  · exact ⟨none, rfl⟩
  · rename_i habsent
    obtain ⟨text, hok, -⟩ := expectBoundedString_of_isText (hvalue.resolve_left habsent)
    exact ⟨_, by rw [hok]; rfl⟩

theorem isGithubUrl_safeRepositoryUrl {value : JsValue}
    (hvalue : ∀ text url, value = .string text → newUrl text = some url → url.href = text)
    (repository : CiRepositoryIdentity) :
    (safeRepositoryUrl casing newUrl value repository).all (isGithubUrl casing newUrl) = true := by
  rw [Option.all_eq_true]
  intro href hhref
  unfold safeRepositoryUrl at hhref
  split at hhref
  · rename_i text
    split at hhref
    · cases hhref
    · rename_i hlength
      obtain ⟨url, hurl, hhref⟩ := Option.bind_eq_some_iff.mp hhref
      split at hhref
      · cases hhref
      · rename_i hparts
        split at hhref
        · obtain ⟨owner, -, hhref⟩ := Option.bind_eq_some_iff.mp hhref
          obtain ⟨name, -, hhref⟩ := Option.bind_eq_some_iff.mp hhref
          split at hhref
          · cases hhref
          · obtain rfl := Option.some.inj hhref
            simp only [not_or, not_not, Nat.not_lt] at hlength hparts
            rw [hvalue text url rfl hurl, isGithubUrl, hurl]
            simp [hlength, hparts]
        · cases hhref
  · cases hhref

theorem isDatetime_normalizeTimestamp {value : JsValue}
    (hvalue : ∀ text time, value = .string text → isoString text = some time →
      isDatetime time = true) :
    (normalizeTimestamp isoString value).all isDatetime = true := by
  rw [Option.all_eq_true]
  intro time htime
  unfold normalizeTimestamp at htime
  split at htime
  · split at htime
    · cases htime
    · exact hvalue _ time rfl htime
  · cases htime

/-- Of a documented run only the name of the branch can be refused, by the code or by the
schema. -/
theorem normalizeRun_eq {raw : JsValue} (hraw : DocumentedRun newUrl isoString isDatetime raw)
    (repository : CiRepositoryIdentity) :
    ∃ summary : Option JsText → CiRunSummary,
      normalizeRun casing newUrl isoString raw repository =
        (normalizeRef (member raw (asciiUnits "head_branch"))).map summary ∧
      ∀ ref, ciRunSummarySchema casing newUrl isDatetime (summary ref) =
        ref.all isSafeRefName := by
  obtain ⟨workflow, hworkflow, hworkflowLength⟩ := expectBoundedString_of_isText hraw.name
  obtain ⟨display, hdisplay, hdisplayLength⟩ := expectDisplay_of hraw.displayTitle hworkflowLength
  obtain ⟨count, hcount, hid⟩ := hraw.id
  have hprovider : normalizeProviderId (member raw (asciiUnits "id")) =
      .ok (asciiUnits (String.ofList (Nat.toDigits 10 count))) := by
    have hread := safeCount_naturalNumber hcount
    rw [hid]
    unfold normalizeProviderId
    split
    · rename_i hstring
      cases hstring
    · rw [hread]
  obtain ⟨status, hstatus, -⟩ := expectBoundedString_of_isText hraw.status
  obtain ⟨conclusion, hconclusion⟩ := normalizeGithubConclusionNullable_of casing hraw.conclusion
  obtain ⟨oid, hsha, hoid⟩ := hraw.headSha
  have hhead : expectOid (member raw (asciiUnits "head_sha")) = .ok oid := by
    rw [hsha, expectOid, if_pos hoid]
  obtain ⟨event, hevent, heventLength⟩ := nullableBoundedString_of hraw.event
  have hurl := isGithubUrl_safeRepositoryUrl casing newUrl hraw.htmlUrl repository
  have htime := fun field hfield => isDatetime_normalizeTimestamp isoString isDatetime
    (hraw.times field hfield)
  refine ⟨fun ref => ⟨asciiUnits (String.ofList (Nat.toDigits 10 count)), display, some workflow,
    normalizeGithubStatus casing status, conclusion, oid, ref, event,
    safeRepositoryUrl casing newUrl (member raw (asciiUnits "html_url")) repository,
    normalizeTimestamp isoString (member raw (asciiUnits "created_at")),
    normalizeTimestamp isoString (member raw (asciiUnits "run_started_at")),
    normalizeTimestamp isoString (member raw (asciiUnits "updated_at"))⟩, ?_, ?_⟩
  · rw [normalizeRun, expectRecord, if_pos hraw.record]
    simp only [hworkflow, hdisplay, hprovider, hstatus, hconclusion, hhead, hevent, bind,
      Except.bind]
    cases normalizeRef (member raw (asciiUnits "head_branch")) <;> rfl
  · intro ref
    simp only [ciRunSummarySchema, isDecimalId_digits, hoid, heventLength, hurl,
      isBoundedName_of hdisplayLength.1 hdisplayLength.2,
      isBoundedName_of hworkflowLength.1 hworkflowLength.2, Option.all_some, Bool.true_and,
      Bool.and_true, htime _ (show asciiUnits "created_at" ∈ timeFields by simp [timeFields]),
      htime _ (show asciiUnits "run_started_at" ∈ timeFields by simp [timeFields]),
      htime _ (show asciiUnits "updated_at" ∈ timeFields by simp [timeFields])]

theorem normalizeRun_accepted_iff {raw : JsValue}
    (hraw : DocumentedRun newUrl isoString isDatetime raw) (repository : CiRepositoryIdentity) :
    (∃ run, normalizeRun casing newUrl isoString raw repository = .ok run ∧
      ciRunSummarySchema casing newUrl isDatetime run = true) ↔ HasPlainBranch raw := by
  obtain ⟨summary, hrun, hschema⟩ := normalizeRun_eq casing newUrl isoString isDatetime hraw
    repository
  rw [← normalizeRef_ok_iff hraw.headBranch, hrun]
  constructor
  · rintro ⟨run, hok, hrun⟩
    obtain ⟨ref, href, rfl⟩ := map_eq_ok_iff.mp hok
    exact ⟨ref, href, hschema ref ▸ hrun⟩
  · rintro ⟨ref, href, hsafe⟩
    exact ⟨summary ref, by rw [href]; rfl, hschema ref ▸ hsafe⟩

structure DocumentedPage (raw : JsValue) (values : List JsValue) : Prop where
  record : isRecord raw = true
  totalCount : ∃ count ≤ maxSafeInteger, member raw (asciiUnits "total_count") = naturalNumber count
  workflowRuns : member raw (asciiUnits "workflow_runs") = .array values
  runs : ∀ run ∈ values, DocumentedRun newUrl isoString isDatetime run

theorem normalizeRunPage_items {raw : JsValue} {values : List JsValue}
    (hpage : DocumentedPage newUrl isoString isDatetime raw values)
    (repository : CiRepositoryIdentity) (limit : Nat) (items : List CiRunSummary) :
    (∃ page, normalizeRunPage casing newUrl isoString raw repository limit = .ok page ∧
      page.items = items) ↔
    (values.take limit).mapM (fun value =>
      normalizeRun casing newUrl isoString value repository) = .ok items := by
  obtain ⟨count, hcount, htotal⟩ := hpage.totalCount
  have hread : expectSafeCount (member raw (asciiUnits "total_count")) = .ok count := by
    rw [htotal, expectSafeCount, safeCount_naturalNumber hcount]
  have hvalues : expectArray (member raw (asciiUnits "workflow_runs")) = .ok values := by
    rw [hpage.workflowRuns]
    rfl
  rw [normalizeRunPage, expectRecord, if_pos hpage.record]
  simp only [hread, hvalues, bind, Except.bind]
  cases (values.take limit).mapM fun value =>
    normalizeRun casing newUrl isoString value repository with
  | error error => exact iff_of_false (fun ⟨_, herror, _⟩ => nomatch herror) nofun
  | ok observed =>
    constructor
    · rintro ⟨page, hok, rfl⟩
      rw [← Except.ok.inj hok]
    · intro heq
      exact ⟨_, rfl, Except.ok.inj heq⟩

/-- A page of documented runs is reported exactly if each run that is looked at has no branch or
one whose name is plain. -/
theorem normalizeRunPage_accepted_iff {raw : JsValue} {values : List JsValue}
    (hpage : DocumentedPage newUrl isoString isDatetime raw values)
    (repository : CiRepositoryIdentity) {limit : Nat} (hlimit : limit ≤ maxCiRunsLimit) :
    (∃ page, normalizeRunPage casing newUrl isoString raw repository limit = .ok page ∧
      ciRunsSchema casing newUrl isDatetime page.items = true) ↔
    ∀ run ∈ values.take limit, HasPlainBranch run := by
  have hruns : (∀ run ∈ values.take limit, HasPlainBranch run) ↔
      ∀ run ∈ values.take limit, ∃ item,
        normalizeRun casing newUrl isoString run repository = .ok item ∧
          ciRunSummarySchema casing newUrl isDatetime item = true :=
    forall₂_congr fun run hmem => (normalizeRun_accepted_iff casing newUrl isoString isDatetime
      (hpage.runs run (List.mem_of_mem_take hmem)) repository).symm
  rw [hruns, ← mapM_all_iff]
  have hitems := normalizeRunPage_items casing newUrl isoString isDatetime hpage repository limit
  constructor
  · rintro ⟨page, hok, hschema⟩
    exact ⟨page.items, (hitems page.items).mp ⟨page, hok, rfl⟩,
      (Bool.and_eq_true_iff.mp hschema).2⟩
  · rintro ⟨items, hmap, hschema⟩
    obtain ⟨page, hok, rfl⟩ := (hitems items).mpr hmap
    have hlength := (forall₂_of_mapM hmap).length_eq
    rw [List.length_take] at hlength
    refine ⟨page, hok, Bool.and_eq_true_iff.mpr ⟨decide_eq_true ?_, hschema⟩⟩
    omega

end Pages

def branchRun (branch : JsText) : JsValue :=
  .object [(asciiUnits "id", naturalNumber 9123), (asciiUnits "name", .string (asciiUnits "CI")),
    (asciiUnits "display_title", .string (asciiUnits "Repair the parser")),
    (asciiUnits "status", .string (asciiUnits "completed")),
    (asciiUnits "conclusion", .string (asciiUnits "success")),
    (asciiUnits "head_sha", .string (List.replicate 40 97)),
    (asciiUnits "head_branch", .string branch), (asciiUnits "event", .string (asciiUnits "push"))]

def branchPage (branch : JsText) : JsValue :=
  .object [(asciiUnits "total_count", naturalNumber 1),
    (asciiUnits "workflow_runs", .array [branchRun branch])]

def exampleRepository : CiRepositoryIdentity := ⟨asciiUnits "2ndworld", asciiUnits "kodeGPT"⟩

theorem branchPage_documented (branch : JsText) (newUrl : JsText → Option Url)
    (isoString : JsText → Option JsText) (isDatetime : JsText → Bool) :
    DocumentedPage newUrl isoString isDatetime (branchPage branch) [branchRun branch] where
  record := rfl
  totalCount := ⟨1, by decide, rfl⟩
  workflowRuns := rfl
  runs := by
    rintro run hrun
    obtain rfl := List.mem_singleton.mp hrun
    refine ⟨rfl, ⟨9123, by decide, rfl⟩, ⟨asciiUnits "CI", rfl, by decide⟩,
      Or.inr ⟨asciiUnits "Repair the parser", rfl, by decide⟩,
      ⟨asciiUnits "completed", rfl, by decide⟩, Or.inr ⟨asciiUnits "success", rfl, by decide⟩,
      ⟨List.replicate 40 97, rfl, by decide⟩, Or.inr ⟨branch, rfl⟩,
      Or.inr ⟨asciiUnits "push", rfl, by decide⟩, fun _ _ htext => ?_,
      fun field hfield text _ htext => ?_⟩
    · cases htext
    simp only [timeFields, List.mem_cons, List.not_mem_nil, or_false] at hfield
    obtain rfl | rfl | rfl := hfield
    · cases htext
    · cases htext
    · cases htext

/-- A page with a run of the branch `main` is reported. -/
theorem mainBranch_reported :
    ∃ page, normalizeRunPage asciiCasing (fun _ => none) (fun _ => none)
        (branchPage ((utf8 "main").map UInt8.toUInt16)) exampleRepository 30 = .ok page ∧
      ciRunsSchema asciiCasing (fun _ => none) (fun _ => true) page.items = true :=
  (normalizeRunPage_accepted_iff asciiCasing _ _ _
    (branchPage_documented ((utf8 "main").map UInt8.toUInt16) (fun _ => none) (fun _ => none)
      fun _ => true)
    exampleRepository (by decide)).mpr fun run hrun => Or.inr ⟨utf8 "main", by
      rw [List.mem_singleton.mp hrun]
      rfl, (isSafeRefName_iff (utf8 "main")).mp (by decide +kernel)⟩

/-- The runtime creates a branch `fix#1`; a run of it makes the page of the runs fail. -/
theorem fixBranch_not_reported :
    ¬ ∀ (casing : LowerCasing) (newUrl : JsText → Option Url)
      (isoString : JsText → Option JsText) (isDatetime : JsText → Bool) (raw : JsValue)
      (values : List JsValue), DocumentedPage newUrl isoString isDatetime raw values →
      (∀ run ∈ values, ∃ name : Bytes,
        member run (asciiUnits "head_branch") = .string (name.map UInt8.toUInt16) ∧
          validBranchName name = true) →
      ∀ (repository : CiRepositoryIdentity), ∀ limit ≤ maxCiRunsLimit,
        ∃ page, normalizeRunPage casing newUrl isoString raw repository limit = .ok page ∧
          ciRunsSchema casing newUrl isDatetime page.items = true := by
  intro hall
  have hdocumented := branchPage_documented ((utf8 "fix#1").map UInt8.toUInt16) (fun _ => none)
    (fun _ => none) (fun _ => true)
  have hvalid : validBranchName (utf8 "fix#1") = true := by decide +kernel
  have hreported := hall asciiCasing _ _ _ _ _ hdocumented
    (fun run hrun => ⟨utf8 "fix#1", by rw [List.mem_singleton.mp hrun]; rfl, hvalid⟩)
    exampleRepository 30 (by decide)
  obtain ⟨page, hok, -⟩ := hreported
  have hfails : (normalizeRunPage asciiCasing (fun _ => none) (fun _ => none)
      (branchPage ((utf8 "fix#1").map UInt8.toUInt16)) exampleRepository 30).isOk = false := by
    decide +kernel
  rw [hok] at hfails
  cases hfails

end KodeGpt.RunBranches
