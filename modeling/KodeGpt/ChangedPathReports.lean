import KodeGpt.ChangedPaths

/-!
What two streams of git report, and when the runtime's join of them is exact. The runtime
looks at the first records of the statuses one by one, and only counts the others.
-/

namespace KodeGpt.ChangedPathReports

open ListCuts KeyedJoins ChangedPaths
open JsonText (Bytes)
open FallibleActions (bind_eq_ok_iff)
open FrameCodec (isDigit decimalValue)
open CommitObjects (ascii)

def letter : GitChangedPathStatus → Bytes
  | .added => ascii "A"
  | .modified => ascii "M"
  | .deleted => ascii "D"
  | .typeChanged => ascii "T"

def terminated (tokens : List Bytes) : Bytes := tokens.flatMap (· ++ [0])

/-- A stream of a letter and a path for each record. -/
structure ReportsStatuses (stream : Bytes) (statuses : Statuses) : Prop where
  text : stream = terminated (statuses.flatMap fun entry => [letter entry.2, entry.1])
  paths : ∀ entry ∈ statuses, isGitReportedPath entry.1 = true

/-- A count of 64 bits, or a dash. -/
def CountText : Option Nat → Bytes → Prop
  | none, text => text = ascii "-"
  | some value, text =>
    text ≠ [] ∧ text.all isDigit = true ∧ decimalValue text = value ∧ value < 2 ^ 64

/-- Both counts, of lines inserted and deleted, and a path. -/
structure RecordText (entry : Bytes × PathStat) (text : Bytes) : Prop where
  fields : ∃ insertions deletions,
    text = insertions ++ tab :: (deletions ++ tab :: entry.1) ∧
      CountText entry.2.insertions insertions ∧ CountText entry.2.deletions deletions
  binary : entry.2.insertions.isNone = entry.2.binary ∧ entry.2.deletions.isNone = entry.2.binary
  path : isGitReportedPath entry.1 = true

def ReportsStats (stream : Bytes) (stats : Stats) : Prop :=
  ∃ records, stream = terminated records ∧ List.Forall₂ RecordText stats records

theorem nulTokens_concat (front : Bytes) :
    nulTokens (front ++ [0]) = .ok (front.splitOn 0) := by
  have hempty : (front ++ [0]).isEmpty = false :=
    List.isEmpty_eq_false_iff.mpr (List.append_ne_nil_of_right_ne_nil _ (List.cons_ne_nil _ _))
  rw [nulTokens, hempty, List.getLast?_concat, List.dropLast_concat]
  rfl

theorem nulTokens_ok_iff {stream : Bytes} {tokens : List Bytes} :
    nulTokens stream = .ok tokens ↔
      stream = terminated tokens ∧ ∀ token ∈ tokens, (0 : UInt8) ∉ token := by
  constructor
  · intro h
    by_cases hempty : stream = []
    · rw [hempty] at h ⊢
      obtain rfl := Except.ok.inj h
      exact ⟨rfl, List.forall_mem_nil _⟩
    · by_cases hlast : stream.getLast? = some 0
      · obtain ⟨front, rfl⟩ := List.getLast?_eq_some_iff.mp hlast
        rw [nulTokens_concat] at h
        obtain rfl := Except.ok.inj h
        refine ⟨?_, notMem_splitOn 0 front⟩
        rw [terminated, flatMap_eq_intercalate 0 (List.splitOn_ne_nil 0 front),
          List.intercalate_splitOn]
      · rw [nulTokens, List.isEmpty_eq_false_iff.mpr hempty, if_neg Bool.false_ne_true,
          if_pos hlast] at h
        cases h
  · rintro ⟨rfl, htokens⟩
    by_cases hempty : tokens = []
    · rw [hempty]
      rfl
    · rw [terminated, flatMap_eq_intercalate 0 hempty, nulTokens_concat,
        List.splitOn_intercalate 0 htokens hempty]

theorem readStatus_ok_iff {token : Bytes} {status : GitChangedPathStatus} :
    readStatus token = .ok status ↔ token = letter status := by
  constructor
  · intro h
    unfold readStatus at h
    split at h
    · rename_i htoken
      obtain rfl := Except.ok.inj h
      exact htoken
    · split at h
      · rename_i htoken
        obtain rfl := Except.ok.inj h
        exact htoken
      · split at h
        · rename_i htoken
          obtain rfl := Except.ok.inj h
          exact htoken
        · split at h
          · rename_i htoken
            obtain rfl := Except.ok.inj h
            exact htoken
          · cases h
  · rintro rfl
    cases status <;> rfl

theorem parseGitReportedPath_ok_iff {text path : Bytes} :
    parseGitReportedPath text = .ok path ↔ text = path ∧ isGitReportedPath path = true := by
  rw [parseGitReportedPath]
  split
  · rename_i hpath
    rw [Except.ok.injEq]
    exact ⟨fun h => ⟨h, h ▸ hpath⟩, fun h => h.1⟩
  · rename_i hpath
    exact iff_of_false nofun fun h => hpath (h.1 ▸ h.2)

theorem readStatuses_ok_iff {tokens : List Bytes} {statuses : Statuses} :
    readStatuses tokens = .ok statuses ↔
      tokens = statuses.flatMap (fun entry => [letter entry.2, entry.1]) ∧
        ∀ entry ∈ statuses, isGitReportedPath entry.1 = true := by
  induction tokens using readStatuses.induct generalizing statuses with
  | case1 =>
    rw [readStatuses, Except.ok.injEq]
    cases statuses <;> simp
  | case2 token =>
    rw [readStatuses]
    cases statuses <;> simp
  | case3 token pathToken rest ih =>
    rw [readStatuses]
    constructor
    · intro h
      obtain ⟨status, hstatus, h⟩ := bind_eq_ok_iff.mp h
      obtain ⟨path, hpath, h⟩ := bind_eq_ok_iff.mp h
      obtain ⟨later, hlater, h⟩ := bind_eq_ok_iff.mp h
      obtain rfl := Except.ok.inj h
      obtain rfl := (readStatus_ok_iff).mp hstatus
      obtain ⟨rfl, hreported⟩ := (parseGitReportedPath_ok_iff).mp hpath
      obtain ⟨rfl, hpaths⟩ := ih.mp hlater
      exact ⟨rfl, List.forall_mem_cons.mpr ⟨hreported, hpaths⟩⟩
    · rintro ⟨htokens, hpaths⟩
      cases statuses with
      | nil => cases htokens
      | cons entry statuses =>
        obtain ⟨hreported, hpaths⟩ := List.forall_mem_cons.mp hpaths
        obtain ⟨hletter, htokens⟩ := List.cons.inj htokens
        obtain ⟨hpath, hrest⟩ := List.cons.inj htokens
        obtain rfl : token = letter entry.2 := hletter
        obtain rfl : pathToken = entry.1 := hpath
        rw [(readStatus_ok_iff).mpr rfl, (parseGitReportedPath_ok_iff).mpr ⟨rfl, hreported⟩,
          ih.mpr ⟨hrest, hpaths⟩]
        rfl

theorem zero_notMem_path {path : Bytes} (h : isGitReportedPath path = true) :
    (0 : UInt8) ∉ path := by
  rw [isGitReportedPath, Bool.and_eq_true, isHistoryPath, Bool.and_eq_true,
    Bool.and_eq_true] at h
  intro hmem
  have hzero := List.all_eq_true.mp h.2.1.2 0 hmem
  revert hzero
  decide

theorem zero_notMem_letter (status : GitChangedPathStatus) : (0 : UInt8) ∉ letter status := by
  cases status <;> decide

/-- The statuses that are read are those that the stream reports. -/
theorem readStatuses_stream_iff {stream : Bytes} {statuses : Statuses} :
    (∃ tokens, nulTokens stream = .ok tokens ∧ readStatuses tokens = .ok statuses) ↔
      ReportsStatuses stream statuses := by
  constructor
  · rintro ⟨tokens, htokens, hstatuses⟩
    obtain ⟨rfl, -⟩ := (nulTokens_ok_iff).mp htokens
    obtain ⟨rfl, hpaths⟩ := (readStatuses_ok_iff).mp hstatuses
    exact ⟨rfl, hpaths⟩
  · rintro ⟨rfl, hpaths⟩
    refine ⟨_, (nulTokens_ok_iff).mpr ⟨rfl, ?_⟩, (readStatuses_ok_iff).mpr ⟨rfl, hpaths⟩⟩
    intro token htoken
    obtain ⟨entry, hentry, htoken⟩ := List.mem_flatMap.mp htoken
    obtain rfl | htoken := List.mem_cons.mp htoken
    · exact zero_notMem_letter entry.2
    · rw [List.mem_singleton.mp htoken]
      exact zero_notMem_path (hpaths entry hentry)

theorem isDigit_notMem {text : Bytes} {byte : UInt8} (hall : text.all isDigit = true)
    (hbyte : isDigit byte = false) : byte ∉ text := by
  intro hmem
  have hdigit := List.all_eq_true.mp hall byte hmem
  rw [hbyte] at hdigit
  cases hdigit

theorem CountText.notMem {count : Option Nat} {text : Bytes} (h : CountText count text) :
    tab ∉ text ∧ (0 : UInt8) ∉ text := by
  cases count with
  | none =>
    rw [(h : text = ascii "-")]
    decide
  | some value => exact ⟨isDigit_notMem h.2.1 (by decide), isDigit_notMem h.2.1 (by decide)⟩

theorem CountText.ne_dash {value : Nat} {text : Bytes} (h : CountText (some value) text) :
    text ≠ ascii "-" := by
  rintro rfl
  exact absurd h.2.1 (by decide)

theorem parseDecimalU64_ok_iff {text : Bytes} {value : Nat} :
    parseDecimalU64 text = .ok value ↔ CountText (some value) text := by
  unfold parseDecimalU64 CountText
  split
  · rename_i hbad
    refine iff_of_false nofun fun h => ?_
    rw [Bool.or_eq_true, List.isEmpty_iff, h.2.1] at hbad
    exact hbad.elim h.1 nofun
  · rename_i hgood
    rw [Bool.or_eq_true, not_or, List.isEmpty_iff, Bool.not_eq_true', Bool.not_eq_false] at hgood
    split
    · rename_i hlarge
      exact iff_of_false nofun fun h => absurd (h.2.2.1 ▸ h.2.2.2) (Nat.not_lt.mpr hlarge)
    · rename_i hsmall
      rw [Except.ok.injEq]
      exact ⟨fun h => ⟨hgood.1, hgood.2, h, h ▸ Nat.not_le.mp hsmall⟩, fun h => h.2.2.1⟩

theorem readCounts_ok_iff {insertions deletions : Bytes} {stat : PathStat} :
    readCounts insertions deletions = .ok stat ↔
      CountText stat.insertions insertions ∧ CountText stat.deletions deletions ∧
        stat.insertions.isNone = stat.binary ∧ stat.deletions.isNone = stat.binary := by
  obtain ⟨inserted, deleted, binary⟩ := stat
  rw [readCounts]
  constructor
  · intro h
    split at h
    · rename_i hdashes
      cases h
      exact ⟨hdashes.1, hdashes.2, rfl, rfl⟩
    · split at h
      · cases h
      · obtain ⟨inserted, hinserted, h⟩ := bind_eq_ok_iff.mp h
        obtain ⟨deleted, hdeleted, h⟩ := bind_eq_ok_iff.mp h
        cases h
        exact ⟨(parseDecimalU64_ok_iff).mp hinserted, (parseDecimalU64_ok_iff).mp hdeleted, rfl, rfl⟩
  · rintro ⟨hinsertions, hdeletions, hbinary, hbinary'⟩
    cases inserted with
    | none =>
      cases deleted with
      | none =>
        obtain rfl : true = binary := hbinary
        rw [if_pos ⟨hinsertions, hdeletions⟩]
      | some deleted => cases hbinary.trans hbinary'.symm
    | some inserted =>
      cases deleted with
      | none => cases hbinary.trans hbinary'.symm
      | some deleted =>
        obtain rfl : false = binary := hbinary
        rw [if_neg fun h => CountText.ne_dash hinsertions h.1, if_neg,
          (parseDecimalU64_ok_iff).mpr hinsertions, (parseDecimalU64_ok_iff).mpr hdeletions]
        · rfl
        · exact not_or.mpr ⟨CountText.ne_dash hinsertions, CountText.ne_dash hdeletions⟩

theorem readRecord_ok_iff {text : Bytes} {entry : Bytes × PathStat} :
    readRecord text = .ok entry ↔ RecordText entry text := by
  constructor
  · intro h
    unfold readRecord at h
    split at h
    · cases h
    · rename_i insertions rest hinsertions
      split at h
      · cases h
      · rename_i deletions pathBytes hdeletions
        obtain ⟨path, hpath, h⟩ := bind_eq_ok_iff.mp h
        obtain ⟨stat, hstat, h⟩ := bind_eq_ok_iff.mp h
        obtain rfl := Except.ok.inj h
        obtain ⟨rfl, hreported⟩ := (parseGitReportedPath_ok_iff).mp hpath
        obtain ⟨rfl, -⟩ := cutFirst_symbol_iff.mp hinsertions
        obtain ⟨rfl, -⟩ := cutFirst_symbol_iff.mp hdeletions
        obtain ⟨hinserted, hdeleted, hbinary⟩ := (readCounts_ok_iff).mp hstat
        exact ⟨⟨insertions, deletions, rfl, hinserted, hdeleted⟩, hbinary, hreported⟩
  · rintro ⟨⟨insertions, deletions, rfl, hinserted, hdeleted⟩, hbinary, hreported⟩
    have hfirst : cutFirst [tab] (insertions ++ tab :: (deletions ++ tab :: entry.1)) =
        some (insertions, deletions ++ tab :: entry.1) :=
      cutFirst_symbol_iff.mpr ⟨rfl, hinserted.notMem.1⟩
    have hsecond : cutFirst [tab] (deletions ++ tab :: entry.1) = some (deletions, entry.1) :=
      cutFirst_symbol_iff.mpr ⟨rfl, hdeleted.notMem.1⟩
    rw [readRecord, hfirst]
    dsimp only
    rw [hsecond]
    dsimp only
    rw [(parseGitReportedPath_ok_iff).mpr ⟨rfl, hreported⟩,
      (readCounts_ok_iff).mpr ⟨hinserted, hdeleted, hbinary⟩]
    rfl

theorem keys_append {α : Type} (front back : List (Bytes × α)) :
    keys (front ++ back) = keys front ++ keys back := List.map_append

theorem insertRecords_ok_iff {records : List Bytes} {found stats : Stats}
    (hfound : (keys found).Nodup) :
    records.foldlM insertRecord found = .ok stats ↔
      ∃ more, stats = found ++ more ∧ List.Forall₂ RecordText more records ∧
        (keys stats).Nodup := by
  induction records generalizing found with
  | nil =>
    rw [List.foldlM_nil]
    constructor
    · intro h
      obtain rfl := Except.ok.inj h
      exact ⟨[], (List.append_nil _).symm, .nil, hfound⟩
    · rintro ⟨more, rfl, hrecords, -⟩
      obtain rfl := List.forall₂_nil_right_iff.mp hrecords
      rw [List.append_nil]
      rfl
  | cons record records ih =>
    rw [List.foldlM_cons]
    constructor
    · intro h
      obtain ⟨grown, hgrown, h⟩ := bind_eq_ok_iff.mp h
      obtain ⟨entry, hentry, hgrown⟩ := bind_eq_ok_iff.mp hgrown
      dsimp only at hgrown
      split at hgrown
      · cases hgrown
      · rename_i hnew
        obtain rfl := Except.ok.inj hgrown
        have hdistinct : (keys (found ++ [entry])).Nodup := by
          rw [keys_append, keys, keys, List.map_singleton, ← List.concat_eq_append]
          exact hfound.concat hnew
        obtain ⟨more, rfl, hrecords, hkeys⟩ := (ih hdistinct).mp h
        exact ⟨entry :: more, List.append_assoc _ _ _,
          .cons ((readRecord_ok_iff).mp hentry) hrecords, hkeys⟩
    · rintro ⟨more, rfl, hrecords, hkeys⟩
      cases hrecords with
      | @cons entry _ later _ hrecord hrecords =>
        have hgrown := List.append_cons found entry later
        rw [hgrown] at hkeys
        have hdistinct : (keys (found ++ [entry])).Nodup := by
          rw [keys_append] at hkeys
          exact hkeys.of_append_left
        have hnew : entry.1 ∉ keys found := by
          rw [keys_append] at hdistinct
          exact fun hmem => (List.nodup_append.mp hdistinct).2.2 _ hmem _
            (List.mem_singleton_self _) rfl
        have hinsert : insertRecord found record = .ok (found ++ [entry]) := by
          rw [insertRecord, (readRecord_ok_iff).mpr hrecord]
          exact if_neg hnew
        rw [hinsert]
        exact (ih hdistinct).mpr ⟨later, hgrown, hrecords, hgrown ▸ hkeys⟩

theorem RecordText.zero_notMem {entry : Bytes × PathStat} {text : Bytes}
    (h : RecordText entry text) : (0 : UInt8) ∉ text := by
  obtain ⟨insertions, deletions, rfl, hinserted, hdeleted⟩ := h.fields
  have htab : (0 : UInt8) ≠ tab := by decide
  have hpath := zero_notMem_path h.path
  simp only [List.mem_append, List.mem_cons, not_or]
  exact ⟨hinserted.notMem.2, htab, hdeleted.notMem.2, htab, hpath⟩

/-- The counts that are read are those that the stream reports, of one record a path. -/
theorem readStats_stream_iff {stream : Bytes} {stats : Stats} :
    (∃ records, nulTokens stream = .ok records ∧ readStats records = .ok stats) ↔
      ReportsStats stream stats ∧ (keys stats).Nodup := by
  constructor
  · rintro ⟨records, hrecords, hstats⟩
    obtain ⟨rfl, -⟩ := (nulTokens_ok_iff).mp hrecords
    obtain ⟨more, rfl, htexts, hkeys⟩ := (@insertRecords_ok_iff _ [] _ List.nodup_nil).mp hstats
    exact ⟨⟨records, rfl, htexts⟩, hkeys⟩
  · rintro ⟨⟨records, rfl, htexts⟩, hkeys⟩
    refine ⟨records, (nulTokens_ok_iff).mpr ⟨rfl, fun record hrecord => ?_⟩,
      (@insertRecords_ok_iff _ [] _ List.nodup_nil).mpr ⟨stats, rfl, htexts, hkeys⟩⟩
    obtain ⟨index, hindex, rfl⟩ := List.getElem_of_mem hrecord
    have hlength := htexts.length_eq
    exact (htexts.get (hlength ▸ hindex) hindex).zero_notMem

theorem ReportsStatuses.unique {stream : Bytes} {statuses others : Statuses}
    (h : ReportsStatuses stream statuses) (hother : ReportsStatuses stream others) :
    statuses = others := by
  obtain ⟨tokens, htokens, hstatuses⟩ := (readStatuses_stream_iff).mpr h
  obtain ⟨tokens', htokens', hothers⟩ := (readStatuses_stream_iff).mpr hother
  obtain rfl := Except.ok.inj (htokens.symm.trans htokens')
  exact Except.ok.inj (hstatuses.symm.trans hothers)

theorem ReportsStats.unique {stream : Bytes} {stats others : Stats} (h : ReportsStats stream stats)
    (hkeys : (keys stats).Nodup) (hother : ReportsStats stream others)
    (hothers : (keys others).Nodup) : stats = others := by
  obtain ⟨records, hrecords, hstats⟩ := (readStats_stream_iff).mpr ⟨h, hkeys⟩
  obtain ⟨records', hrecords', hothers⟩ := (readStats_stream_iff).mpr ⟨hother, hothers⟩
  obtain rfl := Except.ok.inj (hrecords.symm.trans hrecords')
  exact Except.ok.inj (hstats.symm.trans hothers)

end KodeGpt.ChangedPathReports
