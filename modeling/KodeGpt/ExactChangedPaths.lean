import KodeGpt.ChangedPathReports

/-!
When the join of the two streams of a commit is exact: each path once in both of them, the
first ones joined, and the totals of all.
-/

namespace KodeGpt.ExactChangedPaths

open TextEncodings KeyedJoins ChangedPaths ChangedPathReports
open JsonText (Bytes)
open FallibleActions (bind_eq_ok_iff)
open CommitObjects (ascii)

def totals (stats : Stats) : GitHistoricalStatSummary where
  filesChanged := stats.length
  insertions := (stats.filterMap fun entry => entry.2.insertions).sum
  deletions := (stats.filterMap fun entry => entry.2.deletions).sum
  binaryFiles := (stats.filter fun entry => entry.2.binary).length

/-- Both streams report the same paths, each once, and the result is their join. -/
structure IsJoin (statuses : Statuses) (stats : Stats) (result : ChangedPathParseResult) :
    Prop where
  once : (keys statuses).Nodup ∧ (keys stats).Nodup
  same : ∀ path, path ∈ keys statuses ↔ path ∈ keys stats
  paths : List.Forall₂
    (fun entry changed =>
      ∃ stat, (entry.1, stat) ∈ stats ∧ changed = changedPath entry.1 entry.2 stat)
    (statuses.take pathLimit) result.paths
  summary : result.summary = totals stats
  limit : result.pathLimitReached = true ↔ pathLimit < statuses.length

/-- If the streams are read, the result is the join of what they report. -/
def Exact (nameStatus numstat : Bytes) : Prop :=
  ∀ result, parseChangedPaths nameStatus numstat = .ok result →
    ∃ statuses stats, ReportsStatuses nameStatus statuses ∧ ReportsStats numstat stats ∧
      IsJoin statuses stats result

/-- What is seen of the streams before they are joined: the records after the first ones are
only counted. -/
structure Seen (statuses : Statuses) (stats : Stats) : Prop where
  length : statuses.length = stats.length
  counted : (keys stats).Nodup
  distinct : (keys (statuses.take pathLimit)).Nodup
  joined : ∀ path ∈ keys (statuses.take pathLimit), path ∈ keys stats

/-- The later records name further paths of the other stream, and the totals have 64 bits. -/
structure Regular (statuses : Statuses) (stats : Stats) : Prop where
  distinct : (keys (statuses.drop pathLimit)).Nodup
  later : ∀ path ∈ keys (statuses.drop pathLimit),
    path ∉ keys (statuses.take pathLimit) ∧ path ∈ keys stats
  insertions : (totals stats).insertions < 2 ^ 64
  deletions : (totals stats).deletions < 2 ^ 64

theorem takeStats_eq_join (statuses : Statuses) (stats : Stats) :
    takeStats statuses stats = match join statuses stats with
      | none => .error .gitReadFailed
      | some (joined, left) =>
        .ok (joined.map fun entry => changedPath entry.1 entry.2.1 entry.2.2, left) := by
  induction statuses generalizing stats with
  | nil => rfl
  | cons entry statuses ih =>
    obtain ⟨path, status⟩ := entry
    rw [takeStats, join]
    cases hremove : remove path stats with
    | none => rfl
    | some taken =>
      obtain ⟨stat, rest⟩ := taken
      dsimp only [Option.bind_eq_bind, Option.bind_some]
      rw [ih rest]
      cases join statuses rest with
      | none => rfl
      | some later => rfl

theorem joinStreams_ok_iff {statuses : Statuses} {stats : Stats} {result : ChangedPathParseResult}
    (hcounted : (keys stats).Nodup) :
    joinStreams statuses stats = .ok result ↔
      Seen statuses stats ∧ ∃ joined left,
        join (statuses.take pathLimit) stats = some (joined, left) ∧
        result = ⟨joined.map fun entry => changedPath entry.1 entry.2.1 entry.2.2,
          summarize stats, decide (pathLimit < statuses.length)⟩ := by
  rw [joinStreams]
  constructor
  · intro h
    split at h
    · cases h
    · rename_i hlength
      rw [takeStats_eq_join] at h
      cases hjoin : join (statuses.take pathLimit) stats with
      | none =>
        rw [hjoin] at h
        cases h
      | some taken =>
        obtain ⟨joined, left⟩ := taken
        rw [hjoin] at h
        obtain ⟨_, hpaths, h⟩ := bind_eq_ok_iff.mp h
        obtain rfl := Except.ok.inj hpaths
        dsimp only at h
        split at h
        · cases h
        · have hjoined := join_spec hjoin
          exact ⟨⟨not_not.mp hlength, hcounted, hjoined.distinct, hjoined.keys_mem⟩,
            joined, left, rfl, (Except.ok.inj h).symm⟩
  · rintro ⟨hseen, joined, left, hjoin, rfl⟩
    rw [if_neg (not_not.mpr hseen.length), takeStats_eq_join, hjoin]
    have hleft : (!decide (pathLimit < statuses.length) && !left.isEmpty) = false := by
      by_cases hlimit : pathLimit < statuses.length
      · rw [decide_eq_true hlimit]
        rfl
      · have htake : statuses.take pathLimit = statuses :=
          List.take_of_length_le (Nat.not_lt.mp hlimit)
        rw [htake] at hjoin
        have hnil := (join_spec hjoin).left_eq_nil (join_spec hjoin).keys_mem hseen.length
        rw [hnil]
        exact Bool.and_false _
    show (if (!decide (pathLimit < statuses.length) && !left.isEmpty) = true then _ else _) = _
    rw [hleft]
    rfl

theorem parseChangedPaths_ok_iff {nameStatus numstat : Bytes} {result : ChangedPathParseResult} :
    parseChangedPaths nameStatus numstat = .ok result ↔
      ∃ statuses stats, ReportsStatuses nameStatus statuses ∧ ReportsStats numstat stats ∧
        Seen statuses stats ∧ ∃ joined left,
          join (statuses.take pathLimit) stats = some (joined, left) ∧
          result = ⟨joined.map fun entry => changedPath entry.1 entry.2.1 entry.2.2,
            summarize stats, decide (pathLimit < statuses.length)⟩ := by
  constructor
  · intro h
    obtain ⟨tokens, htokens, h⟩ := bind_eq_ok_iff.mp h
    obtain ⟨statuses, hstatuses, h⟩ := bind_eq_ok_iff.mp h
    obtain ⟨records, hrecords, h⟩ := bind_eq_ok_iff.mp h
    obtain ⟨stats, hstats, h⟩ := bind_eq_ok_iff.mp h
    obtain ⟨hreports, hcounted⟩ := readStats_stream_iff.mp ⟨records, hrecords, hstats⟩
    exact ⟨statuses, stats, readStatuses_stream_iff.mp ⟨tokens, htokens, hstatuses⟩, hreports,
      (joinStreams_ok_iff hcounted).mp h⟩
  · rintro ⟨statuses, stats, hstatuses, hstats, hseen, hresult⟩
    obtain ⟨tokens, htokens, hstatuses⟩ := readStatuses_stream_iff.mpr hstatuses
    obtain ⟨records, hrecords, hstats⟩ := readStats_stream_iff.mpr ⟨hstats, hseen.counted⟩
    refine bind_eq_ok_iff.mpr ⟨tokens, htokens, bind_eq_ok_iff.mpr ⟨statuses, hstatuses, ?_⟩⟩
    refine bind_eq_ok_iff.mpr ⟨records, hrecords, bind_eq_ok_iff.mpr ⟨stats, hstats, ?_⟩⟩
    exact (joinStreams_ok_iff hseen.counted).mpr ⟨hseen, hresult⟩

theorem keys_take_append_drop (statuses : Statuses) :
    keys statuses = keys (statuses.take pathLimit) ++ keys (statuses.drop pathLimit) := by
  rw [← keys_append, List.take_append_drop]

theorem Seen.keys_nodup {statuses : Statuses} {stats : Stats} (hseen : Seen statuses stats)
    (hregular : Regular statuses stats) : (keys statuses).Nodup := by
  rw [keys_take_append_drop]
  refine hseen.distinct.append hregular.distinct fun path hfirst hlater => ?_
  exact (hregular.later path hlater).1 hfirst

theorem Seen.keys_iff {statuses : Statuses} {stats : Stats} (hseen : Seen statuses stats)
    (hregular : Regular statuses stats) (path : Bytes) :
    path ∈ keys statuses ↔ path ∈ keys stats := by
  have hkeys : ∀ path ∈ keys statuses, path ∈ keys stats := by
    intro path hpath
    rw [keys_take_append_drop, List.mem_append] at hpath
    exact hpath.elim (hseen.joined path) fun hlater => (hregular.later path hlater).2
  exact ⟨hkeys path, keys_subset_of_length (hseen.keys_nodup hregular) hkeys hseen.length path⟩

theorem summarize_eq_totals {stats : Stats} :
    summarize stats = totals stats ↔
      (totals stats).insertions < 2 ^ 64 ∧ (totals stats).deletions < 2 ^ 64 := by
  constructor
  · intro h
    rw [← h]
    exact ⟨Nat.mod_lt _ (by decide), Nat.mod_lt _ (by decide)⟩
  · rintro ⟨hinsertions, hdeletions⟩
    have hinserted : (summarize stats).insertions = (totals stats).insertions :=
      Nat.mod_eq_of_lt hinsertions
    have hdeleted : (summarize stats).deletions = (totals stats).deletions :=
      Nat.mod_eq_of_lt hdeletions
    show (⟨_, (summarize stats).insertions, (summarize stats).deletions, _⟩ :
      GitHistoricalStatSummary) = _
    rw [hinserted, hdeleted]
    rfl

theorem joined_paths {statuses : Statuses} {stats left : Stats}
    {joined : List (Bytes × GitChangedPathStatus × PathStat)}
    (hjoined : Joined statuses stats joined left) :
    List.Forall₂
      (fun entry changed =>
        ∃ stat, (entry.1, stat) ∈ stats ∧ changed = changedPath entry.1 entry.2 stat)
      statuses (joined.map fun entry => changedPath entry.1 entry.2.1 entry.2.2) := by
  rw [← hjoined.same, List.forall₂_map_left_iff, List.forall₂_map_right_iff, List.forall₂_same]
  exact fun entry hentry => ⟨entry.2.2, hjoined.entries entry hentry, rfl⟩

theorem Exact.isJoin {nameStatus numstat : Bytes} {statuses : Statuses} {stats : Stats}
    (hexact : Exact nameStatus numstat) (hstatuses : ReportsStatuses nameStatus statuses)
    (hstats : ReportsStats numstat stats) (hseen : Seen statuses stats) :
    ∃ result, result.summary = summarize stats ∧ IsJoin statuses stats result := by
  obtain ⟨joined, left, hjoin⟩ := exists_join hseen.distinct hseen.joined
  obtain ⟨statuses', stats', hstatuses', hstats', hresult⟩ := hexact _
    (parseChangedPaths_ok_iff.mpr ⟨statuses, stats, hstatuses, hstats, hseen, joined, left,
      hjoin, rfl⟩)
  obtain rfl := hstatuses.unique hstatuses'
  obtain rfl := hstats.unique hseen.counted hstats' hresult.once.2
  exact ⟨_, rfl, hresult⟩

theorem Exact.keys_nodup {nameStatus numstat : Bytes} {statuses : Statuses} {stats : Stats}
    (hexact : Exact nameStatus numstat) (hstatuses : ReportsStatuses nameStatus statuses)
    (hstats : ReportsStats numstat stats) (hseen : Seen statuses stats) :
    (keys statuses).Nodup := by
  obtain ⟨_, -, hresult⟩ := hexact.isJoin hstatuses hstats hseen
  exact hresult.once.1

/-- The join of the two streams is exact when the records that are only counted name further
paths of both streams, and the totals have 64 bits. -/
theorem parseChangedPaths_exact_iff (nameStatus numstat : Bytes) :
    Exact nameStatus numstat ↔
      ∀ statuses stats, ReportsStatuses nameStatus statuses → ReportsStats numstat stats →
        Seen statuses stats → Regular statuses stats := by
  constructor
  · intro hexact statuses stats hstatuses hstats hseen
    obtain ⟨result, hsummary, hresult⟩ := hexact.isJoin hstatuses hstats hseen
    have honce := hresult.once.1
    rw [keys_take_append_drop] at honce
    obtain ⟨-, hlater, hapart⟩ := List.nodup_append.mp honce
    have hfits := summarize_eq_totals.mp (hsummary.symm.trans hresult.summary)
    refine ⟨hlater, fun path hpath => ⟨fun hfirst => hapart path hfirst path hpath rfl, ?_⟩,
      hfits.1, hfits.2⟩
    rw [← hresult.same, keys_take_append_drop]
    exact List.mem_append_right _ hpath
  · intro hregular result hresult
    obtain ⟨statuses, stats, hstatuses, hstats, hseen, joined, left, hjoin, rfl⟩ :=
      parseChangedPaths_ok_iff.mp hresult
    have hregular := hregular statuses stats hstatuses hstats hseen
    exact ⟨statuses, stats, hstatuses, hstats, {
      once := ⟨hseen.keys_nodup hregular, hseen.counted⟩
      same := hseen.keys_iff hregular
      paths := joined_paths (join_spec hjoin)
      summary := summarize_eq_totals.mpr ⟨hregular.insertions, hregular.deletions⟩
      limit := decide_eq_true_iff }⟩

def repeatedLetter (length : Nat) : Bytes := List.replicate length 97

theorem isGitReportedPath_repeatedLetter {length : Nat} (hlength : length < maxHistoryPathBytes) :
    isGitReportedPath (repeatedLetter (length + 1)) = true := by
  have hletter : ∀ byte ∈ repeatedLetter (length + 1), byte = 97 :=
    fun byte hbyte => (List.mem_replicate.mp hbyte).2
  have hutf8 : validUtf8 (repeatedLetter (length + 1)) = true :=
    validUtf8_ascii fun byte hbyte => (hletter byte hbyte).symm ▸ (by decide)
  have hsplit : (repeatedLetter (length + 1)).splitOn 47 = [repeatedLetter (length + 1)] := by
    have hjoined :
        [47].intercalate [repeatedLetter (length + 1)] = repeatedLetter (length + 1) := by simp
    conv_lhs => rw [← hjoined]
    refine List.splitOn_intercalate 47 ?_ ?_
    · rintro _ hmem hslash
      rw [List.mem_singleton.mp hmem] at hslash
      exact absurd (hletter 47 hslash) (by decide)
    · exact List.cons_ne_nil _ _
  have hcomponent : ∀ other : Bytes, 97 ∉ other → repeatedLetter (length + 1) ≠ other := by
    rintro other hother rfl
    exact hother List.mem_cons_self
  have hall : (repeatedLetter (length + 1)).all (fun byte => 31 < byte && byte ≠ 127) = true :=
    List.all_eq_true.mpr fun byte hbyte => (hletter byte hbyte).symm ▸ (by decide)
  have hsize : (repeatedLetter (length + 1)).length ≤ maxHistoryPathBytes := by
    rw [repeatedLetter, List.length_replicate]
    exact hlength
  rw [isGitReportedPath, hutf8, isHistoryPath, hsplit, hall, decide_eq_true hsize,
    List.all_cons, List.all_nil, decide_eq_true (hcomponent [] (by decide)),
    decide_eq_true (hcomponent [46] (by decide)), decide_eq_true (hcomponent [46, 46] (by decide))]
  rfl

def letterStatuses (count : Nat) : Statuses :=
  (List.range count).map fun index => (repeatedLetter (index + 1), .added)

def againStatuses : Statuses := letterStatuses 500 ++ [(repeatedLetter 1, .added)]

def furtherStats : Stats :=
  (List.range 501).map fun index => (repeatedLetter (index + 1), ⟨some 0, some 0, false⟩)

def againNameStatus : Bytes :=
  terminated (againStatuses.flatMap fun entry => [letter entry.2, entry.1])

def furtherNumstat : Bytes :=
  terminated (furtherStats.map fun entry => ascii "0" ++ tab :: (ascii "0" ++ tab :: entry.1))

theorem repeatedLetter_injective : Function.Injective repeatedLetter := by
  intro length other h
  have hlengths := congrArg List.length h
  rwa [repeatedLetter, repeatedLetter, List.length_replicate, List.length_replicate] at hlengths

theorem keys_letterStatuses (count : Nat) :
    keys (letterStatuses count) =
      (List.range count).map fun index => repeatedLetter (index + 1) := by
  rw [keys, letterStatuses, List.map_map]
  rfl

theorem length_letterStatuses (count : Nat) : (letterStatuses count).length = count := by
  rw [letterStatuses, List.length_map, List.length_range]

theorem take_againStatuses : againStatuses.take pathLimit = letterStatuses 500 :=
  List.take_left' (length_letterStatuses 500)

theorem keys_furtherStats :
    keys furtherStats = (List.range 501).map fun index => repeatedLetter (index + 1) := by
  rw [keys, furtherStats, List.map_map]
  rfl

theorem repeatedLetters_nodup (count : Nat) :
    ((List.range count).map fun index => repeatedLetter (index + 1)).Nodup :=
  List.nodup_range.map fun _ _ h => Nat.succ.inj (repeatedLetter_injective h)

theorem again_seen : Seen againStatuses furtherStats where
  length := by
    rw [againStatuses, furtherStats, List.length_append, length_letterStatuses, List.length_map,
      List.length_range]
    rfl
  counted := keys_furtherStats ▸ repeatedLetters_nodup 501
  distinct := by
    rw [take_againStatuses, keys_letterStatuses]
    exact repeatedLetters_nodup 500
  joined := by
    rw [take_againStatuses, keys_letterStatuses, keys_furtherStats]
    intro path hpath
    obtain ⟨index, hindex, rfl⟩ := List.mem_map.mp hpath
    have hlarger := List.mem_range.mpr (Nat.lt_succ_of_lt (List.mem_range.mp hindex))
    exact List.mem_map.mpr ⟨index, hlarger, rfl⟩

theorem again_reports : ReportsStatuses againNameStatus againStatuses where
  text := rfl
  paths := by
    intro entry hentry
    obtain hentry | hentry := List.mem_append.mp hentry
    · obtain ⟨index, hindex, rfl⟩ := List.mem_map.mp hentry
      have hsmall : 500 ≤ maxHistoryPathBytes := by decide
      exact isGitReportedPath_repeatedLetter (Nat.lt_of_lt_of_le (List.mem_range.mp hindex) hsmall)
    · rw [List.mem_singleton.mp hentry]
      exact isGitReportedPath_repeatedLetter (by decide)

theorem further_reports : ReportsStats furtherNumstat furtherStats := by
  refine ⟨_, rfl, List.forall₂_map_right_iff.mpr (List.forall₂_same.mpr fun entry hentry => ?_)⟩
  obtain ⟨index, hindex, rfl⟩ := List.mem_map.mp hentry
  have hzero : CountText (some 0) (ascii "0") := by
    unfold CountText
    decide
  have hsmall : 501 ≤ maxHistoryPathBytes := by decide
  exact ⟨⟨ascii "0", ascii "0", rfl, hzero, hzero⟩, ⟨rfl, rfl⟩,
    isGitReportedPath_repeatedLetter (Nat.lt_of_lt_of_le (List.mem_range.mp hindex) hsmall)⟩

theorem againStatuses_not_nodup : ¬ (keys againStatuses).Nodup := by
  rw [againStatuses, keys_append, keys_letterStatuses, List.nodup_append]
  rintro ⟨-, -, hapart⟩
  have hfirst : 0 ∈ List.range 500 := List.mem_range.mpr (by decide)
  exact hapart (repeatedLetter 1) (List.mem_map.mpr ⟨0, hfirst, rfl⟩) (repeatedLetter 1)
    (List.mem_singleton_self _) rfl

theorem againStatuses_not_exact : ¬ ∀ nameStatus numstat, Exact nameStatus numstat := by
  intro h
  exact againStatuses_not_nodup ((h againNameStatus furtherNumstat).keys_nodup again_reports
    further_reports again_seen)

end KodeGpt.ExactChangedPaths
