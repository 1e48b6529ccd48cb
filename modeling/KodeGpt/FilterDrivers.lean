import KodeGpt.GitConfigs

/-!
Filter drivers of a repository: the probe that lists them, the options that take
their commands away, and the commands of git that the runtime runs with them.
-/

namespace KodeGpt.FilterDrivers

open JsonText TextEncodings GitConfigs

def args (words : List String) : List Bytes := words.map utf8

def baseOptions : List Bytes :=
  args ["core.fsmonitor=false", "core.hooksPath=/dev/null", "credential.helper=",
    "diff.external=", "diff.autoRefreshIndex=false", "protocol.file.allow=never"]

def baseGitArgs : List Bytes := baseOptions.flatMap fun option => [optionFlag, option]

def filterProbeArgs : List Bytes :=
  baseGitArgs ++ args ["config", "--local", "--includes", "--null", "--name-only", "--get-regexp",
    "^filter\\."]

def filterPrefix : Bytes := utf8 "filter."

def commandProperties : List Bytes := args ["clean", "smudge", "process"]

def required : Bytes := utf8 "required"

def filterKey (driver property : Bytes) : Bytes := filterPrefix ++ (driver ++ dot :: property)

def isDriverByte (byte : UInt8) : Bool :=
  (48 ≤ byte && byte ≤ 57) || (65 ≤ byte && byte ≤ 90) || (97 ≤ byte && byte ≤ 122) ||
    byte = 46 || byte = 95 || byte = 45

inductive FilterKey where
  | other
  | driver (name : Bytes)
  | unsafeKey

def readFilterKey (key : Bytes) : FilterKey :=
  if validUtf8 key then
    if filterPrefix.isPrefixOf key then
      match rsplitOnce dot (key.drop filterPrefix.length) with
      | none => .unsafeKey
      | some (driver, property) =>
        if property ∈ commandProperties ∨ property = required then
          if driver = [] ∨ 128 < driver.length ∨ driver.all isDriverByte = false then .unsafeKey
          else .driver driver
        else .other
    else .other
  else .unsafeKey

def insertDriver (driver : Bytes) (drivers : List Bytes) : List Bytes :=
  if driver ∈ drivers then drivers else drivers.orderedInsert (· ≤ ·) driver

def collectDrivers : List Bytes → List Bytes → Option (List Bytes)
  | [], drivers => some drivers
  | key :: rest, drivers =>
    match readFilterKey key with
    | .other => collectDrivers rest drivers
    | .driver name => collectDrivers rest (insertDriver name drivers)
    | .unsafeKey => none

def overrideOptions (driver : Bytes) : List Bytes :=
  commandProperties.map (fun property => filterKey driver property ++ [equalsSign]) ++
    [filterKey driver required ++ equalsSign :: utf8 "false"]

def filterOverrides (configKeys : Bytes) : Option (List Bytes) := do
  let drivers ← collectDrivers ((configKeys.splitOn 0).filter (· ≠ [])) []
  some ((drivers.flatMap overrideOptions).flatMap fun option => [optionFlag, option])

def previewMaxBytes : Nat := 64 * 1024

/-- How the probe ends: it has printed everything, or it fails with some of its output
printed. -/
inductive ProbeEnd where
  | complete
  | failed (exitCode : { code : Int // code ≠ 0 }) (printed : Nat)

structure Probe where
  ended : ProbeEnd
  stderrTruncated : Bool
  sourceTruncated : Bool

/-- `config --local` with a pattern prints the keys that match, if there are any. -/
def probeOutput (config : Config) : Bytes :=
  (config.filter fun entry => filterPrefix.isPrefixOf entry.key).flatMap fun entry =>
    entry.key ++ [0]

def Probe.stdout (probe : Probe) (config : Config) : Bytes :=
  match probe.ended with
  | .complete => probeOutput config
  | .failed _ printed => (probeOutput config).take printed

def Probe.exitCode (probe : Probe) (config : Config) : Int :=
  match probe.ended with
  | .complete => if (probeOutput config).isEmpty then 1 else 0
  | .failed exitCode _ => exitCode

/-- What is made of the probe. The answer that is taken for a configuration without
drivers comes first. -/
def acceptProbe (exitCode : Int) (stdout : Bytes)
    (stdoutTruncated stderrTruncated sourceTruncated : Bool) : Option (List Bytes) :=
  if exitCode = 1 ∧ stdout = [] then some []
  else if exitCode ≠ 0 ∨ stdoutTruncated ∨ stderrTruncated ∨ sourceTruncated then none
  else filterOverrides stdout

def discoverFilterOverrides (probe : Option Probe) (config : Config) : Option (List Bytes) :=
  match probe with
  | none => none
  | some probe =>
    acceptProbe (probe.exitCode config) ((probe.stdout config).take previewMaxBytes)
      (decide (previewMaxBytes < (probe.stdout config).length)) probe.stderrTruncated
      probe.sourceTruncated

/-- What the options of a driver can be written with. -/
def SafeDriver (driver : Bytes) : Prop := driver.all isDriverByte = true

/-- A driver that a key of the configuration names. -/
def Names (config : Config) (driver : Bytes) : Prop :=
  ∃ property, (property ∈ commandProperties ∨ property = required) ∧
    ∃ entry ∈ config, entry.key = filterKey driver property

theorem dot_notMem_property {property : Bytes}
    (h : property ∈ commandProperties ∨ property = required) : dot ∉ property := by
  have hcommands : ∀ property ∈ commandProperties, dot ∉ property := by decide +kernel
  obtain h | rfl := h
  · exact hcommands property h
  · decide +kernel

theorem filterKey_inj {driver driver' property property' : Bytes} (hdot : dot ∉ property)
    (hdot' : dot ∉ property') (h : filterKey driver property = filterKey driver' property') :
    driver = driver' ∧ property = property' := by
  have hcut := congrArg (rsplitOnce dot) (List.append_cancel_left h)
  rw [rsplitOnce_append driver hdot, rsplitOnce_append driver' hdot'] at hcut
  exact Prod.mk.inj (Option.some.inj hcut)

theorem isPrefixOf_filterKey (driver property : Bytes) :
    filterPrefix.isPrefixOf (filterKey driver property) = true :=
  List.isPrefixOf_iff_prefix.mpr (List.prefix_append ..)

theorem readFilterKey_filterKey {driver property : Bytes}
    (hproperty : property ∈ commandProperties ∨ property = required) :
    readFilterKey (filterKey driver property) = .driver driver ∨
      readFilterKey (filterKey driver property) = .unsafeKey := by
  rw [readFilterKey]
  split
  · rw [if_pos (isPrefixOf_filterKey driver property), filterKey, List.drop_left,
      rsplitOnce_append driver (dot_notMem_property hproperty)]
    dsimp only
    rw [if_pos hproperty]
    split
    · exact Or.inr rfl
    · exact Or.inl rfl
  · exact Or.inr rfl

theorem readFilterKey_driver {key driver : Bytes} (h : readFilterKey key = .driver driver) :
    SafeDriver driver ∧ ∃ property, (property ∈ commandProperties ∨ property = required) ∧
      key = filterKey driver property := by
  rw [readFilterKey] at h
  split at h
  · split at h
    · rename_i hprefix
      split at h
      · cases h
      · rename_i front property hcut
        split at h
        · rename_i hproperty
          split at h
          · cases h
          · rename_i hsafe
            obtain rfl := FilterKey.driver.inj h
            rw [not_or, not_or] at hsafe
            refine ⟨Bool.of_not_eq_false hsafe.2.2, property, hproperty, ?_⟩
            obtain ⟨rest, rfl⟩ := List.isPrefixOf_iff_prefix.mp hprefix
            rw [List.drop_left] at hcut
            rw [filterKey, (rsplitOnce_eq_some hcut).1]
        · cases h
    · cases h
  · cases h

theorem mem_insertDriver {driver name : Bytes} {drivers : List Bytes} :
    driver ∈ insertDriver name drivers ↔ driver = name ∨ driver ∈ drivers := by
  rw [insertDriver]
  split
  · constructor
    · exact Or.inr
    · rintro (rfl | hmem)
      · assumption
      · exact hmem
  · exact List.mem_orderedInsert _

theorem mem_collectDrivers {keys drivers found : List Bytes}
    (h : collectDrivers keys drivers = some found) (driver : Bytes) :
    driver ∈ found ↔ driver ∈ drivers ∨ ∃ key ∈ keys, readFilterKey key = .driver driver := by
  induction keys generalizing drivers with
  | nil =>
    obtain rfl := Option.some.inj h
    simp
  | cons key rest ih =>
    rw [collectDrivers] at h
    cases hread : readFilterKey key with
    | other =>
      rw [hread] at h
      simp [ih h, hread]
    | driver name =>
      rw [hread] at h
      rw [ih h, mem_insertDriver]
      simp only [List.mem_cons, exists_eq_or_imp, hread, FilterKey.driver.injEq]
      constructor
      · rintro ((rfl | hmem) | hlater)
        · exact Or.inr (Or.inl rfl)
        · exact Or.inl hmem
        · exact Or.inr (Or.inr hlater)
      · rintro (hmem | rfl | hlater)
        · exact Or.inl (Or.inr hmem)
        · exact Or.inl (Or.inl rfl)
        · exact Or.inr hlater
    | unsafeKey =>
      rw [hread] at h
      cases h

theorem collectDrivers_safe {keys drivers found : List Bytes}
    (h : collectDrivers keys drivers = some found) : ∀ key ∈ keys,
    readFilterKey key ≠ .unsafeKey := by
  induction keys generalizing drivers with
  | nil => exact nofun
  | cons key rest ih =>
    rw [collectDrivers] at h
    cases hread : readFilterKey key with
    | other =>
      rw [hread] at h
      exact List.forall_mem_cons.mpr ⟨hread ▸ nofun, ih h⟩
    | driver name =>
      rw [hread] at h
      exact List.forall_mem_cons.mpr ⟨hread ▸ nofun, ih h⟩
    | unsafeKey =>
      rw [hread] at h
      cases h

def overrideEntries (drivers : List Bytes) : Config :=
  (drivers.flatMap overrideOptions).map optionEntry

theorem equalsSign_notMem_filterKey {driver property : Bytes} (hdriver : SafeDriver driver)
    (hproperty : property ∈ commandProperties ∨ property = required) :
    equalsSign ∉ filterKey driver property := by
  have hprefix : equalsSign ∉ filterPrefix := by decide +kernel
  have hcommands : ∀ property ∈ commandProperties, equalsSign ∉ property := by decide +kernel
  have hrequired : equalsSign ∉ required := by decide +kernel
  have hname : equalsSign ∉ driver := by
    intro hmem
    have hbyte := List.all_eq_true.mp hdriver equalsSign hmem
    exact absurd hbyte (by decide)
  rw [filterKey, List.mem_append, List.mem_append, List.mem_cons]
  rintro (hmem | hmem | hmem | hmem)
  · exact hprefix hmem
  · exact hname hmem
  · exact absurd hmem (by decide)
  · obtain hproperty | rfl := hproperty
    · exact hcommands property hproperty hmem
    · exact hrequired hmem

theorem mem_overrideEntries {drivers : List Bytes} (hsafe : ∀ driver ∈ drivers, SafeDriver driver)
    {entry : Entry} : entry ∈ overrideEntries drivers ↔ ∃ driver ∈ drivers,
      (∃ property ∈ commandProperties, entry = ⟨filterKey driver property, some []⟩) ∨
        entry = ⟨filterKey driver required, some (utf8 "false")⟩ := by
  rw [overrideEntries, List.map_flatMap, List.mem_flatMap]
  refine exists_congr fun driver => and_congr_right fun hdriver => ?_
  rw [overrideOptions, List.map_append, List.mem_append, List.map_map, List.mem_map,
    List.map_singleton, List.mem_singleton]
  have hcommand : ∀ property ∈ commandProperties,
      optionEntry (filterKey driver property ++ [equalsSign]) =
        ⟨filterKey driver property, some []⟩ := fun property hproperty =>
    optionEntry_append (equalsSign_notMem_filterKey (hsafe driver hdriver) (Or.inl hproperty)) []
  rw [optionEntry_append (equalsSign_notMem_filterKey (hsafe driver hdriver) (Or.inr rfl))]
  refine or_congr ⟨?_, ?_⟩ Iff.rfl
  · rintro ⟨property, hproperty, rfl⟩
    exact ⟨property, hproperty, hcommand property hproperty⟩
  · rintro ⟨property, hproperty, rfl⟩
    exact ⟨property, hproperty, hcommand property hproperty⟩

theorem lastValue_overrideEntries {drivers : List Bytes}
    (hsafe : ∀ driver ∈ drivers, SafeDriver driver) {driver property : Bytes}
    (hproperty : property ∈ commandProperties) :
    lastValue (overrideEntries drivers) (filterKey driver property) =
      if driver ∈ drivers then some (some []) else none := by
  have hrequired : ∀ property ∈ commandProperties, property ≠ required := by decide +kernel
  have hkey : ∀ entry ∈ overrideEntries drivers, entry.key = filterKey driver property →
      driver ∈ drivers ∧ entry.value = some [] := by
    intro entry hentry hsame
    obtain ⟨name, hname, ⟨other, hother, rfl⟩ | rfl⟩ := (mem_overrideEntries hsafe).mp hentry
    · obtain ⟨rfl, -⟩ := filterKey_inj (dot_notMem_property (Or.inl hother))
        (dot_notMem_property (Or.inl hproperty)) hsame
      exact ⟨hname, rfl⟩
    · obtain ⟨-, rfl⟩ := filterKey_inj (dot_notMem_property (Or.inr rfl))
        (dot_notMem_property (Or.inl hproperty)) hsame
      exact absurd rfl (hrequired _ hproperty)
  split
  · rename_i hdriver
    refine lastValue_of_forall (fun entry hentry hsame => (hkey entry hentry hsame).2) ?_
    exact ⟨_, (mem_overrideEntries hsafe).mpr ⟨driver, hdriver, Or.inl ⟨property, hproperty, rfl⟩⟩,
      rfl⟩
  · rename_i hdriver
    exact lastValue_eq_none fun entry hentry hsame => hdriver (hkey entry hentry hsame).1

/-- No key has a NUL in it. -/
def Readable (config : Config) : Prop := ∀ entry ∈ config, (0 : UInt8) ∉ entry.key

theorem splitOn_keys {config : Config} (hreadable : Readable config) :
    ((probeOutput config).splitOn 0).filter (· ≠ []) =
      (config.filter fun entry => filterPrefix.isPrefixOf entry.key).map Entry.key := by
  have hfields : probeOutput config =
      ((config.filter fun entry => filterPrefix.isPrefixOf entry.key).map Entry.key).flatMap
        (· ++ [0]) := by
    rw [probeOutput, List.flatMap_map]
  have hzero : ∀ field ∈ (config.filter fun entry => filterPrefix.isPrefixOf entry.key).map
      Entry.key, (0 : UInt8) ∉ field := by
    intro field hfield
    obtain ⟨entry, hentry, rfl⟩ := List.mem_map.mp hfield
    exact hreadable entry (List.mem_filter.mp hentry).1
  rw [hfields, splitOn_terminated hzero, List.filter_append]
  have hnonempty : ∀ field ∈ (config.filter fun entry => filterPrefix.isPrefixOf entry.key).map
      Entry.key, decide (field ≠ []) = true := by
    intro field hfield
    obtain ⟨entry, hentry, rfl⟩ := List.mem_map.mp hfield
    have hprefix := (List.mem_filter.mp hentry).2
    refine decide_eq_true ?_
    intro hnil
    rw [hnil] at hprefix
    exact absurd hprefix (by decide +kernel)
  rw [List.filter_eq_self.mpr hnonempty]
  simp

def overrideArgs (drivers : List Bytes) : List Bytes :=
  (drivers.flatMap overrideOptions).flatMap fun option => [optionFlag, option]

theorem names_of_mem_keys {config : Config} (hreadable : Readable config) {overrides : List Bytes}
    (h : filterOverrides (probeOutput config) = some overrides) :
    ∃ drivers, overrides = overrideArgs drivers ∧ (∀ driver ∈ drivers, SafeDriver driver) ∧
      ∀ driver, driver ∈ drivers ↔ Names config driver := by
  rw [filterOverrides, splitOn_keys hreadable] at h
  obtain ⟨drivers, hdrivers, h⟩ := Option.bind_eq_some_iff.mp h
  obtain rfl := Option.some.inj h
  have hmem := fun driver => mem_collectDrivers hdrivers driver
  simp only [List.not_mem_nil, false_or] at hmem
  refine ⟨drivers, rfl, ?_, ?_⟩
  · intro driver hdriver
    obtain ⟨key, -, hread⟩ := (hmem driver).mp hdriver
    exact (readFilterKey_driver hread).1
  · intro driver
    rw [hmem]
    constructor
    · rintro ⟨key, hkey, hread⟩
      obtain ⟨-, property, hproperty, rfl⟩ := readFilterKey_driver hread
      obtain ⟨entry, hentry, hsame⟩ := List.mem_map.mp hkey
      exact ⟨property, hproperty, entry, (List.mem_filter.mp hentry).1, hsame⟩
    · rintro ⟨property, hproperty, entry, hentry, hkey⟩
      have hprefix : filterPrefix.isPrefixOf entry.key = true :=
        hkey ▸ isPrefixOf_filterKey driver property
      have hlisted : entry.key ∈ (config.filter fun entry =>
          filterPrefix.isPrefixOf entry.key).map Entry.key :=
        List.mem_map_of_mem (List.mem_filter.mpr ⟨hentry, hprefix⟩)
      rw [hkey] at hlisted
      refine ⟨_, hlisted, (readFilterKey_filterKey hproperty).resolve_right ?_⟩
      exact collectDrivers_safe hdrivers _ hlisted

/-- The drivers of an accepted probe are those that a key names, if it has printed
everything. -/
theorem discoverFilterOverrides_drivers {probe : Option Probe} {config : Config}
    {overrides : List Bytes} (hreadable : Readable config)
    (h : discoverFilterOverrides probe config = some overrides) :
    ∃ drivers, overrides = overrideArgs drivers ∧ (∀ driver ∈ drivers, SafeDriver driver) ∧
      ∀ driver, driver ∈ drivers ↔
        Names config driver ∧ probe.map Probe.ended = some .complete := by
  cases probe with
  | none => cases h
  | some probe =>
    rw [discoverFilterOverrides, acceptProbe] at h
    split at h
    · rename_i hblank
      obtain rfl := Option.some.inj h
      refine ⟨[], rfl, by simp, ?_⟩
      intro driver
      refine ⟨by simp, ?_⟩
      rintro ⟨⟨property, hproperty, entry, hentry, hkey⟩, hended⟩
      obtain hended := Option.some.inj hended
      rw [Probe.exitCode, hended] at hblank
      have hempty : probeOutput config = [] := by
        by_contra hne
        have hfalse : (probeOutput config).isEmpty = false := by simp [hne]
        rw [hfalse] at hblank
        exact absurd hblank.1 (by decide)
      have hprefix : filterPrefix.isPrefixOf entry.key = true :=
        hkey ▸ isPrefixOf_filterKey driver property
      rw [probeOutput, List.flatMap_eq_nil_iff] at hempty
      exact absurd (hempty entry (List.mem_filter.mpr ⟨hentry, hprefix⟩)) (by simp)
    · split at h
      · cases h
      · rename_i hrefused
        rw [not_or, not_or] at hrefused
        obtain ⟨hexit, hlength, -⟩ := hrefused
        rw [decide_eq_true_eq] at hlength
        have hended : probe.ended = .complete := by
          cases hcases : probe.ended with
          | complete => rfl
          | failed exitCode printed =>
            rw [Probe.exitCode, hcases] at hexit
            exact absurd (not_not.mp hexit) exitCode.property
        have hstdout : probe.stdout config = probeOutput config := by
          rw [Probe.stdout, hended]
        rw [hstdout] at h hlength
        rw [List.take_of_length_le (Nat.le_of_not_lt hlength)] at h
        obtain ⟨drivers, rfl, hsafe, hnames⟩ := names_of_mem_keys hreadable h
        refine ⟨drivers, rfl, hsafe, ?_⟩
        intro driver
        rw [hnames, Option.map_some, hended]
        exact ⟨fun hname => ⟨hname, rfl⟩, And.left⟩

end KodeGpt.FilterDrivers
