import KodeGpt.GitCommands

/-!
Which filters git may run after the probe: those of drivers that the probe has not
found, because only a configuration of the worktree names them or because the probe
has been ended before it printed anything.
-/

namespace KodeGpt.FilterConfinement

open JsonText TextEncodings GitConfigs FilterDrivers GitCommands

inductive Worktree where
  | main
  | linked (name : Bytes)
  deriving DecidableEq

/-- The configuration that all worktrees share, with its includes, and those of single
worktrees, which are read if an extension is set. -/
structure Repository where
  shared : Config
  readable : Readable shared
  worktreeConfig : Bool
  own : Worktree → Config

def Repository.config (repository : Repository) (worktree : Worktree) : Config :=
  repository.shared ++ if repository.worktreeConfig then repository.own worktree else []

structure Command where
  worktree : Worktree
  args : List Bytes

def effective (repository : Repository) (command : Command) : Config :=
  repository.config command.worktree ++ (options command.args).1

def plainSubcommands : List Bytes := args ["show-ref", "symbolic-ref", "rev-parse", "branch"]

def convertsContents (words : List Bytes) : Bool :=
  match words with
  | [] => false
  | subcommand :: rest =>
    !plainSubcommands.contains subcommand &&
      !(subcommand = utf8 "worktree" && rest.head? = some (utf8 "list"))

def hasCommand (config : Config) (driver : Bytes) : Bool :=
  commandProperties.any fun property => isSet config (filterKey driver property)

/-- No driver has a command that could be run. -/
def FiltersDisabled (repository : Repository) (command : Command) : Prop :=
  convertsContents (options command.args).2 = true →
    ∀ driver, hasCommand (effective repository command) driver = false

inductive Operation where
  | inspection (operation : GitOperation)
  | checkpoint
  | checkpointPatch
  | localMutation (mutation : GitLocalMutation)
  | worktreeCreate (name branch : Bytes)
  | worktreeRemove (name : Bytes)

/-- What is launched after the probe. To add or to remove a worktree, git also works in
the worktree itself; its inspection before that is one of its own. -/
def launches (operation : Operation) (root : Worktree) (canonicalRoot : Bytes)
    (overrides : List Bytes) : List Command :=
  match operation with
  | .inspection operation => [⟨root, hardenedGitArgs operation overrides⟩]
  | .checkpoint => [⟨root, checkpointStatusArgs overrides⟩]
  | .checkpointPatch =>
    [⟨root, checkpointPatchArgs true overrides⟩, ⟨root, checkpointPatchArgs false overrides⟩]
  | .localMutation mutation =>
    (localMutationArgs mutation overrides).toList.map fun args => ⟨root, args⟩
  | .worktreeCreate name branch =>
    [⟨root, branchExistsArgs branch⟩, ⟨root, branchInUseArgs⟩,
      ⟨root, worktreeAddArgs canonicalRoot name branch overrides⟩,
      ⟨.linked name, worktreeAddArgs canonicalRoot name branch overrides⟩,
      ⟨.linked name, symbolicRefArgs⟩, ⟨.linked name, revParseArgs⟩]
  | .worktreeRemove name =>
    [⟨root, worktreeRemoveArgs canonicalRoot name overrides⟩,
      ⟨.linked name, worktreeRemoveArgs canonicalRoot name overrides⟩]

/-- After an accepted probe nothing runs a filter. -/
def Confined (repository : Repository) (operation : Operation) (root : Worktree)
    (canonicalRoot : Bytes) (probe : Option Probe) : Prop :=
  ∀ overrides, discoverFilterOverrides probe repository.shared = some overrides →
    ∀ command ∈ launches operation root canonicalRoot overrides, FiltersDisabled repository command

/-- A command, by what comes after the options that every command has. -/
structure Launch where
  worktree : Worktree
  overridden : Bool
  rest : List Bytes

def Launch.command (overrides : List Bytes) (launch : Launch) : Command :=
  ⟨launch.worktree, baseGitArgs ++ ((if launch.overridden then overrides else []) ++ launch.rest)⟩

/-- Its own options concern no filter, and without the overrides it converts nothing. -/
structure Launch.Sound (launch : Launch) : Prop where
  options : ∀ entry ∈ (options launch.rest).1, filterPrefix.isPrefixOf entry.key = false
  overridden : launch.overridden = false → convertsContents (GitConfigs.options launch.rest).2 = false

theorem Launch.sound_of_options (worktree : Worktree) {rest : List Bytes}
    (hoptions : (GitConfigs.options rest).1 = []) : Launch.Sound ⟨worktree, true, rest⟩ where
  options := by
    rw [hoptions]
    exact nofun
  overridden := nofun

theorem Launch.sound_of_plain (worktree : Worktree) {rest : List Bytes}
    (hoptions : (GitConfigs.options rest).1 = [])
    (hplain : convertsContents (GitConfigs.options rest).2 = false) :
    Launch.Sound ⟨worktree, false, rest⟩ where
  options := by
    rw [hoptions]
    exact nofun
  overridden := fun _ => hplain

theorem Launch.sound_of_subcommand (worktree : Worktree) {subcommand : Bytes}
    (hoption : subcommand ≠ optionFlag) (hdirectory : subcommand ≠ directoryFlag)
    (rest : List Bytes) : Launch.Sound ⟨worktree, true, subcommand :: rest⟩ :=
  Launch.sound_of_options worktree (by rw [options_subcommand hoption hdirectory])

theorem Launch.sound_of_directory (worktree : Worktree) {subcommand : Bytes}
    (hoption : subcommand ≠ optionFlag) (hdirectory : subcommand ≠ directoryFlag)
    (directory : Bytes) (rest : List Bytes) :
    Launch.Sound ⟨worktree, true, directoryFlag :: directory :: subcommand :: rest⟩ :=
  Launch.sound_of_options worktree (by
    rw [options_directory, options_subcommand hoption hdirectory])

theorem localMutation_sound (root : Worktree) (mutation : GitLocalMutation) :
    ∃ plan : List Launch, (∀ launch ∈ plan, launch.Sound) ∧ ∀ overrides,
      (localMutationArgs mutation overrides).toList.map (fun args => ⟨root, args⟩) =
        plan.map (Launch.command overrides) := by
  have hnone : ∃ plan : List Launch, (∀ launch ∈ plan, launch.Sound) ∧ ∀ overrides : List Bytes,
      ((none : Option (List Bytes)).toList.map fun args => (⟨root, args⟩ : Command)) =
        plan.map (Launch.command overrides) := ⟨[], nofun, fun _ => rfl⟩
  have hone : ∀ rest : List Bytes, Launch.Sound ⟨root, true, rest⟩ →
      ∃ plan : List Launch, (∀ launch ∈ plan, launch.Sound) ∧ ∀ overrides : List Bytes,
        ((some (baseGitArgs ++ overrides ++ rest)).toList.map
          fun args => (⟨root, args⟩ : Command)) = plan.map (Launch.command overrides) := by
    intro rest hsound
    refine ⟨[⟨root, true, rest⟩], List.forall_mem_singleton.mpr hsound, ?_⟩
    intro overrides
    rw [List.append_assoc]
    rfl
  cases mutation with
  | stage paths =>
    dsimp only [localMutationArgs]
    split
    · exact hnone
    · exact hone _ (Launch.sound_of_subcommand root (by decide +kernel)
        (by decide +kernel) _)
  | commit message =>
    dsimp only [localMutationArgs]
    split
    · exact hnone
    · refine hone _ ⟨?_, nofun⟩
      intro entry hentry
      have hcommit : utf8 "commit" ≠ optionFlag := by decide +kernel
      have hcommit' : utf8 "commit" ≠ directoryFlag := by decide +kernel
      change entry ∈ (options (optionFlag :: utf8 "commit.gpgSign=false" :: utf8 "commit" ::
        _)).1 at hentry
      rw [options_option, options_subcommand hcommit hcommit'] at hentry
      rw [List.mem_singleton.mp hentry]
      decide +kernel
  | branchCreate name =>
    dsimp only [localMutationArgs]
    split
    · exact hone _ (Launch.sound_of_subcommand root (by decide +kernel)
        (by decide +kernel) _)
    · exact hnone
  | branchSwitch name =>
    dsimp only [localMutationArgs]
    split
    · exact hone _ (Launch.sound_of_subcommand root (by decide +kernel)
        (by decide +kernel) _)
    · exact hnone
  | branchDelete name =>
    dsimp only [localMutationArgs]
    split
    · exact hone _ (Launch.sound_of_subcommand root (by decide +kernel)
        (by decide +kernel) _)
    · exact hnone

theorem launches_sound (operation : Operation) (root : Worktree) (canonicalRoot : Bytes) :
    ∃ plan : List Launch, (∀ launch ∈ plan, launch.Sound) ∧ ∀ overrides,
      launches operation root canonicalRoot overrides = plan.map (Launch.command overrides) := by
  have hworktree : utf8 "worktree" ≠ optionFlag := by decide +kernel
  have hworktree' : utf8 "worktree" ≠ directoryFlag := by decide +kernel
  cases operation with
  | inspection operation =>
    have hoptions : (options (operationWords operation)).1 = [] := by
      cases operation <;> decide +kernel
    refine ⟨[⟨root, true, operationWords operation⟩],
      List.forall_mem_singleton.mpr (Launch.sound_of_options root hoptions), ?_⟩
    intro overrides
    rw [launches, hardenedGitArgs, List.append_assoc]
    rfl
  | checkpoint =>
    refine ⟨[⟨root, true, checkpointStatusWords⟩],
      List.forall_mem_singleton.mpr (Launch.sound_of_options root (by decide +kernel)), ?_⟩
    intro overrides
    rw [launches, checkpointStatusArgs, List.append_assoc]
    rfl
  | checkpointPatch =>
    have hsound : ∀ staged, Launch.Sound ⟨root, true, checkpointPatchWords staged⟩ := by
      intro staged
      apply Launch.sound_of_options
      cases staged <;> decide +kernel
    refine ⟨[⟨root, true, checkpointPatchWords true⟩, ⟨root, true, checkpointPatchWords false⟩],
      List.forall_mem_cons.mpr ⟨hsound true, List.forall_mem_singleton.mpr (hsound false)⟩, ?_⟩
    intro overrides
    rw [launches, checkpointPatchArgs, checkpointPatchArgs, List.append_assoc, List.append_assoc]
    rfl
  | localMutation mutation => exact localMutation_sound root mutation
  | worktreeCreate name branch =>
    have hadd := fun worktree => Launch.sound_of_directory worktree hworktree hworktree'
      canonicalRoot [utf8 "add", joinPath canonicalRoot (worktreePath name), branch]
    have hexists : Launch.Sound ⟨root, false, utf8 "show-ref" :: utf8 "--verify" ::
        utf8 "--quiet" :: [headRef branch]⟩ := by
      have hoption : utf8 "show-ref" ≠ optionFlag := by decide +kernel
      have hdirectory : utf8 "show-ref" ≠ directoryFlag := by decide +kernel
      have hplain : plainSubcommands.contains (utf8 "show-ref") = true := by decide +kernel
      apply Launch.sound_of_plain
      · rw [options_subcommand hoption hdirectory]
      · rw [options_subcommand hoption hdirectory, convertsContents, hplain]
        rfl
    have hread : ∀ worktree words, words ∈ [args ["worktree", "list", "--porcelain"],
        args ["symbolic-ref", "--quiet", "HEAD"], args ["rev-parse", "--verify", "HEAD"]] →
        Launch.Sound ⟨worktree, false, words⟩ := by
      have hplain : ∀ words ∈ [args ["worktree", "list", "--porcelain"],
          args ["symbolic-ref", "--quiet", "HEAD"], args ["rev-parse", "--verify", "HEAD"]],
          (options words).1 = [] ∧ convertsContents (options words).2 = false := by
        decide +kernel
      intro worktree words hwords
      exact Launch.sound_of_plain worktree (hplain words hwords).1 (hplain words hwords).2
    refine ⟨_, List.forall_mem_cons.mpr ⟨hexists, List.forall_mem_cons.mpr
      ⟨hread root _ List.mem_cons_self, List.forall_mem_cons.mpr ⟨hadd root,
        List.forall_mem_cons.mpr ⟨hadd (.linked name), List.forall_mem_cons.mpr
          ⟨hread (.linked name) _ (List.mem_cons_of_mem _ List.mem_cons_self),
            List.forall_mem_singleton.mpr (hread (.linked name) _
              (List.mem_cons_of_mem _ (List.mem_cons_of_mem _ List.mem_cons_self)))⟩⟩⟩⟩⟩, ?_⟩
    intro overrides
    rw [launches, worktreeAddArgs, List.append_assoc]
    rfl
  | worktreeRemove name =>
    have hremove := fun worktree => Launch.sound_of_directory worktree hworktree hworktree'
      canonicalRoot [utf8 "remove", joinPath canonicalRoot (worktreePath name)]
    refine ⟨[⟨root, true, _⟩, ⟨.linked name, true, _⟩],
      List.forall_mem_cons.mpr ⟨hremove root, List.forall_mem_singleton.mpr (hremove _)⟩, ?_⟩
    intro overrides
    rw [launches, worktreeRemoveArgs, List.append_assoc]
    rfl

section Overridden

variable {repository : Repository} {launch : Launch} {drivers : List Bytes}

theorem options_command (launch : Launch) (drivers : List Bytes) :
    options (launch.command (overrideArgs drivers)).args =
      (baseOptions.map optionEntry ++
        (overrideEntries (if launch.overridden then drivers else []) ++ (options launch.rest).1),
        (options launch.rest).2) := by
  have hargs : (if launch.overridden then overrideArgs drivers else []) =
      overrideArgs (if launch.overridden then drivers else []) := by
    split <;> rfl
  rw [Launch.command, baseGitArgs, options_flatMap, hargs, overrideArgs, options_flatMap]
  rfl

theorem lastValue_other {config : Config} (hother : ∀ entry ∈ config,
    filterPrefix.isPrefixOf entry.key = false) (driver property : Bytes) :
    lastValue config (filterKey driver property) = none := by
  apply lastValue_eq_none
  intro entry hentry hkey
  have hfalse := hother entry hentry
  rw [hkey, isPrefixOf_filterKey] at hfalse
  cases hfalse

theorem hasCommand_command (hsound : launch.Sound) (hsafe : ∀ driver ∈ drivers, SafeDriver driver)
    (hconverts : convertsContents (options launch.rest).2 = true) (driver : Bytes) :
    hasCommand (effective repository (launch.command (overrideArgs drivers))) driver =
      (hasCommand (repository.config launch.worktree) driver && !drivers.contains driver) := by
  have hbase : ∀ entry ∈ baseOptions.map optionEntry,
      filterPrefix.isPrefixOf entry.key = false := by
    decide +kernel
  have hoverridden : launch.overridden = true := by
    by_contra hfalse
    rw [hsound.overridden (Bool.eq_false_of_not_eq_true hfalse)] at hconverts
    cases hconverts
  have hlast : ∀ property ∈ commandProperties,
      lastValue (effective repository (launch.command (overrideArgs drivers)))
        (filterKey driver property) =
          if driver ∈ drivers then some (some [])
          else lastValue (repository.config launch.worktree) (filterKey driver property) := by
    intro property hproperty
    rw [effective, options_command, hoverridden, lastValue_append, lastValue_append,
      lastValue_append, lastValue_other hbase, lastValue_other hsound.options, if_pos rfl,
      lastValue_overrideEntries hsafe hproperty]
    split <;> rfl
  by_cases hdriver : driver ∈ drivers
  · have hcontains : drivers.contains driver = true := List.contains_iff_mem.mpr hdriver
    rw [hcontains, Bool.not_true, Bool.and_false, hasCommand, List.any_eq_false]
    intro property hproperty
    rw [isSet, hlast property hproperty, if_pos hdriver]
    simp
  · have hcontains : drivers.contains driver = false := by simpa using hdriver
    rw [hcontains, Bool.not_false, Bool.and_true, hasCommand, hasCommand, Bool.eq_iff_iff,
      List.any_eq_true, List.any_eq_true]
    refine exists_congr fun property => and_congr_right fun hproperty => ?_
    rw [isSet, isSet, hlast property hproperty, if_neg hdriver]

end Overridden

/-- Every driver with a command is one that the probe has found. -/
def Covered (repository : Repository) (operation : Operation) (root : Worktree)
    (canonicalRoot : Bytes) (probe : Option Probe) : Prop :=
  (discoverFilterOverrides probe repository.shared).isSome = true →
    ∀ command ∈ launches operation root canonicalRoot [],
      convertsContents (options command.args).2 = true →
        ∀ driver, hasCommand (repository.config command.worktree) driver = true →
          Names repository.shared driver ∧ probe.map Probe.ended = some .complete

theorem options_unoverridden (launch : Launch) :
    (options (launch.command []).args).2 = (options launch.rest).2 := by
  have hcommand := options_command launch []
  have hargs : (launch.command (overrideArgs [])) = launch.command [] := rfl
  rw [hargs] at hcommand
  rw [hcommand]

/-- The filters that can still run are those of drivers that the probe has missed. -/
theorem filters_confined (repository : Repository) (operation : Operation) (root : Worktree)
    (canonicalRoot : Bytes) (probe : Option Probe) :
    Confined repository operation root canonicalRoot probe ↔
      Covered repository operation root canonicalRoot probe := by
  obtain ⟨plan, hsound, hplan⟩ := launches_sound operation root canonicalRoot
  constructor
  · intro hconfined haccepted command hcommand hconverts driver hhas
    obtain ⟨overrides, hoverrides⟩ := Option.isSome_iff_exists.mp haccepted
    obtain ⟨drivers, rfl, hsafe, hnames⟩ :=
      discoverFilterOverrides_drivers repository.readable hoverrides
    rw [hplan] at hcommand
    obtain ⟨launch, hlaunch, rfl⟩ := List.mem_map.mp hcommand
    rw [options_unoverridden] at hconverts
    have hdisabled := hconfined _ hoverrides (launch.command (overrideArgs drivers)) (by
      rw [hplan]
      exact List.mem_map_of_mem hlaunch) (by rwa [options_command]) driver
    rw [hasCommand_command (hsound launch hlaunch) hsafe hconverts] at hdisabled
    change hasCommand (repository.config launch.worktree) driver = true at hhas
    rw [hhas, Bool.true_and, Bool.not_eq_false', List.contains_iff_mem] at hdisabled
    exact (hnames driver).mp hdisabled
  · intro hcovered overrides hoverrides command hcommand hconverts driver
    obtain ⟨drivers, rfl, hsafe, hnames⟩ :=
      discoverFilterOverrides_drivers repository.readable hoverrides
    rw [hplan] at hcommand
    obtain ⟨launch, hlaunch, rfl⟩ := List.mem_map.mp hcommand
    rw [options_command] at hconverts
    rw [hasCommand_command (hsound launch hlaunch) hsafe hconverts]
    cases hhas : hasCommand (repository.config launch.worktree) driver with
    | false => rfl
    | true =>
      have hfound := hcovered (Option.isSome_iff_exists.mpr ⟨_, hoverrides⟩)
        (launch.command []) (by
          rw [hplan]
          exact List.mem_map_of_mem hlaunch) (by rwa [options_unoverridden]) driver hhas
      have hmem : drivers.contains driver = true :=
        List.contains_iff_mem.mpr ((hnames driver).mpr hfound)
      rw [hmem]
      rfl

def evilEntry : Entry := ⟨filterKey (utf8 "evil") (utf8 "clean"), some (utf8 "touch pwned")⟩

/-- The driver is in `config.worktree`. -/
def hiddenDriver : Repository where
  shared := [⟨utf8 "extensions.worktreeconfig", some (utf8 "true")⟩]
  readable := by
    show ∀ entry ∈ [_], _
    decide +kernel
  worktreeConfig := true
  own := fun _ => [evilEntry]

def openDriver : Repository where
  shared := [evilEntry]
  readable := by
    show ∀ entry ∈ [_], _
    decide +kernel
  worktreeConfig := false
  own := fun _ => []

def completeProbe : Probe := ⟨.complete, false, false⟩

def killedProbe : Probe := ⟨.failed ⟨1, by decide⟩ 0, false, false⟩

theorem filters_run :
    ¬ Confined hiddenDriver (.inspection .status) .main (utf8 "/r") (some completeProbe) ∧
      ¬ Confined openDriver (.inspection .status) .main (utf8 "/r") (some killedProbe) := by
  constructor
  · intro hconfined
    have hdisabled := hconfined [] (by decide +kernel) _ List.mem_cons_self (by decide +kernel)
      (utf8 "evil")
    exact absurd hdisabled (by decide +kernel)
  · intro hconfined
    have hdisabled := hconfined [] (by decide +kernel) _ List.mem_cons_self (by decide +kernel)
      (utf8 "evil")
    exact absurd hdisabled (by decide +kernel)

end KodeGpt.FilterConfinement
