import Mathlib.Data.List.MinMax
import KodeGpt.RemoteMutations

/-!
Where a token goes: what git starts and whom it contacts while the private
configuration is mounted, under the configuration that it then finds.
-/

namespace KodeGpt.TokenConfinement

open JsonText GitConfigs FilterDrivers GitCommands RemoteMutations

inductive Event where
  | request (url : Bytes)
  | contact (address : Bytes)
  | command (name : Bytes)
  deriving DecidableEq

/-- The addresses that settings of HTTP make git contact besides the host of a URL. The
private configuration of the URL alone makes it contact none. -/
structure Https where
  diversions : Config → Bytes → List Bytes
  none_of_private : ∀ config url header,
    (∀ entry ∈ config, httpPrefix.isPrefixOf entry.key = true → entry ∈ authEntries url header) →
      diversions config url = []

def lastText (config : Config) (key : Bytes) : Option Bytes := (lastValue config key).bind id

def remotePrefix : Bytes := utf8 "remote."

def urlPrefix : Bytes := utf8 "url."

def askPassKey : Bytes := utf8 "core.askpass"

def remoteKey (target property : Bytes) : Bytes := remotePrefix ++ (target ++ dot :: property)

def sectionValues (config : Config) (target property : Bytes) : List Bytes :=
  (values config (remoteKey target property)).filterMap id

def rewriteRule (property : Bytes) (entry : Entry) : Option (Bytes × Bytes) :=
  if urlPrefix.isPrefixOf entry.key then
    match rsplitOnce dot (entry.key.drop urlPrefix.length), entry.value with
    | some (base, found), some value => if found = property then some (base, value) else none
    | _, _ => none
  else none

def rewrite (config : Config) (property url : Bytes) : Option Bytes :=
  let rules := (config.filterMap (rewriteRule property)).filter fun rule => rule.2.isPrefixOf url
  (rules.argmax fun rule => rule.2.length).map fun rule => rule.1 ++ url.drop rule.2.length

def insteadOf : Bytes := utf8 "insteadof"

def pushInsteadOf : Bytes := utf8 "pushinsteadof"

def destinations (push : Bool) (config : Config) (target : Bytes) : List Bytes :=
  let urls := match sectionValues config target (utf8 "url") with
    | [] => [target]
    | urls => urls
  let rewritten := fun url => (rewrite config insteadOf url).getD url
  if push then
    match sectionValues config target (utf8 "pushurl") with
    | [] => urls.map fun url => (rewrite config pushInsteadOf url).getD (rewritten url)
    | pushUrls => pushUrls.map rewritten
  else (urls.map rewritten).take 1

def isSchemeByte (byte : UInt8) : Bool :=
  isAlphanumeric byte || byte = 43 || byte = 45 || byte = 46

def externalHelper (url : Bytes) : Option Bytes :=
  let name := url.takeWhile isSchemeByte
  if name ≠ [] ∧ (utf8 "::").isPrefixOf (url.drop name.length) then some name else none

def fileScheme : Bytes := utf8 "file"

def schemeOf (url : Bytes) : Bytes :=
  let name := url.takeWhile isSchemeByte
  if name ≠ [] ∧ (utf8 "://").isPrefixOf (url.drop name.length) then name
  else if (url.takeWhile (· ≠ slash)).contains 58 then utf8 "ssh"
  else fileScheme

def protocolAllowed (config : Config) (protocol : Bytes) : Bool :=
  match (lastText config (utf8 "protocol." ++ (protocol ++ utf8 ".allow"))).or
      (lastText config (utf8 "protocol.allow")) with
  | some policy => policy ≠ utf8 "never"
  | none => protocol ≠ utf8 "ext"

def setting (config : Config) (key : Bytes) : List Bytes :=
  (lastText config key).toList.filter (· ≠ [])

section Transport

variable (https : Https)

def diversions (config : Config) (target url : Bytes) : List Bytes :=
  setting config (remoteKey target (utf8 "proxy")) ++ https.diversions config url

def connect (config : Config) (target : Bytes) (accepts : Bool) (url : Bytes) : List Event :=
  match externalHelper url with
  | some helper => if protocolAllowed config helper then [.command helper] else []
  | none =>
    if protocolAllowed config (schemeOf url) = false ∨ schemeOf url = fileScheme then []
    else if schemeOf url = utf8 "https" then
      .request url :: ((diversions https config target url).map .contact ++
        if accepts then [] else (setting config askPassKey).map .command)
    else [.contact url]

def transport (push : Bool) (config : Config) (target : Bytes) (accepts : Bool) : List Event :=
  match lastText config (remoteKey target (utf8 "vcs")) with
  | some helper => if protocolAllowed config helper then [.command helper] else []
  | none => (destinations push config target).flatMap (connect https config target accepts)

def transportTarget : List Bytes → Option (Bool × Bytes)
  | subcommand :: first :: second :: _ =>
    if subcommand = utf8 "fetch" ∧ first = utf8 "--no-tags" then some (false, second)
    else if subcommand = utf8 "push" then some (true, first)
    else none
  | _ => none

/-- The entries of a command line, with what the private configuration says where it is
included. -/
def includePrivate (privateGitConfig : Config) (entries : Config) : Config :=
  entries.flatMap fun entry =>
    if entry = ⟨includePath, some privateGitConfigPath⟩ then entry :: privateGitConfig else [entry]

/-- The configuration when git reads it, and whether the server takes the header. -/
structure Use where
  config : Config
  accepts : Bool

def launchEvents (use : Use) (launch : Launch) : List Event :=
  match transportTarget (options launch.args).2 with
  | some (push, target) =>
    transport https push
      (use.config ++ includePrivate (launch.privateGitConfig.getD []) (options launch.args).1)
      target use.accepts
  | none => []

/-- While the private configuration is mounted, git only sends requests for the resolved
URL, which is one of GitHub. -/
def TokenConfined (encode : Bytes → Bytes) (run : MutationRun) (mutation : GitRemoteMutation)
    (token : Bytes) (use : Use) : Prop :=
  ∀ launch ∈ runGitRemoteMutation encode run mutation (some token),
    launch.privateGitConfig.isSome = true → ∀ event ∈ launchEvents https use launch,
      ∃ target, remoteTarget run.plan mutation.isPush mutation.remote = some target ∧
        canonicalGithubHttpsRemote target = true ∧ event = .request target

/-- A URL for which git starts nothing and contacts nobody but the target's host. -/
def DirectUrl (config : Config) (target : Bytes) (accepts : Bool) (url : Bytes) : Prop :=
  match externalHelper url with
  | some helper => protocolAllowed config helper = false
  | none =>
    protocolAllowed config (schemeOf url) = false ∨ schemeOf url = fileScheme ∨
      (url = target ∧ diversions https config target url = [] ∧
        (accepts = true ∨ setting config askPassKey = []))

/-- The section of the target names no helper that may run, and no URL but the target. -/
structure Direct (push : Bool) (config : Config) (target : Bytes) (accepts : Bool) : Prop where
  vcs : ∀ helper, lastText config (remoteKey target (utf8 "vcs")) = some helper →
    protocolAllowed config helper = false
  urls : lastText config (remoteKey target (utf8 "vcs")) = none →
    ∀ url ∈ destinations push config target, DirectUrl https config target accepts url

theorem isSchemeByte_githubPrefix : githubPrefix =
    utf8 "https" ++ utf8 "://" ++ utf8 "github.com/" := by
  decide +kernel

theorem takeWhile_canonical {target : Bytes} (hcanonical : canonicalGithubHttpsRemote target = true) :
    target.takeWhile isSchemeByte = utf8 "https" ∧
      ∃ rest, target.drop (utf8 "https").length = utf8 "://" ++ rest := by
  have hprefix : githubPrefix <+: target := by
    simp only [canonicalGithubHttpsRemote, Bool.and_eq_true, and_assoc] at hcanonical
    exact List.isPrefixOf_iff_prefix.mp hcanonical.2.1
  obtain ⟨rest, rfl⟩ := hprefix
  have hscheme : ∀ byte ∈ utf8 "https", isSchemeByte byte = true :=
    List.all_eq_true.mp (by decide +kernel)
  have hcolon : (utf8 "://" ++ utf8 "github.com/" ++ rest).takeWhile isSchemeByte = [] := by
    have hseparator : utf8 "://" = 58 :: utf8 "//" := by decide +kernel
    rw [hseparator]
    rfl
  rw [isSchemeByte_githubPrefix, List.append_assoc, List.append_assoc]
  refine ⟨?_, utf8 "github.com/" ++ rest, List.drop_left⟩
  rw [List.takeWhile_append_of_pos hscheme, ← List.append_assoc, hcolon, List.append_nil]

theorem canonical_https {target : Bytes} (hcanonical : canonicalGithubHttpsRemote target = true) :
    externalHelper target = none ∧ schemeOf target = utf8 "https" := by
  obtain ⟨htake, rest, hdrop⟩ := takeWhile_canonical hcanonical
  have hnonempty : utf8 "https" ≠ [] := by decide +kernel
  have hhelper : (utf8 "::").isPrefixOf (utf8 "://" ++ rest) = false := by
    have hcolons : utf8 "::" = [58, 58] := by decide +kernel
    have hseparator : utf8 "://" = 58 :: 47 :: utf8 "/" := by decide +kernel
    rw [hcolons, hseparator]
    rfl
  have hscheme : (utf8 "://").isPrefixOf (utf8 "://" ++ rest) = true :=
    List.isPrefixOf_iff_prefix.mpr (List.prefix_append _ _)
  constructor
  · rw [externalHelper, htake, hdrop, hhelper]
    exact if_neg fun h => Bool.false_ne_true h.2
  · rw [schemeOf, htake, hdrop, if_pos ⟨hnonempty, hscheme⟩]

theorem connect_direct_iff {config : Config} {target url : Bytes} {accepts : Bool}
    (hcanonical : canonicalGithubHttpsRemote target = true) :
    (∀ event ∈ connect https config target accepts url, event = .request target) ↔
      DirectUrl https config target accepts url := by
  rw [connect, DirectUrl]
  cases hhelper : externalHelper url with
  | some helper =>
    dsimp only
    cases protocolAllowed config helper with
    | true => simp
    | false => simp
  | none =>
    dsimp only
    by_cases hquiet : protocolAllowed config (schemeOf url) = false ∨ schemeOf url = fileScheme
    · rw [if_pos hquiet, ← or_assoc]
      exact iff_of_true nofun (Or.inl hquiet)
    · rw [if_neg hquiet, ← or_assoc, or_iff_right hquiet]
      by_cases hscheme : schemeOf url = utf8 "https"
      · rw [if_pos hscheme]
        cases accepts with
        | true => simp [List.eq_nil_iff_forall_not_mem]
        | false => simp [List.eq_nil_iff_forall_not_mem, or_imp, forall_and]
      · rw [if_neg hscheme]
        refine iff_of_false ?_ ?_
        · intro h
          cases h _ List.mem_cons_self
        · rintro ⟨rfl, -⟩
          exact hscheme (canonical_https hcanonical).2

theorem transport_direct_iff {push : Bool} {config : Config} {target : Bytes} {accepts : Bool}
    (hcanonical : canonicalGithubHttpsRemote target = true) :
    (∀ event ∈ transport https push config target accepts, event = .request target) ↔
      Direct https push config target accepts := by
  rw [transport]
  cases hvcs : lastText config (remoteKey target (utf8 "vcs")) with
  | some helper =>
    dsimp only
    constructor
    · intro h
      refine ⟨?_, fun hnone => absurd (hvcs.symm.trans hnone) nofun⟩
      intro helper' hhelper'
      obtain rfl := Option.some.inj (hvcs.symm.trans hhelper')
      by_contra hallowed
      rw [if_pos (Bool.eq_true_of_not_eq_false hallowed)] at h
      cases h _ List.mem_cons_self
    · intro hdirect
      rw [if_neg (by simp [hdirect.vcs helper hvcs])]
      exact nofun
  | none =>
    dsimp only
    constructor
    · intro h
      refine ⟨fun helper hhelper => absurd (hvcs.symm.trans hhelper) nofun, ?_⟩
      intro _ url hurl
      refine (connect_direct_iff https hcanonical).mp ?_
      intro event hevent
      exact h event (List.mem_flatMap_of_mem hurl hevent)
    · intro hdirect event hevent
      obtain ⟨url, hurl, hevent⟩ := List.mem_flatMap.mp hevent
      exact (connect_direct_iff https hcanonical).mpr (hdirect.urls hvcs url hurl) event hevent

/-- The call gets as far as to use the token for the target. -/
structure Authenticated (run : MutationRun) (mutation : GitRemoteMutation)
    (token : Bytes) (overrides : List Bytes) (target : Bytes) : Prop where
  credential : validateRemoteCredential token = true
  overrides : discoverFilterOverrides run.filterProbe run.filterConfig = some overrides
  input : validateRemoteMutationInput mutation.remote mutation.ref = true
  resolved : remoteTarget run.plan mutation.isPush mutation.remote = some target
  canonical : canonicalGithubHttpsRemote target = true
  probed : ensureTransportConfigSafe run.plan = some ()

def authenticatedWords (target : Bytes) : GitRemoteMutation → List Bytes
  | .fetch remote ref => fetchWords remote target ref
  | .pull remote ref => fetchWords remote target ref
  | .push _ ref => pushWords target ref

def authenticatedLaunch (mutation : GitRemoteMutation) (overrides : List Bytes)
    (target header : Bytes) : Launch :=
  ⟨remoteGitArgs overrides true ++ authenticatedWords target mutation,
    some (authEntries target header)⟩

section Calls

variable {encode : Bytes → Bytes} {run : MutationRun} {mutation : GitRemoteMutation}
  {token : Bytes}

theorem resolveRemoteAuthPlan_eq_some_iff {plan : AuthPlan} (hprivate : plan.privateGitConfig ≠ none)
    (hcredential : validateRemoteCredential token = true) {remote : Bytes} {push : Bool} :
    resolveRemoteAuthPlan encode run.plan remote push (some token) = some plan ↔
      remoteTarget run.plan push remote = some plan.target ∧
        canonicalGithubHttpsRemote plan.target = true ∧ ensureTransportConfigSafe run.plan = some () ∧
        plan.privateGitConfig = some (authEntries plan.target (authHeader encode token)) := by
  rw [resolveRemoteAuthPlan]
  cases htarget : remoteTarget run.plan push remote with
  | none => exact iff_of_false nofun nofun
  | some target =>
    show (if canonicalGithubHttpsRemote target = true then _ else some ⟨remote, none⟩) = some plan ↔ _
    by_cases hcanonical : canonicalGithubHttpsRemote target = true
    · have hconfig : githubAuthConfig encode target token =
          some (authEntries target (authHeader encode token)) := by
        rw [githubAuthConfig, if_neg (by simp [hcredential, hcanonical])]
      rw [if_pos hcanonical, hconfig]
      cases ensureTransportConfigSafe run.plan with
      | none => exact iff_of_false nofun nofun
      | some probed =>
        constructor
        · intro hplan
          obtain rfl := Option.some.inj hplan
          exact ⟨rfl, hcanonical, rfl, rfl⟩
        · rintro ⟨htarget, -, -, hprivate⟩
          obtain rfl := Option.some.inj htarget
          exact congrArg some (congrArg (AuthPlan.mk plan.target) hprivate.symm)
    · rw [if_neg hcanonical]
      refine iff_of_false ?_ ?_
      · intro hplan
        obtain rfl := Option.some.inj hplan
        exact hprivate rfl
      · rintro ⟨htarget, hplan, -⟩
        rw [← Option.some.inj htarget] at hplan
        exact hcanonical hplan

theorem mem_remoteLaunches_iff {plan : AuthPlan} {overrides : List Bytes} {fetchSucceeds : Bool}
    {launch : Launch} :
    (launch ∈ remoteLaunches mutation plan overrides fetchSucceeds ∧
      launch.privateGitConfig.isSome = true) ↔
      plan.privateGitConfig.isSome = true ∧ launch =
        ⟨remoteGitArgs overrides plan.privateGitConfig.isSome ++
          authenticatedWords plan.target mutation, plan.privateGitConfig⟩ := by
  have hone (first : Launch) : (launch ∈ [first] ∧ launch.privateGitConfig.isSome = true) ↔
      first.privateGitConfig.isSome = true ∧ launch = first := by
    rw [List.mem_singleton, and_comm]
    exact and_congr_left fun heq => by rw [heq]
  cases mutation with
  | fetch remote ref => exact hone _
  | push remote ref => exact hone _
  | pull remote ref =>
    refine Iff.trans ?_ (hone ⟨remoteGitArgs overrides plan.privateGitConfig.isSome ++
      authenticatedWords plan.target (.pull remote ref), plan.privateGitConfig⟩)
    refine and_congr_left fun hprivate => ?_
    rw [remoteLaunches, List.mem_singleton]
    constructor
    · intro hlaunch
      obtain rfl | hlaunch := List.mem_cons.mp hlaunch
      · rfl
      · split at hlaunch
        · rw [List.mem_singleton.mp hlaunch] at hprivate
          cases hprivate
        · cases hlaunch
    · rintro rfl
      exact List.mem_cons_self

theorem mem_runGitRemoteMutation_iff {launch : Launch} :
    (launch ∈ runGitRemoteMutation encode run mutation (some token) ∧
      launch.privateGitConfig.isSome = true) ↔
      ∃ overrides target, Authenticated run mutation token overrides target ∧
        launch = authenticatedLaunch mutation overrides target (authHeader encode token) := by
  constructor
  · rintro ⟨hlaunch, hprivate⟩
    rw [runGitRemoteMutation] at hlaunch
    split at hlaunch
    · cases hlaunch
    · rename_i hcredential
      have hcredential : validateRemoteCredential token = true := by simpa using hcredential
      split at hlaunch
      · cases hlaunch
      · rename_i overrides hoverrides
        split at hlaunch
        · cases hlaunch
        · rename_i hinput
          split at hlaunch
          · cases hlaunch
          · rename_i plan hplan
            obtain ⟨hsome, rfl⟩ := mem_remoteLaunches_iff.mp ⟨hlaunch, hprivate⟩
            obtain ⟨htarget, hcanonical, hprobed, hauth⟩ :=
              (resolveRemoteAuthPlan_eq_some_iff (Option.isSome_iff_ne_none.mp hsome)
                hcredential).mp hplan
            refine ⟨overrides, plan.target, ⟨hcredential, hoverrides, by simpa using hinput, htarget,
              hcanonical, hprobed⟩, ?_⟩
            rw [hauth]
            rfl
  · rintro ⟨overrides, target, hauth, rfl⟩
    have hplan : resolveRemoteAuthPlan encode run.plan mutation.remote mutation.isPush
        (some token) = some ⟨target, some (authEntries target (authHeader encode token))⟩ :=
      (resolveRemoteAuthPlan_eq_some_iff (Option.some_ne_none _) hauth.credential).mpr
        ⟨hauth.resolved, hauth.canonical, hauth.probed, rfl⟩
    rw [runGitRemoteMutation, if_neg (by simp [hauth.credential]), hauth.overrides]
    dsimp only
    rw [if_neg (by simp [hauth.input]), hplan]
    exact mem_remoteLaunches_iff.mpr ⟨rfl, rfl⟩

end Calls

def addedEntries (drivers : List Bytes) (target header : Bytes) : Config :=
  baseOptions.map optionEntry ++ (overrideEntries drivers ++
    (⟨utf8 "protocol.file.allow", some (utf8 "always")⟩ ::
      ⟨includePath, some privateGitConfigPath⟩ :: authEntries target header))

theorem authenticatedWords_options (target : Bytes) (mutation : GitRemoteMutation) :
    options (authenticatedWords target mutation) = ([], authenticatedWords target mutation) := by
  have hfetch : utf8 "fetch" ≠ optionFlag ∧ utf8 "fetch" ≠ directoryFlag := by decide +kernel
  have hpush : utf8 "push" ≠ optionFlag ∧ utf8 "push" ≠ directoryFlag := by decide +kernel
  cases mutation with
  | fetch remote ref => exact options_subcommand hfetch.1 hfetch.2 _
  | pull remote ref => exact options_subcommand hfetch.1 hfetch.2 _
  | push remote ref => exact options_subcommand hpush.1 hpush.2 _

theorem transportTarget_authenticatedWords (target : Bytes) (mutation : GitRemoteMutation) :
    transportTarget (authenticatedWords target mutation) = some (mutation.isPush, target) := by
  have hpush : utf8 "push" ≠ utf8 "fetch" := by decide +kernel
  cases mutation with
  | fetch remote ref => exact if_pos ⟨rfl, rfl⟩
  | pull remote ref => exact if_pos ⟨rfl, rfl⟩
  | push remote ref => exact (if_neg fun h => hpush h.1).trans (if_pos rfl)

theorem includePrivate_of_forall {privateGitConfig entries : Config}
    (hentries : ∀ entry ∈ entries, entry.key ≠ includePath) :
    includePrivate privateGitConfig entries = entries := by
  induction entries with
  | nil => rfl
  | cons entry rest ih =>
    obtain ⟨hentry, hrest⟩ := List.forall_mem_cons.mp hentries
    rw [includePrivate, List.flatMap_cons, if_neg fun heq => hentry (congrArg Entry.key heq)]
    exact congrArg (entry :: ·) (ih hrest)

theorem includePrivate_append (privateGitConfig entries later : Config) :
    includePrivate privateGitConfig (entries ++ later) =
      includePrivate privateGitConfig entries ++ includePrivate privateGitConfig later := by
  rw [includePrivate, List.flatMap_append]
  rfl

theorem filterPrefix_overrideEntries {drivers : List Bytes}
    (hsafe : ∀ driver ∈ drivers, SafeDriver driver) {entry : Entry}
    (hentry : entry ∈ overrideEntries drivers) : filterPrefix.isPrefixOf entry.key = true := by
  obtain ⟨driver, _, ⟨property, _, rfl⟩ | rfl⟩ := (mem_overrideEntries hsafe).mp hentry
  · exact isPrefixOf_filterKey driver property
  · exact isPrefixOf_filterKey driver required

theorem includePrivate_remoteOptions (privateGitConfig : Config) :
    includePrivate privateGitConfig ((remoteOptions true).map optionEntry) =
      ⟨utf8 "protocol.file.allow", some (utf8 "always")⟩ ::
        ⟨includePath, some privateGitConfigPath⟩ :: privateGitConfig := by
  have hfile : optionEntry (utf8 "protocol.file.allow=always") =
      ⟨utf8 "protocol.file.allow", some (utf8 "always")⟩ := by decide +kernel
  have hequals : equalsSign ∉ includePath := by decide +kernel
  have hother : (⟨utf8 "protocol.file.allow", some (utf8 "always")⟩ : Entry) ≠
      ⟨includePath, some privateGitConfigPath⟩ := by decide +kernel
  show includePrivate privateGitConfig [optionEntry (utf8 "protocol.file.allow=always"),
    optionEntry (includePath ++ equalsSign :: privateGitConfigPath)] = _
  rw [hfile, optionEntry_append hequals, includePrivate, List.flatMap_cons, if_neg hother,
    List.flatMap_singleton, if_pos rfl]
  rfl

theorem includePrivate_options {drivers : List Bytes} (hsafe : ∀ driver ∈ drivers, SafeDriver driver)
    (target header : Bytes) (mutation : GitRemoteMutation) :
    options (authenticatedLaunch mutation (overrideArgs drivers) target header).args =
      (baseOptions.map optionEntry ++ (overrideEntries drivers ++
        (remoteOptions true).map optionEntry), authenticatedWords target mutation) ∧
      includePrivate (authEntries target header) (baseOptions.map optionEntry ++
        (overrideEntries drivers ++ (remoteOptions true).map optionEntry)) =
        addedEntries drivers target header := by
  constructor
  · rw [authenticatedLaunch, remoteGitArgs, baseGitArgs, List.append_assoc, List.append_assoc,
      options_flatMap, overrideArgs, options_flatMap, options_flatMap,
      authenticatedWords_options, List.append_nil]
    rfl
  · have hbase : ∀ entry ∈ baseOptions.map optionEntry, entry.key ≠ includePath := by
      decide +kernel
    have hoverrides : ∀ entry ∈ overrideEntries drivers, entry.key ≠ includePath := by
      have hinclude : filterPrefix.isPrefixOf includePath = false := by decide +kernel
      intro entry hentry hkey
      have hprefix := filterPrefix_overrideEntries hsafe hentry
      rw [hkey, hinclude] at hprefix
      cases hprefix
    rw [includePrivate_append, includePrivate_append, includePrivate_of_forall hbase,
      includePrivate_of_forall hoverrides, includePrivate_remoteOptions]
    rfl

theorem launchEvents_authenticatedLaunch {drivers : List Bytes}
    (hsafe : ∀ driver ∈ drivers, SafeDriver driver) (use : Use) (target header : Bytes)
    (mutation : GitRemoteMutation) :
    launchEvents https use (authenticatedLaunch mutation (overrideArgs drivers) target header) =
      transport https mutation.isPush (use.config ++ addedEntries drivers target header) target
        use.accepts := by
  obtain ⟨hoptions, hincluded⟩ := includePrivate_options hsafe target header mutation
  rw [launchEvents, hoptions]
  dsimp only
  rw [transportTarget_authenticatedWords]
  dsimp only [authenticatedLaunch, Option.getD]
  rw [hincluded]

/-- When git reads the configuration, nothing in it leads away from the target. -/
def KeepsToTarget (encode : Bytes → Bytes) (run : MutationRun) (mutation : GitRemoteMutation)
    (token : Bytes) (use : Use) : Prop :=
  ∀ drivers target, Authenticated run mutation token (overrideArgs drivers) target →
    (∀ driver ∈ drivers, SafeDriver driver) →
      Direct https mutation.isPush
        (use.config ++ addedEntries drivers target (authHeader encode token)) target use.accepts

theorem tokenConfined_iff (encode : Bytes → Bytes) (run : MutationRun)
    (mutation : GitRemoteMutation) (token : Bytes) (use : Use) :
    TokenConfined https encode run mutation token use ↔
      KeepsToTarget https encode run mutation token use := by
  constructor
  · intro hconfined drivers target hauth hsafe
    obtain ⟨hlaunch, hprivate⟩ : authenticatedLaunch mutation (overrideArgs drivers) target
        (authHeader encode token) ∈ runGitRemoteMutation encode run mutation (some token) ∧ _ :=
      mem_runGitRemoteMutation_iff.mpr ⟨_, _, hauth, rfl⟩
    refine (transport_direct_iff https hauth.canonical).mp ?_
    intro event hevent
    rw [← launchEvents_authenticatedLaunch https hsafe] at hevent
    obtain ⟨found, hfound, _, rfl⟩ := hconfined _ hlaunch hprivate event hevent
    rw [Option.some.inj (hfound.symm.trans hauth.resolved)]
  · intro hkeeps launch hlaunch hprivate event hevent
    obtain ⟨overrides, target, hauth, rfl⟩ := mem_runGitRemoteMutation_iff.mp ⟨hlaunch, hprivate⟩
    obtain ⟨drivers, rfl, hsafe, _⟩ :=
      discoverFilterOverrides_drivers run.readable hauth.overrides
    rw [launchEvents_authenticatedLaunch https hsafe] at hevent
    exact ⟨target, hauth.resolved, hauth.canonical,
      (transport_direct_iff https hauth.canonical).mpr (hkeeps drivers target hauth hsafe) event
        hevent⟩

def transportKey (key : Bytes) : Bool :=
  httpPrefix.isPrefixOf key || urlPrefix.isPrefixOf key ||
    (remotePrefix.isPrefixOf key && contains (key.drop remotePrefix.length) (utf8 ".proxy"))

def transportProbeAnswer (config : Config) : Output :=
  let found := config.filter fun entry => transportKey entry.key
  ⟨if found = [] then 1 else 0, found.flatMap fun entry => entry.key ++ [0]⟩

end Transport

def someTarget : Bytes := utf8 "https://github.com/o/r"

def helperConfig : Config :=
  [⟨utf8 "remote.origin.url", some someTarget⟩,
    ⟨remoteKey someTarget (utf8 "vcs"), some (utf8 "ext")⟩,
    ⟨utf8 "protocol.ext.allow", some (utf8 "always")⟩]

def helperRun : MutationRun where
  filterProbe := some ⟨.complete, false, false⟩
  filterConfig := helperConfig
  readable := by
    have hkeys : ∀ entry ∈ helperConfig, (0 : UInt8) ∉ entry.key := by decide +kernel
    exact hkeys
  plan :=
    { getUrl := fun _ => some ⟨0, someTarget ++ [10]⟩
      transportProbe := fun _ => some (transportProbeAnswer helperConfig) }
  fetchSucceeds := true

theorem helper_not_confined : ¬∀ (https : Https) (encode : Bytes → Bytes) (run : MutationRun)
    (mutation : GitRemoteMutation) (token : Bytes) (use : Use),
    TokenConfined https encode run mutation token use := by
  intro h
  have hconfined := h ⟨fun _ _ => [], fun _ _ _ _ => rfl⟩ id helperRun
    (.fetch (utf8 "origin") (utf8 "main")) (utf8 "t") ⟨helperConfig, true⟩
  have hauth : Authenticated helperRun (.fetch (utf8 "origin") (utf8 "main")) (utf8 "t")
      (overrideArgs []) someTarget :=
    { credential := by decide +kernel
      overrides := by decide +kernel
      input := by decide +kernel
      resolved := by decide +kernel
      canonical := by decide +kernel
      probed := by decide +kernel }
  have hdirect := (tokenConfined_iff _ _ _ _ _ _).mp hconfined [] someTarget hauth (by simp)
  have hforbidden := hdirect.vcs (utf8 "ext") (by decide +kernel)
  exact absurd hforbidden (by decide +kernel)

end KodeGpt.TokenConfinement
