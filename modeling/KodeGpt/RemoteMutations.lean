import KodeGpt.GitCommands
import KodeGpt.GitStatus

/-!
Fetches, pulls and pushes: what the runtime accepts, the plan it makes for a token,
and the commands that it launches with the network open.
-/

namespace KodeGpt.RemoteMutations

open JsonText TextEncodings GitConfigs FilterDrivers GitCommands GitStatus

def remoteCredentialMaxBytes : Nat := 4096

def validateRemoteCredential (token : Bytes) : Bool :=
  token ≠ [] && token.length ≤ remoteCredentialMaxBytes &&
    token.all fun byte => byte ≠ 0 && byte ≠ 13 && byte ≠ 10

def validRemoteName (remote : Bytes) : Bool :=
  remote ≠ [] && remote.length ≤ 128 && remote.head?.any isAlphanumeric &&
    remote.tail.all isDriverByte

def validateRemoteMutationInput (remote ref : Bytes) : Bool :=
  validRemoteName remote && validBranchName ref

def isControl (byte : UInt8) : Bool := byte < 32 || byte = 127

def remoteTargetMaxBytes : Nat := 1024

def parseRemoteTarget (stdout : Bytes) : Option Bytes :=
  let target := trimLineEnds stdout
  if validUtf8 stdout = false ∨ target = [] ∨ remoteTargetMaxBytes < target.length ∨
      target.any isControl then none
  else some target

def githubPrefix : Bytes := utf8 "https://github.com/"

def stripSuffix (suffix text : Bytes) : Bytes :=
  if suffix.isSuffixOf text then text.take (text.length - suffix.length) else text

def validComponent (component : Bytes) : Bool :=
  component ≠ [] && component.length ≤ 256 && component ≠ utf8 "." && component ≠ utf8 ".." &&
    component.all isDriverByte

def canonicalGithubHttpsRemote (url : Bytes) : Bool :=
  url.length ≤ remoteTargetMaxBytes && githubPrefix.isPrefixOf url && !url.any isControl &&
    (url.all fun byte => !(utf8 "?#@\\%").contains byte) &&
    match (url.drop githubPrefix.length).splitOn slash with
    | [owner, repository] =>
      validComponent owner && validComponent (stripSuffix (utf8 ".git") repository)
    | _ => false

def httpPrefix : Bytes := utf8 "http."

def httpKey (url property : Bytes) : Bytes := httpPrefix ++ (url ++ dot :: property)

/-- What git reads in the private configuration: the header with the encoded token, and
three settings, all for one URL. -/
def authEntries (url header : Bytes) : Config :=
  [⟨httpKey url (utf8 "extraheader"), some header⟩,
    ⟨httpKey url (utf8 "followredirects"), some (utf8 "false")⟩,
    ⟨httpKey url (utf8 "proxy"), some []⟩,
    ⟨httpKey url (utf8 "sslverify"), some (utf8 "true")⟩]

section Encoding

variable (encode : Bytes → Bytes)

def authHeader (token : Bytes) : Bytes :=
  utf8 "Authorization: Basic " ++ encode (utf8 "x-access-token:" ++ token)

def githubAuthConfig (url token : Bytes) : Option Config :=
  if validateRemoteCredential token = false ∨ canonicalGithubHttpsRemote url = false then none
  else some (authEntries url (authHeader encode token))

def remoteGetUrlArgs (push : Bool) (remote : Bytes) : List Bytes :=
  baseGitArgs ++ (args ["remote", "get-url"] ++ (if push then args ["--push"] else []) ++ [remote])

def authenticatedRemoteTransportProbeArgs : List Bytes :=
  baseGitArgs ++ args ["config", "--includes", "--null", "--name-only", "--get-regexp",
    "^(http\\.|url\\.|remote\\..*\\.proxy)"]

def privateGitConfigPath : Bytes := utf8 "/run/kodegpt/git-auth.config"

def includePath : Bytes := utf8 "include.path"

def remoteOptions (authenticated : Bool) : List Bytes :=
  utf8 "protocol.file.allow=always" ::
    if authenticated then [includePath ++ equalsSign :: privateGitConfigPath] else []

def remoteGitArgs (filterOverrides : List Bytes) (authenticated : Bool) : List Bytes :=
  baseGitArgs ++ filterOverrides ++
    (remoteOptions authenticated).flatMap fun option => [optionFlag, option]

def trackingRef (remote ref : Bytes) : Bytes :=
  utf8 "refs/remotes/" ++ (remote ++ slash :: ref)

def fetchWords (remote target ref : Bytes) : List Bytes :=
  args ["fetch", "--no-tags"] ++ [target, ref ++ utf8 ":" ++ trackingRef remote ref]

def pushWords (target ref : Bytes) : List Bytes :=
  args ["push"] ++ [target, headRef ref ++ utf8 ":" ++ headRef ref]

def remoteFetchArgs (remote target ref : Bytes) (filterOverrides : List Bytes)
    (authenticated : Bool) : List Bytes :=
  remoteGitArgs filterOverrides authenticated ++ fetchWords remote target ref

def remotePullMergeArgs (remote ref : Bytes) (filterOverrides : List Bytes) : List Bytes :=
  remoteGitArgs filterOverrides false ++ (args ["merge", "--ff-only"] ++ [trackingRef remote ref])

def remotePushArgs (target ref : Bytes) (filterOverrides : List Bytes) (authenticated : Bool) :
    List Bytes :=
  remoteGitArgs filterOverrides authenticated ++ pushWords target ref

/-- What a command without a failure has returned. -/
structure Output where
  exitCode : Int
  stdout : Bytes

structure AuthPlan where
  target : Bytes
  privateGitConfig : Option Config

def acceptTransportProbe (output : Output) : Bool :=
  (output.exitCode = 1 && output.stdout = []) || (output.exitCode = 0 && output.stdout = [])

/-- The commands that the plan is made with, by their arguments. -/
structure PlanRun where
  getUrl : List Bytes → Option Output
  transportProbe : List Bytes → Option Output

def remoteTarget (run : PlanRun) (push : Bool) (remote : Bytes) : Option Bytes := do
  let output ← run.getUrl (remoteGetUrlArgs push remote)
  if output.exitCode ≠ 0 then none else parseRemoteTarget output.stdout

def ensureTransportConfigSafe (run : PlanRun) : Option Unit := do
  let output ← run.transportProbe authenticatedRemoteTransportProbeArgs
  if acceptTransportProbe output then some () else none

def resolveRemoteAuthPlan (run : PlanRun) (remote : Bytes) (push : Bool)
    (credential : Option Bytes) : Option AuthPlan :=
  match credential with
  | none => some ⟨remote, none⟩
  | some token => do
    let target ← remoteTarget run push remote
    if canonicalGithubHttpsRemote target then
      ensureTransportConfigSafe run
      let privateGitConfig ← githubAuthConfig encode target token
      return ⟨target, some privateGitConfig⟩
    else return ⟨remote, none⟩

inductive GitRemoteMutation where
  | fetch (remote ref : Bytes)
  | pull (remote ref : Bytes)
  | push (remote ref : Bytes)
  deriving DecidableEq

def GitRemoteMutation.remote : GitRemoteMutation → Bytes
  | .fetch remote _ => remote
  | .pull remote _ => remote
  | .push remote _ => remote

def GitRemoteMutation.ref : GitRemoteMutation → Bytes
  | .fetch _ ref => ref
  | .pull _ ref => ref
  | .push _ ref => ref

def GitRemoteMutation.isPush : GitRemoteMutation → Bool
  | .push _ _ => true
  | _ => false

/-- A command with the network open, and the private configuration that is mounted. -/
structure Launch where
  args : List Bytes
  privateGitConfig : Option Config

def remoteLaunches (mutation : GitRemoteMutation) (plan : AuthPlan) (overrides : List Bytes)
    (fetchSucceeds : Bool) : List Launch :=
  let authenticated := plan.privateGitConfig.isSome
  match mutation with
  | .fetch remote ref =>
    [⟨remoteFetchArgs remote plan.target ref overrides authenticated, plan.privateGitConfig⟩]
  | .pull remote ref =>
    ⟨remoteFetchArgs remote plan.target ref overrides authenticated, plan.privateGitConfig⟩ ::
      if fetchSucceeds then [⟨remotePullMergeArgs remote ref overrides, none⟩] else []
  | .push _ ref => [⟨remotePushArgs plan.target ref overrides authenticated, plan.privateGitConfig⟩]

/-- What the call finds; the configuration may be another one for every command. -/
structure MutationRun where
  filterProbe : Option Probe
  filterConfig : Config
  readable : Readable filterConfig
  plan : PlanRun
  fetchSucceeds : Bool

def runGitRemoteMutation (run : MutationRun) (mutation : GitRemoteMutation)
    (credential : Option Bytes) : List Launch :=
  if credential.all validateRemoteCredential = false then []
  else
    match discoverFilterOverrides run.filterProbe run.filterConfig with
    | none => []
    | some overrides =>
      if validateRemoteMutationInput mutation.remote mutation.ref = false then []
      else
        match resolveRemoteAuthPlan encode run.plan mutation.remote mutation.isPush credential with
        | none => []
        | some plan => remoteLaunches mutation plan overrides run.fetchSucceeds

end Encoding

end KodeGpt.RemoteMutations
