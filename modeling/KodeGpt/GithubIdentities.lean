import KodeGpt.PinnedSkills
import KodeGpt.RunPages
import KodeGpt.UrlReferences

/-!
The repository on GitHub that a workspace belongs to, read from the URL of its remote.
A URL of https is read by the parser of URLs; how the others are read is a parameter.
-/

namespace KodeGpt.GithubIdentities

open UrlReferences
open JsFrames (asciiUnits)
open JsObjects (JsText)
open NodePaths (slash)
open PinnedSkills (compareUtf8)
open RunPages (hasControl)

inductive ErrorCode where
  | ciRepositoryUnavailable
  | ciRemoteUnsupported
  deriving DecidableEq

structure CapabilityError where
  code : ErrorCode
  message : String
  deriving DecidableEq

structure GitRepositoryRemote where
  name : JsText
  fetchUrl : JsText
  deriving DecidableEq

structure GitHubRepositoryIdentity where
  owner : JsText
  name : JsText
  fullName : JsText
  selectedRemote : JsText
  deriving DecidableEq

def selectRemote (remotes : List GitRepositoryRemote) :
    Except CapabilityError GitRepositoryRemote :=
  match remotes.find? fun remote => remote.name = asciiUnits "origin" with
  | some origin => .ok origin
  | none =>
    match remotes.mergeSort fun left right => compareUtf8 left.name right.name with
    | [remote] => .ok remote
    | [] => .error ⟨.ciRepositoryUnavailable, "Trusted workspace has no usable Git fetch remote"⟩
    | _ => .error ⟨.ciRepositoryUnavailable, "Trusted workspace has ambiguous Git fetch remotes"⟩

def unsupportedRemote : CapabilityError :=
  ⟨.ciRemoteUnsupported,
    "Trusted workspace Git remote is not a supported github.com repository"⟩

structure RepositoryParts where
  owner : JsText
  name : JsText
  deriving DecidableEq

def isUnusable (part : JsText) : Bool :=
  part = [] || 100 < part.length || part = asciiUnits "." || part = asciiUnits ".." ||
    hasControl part || part.contains 64 || part.contains 58

def stripGit (rawName : JsText) : JsText :=
  if (asciiUnits ".git").isSuffixOf rawName then rawName.take (rawName.length - 4) else rawName

def normalizeRepositoryParts (owner rawName : JsText) : Except CapabilityError RepositoryParts :=
  if isUnusable owner ∨ isUnusable (stripGit rawName) then .error unsupportedRemote
  else .ok ⟨owner, stripGit rawName⟩

structure RemoteUrl extends Url where
  protocol : JsText
  deriving DecidableEq

section Parser

variable (parseHost : List Char → Option String) (otherUrl : JsText → Option RemoteUrl)

def locatedUrl (text : List Char) : Option Url :=
  let located := text.dropWhile isSlash
  let after := located.dropWhile fun character => !endsAuthority character
  (parseAuthority parseHost (located.takeWhile fun character => !endsAuthority character)).map
    fun authority => authority.url (if after.head?.any isSlash then after.tail else after)

def httpsScheme : List Char := "https:".toList

/-- `new URL`, with `otherUrl` for every other scheme. -/
def newUrl (text : JsText) : Option RemoteUrl :=
  let input := urlInput text
  if (input.take httpsScheme.length).map Char.toLower = httpsScheme then
    (locatedUrl parseHost (input.drop httpsScheme.length)).map fun url =>
      { url with protocol := asciiUnits "https:" }
  else otherUrl text

def lowerHost (hostname : String) : String := String.ofList (hostname.toList.map Char.toLower)

def parseUrlRemote (fetchUrl : JsText) : Except CapabilityError RepositoryParts :=
  match newUrl parseHost otherUrl fetchUrl with
  | none => .error unsupportedRemote
  | some url =>
    if lowerHost url.hostname ≠ "github.com" ∨ url.port ≠ none ∨ url.query.any (· ≠ []) ∨
        url.fragment.any (· ≠ []) ∨ url.password ≠ [] then .error unsupportedRemote
    else if url.protocol = asciiUnits "https:" ∧ url.username ≠ [] then .error unsupportedRemote
    else if url.protocol = asciiUnits "ssh:" ∧ url.username ≠ asciiUnits "git" then
      .error unsupportedRemote
    else if url.protocol ≠ asciiUnits "https:" ∧ url.protocol ≠ asciiUnits "ssh:" then
      .error unsupportedRemote
    else if url.pathname.contains 37 then .error unsupportedRemote
    else
      match (url.pathname.splitOn slash).filter (· ≠ []) with
      | [owner, rawName] => normalizeRepositoryParts owner rawName
      | _ => .error unsupportedRemote

def scpStart : JsText := asciiUnits "git@github.com:"

/-- `/^git@github\.com:([^/:]+)\/([^/:]+)$/`, and `parseUrlRemote` before it. -/
def parseGitHubRemote (fetchUrl : JsText) : Except CapabilityError RepositoryParts :=
  if fetchUrl = [] ∨ 8192 < fetchUrl.length ∨ hasControl fetchUrl then .error unsupportedRemote
  else if (asciiUnits "https://").isPrefixOf fetchUrl ∨
      (asciiUnits "ssh://").isPrefixOf fetchUrl then
    parseUrlRemote parseHost otherUrl fetchUrl
  else if scpStart.isPrefixOf fetchUrl then
    match (fetchUrl.drop scpStart.length).splitOn slash with
    | [owner, rawName] =>
      if owner = [] ∨ owner.contains 58 ∨ rawName = [] ∨ rawName.contains 58 then
        .error unsupportedRemote
      else normalizeRepositoryParts owner rawName
    | _ => .error unsupportedRemote
  else .error unsupportedRemote

def resolveGitHubRepositoryIdentity (remotes : List GitRepositoryRemote) :
    Except CapabilityError GitHubRepositoryIdentity := do
  let selected ← selectRemote remotes
  let identity ← parseGitHubRemote parseHost otherUrl selected.fetchUrl
  return ⟨identity.owner, identity.name, identity.owner ++ slash :: identity.name, selected.name⟩

end Parser

end KodeGpt.GithubIdentities
