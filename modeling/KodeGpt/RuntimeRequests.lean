import KodeGpt.WorkspaceManager
import KodeGpt.WorkspaceRegistryRuns

/-!
The workspace manager and the registry of the runtime together. A request takes
effect in the runtime and its answer is delivered later; its caller may give up
before the answer is there, or before the request has had its effect, which it
may then have at any later time or never.
-/

namespace KodeGpt.RuntimeRequests

open HostRoots KeyedFamily PolicyRestriction TransitionSystem WorkspaceContexts WorkspaceManager
open WorkspaceRegistryRuns

abbrev RuntimeAnswer := Answer HostPath FilesystemIdentity RuntimePolicy

inductive RuntimeRequest where
  | inspectRoot (path : HostPath)
  | register (rootPath : HostPath) (expectedIdentity : FilesystemIdentity)
      (ceiling : RuntimePolicy)
  | readProjectProfile (capabilityId : CapabilityId)
  | restrictPolicy (capabilityId : CapabilityId) (restriction : RuntimePolicy)
  | activate (capabilityId : CapabilityId)
  | beginClose (capabilityId : CapabilityId)
  | cancelExecutions (capabilityId : CapabilityId)
  | unregister (capabilityId : CapabilityId)

def closeRequest (capabilityId : CapabilityId) : CloseStep → RuntimeRequest
  | .beginClose => .beginClose capabilityId
  | .cancelExecutions => .cancelExecutions capabilityId
  | .unregister => .unregister capabilityId

def outstanding : CallPhase HostPath FilesystemIdentity RuntimePolicy → Option RuntimeRequest
  | .opening _ (.inspecting rootPath) => some (.inspectRoot rootPath)
  | .opening _ (.trusting _ _) => none
  | .opening _ (.registering root identity ceiling) => some (.register root identity ceiling)
  | .opening _ (.readingProfile capabilityId _) => some (.readProjectProfile capabilityId)
  | .opening _ (.restricting capabilityId effectivePolicy) =>
    some (.restrictPolicy capabilityId effectivePolicy)
  | .opening _ (.activating capabilityId _) => some (.activate capabilityId)
  | .unregistering capabilityId => some (.unregister capabilityId)
  | .closing _ capabilityId step => some (closeRequest capabilityId step)
  | _ => none

/-- What the registry does not decide: the host's answers, the profile that is
read (none if the read fails) and whether every execution could be cancelled. -/
structure Circumstances where
  host : Host
  profile : Option (Option RuntimePolicy)
  cancelled : Bool

def acknowledge (result : Except WorkspaceRegistryError (Option String × Registry)) :
    RuntimeAnswer :=
  match result with
  | .ok (some capabilityId, _) => .capability capabilityId
  | .ok (none, _) => .acknowledged
  | .error _ => .failure

def profileAnswer (registry : Registry) (capabilityId : CapabilityId)
    (profile : Option (Option RuntimePolicy)) : RuntimeAnswer :=
  match registry.contexts.lookup capabilityId, profile with
  | some context, some restriction =>
    if context.phase = .opening then .profile restriction else .failure
  | _, _ => .failure

def rootAnswer (host : Host) (path : HostPath) : RuntimeAnswer :=
  match inspectRoot host path with
  | .ok inspected => .root inspected.canonicalRoot inspected.identity
  | .error _ => .failure

def registryRequest (host : Host) : RuntimeRequest → Option Request
  | .inspectRoot _ => none
  | .register rootPath expectedIdentity ceiling =>
    some (.register host rootPath expectedIdentity ceiling)
  | .readProjectProfile _ => none
  | .restrictPolicy capabilityId restriction => some (.restrictPolicy capabilityId restriction)
  | .activate capabilityId => some (.activate capabilityId)
  | .beginClose capabilityId => some (.beginClose capabilityId)
  | .cancelExecutions capabilityId => some (.cancelExecutions capabilityId)
  | .unregister capabilityId => some (.unregister capabilityId)

def serveAnswer (circumstances : Circumstances) (history : History) (request : RuntimeRequest) :
    RuntimeAnswer :=
  match request with
  | .inspectRoot path => rootAnswer circumstances.host path
  | .readProjectProfile capabilityId =>
    profileAnswer history.registry capabilityId circumstances.profile
  | .cancelExecutions capabilityId =>
    if circumstances.cancelled then
      acknowledge (answer history.registry (.cancelExecutions capabilityId))
    else .failure
  | request =>
    match registryRequest circumstances.host request with
    | some request => acknowledge (answer history.registry request)
    | none => .failure

def serveEffect (circumstances : Circumstances) (history : History) (request : RuntimeRequest) :
    History :=
  match registryRequest circumstances.host request with
  | some request => history.serve request
  | none => history

/-- `served` holds the answers on their way to the calls, and `late` the requests
whose callers have given up and which may still have their effect. -/
structure System where
  manager : Manager HostPath FilesystemIdentity RuntimePolicy
  history : History
  served : CallId → Option RuntimeAnswer
  late : List RuntimeRequest

inductive SystemEvent where
  | openWorkspace (call : CallId) (id : WorkspaceId) (rootPath : Option HostPath)
  | closeWorkspace (call : CallId) (id : WorkspaceId)
  | trust (call : CallId) (entry : Option (TrustId × RuntimePolicy))
  | serve (call : CallId) (circumstances : Circumstances)
  | deliver (call : CallId)
  | fail (call : CallId)
  | serveLate (index : Nat) (circumstances : Circumstances)

def trustAnswer : Option (TrustId × RuntimePolicy) → RuntimeAnswer
  | some (trustId, ceiling) => .trusted trustId ceiling
  | none => .failure

def isIdle : CallPhase HostPath FilesystemIdentity RuntimePolicy → Bool
  | .idle => true
  | _ => false

def isTrusting : CallPhase HostPath FilesystemIdentity RuntimePolicy → Bool
  | .opening _ (.trusting _ _) => true
  | _ => false

namespace System

def started (processId : Nat) : System where
  manager := Manager.started
  history := History.start processId
  served := fun _ => none
  late := []

def settle (resolveProfile : RuntimePolicy → RuntimePolicy → Option RuntimePolicy) (s : System)
    (call : CallId) (answer : RuntimeAnswer) (late : List RuntimeRequest) : Option System :=
  (s.manager.answered resolveProfile call answer).map fun manager =>
    { s with manager, served := Function.update s.served call none, late }

def next (resolveProfile : RuntimePolicy → RuntimePolicy → Option RuntimePolicy) (s : System) :
    SystemEvent → Option System
  | .openWorkspace call id rootPath =>
    if isIdle (s.manager.calls call) then
      some { s with manager := s.manager.openWorkspace call id rootPath }
    else none
  | .closeWorkspace call id =>
    if isIdle (s.manager.calls call) then
      some { s with manager := s.manager.closeWorkspace call id }
    else none
  | .trust call entry =>
    if isTrusting (s.manager.calls call) then
      s.settle resolveProfile call (trustAnswer entry) s.late
    else none
  | .serve call circumstances =>
    match outstanding (s.manager.calls call), s.served call with
    | some request, none =>
      some { s with
        history := serveEffect circumstances s.history request
        served := Function.update s.served call
          (some (serveAnswer circumstances s.history request)) }
    | _, _ => none
  | .deliver call =>
    match s.served call with
    | some answer => s.settle resolveProfile call answer s.late
    | none => none
  | .fail call =>
    match outstanding (s.manager.calls call), s.served call with
    | some request, none => s.settle resolveProfile call .failure (s.late ++ [request])
    | some _, some _ => s.settle resolveProfile call .failure s.late
    | none, _ => none
  | .serveLate index circumstances =>
    match s.late[index]? with
    | some request =>
      some { s with
        history := serveEffect circumstances s.history request
        late := s.late.eraseIdx index }
    | none => none

end System

end KodeGpt.RuntimeRequests
