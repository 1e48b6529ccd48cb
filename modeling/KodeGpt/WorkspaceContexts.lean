import KodeGpt.HostRoots
import KodeGpt.KeyedFamily

/-!
The registry of workspace security contexts. An operation that fails leaves
the registry as it was, so it answers the error alone; one that succeeds
answers the registry after it.
-/

namespace KodeGpt.WorkspaceContexts

open HostRoots KeyedFamily

inductive WorkspacePhase
  | opening
  | ready
  | closing
  deriving DecidableEq, Repr

structure WorkspaceSecurityContext (P : Type) where
  capabilityId : String
  root : RootIdentity
  ceiling : P
  effectivePolicy : P
  phase : WorkspacePhase

inductive WorkspaceRegistryError
  | rootInvalid
  | identityChanged
  | mountTopologyUnavailable
  | rootOverlap
  | policyEscalation
  | workspaceNotReady
  | filesystemBoundaryUnavailable
  | projectProfileReadFailed
  | fileAccessDenied
  | fileNotFound
  | fileInvalidUtf8
  | fileLimitExceeded
  | fileReadFailed
  | fileWriteConflict
  | fileWriteFailed
  | filePreconditionFailed
  | patchPreconditionFailed
  | patchTargetExists
  | capabilityNotFound
  deriving DecidableEq, Repr

/-- Why a root is not admitted, before any comparison with other roots. The
two registries of the runtime make these checks in the same order and report
them under the same names. -/
inductive RootAdmissionError
  | rootInvalid
  | identityChanged
  | mountTopologyUnavailable
  deriving DecidableEq, Repr

def admitRoot (host : Host) (rootPath : HostPath) (expectedIdentity : FilesystemIdentity) :
    Except RootAdmissionError RootIdentity :=
  match inspectRoot host rootPath with
  | .error _ => .error .rootInvalid
  | .ok inspected =>
    if inspected.identity ≠ expectedIdentity then .error .identityChanged
    else
      match host.mountinfo with
      | .error _ => .error .mountTopologyUnavailable
      | .ok mountinfo =>
        match backingTreeForPath mountinfo inspected.canonicalRoot with
        | .error _ => .error .mountTopologyUnavailable
        | .ok backing =>
          match host.openDirectory inspected.canonicalRoot with
          | none => .error .rootInvalid
          | some rootMetadata =>
            let fdIdentity := filesystemIdentity rootMetadata
            if !rootMetadata.isDir then .error .rootInvalid
            else if fdIdentity ≠ inspected.identity ∨ fdIdentity ≠ expectedIdentity then
              .error .identityChanged
            else if backing.deviceMajor ≠ fdIdentity.deviceMajor ∨
                backing.deviceMinor ≠ fdIdentity.deviceMinor then
              .error .mountTopologyUnavailable
            else
              .ok { visible := inspected.canonicalRoot, backing, identity := fdIdentity }

/-- An admitted root is what inspection, the mount table and the opened
descriptor agree on. -/
theorem admitRoot_ok {host : Host} {rootPath : HostPath} {expectedIdentity : FilesystemIdentity}
    {root : RootIdentity} (h : admitRoot host rootPath expectedIdentity = .ok root) :
    inspectRoot host rootPath = .ok ⟨root.visible, root.identity⟩ ∧
      root.identity = expectedIdentity ∧
      ∃ mountinfo, host.mountinfo = .ok mountinfo ∧
        backingTreeForPath mountinfo root.visible = .ok root.backing := by
  unfold admitRoot at h
  split at h
  · cases h
  · rename_i inspected hinspect
    split at h
    · cases h
    · split at h
      · cases h
      · rename_i mountinfo hmounts
        split at h
        · cases h
        · rename_i backing hbacking
          split at h
          · cases h
          · simp only at h
            split at h
            · cases h
            · split at h
              · cases h
              · rename_i hfd
                split at h
                · cases h
                · obtain rfl := Except.ok.inj h
                  simp only [ne_eq, not_or, not_not] at hfd
                  exact ⟨by rw [hinspect, hfd.1], hfd.2, mountinfo, hmounts, hbacking⟩

/-- The registry, with the process-wide counter its capability ids are drawn
from. The counter is a wrapping 64-bit integer. -/
structure WorkspaceRegistry (P : Type) where
  processId : Nat
  nextSequence : Nat
  contexts : Family String (WorkspaceSecurityContext P)

def initial (P : Type) (processId : Nat) : WorkspaceRegistry P where
  processId
  nextSequence := 1
  contexts := ∅

def capabilityIdOf (processId sequence : Nat) : String :=
  "kc_" ++ toString processId ++ "_" ++ toString sequence

variable {P : Type}

def nextCapabilityId (registry : WorkspaceRegistry P) : String × WorkspaceRegistry P :=
  (capabilityIdOf registry.processId registry.nextSequence,
    { registry with nextSequence := (registry.nextSequence + 1) % 2 ^ 64 })

def RootAdmissionError.toWorkspace : RootAdmissionError → WorkspaceRegistryError
  | .rootInvalid => .rootInvalid
  | .identityChanged => .identityChanged
  | .mountTopologyUnavailable => .mountTopologyUnavailable

def register (registry : WorkspaceRegistry P) (host : Host) (rootPath : HostPath)
    (expectedIdentity : FilesystemIdentity) (ceiling : P) :
    Except WorkspaceRegistryError (String × WorkspaceRegistry P) :=
  match admitRoot host rootPath expectedIdentity with
  | .error error => .error error.toWorkspace
  | .ok root =>
    if anyValue (fun existing => rootsOverlap existing.root root) registry.contexts then
      .error .rootOverlap
    else
      let (capabilityId, registry) := nextCapabilityId registry
      .ok (capabilityId,
        { registry with
          contexts := registry.contexts.insert capabilityId
            { capabilityId, root, ceiling, effectivePolicy := ceiling, phase := .opening } })

def restrictPolicyWith {E : Type} (registry : WorkspaceRegistry P) (capabilityId : String)
    (restriction : P) (resolve : P → P → Except E P) :
    Except WorkspaceRegistryError (WorkspaceRegistry P) :=
  match registry.contexts.lookup capabilityId with
  | none => .error .capabilityNotFound
  | some context =>
    if context.phase ≠ .opening then .error .workspaceNotReady
    else
      match resolve context.effectivePolicy restriction with
      | .error _ => .error .policyEscalation
      | .ok next =>
        .ok { registry with
          contexts := registry.contexts.insert capabilityId
            { context with effectivePolicy := next } }

def activate (registry : WorkspaceRegistry P) (capabilityId : String) :
    Except WorkspaceRegistryError (WorkspaceRegistry P) :=
  match registry.contexts.lookup capabilityId with
  | none => .error .capabilityNotFound
  | some context =>
    if context.phase ≠ .opening then .error .workspaceNotReady
    else
      .ok { registry with
        contexts := registry.contexts.insert capabilityId { context with phase := .ready } }

def beginClose (registry : WorkspaceRegistry P) (capabilityId : String) :
    Except WorkspaceRegistryError (WorkspaceRegistry P) :=
  match registry.contexts.lookup capabilityId with
  | none => .error .capabilityNotFound
  | some context =>
    match context.phase with
    | .opening => .error .workspaceNotReady
    | .ready =>
      .ok { registry with
        contexts := registry.contexts.insert capabilityId { context with phase := .closing } }
    | .closing => .ok registry

def cancelExecutions (registry : WorkspaceRegistry P) (capabilityId : String) :
    Except WorkspaceRegistryError (WorkspaceRegistry P) :=
  match registry.contexts.lookup capabilityId with
  | none => .error .capabilityNotFound
  | some context =>
    if context.phase ≠ .closing then .error .workspaceNotReady else .ok registry

def unregister (registry : WorkspaceRegistry P) (capabilityId : String) :
    Except WorkspaceRegistryError (WorkspaceRegistry P) :=
  match registry.contexts.lookup capabilityId with
  | none => .error .capabilityNotFound
  | some context =>
    if context.phase = .ready then .error .workspaceNotReady
    else .ok { registry with contexts := registry.contexts.erase capabilityId }

def readyContext (registry : WorkspaceRegistry P) (capabilityId : String) :
    Except WorkspaceRegistryError (WorkspaceSecurityContext P) :=
  match registry.contexts.lookup capabilityId with
  | none => .error .capabilityNotFound
  | some context => if context.phase ≠ .ready then .error .workspaceNotReady else .ok context

def requireReady (registry : WorkspaceRegistry P) (capabilityId : String) :
    Except WorkspaceRegistryError Unit :=
  (readyContext registry capabilityId).map fun _ => ()

def cloneReadyPolicy (registry : WorkspaceRegistry P) (capabilityId : String) :
    Except WorkspaceRegistryError P :=
  (readyContext registry capabilityId).map fun context => context.effectivePolicy

end KodeGpt.WorkspaceContexts
