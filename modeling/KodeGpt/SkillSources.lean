import KodeGpt.WorkspaceContexts

/-!
The registry of skill sources, which are read-only roots, and the inspection
that keeps them away from the protected state root.
-/

namespace KodeGpt.SkillSources

open HostRoots KeyedFamily WorkspaceContexts

inductive SkillSourceRegistryError
  | rootInvalid
  | identityChanged
  | mountTopologyUnavailable
  | rootOverlap
  | stateOverlap
  | filesystemBoundaryUnavailable
  | accessDenied
  | notFound
  | invalidUtf8
  | limitExceeded
  | readFailed
  | capabilityNotFound
  deriving DecidableEq, Repr

structure SkillSourceContext where
  root : RootIdentity
  deriving DecidableEq, Repr

structure SkillSourceRegistry where
  processId : Nat
  nextSequence : Nat
  contexts : Family String SkillSourceContext

def SkillSourceRegistry.initial (processId : Nat) : SkillSourceRegistry where
  processId
  nextSequence := 1
  contexts := ∅

def sourceCapabilityIdOf (processId sequence : Nat) : String :=
  "sc_" ++ toString processId ++ "_" ++ toString sequence

def inspectSkillSourceRootWithMountinfo (host : Host) (rootPath protectedRoot : HostPath)
    (mountinfo : List MountInfoEntry) : Except SkillSourceRegistryError InspectedRoot :=
  match inspectRoot host rootPath with
  | .error _ => .error .rootInvalid
  | .ok inspected =>
    match inspectRoot host protectedRoot with
    | .error _ => .error .mountTopologyUnavailable
    | .ok guarded =>
      match backingTreeForPath mountinfo inspected.canonicalRoot with
      | .error _ => .error .mountTopologyUnavailable
      | .ok backing =>
        match backingTreeForPath mountinfo guarded.canonicalRoot with
        | .error _ => .error .mountTopologyUnavailable
        | .ok protectedBacking =>
          if rootsOverlap ⟨guarded.canonicalRoot, protectedBacking, guarded.identity⟩
              ⟨inspected.canonicalRoot, backing, inspected.identity⟩ then
            .error .stateOverlap
          else .ok inspected

def inspectSkillSourceRoot (host : Host) (rootPath protectedRoot : HostPath) :
    Except SkillSourceRegistryError InspectedRoot :=
  match host.mountinfo with
  | .error _ => .error .mountTopologyUnavailable
  | .ok mountinfo => inspectSkillSourceRootWithMountinfo host rootPath protectedRoot mountinfo

def toSkillSource : RootAdmissionError → SkillSourceRegistryError
  | .rootInvalid => .rootInvalid
  | .identityChanged => .identityChanged
  | .mountTopologyUnavailable => .mountTopologyUnavailable

def SkillSourceRegistry.register (registry : SkillSourceRegistry) (host : Host) (rootPath : HostPath)
    (expectedIdentity : FilesystemIdentity) :
    Except SkillSourceRegistryError (String × SkillSourceRegistry) :=
  match admitRoot host rootPath expectedIdentity with
  | .error error => .error (toSkillSource error)
  | .ok root =>
    if anyValue (fun existing => rootsOverlap existing.root root) registry.contexts then
      .error .rootOverlap
    else
      let capabilityId := sourceCapabilityIdOf registry.processId registry.nextSequence
      .ok (capabilityId,
        { registry with
          nextSequence := (registry.nextSequence + 1) % 2 ^ 64
          contexts := registry.contexts.insert capabilityId { root } })

def SkillSourceRegistry.unregister (registry : SkillSourceRegistry) (capabilityId : String) :
    Except SkillSourceRegistryError SkillSourceRegistry :=
  match registry.contexts.lookup capabilityId with
  | none => .error .capabilityNotFound
  | some _ => .ok { registry with contexts := registry.contexts.erase capabilityId }

def protectedIdentity (host : Host) (protectedRoot : HostPath) : Option RootIdentity :=
  match inspectRoot host protectedRoot, host.mountinfo with
  | .ok guarded, .ok mountinfo =>
    match backingTreeForPath mountinfo guarded.canonicalRoot with
    | .ok backing => some ⟨guarded.canonicalRoot, backing, guarded.identity⟩
    | .error _ => none
  | _, _ => none

/-- For a root which a registry would admit, the inspection rejects exactly the
overlap with the protected root. -/
theorem inspectSkillSourceRoot_eq_stateOverlap_iff {host : Host} {rootPath protectedRoot : HostPath}
    {expectedIdentity : FilesystemIdentity} {root guarded : RootIdentity}
    (hroot : admitRoot host rootPath expectedIdentity = .ok root)
    (hguarded : protectedIdentity host protectedRoot = some guarded) :
    inspectSkillSourceRoot host rootPath protectedRoot = .error .stateOverlap ↔
      rootsOverlap guarded root = true := by
  obtain ⟨hinspect, -, mountinfo, hmounts, hbacking⟩ := admitRoot_ok hroot
  unfold protectedIdentity at hguarded
  split at hguarded
  · rename_i inspected mountinfo' hinspected hmounts'
    rw [hmounts] at hmounts'
    obtain rfl := Except.ok.inj hmounts'
    split at hguarded
    · rename_i backing hprotected
      obtain rfl := Option.some.inj hguarded
      simp only [inspectSkillSourceRoot, inspectSkillSourceRootWithMountinfo, hmounts, hinspect,
        hinspected, hbacking, hprotected]
      split <;> simp_all
    · cases hguarded
  · cases hguarded

theorem protectedIdentity_of_stateOverlap {host : Host} {rootPath protectedRoot : HostPath}
    (h : inspectSkillSourceRoot host rootPath protectedRoot = .error .stateOverlap) :
    ∃ guarded, protectedIdentity host protectedRoot = some guarded := by
  unfold inspectSkillSourceRoot at h
  split at h
  · cases h
  · rename_i mountinfo hmounts
    unfold inspectSkillSourceRootWithMountinfo at h
    split at h
    · cases h
    · split at h
      · cases h
      · rename_i guarded hguarded
        split at h
        · cases h
        · split at h
          · cases h
          · rename_i backing hbacking
            refine ⟨⟨guarded.canonicalRoot, backing, guarded.identity⟩, ?_⟩
            simp only [protectedIdentity, hguarded, hmounts, hbacking]

theorem rootsOverlap_of_inspect_ok {host : Host} {rootPath protectedRoot : HostPath}
    {expectedIdentity : FilesystemIdentity} {root guarded : RootIdentity} {inspected : InspectedRoot}
    (hroot : admitRoot host rootPath expectedIdentity = .ok root)
    (hguarded : protectedIdentity host protectedRoot = some guarded)
    (hinspect : inspectSkillSourceRoot host rootPath protectedRoot = .ok inspected) :
    rootsOverlap guarded root = false := by
  have hiff := inspectSkillSourceRoot_eq_stateOverlap_iff hroot hguarded
  rw [hinspect] at hiff
  simpa using hiff

theorem root_of_registerSource {registry after : SkillSourceRegistry} {host : Host}
    {rootPath : HostPath} {expectedIdentity : FilesystemIdentity} {issued : String}
    (h : registry.register host rootPath expectedIdentity = .ok (issued, after))
    {key : String} {context : SkillSourceContext}
    (hlookup : after.contexts.lookup key = some context) :
    registry.contexts.lookup key = some context ∨
      admitRoot host rootPath expectedIdentity = .ok context.root := by
  unfold SkillSourceRegistry.register at h
  split at h
  · cases h
  · rename_i root hroot
    split at h
    · cases h
    · obtain ⟨rfl, rfl⟩ := Prod.mk.inj (Except.ok.inj h)
      rcases lookup_insert_eq_some hlookup with ⟨-, rfl⟩ | ⟨-, hold⟩
      · exact .inr hroot
      · exact .inl hold

theorem lookup_of_unregisterSource {registry after : SkillSourceRegistry} {capabilityId : String}
    (h : registry.unregister capabilityId = .ok after) {key : String} {context : SkillSourceContext}
    (hlookup : after.contexts.lookup key = some context) :
    registry.contexts.lookup key = some context := by
  unfold SkillSourceRegistry.unregister at h
  split at h
  · cases h
  · obtain rfl := Except.ok.inj h
    exact (lookup_erase_eq_some hlookup).2

end KodeGpt.SkillSources
