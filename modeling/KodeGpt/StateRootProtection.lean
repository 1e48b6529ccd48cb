import KodeGpt.RpcResponses
import KodeGpt.WorkspaceRegistryRuns

/-!
Which registered roots may overlap the protected state root. Skill sources are
compared with it when they are registered; workspaces only when a client asks
for an inspection first, and then only by their visible path.
-/

namespace KodeGpt.StateRootProtection

open HostRoots KeyedFamily PolicyRestriction RpcResponses SkillSources TransitionSystem
open WorkspaceContexts WorkspaceRegistryRuns
open FallibleActions (map_eq_ok_iff)

/-- What is fixed while the runtime serves requests. -/
structure Environment where
  host : Host
  stateRoot : HostPath
  filesystemBoundaryAvailable : Bool

structure RuntimeRoots where
  workspaces : Registry
  skillSources : SkillSourceRegistry

def RuntimeRoots.initial (processId : Nat) : RuntimeRoots where
  workspaces := WorkspaceContexts.initial RuntimePolicy processId
  skillSources := SkillSourceRegistry.initial processId

/-- Whether the decision and the outcome record of a request can be appended. -/
structure AuditAnswers where
  decision : Bool
  outcome : Bool

inductive RootMethod
  | systemInspectRoot (path : HostPath)
  | workspaceRegister (rootPath : HostPath) (expectedIdentity : FilesystemIdentity)
      (ceiling : RuntimePolicy)
  | workspaceRestrictPolicy (capabilityId : String) (restriction : RuntimePolicy)
  | workspaceActivate (capabilityId : String)
  | workspaceBeginClose (capabilityId : String)
  | workspaceCancelExecutions (capabilityId : String)
  | workspaceUnregister (capabilityId : String)
  | skillSourceInspectRoot (path : HostPath)
  | skillSourceRegister (rootPath : HostPath) (expectedIdentity : FilesystemIdentity)
  | skillSourceUnregister (capabilityId : String)

structure RootRequest where
  audit : AuditAnswers
  method : RootMethod

inductive Reply
  | ok
  | inspected (root : InspectedRoot)
  | capability (capabilityId : String)

/-- The frame around every audited operation: nothing happens unless the
decision was recorded, and no result is reported unless the outcome was. -/
def audited {S : Type} (audit : AuditAnswers) (state : S)
    (operation : Except RpcError (Reply × S)) : Except RpcError Reply × S :=
  if !audit.decision then (.error auditUnavailable, state)
  else
    match operation with
    | .ok (reply, after) => (if audit.outcome then .ok reply else .error auditUnavailable, after)
    | .error error =>
      (if audit.outcome then .error error else .error auditUnavailable, state)

def systemInspectRoot (env : Environment) (path : HostPath) : Except RpcError InspectedRoot :=
  match inspectRoot env.host path with
  | .error _ => .error (-32020, "WORKSPACE_ROOT_INVALID")
  | .ok inspected =>
    match env.host.canonicalize env.stateRoot with
    | none => .error auditUnavailable
    | some canonicalStateRoot =>
      if startsWith inspected.canonicalRoot canonicalStateRoot
          || startsWith canonicalStateRoot inspected.canonicalRoot then
        .error (-32021, "WORKSPACE_STATE_OVERLAP")
      else .ok inspected

def workspaceRegister (env : Environment) (workspaces : Registry) (rootPath : HostPath)
    (expectedIdentity : FilesystemIdentity) (ceiling : RuntimePolicy) :
    Except WorkspaceRegistryError (String × Registry) :=
  if !env.filesystemBoundaryAvailable then .error .filesystemBoundaryUnavailable
  else register workspaces env.host rootPath expectedIdentity ceiling

def skillSourceInspectRoot (env : Environment) (path : HostPath) :
    Except SkillSourceRegistryError InspectedRoot :=
  if !env.filesystemBoundaryAvailable then .error .filesystemBoundaryUnavailable
  else inspectSkillSourceRoot env.host path env.stateRoot

def skillSourceRegister (env : Environment) (sources : SkillSourceRegistry) (rootPath : HostPath)
    (expectedIdentity : FilesystemIdentity) :
    Except SkillSourceRegistryError (String × SkillSourceRegistry) :=
  if !env.filesystemBoundaryAvailable then .error .filesystemBoundaryUnavailable
  else
    match inspectSkillSourceRoot env.host rootPath env.stateRoot with
    | .error error => .error error
    | .ok _ => sources.register env.host rootPath expectedIdentity

def onWorkspaces (roots : RuntimeRoots)
    (result : Except WorkspaceRegistryError (Reply × Registry)) :
    Except RpcError (Reply × RuntimeRoots) :=
  match result with
  | .ok (reply, workspaces) => .ok (reply, { roots with workspaces })
  | .error error => .error (workspaceRegistryErrorContract error)

def onSkillSources (roots : RuntimeRoots)
    (result : Except SkillSourceRegistryError (Reply × SkillSourceRegistry)) :
    Except RpcError (Reply × RuntimeRoots) :=
  match result with
  | .ok (reply, skillSources) => .ok (reply, { roots with skillSources })
  | .error error => .error (skillSourceRegistryErrorContract error)

def operate (env : Environment) (roots : RuntimeRoots) :
    RootMethod → Except RpcError (Reply × RuntimeRoots)
  | .systemInspectRoot path =>
    (systemInspectRoot env path).map fun inspected => (.inspected inspected, roots)
  | .workspaceRegister rootPath expectedIdentity ceiling =>
    onWorkspaces roots <|
      (workspaceRegister env roots.workspaces rootPath expectedIdentity ceiling).map
        fun result => (.capability result.1, result.2)
  | .workspaceRestrictPolicy capabilityId restriction =>
    onWorkspaces roots <|
      (restrictPolicyWith roots.workspaces capabilityId restriction restrictPolicy).map
        fun after => (.ok, after)
  | .workspaceActivate capabilityId =>
    onWorkspaces roots <| (activate roots.workspaces capabilityId).map fun after => (.ok, after)
  | .workspaceBeginClose capabilityId =>
    onWorkspaces roots <|
      (beginClose roots.workspaces capabilityId).map fun after => (.ok, after)
  | .workspaceCancelExecutions capabilityId =>
    onWorkspaces roots <|
      (cancelExecutions roots.workspaces capabilityId).map fun after => (.ok, after)
  | .workspaceUnregister capabilityId =>
    onWorkspaces roots <|
      (unregister roots.workspaces capabilityId).map fun after => (.ok, after)
  | .skillSourceInspectRoot path =>
    match skillSourceInspectRoot env path with
    | .ok inspected => .ok (.inspected inspected, roots)
    | .error error => .error (skillSourceRegistryErrorContract error)
  | .skillSourceRegister rootPath expectedIdentity =>
    onSkillSources roots <|
      (skillSourceRegister env roots.skillSources rootPath expectedIdentity).map
        fun result => (.capability result.1, result.2)
  | .skillSourceUnregister capabilityId =>
    onSkillSources roots <|
      (roots.skillSources.unregister capabilityId).map fun after => (.ok, after)

def serve (env : Environment) (roots : RuntimeRoots) (request : RootRequest) :
    Except RpcError Reply × RuntimeRoots :=
  audited request.audit roots (operate env roots request.method)

def serveAll (env : Environment) (roots : RuntimeRoots) (requests : List RootRequest) :
    RuntimeRoots :=
  requests.foldl (fun roots request => (serve env roots request).2) roots

/-- A step that issues no id brings no root into the registry. -/
theorem root_of_unissued_step {registry after : Registry}
    (hstep : RegistryStep registry none after) {key : String} {context : Context}
    (hlookup : after.contexts.lookup key = some context) :
    ∃ before, registry.contexts.lookup key = some before ∧ context.root = before.root := by
  cases hstep with
  | change capabilityId found changed hfound hchange =>
    rcases lookup_insert_eq_some hlookup with ⟨rfl, rfl⟩ | ⟨-, hold⟩
    · exact ⟨found, hfound, hchange.evolves.root⟩
    · exact ⟨context, hold, rfl⟩
  | remove capabilityId => exact ⟨context, (lookup_erase_eq_some hlookup).2, rfl⟩
  | keep => exact ⟨context, hlookup, rfl⟩

theorem root_of_register {registry after : Registry} {host : Host} {rootPath : HostPath}
    {expectedIdentity : FilesystemIdentity} {ceiling : RuntimePolicy} {issued : String}
    (h : register registry host rootPath expectedIdentity ceiling = .ok (issued, after))
    {key : String} {context : Context} (hlookup : after.contexts.lookup key = some context) :
    registry.contexts.lookup key = some context ∨
      (admitRoot host rootPath expectedIdentity = .ok context.root ∧
        anyValue (fun existing => rootsOverlap existing.root context.root) registry.contexts
          = false) := by
  unfold register at h
  split at h
  · cases h
  · rename_i root hroot
    split at h
    · cases h
    · rename_i hapart
      obtain ⟨rfl, rfl⟩ := Prod.mk.inj (Except.ok.inj h)
      rcases lookup_insert_eq_some hlookup with ⟨-, rfl⟩ | ⟨-, hold⟩
      · exact .inr ⟨hroot, Bool.not_eq_true _ ▸ hapart⟩
      · exact .inl hold

theorem onWorkspaces_eq_ok {roots after : RuntimeRoots} {reply : Reply}
    {result : Except WorkspaceRegistryError (Reply × Registry)}
    (h : onWorkspaces roots result = .ok (reply, after)) :
    ∃ workspaces, result = .ok (reply, workspaces) ∧ after = { roots with workspaces } := by
  unfold onWorkspaces at h
  split at h
  · rename_i reply' workspaces
    obtain ⟨rfl, rfl⟩ := Prod.mk.inj (Except.ok.inj h)
    exact ⟨workspaces, rfl, rfl⟩
  · cases h

theorem onSkillSources_eq_ok {roots after : RuntimeRoots} {reply : Reply}
    {result : Except SkillSourceRegistryError (Reply × SkillSourceRegistry)}
    (h : onSkillSources roots result = .ok (reply, after)) :
    ∃ skillSources, result = .ok (reply, skillSources) ∧ after = { roots with skillSources } := by
  unfold onSkillSources at h
  split at h
  · rename_i reply' skillSources
    obtain ⟨rfl, rfl⟩ := Prod.mk.inj (Except.ok.inj h)
    exact ⟨skillSources, rfl, rfl⟩
  · cases h

/-- Everything a successful method can do to the two registries. A method that
is not a registration brings in no root. -/
inductive RootStep (env : Environment) (roots : RuntimeRoots) : RootMethod → RuntimeRoots → Prop
  | keep (method : RootMethod) : RootStep env roots method roots
  | workspaceRegister (rootPath : HostPath) (expectedIdentity : FilesystemIdentity)
      (ceiling : RuntimePolicy) (issued : String) (workspaces : Registry)
      (hboundary : env.filesystemBoundaryAvailable = true)
      (hregister : register roots.workspaces env.host rootPath expectedIdentity ceiling =
        .ok (issued, workspaces)) :
      RootStep env roots (.workspaceRegister rootPath expectedIdentity ceiling)
        { roots with workspaces }
  | workspace (method : RootMethod) (workspaces : Registry)
      (hstep : RegistryStep roots.workspaces none workspaces) :
      RootStep env roots method { roots with workspaces }
  | skillSourceRegister (rootPath : HostPath) (expectedIdentity : FilesystemIdentity)
      (issued : String) (inspected : InspectedRoot) (skillSources : SkillSourceRegistry)
      (hinspect : inspectSkillSourceRoot env.host rootPath env.stateRoot = .ok inspected)
      (hregister : roots.skillSources.register env.host rootPath expectedIdentity =
        .ok (issued, skillSources)) :
      RootStep env roots (.skillSourceRegister rootPath expectedIdentity)
        { roots with skillSources }
  | skillSourceUnregister (capabilityId : String) (skillSources : SkillSourceRegistry)
      (hunregister : roots.skillSources.unregister capabilityId = .ok skillSources) :
      RootStep env roots (.skillSourceUnregister capabilityId) { roots with skillSources }

theorem operate_step {env : Environment} {roots after : RuntimeRoots} {method : RootMethod}
    {reply : Reply} (h : operate env roots method = .ok (reply, after)) :
    RootStep env roots method after := by
  have hunissued : ∀ {result : Except WorkspaceRegistryError Registry},
      (∀ workspaces, result = .ok workspaces → RegistryStep roots.workspaces none workspaces) →
      onWorkspaces roots (result.map fun after => (Reply.ok, after)) = .ok (reply, after) →
      RootStep env roots method after := by
    intro result hstep hresult
    obtain ⟨workspaces, hmap, rfl⟩ := onWorkspaces_eq_ok hresult
    obtain ⟨workspaces', hok, heq⟩ := map_eq_ok_iff.mp hmap
    obtain ⟨-, rfl⟩ := Prod.mk.inj heq
    exact .workspace method workspaces' (hstep _ hok)
  cases method with
  | systemInspectRoot path =>
    obtain ⟨inspected, -, heq⟩ := map_eq_ok_iff.mp h
    obtain ⟨-, rfl⟩ := Prod.mk.inj heq
    exact .keep _
  | workspaceRegister rootPath expectedIdentity ceiling =>
    obtain ⟨workspaces, hmap, rfl⟩ := onWorkspaces_eq_ok h
    obtain ⟨⟨issued, workspaces'⟩, hok, heq⟩ := map_eq_ok_iff.mp hmap
    obtain ⟨-, rfl⟩ := Prod.mk.inj heq
    unfold workspaceRegister at hok
    split at hok
    · cases hok
    · rename_i hboundary
      exact .workspaceRegister rootPath expectedIdentity ceiling issued workspaces'
        (by simpa using hboundary) hok
  | workspaceRestrictPolicy capabilityId restriction =>
    exact hunissued (fun _ => restrictPolicyWith_step) h
  | workspaceActivate capabilityId => exact hunissued (fun _ => activate_step) h
  | workspaceBeginClose capabilityId => exact hunissued (fun _ => beginClose_step) h
  | workspaceCancelExecutions capabilityId => exact hunissued (fun _ => cancelExecutions_step) h
  | workspaceUnregister capabilityId => exact hunissued (fun _ => unregister_step) h
  | skillSourceInspectRoot path =>
    simp only [operate] at h
    split at h
    · obtain ⟨-, rfl⟩ := Prod.mk.inj (Except.ok.inj h)
      exact .keep _
    · cases h
  | skillSourceRegister rootPath expectedIdentity =>
    obtain ⟨skillSources, hmap, rfl⟩ := onSkillSources_eq_ok h
    obtain ⟨⟨issued, skillSources'⟩, hok, heq⟩ := map_eq_ok_iff.mp hmap
    obtain ⟨-, rfl⟩ := Prod.mk.inj heq
    unfold skillSourceRegister at hok
    split at hok
    · cases hok
    · split at hok
      · cases hok
      · rename_i inspected hinspect
        exact .skillSourceRegister rootPath expectedIdentity issued inspected skillSources'
          hinspect hok
  | skillSourceUnregister capabilityId =>
    obtain ⟨skillSources, hmap, rfl⟩ := onSkillSources_eq_ok h
    obtain ⟨skillSources', hok, heq⟩ := map_eq_ok_iff.mp hmap
    obtain ⟨-, rfl⟩ := Prod.mk.inj heq
    exact .skillSourceUnregister capabilityId skillSources' hok

/-- A served request without its decision record does nothing; any other does
what its method does, if that succeeds. -/
theorem serve_step (env : Environment) (roots : RuntimeRoots) (request : RootRequest) :
    (serve env roots request).2 = roots ∨
      (request.audit.decision = true ∧
        RootStep env roots request.method (serve env roots request).2) := by
  unfold serve audited
  split
  · exact .inl rfl
  · rename_i hdecision
    split
    · rename_i reply after hoperate
      exact .inr ⟨by simpa using hdecision, operate_step hoperate⟩
    · exact .inl rfl

/-- No registered root of either kind overlaps the protected state root. -/
def StateProtected (env : Environment) (roots : RuntimeRoots) : Prop :=
  ∀ guarded, protectedIdentity env.host env.stateRoot = some guarded →
    AllValues (fun context => rootsOverlap guarded context.root = false)
      roots.workspaces.contexts ∧
    AllValues (fun context => rootsOverlap guarded context.root = false)
      roots.skillSources.contexts

/-- The request does not bring in a workspace root on which the inspection of
skill sources would report an overlap with the state root. -/
def AvoidsState (env : Environment) (roots : RuntimeRoots) (request : RootRequest) : Prop :=
  match request.method with
  | .workspaceRegister rootPath expectedIdentity _ =>
    request.audit.decision = true → env.filesystemBoundaryAvailable = true →
    ∀ root, admitRoot env.host rootPath expectedIdentity = .ok root →
      anyValue (fun existing => rootsOverlap existing.root root) roots.workspaces.contexts
        = false →
      inspectSkillSourceRoot env.host rootPath env.stateRoot ≠ .error .stateOverlap
  | _ => True

theorem initial_protected (env : Environment) (processId : Nat) :
    StateProtected env (RuntimeRoots.initial processId) :=
  fun _ _ => ⟨AllValues.empty, AllValues.empty⟩

theorem protected_step {env : Environment} {roots : RuntimeRoots} {request : RootRequest}
    (hprotected : StateProtected env roots) (havoids : AvoidsState env roots request) :
    StateProtected env (serve env roots request).2 := by
  intro guarded hguarded
  obtain ⟨hworkspaces, hsources⟩ := hprotected guarded hguarded
  rcases serve_step env roots request with hkeep | ⟨hdecision, hstep⟩
  · rw [hkeep]
    exact ⟨hworkspaces, hsources⟩
  · generalize (serve env roots request).2 = after at hstep
    obtain ⟨audit, method⟩ := request
    cases hstep with
    | keep method => exact ⟨hworkspaces, hsources⟩
    | workspaceRegister rootPath expectedIdentity ceiling issued workspaces hboundary hregister =>
      refine ⟨?_, hsources⟩
      intro key context hlookup
      rcases root_of_register hregister hlookup with hold | ⟨hadmits, hapart⟩
      · exact hworkspaces hold
      · have hinspect := havoids hdecision hboundary context.root hadmits hapart
        rw [← Bool.not_eq_true]
        intro hoverlap
        exact hinspect
          ((inspectSkillSourceRoot_eq_stateOverlap_iff hadmits hguarded).mpr hoverlap)
    | workspace method workspaces hregistry =>
      refine ⟨?_, hsources⟩
      intro key context hlookup
      obtain ⟨before, hbefore, hroot⟩ := root_of_unissued_step hregistry hlookup
      rw [hroot]
      exact hworkspaces hbefore
    | skillSourceRegister rootPath expectedIdentity issued inspected skillSources hinspect
        hregister =>
        refine ⟨hworkspaces, ?_⟩
        intro key context hlookup
        rcases root_of_registerSource hregister hlookup with hold | hadmits
        · exact hsources hold
        · exact rootsOverlap_of_inspect_ok hadmits hguarded hinspect
    | skillSourceUnregister capabilityId skillSources hunregister =>
      refine ⟨hworkspaces, ?_⟩
      intro key context hlookup
      exact hsources (lookup_of_unregisterSource hunregister hlookup)

/-- A registration that does not avoid the state root goes through. -/
theorem exposed_step {env : Environment} {roots : RuntimeRoots} {request : RootRequest}
    (hexposes : ¬ AvoidsState env roots request) :
    ¬ StateProtected env (serve env roots request).2 := by
  obtain ⟨audit, method⟩ := request
  cases method with
  | workspaceRegister rootPath expectedIdentity ceiling =>
    simp only [AvoidsState, Classical.not_imp, not_forall, not_not] at hexposes
    obtain ⟨hdecision, hboundary, root, hadmits, hapart, hinspect⟩ := hexposes
    obtain ⟨guarded, hguarded⟩ := protectedIdentity_of_stateOverlap hinspect
    have hoverlap := (inspectSkillSourceRoot_eq_stateOverlap_iff hadmits hguarded).mp hinspect
    have hserved : (serve env roots ⟨audit, .workspaceRegister rootPath expectedIdentity
        ceiling⟩).2.workspaces.contexts =
        roots.workspaces.contexts.insert (nextCapabilityId roots.workspaces).1
          { capabilityId := (nextCapabilityId roots.workspaces).1, root, ceiling,
            effectivePolicy := ceiling, phase := .opening } := by
      simp only [serve, audited, operate, workspaceRegister, register, hdecision, hboundary,
        hadmits, hapart]
      rfl
    intro hprotected
    have hcontext := (hprotected guarded hguarded).1
    rw [hserved] at hcontext
    have hroot : rootsOverlap guarded root = false := hcontext (AList.lookup_insert _)
    rw [hoverlap] at hroot
    cases hroot
  | _ => exact absurd trivial hexposes

/-- The state root is kept apart from every registered root throughout a run
exactly when every workspace registration of the run would have passed the
check that skill source registration makes. -/
theorem stateProtected_iff_avoidsState (env : Environment) (processId : Nat)
    (requests : List RootRequest) :
    (∀ front back, requests = front ++ back →
      StateProtected env (serveAll env (RuntimeRoots.initial processId) front)) ↔
    (∀ front request back, requests = front ++ request :: back →
      AvoidsState env (serveAll env (RuntimeRoots.initial processId) front) request) := by
  constructor
  · intro hprotected front request back hsplit
    by_contra hexposes
    refine exposed_step hexposes ?_
    have hafter := hprotected (front ++ [request]) back (by rw [hsplit]; simp)
    simpa [serveAll] using hafter
  · intro havoids front back hsplit
    refine foldl_invariant_of (fun _ _ => protected_step) (initial_protected env processId) ?_
    intro earlier request later hearlier
    exact havoids earlier request (later ++ back) (by rw [hsplit, hearlier]; simp)

def statePath : HostPath := [.rootDir, .normal "state"]

def aliasPath : HostPath := [.rootDir, .normal "alias"]

def aliasHost : Host where
  canonicalize := some
  metadata := fun path =>
    if path = statePath ∨ path = aliasPath then some ⟨true, 8, 1, 12⟩ else none
  openDirectory := fun path =>
    if path = statePath ∨ path = aliasPath then some ⟨true, 8, 1, 12⟩ else none
  mountinfo := .ok [⟨8, 1, [.rootDir], [.rootDir]⟩, ⟨8, 1, statePath, aliasPath⟩]

def aliasEnvironment : Environment where
  host := aliasHost
  stateRoot := statePath
  filesystemBoundaryAvailable := true

def aliasInspection : RootRequest where
  audit := ⟨true, true⟩
  method := .systemInspectRoot aliasPath

def aliasRegistration : RootRequest where
  audit := ⟨true, true⟩
  method := .workspaceRegister aliasPath ⟨8, 1, "12"⟩ observePolicy

/-- A bind mount of the state root passes the inspection, which compares only
visible paths, and is registered as a workspace. -/
theorem alias_exposes_state :
    (serve aliasEnvironment (RuntimeRoots.initial 1) aliasInspection).1 =
      .ok (.inspected ⟨aliasPath, ⟨8, 1, "12"⟩⟩) ∧
    ¬ StateProtected aliasEnvironment
      (serveAll aliasEnvironment (RuntimeRoots.initial 1) [aliasInspection, aliasRegistration]) := by
  refine ⟨rfl, ?_⟩
  have hexposes : ¬ AvoidsState aliasEnvironment
      (serveAll aliasEnvironment (RuntimeRoots.initial 1) [aliasInspection]) aliasRegistration := by
    intro havoids
    exact havoids rfl rfl ⟨aliasPath, ⟨8, 1, statePath⟩, ⟨8, 1, "12"⟩⟩ rfl rfl rfl
  exact exposed_step hexposes

end KodeGpt.StateRootProtection
