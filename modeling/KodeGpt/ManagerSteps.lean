import KodeGpt.UntrustedWorkspaces

/-!
How a step of the workspace manager changes the map of its workspaces: what takes a workspace
out of it, and that a call which is asked to close a workspace closes that one or fails.
-/

namespace KodeGpt.ManagerSteps

open ManagerCalls WorkspaceManager
open WorkspaceUntrusting (System)

variable {P : Type}

def takesOut (s : System P) : WorkspaceUntrusting.Event P → Option WorkspaceId
  | .answer call answer =>
    match s.manager.calls call, answer with
    | .opening id _, _ => some id
    | .closing id _ .unregister, .acknowledged => some id
    | _, _ => none
  | .trusted call =>
    match s.manager.calls call with
    | .opening id _ => some id
    | _ => none
  | _ => none

/-- A call that has been asked to close the workspace. -/
def Follows {R I : Type} (workspaceId : WorkspaceId) : CallPhase R I P → Prop
  | .closing id _ _ | .closed id => id = workspaceId
  | .rejected _ => True
  | _ => False

section Manager

variable {R I : Type} {m later : Manager R I P} {call inner : CallId} {id workspaceId : WorkspaceId}
  {answer : Answer R I P}

theorem held_of_progress (h : Progress m call answer later)
    (hheld : (m.workspaces workspaceId).isSome = true) :
    (later.workspaces workspaceId).isSome = true ∨
      (∃ step, m.calls call = .opening workspaceId step) ∨
      ∃ capabilityId, m.calls call = .closing workspaceId capabilityId .unregister ∧
        answer = .acknowledged := by
  have hchange : ∀ (id : WorkspaceId) f, ((m.change id f).workspaces workspaceId).isSome = true := by
    intro id f
    rw [Manager.change_workspaces]
    split
    · rename_i heq
      rw [Option.isSome_map, ← heq]
      exact hheld
    · exact hheld
  cases h with
  | openOn id step next f hcall hopens => exact .inl (hchange id f)
  | opened id capabilityId policy hcall hanswer => exact .inl (hchange id _)
  | openStopped id step capabilityId hcall hcapability =>
    by_cases heq : workspaceId = id
    · exact .inr (.inl ⟨step, heq ▸ hcall⟩)
    · exact .inl (by simpa [heq] using hheld)
  | openFailed id step hcall hcapability =>
    by_cases heq : workspaceId = id
    · exact .inr (.inl ⟨step, heq ▸ hcall⟩)
    · exact .inl (by simpa [heq] using hheld)
  | unregistered capabilityId hcall hanswer => exact .inl hheld
  | abandoned capabilityId hcall => exact .inl hheld
  | closeOn id capabilityId step next hcall hanswer hlater => exact .inl hheld
  | closed id capabilityId hcall hanswer =>
    by_cases heq : workspaceId = id
    · exact .inr (.inr ⟨capabilityId, heq ▸ hcall, hanswer⟩)
    · exact .inl (by simpa [heq] using hheld)
  | closeFailed id capabilityId step hcall hanswer => exact .inl (hchange id _)

theorem follows_of_progress (h : Progress m call answer later)
    (hfollows : Follows workspaceId (m.calls inner)) :
    Follows workspaceId (later.calls inner) := by
  by_cases heq : inner = call
  · subst heq
    cases h with
    | closeOn id capabilityId step next hcall hanswer hlater =>
      rw [hcall] at hfollows
      simpa [Follows] using hfollows
    | closed id capabilityId hcall hanswer =>
      rw [hcall] at hfollows
      simpa [Follows] using hfollows
    | closeFailed id capabilityId step hcall hanswer => simp [Follows]
    | openOn id step next f hcall hopens => simp [hcall, Follows] at hfollows
    | opened id capabilityId policy hcall hanswer => simp [hcall, Follows] at hfollows
    | openStopped id step capabilityId hcall hcapability => simp [hcall, Follows] at hfollows
    | openFailed id step hcall hcapability => simp [hcall, Follows] at hfollows
    | unregistered capabilityId hcall hanswer => simp [hcall, Follows] at hfollows
    | abandoned capabilityId hcall => simp [hcall, Follows] at hfollows
  · rw [h.calls heq]
    exact hfollows

theorem closed_of_progress (h : Progress m call answer later)
    (hclosed : m.calls inner = .closed workspaceId) : later.calls inner = .closed workspaceId := by
  have hother : inner ≠ call := by
    rintro rfl
    cases h <;> simp_all
  rw [h.calls hother]
  exact hclosed

theorem closed_of_acknowledged (h : Progress m call .acknowledged later) {capabilityId : CapabilityId}
    (hcall : m.calls call = .closing workspaceId capabilityId .unregister) :
    later.calls call = .closed workspaceId := by
  cases h with
  | closed id held hclosing hanswer =>
    obtain ⟨rfl, -, -⟩ := CallPhase.closing.inj (hcall.symm.trans hclosing)
    simp
  | closeOn id held step next hclosing hanswer hlater =>
    obtain ⟨-, -, rfl⟩ := CallPhase.closing.inj (hcall.symm.trans hclosing)
    cases hlater
  | closeFailed id held step hclosing hanswer => exact absurd rfl hanswer
  | _ => simp_all

theorem held_openWorkspace (call : CallId) (id : WorkspaceId) (rootPath : Option R)
    (hheld : (m.workspaces workspaceId).isSome = true) :
    ((m.openWorkspace call id rootPath).workspaces workspaceId).isSome = true := by
  unfold Manager.openWorkspace
  split
  · exact hheld
  · exact hheld
  · rw [Manager.setCall_workspaces, Manager.insert_workspaces]
    split
    · rfl
    · exact hheld

theorem calls_openWorkspace (id : WorkspaceId) (rootPath : Option R) (hother : inner ≠ call) :
    (m.openWorkspace call id rootPath).calls inner = m.calls inner := by
  unfold Manager.openWorkspace
  split <;> simp [hother]

theorem held_closeWorkspace (call : CallId) (id : WorkspaceId)
    (hheld : (m.workspaces workspaceId).isSome = true) :
    ((m.closeWorkspace call id).workspaces workspaceId).isSome = true := by
  unfold Manager.closeWorkspace
  split
  · exact hheld
  · split
    · exact hheld
    · split
      · exact hheld
      · rw [Manager.setCall_workspaces, Manager.change_workspaces]
        split
        · rename_i heq
          rw [Option.isSome_map, ← heq]
          exact hheld
        · exact hheld

theorem calls_closeWorkspace (id : WorkspaceId) (hother : inner ≠ call) :
    (m.closeWorkspace call id).calls inner = m.calls inner := by
  unfold Manager.closeWorkspace
  split
  · simp [hother]
  · split
    · simp [hother]
    · split <;> simp [hother]

theorem follows_closeWorkspace (m : Manager R I P) (call : CallId) (id : WorkspaceId) :
    Follows id ((m.closeWorkspace call id).calls call) := by
  unfold Manager.closeWorkspace
  split
  · simp [Follows]
  · split
    · simp [Follows]
    · split <;> simp [Follows]

end Manager

/-- How a step changes the calls and the workspaces of the manager. -/
inductive ManagerStep (s t : System P) (event : WorkspaceUntrusting.Event P) : Prop
  | same (hsame : t.manager = s.manager)
  | opens (call : CallId) (id : WorkspaceId) (rootPath : Option JsonText.Bytes)
      (hidle : s.manager.calls call = .idle)
      (hopens : t.manager = s.manager.openWorkspace call id rootPath)
  | closes (call : CallId) (id : WorkspaceId) (hidle : s.manager.calls call = .idle)
      (hcloses : t.manager = s.manager.closeWorkspace call id)
  | answers (call : CallId) (answer : Answer JsonText.Bytes TrustStore.PersistentFilesystemIdentity P)
      (hevent : event = .answer call answer ∨
        event = .trusted call ∧ ∃ id step, s.manager.calls call = .opening id step)
      (hprogress : Progress s.manager call answer t.manager)

section System

variable {settings : WorkspaceUntrusting.Settings P} {s t : System P}
  {event : WorkspaceUntrusting.Event P} {inner : CallId} {workspaceId : WorkspaceId}

theorem untrustNext_step {call closer : CallId} {id : TrustId}
    {listed : WorkspaceUntrusting.Entries} {bound : List WorkspaceId}
    (hnext : s.untrustNext call id listed closer bound = some t) : ManagerStep s t event := by
  cases bound with
  | nil =>
    obtain ⟨after, hstore, rfl⟩ := Option.map_eq_some_iff.mp hnext
    obtain ⟨run, -, rfl⟩ := Option.map_eq_some_iff.mp hstore
    exact .same rfl
  | cons workspace rest =>
    obtain ⟨hidle, heq⟩ := Option.ite_none_right_eq_some.mp hnext
    obtain rfl := Option.some.inj heq
    exact .closes closer workspace (UntrustedWorkspaces.isIdle_iff.mp hidle) rfl

theorem stepStore_manager {id : TrustId} {storeEvent : CheckpointStoreRuns.StoreEvent}
    (h : s.stepStore id storeEvent = some t) : t.manager = s.manager := by
  obtain ⟨run, -, rfl⟩ := Option.map_eq_some_iff.mp h
  rfl

theorem stepTrust_manager {trustEvent : TrustStoreRuns.TrustEvent}
    (h : s.stepTrust settings trustEvent = some t) : t.manager = s.manager := by
  obtain ⟨run, -, rfl⟩ := Option.map_eq_some_iff.mp h
  rfl

theorem manager_step (hnext : s.next settings event = some t) : ManagerStep s t event := by
  cases event with
  | openWorkspace call id rootPath =>
    obtain ⟨hidle, heq⟩ := Option.ite_none_right_eq_some.mp hnext
    obtain rfl := Option.some.inj heq
    exact .opens call id rootPath (UntrustedWorkspaces.isIdle_iff.mp hidle) rfl
  | closeWorkspace call id =>
    obtain ⟨hidle, heq⟩ := Option.ite_none_right_eq_some.mp hnext
    obtain rfl := Option.some.inj heq
    exact .closes call id (UntrustedWorkspaces.isIdle_iff.mp hidle) rfl
  | answer call answer =>
    obtain ⟨-, heq⟩ := Option.ite_none_left_eq_some.mp hnext
    obtain ⟨manager, hanswered, rfl⟩ := Option.map_eq_some_iff.mp heq
    exact .answers call answer (.inl rfl) (answered_progress hanswered)
  | trusted call =>
    rw [System.next] at hnext
    split at hnext
    · rename_i id root identity read hcall hread
      obtain ⟨manager, hanswered, rfl⟩ := Option.map_eq_some_iff.mp hnext
      exact .answers call _ (.inr ⟨rfl, id, _, hcall⟩) (answered_progress hanswered)
    · cases hnext
  | requireTrusted call fails =>
    obtain ⟨-, heq⟩ := Option.ite_none_right_eq_some.mp hnext
    obtain rfl := Option.some.inj heq
    exact .same rfl
  | trustWorkspace call input freshId now => exact .same (stepTrust_manager hnext)
  | trustRead call fails => exact .same (stepTrust_manager hnext)
  | trustWrite call fails =>
    obtain ⟨after, hafter, rfl⟩ := Option.map_eq_some_iff.mp hnext
    have hmanager := stepTrust_manager hafter
    exact .same hmanager
  | untrustAudited call acknowledged closer =>
    rw [System.next] at hnext
    split at hnext
    · split at hnext
      · exact untrustNext_step hnext
      · obtain rfl := Option.some.inj hnext
        exact .same rfl
    · cases hnext
  | untrustClosed call closer =>
    rw [System.next] at hnext
    split at hnext
    · split at hnext
      · exact untrustNext_step hnext
      · obtain rfl := Option.some.inj hnext
        exact .same rfl
      · cases hnext
    · cases hnext
  | untrustPurged call removal =>
    rw [System.next] at hnext
    split at hnext
    · split at hnext
      · obtain ⟨after, hafter, rfl⟩ := Option.map_eq_some_iff.mp hnext
        have hmanager := stepTrust_manager hafter
        exact .same hmanager
      · obtain rfl := Option.some.inj hnext
        exact .same rfl
      · cases hnext
    · cases hnext
  | untrustRemoved call =>
    rw [System.next] at hnext
    split at hnext
    · split at hnext
      · obtain rfl := Option.some.inj hnext
        exact .same rfl
      · obtain rfl := Option.some.inj hnext
        exact .same rfl
      · cases hnext
    · cases hnext
  | checkpointAudited call acknowledged inner =>
    rw [System.next] at hnext
    split at hnext
    · split at hnext
      · obtain ⟨after, hafter, rfl⟩ := Option.map_eq_some_iff.mp hnext
        have hmanager := stepStore_manager hafter
        exact .same hmanager
      · obtain rfl := Option.some.inj hnext
        exact .same rfl
    · cases hnext
  | checkpointStored call =>
    rw [System.next] at hnext
    split at hnext
    · split at hnext
      · obtain rfl := Option.some.inj hnext
        exact .same rfl
      · obtain rfl := Option.some.inj hnext
        exact .same rfl
      · cases hnext
    · cases hnext
  | untrustWorkspace call id =>
    rw [System.next] at hnext
    split at hnext
    · obtain rfl := Option.some.inj hnext
      exact .same rfl
    · cases hnext
  | listTrusted call fails =>
    rw [System.next] at hnext
    split at hnext
    · obtain rfl := Option.some.inj hnext
      exact .same rfl
    · cases hnext
  | untrustListed call =>
    rw [System.next] at hnext
    split at hnext
    · obtain rfl := Option.some.inj hnext
      exact .same rfl
    · dsimp only at hnext
      split at hnext
      · obtain rfl := Option.some.inj hnext
        exact .same rfl
      · obtain rfl := Option.some.inj hnext
        exact .same rfl
    · cases hnext
  | untrustReported call acknowledged =>
    rw [System.next] at hnext
    split at hnext
    · obtain rfl := Option.some.inj hnext
      exact .same rfl
    · obtain rfl := Option.some.inj hnext
      exact .same rfl
    · cases hnext
  | checkpointWorkspace call id mutation =>
    rw [System.next] at hnext
    split at hnext
    · obtain rfl := Option.some.inj hnext
      exact .same rfl
    · obtain rfl := Option.some.inj hnext
      exact .same rfl
    · cases hnext
  | checkpointReported call acknowledged =>
    rw [System.next] at hnext
    split at hnext
    · obtain rfl := Option.some.inj hnext
      exact .same rfl
    · obtain rfl := Option.some.inj hnext
      exact .same rfl
    · cases hnext
  | store id storeEvent =>
    cases storeEvent with
    | start call request next => cases hnext
    | _ => exact .same (stepStore_manager hnext)

theorem held_step (hnext : s.next settings event = some t)
    (hheld : (s.manager.workspaces workspaceId).isSome = true) :
    (t.manager.workspaces workspaceId).isSome = true ∨ takesOut s event = some workspaceId := by
  cases manager_step hnext with
  | same hsame => exact .inl (hsame ▸ hheld)
  | opens call id rootPath hidle hopens =>
    rw [hopens]
    exact .inl (held_openWorkspace call id rootPath hheld)
  | closes call id hidle hcloses =>
    rw [hcloses]
    exact .inl (held_closeWorkspace call id hheld)
  | answers call answer hevent hprogress =>
    rcases held_of_progress hprogress hheld with hkept | ⟨step, hcall⟩ | ⟨held, hcall, rfl⟩
    · exact .inl hkept
    · rcases hevent with rfl | ⟨rfl, -⟩
      · simp [takesOut, hcall]
      · simp [takesOut, hcall]
    · rcases hevent with rfl | ⟨rfl, id, step, hopening⟩
      · simp [takesOut, hcall]
      · rw [hcall] at hopening
        cases hopening

theorem follows_step (hnext : s.next settings event = some t)
    (hfollows : Follows workspaceId (s.manager.calls inner)) :
    Follows workspaceId (t.manager.calls inner) := by
  have hbusy : ∀ {call}, s.manager.calls call = .idle → inner ≠ call := by
    rintro call hidle rfl
    simp [hidle, Follows] at hfollows
  cases manager_step hnext with
  | same hsame => exact hsame ▸ hfollows
  | opens call id rootPath hidle hopens =>
    rw [hopens, calls_openWorkspace id rootPath (hbusy hidle)]
    exact hfollows
  | closes call id hidle hcloses =>
    rw [hcloses, calls_closeWorkspace id (hbusy hidle)]
    exact hfollows
  | answers call answer hevent hprogress => exact follows_of_progress hprogress hfollows

theorem closed_step (hnext : s.next settings event = some t)
    (hclosed : s.manager.calls inner = .closed workspaceId) :
    t.manager.calls inner = .closed workspaceId := by
  have hbusy : ∀ {call}, s.manager.calls call = .idle → inner ≠ call := by
    rintro call hidle rfl
    rw [hidle] at hclosed
    cases hclosed
  cases manager_step hnext with
  | same hsame => exact hsame ▸ hclosed
  | opens call id rootPath hidle hopens =>
    rw [hopens, calls_openWorkspace id rootPath (hbusy hidle)]
    exact hclosed
  | closes call id hidle hcloses =>
    rw [hcloses, calls_closeWorkspace id (hbusy hidle)]
    exact hclosed
  | answers call answer hevent hprogress => exact closed_of_progress hprogress hclosed

/-- A call that is asked to close a workspace, and whose answer takes that one out of the
map, has closed it. -/
theorem closed_of_takesOut {answer : Answer JsonText.Bytes TrustStore.PersistentFilesystemIdentity P}
    (hnext : s.next settings (.answer inner answer) = some t)
    (hfollows : Follows workspaceId (s.manager.calls inner))
    (htakes : takesOut s (.answer inner answer) = some workspaceId) :
    t.manager.calls inner = .closed workspaceId := by
  unfold takesOut at htakes
  dsimp only at htakes
  split at htakes
  · rename_i id step hcall
    simp [hcall, Follows] at hfollows
  · rename_i id held hcall
    obtain rfl := Option.some.inj htakes
    obtain ⟨-, heq⟩ := Option.ite_none_left_eq_some.mp hnext
    obtain ⟨manager, hanswered, rfl⟩ := Option.map_eq_some_iff.mp heq
    exact closed_of_acknowledged (answered_progress hanswered) hcall
  · cases htakes

end System

end KodeGpt.ManagerSteps
