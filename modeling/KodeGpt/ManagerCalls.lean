import KodeGpt.WorkspaceManager

/-!
What the calls that open and close workspaces keep: no two of them are busy with
one workspace, and each finds it in the state in which it has left it.
-/

namespace KodeGpt.ManagerCalls

open WorkspaceContexts WorkspaceManager

variable {R I P : Type}

def busyWith : CallPhase R I P → Option WorkspaceId
  | .opening id _ | .closing id _ _ => some id
  | _ => none

section Busy

variable {phase : CallPhase R I P} {id : WorkspaceId}

theorem busyWith_opening {step : OpenStep R I P} (h : phase = .opening id step) :
    busyWith phase = some id := by
  rw [h, busyWith]

theorem busyWith_closing {capabilityId : CapabilityId} {step : CloseStep}
    (h : phase = .closing id capabilityId step) : busyWith phase = some id := by
  rw [h, busyWith]

theorem not_opening (h : busyWith phase = none) (id : WorkspaceId) (step : OpenStep R I P) :
    phase ≠ .opening id step := by
  rintro rfl
  cases h

theorem not_closing (h : busyWith phase = none) (id : WorkspaceId) (capabilityId : CapabilityId)
    (step : CloseStep) : phase ≠ .closing id capabilityId step := by
  rintro rfl
  cases h

theorem busyWith_own (h : busyWith phase = some id) (id' : WorkspaceId)
    (h' : busyWith phase = some id') : id' = id :=
  Option.some.inj (h'.symm.trans h)

end Busy

def beforeTrust : OpenStep R I P → Bool
  | .inspecting _ | .trusting _ _ => true
  | _ => false

/-- A workspace as its open has left it at the step. -/
structure Describes (step : OpenStep R I P) (state : WorkspaceState R P) : Prop where
  phase : state.phase = .opening
  capability : state.capabilityId = step.capability
  trust : state.trustId = none ↔ beforeTrust step = true
  root : ∀ root identity, step = .trusting root identity → state.canonicalRoot = some root

/-- How an open changes its workspace between two steps. -/
structure Opens (answer : Answer R I P) (step later : OpenStep R I P)
    (state after : WorkspaceState R P) : Prop where
  describes : Describes later after
  capability : later.capability = step.capability ∨ step.capability = none ∧
    ∃ capabilityId, later.capability = some capabilityId ∧ answer = .capability capabilityId
  trust : after.trustId = state.trustId ∨ ∃ root identity trustId ceiling,
    step = .trusting root identity ∧ answer = .trusted trustId ceiling ∧
      after.trustId = some trustId
  root : after.canonicalRoot = state.canonicalRoot ∨ ∃ rootPath, step = .inspecting rootPath
  trusting : ∀ root identity, later = .trusting root identity →
    ∃ rootPath, step = .inspecting rootPath

/-- What becomes of a call, and of the workspace it is busy with. -/
inductive Progress (m : Manager R I P) (call : CallId) (answer : Answer R I P) :
    Manager R I P → Prop
  | openOn (id : WorkspaceId) (step later : OpenStep R I P)
      (f : WorkspaceState R P → WorkspaceState R P) (hcall : m.calls call = .opening id step)
      (hopens : ∀ state, Describes step state → Opens answer step later state (f state)) :
      Progress m call answer ((m.change id f).setCall call (.opening id later))
  | opened (id : WorkspaceId) (capabilityId : CapabilityId) (policy : P)
      (hcall : m.calls call = .opening id (.activating capabilityId policy))
      (hanswer : answer = .acknowledged) :
      Progress m call answer
        ((m.change id fun state =>
          { state with effectivePolicy := some policy, phase := .ready }).setCall call (.opened id))
  | openStopped (id : WorkspaceId) (step : OpenStep R I P) (capabilityId : CapabilityId)
      (hcall : m.calls call = .opening id step) (hcapability : step.capability = some capabilityId) :
      Progress m call answer ((m.delete id).setCall call (.unregistering capabilityId))
  | openFailed (id : WorkspaceId) (step : OpenStep R I P) (hcall : m.calls call = .opening id step)
      (hcapability : step.capability = none) :
      Progress m call answer ((m.delete id).setCall call (.failed none))
  | unregistered (capabilityId : CapabilityId) (hcall : m.calls call = .unregistering capabilityId)
      (hanswer : answer = .acknowledged) :
      Progress m call answer (m.setCall call (.failed (some capabilityId)))
  | abandoned (capabilityId : CapabilityId) (hcall : m.calls call = .unregistering capabilityId) :
      Progress m call answer (m.setCall call (.failed none))
  | closeOn (id : WorkspaceId) (capabilityId : CapabilityId) (step later : CloseStep)
      (hcall : m.calls call = .closing id capabilityId step) (hanswer : answer = .acknowledged)
      (hlater : step.following = some later) :
      Progress m call answer (m.setCall call (.closing id capabilityId later))
  | closed (id : WorkspaceId) (capabilityId : CapabilityId)
      (hcall : m.calls call = .closing id capabilityId .unregister)
      (hanswer : answer = .acknowledged) :
      Progress m call answer ((m.delete id).setCall call (.closed id))
  | closeFailed (id : WorkspaceId) (capabilityId : CapabilityId) (step : CloseStep)
      (hcall : m.calls call = .closing id capabilityId step) (hanswer : answer ≠ .acknowledged) :
      Progress m call answer
        ((m.change id fun state => { state with closeInFlight := false }).setCall call
          (.rejected .closeIncomplete))

theorem change_same (m : Manager R I P) (id : WorkspaceId) :
    m.change id (fun state => state) = m := by
  have hmap : (m.workspaces id).map (fun state => state) = m.workspaces id := by
    cases m.workspaces id <;> rfl
  rw [Manager.change, hmap, Function.update_eq_self]

section Answered

variable {resolveProfile : P → P → Option P} {m later : Manager R I P} {call : CallId}
  {answer : Answer R I P}

theorem Progress.openSame {id : WorkspaceId} {step next : OpenStep R I P}
    (hcall : m.calls call = .opening id step) (hcapability : next.capability = step.capability)
    (hstep : beforeTrust step = false) (hnext : beforeTrust next = false) :
    Progress m call answer (m.setCall call (.opening id next)) := by
  have hprogress : Progress m call answer
      ((m.change id fun state => state).setCall call (.opening id next)) := by
    refine .openOn id step next _ hcall ?_
    intro state hdescribes
    have htrusting : ∀ root identity, next ≠ .trusting root identity := by
      rintro root identity rfl
      cases hnext
    refine ⟨⟨hdescribes.phase, hdescribes.capability.trans hcapability.symm, ?_, ?_⟩,
      Or.inl hcapability, Or.inl rfl, Or.inl rfl, ?_⟩
    · rw [hnext, ← hstep]
      exact hdescribes.trust
    · exact fun root identity heq => absurd heq (htrusting root identity)
    · exact fun root identity heq => absurd heq (htrusting root identity)
  rwa [change_same] at hprogress

theorem answered_progress (h : m.answered resolveProfile call answer = some later) :
    Progress m call answer later := by
  unfold Manager.answered at h
  split at h
  · rename_i id step hcall
    obtain rfl := Option.some.inj h
    have hfails : Progress m call answer (m.openFails call id step.capability) := by
      cases hcapability : step.capability with
      | none => exact .openFailed id step hcall hcapability
      | some capabilityId => exact .openStopped id step capabilityId hcall hcapability
    unfold Manager.openAnswered
    split
    · rename_i rootPath root identity
      refine .openOn id _ _ _ hcall fun state hdescribes => ?_
      refine ⟨⟨hdescribes.phase, hdescribes.capability, hdescribes.trust, ?_⟩,
        Or.inl rfl, Or.inl rfl, Or.inr ⟨rootPath, rfl⟩, fun _ _ _ => ⟨rootPath, rfl⟩⟩
      intro root' identity' heq
      obtain ⟨rfl, -⟩ := OpenStep.trusting.inj heq
      rfl
    · rename_i root identity trustId ceiling
      refine .openOn id _ _ _ hcall fun state hdescribes => ?_
      exact ⟨⟨hdescribes.phase, hdescribes.capability, iff_of_false nofun nofun, nofun⟩, Or.inl rfl,
        Or.inr ⟨root, identity, trustId, ceiling, rfl, rfl, rfl⟩, Or.inl rfl, nofun⟩
    · rename_i root identity ceiling capabilityId
      refine .openOn id _ _ _ hcall fun state hdescribes => ?_
      exact ⟨⟨hdescribes.phase, rfl, hdescribes.trust, nofun⟩, Or.inr ⟨rfl, capabilityId, rfl, rfl⟩,
        Or.inl rfl, Or.inl rfl, nofun⟩
    · split
      · exact .openSame hcall rfl rfl rfl
      · exact hfails
    · exact .openSame hcall rfl rfl rfl
    · exact .opened id _ _ hcall rfl
    · exact hfails
  · rename_i capabilityId hcall
    split at h
    · obtain rfl := Option.some.inj h
      exact .unregistered capabilityId hcall rfl
    · obtain rfl := Option.some.inj h
      exact .abandoned capabilityId hcall
  · rename_i id capabilityId step hcall
    obtain rfl := Option.some.inj h
    unfold Manager.closeAnswered
    split
    · split
      · rename_i later hlater
        exact .closeOn id capabilityId step later hcall rfl hlater
      · rename_i hlast
        obtain rfl : step = .unregister := by
          cases step <;> first | rfl | cases hlast
        exact .closed id capabilityId hcall rfl
    · rename_i hanswer
      exact .closeFailed id capabilityId step hcall hanswer
  · cases h

theorem Progress.calls {other : CallId} (h : Progress m call answer later)
    (hother : other ≠ call) : later.calls other = m.calls other := by
  cases h <;> simp [hother]

end Answered

structure Attended (m : Manager R I P) : Prop where
  listed : ∀ id state, m.workspaces id = some state → id ∈ m.order
  opening : ∀ call id step, m.calls call = .opening id step →
    ∃ state, m.workspaces id = some state ∧ Describes step state
  closing : ∀ call id capabilityId step, m.calls call = .closing id capabilityId step →
    ∃ state, m.workspaces id = some state ∧ state.phase = .closing ∧
      state.closeInFlight = true ∧ state.capabilityId = some capabilityId
  alone : ∀ call call' id, busyWith (m.calls call) = some id →
    busyWith (m.calls call') = some id → call = call'
  bound : ∀ id state, m.workspaces id = some state → state.phase ≠ .opening →
    state.trustId ≠ none

theorem attended_started : Attended (Manager.started : Manager R I P) := by
  constructor <;> simp [Manager.started, busyWith]

/-- What a phase says of the workspace its call is busy with. -/
structure Suits (id : WorkspaceId) (state : WorkspaceState R P) (phase : CallPhase R I P) :
    Prop where
  opening : ∀ id' step, phase = .opening id' step → id' = id ∧ Describes step state
  closing : ∀ id' capabilityId step, phase = .closing id' capabilityId step →
    id' = id ∧ state.phase = .closing ∧ state.closeInFlight = true ∧
      state.capabilityId = some capabilityId
  bound : state.phase ≠ .opening → state.trustId ≠ none

theorem Suits.own {id : WorkspaceId} {state : WorkspaceState R P} {phase : CallPhase R I P}
    (h : Suits id state phase) (id' : WorkspaceId) (hbusy : busyWith phase = some id') :
    id' = id := by
  cases phase with
  | opening other step =>
    obtain rfl := Option.some.inj hbusy
    exact (h.opening other step rfl).1
  | closing other capabilityId step =>
    obtain rfl := Option.some.inj hbusy
    exact (h.closing other capabilityId step rfl).1
  | _ => cases hbusy

namespace Attended

variable {m : Manager R I P} {call : CallId} {id : WorkspaceId} {phase : CallPhase R I P}
  {state : WorkspaceState R P}

theorem others (h : Attended m) (hbusy : busyWith (m.calls call) = some id) (other : CallId)
    (hother : other ≠ call) : busyWith (m.calls other) ≠ some id :=
  fun hsame => hother (h.alone other call id hsame hbusy)

/-- No call is busy with a workspace that is neither opened nor closed. -/
theorem unattended (h : Attended m) (hstate : m.workspaces id = some state)
    (hopen : state.phase ≠ .opening) (hflight : state.closeInFlight = false) (other : CallId) :
    busyWith (m.calls other) ≠ some id := by
  intro hbusy
  cases hother : m.calls other with
  | opening id' step =>
    rw [hother] at hbusy
    obtain rfl := Option.some.inj hbusy
    obtain ⟨state', hstate', hdescribes⟩ := h.opening other id' step hother
    rw [hstate] at hstate'
    obtain rfl := Option.some.inj hstate'
    exact hopen hdescribes.phase
  | closing id' held step =>
    rw [hother] at hbusy
    obtain rfl := Option.some.inj hbusy
    obtain ⟨state', hstate', -, hflight', -⟩ := h.closing other id' held step hother
    rw [hstate] at hstate'
    obtain rfl := Option.some.inj hstate'
    rw [hflight] at hflight'
    cases hflight'
  | _ =>
    rw [hother] at hbusy
    cases hbusy

/-- No call is busy with a workspace that is not in the map. -/
theorem absent (h : Attended m) (hfree : m.workspaces id = none) (other : CallId) :
    busyWith (m.calls other) ≠ some id := by
  intro hbusy
  cases hother : m.calls other with
  | opening id' step =>
    rw [hother] at hbusy
    obtain rfl := Option.some.inj hbusy
    obtain ⟨state, hstate, -⟩ := h.opening other id' step hother
    rw [hfree] at hstate
    cases hstate
  | closing id' capabilityId step =>
    rw [hother] at hbusy
    obtain rfl := Option.some.inj hbusy
    obtain ⟨state, hstate, -⟩ := h.closing other id' capabilityId step hother
    rw [hfree] at hstate
    cases hstate
  | _ =>
    rw [hother] at hbusy
    cases hbusy

/-- A call goes on, or ends, and changes the state of a workspace that no other
call is busy with. -/
theorem change (h : Attended m) {f : WorkspaceState R P → WorkspaceState R P}
    (hothers : ∀ other, other ≠ call → busyWith (m.calls other) ≠ some id)
    (hstate : m.workspaces id = some state) (hsuits : Suits id (f state) phase) :
    Attended ((m.change id f).setCall call phase) := by
  have hown : ∀ id', busyWith phase = some id' → id' = id := hsuits.own
  obtain ⟨hopening, hclosing, hbound⟩ := hsuits
  constructor
  case bound => grind [h.bound]
  case listed => grind [h.listed]
  case opening => grind [h.opening, busyWith_opening]
  case closing => grind [h.closing, busyWith_closing]
  case alone => grind [h.alone]

/-- A call takes the workspace it is busy with out of the map. -/
theorem delete (h : Attended m) (hbusy : busyWith (m.calls call) = some id)
    (hphase : busyWith phase = none) : Attended ((m.delete id).setCall call phase) := by
  have hopening := not_opening hphase
  have hclosing := not_closing hphase
  have hothers := h.others hbusy
  constructor
  case bound => grind [h.bound]
  case listed => grind [h.listed]
  case opening => grind [h.opening, busyWith_opening]
  case closing => grind [h.closing, busyWith_closing]
  case alone => grind [h.alone]

theorem endCall (h : Attended m) (hphase : busyWith phase = none) :
    Attended (m.setCall call phase) := by
  have hopening := not_opening hphase
  have hclosing := not_closing hphase
  constructor
  case bound => grind [h.bound]
  case listed => grind [h.listed]
  case opening => grind [h.opening]
  case closing => grind [h.closing]
  case alone => grind [h.alone]

/-- A workspace is put into the map under an id that is free. -/
theorem insert (h : Attended m) {rootPath : R} (hfree : m.workspaces id = none) :
    Attended ((m.insert id Manager.openingState).setCall call
      (.opening id (.inspecting rootPath))) := by
  have hothers := h.absent hfree
  constructor
  case bound =>
    intro id' state hstate hopen
    rw [Manager.setCall_workspaces, Manager.insert_workspaces] at hstate
    split at hstate
    · obtain rfl := Option.some.inj hstate
      exact absurd rfl hopen
    · exact h.bound id' state hstate hopen
  case listed => grind [h.listed]
  case opening =>
    intro other id' step hother
    rw [Manager.setCall_calls] at hother
    split at hother
    · obtain ⟨rfl, rfl⟩ := CallPhase.opening.inj hother
      exact ⟨Manager.openingState, by simp, rfl, rfl, iff_of_true rfl rfl, nofun⟩
    · have hid : id' ≠ id := by
        rintro rfl
        exact hothers other (busyWith_opening hother)
      obtain ⟨state, hstate, hdescribes⟩ := h.opening other id' step hother
      exact ⟨state, by simp [hid, hstate], hdescribes⟩
  case closing => grind [h.closing, busyWith_closing]
  case alone => grind [h.alone, busyWith]

/-- A close begins, of a workspace that no call is busy with. -/
theorem begin (h : Attended m) {capabilityId : CapabilityId}
    (hstate : m.workspaces id = some state) (hheld : state.capabilityId = some capabilityId)
    (hopen : state.phase ≠ .opening) (hflight : state.closeInFlight = false) :
    Attended ((m.change id fun state =>
      { state with phase := .closing, closeInFlight := true }).setCall call
        (.closing id capabilityId .beginClose)) := by
  refine h.change (f := fun state => { state with phase := .closing, closeInFlight := true })
    (fun other _ => h.unattended hstate hopen hflight other) hstate
    ⟨nofun, ?_, fun _ => h.bound id state hstate hopen⟩
  intro id' held step heq
  obtain ⟨rfl, rfl, rfl⟩ := CallPhase.closing.inj heq
  exact ⟨rfl, rfl, rfl, hheld⟩

theorem progress (h : Attended m) {later : Manager R I P} {answer : Answer R I P}
    (hprogress : Progress m call answer later) : Attended later := by
  cases hprogress with
  | openOn id step next f hcall hopens =>
    obtain ⟨state, hstate, hdescribes⟩ := h.opening call id step hcall
    have hbusy := busyWith_opening hcall
    have hdescribes' := (hopens state hdescribes).describes
    refine h.change (h.others hbusy) hstate
      ⟨?_, nofun, fun hopen => absurd hdescribes'.phase hopen⟩
    intro id' step' heq
    obtain ⟨rfl, rfl⟩ := CallPhase.opening.inj heq
    exact ⟨rfl, hdescribes'⟩
  | opened id capabilityId policy hcall hanswer =>
    obtain ⟨state, hstate, hdescribes⟩ := h.opening call id _ hcall
    have hbusy := busyWith_opening hcall
    exact h.change (h.others hbusy) hstate
      ⟨nofun, nofun, fun _ hnone => nomatch hdescribes.trust.mp hnone⟩
  | openStopped id step capabilityId hcall hsome => exact h.delete (busyWith_opening hcall) rfl
  | openFailed id step hcall hnone => exact h.delete (busyWith_opening hcall) rfl
  | unregistered capabilityId hcall hanswer => exact h.endCall rfl
  | abandoned capabilityId hcall => exact h.endCall rfl
  | closeOn id capabilityId step next hcall hanswer hlater =>
    obtain ⟨state, hstate, hphase, hflight, hheld⟩ := h.closing call id capabilityId step hcall
    have hbusy := busyWith_closing hcall
    rw [← change_same m id]
    have hopen : state.phase ≠ .opening := by
      rw [hphase]
      exact nofun
    refine h.change (h.others hbusy) hstate
      ⟨nofun, ?_, fun _ => h.bound id state hstate hopen⟩
    intro id' held step' heq
    obtain ⟨rfl, rfl, rfl⟩ := CallPhase.closing.inj heq
    exact ⟨rfl, hphase, hflight, hheld⟩
  | closed id capabilityId hcall hanswer => exact h.delete (busyWith_closing hcall) rfl
  | closeFailed id capabilityId step hcall hanswer =>
    obtain ⟨state, hstate, -⟩ := h.closing call id capabilityId step hcall
    have hbusy := busyWith_closing hcall
    exact h.change (h.others hbusy) hstate ⟨nofun, nofun, h.bound id state hstate⟩

theorem openWorkspace (h : Attended m) (id : WorkspaceId) (rootPath : Option R) :
    Attended (m.openWorkspace call id rootPath) := by
  unfold Manager.openWorkspace
  split
  · exact h.endCall rfl
  · exact h.endCall rfl
  · rename_i hfree
    exact h.insert hfree

theorem closeWorkspace (h : Attended m) (id : WorkspaceId) :
    Attended (m.closeWorkspace call id) := by
  unfold Manager.closeWorkspace
  split
  · exact h.endCall rfl
  · rename_i state hstate
    split
    · exact h.endCall rfl
    · rename_i capabilityId hheld
      split
      · exact h.endCall rfl
      · rename_i hfree
        rw [not_or, Bool.not_eq_true] at hfree
        exact h.begin hstate hheld hfree.1 hfree.2

end Attended

end KodeGpt.ManagerCalls
