import KodeGpt.ManagerCalls
import KodeGpt.RuntimeRequests

/-!
Whether a workspace whose closing was left unfinished can be closed later, and
whether an open that fails leaves its capability in the runtime.
-/

namespace KodeGpt.ClosingRetries

open HostRoots JsonText KeyedFamily ManagerCalls PolicyRestriction RuntimeRequests TransitionSystem
open WorkspaceContexts WorkspaceManager WorkspaceRegistryRuns
open FallibleActions (map_eq_ok_iff)

/-- The capability is registered and past its opening. -/
def Settled (history : History) (capabilityId : CapabilityId) : Prop :=
  ∃ context, history.registry.contexts.lookup capabilityId = some context ∧
    context.phase ≠ .opening

def Closing (history : History) (capabilityId : CapabilityId) : Prop :=
  ∃ context, history.registry.contexts.lookup capabilityId = some context ∧
    context.phase = .closing

def Gone (history : History) (capabilityId : CapabilityId) : Prop :=
  history.registry.contexts.lookup capabilityId = none

theorem insert_present {family : Family String Context} {key other : String}
    {context changed : Context} (h : family.lookup key = some context) :
    ∃ later, (family.insert other changed).lookup key = some later := by
  by_cases hkey : key = other
  · subst hkey
    exact ⟨changed, AList.lookup_insert family⟩
  · exact ⟨context, (AList.lookup_insert_ne hkey).trans h⟩

section Registry

variable {history : History} {request : Request} {key : String} {context : Context}

theorem answer_present {registry after : Registry} {issued : Option String}
    (hrequest : request ≠ .unregister key) (hlookup : registry.contexts.lookup key = some context)
    (h : answer registry request = .ok (issued, after)) :
    ∃ later, after.contexts.lookup key = some later := by
  cases request with
  | register host rootPath expectedIdentity ceiling =>
    obtain ⟨⟨id, registry'⟩, hregister, heq⟩ := map_eq_ok_iff.mp h
    obtain ⟨-, rfl⟩ := Prod.mk.inj heq
    unfold register at hregister
    split at hregister
    · cases hregister
    · split at hregister
      · cases hregister
      · obtain ⟨-, rfl⟩ := Prod.mk.inj (Except.ok.inj hregister)
        exact insert_present hlookup
  | restrictPolicy capabilityId restriction =>
    obtain ⟨registry', hrestrict, heq⟩ := map_eq_ok_iff.mp h
    obtain ⟨-, rfl⟩ := Prod.mk.inj heq
    unfold restrictPolicyWith at hrestrict
    split at hrestrict
    · cases hrestrict
    · split at hrestrict
      · cases hrestrict
      · split at hrestrict
        · cases hrestrict
        · obtain rfl := Except.ok.inj hrestrict
          exact insert_present hlookup
  | activate capabilityId =>
    obtain ⟨registry', hactivate, heq⟩ := map_eq_ok_iff.mp h
    obtain ⟨-, rfl⟩ := Prod.mk.inj heq
    unfold activate at hactivate
    split at hactivate
    · cases hactivate
    · split at hactivate
      · cases hactivate
      · obtain rfl := Except.ok.inj hactivate
        exact insert_present hlookup
  | beginClose capabilityId =>
    obtain ⟨registry', hclose, heq⟩ := map_eq_ok_iff.mp h
    obtain ⟨-, rfl⟩ := Prod.mk.inj heq
    unfold beginClose at hclose
    split at hclose
    · cases hclose
    · split at hclose
      · cases hclose
      · obtain rfl := Except.ok.inj hclose
        exact insert_present hlookup
      · obtain rfl := Except.ok.inj hclose
        exact ⟨context, hlookup⟩
  | cancelExecutions capabilityId =>
    obtain ⟨registry', hcancel, heq⟩ := map_eq_ok_iff.mp h
    obtain ⟨-, rfl⟩ := Prod.mk.inj heq
    unfold cancelExecutions at hcancel
    split at hcancel
    · cases hcancel
    · split at hcancel
      · cases hcancel
      · obtain rfl := Except.ok.inj hcancel
        exact ⟨context, hlookup⟩
  | unregister capabilityId =>
    obtain ⟨registry', hremove, heq⟩ := map_eq_ok_iff.mp h
    obtain ⟨-, rfl⟩ := Prod.mk.inj heq
    unfold unregister at hremove
    split at hremove
    · cases hremove
    · split at hremove
      · cases hremove
      · obtain rfl := Except.ok.inj hremove
        refine ⟨context, (AList.lookup_erase_ne ?_).trans hlookup⟩
        rintro rfl
        exact hrequest rfl

theorem serve_present (hrequest : request ≠ .unregister key)
    (hlookup : history.registry.contexts.lookup key = some context) :
    ∃ later, (history.serve request).registry.contexts.lookup key = some later := by
  unfold History.serve
  split
  · exact ⟨context, hlookup⟩
  · rename_i issued after hanswer
    exact answer_present hrequest hlookup hanswer

theorem phase_settled {phase later : WorkspacePhase}
    (h : later = phase ∨ phaseSuccessor phase = some later) (hphase : phase ≠ .opening) :
    later ≠ .opening := by
  revert h hphase
  cases phase <;> cases later <;> decide

theorem phase_closing {phase later : WorkspacePhase}
    (h : later = phase ∨ phaseSuccessor phase = some later) (hphase : phase = .closing) :
    later = .closing := by
  revert h hphase
  cases phase <;> cases later <;> decide

theorem serve_settled (hinv : HistoryInvariant history)
    (hnodup : (history.serve request).issued.Nodup) (hrequest : request ≠ .unregister key)
    (h : Settled history key) : Settled (history.serve request) key := by
  obtain ⟨context, hlookup, hphase⟩ := h
  obtain ⟨later, hlater⟩ := serve_present hrequest hlookup
  exact ⟨later, hlater, phase_settled (phase_step_of_nodup hinv hnodup hlookup hlater) hphase⟩

theorem serve_closing (hinv : HistoryInvariant history)
    (hnodup : (history.serve request).issued.Nodup) (hrequest : request ≠ .unregister key)
    (h : Closing history key) : Closing (history.serve request) key := by
  obtain ⟨context, hlookup, hphase⟩ := h
  obtain ⟨later, hlater⟩ := serve_present hrequest hlookup
  exact ⟨later, hlater, phase_closing (phase_step_of_nodup hinv hnodup hlookup hlater) hphase⟩

theorem serve_gone (hnodup : (history.serve request).issued.Nodup) (hissued : key ∈ history.issued)
    (h : Gone history key) : Gone (history.serve request) key := by
  obtain ⟨fresh, hfresh, hcontexts⟩ := serve_continues history request
  rw [hfresh] at hnodup
  cases hlater : (history.serve request).registry.contexts.lookup key with
  | none => exact hlater
  | some context =>
    obtain hmem | ⟨earlier, hearlier, -⟩ := hcontexts key context hlater
    · exact absurd hmem (List.disjoint_of_nodup_append hnodup hissued)
    · rw [Gone, hearlier] at h
      cases h

end Registry

section Answers

variable {history : History} {capabilityId : CapabilityId}

theorem serve_beginClose (h : Settled history capabilityId) :
    acknowledge (answer history.registry (.beginClose capabilityId)) = .acknowledged ∧
      Closing (history.serve (.beginClose capabilityId)) capabilityId := by
  obtain ⟨context, hlookup, hphase⟩ := h
  cases hcontext : context.phase with
  | opening => exact absurd hcontext hphase
  | ready =>
    have hanswer : answer history.registry (.beginClose capabilityId) =
        .ok (none, { history.registry with
          contexts := history.registry.contexts.insert capabilityId
            { context with phase := .closing } }) := by
      simp [answer, beginClose, hlookup, hcontext, Except.map]
    rw [serve_of_ok hanswer, hanswer]
    exact ⟨rfl, { context with phase := .closing }, AList.lookup_insert _, rfl⟩
  | closing =>
    have hanswer : answer history.registry (.beginClose capabilityId) =
        .ok (none, history.registry) := by
      simp [answer, beginClose, hlookup, hcontext, Except.map]
    rw [serve_of_ok hanswer, hanswer]
    exact ⟨rfl, context, hlookup, hcontext⟩

theorem serve_cancelExecutions (h : Closing history capabilityId) :
    acknowledge (answer history.registry (.cancelExecutions capabilityId)) = .acknowledged ∧
      Closing (history.serve (.cancelExecutions capabilityId)) capabilityId := by
  obtain ⟨context, hlookup, hphase⟩ := h
  have hanswer : answer history.registry (.cancelExecutions capabilityId) =
      .ok (none, history.registry) := by
    simp [answer, cancelExecutions, hlookup, hphase, Except.map]
  rw [serve_of_ok hanswer, hanswer]
  exact ⟨rfl, context, hlookup, hphase⟩

theorem serve_unregister (h : Closing history capabilityId) :
    acknowledge (answer history.registry (.unregister capabilityId)) = .acknowledged := by
  obtain ⟨context, hlookup, hphase⟩ := h
  simp [answer, unregister, hlookup, hphase, Except.map, acknowledge]

theorem gone_of_unregister
    (h : acknowledge (answer history.registry (.unregister capabilityId)) = .acknowledged) :
    Gone (history.serve (.unregister capabilityId)) capabilityId := by
  cases hanswer : answer history.registry (.unregister capabilityId) with
  | error error =>
    rw [hanswer] at h
    cases h
  | ok result =>
    obtain ⟨issued, after⟩ := result
    rw [serve_of_ok hanswer]
    obtain ⟨registry', hremove, heq⟩ := map_eq_ok_iff.mp hanswer
    obtain ⟨-, rfl⟩ := Prod.mk.inj heq
    unfold unregister at hremove
    split at hremove
    · cases hremove
    · split at hremove
      · cases hremove
      · obtain rfl := Except.ok.inj hremove
        exact AList.lookup_erase _ _

theorem settled_of_activate
    (h : acknowledge (answer history.registry (.activate capabilityId)) = .acknowledged) :
    Settled (history.serve (.activate capabilityId)) capabilityId := by
  cases hanswer : answer history.registry (.activate capabilityId) with
  | error error =>
    rw [hanswer] at h
    cases h
  | ok result =>
    obtain ⟨issued, after⟩ := result
    rw [serve_of_ok hanswer]
    obtain ⟨registry', hactivate, heq⟩ := map_eq_ok_iff.mp hanswer
    obtain ⟨-, rfl⟩ := Prod.mk.inj heq
    unfold activate at hactivate
    split at hactivate
    · cases hactivate
    · rename_i context hlookup
      split at hactivate
      · cases hactivate
      · obtain rfl := Except.ok.inj hactivate
        exact ⟨{ context with phase := .ready }, AList.lookup_insert _, nofun⟩

end Answers

section Effects

variable {circumstances : Circumstances} {history : History} {request : RuntimeRequest}
  {capabilityId : CapabilityId}

theorem registryRequest_unregister {host : Host} {served : Request}
    (h : registryRequest host request = some served)
    (hrequest : request ≠ .unregister capabilityId) : served ≠ .unregister capabilityId := by
  rintro rfl
  cases request <;> simp [registryRequest] at h
  exact hrequest (by rw [h])

theorem serve_nodup (hinv : HistoryInvariant history) (hbound : history.issued.length < 2 ^ 64)
    (request : Request) : (history.serve request).issued.Nodup := by
  have hafter := serve_invariant history request hinv
  rw [hafter.issued]
  apply firstIds_nodup
  obtain ⟨issued, after, -, hserve⟩ := serve_step history request
  rw [hserve]
  cases issued with
  | none =>
    show (history.issued ++ []).length ≤ 2 ^ 64
    rw [List.append_nil]
    omega
  | some id =>
    show (history.issued ++ [id]).length ≤ 2 ^ 64
    rw [List.length_append, List.length_singleton]
    omega

theorem effect_invariant (hinv : HistoryInvariant history) :
    HistoryInvariant (serveEffect circumstances history request) := by
  unfold serveEffect
  split
  · exact serve_invariant history _ hinv
  · exact hinv

theorem effect_issued (hissued : capabilityId ∈ history.issued) :
    capabilityId ∈ (serveEffect circumstances history request).issued := by
  unfold serveEffect
  split
  · rename_i served _
    obtain ⟨issued, after, -, hserve⟩ := serve_step history served
    rw [hserve]
    exact List.mem_append_left _ hissued
  · exact hissued

theorem effect_settled (hinv : HistoryInvariant history)
    (hbound : history.issued.length < 2 ^ 64) (hrequest : request ≠ .unregister capabilityId)
    (h : Settled history capabilityId) :
    Settled (serveEffect circumstances history request) capabilityId := by
  unfold serveEffect
  split
  · rename_i served hserved
    exact serve_settled hinv (serve_nodup hinv hbound served)
      (registryRequest_unregister hserved hrequest) h
  · exact h

theorem effect_closing (hinv : HistoryInvariant history)
    (hbound : history.issued.length < 2 ^ 64) (hrequest : request ≠ .unregister capabilityId)
    (h : Closing history capabilityId) :
    Closing (serveEffect circumstances history request) capabilityId := by
  unfold serveEffect
  split
  · rename_i served hserved
    exact serve_closing hinv (serve_nodup hinv hbound served)
      (registryRequest_unregister hserved hrequest) h
  · exact h

theorem effect_gone (hinv : HistoryInvariant history) (hbound : history.issued.length < 2 ^ 64)
    (hissued : capabilityId ∈ history.issued) (h : Gone history capabilityId) :
    Gone (serveEffect circumstances history request) capabilityId := by
  unfold serveEffect
  split
  · rename_i served hserved
    exact serve_gone (serve_nodup hinv hbound served) hissued h
  · exact h

theorem capability_fresh (hinv : HistoryInvariant history)
    (hbound : history.issued.length < 2 ^ 64)
    (h : serveAnswer circumstances history request = .capability capabilityId) :
    capabilityId ∉ history.issued ∧
      capabilityId ∈ (serveEffect circumstances history request).issued := by
  cases hserved : registryRequest circumstances.host request with
  | none =>
    cases request <;> simp [registryRequest] at hserved
    · rename_i path
      simp only [serveAnswer, rootAnswer] at h
      split at h <;> cases h
    · rename_i id
      simp only [serveAnswer, profileAnswer] at h
      split at h
      · split at h <;> cases h
      · cases h
  | some served =>
    have hanswer : acknowledge (answer history.registry served) = .capability capabilityId := by
      cases request with
      | cancelExecutions id =>
        rw [serveAnswer] at h
        split at h
        · obtain rfl := Option.some.inj hserved
          exact h
        · cases h
      | inspectRoot path => cases hserved
      | readProjectProfile id => cases hserved
      | _ =>
        simp only [serveAnswer, hserved] at h
        exact h
    cases hresult : answer history.registry served with
    | error error =>
      rw [hresult] at hanswer
      cases hanswer
    | ok result =>
      obtain ⟨issued, after⟩ := result
      rw [hresult] at hanswer
      cases issued with
      | none => cases hanswer
      | some id =>
        obtain rfl : id = capabilityId := by
          injection hanswer
        have hserve := serve_of_ok hresult
        have hnodup := serve_nodup hinv hbound served
        have heffect : serveEffect circumstances history request = history.serve served := by
          rw [serveEffect, hserved]
        rw [heffect]
        rw [hserve] at hnodup ⊢
        refine ⟨?_, by simp⟩
        intro hmem
        exact List.disjoint_of_nodup_append hnodup hmem (List.mem_singleton_self _)

end Effects

/-- The id of the capability is with the call, and in no workspace. -/
def Loose (s : System) (call : CallId) (capabilityId : CapabilityId) : Prop :=
  s.manager.calls call = .unregistering capabilityId ∨
    s.served call = some (.capability capabilityId)

structure Joint (s : System) : Prop extends Attended s.manager where
  history : HistoryInvariant s.history
  served : ∀ call, s.served call ≠ none → outstanding (s.manager.calls call) ≠ none
  issued : ∀ id state capabilityId, s.manager.workspaces id = some state →
    state.capabilityId = some capabilityId → capabilityId ∈ s.history.issued
  looseIssued : ∀ call capabilityId, Loose s call capabilityId → capabilityId ∈ s.history.issued
  apart : ∀ id id' state state' capabilityId, s.manager.workspaces id = some state →
    s.manager.workspaces id' = some state' → state.capabilityId = some capabilityId →
      state'.capabilityId = some capabilityId → id = id'
  looseApart : ∀ call call' capabilityId, Loose s call capabilityId →
    Loose s call' capabilityId → call = call'
  loose : ∀ call id state capabilityId, Loose s call capabilityId →
    s.manager.workspaces id = some state → state.capabilityId ≠ some capabilityId
  ready : ∀ id state, s.manager.workspaces id = some state → state.phase ≠ .opening →
    ∃ capabilityId, state.capabilityId = some capabilityId ∧
      (Settled s.history capabilityId ∨
        ∃ call, s.manager.calls call = .closing id capabilityId .unregister ∧
          s.served call = some .acknowledged)
  activated : ∀ call id capabilityId policy,
    s.manager.calls call = .opening id (.activating capabilityId policy) →
      s.served call = some .acknowledged → Settled s.history capabilityId
  begun : ∀ call id capabilityId step, s.manager.calls call = .closing id capabilityId step →
    step ≠ .beginClose ∨ s.served call = some .acknowledged →
      Closing s.history capabilityId ∨
        (step = .unregister ∧ s.served call = some .acknowledged)
  answers : ∀ call id capabilityId step answer,
    s.manager.calls call = .closing id capabilityId step → s.served call = some answer →
      answer = .acknowledged ∨ step = .cancelExecutions
  unregistered : ∀ call capabilityId, s.manager.calls call = .unregistering capabilityId →
    s.served call = some .acknowledged → Gone s.history capabilityId
  failed : ∀ call capabilityId, s.manager.calls call = .failed (some capabilityId) →
    capabilityId ∈ s.history.issued ∧ Gone s.history capabilityId

theorem joint_started (processId : Nat) : Joint (System.started processId) := by
  constructor
  case toAttended => exact attended_started
  case history => exact start_invariant processId
  all_goals simp [System.started, Manager.started, Loose]

section Steps

variable {s : System} {call : CallId} {id : WorkspaceId} {late : List RuntimeRequest}
  {phase : CallPhase HostPath FilesystemIdentity RuntimePolicy}
  {state : WorkspaceState HostPath RuntimePolicy}

/-- What a phase says of the workspace its call is busy with, and of its
capability. -/
structure Fits (s : System) (id : WorkspaceId) (state : WorkspaceState HostPath RuntimePolicy)
    (phase : CallPhase HostPath FilesystemIdentity RuntimePolicy) : Prop extends
    Suits id state phase where
  begun : ∀ id' capabilityId step, phase = .closing id' capabilityId step → step ≠ .beginClose →
    Closing s.history capabilityId
  unregistering : ∀ capabilityId, phase ≠ .unregistering capabilityId
  failed : ∀ capabilityId, phase ≠ .failed (some capabilityId)
  ready : state.phase ≠ .opening →
    ∃ capabilityId, state.capabilityId = some capabilityId ∧ Settled s.history capabilityId

/-- A call goes on, or ends, and changes the state of the workspace that it and
no other call is busy with. -/
theorem Joint.change (h : Joint s)
    {f : WorkspaceState HostPath RuntimePolicy → WorkspaceState HostPath RuntimePolicy}
    (howner : ∀ id', busyWith (s.manager.calls call) = some id' → id' = id)
    (hothers : ∀ other, other ≠ call → busyWith (s.manager.calls other) ≠ some id)
    (hstate : s.manager.workspaces id = some state) (hfits : Fits s id (f state) phase)
    (hcapability : (f state).capabilityId = state.capabilityId ∨
      state.capabilityId = none ∧ ∃ capabilityId, (f state).capabilityId = some capabilityId ∧
        s.served call = some (.capability capabilityId)) :
    Joint ⟨(s.manager.change id f).setCall call phase, s.history,
      Function.update s.served call none, late⟩ := by
  have hserved : ∀ other, Function.update s.served call none other =
      if other = call then none else s.served other := Function.update_apply _ _ _
  have hattended := h.toAttended.change hothers hstate hfits.toSuits
  have hbefore : ∀ other capabilityId,
      Loose ⟨(s.manager.change id f).setCall call phase, s.history,
        Function.update s.served call none, late⟩ other capabilityId →
      other ≠ call ∧ Loose s other capabilityId := by
    intro other capabilityId hloose
    have hphase := hfits.unregistering capabilityId
    grind [Loose]
  have hgained : ∀ capabilityId, (f state).capabilityId = some capabilityId →
      state.capabilityId = some capabilityId ∨ Loose s call capabilityId := by
    grind [Loose]
  obtain ⟨⟨hopening, hclosing⟩, hbegun, -, hfailed, hready⟩ := hfits
  constructor
  case toAttended => exact hattended
  case history => exact h.history
  case served => grind [h.served]
  case issued => grind [h.issued, h.looseIssued]
  case looseIssued =>
    exact fun other capabilityId hloose =>
      h.looseIssued other capabilityId (hbefore other capabilityId hloose).2
  case apart => grind [h.apart, h.loose]
  case looseApart =>
    exact fun other other' capabilityId hloose hloose' => h.looseApart other other' capabilityId
      (hbefore other capabilityId hloose).2 (hbefore other' capabilityId hloose').2
  case loose => grind [h.loose, h.looseApart]
  case ready =>
    intro other state' hstate' hphase
    rw [Manager.setCall_workspaces, Manager.change_workspaces] at hstate'
    split at hstate'
    · rw [hstate] at hstate'
      obtain rfl := Option.some.inj hstate'
      obtain ⟨capabilityId, hheld, hsettled⟩ := hready hphase
      exact ⟨capabilityId, hheld, Or.inl hsettled⟩
    · rename_i hid
      obtain ⟨capabilityId, hheld, hsettled⟩ := h.ready other state' hstate' hphase
      refine ⟨capabilityId, hheld, hsettled.imp_right ?_⟩
      rintro ⟨closer, hcloser, hanswer⟩
      have hne : closer ≠ call := by
        rintro rfl
        exact hid (howner other (busyWith_closing hcloser))
      exact ⟨closer, by simp [hne, hcloser], by simp [hne, hanswer]⟩
  case activated => grind [h.activated]
  case begun => grind [h.begun]
  case answers => grind [h.answers]
  case unregistered => grind [h.unregistered]
  case failed => grind [h.failed]

/-- A call ends, or is left with the capability of its workspace, which it takes
out of the map. -/
theorem Joint.delete (h : Joint s) (hbusy : busyWith (s.manager.calls call) = some id)
    (hstate : s.manager.workspaces id = some state) (hphase : busyWith phase = none)
    (hheld : ∀ capabilityId, phase = .unregistering capabilityId →
      state.capabilityId = some capabilityId)
    (hfailed : ∀ capabilityId, phase ≠ .failed (some capabilityId)) :
    Joint ⟨(s.manager.delete id).setCall call phase, s.history,
      Function.update s.served call none, late⟩ := by
  have hserved : ∀ other, Function.update s.served call none other =
      if other = call then none else s.served other := Function.update_apply _ _ _
  have hopening := not_opening hphase
  have hclosing := not_closing hphase
  have hothers := h.others hbusy
  have hbefore : ∀ other capabilityId,
      Loose ⟨(s.manager.delete id).setCall call phase, s.history,
        Function.update s.served call none, late⟩ other capabilityId →
      (other = call ∧ state.capabilityId = some capabilityId) ∨
        (other ≠ call ∧ Loose s other capabilityId) := by
    grind [Loose]
  constructor
  case toAttended => exact h.toAttended.delete hbusy hphase
  case history => exact h.history
  case served => grind [h.served]
  case issued => grind [h.issued]
  case looseIssued => grind [h.issued, h.looseIssued]
  case apart => grind [h.apart]
  case looseApart => grind [h.looseApart, h.loose]
  case loose => grind [h.loose, h.apart]
  case ready =>
    intro other state' hstate' hsettling
    rw [Manager.setCall_workspaces, Manager.delete_workspaces] at hstate'
    split at hstate'
    · cases hstate'
    · rename_i hid
      obtain ⟨capabilityId, hheld, hsettled⟩ := h.ready other state' hstate' hsettling
      refine ⟨capabilityId, hheld, hsettled.imp_right ?_⟩
      rintro ⟨closer, hcloser, hanswer⟩
      have hne : closer ≠ call := by
        rintro rfl
        rw [busyWith_closing hcloser] at hbusy
        exact hid (Option.some.inj hbusy)
      exact ⟨closer, by simp [hne, hcloser], by simp [hne, hanswer]⟩
  case activated => grind [h.activated, busyWith_opening]
  case begun => grind [h.begun, busyWith_closing]
  case answers => grind [h.answers]
  case unregistered => grind [h.unregistered]
  case failed => grind [h.failed]

theorem Joint.endCall (h : Joint s) (hbusy : busyWith (s.manager.calls call) = none)
    (hphase : busyWith phase = none)
    (hheld : ∀ capabilityId, phase ≠ .unregistering capabilityId)
    (hfailed : ∀ capabilityId, phase = .failed (some capabilityId) →
      capabilityId ∈ s.history.issued ∧ Gone s.history capabilityId) :
    Joint ⟨s.manager.setCall call phase, s.history, Function.update s.served call none, late⟩ := by
  have hserved : ∀ other, Function.update s.served call none other =
      if other = call then none else s.served other := Function.update_apply _ _ _
  have hopening := not_opening hphase
  have hclosing := not_closing hphase
  have hbefore : ∀ other capabilityId,
      Loose ⟨s.manager.setCall call phase, s.history,
        Function.update s.served call none, late⟩ other capabilityId →
      Loose s other capabilityId := by
    grind [Loose]
  constructor
  case toAttended => exact h.toAttended.endCall hphase
  case history => exact h.history
  case served => grind [h.served]
  case issued => grind [h.issued]
  case looseIssued => grind [h.looseIssued]
  case apart => grind [h.apart]
  case looseApart => grind [h.looseApart]
  case loose => grind [h.loose]
  case ready =>
    intro other state' hstate' hsettling
    rw [Manager.setCall_workspaces] at hstate'
    obtain ⟨capabilityId, hheld, hsettled⟩ := h.ready other state' hstate' hsettling
    refine ⟨capabilityId, hheld, hsettled.imp_right ?_⟩
    rintro ⟨closer, hcloser, hanswer⟩
    have hne : closer ≠ call := by
      rintro rfl
      rw [busyWith_closing hcloser] at hbusy
      cases hbusy
    exact ⟨closer, by simp [hne, hcloser], by simp [hne, hanswer]⟩
  case activated => grind [h.activated, busyWith_opening]
  case begun => grind [h.begun, busyWith_closing]
  case answers => grind [h.answers]
  case unregistered => grind [h.unregistered]
  case failed => grind [h.failed]

theorem Joint.unserved (h : Joint s) (hidle : s.manager.calls call = .idle) :
    s.served call = none := by
  by_contra hsome
  apply h.served call hsome
  rw [hidle]
  rfl

theorem Joint.insert (h : Joint s) {rootPath : HostPath}
    (hidle : s.manager.calls call = .idle) (hfree : s.manager.workspaces id = none) :
    Joint ⟨(s.manager.insert id Manager.openingState).setCall call
      (.opening id (.inspecting rootPath)), s.history, s.served, s.late⟩ := by
  have hserved := h.unserved hidle
  have hothers := h.absent hfree
  have hbefore : ∀ other capabilityId,
      Loose ⟨(s.manager.insert id Manager.openingState).setCall call
        (.opening id (.inspecting rootPath)), s.history, s.served, s.late⟩ other capabilityId →
      Loose s other capabilityId := by
    grind [Loose]
  have hopening : Manager.openingState (R := HostPath) (P := RuntimePolicy) =
      ⟨.opening, false, none, none, none, none⟩ := rfl
  constructor
  case toAttended => exact h.toAttended.insert hfree
  case history => exact h.history
  case served => grind [h.served, outstanding]
  case issued => grind [h.issued]
  case looseIssued => grind [h.looseIssued]
  case apart => grind [h.apart]
  case looseApart => grind [h.looseApart]
  case loose => grind [h.loose]
  case ready =>
    intro other state' hstate' hsettling
    rw [Manager.setCall_workspaces, Manager.insert_workspaces] at hstate'
    split at hstate'
    · obtain rfl := Option.some.inj hstate'
      exact absurd rfl hsettling
    · obtain ⟨capabilityId, hheld, hsettled⟩ := h.ready other state' hstate' hsettling
      refine ⟨capabilityId, hheld, hsettled.imp_right ?_⟩
      rintro ⟨closer, hcloser, hanswer⟩
      have hne : closer ≠ call := by
        rintro rfl
        rw [hidle] at hcloser
        cases hcloser
      exact ⟨closer, by simp [hne, hcloser], hanswer⟩
  case activated => grind [h.activated]
  case begun => grind [h.begun]
  case answers => grind [h.answers]
  case unregistered => grind [h.unregistered]
  case failed => grind [h.failed]

variable {circumstances : Circumstances} {request : RuntimeRequest}

theorem Joint.effect (h : Joint s) (hbound : s.history.issued.length < 2 ^ 64)
    (hkeep : ∀ id state capabilityId, s.manager.workspaces id = some state →
      state.capabilityId = some capabilityId → request ≠ .unregister capabilityId) :
    Joint ⟨s.manager, serveEffect circumstances s.history request, s.served, late⟩ where
  history := effect_invariant h.history
  toAttended := h.toAttended
  served := h.served
  issued := fun id state capabilityId hstate hheld =>
    effect_issued (h.issued id state capabilityId hstate hheld)
  looseIssued := fun call capabilityId hloose => effect_issued (h.looseIssued call capabilityId hloose)
  apart := h.apart
  looseApart := h.looseApart
  loose := h.loose
  ready := by
    intro id state hstate hphase
    obtain ⟨capabilityId, hheld, hsettled⟩ := h.ready id state hstate hphase
    exact ⟨capabilityId, hheld, hsettled.imp_left
      (effect_settled h.history hbound (hkeep id state capabilityId hstate hheld))⟩
  activated := by
    intro call id capabilityId policy hcall hanswer
    obtain ⟨state, hstate, -, hheld, -⟩ := h.opening call id _ hcall
    exact effect_settled h.history hbound (hkeep id state capabilityId hstate hheld)
      (h.activated call id capabilityId policy hcall hanswer)
  begun := by
    intro call id capabilityId step hcall hstep
    obtain ⟨state, hstate, -, -, hheld⟩ := h.closing call id capabilityId step hcall
    exact (h.begun call id capabilityId step hcall hstep).imp_left
      (effect_closing h.history hbound (hkeep id state capabilityId hstate hheld))
  answers := h.answers
  unregistered := by
    intro call capabilityId hcall hanswer
    exact effect_gone h.history hbound (h.looseIssued call capabilityId (Or.inl hcall))
      (h.unregistered call capabilityId hcall hanswer)
  failed := by
    intro call capabilityId hcall
    obtain ⟨hissued, hgone⟩ := h.failed call capabilityId hcall
    exact ⟨effect_issued hissued, effect_gone h.history hbound hissued hgone⟩

theorem outstanding_unregister {capabilityId : CapabilityId}
    (h : outstanding phase = some (.unregister capabilityId)) :
    phase = .unregistering capabilityId ∨ ∃ id, phase = .closing id capabilityId .unregister := by
  cases phase with
  | unregistering held =>
    obtain rfl : held = capabilityId := by
      injection Option.some.inj h
    exact Or.inl rfl
  | closing id held step =>
    cases step with
    | unregister =>
      obtain rfl : held = capabilityId := by
        injection Option.some.inj h
      exact Or.inr ⟨id, rfl⟩
    | _ => cases Option.some.inj h
  | opening id step =>
    cases step <;> cases h
  | _ => cases h

theorem Joint.unregister_own (h : Joint s) {capabilityId : CapabilityId}
    (houtstanding : outstanding (s.manager.calls call) = some (.unregister capabilityId))
    (hstate : s.manager.workspaces id = some state)
    (hheld : state.capabilityId = some capabilityId) :
    s.manager.calls call = .closing id capabilityId .unregister := by
  obtain hcall | ⟨id', hcall⟩ := outstanding_unregister houtstanding
  · exact absurd hheld (h.loose call id state capabilityId (Or.inl hcall) hstate)
  · obtain ⟨state', hstate', -, -, hheld'⟩ := h.closing call id' capabilityId .unregister hcall
    obtain rfl := h.apart id id' state state' capabilityId hstate hstate' hheld hheld'
    exact hcall

theorem Joint.unregister_other (h : Joint s) {other : CallId} {capabilityId : CapabilityId}
    (hbusy : busyWith (s.manager.calls other) = some id) (hother : other ≠ call)
    (hstate : s.manager.workspaces id = some state)
    (hheld : state.capabilityId = some capabilityId) :
    outstanding (s.manager.calls call) ≠ some (.unregister capabilityId) := by
  intro houtstanding
  have hcall := h.unregister_own houtstanding hstate hheld
  exact hother (h.alone other call id hbusy (busyWith_closing hcall))

/-- A workspace that is closed, and whose closer has not had its capability
unregistered, is registered past its opening. -/
theorem Joint.settled (h : Joint s) {capabilityId : CapabilityId} {step : CloseStep}
    (hcall : s.manager.calls call = .closing id capabilityId step)
    (hanswer : s.served call = none) : Settled s.history capabilityId := by
  obtain ⟨state, hstate, hphase, -, hheld⟩ := h.closing call id capabilityId step hcall
  have hclosed : state.phase ≠ .opening := by
    rw [hphase]
    exact nofun
  obtain ⟨held, hheld', hsettled | ⟨closer, hcloser, hacknowledged⟩⟩ := h.ready id state hstate hclosed
  · rw [hheld] at hheld'
    obtain rfl := Option.some.inj hheld'
    exact hsettled
  · obtain rfl := h.alone call closer id (busyWith_closing hcall) (busyWith_closing hcloser)
    rw [hanswer] at hacknowledged
    cases hacknowledged

theorem Joint.closeAnswer (h : Joint s) {capabilityId : CapabilityId} {step : CloseStep}
    (hcall : s.manager.calls call = .closing id capabilityId step)
    (hanswer : s.served call = none)
    (hcancelled : step = .cancelExecutions → circumstances.cancelled = true) :
    serveAnswer circumstances s.history (closeRequest capabilityId step) = .acknowledged := by
  cases step with
  | beginClose => exact (serve_beginClose (h.settled hcall hanswer)).1
  | cancelExecutions =>
    obtain hclosing | ⟨hstep, -⟩ := h.begun call id capabilityId _ hcall (Or.inl nofun)
    · rw [closeRequest, serveAnswer, if_pos (hcancelled rfl)]
      exact (serve_cancelExecutions hclosing).1
    · cases hstep
  | unregister =>
    obtain hclosing | ⟨-, hacknowledged⟩ := h.begun call id capabilityId _ hcall (Or.inl nofun)
    · exact serve_unregister hclosing
    · rw [hanswer] at hacknowledged
      cases hacknowledged

theorem Joint.serve (h : Joint s) (hbound : s.history.issued.length < 2 ^ 64)
    (houtstanding : outstanding (s.manager.calls call) = some request)
    (hunserved : s.served call = none) :
    Joint ⟨s.manager, serveEffect circumstances s.history request,
      Function.update s.served call (some (serveAnswer circumstances s.history request)),
      s.late⟩ := by
  have hserved : ∀ other, Function.update s.served call
      (some (serveAnswer circumstances s.history request)) other =
        if other = call then some (serveAnswer circumstances s.history request)
        else s.served other := Function.update_apply _ _ _
  have hown : ∀ other, s.served other ≠ none → other ≠ call := by
    rintro other hsome rfl
    exact hsome hunserved
  have hloose : ∀ other capabilityId,
      Loose ⟨s.manager, serveEffect circumstances s.history request,
        Function.update s.served call (some (serveAnswer circumstances s.history request)),
        s.late⟩ other capabilityId →
      Loose s other capabilityId ∨ (other = call ∧ capabilityId ∉ s.history.issued ∧
        capabilityId ∈ (serveEffect circumstances s.history request).issued) := by
    have hfresh : ∀ capabilityId, serveAnswer circumstances s.history request =
        .capability capabilityId → capabilityId ∉ s.history.issued ∧
          capabilityId ∈ (serveEffect circumstances s.history request).issued :=
      fun _ => capability_fresh h.history hbound
    grind [Loose]
  have hkept : ∀ other id state capabilityId, busyWith (s.manager.calls other) = some id →
      other ≠ call → s.manager.workspaces id = some state →
        state.capabilityId = some capabilityId → request ≠ .unregister capabilityId := by
    rintro other id state capabilityId hbusy hother hstate hheld rfl
    exact h.unregister_other hbusy hother hstate hheld houtstanding
  constructor
  case history => exact effect_invariant h.history
  case toAttended => exact h.toAttended
  case served => grind [h.served]
  case issued =>
    exact fun id state capabilityId hstate hheld =>
      effect_issued (h.issued id state capabilityId hstate hheld)
  case looseIssued =>
    intro other capabilityId hnow
    obtain hbefore | ⟨-, -, hissued⟩ := hloose other capabilityId hnow
    · exact effect_issued (h.looseIssued other capabilityId hbefore)
    · exact hissued
  case apart => exact h.apart
  case looseApart =>
    intro other other' capabilityId hnow hnow'
    have hissued := h.looseIssued
    have hbefore := hloose other capabilityId hnow
    have hbefore' := hloose other' capabilityId hnow'
    grind [h.looseApart]
  case loose =>
    intro other id state capabilityId hnow hstate hheld
    obtain hbefore | ⟨-, hnew, -⟩ := hloose other capabilityId hnow
    · exact h.loose other id state capabilityId hbefore hstate hheld
    · exact hnew (h.issued id state capabilityId hstate hheld)
  case ready =>
    intro id state hstate hphase
    obtain ⟨capabilityId, hheld, hsettled | ⟨closer, hcloser, hanswer⟩⟩ :=
      h.ready id state hstate hphase
    · refine ⟨capabilityId, hheld, ?_⟩
      by_cases hrequest : request = .unregister capabilityId
      · subst hrequest
        have hcall := h.unregister_own houtstanding hstate hheld
        have hanswer : serveAnswer circumstances s.history (closeRequest capabilityId .unregister) =
          .acknowledged := h.closeAnswer hcall hunserved nofun
        exact Or.inr ⟨call, hcall, (Function.update_self ..).trans (congrArg some hanswer)⟩
      · exact Or.inl (effect_settled h.history hbound hrequest hsettled)
    · have hother : closer ≠ call := hown closer (by rw [hanswer]; exact nofun)
      exact ⟨capabilityId, hheld,
        Or.inr ⟨closer, hcloser, (Function.update_of_ne hother ..).trans hanswer⟩⟩
  case activated =>
    intro other id capabilityId policy hother hanswer
    replace hanswer := (hserved other).symm.trans hanswer
    split at hanswer
    · rename_i hsame
      subst hsame
      rw [hother] at houtstanding
      obtain rfl := Option.some.inj houtstanding
      exact settled_of_activate (Option.some.inj hanswer)
    · rename_i hne
      obtain ⟨state, hstate, -, hheld, -⟩ := h.opening other id _ hother
      exact effect_settled h.history hbound
        (hkept other id state capabilityId (busyWith_opening hother) hne hstate hheld)
        (h.activated other id capabilityId policy hother hanswer)
  case begun =>
    intro other id capabilityId step hother hstep
    obtain ⟨state, hstate, -, -, hheld⟩ := h.closing other id capabilityId step hother
    by_cases hsame : other = call
    · subst hsame
      rw [hother] at houtstanding
      obtain rfl := Option.some.inj houtstanding
      cases step with
      | beginClose => exact Or.inl (serve_beginClose (h.settled hother hunserved)).2
      | cancelExecutions =>
        obtain hclosing | ⟨hlast, -⟩ := h.begun other id capabilityId _ hother (Or.inl nofun)
        · exact Or.inl (effect_closing h.history hbound nofun hclosing)
        · cases hlast
      | unregister =>
        have hanswer : serveAnswer circumstances s.history
          (closeRequest capabilityId .unregister) = .acknowledged :=
            h.closeAnswer hother hunserved nofun
        exact Or.inr ⟨rfl, (Function.update_self ..).trans (congrArg some hanswer)⟩
    · have hunchanged : Function.update s.served call
          (some (serveAnswer circumstances s.history request)) other = s.served other :=
        Function.update_of_ne hsame ..
      have hbegun := h.begun other id capabilityId step hother
        (hstep.imp_right hunchanged.symm.trans)
      obtain hclosing | ⟨hlast, hacknowledged⟩ := hbegun
      · exact Or.inl (effect_closing h.history hbound
          (hkept other id state capabilityId (busyWith_closing hother) hsame hstate hheld) hclosing)
      · exact Or.inr ⟨hlast, hunchanged.trans hacknowledged⟩
  case answers =>
    intro other id capabilityId step answer hother hanswer
    replace hanswer := (hserved other).symm.trans hanswer
    split at hanswer
    · rename_i hsame
      subst hsame
      by_cases hstep : step = .cancelExecutions
      · exact Or.inr hstep
      · rw [hother] at houtstanding
        obtain rfl := Option.some.inj houtstanding
        rw [h.closeAnswer hother hunserved fun hcancel => absurd hcancel hstep] at hanswer
        exact Or.inl (Option.some.inj hanswer).symm
    · exact h.answers other id capabilityId step answer hother hanswer
  case unregistered =>
    intro other capabilityId hother hanswer
    replace hanswer := (hserved other).symm.trans hanswer
    split at hanswer
    · rename_i hsame
      subst hsame
      rw [hother] at houtstanding
      obtain rfl := Option.some.inj houtstanding
      exact gone_of_unregister (Option.some.inj hanswer)
    · exact effect_gone h.history hbound (h.looseIssued other capabilityId (Or.inl hother))
        (h.unregistered other capabilityId hother hanswer)
  case failed =>
    intro other capabilityId hother
    obtain ⟨hissued, hgone⟩ := h.failed other capabilityId hother
    exact ⟨effect_issued hissued, effect_gone h.history hbound hissued hgone⟩

theorem Closing.settled {history : History} {capabilityId : CapabilityId}
    (h : Closing history capabilityId) : Settled history capabilityId := by
  obtain ⟨context, hlookup, hphase⟩ := h
  refine ⟨context, hlookup, ?_⟩
  rw [hphase]
  exact nofun

/-- A call goes on with an answer that the runtime has given it, or with a
failure; not with a failure in place of the answer that its workspace is
unregistered. -/
theorem Joint.progress (h : Joint s)
    {manager : Manager HostPath FilesystemIdentity RuntimePolicy} {answer : RuntimeAnswer}
    (hprogress : Progress s.manager call answer manager)
    (hacknowledged : answer = .acknowledged → s.served call = some .acknowledged)
    (hcapability : ∀ capabilityId, answer = .capability capabilityId →
      s.served call = some (.capability capabilityId))
    (hlost : ∀ id capabilityId, s.manager.calls call = .closing id capabilityId .unregister →
      s.served call = some .acknowledged → answer = .acknowledged) :
    Joint ⟨manager, s.history, Function.update s.served call none, late⟩ := by
  cases hprogress with
  | openOn id step later f hcall hopens =>
    obtain ⟨state, hstate, hdescribes⟩ := h.opening call id step hcall
    have hbusy := busyWith_opening hcall
    have hopen := hopens state hdescribes
    have hsuits : Suits id (f state) (.opening id later) := by
      refine ⟨?_, nofun, fun hclosed => absurd hopen.describes.phase hclosed⟩
      intro id' step' heq
      obtain ⟨rfl, rfl⟩ := CallPhase.opening.inj heq
      exact ⟨rfl, hopen.describes⟩
    refine h.change (busyWith_own hbusy) (h.others hbusy) hstate
      ⟨hsuits, nofun, nofun, nofun, ?_⟩ ?_
    · exact fun hclosed => absurd hopen.describes.phase hclosed
    · obtain hsame | ⟨hnone, capabilityId, hgained, hanswer⟩ := hopen.capability
      · exact Or.inl (hopen.describes.capability.trans (hsame.trans hdescribes.capability.symm))
      · exact Or.inr ⟨hdescribes.capability.trans hnone, capabilityId,
          hopen.describes.capability.trans hgained, hcapability capabilityId hanswer⟩
  | opened id capabilityId policy hcall hanswer =>
    obtain ⟨state, hstate, -, hheld, htrust, -⟩ := h.opening call id _ hcall
    have hbusy := busyWith_opening hcall
    refine h.change (busyWith_own hbusy) (h.others hbusy) hstate
      ⟨⟨nofun, nofun, fun _ hnone => nomatch htrust.mp hnone⟩, nofun, nofun, nofun, ?_⟩
      (Or.inl rfl)
    intro _
    exact ⟨capabilityId, hheld,
      h.activated call id capabilityId policy hcall (hacknowledged hanswer)⟩
  | openStopped id step capabilityId hcall hsome =>
    obtain ⟨state, hstate, -, hheld, -⟩ := h.opening call id step hcall
    refine h.delete (busyWith_opening hcall) hstate rfl ?_ nofun
    intro held heq
    obtain rfl := CallPhase.unregistering.inj heq
    exact hheld.trans hsome
  | openFailed id step hcall hnone =>
    obtain ⟨state, hstate, -⟩ := h.opening call id step hcall
    exact h.delete (busyWith_opening hcall) hstate rfl nofun nofun
  | unregistered capabilityId hcall hanswer =>
    have hbusy : busyWith (s.manager.calls call) = none := by
      rw [hcall]
      rfl
    refine h.endCall hbusy rfl nofun ?_
    intro held heq
    obtain rfl := Option.some.inj (CallPhase.failed.inj heq)
    exact ⟨h.looseIssued call capabilityId (Or.inl hcall),
      h.unregistered call capabilityId hcall (hacknowledged hanswer)⟩
  | abandoned capabilityId hcall =>
    have hbusy : busyWith (s.manager.calls call) = none := by
      rw [hcall]
      rfl
    exact h.endCall hbusy rfl nofun nofun
  | closeOn id capabilityId step later hcall hanswer hlater =>
    obtain ⟨state, hstate, hphase, hflight, hheld⟩ := h.closing call id capabilityId step hcall
    have hbusy := busyWith_closing hcall
    have hclosing : Closing s.history capabilityId := by
      obtain hclosing | ⟨hlast, -⟩ :=
        h.begun call id capabilityId step hcall (Or.inr (hacknowledged hanswer))
      · exact hclosing
      · rw [hlast] at hlater
        cases hlater
    have hfits : Fits s id state (.closing id capabilityId later) := by
      refine ⟨⟨nofun, ?_, fun hclosed => h.bound id state hstate hclosed⟩, ?_, nofun, nofun,
        fun _ => ⟨capabilityId, hheld, hclosing.settled⟩⟩
      · intro id' held step' heq
        obtain ⟨rfl, rfl, rfl⟩ := CallPhase.closing.inj heq
        exact ⟨rfl, hphase, hflight, hheld⟩
      · intro id' held step' heq _
        obtain ⟨rfl, rfl, rfl⟩ := CallPhase.closing.inj heq
        exact hclosing
    rw [← change_same s.manager id]
    exact h.change (busyWith_own hbusy) (h.others hbusy) hstate hfits (Or.inl rfl)
  | closed id capabilityId hcall hanswer =>
    obtain ⟨state, hstate, -⟩ := h.closing call id capabilityId .unregister hcall
    exact h.delete (busyWith_closing hcall) hstate rfl nofun nofun
  | closeFailed id capabilityId step hcall hanswer =>
    obtain ⟨state, hstate, hphase, -, hheld⟩ := h.closing call id capabilityId step hcall
    have hbusy := busyWith_closing hcall
    refine h.change (busyWith_own hbusy) (h.others hbusy) hstate
      ⟨⟨nofun, nofun, h.bound id state hstate⟩, nofun, nofun, nofun, ?_⟩ (Or.inl rfl)
    intro hclosed
    obtain ⟨held, hheld', hsettled | ⟨closer, hcloser, hserved⟩⟩ := h.ready id state hstate hclosed
    · exact ⟨held, hheld', hsettled⟩
    · obtain rfl := h.alone call closer id hbusy (busyWith_closing hcloser)
      exact absurd (hlost id held hcloser hserved) hanswer

theorem Joint.unattended_settled (h : Joint s) (hstate : s.manager.workspaces id = some state)
    (hopen : state.phase ≠ .opening) (hflight : state.closeInFlight = false) :
    ∃ capabilityId, state.capabilityId = some capabilityId ∧ Settled s.history capabilityId := by
  obtain ⟨capabilityId, hheld, hsettled | ⟨closer, hcloser, -⟩⟩ := h.ready id state hstate hopen
  · exact ⟨capabilityId, hheld, hsettled⟩
  · exact absurd (busyWith_closing hcloser) (h.unattended hstate hopen hflight closer)

theorem Joint.begin (h : Joint s) {capabilityId : CapabilityId}
    (hidle : s.manager.calls call = .idle) (hstate : s.manager.workspaces id = some state)
    (hheld : state.capabilityId = some capabilityId) (hopen : state.phase ≠ .opening)
    (hflight : state.closeInFlight = false) :
    Joint ⟨(s.manager.change id fun state =>
      { state with phase := .closing, closeInFlight := true }).setCall call
        (.closing id capabilityId .beginClose), s.history, s.served, s.late⟩ := by
  have howner : ∀ id', busyWith (s.manager.calls call) = some id' → id' = id := by
    rw [hidle]
    exact nofun
  have hothers := h.unattended hstate hopen hflight
  have hsettled := h.unattended_settled hstate hopen hflight
  have hfits : Fits s id { state with phase := .closing, closeInFlight := true }
      (.closing id capabilityId .beginClose) := by
    refine ⟨⟨nofun, ?_, fun _ => h.bound id state hstate hopen⟩, ?_, nofun, nofun, fun _ => hsettled⟩
    · intro id' held step heq
      obtain ⟨rfl, rfl, rfl⟩ := CallPhase.closing.inj heq
      exact ⟨rfl, rfl, rfl, hheld⟩
    · intro id' held step heq hstep
      obtain ⟨-, -, rfl⟩ := CallPhase.closing.inj heq
      exact absurd rfl hstep
  have hchange : Joint ⟨_, _, _, s.late⟩ :=
    h.change (f := fun state => { state with phase := .closing, closeInFlight := true }) howner
      (fun other _ => hothers other) hstate hfits (Or.inl rfl)
  rwa [Function.update_eq_self_iff.mpr (h.unserved hidle).symm] at hchange

theorem Joint.reject (h : Joint s) (error : ManagerError) (hidle : s.manager.calls call = .idle) :
    Joint ⟨s.manager.setCall call (.rejected error), s.history, s.served, s.late⟩ := by
  have hbusy : busyWith (s.manager.calls call) = none := by
    rw [hidle]
    rfl
  have hend : Joint ⟨s.manager.setCall call (.rejected error), _, _, s.late⟩ :=
    h.endCall hbusy rfl nofun nofun
  rwa [Function.update_eq_self_iff.mpr (h.unserved hidle).symm] at hend

end Steps

def accepted (history : History) (request : Request) : Bool :=
  match answer history.registry request with
  | .ok _ => true
  | .error _ => false

def held (m : Manager HostPath FilesystemIdentity RuntimePolicy) (capabilityId : CapabilityId) :
    Bool :=
  m.order.any fun id => (m.workspaces id).any fun state => state.capabilityId == some capabilityId

def isAcknowledged : Option RuntimeAnswer → Bool
  | some .acknowledged => true
  | _ => false

def isLastOfClose : CallPhase HostPath FilesystemIdentity RuntimePolicy → Bool
  | .closing _ _ .unregister => true
  | _ => false

/-- No close gives up when its workspace is unregistered already, no request
that a caller has given up unregisters a workspace of the map, and the counter
of the capabilities has not wrapped. -/
def Calm (s : System) : SystemEvent → Bool
  | .serve _ _ => decide (s.history.issued.length < 2 ^ 64)
  | .serveLate index _ =>
    decide (s.history.issued.length < 2 ^ 64) &&
      match s.late[index]? with
      | some (.unregister capabilityId) =>
        !(accepted s.history (.unregister capabilityId) && held s.manager capabilityId)
      | _ => true
  | .fail call => !(isLastOfClose (s.manager.calls call) && isAcknowledged (s.served call))
  | _ => true

theorem effect_rejected {circumstances : Circumstances} {history : History}
    {capabilityId : CapabilityId}
    (h : accepted history (.unregister capabilityId) = false) :
    serveEffect circumstances history (.unregister capabilityId) = history := by
  show history.serve (.unregister capabilityId) = history
  unfold accepted at h
  unfold History.serve
  split
  · rfl
  · rename_i hanswer
    rw [hanswer] at h
    cases h

section Calm

variable {s : System}

theorem Joint.held (h : Joint s) {id : WorkspaceId} {state : WorkspaceState HostPath RuntimePolicy}
    {capabilityId : CapabilityId} (hstate : s.manager.workspaces id = some state)
    (hheld : state.capabilityId = some capabilityId) : held s.manager capabilityId = true := by
  apply List.any_eq_true.mpr
  refine ⟨id, h.listed id state hstate, ?_⟩
  rw [hstate]
  exact beq_iff_eq.mpr hheld

theorem Joint.serveLate (h : Joint s) {circumstances : Circumstances} {request : RuntimeRequest}
    {late : List RuntimeRequest} (hbound : s.history.issued.length < 2 ^ 64)
    (hcalm : ∀ capabilityId, request = .unregister capabilityId →
      (accepted s.history (.unregister capabilityId) && ClosingRetries.held s.manager capabilityId)
        = false) :
    Joint ⟨s.manager, serveEffect circumstances s.history request, s.served, late⟩ := by
  by_cases hrejected : ∃ capabilityId, request = .unregister capabilityId ∧
      accepted s.history (.unregister capabilityId) = false
  · obtain ⟨capabilityId, rfl, hrejected⟩ := hrejected
    rw [effect_rejected hrejected]
    exact ⟨h.toAttended, h.history, h.served, h.issued, h.looseIssued,
      h.apart, h.looseApart, h.loose, h.ready, h.activated, h.begun, h.answers, h.unregistered,
      h.failed⟩
  · refine h.effect hbound ?_
    rintro id state capabilityId hstate hheld rfl
    have haccepted : accepted s.history (.unregister capabilityId) = true := by
      by_contra hnot
      exact hrejected ⟨capabilityId, rfl, Bool.eq_false_iff.mpr hnot⟩
    have hboth := hcalm capabilityId rfl
    rw [haccepted, h.held hstate hheld] at hboth
    cases hboth

theorem settle_eq_some {resolveProfile : RuntimePolicy → RuntimePolicy → Option RuntimePolicy}
    {s t : System} {call : CallId} {answer : RuntimeAnswer} {late : List RuntimeRequest}
    (h : s.settle resolveProfile call answer late = some t) :
    ∃ manager, s.manager.answered resolveProfile call answer = some manager ∧
      t = ⟨manager, s.history, Function.update s.served call none, late⟩ := by
  obtain ⟨manager, hanswered, rfl⟩ := Option.map_eq_some_iff.mp h
  exact ⟨manager, hanswered, rfl⟩

theorem isIdle_iff {phase : CallPhase HostPath FilesystemIdentity RuntimePolicy} :
    isIdle phase = true ↔ phase = .idle := by
  cases phase <;> simp [isIdle]

theorem Joint.openWorkspace (h : Joint s) {call : CallId} (id : WorkspaceId)
    (rootPath : Option HostPath) (hidle : s.manager.calls call = .idle) :
    Joint { s with manager := s.manager.openWorkspace call id rootPath } := by
  unfold Manager.openWorkspace
  split
  · exact h.reject .invalidArgument hidle
  · exact h.reject .idCollision hidle
  · rename_i hfree
    exact h.insert hidle hfree

theorem Joint.closeWorkspace (h : Joint s) {call : CallId} (id : WorkspaceId)
    (hidle : s.manager.calls call = .idle) :
    Joint { s with manager := s.manager.closeWorkspace call id } := by
  unfold Manager.closeWorkspace
  split
  · exact h.reject .notFound hidle
  · rename_i state hstate
    split
    · exact h.reject .notReady hidle
    · rename_i capabilityId hheld
      split
      · exact h.reject .notReady hidle
      · rename_i hfree
        rw [not_or, Bool.not_eq_true] at hfree
        exact h.begin hidle hstate hheld hfree.1 hfree.2

end Calm

/-- The step lemma: a calm step keeps the manager and the registry in accord. -/
theorem joint_next {resolveProfile : RuntimePolicy → RuntimePolicy → Option RuntimePolicy}
    (s : System) (event : SystemEvent) (t : System) (h : Joint s) (hcalm : Calm s event = true)
    (hnext : System.next resolveProfile s event = some t) : Joint t := by
  cases event with
  | openWorkspace call id rootPath =>
    rw [System.next] at hnext
    split at hnext
    · rename_i hidle
      obtain rfl := Option.some.inj hnext
      exact h.openWorkspace id rootPath (isIdle_iff.mp hidle)
    · cases hnext
  | closeWorkspace call id =>
    rw [System.next] at hnext
    split at hnext
    · rename_i hidle
      obtain rfl := Option.some.inj hnext
      exact h.closeWorkspace id (isIdle_iff.mp hidle)
    · cases hnext
  | trust call entry =>
    rw [System.next] at hnext
    split at hnext
    · rename_i htrusting
      obtain ⟨manager, hanswered, rfl⟩ := settle_eq_some hnext
      refine h.progress (answered_progress hanswered) ?_ ?_ ?_
      · cases entry <;> exact nofun
      · cases entry <;> exact nofun
      · intro id capabilityId hcall
        rw [hcall] at htrusting
        cases htrusting
    · cases hnext
  | serve call circumstances =>
    rw [System.next] at hnext
    split at hnext
    · rename_i houtstanding hunserved
      obtain rfl := Option.some.inj hnext
      exact h.serve (of_decide_eq_true hcalm) houtstanding hunserved
    · cases hnext
  | deliver call =>
    rw [System.next] at hnext
    split at hnext
    · rename_i answer hanswer
      obtain ⟨manager, hanswered, rfl⟩ := settle_eq_some hnext
      refine h.progress (answered_progress hanswered) ?_ ?_ ?_
      · rintro rfl
        exact hanswer
      · rintro capabilityId rfl
        exact hanswer
      · intro id capabilityId _ hserved
        rw [hserved] at hanswer
        exact (Option.some.inj hanswer).symm
    · cases hnext
  | fail call =>
    have hlost : ∀ id capabilityId, s.manager.calls call = .closing id capabilityId .unregister →
        s.served call = some .acknowledged → (.failure : RuntimeAnswer) = .acknowledged := by
      intro id capabilityId hcall hserved
      rw [Calm, hcall, hserved] at hcalm
      cases hcalm
    rw [System.next] at hnext
    split at hnext
    · obtain ⟨manager, hanswered, rfl⟩ := settle_eq_some hnext
      exact h.progress (answered_progress hanswered) nofun nofun hlost
    · obtain ⟨manager, hanswered, rfl⟩ := settle_eq_some hnext
      exact h.progress (answered_progress hanswered) nofun nofun hlost
    · cases hnext
  | serveLate index circumstances =>
    rw [Calm, Bool.and_eq_true] at hcalm
    rw [System.next] at hnext
    split at hnext
    · rename_i request hrequest
      obtain rfl := Option.some.inj hnext
      refine h.serveLate (of_decide_eq_true hcalm.1) ?_
      rintro capabilityId rfl
      rw [hrequest] at hcalm
      exact (Bool.not_eq_true' _).mp hcalm.2
    · cases hnext

/-- The run lemma. -/
theorem joint_of_calm {resolveProfile : RuntimePolicy → RuntimePolicy → Option RuntimePolicy}
    {processId : Nat} {events : List SystemEvent} {s : System}
    (hcalm : AllSteps (System.next resolveProfile) (fun s event => Calm s event = true)
      (System.started processId) events)
    (hrun : exec (System.next resolveProfile) (System.started processId) events = some s) :
    Joint s :=
  exec_invariant joint_next (joint_started processId) hcalm hrun

/-- No calm is needed for this. -/
theorem attended_next {resolveProfile : RuntimePolicy → RuntimePolicy → Option RuntimePolicy}
    (s : System) (event : SystemEvent) (t : System) (h : Attended s.manager)
    (hnext : System.next resolveProfile s event = some t) : Attended t.manager := by
  have hsettle : ∀ call answer late, s.settle resolveProfile call answer late = some t →
      Attended t.manager := by
    intro call answer late hsettle
    obtain ⟨manager, hanswered, rfl⟩ := settle_eq_some hsettle
    exact h.progress (answered_progress hanswered)
  cases event <;> rw [System.next] at hnext <;> split at hnext <;>
    first
    | exact hsettle _ _ _ hnext
    | cases hnext <;> first | exact h | exact h.openWorkspace _ _ | exact h.closeWorkspace _

/-- However requests fail, and whenever they have their effect, no two calls are busy with one
workspace, and each finds it as it has left it. -/
theorem attended_of_run {resolveProfile : RuntimePolicy → RuntimePolicy → Option RuntimePolicy}
    {processId : Nat} {events : List SystemEvent} {s : System}
    (hrun : exec (System.next resolveProfile) (System.started processId) events = some s) :
    Attended s.manager :=
  exec_invariant (fun s event t h _ => attended_next s event t h) attended_started
    (AllSteps.of_forall (fun _ _ => trivial) _ _) hrun

theorem unanswered_attended : Attended ((exec (System.next fun _ _ => none) (System.started 0)
    [.openWorkspace 0 "w" (some [.rootDir]), .fail 0]).get rfl).manager :=
  attended_of_run (Option.some_get _).symm

def retry (call : CallId) (id : WorkspaceId) (circumstances : CloseStep → Circumstances) :
    List SystemEvent :=
  [.closeWorkspace call id,
    .serve call (circumstances .beginClose), .deliver call,
    .serve call (circumstances .cancelExecutions), .deliver call,
    .serve call (circumstances .unregister), .deliver call]

/-- Where a call has closed its workspace. -/
def ClosedBy (call : CallId) (id : WorkspaceId) (later : System) : Prop :=
  later.manager.calls call = .closed id ∧ later.manager.workspaces id = none

/-- Any later close whose executions can be cancelled takes the workspace out of
the map. -/
def Closable (resolveProfile : RuntimePolicy → RuntimePolicy → Option RuntimePolicy) (s : System)
    (id : WorkspaceId) : Prop :=
  ∀ call circumstances, s.manager.calls call = .idle →
    (circumstances .cancelExecutions : Circumstances).cancelled = true →
      ∃ later, exec (System.next resolveProfile) s (retry call id circumstances) = some later ∧
        ClosedBy call id later

section Retry

variable {resolveProfile : RuntimePolicy → RuntimePolicy → Option RuntimePolicy} {s : System}
  {call : CallId} {id : WorkspaceId} {capabilityId : CapabilityId} {step : CloseStep}
  {circumstances : Circumstances}

theorem exec_acknowledged (hcall : s.manager.calls call = .closing id capabilityId step)
    (hunserved : s.served call = none)
    (hanswer : serveAnswer circumstances s.history (closeRequest capabilityId step) =
      .acknowledged) :
    exec (System.next resolveProfile) s [.serve call circumstances, .deliver call] =
      some ⟨s.manager.closeAnswered call id capabilityId step .acknowledged,
        serveEffect circumstances s.history (closeRequest capabilityId step), s.served, s.late⟩ := by
  have hserve : System.next resolveProfile s (.serve call circumstances) =
      some ⟨s.manager, serveEffect circumstances s.history (closeRequest capabilityId step),
        Function.update s.served call (some .acknowledged), s.late⟩ := by
    simp only [System.next, hcall, outstanding, hunserved, hanswer]
  have hanswered : s.manager.answered resolveProfile call .acknowledged =
      some (s.manager.closeAnswered call id capabilityId step .acknowledged) := by
    rw [Manager.answered, hcall]
  have hrestored : Function.update (Function.update s.served call (some .acknowledged)) call none =
      s.served := by
    rw [Function.update_idem, Function.update_eq_self_iff, hunserved]
  rw [exec_cons, hserve, Option.bind_some, exec_cons]
  simp only [System.next, Function.update_self, System.settle, hanswered, Option.map_some,
    Option.bind_some, exec_nil, hrestored]

theorem exec_unregister (capabilityId : CapabilityId)
    (hcall : s.manager.calls call = .closing id capabilityId .unregister)
    (hunserved : s.served call = none) (hclosing : Closing s.history capabilityId)
    (last : Circumstances) :
    ∃ later, exec (System.next resolveProfile) s [.serve call last, .deliver call] = some later ∧
      ClosedBy call id later := by
  refine ⟨_, exec_acknowledged hcall hunserved (serve_unregister hclosing), ?_, ?_⟩
  · simp [Manager.closeAnswered, CloseStep.following]
  · simp [Manager.closeAnswered, CloseStep.following]

theorem exec_cancelExecutions (capabilityId : CapabilityId)
    (hcall : s.manager.calls call = .closing id capabilityId .cancelExecutions)
    (hunserved : s.served call = none) (hclosing : Closing s.history capabilityId)
    (hcancelled : circumstances.cancelled = true) (last : Circumstances) :
    ∃ later, exec (System.next resolveProfile) s
        ([.serve call circumstances, .deliver call] ++ [.serve call last, .deliver call]) =
      some later ∧ ClosedBy call id later := by
  obtain ⟨hanswer, hstill⟩ := serve_cancelExecutions hclosing
  have hacknowledged : serveAnswer circumstances s.history
      (closeRequest capabilityId .cancelExecutions) = .acknowledged := by
    rw [closeRequest, serveAnswer, if_pos hcancelled, hanswer]
  rw [exec_append, exec_acknowledged hcall hunserved hacknowledged, Option.bind_some]
  apply exec_unregister capabilityId
  · simp [Manager.closeAnswered, CloseStep.following]
  · exact hunserved
  · exact hstill

theorem exec_beginClose (capabilityId : CapabilityId)
    (hcall : s.manager.calls call = .closing id capabilityId .beginClose)
    (hunserved : s.served call = none) (hsettled : Settled s.history capabilityId)
    (first : Circumstances) (hcancelled : circumstances.cancelled = true) (last : Circumstances) :
    ∃ later, exec (System.next resolveProfile) s
        ([.serve call first, .deliver call] ++
          ([.serve call circumstances, .deliver call] ++ [.serve call last, .deliver call])) =
      some later ∧ ClosedBy call id later := by
  obtain ⟨hanswer, hclosing⟩ := serve_beginClose hsettled
  rw [exec_append, exec_acknowledged hcall hunserved hanswer, Option.bind_some]
  apply exec_cancelExecutions capabilityId
  · simp [Manager.closeAnswered, CloseStep.following]
  · exact hunserved
  · exact hclosing
  · exact hcancelled

theorem Joint.closable (h : Joint s) {state : WorkspaceState HostPath RuntimePolicy}
    (hstate : s.manager.workspaces id = some state) (hphase : state.phase = .closing)
    (hflight : state.closeInFlight = false) : Closable resolveProfile s id := by
  intro call circumstances hidle hcancelled
  have hopen : state.phase ≠ .opening := by
    rw [hphase]
    exact nofun
  obtain ⟨capabilityId, hheld, hsettled⟩ := h.unattended_settled hstate hopen hflight
  have hclose : System.next resolveProfile s (.closeWorkspace call id) =
      some ⟨(s.manager.change id fun state =>
        { state with phase := .closing, closeInFlight := true }).setCall call
          (.closing id capabilityId .beginClose), s.history, s.served, s.late⟩ := by
    simp [System.next, hidle, isIdle, Manager.closeWorkspace, hstate, hheld, hopen, hflight]
  rw [retry, exec_cons, hclose, Option.bind_some]
  apply exec_beginClose capabilityId
  · simp
  · exact h.unserved hidle
  · exact hsettled
  · exact hcancelled

/-- What a close that is under way is answered, it is acknowledged, but for a
cancellation. -/
def Acknowledging (s : System) : Prop :=
  ∀ call id capabilityId step answer, s.manager.calls call = .closing id capabilityId step →
    s.served call = some answer → answer = .acknowledged ∨ step = .cancelExecutions

end Retry

section Calls

variable {resolveProfile : RuntimePolicy → RuntimePolicy → Option RuntimePolicy} {s t : System}

theorem settle_calls {call other : CallId} {answer : RuntimeAnswer} {late : List RuntimeRequest}
    (h : s.settle resolveProfile call answer late = some t) (hother : other ≠ call) :
    t.manager.calls other = s.manager.calls other := by
  obtain ⟨manager, hanswered, rfl⟩ := settle_eq_some h
  exact (answered_progress hanswered).calls hother

theorem next_calls {event : SystemEvent} (h : System.next resolveProfile s event = some t) :
    ∃ call, ∀ other, other ≠ call → t.manager.calls other = s.manager.calls other := by
  cases event with
  | openWorkspace call id rootPath =>
    refine ⟨call, fun other hother => ?_⟩
    rw [System.next] at h
    split at h
    · obtain rfl := Option.some.inj h
      unfold Manager.openWorkspace
      split <;> simp [hother]
    · cases h
  | closeWorkspace call id =>
    refine ⟨call, fun other hother => ?_⟩
    rw [System.next] at h
    split at h
    · obtain rfl := Option.some.inj h
      unfold Manager.closeWorkspace
      grind
    · cases h
  | trust call entry =>
    refine ⟨call, fun other hother => ?_⟩
    rw [System.next] at h
    split at h
    · exact settle_calls h hother
    · cases h
  | serve call circumstances =>
    refine ⟨call, fun other _ => ?_⟩
    rw [System.next] at h
    split at h
    · obtain rfl := Option.some.inj h
      rfl
    · cases h
  | deliver call =>
    refine ⟨call, fun other hother => ?_⟩
    rw [System.next] at h
    split at h
    · exact settle_calls h hother
    · cases h
  | fail call =>
    refine ⟨call, fun other hother => ?_⟩
    rw [System.next] at h
    split at h
    · exact settle_calls h hother
    · exact settle_calls h hother
    · cases h
  | serveLate index circumstances =>
    refine ⟨0, fun other _ => ?_⟩
    rw [System.next] at h
    split at h
    · obtain rfl := Option.some.inj h
      rfl
    · cases h

theorem idle_exec {processId : Nat} {events : List SystemEvent}
    (hrun : exec (System.next resolveProfile) (System.started processId) events = some s) :
    ∃ bound : Nat, ∀ call : Nat, bound ≤ call → s.manager.calls call = .idle := by
  have hstep : ∀ (s : System) (event : SystemEvent) (t : System),
      (∃ bound : Nat, ∀ call : Nat, bound ≤ call → s.manager.calls call = .idle) → True →
        System.next resolveProfile s event = some t →
          ∃ bound : Nat, ∀ call : Nat, bound ≤ call → t.manager.calls call = .idle := by
    rintro s event t ⟨bound, hidle⟩ - hnext
    obtain ⟨changed, hcalls⟩ := next_calls hnext
    refine ⟨max bound (changed + 1), ?_⟩
    intro call hcall
    obtain ⟨hbound, hchanged⟩ := Nat.max_le.mp hcall
    rw [hcalls call (Nat.ne_of_gt hchanged)]
    exact hidle call hbound
  exact exec_invariant hstep ⟨0, fun _ _ => rfl⟩ (AllSteps.of_forall (fun _ _ => trivial) _ _) hrun

end Calls

/-- Every workspace that is left CLOSING can be closed by a call to come. -/
def Recoverable (resolveProfile : RuntimePolicy → RuntimePolicy → Option RuntimePolicy)
    (s : System) : Prop :=
  (∃ call, s.manager.calls call = .idle) ∧
    ∀ id state, s.manager.workspaces id = some state → state.phase = .closing →
      state.closeInFlight = false → Closable resolveProfile s id

/-- An open that has failed, and has had its unregistering acknowledged, leaves
no capability. -/
def Released (s : System) : Prop :=
  ∀ call capabilityId, s.manager.calls call = .failed (some capabilityId) →
    Gone s.history capabilityId

theorem closing_recoverable (resolveProfile : RuntimePolicy → RuntimePolicy → Option RuntimePolicy)
    (processId : Nat) (events : List SystemEvent) (s : System)
    (hrun : exec (System.next resolveProfile) (System.started processId) events = some s)
    (hcalm : AllSteps (System.next resolveProfile) (fun s event => Calm s event = true)
      (System.started processId) events) :
    Recoverable resolveProfile s ∧ Acknowledging s ∧ Released s := by
  have hjoint := joint_of_calm hcalm hrun
  obtain ⟨bound, hidle⟩ := idle_exec hrun
  refine ⟨⟨⟨bound, hidle bound (Nat.le_refl bound)⟩, ?_⟩, hjoint.answers, ?_⟩
  · exact fun id state hstate hphase hflight => hjoint.closable hstate hphase hflight
  · exact fun call capabilityId hcall => (hjoint.failed call capabilityId hcall).2

def allCancelled : Circumstances := ⟨singleDirectoryHost, some none, true⟩

def answeredInTime (call : CallId) : List SystemEvent :=
  [.serve call allCancelled, .deliver call]

def openEvents (call : CallId) (id : WorkspaceId) : List SystemEvent :=
  [.openWorkspace call id (some [.rootDir, .normal "w"])] ++ answeredInTime call ++
    [.trust call (some (utf8 "trust", observePolicy))] ++ answeredInTime call ++ answeredInTime call ++
      answeredInTime call ++ answeredInTime call

def closeEvents (call : CallId) (id : WorkspaceId) (last : List SystemEvent) : List SystemEvent :=
  [.closeWorkspace call id] ++ answeredInTime call ++ answeredInTime call ++ last ++ [.fail call]

def unprofiled (ceiling _ : RuntimePolicy) : Option RuntimePolicy :=
  some ceiling

def leftClosing (s : System) (id : WorkspaceId) : Bool :=
  (s.manager.workspaces id).any fun state => state.phase == .closing && !state.closeInFlight

theorem leftClosing_iff {s : System} {id : WorkspaceId} (h : leftClosing s id = true) :
    ∃ state, s.manager.workspaces id = some state ∧ state.phase = .closing ∧
      state.closeInFlight = false := by
  obtain ⟨state, hstate, hleft⟩ := (Option.any_eq_true _ _).mp h
  rw [Bool.and_eq_true, beq_iff_eq, Bool.not_eq_true'] at hleft
  exact ⟨state, hstate, hleft⟩

/-- A close whose last request is not sent before the deadline, and a later one. -/
theorem closing_recoverable_unsent :
    ∃ s, exec (System.next unprofiled) (System.started 1)
        (openEvents 0 "workspace" ++ closeEvents 1 "workspace" []) = some s ∧
      leftClosing s "workspace" = true ∧ Closable unprofiled s "workspace" := by
  have hcalm : AllSteps (System.next unprofiled) (fun s event => Calm s event = true)
      (System.started 1) (openEvents 0 "workspace" ++ closeEvents 1 "workspace" []) := by
    decide
  have hsome : (exec (System.next unprofiled) (System.started 1)
      (openEvents 0 "workspace" ++ closeEvents 1 "workspace" [])).any
        (leftClosing · "workspace") = true := by
    decide
  obtain ⟨s, hrun, hleft⟩ := (Option.any_eq_true _ _).mp hsome
  obtain ⟨state, hstate, hphase, hflight⟩ := leftClosing_iff hleft
  have hrecoverable := (closing_recoverable unprofiled 1 _ s hrun hcalm).1.2
  exact ⟨s, hrun, hleft, hrecoverable "workspace" state hstate hphase hflight⟩

/-- The runtime unregisters the workspace, and its answer misses the deadline. -/
theorem closing_not_recoverable :
    ∃ s, exec (System.next unprofiled) (System.started 1)
        (openEvents 0 "workspace" ++ closeEvents 1 "workspace" [.serve 1 allCancelled]) = some s ∧
      ¬ Recoverable unprofiled s := by
  have hsome : (exec (System.next unprofiled) (System.started 1)
      (openEvents 0 "workspace" ++ closeEvents 1 "workspace" [.serve 1 allCancelled])).any
        (fun s => leftClosing s "workspace" && isIdle (s.manager.calls 2) &&
          (exec (System.next unprofiled) s
            (retry 2 "workspace" fun _ => allCancelled)).isNone) = true := by
    decide
  obtain ⟨s, hrun, hstuck⟩ := (Option.any_eq_true _ _).mp hsome
  rw [Bool.and_eq_true, Bool.and_eq_true] at hstuck
  obtain ⟨⟨hleft, hidle⟩, hnone⟩ := hstuck
  obtain ⟨state, hstate, hphase, hflight⟩ := leftClosing_iff hleft
  refine ⟨s, hrun, ?_⟩
  rintro ⟨-, hclosable⟩
  obtain ⟨later, hretry, -⟩ := hclosable "workspace" state hstate hphase hflight 2
    (fun _ => allCancelled) (isIdle_iff.mp hidle) rfl
  rw [hretry] at hnone
  cases hnone

end KodeGpt.ClosingRetries
