import KodeGpt.FallibleActions
import KodeGpt.PolicyRestriction
import KodeGpt.TransitionSystem
import KodeGpt.WorkspaceContexts

/-!
What any sequence of calls on the workspace registry keeps: the roots stay
apart, the policies stay under their ceilings, a context only moves forward
through its phases, and an issued capability id names one context for good.
-/

namespace KodeGpt.WorkspaceRegistryRuns

open HostRoots KeyedFamily PolicyRestriction TransitionSystem WorkspaceContexts
open FallibleActions (map_eq_ok_iff)

abbrev Registry := WorkspaceRegistry RuntimePolicy

abbrev Context := WorkspaceSecurityContext RuntimePolicy

inductive Request
  | register (host : Host) (rootPath : HostPath) (expectedIdentity : FilesystemIdentity)
      (ceiling : RuntimePolicy)
  | restrictPolicy (capabilityId : String) (restriction : RuntimePolicy)
  | activate (capabilityId : String)
  | beginClose (capabilityId : String)
  | cancelExecutions (capabilityId : String)
  | unregister (capabilityId : String)

/-- The answer to a request: the capability id it issues, if it is a
registration, and the registry after it. -/
def answer (registry : Registry) :
    Request → Except WorkspaceRegistryError (Option String × Registry)
  | .register host rootPath expectedIdentity ceiling =>
    (register registry host rootPath expectedIdentity ceiling).map fun result =>
      (some result.1, result.2)
  | .restrictPolicy capabilityId restriction =>
    (restrictPolicyWith registry capabilityId restriction restrictPolicy).map fun after =>
      (none, after)
  | .activate capabilityId => (activate registry capabilityId).map fun after => (none, after)
  | .beginClose capabilityId => (beginClose registry capabilityId).map fun after => (none, after)
  | .cancelExecutions capabilityId =>
    (cancelExecutions registry capabilityId).map fun after => (none, after)
  | .unregister capabilityId => (unregister registry capabilityId).map fun after => (none, after)

/-- The registry together with every capability id it has issued so far. -/
structure History where
  registry : Registry
  issued : List String

def History.start (processId : Nat) : History where
  registry := initial RuntimePolicy processId
  issued := []

def History.serve (history : History) (request : Request) : History :=
  match answer history.registry request with
  | .error _ => history
  | .ok (capabilityId, registry) =>
    { registry, issued := history.issued ++ capabilityId.toList }

def History.serveAll (history : History) (requests : List Request) : History :=
  requests.foldl History.serve history

/-- How one call may change a context that stays registered. -/
inductive ContextStep (context : Context) : Context → Prop
  | restrict (restriction : RuntimePolicy) (hphase : context.phase = .opening)
      (hweaker : NoStronger restriction context.effectivePolicy) :
      ContextStep context { context with effectivePolicy := restriction }
  | activate (hphase : context.phase = .opening) :
      ContextStep context { context with phase := .ready }
  | beginClose (hphase : context.phase = .ready) :
      ContextStep context { context with phase := .closing }

/-- Everything that an accepted request can do to the registry. -/
inductive RegistryStep (registry : Registry) : Option String → Registry → Prop
  | register (root : RootIdentity) (ceiling : RuntimePolicy)
      (hapart : ∀ key context, registry.contexts.lookup key = some context →
        rootsOverlap context.root root = false) :
      RegistryStep registry (some (nextCapabilityId registry).1)
        { (nextCapabilityId registry).2 with
          contexts := registry.contexts.insert (nextCapabilityId registry).1
            { capabilityId := (nextCapabilityId registry).1, root, ceiling,
              effectivePolicy := ceiling, phase := .opening } }
  | change (capabilityId : String) (context changed : Context)
      (hlookup : registry.contexts.lookup capabilityId = some context)
      (hchange : ContextStep context changed) :
      RegistryStep registry none
        { registry with contexts := registry.contexts.insert capabilityId changed }
  | remove (capabilityId : String) :
      RegistryStep registry none
        { registry with contexts := registry.contexts.erase capabilityId }
  | keep : RegistryStep registry none registry

section Operations

variable {registry after : Registry} {capabilityId : String}

theorem register_step {host : Host} {rootPath : HostPath} {expectedIdentity : FilesystemIdentity}
    {ceiling : RuntimePolicy} {issued : String}
    (h : register registry host rootPath expectedIdentity ceiling = .ok (issued, after)) :
    RegistryStep registry (some issued) after := by
  unfold register at h
  split at h
  · cases h
  · rename_i root hroot
    split at h
    · cases h
    · rename_i hapart
      obtain ⟨rfl, rfl⟩ := Prod.mk.inj (Except.ok.inj h)
      exact .register root ceiling (anyValue_eq_false_iff.mp (Bool.not_eq_true _ ▸ hapart))

theorem restrictPolicyWith_step {restriction : RuntimePolicy}
    (h : restrictPolicyWith registry capabilityId restriction restrictPolicy = .ok after) :
    RegistryStep registry none after := by
  unfold restrictPolicyWith at h
  split at h
  · cases h
  · rename_i context hlookup
    split at h
    · cases h
    · rename_i hphase
      split at h
      · cases h
      · rename_i policy hpolicy
        obtain ⟨rfl, hweaker⟩ := restrictPolicy_eq_ok_iff.mp hpolicy
        obtain rfl := Except.ok.inj h
        exact .change capabilityId context _ hlookup
          (.restrict policy (not_not.mp hphase) hweaker)

theorem activate_step (h : activate registry capabilityId = .ok after) :
    RegistryStep registry none after := by
  unfold activate at h
  split at h
  · cases h
  · rename_i context hlookup
    split at h
    · cases h
    · rename_i hphase
      obtain rfl := Except.ok.inj h
      exact .change capabilityId context _ hlookup (.activate (not_not.mp hphase))

theorem beginClose_step (h : beginClose registry capabilityId = .ok after) :
    RegistryStep registry none after := by
  unfold beginClose at h
  split at h
  · cases h
  · rename_i context hlookup
    split at h
    · cases h
    · rename_i hphase
      obtain rfl := Except.ok.inj h
      exact .change capabilityId context _ hlookup (.beginClose hphase)
    · obtain rfl := Except.ok.inj h
      exact .keep

theorem cancelExecutions_step (h : cancelExecutions registry capabilityId = .ok after) :
    RegistryStep registry none after := by
  unfold cancelExecutions at h
  split at h
  · cases h
  · split at h
    · cases h
    · obtain rfl := Except.ok.inj h
      exact .keep

theorem unregister_step (h : unregister registry capabilityId = .ok after) :
    RegistryStep registry none after := by
  unfold unregister at h
  split at h
  · cases h
  · split at h
    · cases h
    · obtain rfl := Except.ok.inj h
      exact .remove capabilityId

end Operations

theorem answer_step {registry after : Registry} {request : Request} {issued : Option String}
    (h : answer registry request = .ok (issued, after)) : RegistryStep registry issued after := by
  cases request with
  | register host rootPath expectedIdentity ceiling =>
    obtain ⟨⟨id, registry'⟩, hregister, heq⟩ := map_eq_ok_iff.mp h
    obtain ⟨rfl, rfl⟩ := Prod.mk.inj heq
    exact register_step hregister
  | restrictPolicy capabilityId restriction =>
    obtain ⟨registry', hrestrict, heq⟩ := map_eq_ok_iff.mp h
    obtain ⟨rfl, rfl⟩ := Prod.mk.inj heq
    exact restrictPolicyWith_step hrestrict
  | activate capabilityId =>
    obtain ⟨registry', hactivate, heq⟩ := map_eq_ok_iff.mp h
    obtain ⟨rfl, rfl⟩ := Prod.mk.inj heq
    exact activate_step hactivate
  | beginClose capabilityId =>
    obtain ⟨registry', hclose, heq⟩ := map_eq_ok_iff.mp h
    obtain ⟨rfl, rfl⟩ := Prod.mk.inj heq
    exact beginClose_step hclose
  | cancelExecutions capabilityId =>
    obtain ⟨registry', hcancel, heq⟩ := map_eq_ok_iff.mp h
    obtain ⟨rfl, rfl⟩ := Prod.mk.inj heq
    exact cancelExecutions_step hcancel
  | unregister capabilityId =>
    obtain ⟨registry', hremove, heq⟩ := map_eq_ok_iff.mp h
    obtain ⟨rfl, rfl⟩ := Prod.mk.inj heq
    exact unregister_step hremove

/-- A served request takes the registry one step; a rejected one keeps it. -/
theorem serve_step (history : History) (request : Request) :
    ∃ issued after, RegistryStep history.registry issued after ∧
      history.serve request = { registry := after, issued := history.issued ++ issued.toList } := by
  unfold History.serve
  split
  · exact ⟨none, history.registry, .keep, by simp⟩
  · rename_i issued after hanswer
    exact ⟨issued, after, answer_step hanswer, rfl⟩

def phaseRank : WorkspacePhase → Nat
  | .opening => 0
  | .ready => 1
  | .closing => 2

def phaseSuccessor : WorkspacePhase → Option WorkspacePhase
  | .opening => some .ready
  | .ready => some .closing
  | .closing => none

/-- What a later sight of a context shares with an earlier one: the root and
the ceiling, a policy that was only weakened, and not even that once the
earlier one was past its opening, and a phase that only advanced. -/
structure Evolves (context later : Context) : Prop where
  root : later.root = context.root
  ceiling : later.ceiling = context.ceiling
  weaker : NoStronger later.effectivePolicy context.effectivePolicy
  frozen : context.phase ≠ .opening → later.effectivePolicy = context.effectivePolicy
  forward : phaseRank context.phase ≤ phaseRank later.phase

theorem Evolves.refl (context : Context) : Evolves context context :=
  ⟨rfl, rfl, NoStronger.refl _, fun _ => rfl, Nat.le_refl _⟩

theorem phase_ne_opening_of_le {phase later : WorkspacePhase}
    (hle : phaseRank phase ≤ phaseRank later) (hphase : phase ≠ .opening) : later ≠ .opening := by
  revert hle hphase
  cases phase <;> cases later <;> decide

theorem Evolves.trans {context middle later : Context} (h : Evolves context middle)
    (h' : Evolves middle later) : Evolves context later where
  root := h'.root.trans h.root
  ceiling := h'.ceiling.trans h.ceiling
  weaker := h'.weaker.trans h.weaker
  frozen := by
    intro hphase
    rw [h'.frozen (phase_ne_opening_of_le h.forward hphase), h.frozen hphase]
  forward := Nat.le_trans h.forward h'.forward

theorem ContextStep.evolves {context changed : Context} (h : ContextStep context changed) :
    Evolves context changed := by
  cases h with
  | restrict restriction hphase hweaker =>
    exact ⟨rfl, rfl, hweaker, fun hpast => absurd hphase hpast, Nat.le_refl _⟩
  | activate hphase =>
    refine ⟨rfl, rfl, NoStronger.refl _, fun _ => rfl, ?_⟩
    simp [hphase, phaseRank]
  | beginClose hphase =>
    refine ⟨rfl, rfl, NoStronger.refl _, fun _ => rfl, ?_⟩
    simp [hphase, phaseRank]

theorem ContextStep.phase {context changed : Context} (h : ContextStep context changed) :
    changed.phase = context.phase ∨ phaseSuccessor context.phase = some changed.phase := by
  cases h with
  | restrict restriction hphase hweaker => exact .inl rfl
  | activate hphase => exact .inr (by rw [hphase]; rfl)
  | beginClose hphase => exact .inr (by rw [hphase]; rfl)

theorem toString_injective {a b : Nat} (h : toString a = toString b) : a = b := by
  rw [Nat.toString_eq_ofList_toDigits, Nat.toString_eq_ofList_toDigits] at h
  rw [← Nat.ofDigitChars_ten_toDigits (n := a), String.ofList_injective h,
    Nat.ofDigitChars_ten_toDigits]

theorem capabilityIdOf_injective {processId a b : Nat}
    (h : capabilityIdOf processId a = capabilityIdOf processId b) : a = b :=
  toString_injective ((String.append_right_inj _).mp h)

/-- The ids of the first `count` registrations of a process. -/
def firstIds (processId count : Nat) : List String :=
  (List.range count).map fun index => capabilityIdOf processId ((index + 1) % 2 ^ 64)

theorem firstIds_succ (processId count : Nat) :
    firstIds processId (count + 1) =
      firstIds processId count ++ [capabilityIdOf processId ((count + 1) % 2 ^ 64)] := by
  simp [firstIds, List.range_succ]

theorem firstIds_nodup (processId : Nat) {count : Nat} (hcount : count ≤ 2 ^ 64) :
    (firstIds processId count).Nodup := by
  refine List.Nodup.map_on ?_ List.nodup_range
  intro a ha b hb h
  have hmod := capabilityIdOf_injective h
  rw [List.mem_range] at ha hb
  omega

structure HistoryInvariant (history : History) : Prop where
  issued : history.issued = firstIds history.registry.processId history.issued.length
  counter : history.registry.nextSequence = (history.issued.length + 1) % 2 ^ 64
  registered : ∀ key context,
    history.registry.contexts.lookup key = some context → key ∈ history.issued
  apart : Apart (fun context context' => rootsOverlap context.root context'.root = true)
    history.registry.contexts
  ceilings : AllValues (fun context => NoStronger context.effectivePolicy context.ceiling)
    history.registry.contexts

theorem start_invariant (processId : Nat) : HistoryInvariant (History.start processId) where
  issued := rfl
  counter := by simp [History.start, initial]
  registered := by simp [History.start, initial]
  apart := Apart.empty
  ceilings := AllValues.empty

theorem overlap_symm (context context' : Context)
    (h : rootsOverlap context.root context'.root = true) :
    rootsOverlap context'.root context.root = true := by
  rwa [rootsOverlap_comm]

theorem invariant_step {history : History} {issued : Option String} {after : Registry}
    (hinv : HistoryInvariant history) (hstep : RegistryStep history.registry issued after) :
    HistoryInvariant { registry := after, issued := history.issued ++ issued.toList } := by
  cases hstep with
  | register root ceiling hapart =>
    have hissued : (nextCapabilityId history.registry).1 =
        capabilityIdOf history.registry.processId ((history.issued.length + 1) % 2 ^ 64) := by
      rw [← hinv.counter]
      rfl
    constructor
    · simp only [Option.toList_some, List.length_append, List.length_singleton]
      rw [hissued]
      change _ = firstIds history.registry.processId _
      rw [firstIds_succ, ← hinv.issued]
    · change (history.registry.nextSequence + 1) % 2 ^ 64 = _
      rw [hinv.counter]
      simp
    · intro key context hlookup
      rcases lookup_insert_eq_some hlookup with ⟨rfl, -⟩ | ⟨-, hold⟩
      · simp
      · exact List.mem_append_left _ (hinv.registered key context hold)
    · refine hinv.apart.insert overlap_symm ?_
      rintro key context - hlookup hoverlap
      rw [hapart key context hlookup] at hoverlap
      cases hoverlap
    · exact hinv.ceilings.insert (NoStronger.refl ceiling)
  | change capabilityId context changed hlookup hchange =>
    simp only [Option.toList_none, List.append_nil]
    have hevolves := hchange.evolves
    refine ⟨hinv.issued, hinv.counter, ?_, ?_, ?_⟩
    · intro key context' hlookup'
      rcases lookup_insert_eq_some hlookup' with ⟨rfl, -⟩ | ⟨-, hold⟩
      · exact hinv.registered key context hlookup
      · exact hinv.registered key context' hold
    · refine hinv.apart.update overlap_symm hlookup ?_
      intro other hoverlap
      rwa [hevolves.root] at hoverlap
    · refine hinv.ceilings.insert ?_
      rw [hevolves.ceiling]
      exact hevolves.weaker.trans (hinv.ceilings hlookup)
  | remove capabilityId =>
    simp only [Option.toList_none, List.append_nil]
    refine ⟨hinv.issued, hinv.counter, ?_, hinv.apart.erase _, hinv.ceilings.erase _⟩
    intro key context hlookup
    exact hinv.registered key context (lookup_erase_eq_some hlookup).2
  | keep => simpa using hinv

theorem serve_invariant (history : History) (request : Request) (hinv : HistoryInvariant history) :
    HistoryInvariant (history.serve request) := by
  obtain ⟨issued, after, hstep, hserve⟩ := serve_step history request
  rw [hserve]
  exact invariant_step hinv hstep

theorem serveAll_invariant (processId : Nat) (requests : List Request) :
    HistoryInvariant ((History.start processId).serveAll requests) :=
  foldl_invariant serve_invariant (start_invariant processId) requests

/-- Nothing that was issued is forgotten, and a context found later under an
id that was not issued in between has evolved from the one found earlier. -/
def Continues (history later : History) : Prop :=
  ∃ fresh, later.issued = history.issued ++ fresh ∧
    ∀ key context', later.registry.contexts.lookup key = some context' →
      key ∈ fresh ∨
        ∃ context, history.registry.contexts.lookup key = some context ∧ Evolves context context'

instance : Std.Refl Continues where
  refl history := ⟨[], by simp, fun _ context h => .inr ⟨context, h, Evolves.refl context⟩⟩

instance : IsTrans History Continues where
  trans := by
    rintro first second third ⟨fresh, hissued, hcontexts⟩ ⟨fresh', hissued', hcontexts'⟩
    refine ⟨fresh ++ fresh', by rw [hissued', hissued, List.append_assoc], ?_⟩
    intro key context'' hlookup''
    rcases hcontexts' key context'' hlookup'' with hfresh' | ⟨context', hlookup', hevolves'⟩
    · exact .inl (List.mem_append_right _ hfresh')
    · rcases hcontexts key context' hlookup' with hfresh | ⟨context, hlookup, hevolves⟩
      · exact .inl (List.mem_append_left _ hfresh)
      · exact .inr ⟨context, hlookup, hevolves.trans hevolves'⟩

theorem serve_continues (history : History) (request : Request) :
    Continues history (history.serve request) := by
  obtain ⟨issued, after, hstep, hserve⟩ := serve_step history request
  rw [hserve]
  refine ⟨issued.toList, rfl, ?_⟩
  intro key context' hlookup'
  cases hstep with
  | register root ceiling hapart =>
    rcases lookup_insert_eq_some hlookup' with ⟨rfl, -⟩ | ⟨-, hold⟩
    · exact .inl (by simp)
    · exact .inr ⟨context', hold, Evolves.refl context'⟩
  | change capabilityId context changed hlookup hchange =>
    rcases lookup_insert_eq_some hlookup' with ⟨rfl, rfl⟩ | ⟨-, hold⟩
    · exact .inr ⟨context, hlookup, hchange.evolves⟩
    · exact .inr ⟨context', hold, Evolves.refl context'⟩
  | remove capabilityId =>
    exact .inr ⟨context', (lookup_erase_eq_some hlookup').2, Evolves.refl context'⟩
  | keep => exact .inr ⟨context', hlookup', Evolves.refl context'⟩

theorem serveAll_continues (history : History) (requests : List Request) :
    Continues history (history.serveAll requests) :=
  foldl_relation serve_continues history requests

/-- As long as no id was issued twice, a context found under the same id twice
is one context. -/
theorem evolves_of_nodup {history later : History} (hinv : HistoryInvariant history)
    (hcontinues : Continues history later) (hnodup : later.issued.Nodup) {key : String}
    {context context' : Context} (hlookup : history.registry.contexts.lookup key = some context)
    (hlookup' : later.registry.contexts.lookup key = some context') : Evolves context context' := by
  obtain ⟨fresh, hissued, hcontexts⟩ := hcontinues
  rw [hissued] at hnodup
  rcases hcontexts key context' hlookup' with hfresh | ⟨found, hfound, hevolves⟩
  · exact absurd hfresh
      ((List.disjoint_of_nodup_append hnodup) (hinv.registered key context hlookup))
  · rw [hlookup] at hfound
    obtain rfl := Option.some.inj hfound
    exact hevolves

theorem phase_step_of_nodup {history : History} {request : Request}
    (hinv : HistoryInvariant history) (hnodup : (history.serve request).issued.Nodup)
    {key : String} {context context' : Context}
    (hlookup : history.registry.contexts.lookup key = some context)
    (hlookup' : (history.serve request).registry.contexts.lookup key = some context') :
    context'.phase = context.phase ∨ phaseSuccessor context.phase = some context'.phase := by
  obtain ⟨issued, after, hstep, hserve⟩ := serve_step history request
  rw [hserve] at hlookup' hnodup
  have hsame : history.registry.contexts.lookup key = some context' →
      context'.phase = context.phase := by
    intro h
    rw [hlookup] at h
    rw [Option.some.inj h]
  cases hstep with
  | register root ceiling hapart =>
    rcases lookup_insert_eq_some hlookup' with ⟨rfl, -⟩ | ⟨-, hold⟩
    · have hmem := hinv.registered _ context hlookup
      exact absurd (List.mem_singleton_self _) ((List.disjoint_of_nodup_append hnodup) hmem)
    · exact .inl (hsame hold)
  | change capabilityId found changed hfound hchange =>
    rcases lookup_insert_eq_some hlookup' with ⟨rfl, rfl⟩ | ⟨-, hold⟩
    · rw [hlookup] at hfound
      obtain rfl := Option.some.inj hfound
      exact hchange.phase
    · exact .inl (hsame hold)
  | remove capabilityId => exact .inl (hsame (lookup_erase_eq_some hlookup').2)
  | keep => exact .inl (hsame hlookup')

theorem serveAll_nodup (processId : Nat) (requests : List Request)
    (hbound : ((History.start processId).serveAll requests).issued.length ≤ 2 ^ 64) :
    ((History.start processId).serveAll requests).issued.Nodup := by
  rw [(serveAll_invariant processId requests).issued]
  exact firstIds_nodup _ hbound

/-- Registered roots are apart and policies are under their ceilings in every
reachable state. While the 64-bit counter has not wrapped, no id is issued
twice, every registered id was issued, contexts evolve only forwards between
any two moments of the run, and each call takes a phase at most one step on. -/
theorem workspaceRegistry_safe (processId : Nat) (requests : List Request) :
    let history := (History.start processId).serveAll requests
    Apart (fun context context' => rootsOverlap context.root context'.root = true)
      history.registry.contexts ∧
    AllValues (fun context => NoStronger context.effectivePolicy context.ceiling)
      history.registry.contexts ∧
    (history.issued.length ≤ 2 ^ 64 →
      history.issued.Nodup ∧
      (∀ key context, history.registry.contexts.lookup key = some context →
        key ∈ history.issued) ∧
      (∀ front back, requests = front ++ back →
        ∀ key context context',
          ((History.start processId).serveAll front).registry.contexts.lookup key = some context →
          history.registry.contexts.lookup key = some context' →
          phaseRank context.phase ≤ phaseRank context'.phase ∧
          (context.phase ≠ .opening → context'.effectivePolicy = context.effectivePolicy)) ∧
      (∀ front request, requests = front ++ [request] →
        ∀ key context context',
          ((History.start processId).serveAll front).registry.contexts.lookup key = some context →
          history.registry.contexts.lookup key = some context' →
          context'.phase = context.phase ∨ phaseSuccessor context.phase = some context'.phase)) := by
  intro history
  have hinv : HistoryInvariant history := serveAll_invariant processId requests
  refine ⟨hinv.apart, hinv.ceilings, ?_⟩
  intro hbound
  have hnodup : history.issued.Nodup := serveAll_nodup processId requests hbound
  refine ⟨hnodup, hinv.registered, ?_, ?_⟩
  · rintro front back rfl key context context' hlookup hlookup'
    have hsplit : history = ((History.start processId).serveAll front).serveAll back :=
      List.foldl_append
    have hcontinues := serveAll_continues ((History.start processId).serveAll front) back
    rw [← hsplit] at hcontinues
    have hevolves := evolves_of_nodup (serveAll_invariant processId front) hcontinues hnodup
      hlookup hlookup'
    exact ⟨hevolves.forward, hevolves.frozen⟩
  · rintro front request rfl key context context' hlookup hlookup'
    have hsplit : history = ((History.start processId).serveAll front).serve request :=
      List.foldl_append
    rw [hsplit] at hlookup' hnodup
    exact phase_step_of_nodup (serveAll_invariant processId front) hnodup hlookup hlookup'

def singleDirectoryHost : Host where
  canonicalize := some
  metadata := fun _ => some ⟨true, 8, 1, 2⟩
  openDirectory := fun _ => some ⟨true, 8, 1, 2⟩
  mountinfo := .ok [⟨8, 1, [.rootDir], [.rootDir]⟩]

def observePolicy : RuntimePolicy := ⟨.observe, false, false, false, .deny, [], []⟩

def registerRequest : Request :=
  .register singleDirectoryHost [.rootDir, .normal "w"] ⟨8, 1, "2"⟩ observePolicy

/-- Register a root and unregister it again, `count` times. -/
def reopenRequests (count : Nat) : List Request :=
  (List.range count).flatMap fun index =>
    [registerRequest, .unregister (capabilityIdOf 1 ((index + 1) % 2 ^ 64))]

theorem admitRoot_registerRequest :
    admitRoot singleDirectoryHost [.rootDir, .normal "w"] ⟨8, 1, "2"⟩ =
      .ok ⟨[.rootDir, .normal "w"], ⟨8, 1, [.rootDir, .normal "w"]⟩, ⟨8, 1, "2"⟩⟩ := by
  rfl

theorem serve_of_ok {history : History} {request : Request} {issued : Option String}
    {after : Registry} (h : answer history.registry request = .ok (issued, after)) :
    history.serve request = { registry := after, issued := history.issued ++ issued.toList } := by
  simp only [History.serve, h]

def reopenedContext (capabilityId : String) : Context where
  capabilityId
  root := ⟨[.rootDir, .normal "w"], ⟨8, 1, [.rootDir, .normal "w"]⟩, ⟨8, 1, "2"⟩⟩
  ceiling := observePolicy
  effectivePolicy := observePolicy
  phase := .opening

theorem answer_registerRequest (sequence : Nat) :
    answer ⟨1, sequence, ∅⟩ registerRequest =
      .ok (some (capabilityIdOf 1 sequence), ⟨1, (sequence + 1) % 2 ^ 64,
        AList.singleton (capabilityIdOf 1 sequence)
          (reopenedContext (capabilityIdOf 1 sequence))⟩) := by
  simp only [answer, registerRequest, register, admitRoot_registerRequest]
  rfl

theorem answer_unregister_singleton (sequence : Nat) (capabilityId : String) :
    answer ⟨1, sequence, AList.singleton capabilityId (reopenedContext capabilityId)⟩
      (.unregister capabilityId) = .ok (none, ⟨1, sequence, ∅⟩) := by
  let contexts : Family String Context :=
    AList.singleton capabilityId (reopenedContext capabilityId)
  have hlookup : contexts.lookup capabilityId = some (reopenedContext capabilityId) :=
    AList.lookup_insert ∅
  have herase : contexts.erase capabilityId = ∅ := AList.ext (List.kerase_cons_eq rfl)
  change (unregister ⟨1, sequence, contexts⟩ capabilityId).map _ = _
  simp only [unregister, hlookup, herase]
  rfl

theorem serve_reopen (sequence : Nat) (issued : List String) :
    (History.serve { registry := ⟨1, sequence, ∅⟩, issued } registerRequest).serve
      (.unregister (capabilityIdOf 1 sequence)) =
    { registry := ⟨1, (sequence + 1) % 2 ^ 64, ∅⟩,
      issued := issued ++ [capabilityIdOf 1 sequence] } := by
  have hregister : History.serve { registry := ⟨1, sequence, ∅⟩, issued } registerRequest = _ :=
    serve_of_ok (answer_registerRequest sequence)
  rw [hregister, serve_of_ok (answer_unregister_singleton _ _)]
  simp

theorem serveAll_reopen (count : Nat) :
    (History.start 1).serveAll (reopenRequests count) =
      { registry := ⟨1, (count + 1) % 2 ^ 64, ∅⟩, issued := firstIds 1 count } := by
  induction count with
  | zero => rfl
  | succ count ih =>
    have hrequests : reopenRequests (count + 1) = reopenRequests count ++
        [registerRequest, .unregister (capabilityIdOf 1 ((count + 1) % 2 ^ 64))] := by
      simp [reopenRequests, List.range_succ]
    have hserve : (History.start 1).serveAll (reopenRequests (count + 1)) =
        (((History.start 1).serveAll (reopenRequests count)).serve registerRequest).serve
          (.unregister (capabilityIdOf 1 ((count + 1) % 2 ^ 64))) := by
      rw [hrequests]
      exact List.foldl_append
    rw [hserve, ih, serve_reopen, firstIds_succ]
    simp

theorem reopen_reissues {count : Nat} (hcount : 2 ^ 64 < count) :
    ¬ ((History.start 1).serveAll (reopenRequests count)).issued.Nodup := by
  rw [serveAll_reopen]
  intro hnodup
  have hinj := List.inj_on_of_nodup_map hnodup
  have hzero : 0 ∈ List.range count := List.mem_range.mpr (by omega)
  have hwrap : 2 ^ 64 ∈ List.range count := List.mem_range.mpr hcount
  have h := hinj hzero hwrap (by simp)
  omega

/-- The counter wraps: a process that opens and closes one root often enough
issues a capability id a second time. -/
theorem capabilityId_reissued :
    ¬ ((History.start 1).serveAll (reopenRequests (2 ^ 64 + 1))).issued.Nodup :=
  reopen_reissues (Nat.lt_succ_self _)

end KodeGpt.WorkspaceRegistryRuns
