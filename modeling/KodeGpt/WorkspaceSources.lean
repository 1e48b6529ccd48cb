import KodeGpt.PinnedSkills
import KodeGpt.TransitionSystem

/-!
The skill sources of the workspaces: which directory a source identifier stands for is kept in
one map, which every listing of a workspace takes apart and fills again, across several awaits.
-/

namespace KodeGpt.WorkspaceSources

open JsFrames JsObjects NodePaths PinnedSkills TransitionSystem
open JsonText (Bytes)

/-- The workspaces that are READY with their trust, and which paths are directories there. -/
structure World where
  sha256 : Bytes → JsText
  trustOf : JsText → Option JsText
  isDirectory : JsText → JsText → Bool

def conventionalRoots : List JsText :=
  [asciiUnits "skills", asciiUnits ".agents/skills", asciiUnits ".codex/skills"]

structure Binding where
  workspaceId : JsText
  root : JsText
  deriving DecidableEq

abbrev Bindings := JsText → Option Binding

/-- Why a listing runs: for its own sake, or for a call on one source. -/
inductive Purpose where
  | listing
  | request (sourceId : JsText) (tree : Bool) (path : JsText)

/-- What a call waits for. `probing` asks for the first of its roots, and without one for the
caller to go on; `asking` is a request to the runtime for a source. -/
inductive Phase where
  | idle
  | finding (workspaceId : JsText) (purpose : Purpose)
  | probing (workspaceId trustId : JsText) (rest : List JsText) (purpose : Purpose)
  | asking (workspaceId sourceId path : JsText)
  | settled (fulfilled : Bool)
  | mismatched (workspaceId : JsText) (purpose : Purpose)
  | refused

structure State where
  bindings : Bindings
  calls : Nat → Phase

def start : State := ⟨fun _ => none, fun _ => .idle⟩

inductive Event where
  | listSources (call : Nat) (workspaceId : JsText)
  /-- `tree` or `readBytes`. -/
  | request (call : Nat) (workspaceId sourceId : JsText) (tree : Bool) (path : JsText)
  /-- What the call waits for is answered, or fails. -/
  | answered (call : Nat) (fulfilled : Bool)

variable (world : World)

def deterministicSourceId (trustId root : JsText) : JsText :=
  asciiUnits "ss_" ++ (world.sha256 (pathBytes (trustId ++ 0 :: root))).take 32

def workspacePath (root path : JsText) (tree : Bool) : JsText :=
  if tree ∧ path = dotName then root else root ++ slash :: path

/-- The call goes on once `#binding` has looked its source up; `missing` is what it does when
the source is not bound to the workspace. -/
def useBinding (bindings : Bindings) (workspaceId sourceId : JsText) (tree : Bool)
    (path : JsText) (missing : Phase) : Phase :=
  match bindings sourceId with
  | some binding =>
    if binding.workspaceId = workspaceId then
      .asking workspaceId sourceId (workspacePath binding.root path tree)
    else missing
  | none => missing

def unbind (bindings : Bindings) (workspaceId : JsText) : Bindings := fun sourceId =>
  (bindings sourceId).filter fun binding => binding.workspaceId ≠ workspaceId

def bind (bindings : Bindings) (workspaceId trustId root : JsText) : Bindings :=
  if world.isDirectory workspaceId root then
    Function.update bindings (deterministicSourceId world trustId root) (some ⟨workspaceId, root⟩)
  else bindings

def resume (bindings : Bindings) : Phase → Option (Bindings × Phase)
  | .finding workspaceId purpose =>
    match world.trustOf workspaceId with
    | none => some (bindings, .mismatched workspaceId purpose)
    | some trustId => some (unbind bindings workspaceId,
        .probing workspaceId trustId conventionalRoots purpose)
  | .probing workspaceId trustId (root :: rest) purpose =>
    some (bind world bindings workspaceId trustId root,
      .probing workspaceId trustId rest purpose)
  | .probing _ _ [] .listing => some (bindings, .settled true)
  | .probing workspaceId _ [] (.request sourceId tree path) =>
    some (bindings, useBinding bindings workspaceId sourceId tree path
      (.mismatched workspaceId (.request sourceId tree path)))
  | .asking _ _ _ => some (bindings, .settled true)
  | _ => none

def Phase.awaitsAuthority : Phase → Bool
  | finding _ _ => true
  | probing _ _ rest _ => rest ≠ []
  | asking _ _ _ => true
  | _ => false

def State.set (s : State) (call : Nat) (bindings : Bindings) (phase : Phase) : State :=
  ⟨bindings, Function.update s.calls call phase⟩

def next (s : State) : Event → Option State
  | .listSources call workspaceId =>
    match s.calls call with
    | .idle => some (s.set call s.bindings (.finding workspaceId .listing))
    | _ => none
  | .request call workspaceId sourceId tree path =>
    match s.calls call with
    | .idle =>
      if isCanonicalRelativePath path || (tree && path = dotName) then
        some (s.set call s.bindings (useBinding s.bindings workspaceId sourceId tree path
          (.finding workspaceId (.request sourceId tree path))))
      else some (s.set call s.bindings .refused)
    | _ => none
  | .answered call true => (resume world s.bindings (s.calls call)).map fun answer =>
    s.set call answer.1 answer.2
  | .answered call false =>
    if (s.calls call).awaitsAuthority then some (s.set call s.bindings (.settled false)) else none

/-- `listSources` of the workspace reports the source, which was derived from the root. -/
def Derived (workspaceId sourceId root : JsText) : Prop :=
  ∃ trustId, world.trustOf workspaceId = some trustId ∧
    sourceId = deterministicSourceId world trustId root ∧ root ∈ conventionalRoots ∧
    world.isDirectory workspaceId root = true

def Reported (workspaceId sourceId : JsText) : Prop :=
  ∃ root, Derived world workspaceId sourceId root

/-- Where a request may go. -/
def Beneath (root path : JsText) : Prop :=
  path = root ∨
    ∃ relative, isCanonicalRelativePath relative = true ∧ path = root ++ slash :: relative

def Bound (bindings : Bindings) (workspaceId sourceId : JsText) : Prop :=
  ∃ root, bindings sourceId = some ⟨workspaceId, root⟩

/-- A call that has listed the workspace, or is about to, in order to find a source. -/
def Seeks : Phase → JsText → JsText → Prop
  | .probing workspaceId _ _ (.request sourceId _ _), workspaceId', sourceId' =>
    workspaceId' = workspaceId ∧ sourceId' = sourceId
  | _, _, _ => False

/-- No step takes away a binding that another call has set in order to find it. -/
def Calm (s : State) (event : Event) : Prop :=
  ∀ t, next world s event = some t → ∀ call workspaceId sourceId,
    Seeks (s.calls call) workspaceId sourceId → Bound s.bindings workspaceId sourceId →
      Bound t.bindings workspaceId sourceId

/-- What a phase says of the map. -/
def Sound (bindings : Bindings) : Phase → Prop
  | .finding _ (.request _ tree path) =>
    isCanonicalRelativePath path = true ∨ (tree = true ∧ path = dotName)
  | .probing workspaceId trustId rest purpose => world.trustOf workspaceId = some trustId ∧
      rest <:+ conventionalRoots ∧
      match purpose with
      | .listing => True
      | .request sourceId tree path =>
        (isCanonicalRelativePath path = true ∨ (tree = true ∧ path = dotName)) ∧
        ∀ root, Derived world workspaceId sourceId root → root ∉ rest →
          Bound bindings workspaceId sourceId
  | .asking workspaceId sourceId path =>
    ∃ root, Derived world workspaceId sourceId root ∧ Beneath root path
  | .mismatched workspaceId (.request sourceId _ _) => ¬Reported world workspaceId sourceId
  | _ => True

structure Inv (s : State) : Prop where
  derived : ∀ sourceId binding, s.bindings sourceId = some binding →
    Derived world binding.workspaceId sourceId binding.root
  sound : ∀ call, Sound world s.bindings (s.calls call)

section Steps

variable {world} {s t : State} {bindings bindings' : Bindings} {phase : Phase} {call : Nat}

theorem Sound.later (h : Sound world bindings phase)
    (hkeeps : ∀ workspaceId sourceId, Seeks phase workspaceId sourceId →
      Bound bindings workspaceId sourceId → Bound bindings' workspaceId sourceId) :
    Sound world bindings' phase := by
  cases phase with
  | probing workspaceId trustId rest purpose =>
    cases purpose with
    | listing => exact h
    | request sourceId tree path =>
      obtain ⟨htrust, hrest, hpath, hbound⟩ := h
      exact ⟨htrust, hrest, hpath, fun root hroot hdone =>
        hkeeps workspaceId sourceId ⟨rfl, rfl⟩ (hbound root hroot hdone)⟩
  | finding workspaceId purpose => cases purpose <;> exact h
  | mismatched workspaceId purpose => cases purpose <;> exact h
  | _ => exact h

theorem Inv.set (h : Inv world s)
    (hderived : ∀ sourceId binding, bindings sourceId = some binding →
      Derived world binding.workspaceId sourceId binding.root)
    (hcalm : ∀ other workspaceId sourceId, Seeks (s.calls other) workspaceId sourceId →
      Bound s.bindings workspaceId sourceId → Bound bindings workspaceId sourceId)
    (hphase : Sound world bindings phase) : Inv world (s.set call bindings phase) where
  derived := hderived
  sound := by
    intro other
    show Sound world bindings (Function.update s.calls call phase other)
    by_cases hother : other = call
    · rw [hother, Function.update_self]
      exact hphase
    · rw [Function.update_of_ne hother]
      exact (h.sound other).later (hcalm other)

theorem Inv.keep (h : Inv world s) (hphase : Sound world s.bindings phase) :
    Inv world (s.set call s.bindings phase) :=
  h.set h.derived (fun _ _ _ _ hbound => hbound) hphase

theorem beneath_workspacePath {root path : JsText} {tree : Bool}
    (hpath : isCanonicalRelativePath path = true ∨ (tree = true ∧ path = dotName)) :
    Beneath root (workspacePath root path tree) := by
  unfold workspacePath
  split
  · exact Or.inl rfl
  · rename_i hother
    exact Or.inr ⟨path, hpath.resolve_right hother, rfl⟩

theorem Inv.useBinding (h : Inv world s) {workspaceId sourceId path : JsText} {tree : Bool}
    (hpath : isCanonicalRelativePath path = true ∨ (tree = true ∧ path = dotName))
    (hmissing : ¬Bound s.bindings workspaceId sourceId → Sound world s.bindings phase) :
    Sound world s.bindings (useBinding s.bindings workspaceId sourceId tree path phase) := by
  unfold WorkspaceSources.useBinding
  split
  · rename_i binding hbinding
    split
    · rename_i hworkspace
      exact ⟨binding.root, hworkspace ▸ h.derived sourceId binding hbinding,
        beneath_workspacePath hpath⟩
    · rename_i hother
      refine hmissing ?_
      rintro ⟨root, hroot⟩
      rw [hbinding] at hroot
      exact hother (congrArg Binding.workspaceId (Option.some.inj hroot))
  · rename_i hnone
    refine hmissing ?_
    rintro ⟨root, hroot⟩
    rw [hnone] at hroot
    cases hroot

theorem derived_bind (h : Inv world s) {workspaceId trustId root : JsText}
    (htrust : world.trustOf workspaceId = some trustId) (hroot : root ∈ conventionalRoots) :
    ∀ sourceId binding, bind world s.bindings workspaceId trustId root sourceId = some binding →
      Derived world binding.workspaceId sourceId binding.root := by
  intro sourceId binding hbinding
  unfold bind at hbinding
  split at hbinding
  · rename_i hdirectory
    by_cases hsource : sourceId = deterministicSourceId world trustId root
    · rw [hsource, Function.update_self] at hbinding
      obtain rfl := Option.some.inj hbinding
      exact ⟨trustId, htrust, hsource, hroot, hdirectory⟩
    · rw [Function.update_of_ne hsource] at hbinding
      exact h.derived sourceId binding hbinding
  · exact h.derived sourceId binding hbinding

theorem bound_bind {workspaceId trustId root : JsText}
    (hdirectory : world.isDirectory workspaceId root = true) :
    Bound (bind world bindings workspaceId trustId root) workspaceId
      (deterministicSourceId world trustId root) := by
  rw [bind, if_pos hdirectory]
  exact ⟨root, Function.update_self _ _ _⟩

theorem Inv.resume (h : Inv world s)
    (hcalm : ∀ t, (resume world s.bindings (s.calls call)).map
      (fun answer => s.set call answer.1 answer.2) = some t → ∀ other workspaceId sourceId,
        Seeks (s.calls other) workspaceId sourceId → Bound s.bindings workspaceId sourceId →
          Bound t.bindings workspaceId sourceId)
    (hnext : (resume world s.bindings (s.calls call)).map
      (fun answer => s.set call answer.1 answer.2) = some t) : Inv world t := by
  have hkeeps := hcalm t hnext
  obtain ⟨⟨bindings, phase⟩, hanswer, rfl⟩ := Option.map_eq_some_iff.mp hnext
  have hsound := h.sound call
  have hown := hkeeps call
  cases hcall : s.calls call with
  | finding workspaceId purpose =>
    rw [hcall, WorkspaceSources.resume] at hanswer
    rw [hcall] at hsound
    split at hanswer
    · rename_i hnone
      obtain ⟨rfl, rfl⟩ := Prod.mk.inj (Option.some.inj hanswer)
      refine h.keep ?_
      cases purpose with
      | listing => trivial
      | request sourceId tree path =>
        rintro ⟨root, trustId, htrust, -⟩
        rw [hnone] at htrust
        cases htrust
    · rename_i trustId htrust
      obtain ⟨rfl, rfl⟩ := Prod.mk.inj (Option.some.inj hanswer)
      refine h.set (fun sourceId binding hbinding => h.derived sourceId binding
        (Option.filter_eq_some_iff.mp hbinding).1) hkeeps ⟨htrust, List.suffix_refl _, ?_⟩
      cases purpose with
      | listing => trivial
      | request sourceId tree path =>
        exact ⟨hsound, fun root ⟨_, _, _, hroot, _⟩ hdone => absurd hroot hdone⟩
  | probing workspaceId trustId rest purpose =>
    rw [hcall] at hanswer hsound hown
    obtain ⟨htrust, hrest, hpurpose⟩ := hsound
    cases rest with
    | cons root rest =>
      rw [WorkspaceSources.resume] at hanswer
      obtain ⟨rfl, rfl⟩ := Prod.mk.inj (Option.some.inj hanswer)
      refine h.set (derived_bind h htrust (hrest.subset List.mem_cons_self)) hkeeps
        ⟨htrust, (List.suffix_cons _ _).trans hrest, ?_⟩
      cases purpose with
      | listing => trivial
      | request sourceId tree path =>
        refine ⟨hpurpose.1, fun other hother hdone => ?_⟩
        by_cases hroot : other = root
        · obtain ⟨trustId', htrust', rfl, -, hdirectory⟩ := hother
          obtain rfl := Option.some.inj (htrust.symm.trans htrust')
          rw [hroot] at hdirectory ⊢
          exact bound_bind hdirectory
        · exact hown workspaceId sourceId ⟨rfl, rfl⟩ (hpurpose.2 other hother
            fun hmem => (List.mem_cons.mp hmem).elim hroot hdone)
    | nil =>
      cases purpose with
      | listing =>
        obtain ⟨rfl, rfl⟩ := Prod.mk.inj (Option.some.inj hanswer)
        exact h.keep trivial
      | request sourceId tree path =>
        obtain ⟨rfl, rfl⟩ := Prod.mk.inj (Option.some.inj hanswer)
        refine h.keep (h.useBinding hpurpose.1 fun hunbound => ?_)
        rintro ⟨root, hroot⟩
        exact hunbound (hpurpose.2 root hroot List.not_mem_nil)
  | asking workspaceId sourceId path =>
    rw [hcall] at hanswer
    obtain ⟨rfl, rfl⟩ := Prod.mk.inj (Option.some.inj hanswer)
    exact h.keep trivial
  | _ =>
    rw [hcall] at hanswer
    cases hanswer

theorem inv_next (s : State) (event : Event) (t : State) (h : Inv world s)
    (hcalm : Calm world s event) (hnext : next world s event = some t) : Inv world t := by
  cases event with
  | listSources call workspaceId =>
    rw [next] at hnext
    split at hnext
    · obtain rfl := Option.some.inj hnext
      exact h.keep trivial
    · cases hnext
  | request call workspaceId sourceId tree path =>
    rw [next] at hnext
    split at hnext
    · split at hnext
      · rename_i hpath
        have hcanonical : isCanonicalRelativePath path = true ∨
            (tree = true ∧ path = dotName) := by simpa using hpath
        obtain rfl := Option.some.inj hnext
        exact h.keep (h.useBinding hcanonical fun _ => hcanonical)
      · obtain rfl := Option.some.inj hnext
        exact h.keep trivial
    · cases hnext
  | answered call fulfilled =>
    cases fulfilled with
    | true => exact h.resume (fun t ht => hcalm t ht) hnext
    | false =>
      obtain ⟨-, heq⟩ := Option.ite_none_right_eq_some.mp hnext
      obtain rfl := Option.some.inj heq
      exact h.keep trivial

end Steps

theorem inv_start : Inv world start := ⟨nofun, fun _ => trivial⟩

end KodeGpt.WorkspaceSources
