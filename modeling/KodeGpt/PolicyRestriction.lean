import Mathlib.Data.List.Basic

/-!
Runtime policies and the restriction of one policy by another.
-/

namespace KodeGpt.PolicyRestriction

inductive ProfileName
  | observe
  | develop
  | trusted
  deriving DecidableEq, Repr

inductive NetworkMode
  | deny
  | localhost
  | allowlist
  | unrestricted
  deriving DecidableEq, Repr

structure RuntimePolicy where
  name : ProfileName
  allowWrite : Bool
  allowProcess : Bool
  allowDynamicExecutables : Bool
  network : NetworkMode
  allowedExecutableNames : List String
  envAllowlist : List String
  deriving DecidableEq, Repr

inductive PolicyError
  | escalation
  deriving DecidableEq, Repr

def profileRank : ProfileName → Nat
  | .observe => 0
  | .develop => 1
  | .trusted => 2

def networkRank : NetworkMode → Nat
  | .deny => 0
  | .localhost => 1
  | .allowlist => 2
  | .unrestricted => 3

def isSubset (candidate current : List String) : Bool :=
  candidate.all fun value => current.contains value

def restrictPolicy (current restriction : RuntimePolicy) : Except PolicyError RuntimePolicy :=
  if profileRank restriction.name > profileRank current.name
      || (!current.allowWrite && restriction.allowWrite)
      || (!current.allowProcess && restriction.allowProcess)
      || (!current.allowDynamicExecutables && restriction.allowDynamicExecutables)
      || networkRank restriction.network > networkRank current.network
      || !isSubset restriction.allowedExecutableNames current.allowedExecutableNames
      || !isSubset restriction.envAllowlist current.envAllowlist then
    .error .escalation
  else .ok restriction

/-- The authority of one policy is within that of another in each of the seven
dimensions. -/
structure NoStronger (policy bound : RuntimePolicy) : Prop where
  profile : profileRank policy.name ≤ profileRank bound.name
  write : policy.allowWrite = true → bound.allowWrite = true
  process : policy.allowProcess = true → bound.allowProcess = true
  dynamicExecutables :
    policy.allowDynamicExecutables = true → bound.allowDynamicExecutables = true
  network : networkRank policy.network ≤ networkRank bound.network
  executables : policy.allowedExecutableNames ⊆ bound.allowedExecutableNames
  environment : policy.envAllowlist ⊆ bound.envAllowlist

theorem NoStronger.refl (policy : RuntimePolicy) : NoStronger policy policy :=
  ⟨Nat.le_refl _, id, id, id, Nat.le_refl _, List.Subset.refl _, List.Subset.refl _⟩

theorem NoStronger.trans {policy middle bound : RuntimePolicy} (h : NoStronger policy middle)
    (h' : NoStronger middle bound) : NoStronger policy bound where
  profile := Nat.le_trans h.profile h'.profile
  write := h'.write ∘ h.write
  process := h'.process ∘ h.process
  dynamicExecutables := h'.dynamicExecutables ∘ h.dynamicExecutables
  network := Nat.le_trans h.network h'.network
  executables := List.Subset.trans h.executables h'.executables
  environment := List.Subset.trans h.environment h'.environment

theorem isSubset_iff {candidate current : List String} :
    isSubset candidate current = true ↔ candidate ⊆ current := by
  simp [isSubset, List.subset_def]

/-- A restriction is accepted exactly when it is no stronger than the policy
in force, and it then takes its place unchanged. -/
theorem restrictPolicy_eq_ok_iff {current restriction result : RuntimePolicy} :
    restrictPolicy current restriction = .ok result ↔
      result = restriction ∧ NoStronger restriction current := by
  have himp : ∀ a b : Bool, (!a && b) = false ↔ (b = true → a = true) := by decide
  unfold restrictPolicy
  split
  · rename_i hescalates
    refine iff_of_false nofun ?_
    rintro ⟨-, hle⟩
    refine absurd hescalates (Bool.not_eq_true _ ▸ ?_)
    simp only [Bool.or_eq_false_iff, decide_eq_false_iff_not, Nat.not_lt, gt_iff_lt, himp,
      Bool.not_eq_false', isSubset_iff]
    exact ⟨⟨⟨⟨⟨⟨hle.profile, hle.write⟩, hle.process⟩, hle.dynamicExecutables⟩, hle.network⟩,
      hle.executables⟩, hle.environment⟩
  · rename_i hkeeps
    simp only [Bool.not_eq_true, Bool.or_eq_false_iff, decide_eq_false_iff_not, Nat.not_lt, gt_iff_lt,
      himp, Bool.not_eq_false', isSubset_iff] at hkeeps
    obtain ⟨⟨⟨⟨⟨⟨hprofile, hwrite⟩, hprocess⟩, hdynamic⟩, hnetwork⟩, hnames⟩, henv⟩ := hkeeps
    constructor
    · intro h
      exact ⟨(Except.ok.inj h).symm,
        ⟨hprofile, hwrite, hprocess, hdynamic, hnetwork, hnames, henv⟩⟩
    · rintro ⟨rfl, -⟩
      rfl

end KodeGpt.PolicyRestriction
