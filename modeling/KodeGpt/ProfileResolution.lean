import KodeGpt.FallibleActions
import KodeGpt.PolicyRestriction
import KodeGpt.TextEncodings

/-!
Project profiles as the control plane resolves them, against the restriction of policies in the
runtime.
-/

namespace KodeGpt.ProfileResolution

open FallibleActions (bind_eq_ok_iff)
open PolicyRestriction TextEncodings

/-- What the schema asks of a policy beyond the types of its fields. -/
def isPolicy (policy : RuntimePolicy) : Bool :=
  policy.allowedExecutableNames.all fun name => name ≠ ""

inductive ProfileError where
  | schema
  | escalation (message : String)

def unitsOrder (first second : String) : Prop :=
  encodeUtf16 first.toList ≤ encodeUtf16 second.toList

instance : DecidableRel unitsOrder := fun _ _ => inferInstanceAs (Decidable (_ ≤ _))

instance : Std.Total unitsOrder := ⟨fun _ _ => List.le_total _ _⟩

instance : IsTrans String unitsOrder := ⟨fun _ _ _ => List.le_trans⟩

/-- `[...new Set(names)].sort()`, which compares code units. -/
def sortedSet (names : List String) : List String := names.dedup.insertionSort unitsOrder

def assertSubset (candidate ceiling : List String) (message : String) : Except ProfileError Unit :=
  if candidate.any fun value => !ceiling.contains value then .error (.escalation message)
  else .ok ()

def resolveProfile (current restriction : RuntimePolicy) : Except ProfileError RuntimePolicy :=
  if !isPolicy current then .error .schema
  else if !isPolicy restriction then .error .schema
  else if profileRank restriction.name > profileRank current.name then
    .error (.escalation "Project profile name exceeds the current ceiling")
  else if !current.allowWrite && restriction.allowWrite then
    .error (.escalation "Project profile cannot enable writes")
  else if !current.allowProcess && restriction.allowProcess then
    .error (.escalation "Project profile cannot enable processes")
  else if !current.allowDynamicExecutables && restriction.allowDynamicExecutables then
    .error (.escalation "Project profile cannot enable dynamic executables")
  else if networkRank restriction.network > networkRank current.network then
    .error (.escalation "Project profile cannot broaden network access")
  else do
    assertSubset restriction.allowedExecutableNames current.allowedExecutableNames
      "Project profile cannot add executable names"
    assertSubset restriction.envAllowlist current.envAllowlist
      "Project profile cannot add environment variables"
    return { restriction with
      allowedExecutableNames := sortedSet restriction.allowedExecutableNames
      envAllowlist := sortedSet restriction.envAllowlist }

@[simp] theorem mem_sortedSet {names : List String} {name : String} :
    name ∈ sortedSet names ↔ name ∈ names := by
  simp [sortedSet]

/-- The policy with its lists of names as sorted sets. -/
def normalized (policy : RuntimePolicy) : RuntimePolicy :=
  { policy with
    allowedExecutableNames := sortedSet policy.allowedExecutableNames
    envAllowlist := sortedSet policy.envAllowlist }

theorem noStronger_normalized (policy : RuntimePolicy) :
    NoStronger (normalized policy) policy ∧ NoStronger policy (normalized policy) := by
  refine ⟨⟨le_rfl, id, id, id, le_rfl, ?_, ?_⟩, ⟨le_rfl, id, id, id, le_rfl, ?_, ?_⟩⟩ <;>
    exact fun name hname => by simpa [normalized] using hname

theorem assertSubset_eq_ok_iff {candidate ceiling : List String} {message : String} :
    assertSubset candidate ceiling message = .ok () ↔ candidate ⊆ ceiling := by
  rw [assertSubset]
  split
  · simp_all [List.subset_def]
  · simp_all [List.subset_def]

/-- What is resolved is the restriction, under the conditions of the runtime. -/
theorem resolveProfile_eq_ok_iff {current restriction result : RuntimePolicy} :
    resolveProfile current restriction = .ok result ↔
      isPolicy current = true ∧ isPolicy restriction = true ∧ NoStronger restriction current ∧
        result = normalized restriction := by
  have himp : ∀ a b : Bool, ¬(!a && b) = true ↔ (b = true → a = true) := by decide
  unfold resolveProfile
  constructor
  · intro h
    split_ifs at h with hcurrent hrestriction hprofile hwrite hprocess hdynamic hnetwork
    obtain ⟨_, hnames, h⟩ := bind_eq_ok_iff.mp h
    obtain ⟨_, henv, h⟩ := bind_eq_ok_iff.mp h
    obtain rfl := Except.ok.inj h
    exact ⟨by simpa using hcurrent, by simpa using hrestriction, ⟨Nat.not_lt.mp hprofile,
      (himp _ _).mp hwrite, (himp _ _).mp hprocess, (himp _ _).mp hdynamic,
      Nat.not_lt.mp hnetwork, assertSubset_eq_ok_iff.mp hnames, assertSubset_eq_ok_iff.mp henv⟩,
      rfl⟩
  · rintro ⟨hcurrent, hrestriction, hle, rfl⟩
    rw [if_neg (by simp [hcurrent]), if_neg (by simp [hrestriction]),
      if_neg (Nat.not_lt.mpr hle.profile), if_neg ((himp _ _).mpr hle.write),
      if_neg ((himp _ _).mpr hle.process), if_neg ((himp _ _).mpr hle.dynamicExecutables),
      if_neg (Nat.not_lt.mpr hle.network), assertSubset_eq_ok_iff.mpr hle.executables,
      assertSubset_eq_ok_iff.mpr hle.environment]
    rfl

def getProfilePreset : ProfileName → RuntimePolicy
  | .observe => ⟨.observe, false, false, false, .deny, [], []⟩
  | .develop => ⟨.develop, true, true, false, .deny, ["cargo", "node", "python3", "rustc"],
    ["CI", "LANG", "LC_ALL", "TERM"]⟩
  | .trusted => ⟨.trusted, true, true, true, .unrestricted,
    ["bash", "cargo", "node", "npm", "npx", "pnpm", "python3", "rustc", "sh"],
    ["CI", "LANG", "LC_ALL", "TERM"]⟩

/-- Restrictions that are applied in turn amount to the last of them. -/
theorem resolveProfile_inTurn {ceiling last result : RuntimePolicy}
    {restrictions : List RuntimePolicy}
    (h : (restrictions ++ [last]).foldlM resolveProfile ceiling = .ok result) :
    resolveProfile ceiling last = .ok result := by
  rw [List.foldlM_append, bind_eq_ok_iff] at h
  obtain ⟨middle, hmiddle, h⟩ := h
  simp only [List.foldlM_cons, List.foldlM_nil, bind_pure] at h
  obtain ⟨hpolicy, hlast, hle, rfl⟩ := resolveProfile_eq_ok_iff.mp h
  induction restrictions generalizing ceiling with
  | nil =>
    obtain rfl := Except.ok.inj hmiddle
    exact h
  | cons restriction restrictions ih =>
    rw [List.foldlM_cons] at hmiddle
    obtain ⟨next, hnext, hmiddle⟩ := bind_eq_ok_iff.mp hmiddle
    obtain ⟨hceiling, -, hrestriction, rfl⟩ := resolveProfile_eq_ok_iff.mp hnext
    obtain ⟨-, -, hlater, -⟩ := resolveProfile_eq_ok_iff.mp (ih hmiddle)
    have hless := (noStronger_normalized restriction).1.trans hrestriction
    exact resolveProfile_eq_ok_iff.mpr ⟨hceiling, hlast, hlater.trans hless, rfl⟩

theorem observe_inTurn : resolveProfile (getProfilePreset .trusted) (getProfilePreset .observe) =
    .ok (getProfilePreset .observe) :=
  @resolveProfile_inTurn _ _ _ [getProfilePreset .develop] (by rfl)

end KodeGpt.ProfileResolution
