import KodeGpt.SkillCatalogs

/-!
The discovery of skills for a query: candidates are ranked and grouped, some groups are
inspected for stages whose actions match, and what was found is joined by skill id.
-/

namespace KodeGpt.SkillDiscovery

open JsObjects SkillCatalogs
open JsFrames (asciiUnits)
open NodePaths (pathBytes)
open PinnedSkills (compareUtf8)

variable {Report : Type}

structure Stage (Report : Type) where
  id : JsText
  description : Option JsText
  classification : Report
  actions : List (JsText × Bool)

structure SkillInspectResult (Report : Type) where
  skillId : JsText
  name : JsText
  stages : List (Stage Report)

structure SkillSearchMatch (Report : Type) where
  skill : CatalogEntry Report
  score : Nat
  matchReasons : List JsText

structure RankedGroup (Report : Type) where
  representative : SkillSearchMatch Report
  members : List (SkillSearchMatch Report)

structure MatchedStage (Report : Type) where
  id : JsText
  classification : Report
  actionIds : List JsText

structure Flow where
  skillId : JsText
  skillName : JsText
  stageId : JsText
  description : Option JsText
  actionIds : List JsText

structure Evidence (Report : Type) where
  stage : MatchedStage Report
  score : Nat
  flow : Flow

/-- What the other parts answer for a query that is accepted: the listing, the score of each
skill, the actions that match, and what an inspection of a version returns. -/
structure Discovery (Report : Type) where
  limit : Nat
  candidateSkills : List (CatalogEntry Report)
  listReasons : List String
  workspaceSourceIds : List JsText
  rate : CatalogEntry Report → Option (Nat × List JsText)
  actionMatches : List (JsText × Nat)
  inspectSkill : JsText → JsText → Option (SkillInspectResult Report)

def keysOrdered : List (JsText × JsText) → Bool
  | [] => true
  | (left, right) :: rest =>
    if pathBytes left = pathBytes right then keysOrdered rest else compareUtf8 left right

def scoreOrdered (left right : Nat) (keys : List (JsText × JsText)) : Bool :=
  if left ≠ right then right < left else keysOrdered keys

def rankedBefore (left right : SkillSearchMatch Report) : Bool :=
  scoreOrdered left.score right.score [(left.skill.name, right.skill.name),
    (left.skill.sourceId, right.skill.sourceId), (left.skill.skillId, right.skill.skillId)]

def bestMatch (first : SkillSearchMatch Report) (rest : List (SkillSearchMatch Report)) :
    SkillSearchMatch Report :=
  ((first :: rest).mergeSort fun left right => scoreOrdered left.score right.score
    [(left.skill.sourceId, right.skill.sourceId),
      (left.skill.skillId, right.skill.skillId)]).headD first

/-- `matchedStageEvidence`, of what an inspection returns. -/
def matchedStageEvidence (actionMatches : List (JsText × Nat))
    (inspected : SkillInspectResult Report) : List (Evidence Report) :=
  (inspected.stages.filterMap fun stage =>
    let knownActionIds := (stage.actions.filter Prod.snd).map Prod.fst
    let matched := knownActionIds.filterMap fun id => actionMatches.reverse.lookup id
    if matched = [] then none
    else some
      { stage := ⟨stage.id, stage.classification, knownActionIds⟩
        score := matched.sum
        flow := ⟨inspected.skillId, inspected.name, stage.id, stage.description,
          knownActionIds⟩ }).mergeSort
    fun left right => scoreOrdered left.score right.score [(left.stage.id, right.stage.id)]

structure Progress (Report : Type) where
  matchedStagesBySkill : JsText → Option (List (MatchedStage Report))
  stageMatchedFallbackGroups : List (RankedGroup Report)
  rankedFlows : List (Nat × Nat × Flow)
  unavailable : Bool

def truncationOrder : List String :=
  ["SOURCE_UNAVAILABLE", "SOURCE_ENTRY_LIMIT", "SKILL_COUNT_LIMIT", "DESCRIPTOR_SIZE_LIMIT",
    "ACTION_LIMIT", "SKILL_LIMIT", "ALTERNATE_SOURCE_LIMIT", "SKILL_INSPECTION_LIMIT",
    "SKILL_INSPECTION_UNAVAILABLE", "FLOW_LIMIT"]

section Discover

variable (d : Discovery Report)

def selectRepresentative (first : SkillSearchMatch Report) (rest : List (SkillSearchMatch Report)) :
    SkillSearchMatch Report :=
  match (first :: rest).filter fun found => found.skill.sourceId ∈ d.workspaceSourceIds with
  | best :: others => bestMatch best others
  | [] =>
    match (first :: rest).filter fun found =>
        found.skill.pinned || found.skill.availability = .livePinned with
    | best :: others => bestMatch best others
    | [] => bestMatch first rest

def groupKey (found : SkillSearchMatch Report) : JsText :=
  found.skill.name ++ 58 :: found.skill.fingerprint

abbrev Bucket (Report : Type) : Type := SkillSearchMatch Report × List (SkillSearchMatch Report)

def addToBuckets (buckets : List (Bucket Report)) (next : SkillSearchMatch Report) :
    List (Bucket Report) :=
  if buckets.any fun bucket => groupKey bucket.1 = groupKey next then
    buckets.map fun bucket =>
      if groupKey bucket.1 = groupKey next then (bucket.1, bucket.2 ++ [next]) else bucket
  else buckets ++ [(next, [])]

def groupRankedSkills (found : List (SkillSearchMatch Report)) : List (RankedGroup Report) :=
  ((found.foldl addToBuckets []).map fun bucket => (⟨selectRepresentative d bucket.1 bucket.2,
    bucket.1 :: bucket.2⟩ : RankedGroup Report)).mergeSort fun left right =>
      rankedBefore left.representative right.representative

def rankedSkills : List (SkillSearchMatch Report) :=
  (d.candidateSkills.filterMap fun skill => (d.rate skill).map fun rated =>
    (⟨skill, rated.1, rated.2⟩ : SkillSearchMatch Report)).mergeSort rankedBefore

def fallbackMatches : List (SkillSearchMatch Report) :=
  (d.candidateSkills.filter fun skill =>
    (rankedSkills d).all fun found => found.skill.skillId ≠ skill.skillId).map fun skill =>
      ⟨skill, 0, []⟩

def textualGroups : List (RankedGroup Report) := groupRankedSkills d (rankedSkills d)

def inspectionGroups : List (RankedGroup Report) :=
  textualGroups d ++ groupRankedSkills d (fallbackMatches d)

def evidenceOf (skill : CatalogEntry Report) : Option (List (Evidence Report)) :=
  (d.inspectSkill skill.skillId skill.fingerprint).map (matchedStageEvidence d.actionMatches)

def inspectGroup (progress : Progress Report) (next : RankedGroup Report × Nat) :
    Progress Report :=
  let (group, index) := next
  let selected := group.representative.skill
  match evidenceOf d selected with
  | none => { progress with unavailable := true }
  | some [] => progress
  | some (first :: rest) =>
    let evidence := first :: rest
    { progress with
      matchedStagesBySkill := Function.update progress.matchedStagesBySkill selected.skillId
        (some (evidence.map Evidence.stage))
      stageMatchedFallbackGroups := progress.stageMatchedFallbackGroups ++
        if group.representative.score = 0 then
          [{ group with representative :=
            { group.representative with
              score := (evidence.map Evidence.score).foldl max 0
              matchReasons := [asciiUnits "STAGE_ACTION_MATCH"] } }]
        else []
      rankedFlows := progress.rankedFlows ++
        evidence.map fun found => (found.score, index, found.flow) }

def inspectedGroups : List (RankedGroup Report) := (inspectionGroups d).take 5

def progress : Progress Report :=
  (inspectedGroups d).zipIdx.foldl (inspectGroup d) ⟨fun _ => none, [], [], false⟩

def resultGroups : List (RankedGroup Report) :=
  (textualGroups d ++ (progress d).stageMatchedFallbackGroups).mergeSort fun left right =>
    rankedBefore left.representative right.representative

def foundReasons : List String :=
  d.listReasons ++ (if d.limit < d.actionMatches.length then ["ACTION_LIMIT"] else []) ++
    (if (inspectionGroups d).any fun group => 6 < group.members.length then
      ["ALTERNATE_SOURCE_LIMIT"] else []) ++
    (if 5 < (inspectionGroups d).length then ["SKILL_INSPECTION_LIMIT"] else []) ++
    (if (progress d).unavailable then ["SKILL_INSPECTION_UNAVAILABLE"] else []) ++
    (if 5 < (progress d).rankedFlows.length then ["FLOW_LIMIT"] else []) ++
    (if d.limit < (resultGroups d).length then ["SKILL_LIMIT"] else [])

def orderTruncationReasons (reasons : List String) : List String :=
  truncationOrder.filter (reasons.contains ·) ++
    (reasons.filter fun reason => !truncationOrder.contains reason).eraseDups.mergeSort

def truncationReasons : List String := orderTruncationReasons (foundReasons d)

/-- A version is in the group. -/
def InGroup (skill : CatalogEntry Report) (group : RankedGroup Report) : Prop :=
  ∃ member ∈ group.members, member.skill.skillId = skill.skillId ∧
    member.skill.fingerprint = skill.fingerprint

/-- What becomes of a version: its group is returned, was inspected without a match, or is
left out for a reason that is given. -/
def Accounted (skill : CatalogEntry Report) : Prop :=
  (∃ group ∈ (resultGroups d).take d.limit, InGroup skill group) ∨
    (∃ group ∈ inspectedGroups d, InGroup skill group ∧
      evidenceOf d group.representative.skill = some []) ∨
    (∃ group ∈ (resultGroups d).drop d.limit, InGroup skill group ∧
      "SKILL_LIMIT" ∈ truncationReasons d) ∨
    (∃ group ∈ (inspectionGroups d).drop 5, InGroup skill group ∧
      "SKILL_INSPECTION_LIMIT" ∈ truncationReasons d) ∨
    ∃ group ∈ inspectedGroups d, InGroup skill group ∧
      evidenceOf d group.representative.skill = none ∧
        "SKILL_INSPECTION_UNAVAILABLE" ∈ truncationReasons d

end Discover

section Groups

variable {d : Discovery Report} {found : List (SkillSearchMatch Report)}

/-- What the loop has found is what the inspections of these groups show. -/
structure Shows (d : Discovery Report) (groups : List (RankedGroup Report))
    (progress : Progress Report) : Prop where
  stages : ∀ id stages, progress.matchedStagesBySkill id = some stages → ∃ group ∈ groups,
    group.representative.skill.skillId = id ∧ ∃ first rest,
      evidenceOf d group.representative.skill = some (first :: rest) ∧
        stages = (first :: rest).map Evidence.stage
  flows : ∀ ranked ∈ progress.rankedFlows, ∃ group ∈ groups, ∃ evidence,
    evidenceOf d group.representative.skill = some evidence ∧
      ranked.2.2 ∈ evidence.map Evidence.flow
  fallback : ∀ group ∈ progress.stageMatchedFallbackGroups, ∃ before ∈ groups,
    group.representative.skill = before.representative.skill ∧ group.members = before.members
  inspected : ∀ group ∈ groups, evidenceOf d group.representative.skill = none ∧
      progress.unavailable = true ∨ evidenceOf d group.representative.skill = some [] ∨
    (group.representative.score = 0 → ∃ after ∈ progress.stageMatchedFallbackGroups,
      after.members = group.members)

/-- An inspection that shows no match adds nothing. -/
theorem Shows.pass {groups : List (RankedGroup Report)} {progress : Progress Report}
    (h : Shows d groups progress) {group : RankedGroup Report} {unavailable : Bool}
    (hunavailable : progress.unavailable = true → unavailable = true)
    (hgroup : evidenceOf d group.representative.skill = none ∧ unavailable = true ∨
      evidenceOf d group.representative.skill = some []) :
    Shows d (groups ++ [group]) { progress with unavailable } := by
  have hmore : ∀ {P : RankedGroup Report → Prop}, (∃ group ∈ groups, P group) →
      ∃ before ∈ groups ++ [group], P before := fun ⟨before, hbefore, hP⟩ =>
    ⟨before, List.mem_append_left _ hbefore, hP⟩
  refine ⟨fun id stages hid => hmore (h.stages id stages hid),
    fun ranked hranked => hmore (h.flows ranked hranked),
    fun after hafter => hmore (h.fallback after hafter), ?_⟩
  intro before hbefore
  obtain hbefore | hbefore := List.mem_append.mp hbefore
  · exact (h.inspected before hbefore).imp_left fun hnone => ⟨hnone.1, hunavailable hnone.2⟩
  · rw [List.mem_singleton.mp hbefore]
    exact hgroup.imp_right Or.inl

theorem Shows.inspectGroup {groups : List (RankedGroup Report)} {progress : Progress Report}
    (h : Shows d groups progress) (group : RankedGroup Report) (index : Nat) :
    Shows d (groups ++ [group]) (inspectGroup d progress (group, index)) := by
  rw [SkillDiscovery.inspectGroup]
  dsimp only
  split
  · rename_i hevidence
    exact h.pass (fun _ => rfl) (Or.inl ⟨hevidence, rfl⟩)
  · rename_i hevidence
    exact h.pass id (Or.inr hevidence)
  · rename_i first rest hevidence
    have hlast : group ∈ groups ++ [group] := by simp
    refine ⟨?_, ?_, ?_, ?_⟩
    · intro id stages hid
      dsimp only at hid
      rw [Function.update_apply] at hid
      split at hid
      · rename_i hsame
        exact ⟨group, hlast, hsame.symm, first, rest, hevidence, (Option.some.inj hid).symm⟩
      · obtain ⟨before, hbefore, hshows⟩ := h.stages id stages hid
        exact ⟨before, List.mem_append_left _ hbefore, hshows⟩
    · intro ranked hranked
      obtain hranked | hranked := List.mem_append.mp hranked
      · obtain ⟨before, hbefore, hshows⟩ := h.flows ranked hranked
        exact ⟨before, List.mem_append_left _ hbefore, hshows⟩
      · obtain ⟨found, hfound, rfl⟩ := List.mem_map.mp hranked
        exact ⟨group, hlast, first :: rest, hevidence, List.mem_map_of_mem hfound⟩
    · intro after hafter
      obtain hafter | hafter := List.mem_append.mp hafter
      · obtain ⟨before, hbefore, hshows⟩ := h.fallback after hafter
        exact ⟨before, List.mem_append_left _ hbefore, hshows⟩
      · split at hafter
        · rw [List.mem_singleton.mp hafter]
          exact ⟨group, hlast, rfl, rfl⟩
        · cases hafter
    · intro before hbefore
      obtain hbefore | hbefore := List.mem_append.mp hbefore
      · refine (h.inspected before hbefore).imp_right (Or.imp_right fun hscore hzero => ?_)
        obtain ⟨after, hafter, hmembers⟩ := hscore hzero
        exact ⟨after, List.mem_append_left _ hafter, hmembers⟩
      · rw [List.mem_singleton.mp hbefore]
        refine Or.inr (Or.inr fun hzero => ?_)
        rw [if_pos hzero]
        exact ⟨_, List.mem_append_right _ List.mem_cons_self, rfl⟩

end Groups

def versions (fingerprints : List JsText) : Discovery Unit where
  limit := 8
  candidateSkills := fingerprints.map fun fingerprint =>
    { skillId := asciiUnits "sk_1", name := asciiUnits "deploy", description := []
      sourceId := asciiUnits "ss_1", fingerprint, descriptorFingerprint := []
      nameCollision := false, compatibility := (), availability := .live, pinned := false }
  listReasons := []
  workspaceSourceIds := []
  rate := fun skill => if skill.fingerprint = asciiUnits "1" then some (900, []) else none
  actionMatches := [(asciiUnits "git.push", 10)]
  inspectSkill := fun skillId _ =>
    some ⟨skillId, asciiUnits "deploy", [⟨asciiUnits "push", none, (),
      [(asciiUnits "git.push", true)]⟩]⟩

end KodeGpt.SkillDiscovery
