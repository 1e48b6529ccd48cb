import KodeGpt.VerificationRecipes

/-!
Whether a verification that is listed can be run: a run lists again, without a target,
and looks for the id, which no other recipe has.
-/

namespace KodeGpt.VerificationRuns

open FallibleActions JsObjects ListCuts VerificationRecipes
open JsFrames (JsValue asciiUnits)
open NodePaths (slash dotName)

/-- An id of a project's recipe: the root's directory is left out. -/
def projectId (kind directory suffix : JsText) : JsText :=
  if directory = dotName then kind ++ suffix
  else kind ++ directory ++ asciiUnits ":" ++ suffix

theorem projectId_inj {kind directory directory' suffix suffix' : JsText}
    (hsuffix : 58 ∉ suffix) (hsuffix' : 58 ∉ suffix')
    (h : projectId kind directory suffix = projectId kind directory' suffix') :
    directory = directory' ∧ suffix = suffix' := by
  have hcolon : asciiUnits ":" = [58] := rfl
  rw [projectId, projectId, hcolon] at h
  split at h <;> split at h <;> simp only [List.append_assoc, List.append_cancel_left_eq,
    List.singleton_append] at h
  · exact ⟨by simp [*], h⟩
  · exact absurd (h ▸ List.mem_append_right _ List.mem_cons_self) hsuffix
  · exact absurd (h ▸ List.mem_append_right _ List.mem_cons_self) hsuffix'
  · have hcut := congrArg (cutLast [58]) h
    rw [cutLast_symbol directory hsuffix, cutLast_symbol directory' hsuffix'] at hcut
    exact Prod.mk.inj (Option.some.inj hcut)

/-- The path of a manifest of this name. -/
def IsManifest (name path : JsText) : Prop :=
  basename path = name ∧ dotName ∉ path.splitOn slash

theorem manifestDirectory_inj {name path other : JsText} (hpath : IsManifest name path)
    (hother : IsManifest name other) (h : manifestDirectory path = manifestDirectory other) :
    path = other := by
  have hdot {path directory back : JsText} (hcut : cutLast [slash] path = some (directory, back))
      (hrelative : dotName ∉ path.splitOn slash) : directory ≠ dotName := by
    rintro rfl
    apply hrelative
    rw [eq_of_cutLast hcut, List.singleton_append, splitOn_append_of_notMem (by decide)]
    exact List.mem_cons_self
  obtain ⟨hname, hrelative⟩ := hpath
  obtain ⟨hname', hrelative'⟩ := hother
  unfold basename at hname hname'
  unfold manifestDirectory at h
  cases hcut : cutLast [slash] path with
  | none =>
    rw [hcut] at hname h
    cases hcut' : cutLast [slash] other with
    | none =>
      rw [hcut'] at hname'
      exact hname.trans hname'.symm
    | some cut =>
      rw [hcut'] at h
      exact absurd h.symm (hdot hcut' hrelative')
  | some cut =>
    rw [hcut] at hname h
    cases hcut' : cutLast [slash] other with
    | none =>
      rw [hcut'] at h
      exact absurd h (hdot hcut hrelative)
    | some cut' =>
      rw [hcut'] at hname' h
      rw [eq_of_cutLast hcut, eq_of_cutLast hcut']
      simp only at h hname hname'
      rw [h, hname, hname']

theorem nodup_projectIds (kind : JsText) {name : JsText} {paths : List JsText}
    {suffixes : JsText → List JsText} (hpaths : paths.Nodup)
    (hmanifest : ∀ path ∈ paths, IsManifest name path)
    (hsuffixes : ∀ path, (suffixes path).Nodup ∧ ∀ suffix ∈ suffixes path, 58 ∉ suffix) :
    (paths.flatMap fun path =>
      (suffixes path).map (projectId kind (manifestDirectory path))).Nodup := by
  refine List.nodup_flatMap.mpr ⟨?_, ?_⟩
  · intro path _
    refine (hsuffixes path).1.map_on ?_
    intro suffix hsuffix suffix' hsuffix' h
    exact (projectId_inj ((hsuffixes path).2 suffix hsuffix)
      ((hsuffixes path).2 suffix' hsuffix') h).2
  · refine hpaths.imp_of_mem ?_
    intro path other hpath hother hne id hid hid'
    obtain ⟨suffix, hsuffix, rfl⟩ := List.mem_map.mp hid
    obtain ⟨suffix', hsuffix', h⟩ := List.mem_map.mp hid'
    apply hne
    exact manifestDirectory_inj (hmanifest path hpath) (hmanifest other hother)
      (projectId_inj ((hsuffixes other).2 suffix' hsuffix')
        ((hsuffixes path).2 suffix hsuffix) h).1.symm

theorem prefix_projectId (kind directory suffix : JsText) :
    kind <+: projectId kind directory suffix := by
  unfold projectId
  split
  · exact List.prefix_append _ _
  · rw [List.append_assoc, List.append_assoc]
    exact List.prefix_append _ _

section Lists

variable {State : Type} {w : Workspace State} {manifests : ProjectManifests}
  {configured : List RecipeLaunchDefinition} {recipes : List VerificationRecipe}

/-- The scripts of a manifest that recipes are made of. -/
def scriptsOf (w : Workspace State) (path : JsText) : List JsText :=
  match readPackageManifest w path with
  | .ok packageJson => (packageRecipeDefinitions.filter fun definition =>
    match member (member packageJson (asciiUnits "scripts")) definition.1 with
    | .string _ => true
    | _ => false).map Prod.fst
  | .error _ => []

def readRecipes (w : Workspace State) (rootManager : ManagerResolution) (path : JsText) :
    List VerificationRecipe :=
  (manifestRecipes w rootManager path).toOption.getD []

theorem readRecipes_ids (rootManager : ManagerResolution) (path : JsText) :
    (readRecipes w rootManager path).map VerificationRecipe.id =
      (scriptsOf w path).map (projectId (asciiUnits "package:") (manifestDirectory path)) := by
  unfold readRecipes manifestRecipes scriptsOf
  cases hread : readPackageManifest w path with
  | error error => rfl
  | ok packageJson =>
    simp only [bind, Except.bind, pure, Except.pure, Except.toOption, Option.getD_some,
      packageRecipes, List.map_map]
    refine List.map_congr_left ?_
    rintro ⟨script, label, category⟩ _
    dsimp only [Function.comp]
    split <;> rfl

theorem scriptsOf_spec (path : JsText) :
    (scriptsOf w path).Nodup ∧ ∀ script ∈ scriptsOf w path, 58 ∉ script := by
  have hsublist : (scriptsOf w path).Sublist (packageRecipeDefinitions.map Prod.fst) := by
    unfold scriptsOf
    split
    · exact List.filter_sublist.map _
    · exact List.nil_sublist _
  have hall : ∀ script ∈ packageRecipeDefinitions.map Prod.fst, 58 ∉ script := by decide
  exact ⟨hsublist.nodup (by decide), fun script hscript => hall script (hsublist.subset hscript)⟩

def cargoSuffixes (path : JsText) : List JsText :=
  (if path = cargoTomlName then ["test", "check", "fmt-check"] else ["test", "check"]).map
    asciiUnits

theorem cargoSuffixes_spec (path : JsText) :
    (cargoSuffixes path).Nodup ∧ ∀ suffix ∈ cargoSuffixes path, 58 ∉ suffix := by
  unfold cargoSuffixes
  split <;> decide

theorem cargoManifestRecipes_ids {path : JsText} (hpath : IsManifest cargoTomlName path) :
    (cargoManifestRecipes w path).map VerificationRecipe.id =
      (cargoSuffixes path).map (projectId (asciiUnits "cargo:") (manifestDirectory path)) := by
  unfold cargoManifestRecipes cargoSuffixes
  by_cases hroot : path = cargoTomlName
  · subst hroot
    rfl
  · have hdirectory : manifestDirectory path ≠ dotName := by
      intro hdot
      exact hroot (manifestDirectory_inj hpath ⟨by decide, by decide⟩ hdot)
    rw [if_neg hroot, if_neg hroot]
    simp only [cargoProjectRecipes, List.map_cons, List.map_nil, projectId, if_neg hdirectory]
    rfl

theorem moveRootFirst_perm (paths : List JsText) (rootManifest : JsText) :
    (moveRootFirst paths rootManifest).Perm paths := by
  unfold moveRootFirst
  split
  · rename_i hroot
    exact (List.perm_cons_erase hroot).symm
  · exact List.Perm.refl _

/-- The manifests of a kind are what they are named, each once. -/
def Found (name : JsText) (paths : List JsText) : Prop :=
  paths.Nodup ∧ ∀ path ∈ paths, IsManifest name path

theorem found_of_discover (h : discoverProjectManifests w = .ok manifests) :
    Found packageJsonName manifests.packagePaths ∧ Found cargoTomlName manifests.cargoPaths := by
  unfold discoverProjectManifests at h
  split at h
  · cases h
  · rename_i entries truncated _
    split at h
    · cases h
    · obtain rfl := Except.ok.inj h
      have hfound (name : JsText) : Found name (moveRootFirst
          ((manifestPaths entries).filter fun path => basename path = name) name) := by
        have hperm := moveRootFirst_perm
          ((manifestPaths entries).filter fun path => basename path = name) name
        constructor
        · have hnodup : (manifestPaths entries).Nodup :=
            (List.perm_insertionSort _ _).nodup_iff.mpr (List.nodup_dedup _)
          exact hperm.nodup_iff.mpr (hnodup.filter _)
        · intro path hpath
          obtain ⟨hpath, hname⟩ := List.mem_filter.mp (hperm.mem_iff.mp hpath)
          obtain ⟨hpath, -⟩ := List.mem_filter.mp
            (List.mem_dedup.mp ((List.mem_insertionSort _).mp hpath))
          obtain ⟨entry, -, rfl⟩ := List.mem_map.mp hpath
          exact ⟨of_decide_eq_true hname, entry.relative⟩
      exact ⟨hfound packageJsonName, hfound cargoTomlName⟩

theorem parseRecipe_id {entry : JsText × JsValue} {recipe : RecipeLaunchDefinition}
    (h : parseRecipe entry = .ok recipe) : recipe.id = asciiUnits "config:" ++ entry.1 := by
  unfold parseRecipe at h
  split at h
  · split at h
    · cases h
    · dsimp only at h
      split at h
      · split at h
        · split at h
          · rw [← Except.ok.inj h]
          · cases h
        · cases h
      · cases h
  · cases h

theorem parseRecipes_ids {entries : List (JsText × JsValue)}
    (h : entries.mapM parseRecipe = .ok configured) :
    configured.map RecipeLaunchDefinition.id =
      entries.map fun entry => asciiUnits "config:" ++ entry.1 := by
  have hall := forall₂_of_mapM h
  clear h
  induction hall with
  | nil => rfl
  | cons hrecipe _ ih => rw [List.map_cons, List.map_cons, parseRecipe_id hrecipe, ih]

theorem configEntries_eq_some {parsed : JsValue} {entries : List (JsText × JsValue)}
    (h : configEntries parsed = some entries) :
    member parsed (asciiUnits "recipes") = .object entries := by
  unfold configEntries at h
  split at h
  · rename_i hrecipes
    split at h
    · rw [hrecipes, Option.some.inj h]
    · cases h
  · cases h

theorem config_ids (h : readVerificationConfig w = .ok configured) :
    ∃ keys : List JsText, keys.Nodup ∧
      configured.map RecipeLaunchDefinition.id = keys.map (asciiUnits "config:" ++ ·) := by
  unfold readVerificationConfig at h
  split at h
  · cases h
  · obtain rfl := Except.ok.inj h
    exact ⟨[], List.nodup_nil, rfl⟩
  · split at h
    · cases h
    · split at h
      · cases h
      · rename_i contents _
        split at h
        · cases h
        · split at h
          · cases h
          · rename_i entries hentries
            obtain ⟨parsed, hparsed, hentries⟩ := Option.bind_eq_some_iff.mp hentries
            refine ⟨(sortedEntries entries).map Prod.fst, ?_, ?_⟩
            · exact ((List.perm_insertionSort _ _).map _).nodup_iff.mpr
                (w.parsedOnce _ _ _ _ hparsed (configEntries_eq_some hentries))
            · rw [List.map_map]
              exact parseRecipes_ids h

/-- What the manifests and the configuration give when every manifest is read. -/
def listed (w : Workspace State) (rootManager : ManagerResolution)
    (packagePaths cargoPaths : List JsText) (configured : List RecipeLaunchDefinition) :
    List VerificationRecipe :=
  packagePaths.flatMap (readRecipes w rootManager) ++
    cargoPaths.flatMap (cargoManifestRecipes w) ++ configured.map (withStaticAvailability w)

theorem listed_ids (rootManager : ManagerResolution) (packagePaths : List JsText)
    {cargoPaths : List JsText} (hcargo : Found cargoTomlName cargoPaths)
    (hconfig : readVerificationConfig w = .ok configured) :
    ∃ keys : List JsText, keys.Nodup ∧
      (listed w rootManager packagePaths cargoPaths configured).map VerificationRecipe.id =
        (packagePaths.flatMap fun path => (scriptsOf w path).map
          (projectId (asciiUnits "package:") (manifestDirectory path))) ++
        (cargoPaths.flatMap fun path => (cargoSuffixes path).map
          (projectId (asciiUnits "cargo:") (manifestDirectory path))) ++
        keys.map (asciiUnits "config:" ++ ·) := by
  obtain ⟨keys, hkeys, hconfigured⟩ := config_ids hconfig
  refine ⟨keys, hkeys, ?_⟩
  rw [listed, List.map_append, List.map_append, List.map_flatMap, List.map_flatMap, List.map_map]
  refine congrArg₂ (· ++ ·) (congrArg₂ (· ++ ·) ?_ ?_) hconfigured
  · exact List.flatMap_congr fun path _ => readRecipes_ids rootManager path
  · exact List.flatMap_congr fun path hpath => cargoManifestRecipes_ids (hcargo.2 path hpath)

theorem prefix_of_mem {kind id : JsText} {paths : List JsText} {suffixes : JsText → List JsText}
    (h : id ∈ paths.flatMap fun path =>
      (suffixes path).map (projectId kind (manifestDirectory path))) : kind <+: id := by
  obtain ⟨path, -, hid⟩ := List.mem_flatMap.mp h
  obtain ⟨suffix, -, rfl⟩ := List.mem_map.mp hid
  exact prefix_projectId kind _ suffix

theorem listed_ids_nodup (rootManager : ManagerResolution) {packagePaths cargoPaths : List JsText}
    (hpackages : Found packageJsonName packagePaths) (hcargo : Found cargoTomlName cargoPaths)
    (hconfig : readVerificationConfig w = .ok configured) :
    ((listed w rootManager packagePaths cargoPaths configured).map
      VerificationRecipe.id).Nodup ∧
    ∀ recipe ∈ listed w rootManager packagePaths cargoPaths configured, recipe.id ≠ [] := by
  obtain ⟨keys, hkeys, hids⟩ := listed_ids rootManager packagePaths hcargo hconfig
  constructor
  · rw [hids]
    have hapart {kind kind' id : JsText} (hkinds : ¬(kind <+: kind' ∨ kind' <+: kind))
        (hid : kind <+: id) (hid' : kind' <+: id) : False :=
      hkinds (List.prefix_or_prefix_of_prefix hid hid')
    refine List.nodup_append.mpr ⟨List.nodup_append.mpr ⟨?_, ?_, ?_⟩, ?_, ?_⟩
    · exact nodup_projectIds _ hpackages.1 hpackages.2 scriptsOf_spec
    · exact nodup_projectIds _ hcargo.1 hcargo.2 cargoSuffixes_spec
    · rintro id hid _ hid' rfl
      exact hapart (by decide) (prefix_of_mem hid) (prefix_of_mem hid')
    · exact hkeys.map fun _ _ => List.append_cancel_left
    · rintro id hid _ hid' rfl
      obtain ⟨key, -, rfl⟩ := List.mem_map.mp hid'
      have hconfigPrefix := List.prefix_append (asciiUnits "config:") key
      obtain hid | hid := List.mem_append.mp hid
      · exact hapart (by decide) (prefix_of_mem hid) hconfigPrefix
      · exact hapart (by decide) (prefix_of_mem hid) hconfigPrefix
  · intro recipe hrecipe hempty
    have hid := List.mem_map_of_mem (f := VerificationRecipe.id) hrecipe
    rw [hids, hempty] at hid
    obtain hid | hid := List.mem_append.mp hid
    · obtain hid | hid := List.mem_append.mp hid
      · exact absurd (prefix_of_mem hid) (by decide)
      · exact absurd (prefix_of_mem hid) (by decide)
    · obtain ⟨key, -, hkey⟩ := List.mem_map.mp hid
      cases hkey

theorem scoped_subset {kind : ProjectKind} {paths : List JsText} {target : Option JsText} :
    scopedManifestPaths kind paths target manifests ⊆ paths := by
  intro path hpath
  unfold scopedManifestPaths at hpath
  split at hpath
  · exact hpath
  · split at hpath
    · exact (List.mem_filter.mp ((List.mem_insertionSort _).mp hpath)).1
    · cases hpath

theorem Found.scoped {kind : ProjectKind} {name : JsText} {paths : List JsText}
    {target : Option JsText} (h : Found name paths) :
    Found name (scopedManifestPaths kind paths target manifests) := by
  refine ⟨?_, fun path hpath => h.2 path (scoped_subset hpath)⟩
  unfold scopedManifestPaths
  split
  · exact h.1
  · split
    · exact (List.perm_insertionSort _ _).nodup_iff.mpr (h.1.filter _)
    · exact List.nodup_nil

/-- The root's manifest is in scope when another one is. -/
theorem root_mem_scoped {path : JsText} {target : Option JsText}
    (hpath : path ∈ scopedManifestPaths .package manifests.packagePaths target manifests) :
    packageJsonName ∈ scopedManifestPaths .package manifests.packagePaths target manifests ↔
      packageJsonName ∈ manifests.packagePaths := by
  refine ⟨fun h => scoped_subset h, ?_⟩
  intro hroot
  cases target with
  | none => exact hroot
  | some target =>
    unfold scopedManifestPaths at hpath ⊢
    dsimp only at hpath ⊢
    split at hpath
    · rename_i hactive
      rw [if_pos hactive]
      have hdirectory : manifestDirectory packageJsonName = dotName := rfl
      refine (List.mem_insertionSort _).mpr (List.mem_filter.mpr ⟨hroot, ?_⟩)
      rw [hdirectory]
      rfl
    · cases hpath

/-- Every manifest of the list is read as a record. -/
def Readable (w : Workspace State) (packagePaths : List JsText) : Prop :=
  ∀ path ∈ packagePaths, ∃ packageJson, readPackageManifest w path = .ok packageJson

theorem recipesOf_ok {target : Option JsText}
    (h : recipesOf w manifests configured target = .ok recipes) :
    Readable w (scopedManifestPaths .package manifests.packagePaths target manifests) ∧
      ∃ rootManager, rootManagerOf w (scopedManifestPaths .package manifests.packagePaths target
          manifests) = .ok rootManager ∧
        recipes = listed w rootManager
          (scopedManifestPaths .package manifests.packagePaths target manifests)
          (scopedManifestPaths .cargo manifests.cargoPaths target manifests) configured := by
  obtain ⟨rootManager, hroot, h⟩ := bind_eq_ok_iff.mp h
  obtain ⟨packages, hpackages, h⟩ := bind_eq_ok_iff.mp h
  constructor
  · intro path hpath
    obtain ⟨_, -, hread⟩ := exists_of_mapM hpackages hpath
    obtain ⟨packageJson, hread, -⟩ := bind_eq_ok_iff.mp hread
    exact ⟨packageJson, hread⟩
  · refine ⟨rootManager, hroot, ?_⟩
    have hflat : packages = _ := eq_map_of_mapM (g := readRecipes w rootManager)
      (fun path found hfound => by rw [readRecipes, hfound]; rfl) hpackages
    rw [← Except.ok.inj h, hflat, ← List.flatMap_def]
    rfl

theorem recipesOf_of_readable (configured : List RecipeLaunchDefinition)
    (h : Readable w manifests.packagePaths) :
    ∃ recipes, recipesOf w manifests configured none = .ok recipes := by
  have hroot : ∃ rootManager, rootManagerOf w manifests.packagePaths = .ok rootManager := by
    unfold rootManagerOf
    split
    · rename_i hmem
      obtain ⟨packageJson, hread⟩ := h _ hmem
      exact ⟨_, bind_eq_ok_iff.mpr ⟨packageJson, hread, rfl⟩⟩
    · exact ⟨_, rfl⟩
  obtain ⟨rootManager, hroot⟩ := hroot
  have hall : ∀ path ∈ manifests.packagePaths,
      ∃ found, manifestRecipes w rootManager path = .ok found := by
    intro path hpath
    obtain ⟨packageJson, hread⟩ := h path hpath
    exact ⟨_, bind_eq_ok_iff.mpr ⟨packageJson, hread, rfl⟩⟩
  obtain ⟨packages, hpackages⟩ := mapM_of_forall hall
  exact ⟨_, bind_eq_ok_iff.mpr ⟨rootManager, hroot, bind_eq_ok_iff.mpr ⟨packages, hpackages, rfl⟩⟩⟩

/-- What is listed for a target is listed without one. -/
theorem recipesOf_subset {target : Option JsText} {all : List VerificationRecipe}
    (h : recipesOf w manifests configured target = .ok recipes)
    (hall : recipesOf w manifests configured none = .ok all) : recipes ⊆ all := by
  obtain ⟨-, rootManager, hroot, rfl⟩ := recipesOf_ok h
  obtain ⟨-, rootManager', hroot', rfl⟩ := recipesOf_ok hall
  intro recipe hrecipe
  obtain hrecipe | hrecipe := List.mem_append.mp hrecipe
  · refine List.mem_append_left _ ?_
    obtain hrecipe | hrecipe := List.mem_append.mp hrecipe
    · obtain ⟨path, hpath, hrecipe⟩ := List.mem_flatMap.mp hrecipe
      have hsame : rootManager = rootManager' := by
        unfold rootManagerOf at hroot hroot'
        rw [if_congr (root_mem_scoped hpath) rfl rfl] at hroot
        exact Except.ok.inj (hroot.symm.trans hroot')
      subst hsame
      exact List.mem_append_left _ (List.mem_flatMap.mpr ⟨path, scoped_subset hpath, hrecipe⟩)
    · obtain ⟨path, hpath, hrecipe⟩ := List.mem_flatMap.mp hrecipe
      exact List.mem_append_right _ (List.mem_flatMap.mpr ⟨path, scoped_subset hpath, hrecipe⟩)
  · exact List.mem_append_right _ hrecipe

theorem discover_ok {found : ProjectManifests × List RecipeLaunchDefinition}
    (h : discover w = .ok found) :
    discoverProjectManifests w = .ok found.1 ∧ readVerificationConfig w = .ok found.2 := by
  unfold discover at h
  split at h
  · cases h
  · obtain ⟨manifests, hmanifests, h⟩ := bind_eq_ok_iff.mp h
    split at h
    · cases h
    · obtain ⟨configured, hconfigured, rfl⟩ := map_eq_ok_iff.mp h
      exact ⟨hmanifests, hconfigured⟩

theorem listVerifications_ok {workspaceId : JsText} {target : Option JsText}
    (h : listVerifications w workspaceId target = .ok recipes) :
    workspaceId ≠ [] ∧ ∃ found, discover w = .ok found ∧
      recipesOf w found.1 found.2 target = .ok recipes := by
  unfold listVerifications at h
  split at h
  · cases h
  · rename_i hinput
    rw [Bool.or_eq_true, not_or, decide_eq_true_iff] at hinput
    exact ⟨hinput.1, bind_eq_ok_iff.mp h⟩

theorem recipes_nodup {found : ProjectManifests × List RecipeLaunchDefinition}
    {target : Option JsText} (hfound : discover w = .ok found)
    (h : recipesOf w found.1 found.2 target = .ok recipes) :
    (recipes.map VerificationRecipe.id).Nodup ∧ ∀ recipe ∈ recipes, recipe.id ≠ [] := by
  obtain ⟨hmanifests, hconfig⟩ := discover_ok hfound
  obtain ⟨hpackages, hcargo⟩ := found_of_discover hmanifests
  obtain ⟨-, rootManager, -, rfl⟩ := recipesOf_ok h
  exact listed_ids_nodup rootManager hpackages.scoped hcargo.scoped hconfig

theorem find?_of_nodup (hnodup : (recipes.map VerificationRecipe.id).Nodup)
    {recipe : VerificationRecipe} (hrecipe : recipe ∈ recipes) :
    recipes.find? (fun candidate => candidate.id = recipe.id) = some recipe := by
  induction recipes with
  | nil => cases hrecipe
  | cons first rest ih =>
    obtain ⟨hfirst, hrest⟩ := List.nodup_cons.mp hnodup
    obtain rfl | hlater := List.mem_cons.mp hrecipe
    · simp
    · have hne : first.id ≠ recipe.id := by
        intro hsame
        exact hfirst (hsame ▸ List.mem_map_of_mem hlater)
      rw [List.find?_cons_of_neg (by simpa using hne)]
      exact ih hrest hlater

theorem allowed_cases {target : Option JsText}
    (h : recipesOf w manifests configured target = .ok recipes) {recipe : VerificationRecipe}
    (hrecipe : recipe ∈ recipes) (hallowed : recipe.allowed = true) :
    ∃ definition, recipe = withStaticAvailability w definition := by
  obtain ⟨-, rootManager, -, rfl⟩ := recipesOf_ok h
  obtain hrecipe | hrecipe := List.mem_append.mp hrecipe
  · obtain hrecipe | hrecipe := List.mem_append.mp hrecipe
    · obtain ⟨path, -, hrecipe⟩ := List.mem_flatMap.mp hrecipe
      unfold readRecipes manifestRecipes at hrecipe
      cases hread : readPackageManifest w path with
      | error error =>
        rw [hread] at hrecipe
        cases hrecipe
      | ok packageJson =>
        rw [hread] at hrecipe
        obtain ⟨⟨script, label, category⟩, -, rfl⟩ := List.mem_map.mp hrecipe
        dsimp only at hallowed ⊢
        split at hallowed
        · exact ⟨_, rfl⟩
        · cases hallowed
    · obtain ⟨path, -, hrecipe⟩ := List.mem_flatMap.mp hrecipe
      obtain ⟨definition, -, rfl⟩ := List.mem_map.mp hrecipe
      exact ⟨definition, rfl⟩
  · obtain ⟨definition, -, rfl⟩ := List.mem_map.mp hrecipe
    exact ⟨definition, rfl⟩

/-- The recipe is run by its id, and what is started is what is listed. -/
def Executes (w : Workspace State) (workspaceId : JsText) (recipe : VerificationRecipe)
    (background : Option Bool) : Prop :=
  ∃ launch sourceState,
    runVerification w ⟨workspaceId, recipe.id, background⟩ = .ok (recipe, launch, sourceState) ∧
      recipe.logicalExecutable = some launch.logicalExecutable ∧
        recipe.argv = some launch.argv ∧ recipe.cwd = some launch.cwd

/-- Every package manifest of the workspace can be read. -/
def ManifestsReadable (w : Workspace State) : Prop :=
  ∀ manifests, discoverProjectManifests w = .ok manifests → Readable w manifests.packagePaths

theorem executes_iff {workspaceId : JsText} {target : Option JsText}
    (h : listVerifications w workspaceId target = .ok recipes) {recipe : VerificationRecipe}
    (hrecipe : recipe ∈ recipes) (hallowed : recipe.allowed = true) (background : Option Bool) :
    Executes w workspaceId recipe background ↔
      ManifestsReadable w ∧ ∃ sourceState, w.resolveSourceState = .ok sourceState := by
  obtain ⟨hworkspace, found, hfound, hlisted⟩ := listVerifications_ok h
  have hmanifests := (discover_ok hfound).1
  constructor
  · rintro ⟨launch, sourceState, hrun, -⟩
    unfold runVerification at hrun
    rw [if_neg hworkspace] at hrun
    split at hrun
    · cases hrun
    · obtain ⟨current, hcurrent, hrun⟩ := bind_eq_ok_iff.mp hrun
      constructor
      · obtain ⟨-, found', hfound', hcurrent⟩ := listVerifications_ok hcurrent
        obtain rfl := Except.ok.inj (hfound.symm.trans hfound')
        intro manifests hmanifests'
        obtain rfl := Except.ok.inj (hmanifests.symm.trans hmanifests')
        exact (recipesOf_ok hcurrent).1
      · split at hrun
        · cases hrun
        · split at hrun
          · cases hrun
          · obtain ⟨state, hstate, -⟩ := map_eq_ok_iff.mp hrun
            exact ⟨state, hstate⟩
  · rintro ⟨hreadable, sourceState, hstate⟩
    obtain ⟨all, hall⟩ := recipesOf_of_readable found.2 (hreadable found.1 hmanifests)
    obtain ⟨hnodup, hids⟩ := recipes_nodup hfound hall
    have hmem := recipesOf_subset hlisted hall hrecipe
    have hcurrent : listVerifications w workspaceId none = .ok all := by
      unfold listVerifications
      rw [if_neg (by simpa using hworkspace)]
      exact bind_eq_ok_iff.mpr ⟨found, hfound, hall⟩
    obtain ⟨definition, rfl⟩ := allowed_cases hlisted hrecipe hallowed
    refine ⟨⟨workspaceId, definition.id, definition.logicalExecutable, definition.argv,
      definition.cwd, background⟩, sourceState, ?_, rfl, rfl, rfl⟩
    unfold runVerification
    rw [if_neg hworkspace, if_neg (hids _ hmem)]
    refine bind_eq_ok_iff.mpr ⟨all, hcurrent, ?_⟩
    rw [find?_of_nodup hnodup hmem]
    dsimp only
    unfold launchOf
    rw [hallowed]
    exact map_eq_ok_iff.mpr ⟨sourceState, hstate, rfl⟩

/-- The ids of a list are distinct; and a recipe that is listed as allowed is run as it is
listed, just when every package manifest can be read and the source state is known. -/
theorem listed_runs_iff (w : Workspace State) (workspaceId : JsText) (target : Option JsText)
    (recipes : List VerificationRecipe)
    (h : listVerifications w workspaceId target = .ok recipes) :
    (recipes.map VerificationRecipe.id).Nodup ∧
      ∀ recipe ∈ recipes, recipe.allowed = true → ∀ background,
        (Executes w workspaceId recipe background ↔
          ManifestsReadable w ∧ ∃ sourceState, w.resolveSourceState = .ok sourceState) := by
  obtain ⟨-, found, hfound, hlisted⟩ := listVerifications_ok h
  exact ⟨(recipes_nodup hfound hlisted).1, fun _ hrecipe hallowed background =>
    executes_iff h hrecipe hallowed background⟩

end Lists

/-- A crate, and a package in another directory whose manifest is empty or an empty record. -/
def crateAndPackage (manifest : JsText) : Workspace Unit where
  pathIdentity := fun _ => some none
  tree := some ([⟨asciiUnits "core/Cargo.toml", true, by decide⟩,
    ⟨asciiUnits "web/package.json", true, by decide⟩], false)
  readFile := fun _ => some ⟨manifest, utf8Length manifest, true⟩
  parseJson := fun text => if text = [] then none else some (.object [])
  parsedOnce := by
    intro text value key members h hmember
    split at h
    · cases h
    · obtain rfl := Option.some.inj h
      cases hmember
  allowProcess := true
  allowDynamicExecutables := false
  allowedExecutableNames := [asciiUnits "cargo"]
  inspectExecutable := fun _ => some (true, true)
  resolveSourceState := .ok ()

def crateRecipes (manifest : JsText) : Except CapabilityError (List VerificationRecipe) :=
  listVerifications (crateAndPackage manifest) (asciiUnits "ws_1") (some (asciiUnits "core/lib.rs"))

theorem crateRecipes_allowed (manifest : JsText) (h : (crateRecipes manifest).toOption.any
    (fun recipes => recipes.any VerificationRecipe.allowed) = true) :
    ∃ recipes, crateRecipes manifest = .ok recipes ∧
      ∃ recipe ∈ recipes, recipe.allowed = true := by
  cases hlist : crateRecipes manifest with
  | error error =>
    rw [hlist] at h
    cases h
  | ok recipes =>
    rw [hlist] at h
    exact ⟨recipes, rfl, List.any_eq_true.mp h⟩

/-- The package's manifest is read. -/
theorem readableManifest_runs : ∃ recipes, crateRecipes (asciiUnits "\x7b\x7d") = .ok recipes ∧
    (recipes.map VerificationRecipe.id).Nodup ∧
      ∃ recipe ∈ recipes, Executes (crateAndPackage (asciiUnits "\x7b\x7d")) (asciiUnits "ws_1")
        recipe none := by
  obtain ⟨recipes, hlist, recipe, hrecipe, hallowed⟩ :=
    crateRecipes_allowed (asciiUnits "\x7b\x7d") (by decide +kernel)
  obtain ⟨hnodup, hruns⟩ := listed_runs_iff _ _ _ recipes hlist
  refine ⟨recipes, hlist, hnodup, recipe, hrecipe, (hruns recipe hrecipe hallowed none).mpr ?_⟩
  exact ⟨fun _ _ _ _ => ⟨.object [], rfl⟩, (), rfl⟩

/-- The package's manifest is no JSON. -/
theorem brokenManifest_not_runs : ¬∀ (w : Workspace Unit) (workspaceId : JsText)
    (target : Option JsText) (recipes : List VerificationRecipe),
    listVerifications w workspaceId target = .ok recipes →
      (recipes.map VerificationRecipe.id).Nodup ∧ ∀ recipe ∈ recipes, recipe.allowed = true →
        ∀ background, Executes w workspaceId recipe background := by
  intro h
  obtain ⟨recipes, hlist, recipe, hrecipe, hallowed⟩ := crateRecipes_allowed [] (by decide +kernel)
  have hruns := (h _ _ _ recipes hlist).2 recipe hrecipe hallowed none
  obtain ⟨hreadable, -⟩ := (executes_iff hlist hrecipe hallowed none).mp hruns
  have hfound : (discoverProjectManifests (crateAndPackage [])).toOption.any
      (fun manifests => manifests.packagePaths ≠ []) = true := by
    decide +kernel
  cases hmanifests : discoverProjectManifests (crateAndPackage []) with
  | error error =>
    rw [hmanifests] at hfound
    cases hfound
  | ok manifests =>
    rw [hmanifests] at hfound
    obtain ⟨path, hpath⟩ := List.exists_mem_of_ne_nil _ (of_decide_eq_true hfound)
    obtain ⟨packageJson, hread⟩ := hreadable manifests hmanifests path hpath
    cases hread

end KodeGpt.VerificationRuns
