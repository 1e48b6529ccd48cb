import KodeGpt.PinStores

/-!
Listings of the pinned skills in every run of pins and unpins, wherever they stop: a listing
returns, and what it returns can be loaded, as long as it meets no snapshot from which an
unpin has removed a part.
-/

namespace KodeGpt.PinStoreRuns

open JsFrames JsObjects KeyedFamily NodePaths PinnedSkills PinStores TransitionSystem
open JsonText (Bytes)

variable (p : Platform)

def Loadable (s : State) (skillId fingerprint : JsText) : Prop :=
  ∃ tree raw, s.entry skillId (.final fingerprint) = some tree ∧
    load p tree skillId fingerprint = .ok raw

/-- No listing has failed, every listing that has not returned can go on, and what a listing
returns with its next step can be loaded. -/
structure Reliable (s : State) : Prop where
  succeeds : ∀ number, s.calls number ≠ some (.list .rejected)
  enabled : ∀ number phase, s.calls number = some (.list phase) →
    (∀ manifests, phase ≠ .resolved manifests) → (next p s (.step number)).isSome
  loadable : ∀ number phase manifests, s.calls number = some (.list phase) →
    s.stepList p phase = some (.resolved manifests) →
      ∀ manifest ∈ manifests, Loadable p s manifest.skillId manifest.fingerprint

def Collected (collected : List Manifest) (skillId fingerprint : JsText) : Prop :=
  ∃ manifest ∈ collected, manifest.skillId = skillId ∧ manifest.fingerprint = fingerprint

/-- The listing has the snapshot's manifest, or has seen its directory and will read it. -/
def Uses (skillId fingerprint : JsText) : ListPhase → Prop
  | .skills _ collected => Collected collected skillId fingerprint
  | .entries current pending _ collected =>
    (current = skillId ∧ .final fingerprint ∈ pending) ∨ Collected collected skillId fingerprint
  | .reading current opened pending _ collected =>
    (current = skillId ∧ (opened = fingerprint ∨ .final fingerprint ∈ pending)) ∨
      Collected collected skillId fingerprint
  | _ => False

/-- The listing has seen the skill's directory and will read it. -/
def Awaits (skillId : JsText) : ListPhase → Prop
  | .skills pending _ | .entries _ _ pending _ | .reading _ _ _ pending _ => skillId ∈ pending
  | _ => False

/-- An unpin removes nothing that a running listing uses, and a listing opens the directory of
a skill when no snapshot in it has been removed in part. -/
def Intact (s : State) (event : Event) : Prop :=
  match event with
  | .unlink number _ => ∀ skillId fingerprint,
      s.calls number = some (.unpin skillId fingerprint .removing) →
        ∀ number' phase, s.calls number' = some (.list phase) → ¬Uses skillId fingerprint phase
  | .step number =>
    (∀ skillId fingerprint directory,
      s.calls number = some (.unpin skillId fingerprint .removingSkill) →
        s.skills.lookup skillId = some directory → directory.keys = [] →
          ∀ number' phase, s.calls number' = some (.list phase) → ¬Awaits skillId phase) ∧
    ∀ skillId rest collected, s.calls number = some (.list (.skills (skillId :: rest) collected)) →
      ∀ fingerprint, (skillId, fingerprint) ∉ s.torn
  | _ => True

def Loads (tree : Tree) (skillId fingerprint : JsText) : Prop :=
  ∃ raw, load p tree skillId fingerprint = .ok raw

/-- The directories have proper names, and a snapshot is complete unless it is torn. -/
structure Files (s : State) : Prop where
  named : ∀ skillId directory, s.skills.lookup skillId = some directory →
    isSkillId skillId = true
  final : ∀ skillId fingerprint tree, s.entry skillId (.final fingerprint) = some tree →
    isSha256 fingerprint = true
  whole : ∀ skillId fingerprint tree, s.entry skillId (.final fingerprint) = some tree →
    (skillId, fingerprint) ∈ s.torn ∨ Loads p tree skillId fingerprint

/-- The temporary directory holds what the steps taken so far write. -/
def Staged (s : State) (number : Nat) (input : ValidatedPinInput) (phase : PinPhase) : Prop :=
  ∀ tree, s.entry input.manifest.skillId (temporaryName number input) = some tree →
    match phase with
    | .writing rest => ∃ done, done ++ rest = pinScript input ∧
        done.foldlM Tree.apply Tree.empty = some tree
    | .rechecking | .replacing => Built input tree
    | _ => True

/-- What a listing uses can be loaded, and the directories that it awaits are there. -/
structure Served (s : State) (phase : ListPhase) : Prop where
  running : phase ≠ .rejected
  loadable : ∀ skillId fingerprint, Uses skillId fingerprint phase →
    Loadable p s skillId fingerprint
  present : ∀ skillId, Awaits skillId phase → (s.skills.lookup skillId).isSome

structure Sound (s : State) : Prop where
  files : Files p s
  pins : ∀ number input phase, s.calls number = some (.pin input phase) →
    Valid p input ∧ Staged s number input phase
  lists : ∀ number phase, s.calls number = some (.list phase) → Served p s phase

/-- The temporary directories of the other calls are as they were, or gone. -/
def Untouched (number : Nat) (s t : State) : Prop :=
  ∀ skillId fingerprint other tree, other ≠ number →
    t.entry skillId (.temporary fingerprint other) = some tree →
      s.entry skillId (.temporary fingerprint other) = some tree

variable {p}

theorem Staged.of_untouched {s t : State} {number other : Nat} {input : ValidatedPinInput}
    {phase : PinPhase} (h : Staged s other input phase) (huntouched : Untouched number s t)
    (hother : other ≠ number) : Staged t other input phase :=
  fun tree htree => h tree (huntouched _ _ other tree hother htree)

structure Changes (p : Platform) (number : Nat) (s t : State) : Prop where
  files : Files p t
  calls : t.calls = s.calls
  untouched : Untouched number s t
  served : ∀ number' phase, s.calls number' = some (.list phase) → Served p s phase →
    Served p t phase

theorem Sound.move {s t : State} (h : Sound p s) {number : Nat} {call : Call}
    (hchanges : Changes p number s t)
    (hpin : ∀ input phase, call = .pin input phase → Valid p input ∧ Staged t number input phase)
    (hlist : ∀ phase, call = .list phase → Served p t phase) : Sound p (t.setCall number call) where
  files := ⟨hchanges.files.named, hchanges.files.final, hchanges.files.whole⟩
  pins := by
    intro found input phase hfound
    obtain ⟨rfl, heq⟩ | ⟨hne, hfound⟩ := update_eq_some hfound
    · exact hpin input phase heq.symm
    · rw [hchanges.calls] at hfound
      obtain ⟨hvalid, hstaged⟩ := h.pins found input phase hfound
      exact ⟨hvalid, hstaged.of_untouched hchanges.untouched hne⟩
  lists := by
    intro found phase hfound
    obtain ⟨rfl, heq⟩ | ⟨-, hfound⟩ := update_eq_some hfound
    · have hnew := hlist phase heq.symm
      exact ⟨hnew.running, hnew.loadable, hnew.present⟩
    · rw [hchanges.calls] at hfound
      have hold := hchanges.served found phase hfound (h.lists found phase hfound)
      exact ⟨hold.running, hold.loadable, hold.present⟩

section Entries

variable {s : State} {skillId : JsText} {name : Name} {tree : Tree}

theorem entry_setEntry (skillId' : JsText) (name' : Name) :
    (s.setEntry skillId name tree).entry skillId' name' =
      if skillId' = skillId ∧ name' = name then some tree else s.entry skillId' name' := by
  unfold State.entry State.setEntry
  by_cases hskill : skillId' = skillId
  · subst hskill
    simp only [AList.lookup_insert, Option.bind_some, true_and]
    by_cases hname : name' = name
    · subst hname
      rw [if_pos rfl, AList.lookup_insert]
    · rw [if_neg hname, AList.lookup_insert_ne hname]
      cases s.skills.lookup skillId' with
      | none => rfl
      | some directory => rfl
  · rw [if_neg fun hboth => hskill hboth.1]
    dsimp only
    rw [AList.lookup_insert_ne hskill]

theorem entry_eraseEntry (skillId' : JsText) (name' : Name) :
    (s.eraseEntry skillId name).entry skillId' name' =
      if skillId' = skillId ∧ name' = name then none else s.entry skillId' name' := by
  unfold State.entry State.eraseEntry
  dsimp only
  cases hdirectory : s.skills.lookup skillId with
  | none =>
    dsimp only
    by_cases hboth : skillId' = skillId ∧ name' = name
    · rw [if_pos hboth, hboth.1, hdirectory]
      rfl
    · rw [if_neg hboth]
  | some directory =>
    dsimp only
    by_cases hskill : skillId' = skillId
    · subst hskill
      simp only [AList.lookup_insert, Option.bind_some, true_and, hdirectory]
      by_cases hname : name' = name
      · subst hname
        rw [if_pos rfl, AList.lookup_erase]
      · rw [if_neg hname, AList.lookup_erase_ne hname]
    · rw [if_neg fun hboth => hskill hboth.1, AList.lookup_insert_ne hskill]

theorem isSome_setEntry {skillId' : JsText} (h : (s.skills.lookup skillId').isSome) :
    ((s.setEntry skillId name tree).skills.lookup skillId').isSome := by
  unfold State.setEntry
  by_cases hskill : skillId' = skillId
  · rw [hskill, AList.lookup_insert]
    rfl
  · rw [AList.lookup_insert_ne hskill]
    exact h

theorem isSome_eraseEntry {skillId' : JsText} (h : (s.skills.lookup skillId').isSome) :
    ((s.eraseEntry skillId name).skills.lookup skillId').isSome := by
  unfold State.eraseEntry
  dsimp only
  cases s.skills.lookup skillId with
  | none => exact h
  | some directory =>
    dsimp only
    by_cases hskill : skillId' = skillId
    · rw [hskill, AList.lookup_insert]
      rfl
    · rw [AList.lookup_insert_ne hskill]
      exact h

theorem named_setEntry (hnamed : isSkillId skillId = true)
    (h : ∀ skillId directory, s.skills.lookup skillId = some directory → isSkillId skillId = true) :
    ∀ skillId' directory, (s.setEntry skillId name tree).skills.lookup skillId' = some directory →
      isSkillId skillId' = true := by
  intro skillId' directory hlookup
  obtain ⟨rfl, -⟩ | ⟨-, hold⟩ := lookup_insert_eq_some hlookup
  · exact hnamed
  · exact h skillId' directory hold

theorem named_eraseEntry
    (h : ∀ skillId directory, s.skills.lookup skillId = some directory → isSkillId skillId = true) :
    ∀ skillId' directory, (s.eraseEntry skillId name).skills.lookup skillId' = some directory →
      isSkillId skillId' = true := by
  intro skillId' directory hlookup
  unfold State.eraseEntry at hlookup
  dsimp only at hlookup
  cases hdirectory : s.skills.lookup skillId with
  | none =>
    rw [hdirectory] at hlookup
    exact h skillId' directory hlookup
  | some before =>
    rw [hdirectory] at hlookup
    obtain ⟨rfl, -⟩ | ⟨-, hold⟩ := lookup_insert_eq_some hlookup
    · exact h _ before hdirectory
    · exact h skillId' directory hold

theorem Served.of_finals {s t : State} {phase : ListPhase} (h : Served p s phase)
    (hfinal : ∀ skillId fingerprint tree, Uses skillId fingerprint phase →
      s.entry skillId (.final fingerprint) = some tree → Loads p tree skillId fingerprint →
        Loadable p t skillId fingerprint)
    (hpresent : ∀ skillId, Awaits skillId phase → (s.skills.lookup skillId).isSome →
      (t.skills.lookup skillId).isSome) : Served p t phase where
  running := h.running
  loadable := by
    intro skillId fingerprint huses
    obtain ⟨tree, raw, hentry, hload⟩ := h.loadable skillId fingerprint huses
    exact hfinal skillId fingerprint tree huses hentry ⟨raw, hload⟩
  present := fun skillId hawaits => hpresent skillId hawaits (h.present skillId hawaits)

end Entries

section Changes

variable {s : State} {number : Nat}

theorem Changes.refl (h : Files p s) : Changes p number s s where
  files := h
  calls := rfl
  untouched := fun _ _ _ _ _ htree => htree
  served := fun _ _ _ hserved => hserved

theorem Files.of_entries {t : State} (h : Files p s)
    (hnamed : ∀ skillId directory, t.skills.lookup skillId = some directory →
      isSkillId skillId = true)
    (hfinals : ∀ skillId fingerprint,
      t.entry skillId (.final fingerprint) = s.entry skillId (.final fingerprint))
    (htorn : t.torn = s.torn) : Files p t where
  named := hnamed
  final := by
    intro skillId fingerprint tree htree
    rw [hfinals] at htree
    exact h.final skillId fingerprint tree htree
  whole := by
    intro skillId fingerprint tree htree
    rw [hfinals] at htree
    rw [htorn]
    exact h.whole skillId fingerprint tree htree

theorem changes_of_finals {t : State} (h : Files p s)
    (hnamed : ∀ skillId directory, t.skills.lookup skillId = some directory →
      isSkillId skillId = true)
    (hfinals : ∀ skillId fingerprint,
      t.entry skillId (.final fingerprint) = s.entry skillId (.final fingerprint))
    (htorn : t.torn = s.torn) (hcalls : t.calls = s.calls) (huntouched : Untouched number s t)
    (hpresent : ∀ skillId, (s.skills.lookup skillId).isSome → (t.skills.lookup skillId).isSome) :
    Changes p number s t where
  files := h.of_entries hnamed hfinals htorn
  calls := hcalls
  untouched := huntouched
  served := by
    intro number' phase _ hserved
    refine hserved.of_finals ?_ fun skillId _ => hpresent skillId
    rintro skillId fingerprint tree - hentry ⟨raw, hload⟩
    exact ⟨tree, raw, (hfinals skillId fingerprint).trans hentry, hload⟩

theorem changes_root (h : Files p s) : Changes p number s { s with rootExists := true } :=
  changes_of_finals h h.named (fun _ _ => rfl) rfl rfl (fun _ _ _ _ _ htree => htree)
    fun _ hsome => hsome

theorem lookup_insert_getD (skills : Family JsText (Family Name Tree)) (skillId skillId' : JsText)
    (name : Name) :
    ((skills.insert skillId ((skills.lookup skillId).getD ∅)).lookup skillId').bind
        (fun directory => directory.lookup name) =
      (skills.lookup skillId').bind fun directory => directory.lookup name := by
  by_cases hskill : skillId' = skillId
  · rw [hskill, AList.lookup_insert]
    cases skills.lookup skillId with
    | none => rfl
    | some directory => rfl
  · rw [AList.lookup_insert_ne hskill]

theorem changes_skill (h : Files p s) {skillId : JsText} (hnamed : isSkillId skillId = true) :
    Changes p number s
      { s with
        rootExists := true
        skills := s.skills.insert skillId ((s.skills.lookup skillId).getD ∅) } := by
  refine changes_of_finals h ?_ (fun skillId' fingerprint => lookup_insert_getD _ _ _ _) rfl rfl ?_ ?_
  · intro skillId' directory hlookup
    obtain ⟨rfl, -⟩ | ⟨-, hold⟩ := lookup_insert_eq_some hlookup
    · exact hnamed
    · exact h.named skillId' directory hold
  · intro skillId' fingerprint other tree _ htree
    exact (lookup_insert_getD s.skills skillId skillId' _).symm.trans htree
  · intro skillId' hsome
    by_cases hskill : skillId' = skillId
    · rw [hskill, AList.lookup_insert]
      rfl
    · rw [AList.lookup_insert_ne hskill]
      exact hsome

theorem changes_setTemporary (h : Files p s) {skillId fingerprint : JsText} {tree : Tree}
    (hnamed : isSkillId skillId = true) :
    Changes p number s (s.setEntry skillId (.temporary fingerprint number) tree) := by
  refine changes_of_finals h (named_setEntry hnamed h.named) ?_ rfl rfl ?_
    fun _ hsome => isSome_setEntry hsome
  · intro skillId' fingerprint'
    rw [entry_setEntry, if_neg]
    rintro ⟨-, ⟨⟩⟩
  · intro skillId' fingerprint' other tree' hother htree
    rw [entry_setEntry, if_neg] at htree
    · exact htree
    · rintro ⟨-, heq⟩
      exact hother (Name.temporary.inj heq).2

theorem changes_eraseTemporary (h : Files p s) (skillId fingerprint : JsText) :
    Changes p number s (s.eraseEntry skillId (.temporary fingerprint number)) := by
  refine changes_of_finals h (named_eraseEntry h.named) ?_ rfl rfl ?_
    fun _ hsome => isSome_eraseEntry hsome
  · intro skillId' fingerprint'
    rw [entry_eraseEntry, if_neg]
    rintro ⟨-, ⟨⟩⟩
  · intro skillId' fingerprint' other tree' hother htree
    rw [entry_eraseEntry, if_neg] at htree
    · exact htree
    · rintro ⟨-, heq⟩
      exact hother (Name.temporary.inj heq).2

theorem not_loads_of_isEmpty {tree : Tree} (hempty : tree.isEmpty = true) (skillId fingerprint : JsText) :
    ¬Loads p tree skillId fingerprint := by
  rintro ⟨raw, hload⟩
  have hread := manifest_of_load hload
  have hnone : tree.files.lookup [manifestFile] = none := by
    rw [AList.lookup_eq_none, AList.mem_keys]
    rw [Tree.isEmpty, Bool.and_eq_true, decide_eq_true_eq] at hempty
    rw [hempty.1]
    exact List.not_mem_nil
  rw [readManifest, hnone] at hread
  cases hread

theorem names_of_valid {input : ValidatedPinInput} (h : Valid p input) :
    isSkillId input.manifest.skillId = true ∧ isSha256 input.manifest.fingerprint = true := by
  have hmanifest := h.manifest
  simp only [validateManifest, pinnedManifestSchema, Bool.and_eq_true] at hmanifest
  obtain ⟨⟨⟨⟨⟨⟨⟨⟨hschema, -⟩, -⟩, -⟩, -⟩, -⟩, -⟩, -⟩, -⟩ := hmanifest
  obtain ⟨⟨⟨⟨⟨⟨⟨⟨hskill, -⟩, -⟩, hfingerprint⟩, -⟩, -⟩, -⟩, -⟩, -⟩ := hschema
  exact ⟨hskill, hfingerprint⟩

theorem changes_renamed (h : Files p s) {input : ValidatedPinInput} {tree : Tree}
    (hvalid : Valid p input) (hbuilt : Built input tree)
    (hfree : ∀ old, s.entry input.manifest.skillId (finalName input) = some old →
      old.isEmpty = true) : Changes p number s (renamed number input s tree) := by
  obtain ⟨raw, hload, -⟩ := hbuilt.load hvalid
  have hids := names_of_valid hvalid
  have hentry : ∀ skillId fingerprint,
      (renamed number input s tree).entry skillId (.final fingerprint) =
        if skillId = input.manifest.skillId ∧ fingerprint = input.manifest.fingerprint then some tree
        else s.entry skillId (.final fingerprint) := by
    intro skillId fingerprint
    have hset := @entry_setEntry (s.eraseEntry input.manifest.skillId (temporaryName number input))
      input.manifest.skillId (finalName input) tree skillId (.final fingerprint)
    have herase : (s.eraseEntry input.manifest.skillId (temporaryName number input)).entry skillId
        (.final fingerprint) = s.entry skillId (.final fingerprint) := by
      rw [entry_eraseEntry, if_neg]
      rintro ⟨-, ⟨⟩⟩
    rw [herase] at hset
    refine hset.trans ?_
    simp only [finalName, Name.final.injEq]
  refine { files := ?_, calls := rfl, untouched := ?_, served := ?_ }
  · refine { named := named_setEntry hids.1 (named_eraseEntry h.named), final := ?_, whole := ?_ }
    · intro skillId fingerprint found hfound
      rw [hentry] at hfound
      split at hfound
      · rename_i hnames
        rw [hnames.2]
        exact hids.2
      · exact h.final skillId fingerprint found hfound
    · intro skillId fingerprint found hfound
      rw [hentry] at hfound
      split at hfound
      · rename_i hnames
        obtain rfl := Option.some.inj hfound
        rw [hnames.1, hnames.2]
        exact Or.inr ⟨raw, hload⟩
      · rename_i hnames
        refine (h.whole skillId fingerprint found hfound).imp_left fun htorn => ?_
        refine List.mem_filter.mpr ⟨htorn, decide_eq_true fun heq => ?_⟩
        exact hnames (Prod.mk.inj heq)
  · intro skillId fingerprint other found hother hfound
    have hset := @entry_setEntry (s.eraseEntry input.manifest.skillId (temporaryName number input))
      input.manifest.skillId (finalName input) tree skillId (.temporary fingerprint other)
    rw [if_neg (by rintro ⟨-, ⟨⟩⟩)] at hset
    have herase := hset.symm.trans hfound
    rw [entry_eraseEntry, if_neg] at herase
    · exact herase
    · rintro ⟨-, heq⟩
      exact hother (Name.temporary.inj heq).2
  · intro number' phase _ hserved
    refine hserved.of_finals ?_ fun skillId _ hsome => isSome_setEntry (isSome_eraseEntry hsome)
    rintro skillId fingerprint found - hfound ⟨other, hloads⟩
    by_cases hnames : skillId = input.manifest.skillId ∧ fingerprint = input.manifest.fingerprint
    · obtain ⟨rfl, rfl⟩ := hnames
      exact absurd ⟨other, hloads⟩ (not_loads_of_isEmpty (hfree found hfound) _ _)
    · exact ⟨found, other, (hentry skillId fingerprint).trans ((if_neg hnames).trans hfound), hloads⟩

theorem changes_unlink (h : Files p s) {skillId fingerprint : JsText} {old tree : Tree}
    (hold : s.entry skillId (.final fingerprint) = some old)
    (hunused : ∀ number' phase, s.calls number' = some (.list phase) →
      ¬Uses skillId fingerprint phase) :
    Changes p number s { s.setEntry skillId (.final fingerprint) tree with
      torn := (skillId, fingerprint) :: s.torn } := by
  have hnamed : isSkillId skillId = true := by
    obtain ⟨directory, hdirectory, -⟩ := Option.bind_eq_some_iff.mp hold
    exact h.named skillId directory hdirectory
  have hentry : ∀ skillId' fingerprint',
      (s.setEntry skillId (.final fingerprint) tree).entry skillId' (.final fingerprint') =
        if skillId' = skillId ∧ fingerprint' = fingerprint then some tree
        else s.entry skillId' (.final fingerprint') := by
    intro skillId' fingerprint'
    rw [entry_setEntry]
    simp only [Name.final.injEq]
  refine { files := ?_, calls := rfl, untouched := ?_, served := ?_ }
  · refine { named := named_setEntry hnamed h.named, final := ?_, whole := ?_ }
    · intro skillId' fingerprint' found hfound
      replace hfound := (hentry skillId' fingerprint').symm.trans hfound
      split at hfound
      · rename_i hnames
        rw [hnames.2]
        exact h.final skillId fingerprint old hold
      · exact h.final skillId' fingerprint' found hfound
    · intro skillId' fingerprint' found hfound
      replace hfound := (hentry skillId' fingerprint').symm.trans hfound
      split at hfound
      · rename_i hnames
        rw [hnames.1, hnames.2]
        exact Or.inl List.mem_cons_self
      · exact (h.whole skillId' fingerprint' found hfound).imp_left (List.mem_cons_of_mem _)
  · intro skillId' fingerprint' other found hother hfound
    have hset := @entry_setEntry s skillId (.final fingerprint) tree skillId'
      (.temporary fingerprint' other)
    rw [if_neg (by rintro ⟨-, ⟨⟩⟩)] at hset
    exact hset.symm.trans hfound
  · intro number' phase hphase hserved
    refine hserved.of_finals ?_ fun skillId' _ hsome => isSome_setEntry hsome
    rintro skillId' fingerprint' found huses hfound ⟨raw, hload⟩
    have hnames : ¬(skillId' = skillId ∧ fingerprint' = fingerprint) := by
      rintro ⟨rfl, rfl⟩
      exact hunused number' phase hphase huses
    exact ⟨found, raw, (hentry skillId' fingerprint').trans ((if_neg hnames).trans hfound), hload⟩

theorem changes_removeFinal (h : Files p s) {skillId fingerprint : JsText} {old : Tree}
    (hold : s.entry skillId (.final fingerprint) = some old) (hempty : old.isEmpty = true) :
    Changes p number s { s.eraseEntry skillId (.final fingerprint) with
      torn := s.torn.filter (· ≠ (skillId, fingerprint)) } := by
  have hentry : ∀ skillId' fingerprint',
      (s.eraseEntry skillId (.final fingerprint)).entry skillId' (.final fingerprint') =
        if skillId' = skillId ∧ fingerprint' = fingerprint then none
        else s.entry skillId' (.final fingerprint') := by
    intro skillId' fingerprint'
    rw [entry_eraseEntry]
    simp only [Name.final.injEq]
  refine { files := ?_, calls := rfl, untouched := ?_, served := ?_ }
  · refine { named := named_eraseEntry h.named, final := ?_, whole := ?_ }
    · intro skillId' fingerprint' found hfound
      replace hfound := (hentry skillId' fingerprint').symm.trans hfound
      split at hfound
      · cases hfound
      · exact h.final skillId' fingerprint' found hfound
    · intro skillId' fingerprint' found hfound
      replace hfound := (hentry skillId' fingerprint').symm.trans hfound
      split at hfound
      · cases hfound
      · rename_i hnames
        refine (h.whole skillId' fingerprint' found hfound).imp_left fun htorn => ?_
        refine List.mem_filter.mpr ⟨htorn, decide_eq_true fun heq => ?_⟩
        exact hnames (Prod.mk.inj heq)
  · intro skillId' fingerprint' other found hother hfound
    have herase := @entry_eraseEntry s skillId (.final fingerprint) skillId'
      (.temporary fingerprint' other)
    rw [if_neg (by rintro ⟨-, ⟨⟩⟩)] at herase
    exact herase.symm.trans hfound
  · intro number' phase hphase hserved
    refine hserved.of_finals ?_ fun skillId' _ hsome => isSome_eraseEntry hsome
    rintro skillId' fingerprint' found - hfound ⟨raw, hload⟩
    have hnames : ¬(skillId' = skillId ∧ fingerprint' = fingerprint) := by
      rintro ⟨rfl, rfl⟩
      obtain rfl := Option.some.inj (hold.symm.trans hfound)
      exact not_loads_of_isEmpty hempty _ _ ⟨raw, hload⟩
    exact ⟨found, raw, (hentry skillId' fingerprint').trans ((if_neg hnames).trans hfound), hload⟩

theorem changes_removeSkill (h : Files p s) {skillId : JsText} {directory : Family Name Tree}
    (hdirectory : s.skills.lookup skillId = some directory) (hempty : directory.keys = [])
    (hunused : ∀ number' phase, s.calls number' = some (.list phase) → ¬Awaits skillId phase) :
    Changes p number s { s with skills := s.skills.erase skillId } := by
  have hentry : ∀ skillId' name, State.entry { s with skills := s.skills.erase skillId } skillId' name =
      s.entry skillId' name := by
    intro skillId' name
    unfold State.entry
    dsimp only
    by_cases hskill : skillId' = skillId
    · rw [hskill, AList.lookup_erase, hdirectory]
      have hnone : directory.lookup name = none := by
        rw [AList.lookup_eq_none, AList.mem_keys, hempty]
        exact List.not_mem_nil
      exact hnone.symm
    · rw [AList.lookup_erase_ne hskill]
  refine { files := ?_, calls := rfl, untouched := ?_, served := ?_ }
  · exact h.of_entries (fun skillId' directory' hlookup =>
      h.named skillId' directory' (lookup_erase_eq_some hlookup).2)
      (fun skillId' fingerprint => hentry skillId' _) rfl
  · intro skillId' fingerprint other found _ hfound
    exact (hentry skillId' _).symm.trans hfound
  · intro number' phase hphase hserved
    refine hserved.of_finals ?_ ?_
    · rintro skillId' fingerprint found - hfound ⟨raw, hload⟩
      exact ⟨found, raw, (hentry skillId' _).trans hfound, hload⟩
    · intro skillId' hawaits hsome
      have hne : skillId' ≠ skillId := by
        rintro rfl
        exact hunused number' phase hphase hawaits
      rw [AList.lookup_erase_ne hne]
      exact hsome

end Changes

section Steps

variable {s t : State} {number : Nat}

theorem Sound.setPin {u : State} (h : Sound p s) {input : ValidatedPinInput} {phase : PinPhase}
    (hvalid : Valid p input) (hchanges : Changes p number s u)
    (hstaged : Staged u number input phase) : Sound p (setPin number input u phase) := by
  refine h.move hchanges ?_ nofun
  rintro found after ⟨⟩
  exact ⟨hvalid, hstaged⟩

theorem Sound.dropTemporary (h : Sound p s) {input : ValidatedPinInput} {after : PinPhase}
    (hvalid : Valid p input) (hafter : after = .comparing ∨ after = .rejected)
    (hnext : dropTemporary s number input after = some t) : Sound p t := by
  have hstaged : ∀ u, Staged u number input after := by
    intro u tree _
    obtain rfl | rfl := hafter <;> trivial
  unfold PinStores.dropTemporary at hnext
  split at hnext
  · obtain rfl := Option.some.inj hnext
    exact h.setPin hvalid (Changes.refl h.files) (hstaged _)
  · obtain ⟨-, heq⟩ := Option.ite_none_right_eq_some.mp hnext
    obtain rfl := Option.some.inj heq
    exact h.setPin hvalid (changes_eraseTemporary h.files _ _) (hstaged _)

theorem Staged.write {input : ValidatedPinInput} {operation : TreeOperation}
    {rest : List TreeOperation} {before after : Tree}
    (h : Staged s number input (.writing (operation :: rest)))
    (hbefore : s.entry input.manifest.skillId (temporaryName number input) = some before)
    (hafter : before.apply operation = some after) :
    Staged (s.setEntry input.manifest.skillId (temporaryName number input) after) number input
      (.writing rest) := by
  obtain ⟨done, hscript, hdone⟩ := h before hbefore
  intro tree htree
  rw [entry_setEntry, if_pos ⟨rfl, rfl⟩] at htree
  obtain rfl := Option.some.inj htree
  refine ⟨done ++ [operation], ?_, ?_⟩
  · rw [List.append_assoc]
    exact hscript
  · rw [List.foldlM_append, hdone]
    show (before.apply operation).bind _ = _
    rw [hafter]
    rfl

theorem Sound.stepPin (h : Sound p s) {input : ValidatedPinInput} {phase : PinPhase}
    (hcall : s.calls number = some (.pin input phase))
    (hnext : s.stepPin p number input phase = some t) : Sound p t := by
  obtain ⟨hvalid, hstaged⟩ := h.pins number input phase hcall
  have hids := names_of_valid hvalid
  have hsame : Changes p number s s := Changes.refl h.files
  unfold State.stepPin at hnext
  cases phase with
  | checking =>
    dsimp only at hnext
    split at hnext
    · obtain rfl := Option.some.inj hnext
      exact h.setPin hvalid hsame fun _ _ => trivial
    · split at hnext <;> obtain rfl := Option.some.inj hnext <;>
        exact h.setPin hvalid hsame fun _ _ => trivial
  | comparing =>
    dsimp only at hnext
    split at hnext
    · obtain rfl := Option.some.inj hnext
      exact h.setPin hvalid hsame fun _ _ => trivial
    · split at hnext <;> obtain rfl := Option.some.inj hnext <;>
        exact h.setPin hvalid hsame fun _ _ => trivial
  | preparingRoot =>
    obtain rfl := Option.some.inj hnext
    exact h.setPin hvalid (changes_root h.files) fun _ _ => trivial
  | preparingSkill =>
    obtain rfl := Option.some.inj hnext
    exact h.setPin hvalid (changes_skill h.files hids.1) fun _ _ => trivial
  | staging =>
    dsimp only at hnext
    split at hnext
    · obtain rfl := Option.some.inj hnext
      refine h.setPin hvalid (changes_setTemporary h.files hids.1) ?_
      intro tree htree
      rw [entry_setEntry, if_pos ⟨rfl, rfl⟩] at htree
      obtain rfl := Option.some.inj htree
      exact ⟨[], rfl, rfl⟩
    · obtain rfl := Option.some.inj hnext
      exact h.setPin hvalid hsame fun _ _ => trivial
  | writing script =>
    cases script with
    | nil =>
      obtain rfl := Option.some.inj hnext
      refine h.setPin hvalid hsame ?_
      intro tree htree
      obtain ⟨done, hscript, hdone⟩ := hstaged tree htree
      rw [List.append_nil] at hscript
      rw [hscript] at hdone
      exact hdone
    | cons operation rest =>
      dsimp only at hnext
      split at hnext
      · obtain rfl := Option.some.inj hnext
        exact h.setPin hvalid hsame fun _ _ => trivial
      · rename_i after happly
        obtain rfl := Option.some.inj hnext
        obtain ⟨before, hbefore, hafter⟩ := Option.bind_eq_some_iff.mp happly
        exact h.setPin hvalid (changes_setTemporary h.files hids.1)
          (hstaged.write hbefore hafter)
  | rechecking =>
    dsimp only at hnext
    split at hnext
    · obtain rfl := Option.some.inj hnext
      exact h.setPin hvalid hsame hstaged
    · split at hnext <;> obtain rfl := Option.some.inj hnext <;>
        exact h.setPin hvalid hsame fun _ _ => trivial
  | replacing =>
    dsimp only at hnext
    split at hnext
    · obtain rfl := Option.some.inj hnext
      exact h.setPin hvalid hsame fun _ _ => trivial
    · rename_i tree htree
      split at hnext
      · obtain rfl := Option.some.inj hnext
        exact h.setPin hvalid hsame fun _ _ => trivial
      · rename_i hfree
        obtain rfl := Option.some.inj hnext
        refine h.setPin hvalid (changes_renamed h.files hvalid (hstaged tree htree) ?_)
          fun _ _ => trivial
        intro old hold
        rw [hold] at hfree
        simpa using hfree
  | discarding => exact h.dropTemporary hvalid (Or.inl rfl) hnext
  | syncing =>
    obtain rfl := Option.some.inj hnext
    exact h.setPin hvalid hsame fun _ _ => trivial
  | cleaning => exact h.dropTemporary hvalid (Or.inr rfl) hnext
  | resolved => cases hnext
  | rejected => cases hnext

theorem Sound.failPin (h : Sound p s) {input : ValidatedPinInput} {phase : PinPhase}
    (hcall : s.calls number = some (.pin input phase))
    (hnext : s.failPin number input phase = some t) : Sound p t := by
  obtain ⟨hvalid, -⟩ := h.pins number input phase hcall
  have hsame : Changes p number s s := Changes.refl h.files
  unfold State.failPin at hnext
  split at hnext
  all_goals first
    | obtain rfl := Option.some.inj hnext
      exact h.setPin hvalid hsame fun _ _ => trivial
    | cases hnext

theorem Sound.setUnpin {u : State} (h : Sound p s) {skillId fingerprint : JsText}
    {phase : UnpinPhase} (hchanges : Changes p number s u) :
    Sound p (setUnpin number skillId fingerprint u phase) :=
  h.move hchanges nofun nofun

theorem Sound.stepUnpin (h : Sound p s) {skillId fingerprint : JsText} {phase : UnpinPhase}
    (hcall : s.calls number = some (.unpin skillId fingerprint phase))
    (hintact : Intact s (.step number))
    (hnext : s.stepUnpin number skillId fingerprint phase = some t) : Sound p t := by
  have hsame : Changes p number s s := Changes.refl h.files
  unfold State.stepUnpin at hnext
  cases phase with
  | looking =>
    dsimp only at hnext
    split at hnext <;> obtain rfl := Option.some.inj hnext <;> exact h.setUnpin hsame
  | removing =>
    dsimp only at hnext
    split at hnext
    · obtain rfl := Option.some.inj hnext
      exact h.setUnpin hsame
    · rename_i tree htree
      obtain ⟨hempty, heq⟩ := Option.ite_none_right_eq_some.mp hnext
      obtain rfl := Option.some.inj heq
      exact h.setUnpin (changes_removeFinal h.files htree hempty)
  | listing =>
    dsimp only at hnext
    split at hnext
    · obtain rfl := Option.some.inj hnext
      exact h.setUnpin hsame
    · split at hnext <;> obtain rfl := Option.some.inj hnext <;> exact h.setUnpin hsame
  | removingSkill =>
    dsimp only at hnext
    split at hnext
    · obtain rfl := Option.some.inj hnext
      exact h.setUnpin hsame
    · rename_i directory hdirectory
      split at hnext
      · rename_i hempty
        obtain rfl := Option.some.inj hnext
        exact h.setUnpin (changes_removeSkill h.files hdirectory hempty
          (hintact.1 skillId fingerprint directory hcall hdirectory hempty))
      · obtain rfl := Option.some.inj hnext
        exact h.setUnpin hsame
  | syncing =>
    obtain rfl := Option.some.inj hnext
    exact h.setUnpin hsame
  | resolved => cases hnext
  | rejected => cases hnext

theorem Served.reading_loadable {skillId fingerprint : JsText} {pending : List Name}
    {rest : List JsText} {collected : List Manifest}
    (h : Served p s (.reading skillId fingerprint pending rest collected)) :
    Loadable p s skillId fingerprint :=
  h.loadable skillId fingerprint (Or.inl ⟨rfl, Or.inl rfl⟩)

theorem Collected.append {collected : List Manifest} {manifest : Manifest}
    {skillId fingerprint : JsText} (h : Collected (collected ++ [manifest]) skillId fingerprint) :
    Collected collected skillId fingerprint ∨
      (manifest.skillId = skillId ∧ manifest.fingerprint = fingerprint) := by
  obtain ⟨found, hmem, hnames⟩ := h
  obtain hold | hnew := List.mem_append.mp hmem
  · exact Or.inl ⟨found, hold, hnames⟩
  · obtain rfl := List.mem_singleton.mp hnew
    exact Or.inr hnames

theorem Loadable.manifest {skillId fingerprint : JsText} (h : Loadable p s skillId fingerprint)
    {tree : Tree} (htree : s.entry skillId (.final fingerprint) = some tree) :
    ∃ manifest, readManifest p tree skillId fingerprint = .ok manifest ∧
      [manifestFile] ∈ tree.files := by
  obtain ⟨found, raw, hfound, hload⟩ := h
  obtain rfl := Option.some.inj (htree.symm.trans hfound)
  have hread := manifest_of_load hload
  refine ⟨raw.manifest, hread, ?_⟩
  rw [readManifest] at hread
  split at hread
  · rename_i hlookup
    exact AList.lookup_isSome.mp (by rw [hlookup]; rfl)
  · cases hread

theorem Served.stepList (hfiles : Files p s) {phase : ListPhase} (h : Served p s phase)
    (hopens : ∀ skillId rest collected, phase = .skills (skillId :: rest) collected →
      ∀ fingerprint, (skillId, fingerprint) ∉ s.torn)
    (hrunning : ∀ manifests, phase ≠ .resolved manifests) :
    ∃ after, s.stepList p phase = some after ∧ Served p s after := by
  cases phase with
  | readingRoot =>
    unfold State.stepList
    dsimp only
    split
    · refine ⟨_, rfl, { running := nofun, loadable := ?_, present := ?_ }⟩
      · rintro skillId fingerprint ⟨manifest, hmem, -⟩
        cases hmem
      · intro skillId hawaits
        have hkey : skillId ∈ s.skills.keys := (List.mem_insertionSort _).mp hawaits
        exact AList.lookup_isSome.mpr (AList.mem_keys.mpr hkey)
    · exact ⟨_, rfl, { running := nofun, loadable := nofun, present := nofun }⟩
  | skills pending collected =>
    cases pending with
    | nil => exact ⟨_, rfl, { running := nofun, loadable := nofun, present := nofun }⟩
    | cons skillId rest =>
      obtain ⟨directory, hdirectory⟩ := Option.isSome_iff_exists.mp
        (h.present skillId List.mem_cons_self)
      unfold State.stepList
      dsimp only
      rw [if_pos (hfiles.named skillId directory hdirectory), hdirectory]
      refine ⟨_, rfl, { running := nofun, loadable := ?_, present := ?_ }⟩
      · rintro skillId' fingerprint (⟨rfl, hpending⟩ | hcollected)
        · have hkey : Name.final fingerprint ∈ directory.keys := (List.mem_insertionSort _).mp hpending
          obtain ⟨tree, htree⟩ := Option.isSome_iff_exists.mp
            (AList.lookup_isSome.mpr (AList.mem_keys.mpr hkey))
          have hentry : s.entry skillId (.final fingerprint) = some tree := by
            rw [State.entry, hdirectory]
            exact htree
          obtain htorn | ⟨raw, hload⟩ := hfiles.whole skillId fingerprint tree hentry
          · exact absurd htorn (hopens skillId rest collected rfl fingerprint)
          · exact ⟨tree, raw, hentry, hload⟩
        · exact h.loadable skillId' fingerprint hcollected
      · exact fun skillId' hawaits => h.present skillId' (List.mem_cons_of_mem _ hawaits)
  | entries skillId pending rest collected =>
    cases pending with
    | nil =>
      refine ⟨_, rfl, { running := nofun, loadable := ?_, present := h.present }⟩
      exact fun skillId' fingerprint hcollected => h.loadable _ _ (Or.inr hcollected)
    | cons name pending =>
      cases name with
      | temporary fingerprint other =>
        refine ⟨_, rfl, { running := nofun, loadable := ?_, present := h.present }⟩
        rintro skillId' fingerprint' (⟨hskill, hpending⟩ | hcollected)
        · exact h.loadable _ _ (Or.inl ⟨hskill, List.mem_cons_of_mem _ hpending⟩)
        · exact h.loadable _ _ (Or.inr hcollected)
      | final fingerprint =>
        have hloadable := h.loadable skillId fingerprint
          (Or.inl ⟨rfl, List.mem_cons_self⟩)
        obtain ⟨tree, raw, htree, hload⟩ := hloadable
        obtain ⟨manifest, -, hmanifest⟩ := Loadable.manifest ⟨tree, raw, htree, hload⟩ htree
        have hguard : isSha256 fingerprint ∧ (s.entry skillId (.final fingerprint)).any
            fun tree => [manifestFile] ∈ tree.files := by
          rw [htree]
          exact ⟨hfiles.final skillId fingerprint tree htree, decide_eq_true hmanifest⟩
        unfold State.stepList
        dsimp only
        rw [if_pos hguard]
        refine ⟨_, rfl, { running := nofun, loadable := ?_, present := h.present }⟩
        rintro skillId' fingerprint' (⟨hskill, hopened | hpending⟩ | hcollected)
        · refine h.loadable _ _ (Or.inl ⟨hskill, ?_⟩)
          rw [hopened]
          exact List.mem_cons_self
        · exact h.loadable _ _ (Or.inl ⟨hskill, List.mem_cons_of_mem _ hpending⟩)
        · exact h.loadable _ _ (Or.inr hcollected)
  | reading skillId fingerprint pending rest collected =>
    have hloadable := h.reading_loadable
    obtain ⟨tree, raw, htree, hload⟩ := hloadable
    obtain ⟨manifest, hread, -⟩ := Loadable.manifest ⟨tree, raw, htree, hload⟩ htree
    obtain ⟨-, hskill, hfingerprint⟩ := names_of_readManifest hread
    unfold State.stepList
    dsimp only
    rw [htree]
    dsimp only
    rw [hread]
    refine ⟨_, rfl, { running := nofun, loadable := ?_, present := h.present }⟩
    rintro skillId' fingerprint' (⟨hcurrent, hpending⟩ | hcollected)
    · exact h.loadable _ _ (Or.inl ⟨hcurrent, Or.inr hpending⟩)
    · obtain hold | ⟨rfl, rfl⟩ := hcollected.append
      · exact h.loadable _ _ (Or.inr hold)
      · rw [hskill, hfingerprint]
        exact ⟨tree, raw, htree, hload⟩
  | resolved manifests => exact absurd rfl (hrunning manifests)
  | rejected => exact absurd rfl h.running

theorem Sound.step_list (h : Sound p s) {phase : ListPhase}
    (hcall : s.calls number = some (.list phase)) (hintact : Intact s (.step number))
    (hrunning : ∀ manifests, phase ≠ .resolved manifests) :
    ∃ after, s.stepList p phase = some after ∧ Served p s after := by
  refine (h.lists number phase hcall).stepList h.files ?_ hrunning
  rintro skillId rest collected rfl
  exact hintact.2 skillId rest collected hcall

theorem Sound.step {call : Call} (h : Sound p s) (hcall : s.calls number = some call)
    (hintact : Intact s (.step number)) (hnext : s.step p number call = some t) : Sound p t := by
  cases call with
  | pin input phase => exact h.stepPin hcall hnext
  | unpin skillId fingerprint phase => exact h.stepUnpin hcall hintact hnext
  | list phase =>
    obtain ⟨found, hfound, rfl⟩ := Option.map_eq_some_iff.mp hnext
    have hrunning : ∀ manifests, phase ≠ .resolved manifests := by
      rintro manifests rfl
      cases hfound
    obtain ⟨after, hafter, hserved⟩ := h.step_list hcall hintact hrunning
    obtain rfl := Option.some.inj (hfound.symm.trans hafter)
    refine h.move (Changes.refl h.files) nofun ?_
    rintro later ⟨⟩
    exact hserved
  | refused => cases hnext

theorem Sound.change {u : State} (h : Sound p s) (hchanges : Changes p number s u)
    (hpin : ∀ input phase, s.calls number = some (.pin input phase) → Staged u number input phase) :
    Sound p u where
  files := hchanges.files
  pins := by
    intro found input phase hfound
    rw [hchanges.calls] at hfound
    obtain ⟨hvalid, hstaged⟩ := h.pins found input phase hfound
    refine ⟨hvalid, ?_⟩
    by_cases hsame : found = number
    · subst hsame
      exact hpin input phase hfound
    · exact hstaged.of_untouched hchanges.untouched hsame
  lists := by
    intro found phase hfound
    rw [hchanges.calls] at hfound
    exact hchanges.served found phase hfound (h.lists found phase hfound)

theorem Sound.unlink {call : Call} {path : Path} (h : Sound p s)
    (hcall : s.calls number = some call) (hintact : Intact s (.unlink number path))
    (hnext : s.unlink number path call = some t) : Sound p t := by
  unfold State.unlink at hnext
  split at hnext
  · rename_i skillId fingerprint
    obtain ⟨tree, htree, rfl⟩ := Option.map_eq_some_iff.mp hnext
    obtain ⟨old, hold, -⟩ := Option.bind_eq_some_iff.mp htree
    have hchanges : Changes p number s { s.setEntry skillId (.final fingerprint) tree with
        torn := (skillId, fingerprint) :: s.torn } :=
      changes_unlink h.files hold (hintact skillId fingerprint hcall)
    refine h.change hchanges ?_
    intro input phase hpin
    cases hcall.symm.trans hpin
  · rename_i input
    obtain ⟨tree, htree, rfl⟩ := Option.map_eq_some_iff.mp hnext
    have hids := names_of_valid (h.pins number input _ hcall).1
    refine h.change (changes_setTemporary h.files hids.1) ?_
    intro input' phase hpin
    cases hcall.symm.trans hpin
    exact fun _ _ => trivial
  · rename_i input
    obtain ⟨tree, htree, rfl⟩ := Option.map_eq_some_iff.mp hnext
    have hids := names_of_valid (h.pins number input _ hcall).1
    refine h.change (changes_setTemporary h.files hids.1) ?_
    intro input' phase hpin
    cases hcall.symm.trans hpin
    exact fun _ _ => trivial
  · cases hnext

theorem Sound.fail {call : Call} (h : Sound p s) (hcall : s.calls number = some call)
    (hnext : s.fail number call = some t) : Sound p t := by
  unfold State.fail at hnext
  split at hnext
  · exact h.failPin hcall hnext
  · cases hnext
  · cases hnext
  · obtain rfl := Option.some.inj hnext
    exact h.setUnpin (Changes.refl h.files)
  · cases hnext

theorem Sound.begin {call : Call} (h : Sound p s)
    (hpin : ∀ input phase, call = .pin input phase → Valid p input ∧ phase = .checking)
    (hlist : ∀ phase, call = .list phase → phase = .readingRoot)
    (hnext : s.begin number call = some t) : Sound p t := by
  obtain ⟨-, heq⟩ := Option.ite_none_right_eq_some.mp hnext
  obtain rfl := Option.some.inj heq
  refine h.move (Changes.refl h.files) ?_ ?_
  · intro input phase hcall
    obtain ⟨hvalid, rfl⟩ := hpin input phase hcall
    exact ⟨hvalid, fun _ _ => trivial⟩
  · intro phase hcall
    obtain rfl := hlist phase hcall
    exact { running := nofun, loadable := nofun, present := nofun }

end Steps

theorem Sound.next {s t : State} {event : Event} (h : Sound p s) (hintact : Intact s event)
    (hnext : next p s event = some t) : Sound p t := by
  cases event with
  | pin number input pinnedAt =>
    refine h.begin ?_ ?_ hnext
    · intro validated phase hcall
      split at hcall
      · rename_i hvalidated
        cases hcall
        exact ⟨valid_of_validatePinInput hvalidated, rfl⟩
      · cases hcall
    · intro phase hcall
      split at hcall <;> cases hcall
  | unpin number skillId fingerprint =>
    refine h.begin ?_ ?_ hnext
    · intro validated phase hcall
      split at hcall <;> cases hcall
    · intro phase hcall
      split at hcall <;> cases hcall
  | list number =>
    refine h.begin ?_ ?_ hnext
    · intro input phase hcall
      cases hcall
    · intro phase hcall
      cases hcall
      rfl
  | step number =>
    obtain ⟨call, hcall, hstep⟩ := Option.bind_eq_some_iff.mp hnext
    exact h.step hcall hintact hstep
  | unlink number path =>
    obtain ⟨call, hcall, hstep⟩ := Option.bind_eq_some_iff.mp hnext
    exact h.unlink hcall hintact hstep
  | fail number =>
    obtain ⟨call, hcall, hstep⟩ := Option.bind_eq_some_iff.mp hnext
    exact h.fail hcall hstep

theorem sound_start : Sound p start where
  files := { named := nofun, final := nofun, whole := nofun }
  pins := nofun
  lists := nofun

theorem stepList_isSome {s : State} {phase : ListPhase}
    (hresolved : ∀ manifests, phase ≠ .resolved manifests) (hrejected : phase ≠ .rejected) :
    (s.stepList p phase).isSome := by
  unfold State.stepList
  split
  · split <;> rfl
  · rfl
  · split
    · split <;> rfl
    · rfl
  · rfl
  · rfl
  · split <;> rfl
  · split
    · rfl
    · split <;> rfl
  · rename_i manifests
    exact absurd rfl (hresolved manifests)
  · exact absurd rfl hrejected

theorem Served.returned {s : State} {phase : ListPhase} {manifests : List Manifest}
    (h : Served p s phase) (hstep : s.stepList p phase = some (.resolved manifests)) :
    ∀ manifest ∈ manifests, Loadable p s manifest.skillId manifest.fingerprint := by
  unfold State.stepList at hstep
  split at hstep
  · split at hstep
    · cases hstep
    · cases hstep
      nofun
  · cases hstep
    intro manifest hmem
    exact h.loadable _ _ ⟨manifest, hmem, rfl, rfl⟩
  · split at hstep
    · split at hstep <;> cases hstep
    · cases hstep
  · cases hstep
  · cases hstep
  · split at hstep <;> cases hstep
  · split at hstep
    · cases hstep
    · split at hstep <;> cases hstep
  · cases hstep
  · cases hstep

theorem Sound.reliable {s : State} (h : Sound p s) : Reliable p s where
  succeeds := fun number hcall => (h.lists number _ hcall).running rfl
  enabled := by
    intro number phase hcall hresolved
    have hstep := stepList_isSome (p := p) (s := s) hresolved (h.lists number phase hcall).running
    rw [PinStores.next, hcall]
    show ((s.stepList p phase).map fun next => s.setCall number (.list next)).isSome = true
    rw [Option.isSome_map]
    exact hstep
  loadable := fun number phase manifests hcall => (h.lists number phase hcall).returned

variable (p)

/-- In a run in which no unpin removes what a listing uses, and no listing opens a skill with a
torn snapshot, listings are reliable. -/
theorem reliable_of_intact (events : List Event) (s : State)
    (hintact : AllSteps (next p) Intact start events)
    (hrun : exec (next p) start events = some s) : Reliable p s :=
  (exec_invariant (fun _ _ _ h hok hnext => h.next hok hnext) sound_start hintact hrun).reliable

/-- No call is an unpin, and no snapshot is torn. -/
def Growing (s : State) : Prop :=
  s.torn = [] ∧ ∀ number skillId fingerprint phase,
    s.calls number ≠ some (.unpin skillId fingerprint phase)

variable {p} {s t : State} {number : Nat}

theorem Growing.intact (h : Growing s) (event : Event) : Intact s event := by
  cases event with
  | unlink number path =>
    intro skillId fingerprint hcall
    exact absurd hcall (h.2 number skillId fingerprint _)
  | step number =>
    refine ⟨fun skillId fingerprint directory hcall => ?_, fun skillId rest collected _ => ?_⟩
    · exact absurd hcall (h.2 number skillId fingerprint _)
    · intro fingerprint
      rw [h.1]
      exact List.not_mem_nil
  | _ => trivial

theorem Growing.setCall {u : State} (h : Growing s) {call : Call}
    (hcall : ∀ skillId fingerprint phase, call ≠ .unpin skillId fingerprint phase)
    (hcalls : u.calls = s.calls) (htorn : ∀ snapshot ∈ u.torn, snapshot ∈ s.torn) :
    Growing (u.setCall number call) := by
  refine ⟨List.eq_nil_iff_forall_not_mem.mpr fun snapshot hmem => ?_, ?_⟩
  · have hold := htorn snapshot hmem
    rw [h.1] at hold
    cases hold
  · intro found skillId fingerprint phase hfound
    obtain ⟨-, heq⟩ | ⟨-, hfound⟩ := update_eq_some hfound
    · exact hcall skillId fingerprint phase heq.symm
    · rw [hcalls] at hfound
      exact h.2 found skillId fingerprint phase hfound

theorem stepPin_shape {input : ValidatedPinInput} {phase : PinPhase}
    (hnext : s.stepPin p number input phase = some t) :
    ∃ u after, t = setPin number input u after ∧ u.calls = s.calls ∧
      ∀ snapshot ∈ u.torn, snapshot ∈ s.torn := by
  have hdrop : ∀ after, dropTemporary s number input after = some t →
      ∃ u after, t = setPin number input u after ∧ u.calls = s.calls ∧
        ∀ snapshot ∈ u.torn, snapshot ∈ s.torn := by
    intro after hafter
    unfold dropTemporary at hafter
    split at hafter
    · obtain rfl := Option.some.inj hafter
      exact ⟨_, _, rfl, rfl, fun _ hmem => hmem⟩
    · obtain ⟨-, heq⟩ := Option.ite_none_right_eq_some.mp hafter
      obtain rfl := Option.some.inj heq
      exact ⟨_, _, rfl, rfl, fun _ hmem => hmem⟩
  cases phase with
  | discarding => exact hdrop _ hnext
  | cleaning => exact hdrop _ hnext
  | replacing =>
    unfold State.stepPin at hnext
    dsimp only at hnext
    split at hnext
    · obtain rfl := Option.some.inj hnext
      exact ⟨_, _, rfl, rfl, fun _ hmem => hmem⟩
    · split at hnext
      · obtain rfl := Option.some.inj hnext
        exact ⟨_, _, rfl, rfl, fun _ hmem => hmem⟩
      · obtain rfl := Option.some.inj hnext
        exact ⟨_, _, rfl, rfl, fun _ hmem => (List.mem_filter.mp hmem).1⟩
  | resolved => cases hnext
  | rejected => cases hnext
  | writing script =>
    cases script with
    | nil =>
      obtain rfl := Option.some.inj hnext
      exact ⟨_, _, rfl, rfl, fun _ hmem => hmem⟩
    | cons operation rest =>
      unfold State.stepPin at hnext
      dsimp only at hnext
      split at hnext <;> obtain rfl := Option.some.inj hnext <;>
        exact ⟨_, _, rfl, rfl, fun _ hmem => hmem⟩
  | checking | comparing | rechecking =>
    unfold State.stepPin at hnext
    dsimp only at hnext
    split at hnext
    · obtain rfl := Option.some.inj hnext
      exact ⟨_, _, rfl, rfl, fun _ hmem => hmem⟩
    · split at hnext <;> obtain rfl := Option.some.inj hnext <;>
        exact ⟨_, _, rfl, rfl, fun _ hmem => hmem⟩
  | staging =>
    unfold State.stepPin at hnext
    dsimp only at hnext
    split at hnext <;> obtain rfl := Option.some.inj hnext <;>
      exact ⟨_, _, rfl, rfl, fun _ hmem => hmem⟩
  | preparingRoot | preparingSkill | syncing =>
    obtain rfl := Option.some.inj hnext
    exact ⟨_, _, rfl, rfl, fun _ hmem => hmem⟩

theorem Growing.begin (h : Growing s) {call : Call}
    (hcall : ∀ skillId fingerprint phase, call ≠ .unpin skillId fingerprint phase)
    (hnext : s.begin number call = some t) : Growing t := by
  obtain ⟨-, heq⟩ := Option.ite_none_right_eq_some.mp hnext
  obtain rfl := Option.some.inj heq
  exact h.setCall hcall rfl fun _ hmem => hmem

theorem Growing.next {event : Event} (h : Growing s)
    (hevent : ∀ number skillId fingerprint, event ≠ .unpin number skillId fingerprint)
    (hnext : next p s event = some t) : Growing t := by
  cases event with
  | pin number input pinnedAt =>
    refine h.begin ?_ hnext
    intro skillId fingerprint phase hcall
    split at hcall <;> cases hcall
  | unpin number skillId fingerprint => exact absurd rfl (hevent number skillId fingerprint)
  | list number => exact h.begin (by rintro _ _ _ ⟨⟩) hnext
  | step number =>
    obtain ⟨call, hcall, hstep⟩ := Option.bind_eq_some_iff.mp hnext
    cases call with
    | pin input phase =>
      obtain ⟨u, after, rfl, hcalls, htorn⟩ := stepPin_shape hstep
      exact h.setCall (by rintro _ _ _ ⟨⟩) hcalls htorn
    | unpin skillId fingerprint phase => exact absurd hcall (h.2 number skillId fingerprint phase)
    | list phase =>
      obtain ⟨after, -, rfl⟩ := Option.map_eq_some_iff.mp hstep
      exact h.setCall (by rintro _ _ _ ⟨⟩) rfl fun _ hmem => hmem
    | refused => cases hstep
  | unlink number path =>
    obtain ⟨call, hcall, hstep⟩ := Option.bind_eq_some_iff.mp hnext
    unfold State.unlink at hstep
    split at hstep
    · exact absurd hcall (h.2 number _ _ _)
    · obtain ⟨tree, -, rfl⟩ := Option.map_eq_some_iff.mp hstep
      exact h
    · obtain ⟨tree, -, rfl⟩ := Option.map_eq_some_iff.mp hstep
      exact h
    · cases hstep
  | fail number =>
    obtain ⟨call, hcall, hstep⟩ := Option.bind_eq_some_iff.mp hnext
    unfold State.fail at hstep
    split at hstep
    · unfold State.failPin at hstep
      split at hstep
      all_goals first
        | obtain rfl := Option.some.inj hstep
          exact h.setCall (by rintro _ _ _ ⟨⟩) rfl fun _ hmem => hmem
        | cases hstep
    · cases hstep
    · cases hstep
    · exact absurd hcall (h.2 number _ _ _)
    · cases hstep

theorem intact_of_pins {events : List Event}
    (hevents : ∀ event ∈ events, ∀ number skillId fingerprint,
      event ≠ .unpin number skillId fingerprint) : AllSteps (next p) Intact start events := by
  refine AllSteps.of_prefixes fun front event back hsplit s hfront => ?_
  have hgrowing : Growing s := by
    have hkeep : ∀ s event t, Growing s →
        (∀ number skillId fingerprint, event ≠ .unpin number skillId fingerprint) →
          PinStores.next p s event = some t → Growing t :=
      fun s event t h hevent hnext => h.next hevent hnext
    refine exec_invariant hkeep ⟨rfl, by rintro _ _ _ _ ⟨⟩⟩ ?_ hfront
    refine AllSteps.of_mem (fun event hmem _ => hevents event ?_) start
    rw [hsplit]
    exact List.mem_append_left _ hmem
  exact hgrowing.intact event

def sampleDocument : Bytes := pathBytes (asciiUnits "---\nname: a\ndescription: b\n---\n")

def sampleSourceId : JsText := asciiUnits "ss_00000000000000000000000000000000"

def samplePlatform : Platform where
  sha256 := fun bytes =>
    if bytes = sampleDocument then
      asciiUnits "a98e4e3c6591006048de00b4ec52ad408c39cbaf09f591f4f620ea6a17cbfe3e"
    else if bytes = pathBytes (sampleSourceId ++ [0, 97]) then
      asciiUnits "84cbc4742307bbbb869daa52fa25f27d2fcf2848d22787a8b1359a8fbac51385"
    else asciiUnits "a3f83a24bd751ecb4b383f9d3fe79db3025d68cea51ca29275cc1e5c2ff5b45b"
  isDate := fun text => text = asciiUnits "2026-01-01T00:00:00.000Z"

def sampleInput : PinInput where
  skillId := asciiUnits "sk_84cbc4742307bbbb869daa52fa25f27d2fcf2848d22787a8b1359a8fbac51385"
  sourceId := sampleSourceId
  name := asciiUnits "a"
  description := asciiUnits "b"
  descriptorFingerprint :=
    asciiUnits "a98e4e3c6591006048de00b4ec52ad408c39cbaf09f591f4f620ea6a17cbfe3e"
  fingerprint := asciiUnits "a3f83a24bd751ecb4b383f9d3fe79db3025d68cea51ca29275cc1e5c2ff5b45b"
  sourceRelativePath := asciiUnits "a"
  skillDocument := sampleDocument
  resources := []

def samplePin : List Event :=
  .pin 0 sampleInput (asciiUnits "2026-01-01T00:00:00.000Z") :: List.replicate 14 (.step 0)

def interruptedPin : List Event :=
  samplePin ++ [.pin 1 sampleInput (asciiUnits "2026-01-01T00:00:00.000Z"), .step 1, .list 2] ++
    List.replicate 5 (.step 2)

theorem interruptedPin_reliable :
    ∃ s, exec (next samplePlatform) start interruptedPin = some s ∧ Reliable samplePlatform s := by
  have hrun : (exec (next samplePlatform) start interruptedPin).isSome = true := by decide +kernel
  obtain ⟨s, hs⟩ := Option.isSome_iff_exists.mp hrun
  refine ⟨s, hs, reliable_of_intact samplePlatform interruptedPin s (intact_of_pins ?_) hs⟩
  intro event hmem number skillId fingerprint heq
  subst heq
  simp [interruptedPin, samplePin] at hmem

def interruptedUnpin : List Event :=
  samplePin ++ [.unpin 1 sampleInput.skillId sampleInput.fingerprint, .step 1,
    .unlink 1 [manifestFile], .list 2, .step 2, .step 2, .step 2]

def listFailed : Option Call → Bool
  | some (.list .rejected) => true
  | _ => false

theorem rejected_of_listFailed {call : Option Call} (h : listFailed call = true) :
    call = some (.list .rejected) := by
  unfold listFailed at h
  split at h
  · rfl
  · cases h

theorem interruptedUnpin_not_reliable : ¬∀ (p : Platform) (events : List Event) (s : State),
    exec (next p) start events = some s → Reliable p s := by
  intro h
  have hrun : ((exec (next samplePlatform) start interruptedUnpin).any
      fun s => listFailed (s.calls 2)) = true := by decide +kernel
  cases hs : exec (next samplePlatform) start interruptedUnpin with
  | none =>
    rw [hs] at hrun
    cases hrun
  | some s =>
    rw [hs] at hrun
    exact (h samplePlatform interruptedUnpin s hs).succeeds 2 (rejected_of_listFailed hrun)

end KodeGpt.PinStoreRuns
