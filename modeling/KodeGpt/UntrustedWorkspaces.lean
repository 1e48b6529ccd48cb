import KodeGpt.CheckpointPurges
import KodeGpt.ManagerCalls
import KodeGpt.WorkspaceUntrusting

/-!
Whether a workspace that is no longer trusted stays closed: once
`untrustWorkspace` has resolved, no workspace is READY under the entry that it
has removed, and the checkpoints of the entry are gone.
-/

namespace KodeGpt.UntrustedWorkspaces

open CheckpointPurges CheckpointRecords JsonText ManagerCalls TransitionSystem TrustStore
open WorkspaceContexts WorkspaceManager WorkspaceUntrusting
open CheckpointStoreRuns (StoreRun StoreEvent Lined isMissing)
open TrustStoreRuns (TrustRun)

/-- Ids and roots correspond to one another. -/
def Distinct (entries : Entries) : Prop :=
  ∀ entry ∈ entries, ∀ other ∈ entries,
    entry.id = other.id ↔ entry.canonicalRoot = other.canonicalRoot

/-- An entry with this id and root. -/
def Names (entries : Entries) (id : TrustId) (root : Bytes) : Prop :=
  ∃ entry ∈ entries, entry.id = id ∧ entry.canonicalRoot = root

section Documents

variable {locale : LocaleOrder} {entries : Entries} {input : TrustInput} {freshId now : Bytes}

theorem mem_trustEntries {entry : TrustedWorkspaceEntry}
    (h : entry ∈ trustEntries locale entries input freshId now) :
    entry ∈ entries ∨ entry = trustedEntry entries input freshId now := by
  rw [trustEntries, List.mem_mergeSort] at h
  split at h
  · exact List.mem_or_eq_of_mem_set h
  · obtain h | h := List.mem_append.mp h
    · exact Or.inl h
    · exact Or.inr (List.mem_singleton.mp h)

theorem trustedEntry_id (entries : Entries) (input : TrustInput) (freshId now : Bytes) :
    Names entries (trustedEntry entries input freshId now).id input.canonicalRoot ∨
      (trustedEntry entries input freshId now).id = freshId ∧
        ∀ entry ∈ entries, entry.canonicalRoot ≠ input.canonicalRoot := by
  cases hfind : entries.find? fun entry => entry.canonicalRoot = input.canonicalRoot with
  | none =>
    refine Or.inr ⟨by simp [trustedEntry, hfind], ?_⟩
    intro entry hentry hroot
    have hnone := List.find?_eq_none.mp hfind entry hentry
    simp [hroot] at hnone
  | some entry =>
    have hroot : entry.canonicalRoot = input.canonicalRoot := by
      simpa using List.find?_some hfind
    refine Or.inl ⟨entry, List.mem_of_find?_eq_some hfind, ?_, hroot⟩
    simp [trustedEntry, hfind]

theorem names_of_trustEntries {id : TrustId} {root : Bytes}
    (h : Names (trustEntries locale entries input freshId now) id root) :
    Names entries id root ∨ (id = freshId ∧ root = input.canonicalRoot ∧
      ∀ entry ∈ entries, entry.canonicalRoot ≠ input.canonicalRoot) := by
  obtain ⟨entry, hentry, rfl, rfl⟩ := h
  obtain hold | rfl := mem_trustEntries hentry
  · exact Or.inl ⟨entry, hold, rfl, rfl⟩
  · obtain hnames | ⟨hid, hnone⟩ := trustedEntry_id entries input freshId now
    · exact Or.inl hnames
    · exact Or.inr ⟨hid, rfl, hnone⟩

theorem names_trustEntries (hdistinct : Distinct entries) {id : TrustId} {root : Bytes}
    (h : Names entries id root) :
    Names (trustEntries locale entries input freshId now) id root := by
  obtain ⟨entry, hentry, rfl, rfl⟩ := h
  by_cases hroot : entry.canonicalRoot = input.canonicalRoot
  · have hnew := List.mem_map.mp
      (root_mem_trustEntries locale entries input freshId now)
    obtain ⟨other, hother, hsame⟩ := hnew
    refine ⟨other, hother, ?_, hsame.trans hroot.symm⟩
    obtain hold | rfl := mem_trustEntries hother
    · exact ((hdistinct other hold entry hentry).mpr (hsame.trans hroot.symm))
    · obtain ⟨first, hfirst, hid, hfirstRoot⟩ | ⟨-, hnone⟩ :=
        trustedEntry_id entries input freshId now
      · rw [← hid]
        exact (hdistinct first hfirst entry hentry).mpr (hfirstRoot.trans hroot.symm)
      · exact absurd hroot (hnone entry hentry)
  · exact ⟨entry, mem_trustEntries_of_ne freshId now hentry hroot, rfl, rfl⟩

theorem distinct_iff : Distinct entries ↔
    ∀ id root id' root', Names entries id root → Names entries id' root' →
      (id = id' ↔ root = root') := by
  constructor
  · rintro h _ _ _ _ ⟨entry, hentry, rfl, rfl⟩ ⟨other, hother, rfl, rfl⟩
    exact h entry hentry other hother
  · intro h entry hentry other hother
    exact h _ _ _ _ ⟨entry, hentry, rfl, rfl⟩ ⟨other, hother, rfl, rfl⟩

theorem distinct_trustEntries (hdistinct : Distinct entries)
    (hfresh : (∀ entry ∈ entries, entry.canonicalRoot ≠ input.canonicalRoot) →
      ∀ entry ∈ entries, entry.id ≠ freshId) :
    Distinct (trustEntries locale entries input freshId now) := by
  rw [distinct_iff] at hdistinct ⊢
  intro id root id' root' h h'
  obtain hold | ⟨rfl, rfl, hnone⟩ := names_of_trustEntries h
  · obtain hold' | ⟨rfl, rfl, hnone⟩ := names_of_trustEntries h'
    · exact hdistinct id root id' root' hold hold'
    · obtain ⟨entry, hentry, rfl, rfl⟩ := hold
      exact iff_of_false (hfresh hnone entry hentry) (hnone entry hentry)
  · obtain ⟨entry, hentry, rfl, rfl⟩ | ⟨rfl, rfl, -⟩ := names_of_trustEntries h'
    · exact iff_of_false (fun heq => hfresh hnone entry hentry heq.symm)
        (fun heq => hnone entry hentry heq.symm)
    · exact iff_of_true rfl rfl

theorem names_untrustEntries {removed id : TrustId} {root : Bytes} :
    Names (untrustEntries entries removed) id root ↔ Names entries id root ∧ id ≠ removed := by
  constructor
  · rintro ⟨entry, hentry, rfl, rfl⟩
    rw [untrustEntries, List.mem_filter, decide_eq_true_iff] at hentry
    exact ⟨⟨entry, hentry.1, rfl, rfl⟩, hentry.2⟩
  · rintro ⟨⟨entry, hentry, rfl, rfl⟩, hne⟩
    refine ⟨entry, ?_, rfl, rfl⟩
    rw [untrustEntries, List.mem_filter, decide_eq_true_iff]
    exact ⟨hentry, hne⟩

end Documents

def entriesIn (file : TrustFile) : Entries :=
  match readDocument file with
  | .ok entries => entries
  | .error _ => []

/-- The call has taken its look at the workspaces that are bound, and has not
removed the entry. -/
def untrusting (phase : UntrustPhase) (id : TrustId) : Bool :=
  match phase with
  | .auditing id' _ _ | .closing id' _ _ _ | .purging id' _ _ | .removing id' _ _ => id' = id
  | _ => false

def purged (phase : UntrustPhase) (id : TrustId) : Bool :=
  match phase with
  | .purging id' _ _ | .removing id' _ _ | .succeeding id' _ | .untrusted id' _ => id' = id
  | _ => false

variable {P : Type}

def found (s : System P) (call : CallId) (fails : Bool) : Option TrustedWorkspaceEntry :=
  match s.manager.calls call, readTrust s.trust.file fails with
  | .opening _ (.trusting root identity), .ok entries => trustedBy entries root identity
  | _, _ => none

def drawsFresh (s : System P) (seen : Entries) : TrustCall → Bool
  | .trust input freshId _ =>
    seen.any (fun entry => entry.canonicalRoot = input.canonicalRoot) || !s.known.contains freshId
  | .untrust _ => true

/-- No open reads an entry that is being untrusted; a rename finds the document
that its call has read, and brings no id that is known already; and no upsert
joins the line of the checkpoints of an entry whose purge has begun. -/
def Calm (s : System P) : Event P → Bool
  | .requireTrusted call fails =>
    match found s call fails with
    | some entry => s.begun.all fun u => !untrusting (s.untrusts u) entry.id
    | none => true
  | .trustWrite call fails =>
    match s.trust.calls call with
    | .writing trustCall seen _ .rename =>
      fails || (decide (readDocument s.trust.file = .ok seen) && drawsFresh s seen trustCall)
    | _ => true
  | .checkpointAudited call acknowledged _ =>
    match s.mutations call with
    | .auditing trustId (.upsert _ _ _) =>
      !acknowledged || s.begun.all fun u => !purged (s.untrusts u) trustId
    | _ => true
  | _ => true

def document (s : System P) : Entries := entriesIn s.trust.file

/-- The call has read an entry, and has not got it yet. -/
def Claims (s : System P) (call : CallId) (id : TrustId) (root : Bytes) : Prop :=
  ∃ workspace identity entries entry,
    s.manager.calls call = .opening workspace (.trusting root identity) ∧
      s.reads call = some (.ok entries) ∧ trustedBy entries root identity = some entry ∧
        entry.id = id

/-- The workspaces of the entry are among these, and no call will open another. -/
structure Confined (s : System P) (id : TrustId) (allowed : WorkspaceId → Prop) : Prop where
  carries : ∀ workspace state, s.manager.workspaces workspace = some state →
    state.trustId = some id → allowed workspace
  claims : ∀ call root, ¬ Claims s call id root

/-- The call closes the workspace, or has failed to. -/
def Closer (m : Manager Bytes PersistentFilesystemIdentity P) (inner : CallId)
    (workspace : WorkspaceId) : Prop :=
  (∃ capabilityId step, m.calls inner = .closing workspace capabilityId step) ∨
    ∃ error, m.calls inner = .rejected error

/-- The entries that an untrusting call has found, against the document since. -/
structure Listed (s : System P) (id : TrustId) (listed : Entries) : Prop where
  asked : id ∈ s.known
  distinct : Distinct listed
  known : ∀ id root, Names listed id root → id ∈ s.known
  agree : ∀ id root root', Names listed id root → Names (document s) id root' → root = root'

def callOf : TrustStoreRuns.CallPhase → Option TrustCall
  | .idle => none
  | .reading call | .writing call _ _ _ | .returned call _ => some call

/-- What holds at each phase of an untrusting call. -/
def Sound (s : System P) : UntrustPhase → Prop
  | .idle | .failing | .rejected => True
  | .listing id (some (.ok listed)) => Listed s id listed ∧
      ∀ root, Names (document s) id root → Names listed id root
  | .listing id _ => id ∈ s.known
  | .auditing id listed bound => Listed s id listed ∧ Confined s id (· ∈ bound)
  | .closing id listed inner bound => Listed s id listed ∧
      Confined s id fun workspace => workspace ∈ bound ∨ Closer s.manager inner workspace
  | .purging id listed inner => Listed s id listed ∧ (Confined s id fun _ => False) ∧
      ∃ line, Lined (s.checkpoints id) line ∧ Cleared (s.checkpoints id) inner line
  | .removing id listed inner => Listed s id listed ∧ (Confined s id fun _ => False) ∧
      Emptied (s.checkpoints id) ∧ callOf (s.trust.calls inner) = some (.untrust id)
  | .succeeding id listed | .untrusted id listed => Listed s id listed ∧
      Emptied (s.checkpoints id) ∧ ∀ root, ¬ Names (document s) id root

/-- The call has taken the entry out of the document. -/
def Removes (phase : TrustStoreRuns.CallPhase) (id : TrustId) : Prop :=
  (∃ seen next step, phase = .writing (.untrust id) seen next step ∧ step.replaced = true) ∨
    phase = .returned (.untrust id) (.ok ())

/-- The calls of the document. One that takes an entry out belongs to an
untrusting call. -/
structure TrustCalls (locale : LocaleOrder) (run : TrustRun) (known : List TrustId)
    (untrusts : CallId → UntrustPhase) : Prop where
  sound : ∀ call, TrustStoreRuns.Sound locale (run.calls call)
  asked : ∀ call id, callOf (run.calls call) = some (.untrust id) → id ∈ known
  removed : ∀ call id, Removes (run.calls call) id → ∀ root, ¬ Names (entriesIn run.file) id root
  owned : ∀ call id, callOf (run.calls call) = some (.untrust id) →
    TrustStoreRuns.inFlight (run.calls call) = true →
      ∃ u listed, untrusts u = .removing id listed call

structure Joint (settings : Settings P) (s : System P) : Prop where
  attended : Attended s.manager
  distinct : Distinct (document s)
  known : ∀ id root, Names (document s) id root → id ∈ s.known
  begun : ∀ u, s.untrusts u ≠ .idle → u ∈ s.begun
  reads : ∀ call, s.reads call ≠ none → isTrusting (s.manager.calls call) = true
  carried : ∀ workspace state id, s.manager.workspaces workspace = some state →
    state.trustId = some id →
      ∃ root, state.canonicalRoot = some root ∧ Names (document s) id root
  claimed : ∀ call id root, Claims s call id root → Names (document s) id root
  trusts : TrustCalls settings.locale s.trust s.known s.untrusts
  lined : ∀ id, ∃ line, Lined (s.checkpoints id) line
  sound : ∀ u, Sound s (s.untrusts u)

/-- What a step may do to a system of which the untrusting calls know this much. -/
structure Later (s s' : System P) : Prop where
  known : ∀ id ∈ s.known, id ∈ s'.known
  names : ∀ id root, id ∈ s.known → Names (document s') id root → Names (document s) id root
  carries : ∀ workspace state' id, s'.manager.workspaces workspace = some state' →
    state'.trustId = some id →
      (∃ state, s.manager.workspaces workspace = some state ∧ state.trustId = some id) ∨
        ∃ call root, Claims s call id root
  claims : ∀ call id root, Claims s' call id root → Claims s call id root ∨
    ∀ u, untrusting (s.untrusts u) id = false
  closer : ∀ inner workspace, Closer s.manager inner workspace →
    s'.manager.workspaces workspace = none ∨ Closer s'.manager inner workspace
  trust : ∀ call trustCall, callOf (s.trust.calls call) = some trustCall →
    callOf (s'.trust.calls call) = some trustCall
  purging : ∀ u id listed inner line, s.untrusts u = .purging id listed inner →
    Lined (s.checkpoints id) line → Cleared (s.checkpoints id) inner line →
      ∃ line', Lined (s'.checkpoints id) line' ∧ Cleared (s'.checkpoints id) inner line'
  emptied : ∀ u id, purged (s.untrusts u) id = true → Emptied (s.checkpoints id) →
    Emptied (s'.checkpoints id)

section Transfer

variable {s s' : System P} {u : CallId} {id : TrustId} {listed : Entries}

theorem Later.refl (s : System P) : Later s s where
  known := fun _ hid => hid
  names := fun _ _ _ hnames => hnames
  carries := fun _ state' _ hstate' hid => Or.inl ⟨state', hstate', hid⟩
  claims := fun _ _ _ hclaim => Or.inl hclaim
  closer := fun _ _ hcloser => Or.inr hcloser
  trust := fun _ _ hcall => hcall
  purging := fun _ _ _ _ line _ hlined hcleared => ⟨line, hlined, hcleared⟩
  emptied := fun _ _ _ hemptied => hemptied

theorem Listed.later (h : Listed s id listed) (hlater : Later s s') : Listed s' id listed where
  asked := hlater.known id h.asked
  distinct := h.distinct
  known := fun id root hnames => hlater.known id (h.known id root hnames)
  agree := fun id root root' hnames hnames' => h.agree id root root' hnames
    (hlater.names id root' (h.known id root hnames) hnames')

theorem Confined.later {allowed allowed' : WorkspaceId → Prop} (h : Confined s id allowed)
    (hlater : Later s s') (hactive : untrusting (s.untrusts u) id = true)
    (hallowed : ∀ workspace, allowed workspace →
      s'.manager.workspaces workspace = none ∨ allowed' workspace) : Confined s' id allowed' where
  carries := by
    intro workspace state' hstate' hid
    obtain ⟨state, hstate, hcarries⟩ | ⟨call, root, hclaims⟩ :=
      hlater.carries workspace state' id hstate' hid
    · obtain hgone | hallowed := hallowed workspace (h.carries workspace state hstate hcarries)
      · rw [hstate'] at hgone
        cases hgone
      · exact hallowed
    · exact absurd hclaims (h.claims call root)
  claims := by
    intro call root hclaims
    obtain hbefore | hinactive := hlater.claims call id root hclaims
    · exact h.claims call root hbefore
    · rw [hinactive u] at hactive
      cases hactive

theorem Sound.later (h : Sound s (s.untrusts u)) (hlater : Later s s') :
    Sound s' (s.untrusts u) := by
  cases hphase : s.untrusts u with
  | idle => trivial
  | failing => trivial
  | rejected => trivial
  | listing id read =>
    rw [hphase] at h
    match read with
    | none => exact hlater.known id h
    | some (.error _) => exact hlater.known id h
    | some (.ok listed) =>
      exact ⟨h.1.later hlater, fun root hnames =>
        h.2 root (hlater.names id root h.1.asked hnames)⟩
  | auditing id listed bound =>
    rw [hphase] at h
    have hactive : untrusting (s.untrusts u) id = true := by simp [hphase, untrusting]
    exact ⟨h.1.later hlater, h.2.later hlater hactive fun _ hallowed => Or.inr hallowed⟩
  | closing id listed inner bound =>
    rw [hphase] at h
    have hactive : untrusting (s.untrusts u) id = true := by simp [hphase, untrusting]
    refine ⟨h.1.later hlater, h.2.later hlater hactive ?_⟩
    rintro workspace (hbound | hcloser)
    · exact Or.inr (Or.inl hbound)
    · exact (hlater.closer inner workspace hcloser).imp_right Or.inr
  | purging id listed inner =>
    rw [hphase] at h
    have hactive : untrusting (s.untrusts u) id = true := by simp [hphase, untrusting]
    obtain ⟨hlisted, hconfined, line, hlined, hcleared⟩ := h
    exact ⟨hlisted.later hlater,
      hconfined.later hlater hactive fun _ hallowed => Or.inr hallowed,
      hlater.purging u id listed inner line hphase hlined hcleared⟩
  | removing id listed inner =>
    rw [hphase] at h
    have hactive : untrusting (s.untrusts u) id = true := by simp [hphase, untrusting]
    have hpurged : purged (s.untrusts u) id = true := by simp [hphase, purged]
    obtain ⟨hlisted, hconfined, hemptied, hcall⟩ := h
    exact ⟨hlisted.later hlater,
      hconfined.later hlater hactive fun _ hallowed => Or.inr hallowed,
      hlater.emptied u id hpurged hemptied, hlater.trust inner _ hcall⟩
  | succeeding id listed =>
    rw [hphase] at h
    have hpurged : purged (s.untrusts u) id = true := by simp [hphase, purged]
    obtain ⟨hlisted, hemptied, hgone⟩ := h
    exact ⟨hlisted.later hlater, hlater.emptied u id hpurged hemptied, fun root hnames =>
      hgone root (hlater.names id root hlisted.asked hnames)⟩
  | untrusted id listed =>
    rw [hphase] at h
    have hpurged : purged (s.untrusts u) id = true := by simp [hphase, purged]
    obtain ⟨hlisted, hemptied, hgone⟩ := h
    exact ⟨hlisted.later hlater, hlater.emptied u id hpurged hemptied, fun root hnames =>
      hgone root (hlater.names id root hlisted.asked hnames)⟩

end Transfer

/-- What one call may do to the workspaces and to itself; `gains` are the entries
that it may bind its workspace to. -/
structure Proceeds (m : Manager Bytes PersistentFilesystemIdentity P) (call : CallId)
    (gains : TrustId → Bytes → Prop) (m' : Manager Bytes PersistentFilesystemIdentity P) :
    Prop where
  carries : ∀ workspace state' id, m'.workspaces workspace = some state' →
    state'.trustId = some id →
      (∃ state, m.workspaces workspace = some state ∧ state.trustId = some id ∧
        state'.canonicalRoot = state.canonicalRoot) ∨
      ∃ root, gains id root ∧ state'.canonicalRoot = some root
  trusting : ∀ workspace root identity,
    m'.calls call = .opening workspace (.trusting root identity) →
      isTrusting (m.calls call) = false
  others : ∀ other, other ≠ call → m'.calls other = m.calls other
  closer : ∀ inner workspace, Closer m inner workspace →
    m'.workspaces workspace = none ∨ Closer m' inner workspace

section Calls

variable {settings : Settings P} {s : System P} {call : CallId}
  {m : Manager Bytes PersistentFilesystemIdentity P}

theorem Joint.proceed (h : Joint settings s) (hattended : Attended m)
    (hproceeds : Proceeds s.manager call (Claims s call) m) :
    Joint settings { s with manager := m, reads := Function.update s.reads call none } := by
  have hreads : ∀ other, Function.update s.reads call none other =
      if other = call then none else s.reads other := Function.update_apply _ _ _
  have hclaims : ∀ other id root,
      Claims { s with manager := m, reads := Function.update s.reads call none } other id root →
        Claims s other id root := by
    rintro other id root ⟨workspace, identity, entries, entry, hcall, hread, hentry⟩
    replace hread := (hreads other).symm.trans hread
    split at hread
    · cases hread
    · rename_i hother
      exact ⟨workspace, identity, entries, entry, (hproceeds.others other hother).symm.trans hcall,
        hread, hentry⟩
  have hlater : Later s { s with manager := m, reads := Function.update s.reads call none } := by
    exact { Later.refl s with
      carries := by
        intro workspace state' id hstate' hid
        obtain ⟨state, hstate, hcarries, -⟩ | ⟨root, hgains, -⟩ :=
          hproceeds.carries workspace state' id hstate' hid
        · exact Or.inl ⟨state, hstate, hcarries⟩
        · exact Or.inr ⟨call, root, hgains⟩
      claims := fun other id root hclaim => Or.inl (hclaims other id root hclaim)
      closer := hproceeds.closer }
  exact { h with
    attended := hattended
    reads := by
      intro other hsome
      have hother : other ≠ call := by
        rintro rfl
        exact hsome (Function.update_self ..)
      have hbefore : s.reads other ≠ none := by
        rwa [← Function.update_of_ne hother none s.reads]
      show isTrusting (m.calls other) = true
      rw [hproceeds.others other hother]
      exact h.reads other hbefore
    carried := by
      intro workspace state' id hstate' hid
      obtain ⟨state, hstate, hcarries, hroot⟩ | ⟨root, hgains, hroot⟩ :=
        hproceeds.carries workspace state' id hstate' hid
      · rw [hroot]
        exact h.carried workspace state id hstate hcarries
      · exact ⟨root, hroot, h.claimed call id root hgains⟩
    claimed := fun other id root hclaim => h.claimed other id root (hclaims other id root hclaim)
    sound := fun u => (h.sound u).later hlater }

theorem closer_setCall {inner : CallId} {workspace : WorkspaceId}
    {phase : CallPhase Bytes PersistentFilesystemIdentity P}
    (hcloser : Closer m inner workspace) (hidle : m.calls call = .idle) :
    Closer (m.setCall call phase) inner workspace := by
  have hinner : inner ≠ call := by
    rintro rfl
    obtain ⟨capabilityId, step, hcall⟩ | ⟨error, hcall⟩ := hcloser
    · rw [hidle] at hcall
      cases hcall
    · rw [hidle] at hcall
      cases hcall
  unfold Closer
  rw [Manager.setCall_calls, if_neg hinner]
  exact hcloser

theorem carries_change {f : WorkspaceState Bytes P → WorkspaceState Bytes P} {id : WorkspaceId}
    (htrust : ∀ state, (f state).trustId = state.trustId)
    (hroot : ∀ state, (f state).canonicalRoot = state.canonicalRoot) (workspace : WorkspaceId)
    (state' : WorkspaceState Bytes P) (trustId : TrustId)
    (hstate' : (m.change id f).workspaces workspace = some state')
    (hid : state'.trustId = some trustId) :
    ∃ state, m.workspaces workspace = some state ∧ state.trustId = some trustId ∧
      state'.canonicalRoot = state.canonicalRoot := by
  rw [Manager.change_workspaces] at hstate'
  split at hstate'
  · rename_i hsame
    subst hsame
    obtain ⟨state, hstate, rfl⟩ := Option.map_eq_some_iff.mp hstate'
    exact ⟨state, hstate, (htrust state).symm.trans hid, hroot state⟩
  · exact ⟨state', hstate', hid, rfl⟩

theorem carries_delete {id workspace : WorkspaceId} {state' : WorkspaceState Bytes P}
    (hstate' : (m.delete id).workspaces workspace = some state') :
    m.workspaces workspace = some state' := by
  rw [Manager.delete_workspaces] at hstate'
  split at hstate'
  · cases hstate'
  · exact hstate'

theorem proceeds_of_idle {m' : Manager Bytes PersistentFilesystemIdentity P}
    {gains : TrustId → Bytes → Prop}
    {phase : CallPhase Bytes PersistentFilesystemIdentity P} (hidle : m.calls call = .idle)
    (hcalls : ∀ other, m'.calls other = m.calls other)
    (hcarries : ∀ workspace state' id, m'.workspaces workspace = some state' →
      state'.trustId = some id → ∃ state, m.workspaces workspace = some state ∧
        state.trustId = some id ∧ state'.canonicalRoot = state.canonicalRoot) :
    Proceeds m call gains (m'.setCall call phase) where
  carries := fun workspace state' id hstate' hid =>
    Or.inl (hcarries workspace state' id hstate' hid)
  trusting := by
    intro _ _ _ _
    rw [hidle]
    rfl
  others := by
    intro other hother
    rw [Manager.setCall_calls, if_neg hother, hcalls]
  closer := by
    intro inner workspace hcloser
    refine Or.inr (closer_setCall ?_ ((hcalls call).trans hidle))
    unfold Closer
    rwa [hcalls]

theorem proceeds_openWorkspace {gains : TrustId → Bytes → Prop} (hidle : m.calls call = .idle)
    (id : WorkspaceId) (rootPath : Option Bytes) :
    Proceeds m call gains (m.openWorkspace call id rootPath) := by
  have hsame : ∀ phase, Proceeds m call gains (m.setCall call phase) := fun phase =>
    proceeds_of_idle hidle (fun _ => rfl) fun _ state' _ hstate' hid =>
      ⟨state', hstate', hid, rfl⟩
  unfold Manager.openWorkspace
  split
  · exact hsame _
  · exact hsame _
  · refine proceeds_of_idle hidle (fun _ => Manager.insert_calls ..) ?_
    intro workspace state' trustId hstate' hid
    rw [Manager.insert_workspaces] at hstate'
    split at hstate'
    · obtain rfl := Option.some.inj hstate'
      cases hid
    · exact ⟨state', hstate', hid, rfl⟩

theorem proceeds_closeWorkspace {gains : TrustId → Bytes → Prop} (hidle : m.calls call = .idle)
    (id : WorkspaceId) : Proceeds m call gains (m.closeWorkspace call id) := by
  have hsame : ∀ phase, Proceeds m call gains (m.setCall call phase) := fun phase =>
    proceeds_of_idle hidle (fun _ => rfl) fun _ state' _ hstate' hid =>
      ⟨state', hstate', hid, rfl⟩
  unfold Manager.closeWorkspace
  split
  · exact hsame _
  · split
    · exact hsame _
    · split
      · exact hsame _
      · exact proceeds_of_idle hidle (fun _ => Manager.change_calls ..)
          (carries_change (fun _ => rfl) fun _ => rfl)

theorem not_closer {inner : CallId} {workspace : WorkspaceId}
    {phase : CallPhase Bytes PersistentFilesystemIdentity P} (hcall : m.calls inner = phase)
    (hclosing : ∀ workspace capabilityId step, phase ≠ .closing workspace capabilityId step)
    (hrejected : ∀ error, phase ≠ .rejected error) : ¬ Closer m inner workspace := by
  rintro (⟨capabilityId, step, hcloser⟩ | ⟨error, hcloser⟩)
  · exact hclosing workspace capabilityId step (hcall.symm.trans hcloser)
  · exact hrejected error (hcall.symm.trans hcloser)

theorem proceeds_setCall {m' : Manager Bytes PersistentFilesystemIdentity P}
    {gains : TrustId → Bytes → Prop} {phase : CallPhase Bytes PersistentFilesystemIdentity P}
    (hcalls : ∀ other, m'.calls other = m.calls other)
    (hcarries : ∀ workspace state' id, m'.workspaces workspace = some state' →
      state'.trustId = some id → ∃ state, m.workspaces workspace = some state ∧
        state.trustId = some id ∧ state'.canonicalRoot = state.canonicalRoot)
    (htrusting : isTrusting phase = false)
    (hcloser : ∀ workspace, Closer m call workspace →
      m'.workspaces workspace = none ∨ Closer (m'.setCall call phase) call workspace) :
    Proceeds m call gains (m'.setCall call phase) where
  carries := fun workspace state' id hstate' hid =>
    Or.inl (hcarries workspace state' id hstate' hid)
  trusting := by
    intro workspace root identity hphase
    rw [Manager.setCall_calls, if_pos rfl] at hphase
    rw [hphase] at htrusting
    cases htrusting
  others := by
    intro other hother
    rw [Manager.setCall_calls, if_neg hother, hcalls]
  closer := by
    intro inner workspace hinner
    by_cases hsame : inner = call
    · subst hsame
      exact hcloser workspace hinner
    · refine Or.inr ?_
      unfold Closer
      rw [Manager.setCall_calls, if_neg hsame, hcalls]
      exact hinner

theorem proceeds_answered (hattended : Attended m) {gains : TrustId → Bytes → Prop}
    {answer : Answer Bytes PersistentFilesystemIdentity P}
    {m' : Manager Bytes PersistentFilesystemIdentity P} (hprogress : Progress m call answer m')
    (hgains : ∀ workspace root identity trustId ceiling,
      m.calls call = .opening workspace (.trusting root identity) →
        answer = .trusted trustId ceiling → gains trustId root) :
    Proceeds m call gains m' := by
  cases hprogress with
  | openOn id step later f hcall hopens =>
    obtain ⟨state, hstate, hdescribes⟩ := hattended.opening call id step hcall
    have hopen := hopens state hdescribes
    refine ⟨?_, ?_, fun other hother => by simp [hother], ?_⟩
    · intro workspace state' trustId hstate' hid
      rw [Manager.setCall_workspaces, Manager.change_workspaces] at hstate'
      split at hstate'
      · rename_i hsame
        subst hsame
        rw [hstate] at hstate'
        obtain rfl := Option.some.inj hstate'
        obtain htrust | ⟨root, identity, gained, ceiling, rfl, rfl, htrust⟩ := hopen.trust
        · obtain hroot | ⟨rootPath, rfl⟩ := hopen.root
          · exact Or.inl ⟨state, hstate, htrust.symm.trans hid, hroot⟩
          · rw [htrust, hdescribes.trust.mpr rfl] at hid
            cases hid
        · rw [htrust] at hid
          obtain rfl := Option.some.inj hid
          obtain hroot | ⟨rootPath, hstep⟩ := hopen.root
          · exact Or.inr ⟨root, hgains _ root identity _ ceiling hcall rfl,
              hroot.trans (hdescribes.root root identity rfl)⟩
          · cases hstep
      · exact Or.inl ⟨state', hstate', hid, rfl⟩
    · intro workspace root identity hlater
      rw [Manager.setCall_calls, if_pos rfl] at hlater
      obtain ⟨-, rfl⟩ := CallPhase.opening.inj hlater
      obtain ⟨rootPath, rfl⟩ := hopen.trusting root identity rfl
      rw [hcall]
      rfl
    · intro inner workspace hcloser
      have hinner : inner ≠ call := by
        rintro rfl
        exact not_closer hcall nofun nofun hcloser
      unfold Closer
      rw [Manager.setCall_calls, if_neg hinner]
      exact Or.inr hcloser
  | opened id capabilityId policy hcall hanswer =>
    exact proceeds_setCall (fun _ => Manager.change_calls ..)
      (carries_change (fun _ => rfl) fun _ => rfl) rfl
      fun _ hcloser => absurd hcloser (not_closer hcall nofun nofun)
  | openStopped id step capabilityId hcall hsome =>
    exact proceeds_setCall (fun _ => Manager.delete_calls ..)
      (fun _ state' _ hstate' hid => ⟨state', carries_delete hstate', hid, rfl⟩) rfl
      fun _ hcloser => absurd hcloser (not_closer hcall nofun nofun)
  | openFailed id step hcall hnone =>
    exact proceeds_setCall (fun _ => Manager.delete_calls ..)
      (fun _ state' _ hstate' hid => ⟨state', carries_delete hstate', hid, rfl⟩) rfl
      fun _ hcloser => absurd hcloser (not_closer hcall nofun nofun)
  | unregistered capabilityId hcall hanswer =>
    exact proceeds_setCall (fun _ => rfl) (fun _ state' _ hstate' hid => ⟨state', hstate', hid, rfl⟩)
      rfl fun _ hcloser => absurd hcloser (not_closer hcall nofun nofun)
  | abandoned capabilityId hcall =>
    exact proceeds_setCall (fun _ => rfl) (fun _ state' _ hstate' hid => ⟨state', hstate', hid, rfl⟩)
      rfl fun _ hcloser => absurd hcloser (not_closer hcall nofun nofun)
  | closeOn id capabilityId step later hcall hanswer hlater =>
    refine proceeds_setCall (fun _ => rfl)
      (fun _ state' _ hstate' hid => ⟨state', hstate', hid, rfl⟩) rfl ?_
    rintro workspace (⟨held, step', hcloser⟩ | ⟨error, hcloser⟩)
    · rw [hcall] at hcloser
      obtain ⟨rfl, -, -⟩ := CallPhase.closing.inj hcloser
      exact Or.inr (Or.inl ⟨capabilityId, later, by simp⟩)
    · rw [hcall] at hcloser
      cases hcloser
  | closed id capabilityId hcall hanswer =>
    refine proceeds_setCall (fun _ => Manager.delete_calls ..)
      (fun _ state' _ hstate' hid => ⟨state', carries_delete hstate', hid, rfl⟩) rfl ?_
    rintro workspace (⟨held, step', hcloser⟩ | ⟨error, hcloser⟩)
    · rw [hcall] at hcloser
      obtain ⟨rfl, -, -⟩ := CallPhase.closing.inj hcloser
      exact Or.inl (by simp)
    · rw [hcall] at hcloser
      cases hcloser
  | closeFailed id capabilityId step hcall hanswer =>
    refine proceeds_setCall (fun _ => Manager.change_calls ..)
      (carries_change (fun _ => rfl) fun _ => rfl) rfl ?_
    intro workspace _
    exact Or.inr (Or.inr ⟨.closeIncomplete, by simp⟩)

end Calls

section Reads

variable {settings : Settings P} {s : System P} {call : CallId}

theorem trustedBy_some {entries : Entries} {root : Bytes} {identity : PersistentFilesystemIdentity}
    {entry : TrustedWorkspaceEntry} (h : trustedBy entries root identity = some entry) :
    Names entries entry.id root := by
  unfold trustedBy at h
  split at h
  · cases h
  · obtain ⟨hfind, -⟩ := Option.filter_eq_some_iff.mp h
    have hroot : entry.canonicalRoot = root := by simpa using List.find?_some hfind
    exact ⟨entry, List.mem_of_find?_eq_some hfind, rfl, hroot⟩

theorem readTrust_ok {file : TrustFile} {fails : Bool} {entries : Entries}
    (h : readTrust file fails = .ok entries) : entriesIn file = entries := by
  unfold readTrust at h
  split at h
  · cases h
  · rw [entriesIn, h]

theorem Joint.read (h : Joint settings s) {fails : Bool}
    (htrusting : isTrusting (s.manager.calls call) = true)
    (hcalm : ∀ entry, found s call fails = some entry →
      ∀ u, untrusting (s.untrusts u) entry.id = false) :
    Joint settings (s.setRead call (some (readTrust s.trust.file fails))) := by
  have hreads : ∀ other, (s.setRead call (some (readTrust s.trust.file fails))).reads other =
      if other = call then some (readTrust s.trust.file fails) else s.reads other :=
    Function.update_apply _ _ _
  have hclaims : ∀ other id root,
      Claims (s.setRead call (some (readTrust s.trust.file fails))) other id root →
        Claims s other id root ∨
          (Names (document s) id root ∧ ∀ u, untrusting (s.untrusts u) id = false) := by
    rintro other id root ⟨workspace, identity, entries, entry, hcall, hread, hentry, rfl⟩
    rw [hreads] at hread
    split at hread
    · rename_i hsame
      subst hsame
      replace hread := Option.some.inj hread
      refine Or.inr ⟨?_, hcalm entry ?_⟩
      · rw [document, readTrust_ok hread]
        exact trustedBy_some hentry
      · replace hcall : s.manager.calls other = .opening workspace (.trusting root identity) := hcall
        rw [found, hcall, hread]
        exact hentry
    · exact Or.inl ⟨workspace, identity, entries, entry, hcall, hread, hentry, rfl⟩
  have hlater : Later s (s.setRead call (some (readTrust s.trust.file fails))) := by
    exact { Later.refl s with
      claims := fun other id root hclaim => (hclaims other id root hclaim).imp_right And.right }
  exact { h with
    reads := by
      intro other hsome
      by_cases hother : other = call
      · subst hother
        exact htrusting
      · rw [hreads, if_neg hother] at hsome
        exact h.reads other hsome
    claimed := by
      intro other id root hclaim
      obtain hbefore | ⟨hnames, -⟩ := hclaims other id root hclaim
      · exact h.claimed other id root hbefore
      · exact hnames
    sound := fun u => (h.sound u).later hlater }

end Reads

section Document

open TrustStoreRuns (WriteStep inFlight)

variable {settings : Settings P} {s : System P} {call : CallId} {run : TrustRun}
  {known : List TrustId} {untrusts : CallId → UntrustPhase} {locale : LocaleOrder}
  {phase : TrustStoreRuns.CallPhase}

theorem TrustCalls.setPhase (h : TrustCalls locale run known untrusts)
    (hsound : TrustStoreRuns.Sound locale phase)
    (hasked : ∀ id, callOf phase = some (.untrust id) → id ∈ known)
    (hremoved : ∀ id, Removes phase id → ∀ root, ¬ Names (entriesIn run.file) id root)
    (howned : ∀ id, callOf phase = some (.untrust id) → inFlight phase = true →
      ∃ u listed, untrusts u = .removing id listed call) :
    TrustCalls locale (run.setPhase call phase) known untrusts where
  sound := (Function.forall_update_iff run.calls fun _ phase =>
    TrustStoreRuns.Sound locale phase).mpr ⟨hsound, fun other _ => h.sound other⟩
  asked := (Function.forall_update_iff run.calls fun _ phase => ∀ id,
    callOf phase = some (.untrust id) → id ∈ known).mpr ⟨hasked, fun other _ => h.asked other⟩
  removed := (Function.forall_update_iff run.calls fun _ phase => ∀ id, Removes phase id →
    ∀ root, ¬ Names (entriesIn run.file) id root).mpr ⟨hremoved, fun other _ => h.removed other⟩
  owned := (Function.forall_update_iff run.calls fun other phase => ∀ id,
    callOf phase = some (.untrust id) → inFlight phase = true →
      ∃ u listed, untrusts u = .removing id listed other).mpr
        ⟨howned, fun other _ => h.owned other⟩

theorem TrustCalls.replace (h : TrustCalls locale run known untrusts) {file : TrustFile}
    (hnames : ∀ id root, id ∈ known → Names (entriesIn file) id root →
      Names (entriesIn run.file) id root) :
    TrustCalls locale { run with file } known untrusts where
  sound := h.sound
  asked := h.asked
  removed := by
    intro call id hremoves root hlater
    have hasked : id ∈ known := by
      obtain ⟨seen, next, step, hphase, -⟩ | hphase := hremoves
      · exact h.asked call id (by rw [show run.calls call = _ from hphase]; rfl)
      · exact h.asked call id (by rw [show run.calls call = _ from hphase]; rfl)
    exact h.removed call id hremoves root (hnames id root hasked hlater)
  owned := h.owned

theorem TrustCalls.learn (h : TrustCalls locale run known untrusts) (more : List TrustId) :
    TrustCalls locale run (known ++ more) untrusts :=
  ⟨h.sound, fun call id hcall => List.mem_append_left _ (h.asked call id hcall),
    h.removed, h.owned⟩

theorem Joint.setTrust (h : Joint settings s)
    (hcall : ∀ trustCall, callOf (s.trust.calls call) = some trustCall →
      callOf phase = some trustCall)
    (htrusts : TrustCalls settings.locale (s.trust.setPhase call phase) s.known s.untrusts) :
    Joint settings { s with trust := s.trust.setPhase call phase } := by
  have hlater : Later s { s with trust := s.trust.setPhase call phase } := by
    exact { Later.refl s with
      trust :=
        (Function.forall_update_iff s.trust.calls fun other phase => ∀ trustCall,
          callOf (s.trust.calls other) = some trustCall → callOf phase = some trustCall).mpr
            ⟨hcall, fun _ _ _ hother => hother⟩ }
  exact { h with
    trusts := htrusts
    sound := fun u => (h.sound u).later hlater }

theorem afterStart_cases (trustCall : TrustCall) :
    (TrustRun.afterStart trustCall = .reading trustCall ∧ trustCall.validate = .ok ()) ∨
      ∃ error, TrustRun.afterStart trustCall = .returned trustCall (.error error) := by
  unfold TrustRun.afterStart
  split
  · rename_i hvalid
    exact Or.inl ⟨rfl, hvalid⟩
  · exact Or.inr ⟨_, rfl⟩

theorem not_removes_reading {trustCall : TrustCall} {id : TrustId} :
    ¬ Removes (.reading trustCall) id := by
  rintro (⟨seen, next, step, hphase, -⟩ | hphase) <;> cases hphase

theorem not_removes_error {trustCall : TrustCall} {error : TrustStoreError} {id : TrustId} :
    ¬ Removes (.returned trustCall (.error error)) id := by
  rintro (⟨seen, next, step, hphase, -⟩ | hphase) <;> cases hphase

theorem Joint.trustWorkspace (h : Joint settings s) (input : TrustInput) (freshId now : Bytes)
    (hidle : s.trust.calls call = .idle) :
    Joint settings { s with
      trust := s.trust.setPhase call (TrustRun.afterStart (.trust input freshId now)) } := by
  apply h.setTrust
  · rw [hidle]
    exact nofun
  · obtain ⟨hphase, hvalid⟩ | ⟨error, hphase⟩ :=
      afterStart_cases (.trust input freshId now)
    · rw [hphase]
      exact h.trusts.setPhase hvalid nofun (fun _ hremoves => absurd hremoves not_removes_reading)
        nofun
    · rw [hphase]
      exact h.trusts.setPhase trivial nofun (fun _ hremoves => absurd hremoves not_removes_error)
        nofun

theorem untrustEntries_same {entries : Entries} {id : TrustId}
    (h : (untrustEntries entries id).length = entries.length) (root : Bytes) :
    ¬ Names entries id root := by
  rintro ⟨entry, hentry, hid, -⟩
  have hall := List.length_filter_eq_length_iff.mp h entry hentry
  exact of_decide_eq_true hall hid

theorem afterRead_cases (locale : LocaleOrder) (run : TrustRun) (fails : Bool)
    (trustCall : TrustCall) :
    (∃ error, TrustRun.afterRead locale run.file fails trustCall =
      .returned trustCall (.error error)) ∨
    (TrustRun.afterRead locale run.file fails trustCall = .returned trustCall (.ok ()) ∧
      trustCall.update locale (entriesIn run.file) = none) ∨
    ∃ next, TrustRun.afterRead locale run.file fails trustCall =
        .writing trustCall (entriesIn run.file) next .mkdir ∧
      trustCall.update locale (entriesIn run.file) = some next ∧
        ∀ entry ∈ entriesIn run.file, ValidEntry entry := by
  unfold TrustRun.afterRead entriesIn
  split
  · exact Or.inl ⟨_, rfl⟩
  · split
    · exact Or.inl ⟨_, rfl⟩
    · rename_i entries hread
      simp only [hread]
      split
      · rename_i hupdate
        exact Or.inr (Or.inl ⟨rfl, hupdate⟩)
      · rename_i next hupdate
        exact Or.inr (Or.inr ⟨next, rfl, hupdate, readDocument_valid hread⟩)

theorem Joint.trustRead (h : Joint settings s) {trustCall : TrustCall} (fails : Bool)
    (hreading : s.trust.calls call = .reading trustCall) :
    Joint settings { s with
      trust := s.trust.setPhase call
        (TrustRun.afterRead settings.locale s.trust.file fails trustCall) } := by
  have hcallOf : callOf (s.trust.calls call) = some trustCall := by
    rw [hreading]
    rfl
  have hvalid : trustCall.validate = .ok () := by
    have hsound := h.trusts.sound call
    rwa [hreading] at hsound
  have hasked : ∀ id, some trustCall = some (.untrust id) → id ∈ s.known := by
    intro id hid
    exact h.trusts.asked call id (hcallOf.trans hid)
  have howned : ∀ id, some trustCall = some (.untrust id) →
      ∃ u listed, s.untrusts u = .removing id listed call := by
    intro id hid
    exact h.trusts.owned call id (hcallOf.trans hid) (by rw [hreading]; rfl)
  apply h.setTrust
  · rw [hcallOf]
    intro other hsame
    obtain rfl := Option.some.inj hsame
    obtain ⟨error, hphase⟩ | ⟨hphase, -⟩ | ⟨next, hphase, -⟩ :=
      afterRead_cases settings.locale s.trust fails trustCall <;>
        rw [hphase] <;> rfl
  · obtain ⟨error, hphase⟩ | ⟨hphase, hupdate⟩ | ⟨next, hphase, hupdate, hentries⟩ :=
      afterRead_cases settings.locale s.trust fails trustCall
    · rw [hphase]
      exact h.trusts.setPhase trivial hasked
        (fun _ hremoves => absurd hremoves not_removes_error) nofun
    · rw [hphase]
      refine h.trusts.setPhase trivial hasked ?_ nofun
      rintro id (⟨seen, next, step, heq, -⟩ | heq) root
      · cases heq
      · obtain ⟨rfl, -⟩ := TrustStoreRuns.CallPhase.returned.inj heq
        rw [TrustCall.update] at hupdate
        split at hupdate
        · rename_i hsame
          exact untrustEntries_same hsame root
        · cases hupdate
    · rw [hphase]
      refine h.trusts.setPhase ⟨hvalid, hentries, hupdate⟩ hasked ?_ fun id hid _ => howned id hid
      rintro id (⟨seen, next', step, heq, hreplaced⟩ | heq) root
      · obtain ⟨-, -, -, rfl⟩ := TrustStoreRuns.CallPhase.writing.inj heq
        cases hreplaced
      · cases heq

theorem Joint.trustWrite (h : Joint settings s) {trustCall : TrustCall} {seen next : Entries}
    {step : WriteStep} (hwriting : s.trust.calls call = .writing trustCall seen next step)
    (hphase : (∃ error, phase = .returned trustCall (.error error)) ∨
      (step ≠ .rename ∧ phase = TrustRun.afterStep trustCall seen next step)) :
    Joint settings { s with trust := s.trust.setPhase call phase } := by
  have hcallOf : callOf (s.trust.calls call) = some trustCall := by
    rw [hwriting]
    rfl
  have hsound : TrustStoreRuns.Sound settings.locale (.writing trustCall seen next step) := by
    have hsound := h.trusts.sound call
    rwa [hwriting] at hsound
  have hasked : ∀ id, some trustCall = some (.untrust id) → id ∈ s.known := by
    intro id hid
    exact h.trusts.asked call id (hcallOf.trans hid)
  have howned : ∀ id, some trustCall = some (.untrust id) →
      ∃ u listed, s.untrusts u = .removing id listed call := by
    intro id hid
    exact h.trusts.owned call id (hcallOf.trans hid) (by rw [hwriting]; rfl)
  have hremoved : ∀ id, trustCall = .untrust id → step.replaced = true →
      ∀ root, ¬ Names (entriesIn s.trust.file) id root := by
    rintro id rfl hreplaced
    exact h.trusts.removed call id (Or.inl ⟨seen, next, step, hwriting, hreplaced⟩)
  obtain ⟨error, rfl⟩ | ⟨hstep, rfl⟩ := hphase
  · apply h.setTrust
    · rw [hcallOf]
      exact fun _ hsame => hsame
    · exact h.trusts.setPhase trivial hasked (fun _ hremoves => absurd hremoves not_removes_error)
        nofun
  · unfold TrustRun.afterStep
    cases hfollowing : step.following with
    | none =>
      apply h.setTrust
      · rw [hcallOf]
        exact fun _ hsame => hsame
      · refine h.trusts.setPhase trivial hasked ?_ nofun
        rintro id (⟨seen', next', step', heq, -⟩ | heq) root
        · cases heq
        · exact hremoved id (TrustStoreRuns.CallPhase.returned.inj heq).1
            (WriteStep.replaced_last hfollowing) root
    | some later =>
      apply h.setTrust
      · rw [hcallOf]
        exact fun _ hsame => hsame
      · refine h.trusts.setPhase hsound hasked ?_ fun id hid _ => howned id hid
        rintro id (⟨seen', next', step', heq, hreplaced⟩ | heq) root
        · obtain ⟨hcall, -, -, rfl⟩ := TrustStoreRuns.CallPhase.writing.inj heq
          rw [WriteStep.replaced_following hstep hfollowing] at hreplaced
          exact hremoved id hcall hreplaced root
        · cases heq

/-- The document is replaced by one in which no known id is new, and every entry
that a workspace or a call relies on still is. -/
theorem Joint.replace (h : Joint settings s) {file : TrustFile} (more : List TrustId)
    (hdistinct : Distinct (entriesIn file))
    (hknown : ∀ id root, Names (entriesIn file) id root → id ∈ s.known ++ more)
    (hnames : ∀ id root, id ∈ s.known → Names (entriesIn file) id root →
      Names (document s) id root)
    (hcarried : ∀ workspace state id root, s.manager.workspaces workspace = some state →
      state.trustId = some id → Names (document s) id root → Names (entriesIn file) id root)
    (hclaimed : ∀ call id root, Claims s call id root → Names (document s) id root →
      Names (entriesIn file) id root) :
    Joint settings { s with trust := { s.trust with file }, known := s.known ++ more } := by
  have hlater : Later s { s with trust := { s.trust with file }, known := s.known ++ more } := by
    exact { Later.refl s with
      known := fun _ hid => List.mem_append_left _ hid
      names := hnames }
  exact { h with
    distinct := hdistinct
    known := hknown
    carried := by
      intro workspace state id hstate hid
      obtain ⟨root, hroot, hentry⟩ := h.carried workspace state id hstate hid
      exact ⟨root, hroot, hcarried workspace state id root hstate hid hentry⟩
    claimed :=
      fun call id root hclaims => hclaimed call id root hclaims (h.claimed call id root hclaims)
    trusts := (h.trusts.replace hnames).learn more
    sound := fun u => (h.sound u).later hlater }

theorem entriesIn_written {trustCall : TrustCall} {seen next : Entries} {step : WriteStep}
    (h : TrustStoreRuns.Sound locale (.writing trustCall seen next step)) :
    entriesIn (.value (documentJson next)) = next := by
  rw [entriesIn, readDocument_documentJson (update_valid h.1 h.2.1 h.2.2)]

theorem Joint.trustRename (h : Joint settings s) {trustCall : TrustCall} {seen next : Entries}
    (hwriting : s.trust.calls call = .writing trustCall seen next .rename)
    (hseen : readDocument s.trust.file = .ok seen) (hfresh : drawsFresh s seen trustCall = true) :
    Joint settings { s with
      trust := { s.trust with file := .value (documentJson next) }.setPhase call
        (.writing trustCall seen next .chmodFile)
      known := s.known ++ next.map TrustedWorkspaceEntry.id } := by
  have hcallOf : callOf (s.trust.calls call) = some trustCall := by
    rw [hwriting]
    rfl
  have hsound : TrustStoreRuns.Sound settings.locale (.writing trustCall seen next .rename) := by
    have hsound := h.trusts.sound call
    rwa [hwriting] at hsound
  have hdocument : document s = seen := by rw [document, entriesIn, hseen]
  have hentries := entriesIn_written hsound
  have hdistinct := h.distinct
  have hknown := h.known
  rw [hdocument] at hdistinct hknown
  have hlearn : ∀ id root, Names next id root →
      id ∈ s.known ++ next.map TrustedWorkspaceEntry.id := by
    rintro id root ⟨entry, hentry, rfl, -⟩
    exact List.mem_append_right _ (List.mem_map_of_mem hentry)
  cases trustCall with
  | trust input freshId now =>
    obtain rfl : trustEntries settings.locale seen input freshId now = next :=
      Option.some.inj hsound.2.2
    have hnew : (∀ entry ∈ seen, entry.canonicalRoot ≠ input.canonicalRoot) →
        freshId ∉ s.known := by
      intro hnone
      rw [drawsFresh, Bool.or_eq_true] at hfresh
      obtain hany | hunknown := hfresh
      · obtain ⟨entry, hentry, hroot⟩ := List.any_eq_true.mp hany
        exact absurd (of_decide_eq_true hroot) (hnone entry hentry)
      · simpa using hunknown
    have hreplaced : Joint settings { s with
        trust := { s.trust with file := .value (documentJson
          (trustEntries settings.locale seen input freshId now)) }
        known := s.known ++ (trustEntries settings.locale seen input freshId now).map
          TrustedWorkspaceEntry.id } := by
      apply h.replace <;> rw [hentries]
      · refine distinct_trustEntries hdistinct fun hnone entry hentry hid => hnew hnone ?_
        rw [← hid]
        exact hknown entry.id entry.canonicalRoot ⟨entry, hentry, rfl, rfl⟩
      · exact hlearn
      · intro id root hid hnames
        rw [hdocument]
        obtain hold | ⟨rfl, -, hnone⟩ := names_of_trustEntries hnames
        · exact hold
        · exact absurd hid (hnew hnone)
      · intro _ _ id root _ _ hnames
        rw [hdocument] at hnames
        exact names_trustEntries hdistinct hnames
      · intro _ id root _ hnames
        rw [hdocument] at hnames
        exact names_trustEntries hdistinct hnames
    apply hreplaced.setTrust
    · intro other hother
      exact hcallOf.symm.trans hother
    · refine hreplaced.trusts.setPhase hsound nofun ?_ nofun
      rintro id (⟨seen', next', step', heq, -⟩ | heq) root
      · cases (TrustStoreRuns.CallPhase.writing.inj heq).1
      · cases heq
  | untrust removed =>
    obtain ⟨u, listed, howner⟩ := h.trusts.owned call removed hcallOf (by rw [hwriting]; rfl)
    have hconfined : Confined s removed fun _ => False := by
      have hphase := h.sound u
      rw [howner] at hphase
      exact hphase.2.1
    have hnext : next = untrustEntries seen removed := by
      have hupdate : TrustCall.update settings.locale seen (.untrust removed) = some next :=
        hsound.2.2
      rw [TrustCall.update] at hupdate
      split at hupdate
      · cases hupdate
      · exact (Option.some.inj hupdate).symm
    subst hnext
    have hreplaced : Joint settings { s with
        trust := { s.trust with file := .value (documentJson (untrustEntries seen removed)) }
        known := s.known ++ (untrustEntries seen removed).map TrustedWorkspaceEntry.id } := by
      apply h.replace <;> rw [hentries]
      · rw [distinct_iff] at hdistinct ⊢
        intro id root id' root' hnames hnames'
        exact hdistinct id root id' root' (names_untrustEntries.mp hnames).1
          (names_untrustEntries.mp hnames').1
      · exact hlearn
      · intro id root _ hnames
        rw [hdocument]
        exact (names_untrustEntries.mp hnames).1
      · rintro workspace state id root hstate hid hnames
        rw [hdocument] at hnames
        refine names_untrustEntries.mpr ⟨hnames, ?_⟩
        rintro rfl
        exact hconfined.carries workspace state hstate hid
      · rintro other id root hclaims hnames
        rw [hdocument] at hnames
        refine names_untrustEntries.mpr ⟨hnames, ?_⟩
        rintro rfl
        exact hconfined.claims other root hclaims
    apply hreplaced.setTrust
    · intro other hother
      exact hcallOf.symm.trans hother
    · refine hreplaced.trusts.setPhase hsound ?_ ?_ ?_
      · intro id hid
        exact hreplaced.trusts.asked call id (hcallOf.trans hid)
      · rintro id (⟨seen', next', step', heq, -⟩ | heq) root hnames
        · obtain ⟨hcall, -, -, -⟩ := TrustStoreRuns.CallPhase.writing.inj heq
          obtain rfl := TrustCall.untrust.inj hcall
          replace hnames : Names (entriesIn (.value (documentJson
            (untrustEntries seen removed)))) removed root := hnames
          rw [hentries] at hnames
          exact (names_untrustEntries.mp hnames).2 rfl
        · cases heq
      · intro id hid _
        obtain rfl := TrustCall.untrust.inj (Option.some.inj hid)
        exact ⟨u, listed, howner⟩

end Document

section Store

variable {settings : Settings P} {s t : System P} {call : CallId} {id : TrustId}
  {event : StoreEvent}

theorem Joint.store (h : Joint settings s) (hstep : s.stepStore id event = some t)
    (hquiet : ∀ u, purged (s.untrusts u) id = true →
      ∀ run, (s.checkpoints id).next event = some run → ∀ call joined,
        (s.checkpoints id).calls call = .idle → run.calls call = .queued joined →
          isUpsert joined.operation = false) :
    Joint settings t ∧ ∃ run, (s.checkpoints id).next event = some run ∧
      t = { s with checkpoints := Function.update s.checkpoints id run } := by
  obtain ⟨run, hnext, rfl⟩ := Option.map_eq_some_iff.mp hstep
  refine ⟨?_, run, hnext, rfl⟩
  have hmove := next_move hnext
  have hlater : Later s { s with checkpoints := Function.update s.checkpoints id run } := by
    exact { Later.refl s with
      purging := by
        intro u id' listed inner line hphase hlined hcleared
        show ∃ line', Lined (Function.update s.checkpoints id run id') line' ∧
          Cleared (Function.update s.checkpoints id run id') inner line'
        by_cases hid : id' = id
        · subst hid
          rw [Function.update_self]
          exact hcleared.move hlined hmove (hquiet u (by simp [hphase, purged]) run hnext)
        · rw [Function.update_of_ne hid]
          exact ⟨line, hlined, hcleared⟩
      emptied := by
        intro u id' hpurged hemptied
        show Emptied (Function.update s.checkpoints id run id')
        by_cases hid : id' = id
        · subst hid
          rw [Function.update_self]
          exact hemptied.move hmove (hquiet u hpurged run hnext)
        · rw [Function.update_of_ne hid]
          exact hemptied }
  exact { h with
    lined := by
      apply (Function.forall_update_iff s.checkpoints fun _ run => ∃ line, Lined run line).mpr
      obtain ⟨line, hlined⟩ := h.lined id
      exact ⟨hmove.lined hlined, fun other _ => h.lined other⟩
    sound := fun u => (h.sound u).later hlater }

theorem Joint.storeOn (h : Joint settings s)
    (hstart : ∀ id request observed, event ≠ .start id request observed)
    (hstep : s.stepStore id event = some t) : Joint settings t := by
  refine (h.store hstep ?_).1
  intro u _ run hnext call joined hidle hqueued
  rw [next_idle hstart hnext hidle] at hqueued
  cases hqueued

theorem Joint.setMutation (h : Joint settings s) (phase : MutationPhase) :
    Joint settings (s.setMutation call phase) :=
  ⟨h.attended, h.distinct, h.known, h.begun, h.reads, h.carried, h.claimed, h.trusts, h.lined,
    fun u => (h.sound u).later ⟨fun _ hid => hid, fun _ _ _ hnames => hnames,
      fun _ state' _ hstate' hid => Or.inl ⟨state', hstate', hid⟩,
      fun _ _ _ hclaim => Or.inl hclaim, fun _ _ hcloser => Or.inr hcloser,
      fun _ _ hcall => hcall, fun _ _ _ _ line _ hlined hcleared => ⟨line, hlined, hcleared⟩,
      fun _ _ _ hemptied => hemptied⟩⟩

theorem start_queued {run run' : StoreRun} {inner other : CallId} {request : Request}
    {joined : CheckpointStoreRuns.Call} (hnext : run.next (.start inner request none) = some run')
    (hidle : run.calls other = .idle) (hqueued : run'.calls other = .queued joined) :
    request.validate = .ok joined.operation := by
  rw [StoreRun.next] at hnext
  split at hnext
  · by_cases hother : other = inner
    · subst hother
      split at hnext
      · obtain rfl := Option.some.inj hnext
        rw [setPhase_self] at hqueued
        cases hqueued
      · rename_i operation hvalid
        split at hnext
        · obtain rfl := Option.some.inj hnext
          rw [setPhase_self] at hqueued
          rw [hvalid, ← CheckpointStoreRuns.CallPhase.queued.inj hqueued]
        · cases hnext
    · have hidle' : run'.calls other = .idle := by
        split at hnext
        · obtain rfl := Option.some.inj hnext
          rwa [setPhase_of_ne hother]
        · split at hnext
          · obtain rfl := Option.some.inj hnext
            rwa [setPhase_of_ne hother]
          · cases hnext
      rw [hidle'] at hqueued
      cases hqueued
  · cases hnext

theorem validate_clear {expectedRevision : KodeGpt.JsFrames.JsValue} {operation : Operation}
    (h : Request.validate (.clear expectedRevision) = .ok operation) : isUpsert operation = false := by
  unfold Request.validate at h
  obtain ⟨expected, -, h⟩ := FallibleActions.bind_eq_ok_iff.mp h
  obtain rfl := Except.ok.inj h
  rfl

theorem validate_purge {operation : Operation} (h : Request.validate .purge = .ok operation) :
    isUpsert operation = false := by
  obtain rfl := Except.ok.inj h
  rfl

end Store

section Untrusts

variable {settings : Settings P} {s t : System P} {call inner : CallId} {id : TrustId}
  {listed : Entries} {phase : UntrustPhase}

theorem Listed.setUntrust (h : Listed s id listed) :
    Listed (s.setUntrust call phase) id listed :=
  ⟨h.asked, h.distinct, h.known, h.agree⟩

theorem Confined.setUntrust {allowed : WorkspaceId → Prop} (h : Confined s id allowed) :
    Confined (s.setUntrust call phase) id allowed :=
  ⟨h.carries, h.claims⟩

theorem Sound.setUntrust {other : UntrustPhase} (h : Sound s other) :
    Sound (s.setUntrust call phase) other := by
  cases other with
  | idle => trivial
  | failing => trivial
  | rejected => trivial
  | listing id read =>
    match read with
    | none => exact h
    | some (.error _) => exact h
    | some (.ok listed) => exact ⟨h.1.setUntrust, h.2⟩
  | auditing id listed bound => exact ⟨h.1.setUntrust, h.2.setUntrust⟩
  | closing id listed inner bound => exact ⟨h.1.setUntrust, h.2.setUntrust⟩
  | purging id listed inner => exact ⟨h.1.setUntrust, h.2.1.setUntrust, h.2.2⟩
  | removing id listed inner => exact ⟨h.1.setUntrust, h.2.1.setUntrust, h.2.2⟩
  | succeeding id listed => exact ⟨h.1.setUntrust, h.2⟩
  | untrusted id listed => exact ⟨h.1.setUntrust, h.2⟩

/-- The call waits for its call of the document, which may still take out the
entry. -/
def awaitsRemoval (s : System P) (phase : UntrustPhase) : Prop :=
  ∃ id listed inner, phase = .removing id listed inner ∧
    TrustStoreRuns.inFlight (s.trust.calls inner) = true

theorem Joint.setUntrust (h : Joint settings s) (hbegun : call ∈ s.begun)
    (hfree : ¬ awaitsRemoval s (s.untrusts call)) (hsound : Sound s phase) :
    Joint settings (s.setUntrust call phase) := by
  exact { h with
    begun :=
      (Function.forall_update_iff s.untrusts fun other phase =>
        phase ≠ .idle → other ∈ s.begun).mpr ⟨fun _ => hbegun, fun other _ => h.begun other⟩
    trusts := by
      refine ⟨h.trusts.sound, h.trusts.asked, h.trusts.removed, ?_⟩
      intro other id hother hflight
      obtain ⟨u, listed, howner⟩ := h.trusts.owned other id hother hflight
      have hu : u ≠ call := by
        rintro rfl
        exact hfree ⟨id, listed, other, howner, hflight⟩
      exact ⟨u, listed, (Function.update_of_ne hu ..).trans howner⟩
    sound :=
      (Function.forall_update_iff s.untrusts fun _ other =>
        Sound (s.setUntrust call phase) other).mpr
          ⟨hsound.setUntrust, fun other _ => (h.sound other).setUntrust⟩ }

theorem Joint.begunBy (h : Joint settings s) (hphase : s.untrusts call = phase)
    (hidle : phase ≠ .idle) : call ∈ s.begun := by
  apply h.begun
  rw [hphase]
  exact hidle

theorem Joint.untrustWorkspace (h : Joint settings s) (hidle : s.untrusts call = .idle)
    (hsound : id ∈ s.known ++ [id] → Sound
      { s with begun := s.begun ++ [call], known := s.known ++ [id] } phase) :
    Joint settings ({ s with begun := s.begun ++ [call], known := s.known ++ [id] }.setUntrust call
      phase) := by
  have hlater : Later s { s with begun := s.begun ++ [call], known := s.known ++ [id] } := by
    exact { Later.refl s with
      known := fun _ hid => List.mem_append_left _ hid }
  have hbegun : Joint settings
      { s with begun := s.begun ++ [call], known := s.known ++ [id] } := by
    exact { h with
      known := fun id root hnames => List.mem_append_left _ (h.known id root hnames)
      begun := fun u hphase => List.mem_append_left _ (h.begun u hphase)
      trusts := h.trusts.learn [id]
      sound := fun u => (h.sound u).later hlater }
  apply hbegun.setUntrust
  · exact List.mem_append_right _ (List.mem_singleton_self call)
  · rintro ⟨id', listed, inner, hphase, -⟩
    rw [show s.untrusts call = _ from hphase] at hidle
    cases hidle
  · exact hsound (List.mem_append_right _ (List.mem_singleton_self id))

theorem Joint.readDocument (h : Joint settings s) (hid : id ∈ s.known) (fails : Bool) :
    Sound s (.listing id (some (readTrust s.trust.file fails))) := by
  cases hread : readTrust s.trust.file fails with
  | error _ => exact hid
  | ok listed =>
    have hdocument : document s = listed := readTrust_ok hread
    rw [← hdocument]
    refine ⟨⟨hid, h.distinct, h.known, ?_⟩, fun _ hnames => hnames⟩
    intro id' root root' hnames hnames'
    exact (distinct_iff.mp h.distinct id' root id' root' hnames hnames').mp rfl

theorem Listed.find (h : Listed s id listed) {root : Bytes} (hnames : Names listed id root) :
    (listed.find? fun entry => entry.id = id).map TrustedWorkspaceEntry.canonicalRoot =
      some root := by
  obtain ⟨entry, hentry, hid, rfl⟩ := hnames
  have hsome : (listed.find? fun entry => entry.id = id).isSome = true :=
    List.find?_isSome.mpr ⟨entry, hentry, decide_eq_true hid⟩
  obtain ⟨first, hfirst⟩ := Option.isSome_iff_exists.mp hsome
  have hfirstId : first.id = id := by simpa using List.find?_some hfirst
  rw [hfirst, Option.map_some, Option.some_inj]
  exact (h.distinct first (List.mem_of_find?_eq_some hfirst) entry hentry).mp
    (hfirstId.trans hid.symm)

/-- The workspaces that an untrusting call finds, when they are all READY, are
all there will be of the entry. -/
theorem Joint.confined (h : Joint settings s)
    (hlisted : Sound s (.listing id (some (.ok listed))))
    (hready : (boundWorkspaces s.manager id listed).all (isReady s.manager) = true) :
    Confined s id (· ∈ boundWorkspaces s.manager id listed) := by
  have hbound : ∀ workspace state, s.manager.workspaces workspace = some state →
      boundTo id ((listed.find? fun entry => entry.id = id).map
        TrustedWorkspaceEntry.canonicalRoot) state = true →
          workspace ∈ boundWorkspaces s.manager id listed := by
    intro workspace state hstate hto
    refine List.mem_filter.mpr ⟨h.attended.listed workspace state hstate, ?_⟩
    rw [hstate]
    exact hto
  constructor
  case carries =>
    intro workspace state hstate hid
    refine hbound workspace state hstate ?_
    rw [boundTo, hid, beq_self_eq_true, Bool.true_or]
  case claims =>
    intro call root hclaims
    have hnames : Names listed id root := hlisted.2 root (h.claimed call id root hclaims)
    obtain ⟨workspace, identity, entries, entry, hcall, -⟩ := hclaims
    obtain ⟨state, hstate, hdescribes⟩ := h.attended.opening call workspace _ hcall
    have hto : boundTo id ((listed.find? fun entry => entry.id = id).map
        TrustedWorkspaceEntry.canonicalRoot) state = true := by
      rw [hlisted.1.find hnames, boundTo, hdescribes.root root identity rfl, beq_self_eq_true]
      simp
    have hopen := List.all_eq_true.mp hready workspace (hbound workspace state hstate hto)
    rw [isReady, hstate, Option.any_some, hdescribes.phase] at hopen
    cases hopen

theorem isIdle_iff {phase : CallPhase Bytes PersistentFilesystemIdentity P} :
    isIdle phase = true ↔ phase = .idle := by
  cases phase <;> simp [isIdle]

theorem Joint.unread (h : Joint settings s) (hidle : s.manager.calls call = .idle) :
    s.reads call = none := by
  by_contra hsome
  have htrusting := h.reads call hsome
  rw [hidle] at htrusting
  cases htrusting

theorem Joint.beginCall (h : Joint settings s) {m : Manager Bytes PersistentFilesystemIdentity P}
    (hidle : s.manager.calls call = .idle) (hattended : Attended m)
    (hproceeds : Proceeds s.manager call (Claims s call) m) :
    Joint settings { s with manager := m } := by
  have hjoint := h.proceed hattended hproceeds
  have hreads : Function.update s.reads call none = s.reads :=
    Function.update_eq_self_iff.mpr (h.unread hidle).symm
  rwa [hreads] at hjoint

theorem closer_closeWorkspace (m : Manager Bytes PersistentFilesystemIdentity P) (call : CallId)
    (workspace : WorkspaceId) : Closer (m.closeWorkspace call workspace) call workspace := by
  have hrejected : ∀ error, Closer (m.setCall call (.rejected error)) call workspace :=
    fun error => Or.inr ⟨error, by simp⟩
  unfold Manager.closeWorkspace
  split
  · exact hrejected _
  · split
    · exact hrejected _
    · rename_i capabilityId _
      split
      · exact hrejected _
      · exact Or.inl ⟨capabilityId, .beginClose, by simp⟩

theorem Confined.close {workspace : WorkspaceId} {bound : List WorkspaceId}
    (h : Confined s id (· ∈ workspace :: bound)) (hidle : s.manager.calls inner = .idle) :
    Confined { s with manager := s.manager.closeWorkspace inner workspace } id fun other =>
      other ∈ bound ∨ Closer (s.manager.closeWorkspace inner workspace) inner other := by
  have hproceeds : Proceeds s.manager inner (fun _ _ => False)
      (s.manager.closeWorkspace inner workspace) :=
    proceeds_closeWorkspace hidle workspace
  constructor
  case carries =>
    intro other state' hstate' hid
    obtain ⟨state, hstate, hcarries, -⟩ | ⟨root, hfalse, -⟩ :=
      hproceeds.carries other state' id hstate' hid
    · obtain hsame | hmem := List.mem_cons.mp (h.carries other state hstate hcarries)
      · subst hsame
        exact Or.inr (closer_closeWorkspace s.manager inner other)
      · exact Or.inl hmem
    · exact hfalse.elim
  case claims =>
    rintro call root ⟨workspace', identity, entries, entry, hcall, hread, hentry⟩
    have hcloser := closer_closeWorkspace s.manager inner workspace
    have hcall' : call ≠ inner := by
      rintro rfl
      exact not_closer hcall nofun nofun hcloser
    exact h.claims call root ⟨workspace', identity, entries, entry,
      (hproceeds.others call hcall').symm.trans hcall, hread, hentry⟩

theorem Joint.untrustNext (h : Joint settings s) (hbegun : call ∈ s.begun)
    (hfree : ¬ awaitsRemoval s (s.untrusts call)) (hlisted : Listed s id listed)
    {bound : List WorkspaceId} (hconfined : Confined s id (· ∈ bound))
    (hnext : s.untrustNext call id listed inner bound = some t) : Joint settings t := by
  cases bound with
  | nil =>
    obtain ⟨after, hstep, rfl⟩ := Option.map_eq_some_iff.mp hnext
    have hquiet : ∀ u, purged (s.untrusts u) id = true →
        ∀ run, (s.checkpoints id).next (.start inner .purge none) = some run →
          ∀ other joined, (s.checkpoints id).calls other = .idle →
            run.calls other = .queued joined → isUpsert joined.operation = false :=
      fun _ _ run hrun other joined hidle hqueued =>
        validate_purge (start_queued hrun hidle hqueued)
    obtain ⟨hafter, run, hrun, rfl⟩ := h.store hstep hquiet
    obtain ⟨line, hlined⟩ := h.lined id
    obtain ⟨line', hlined', hcleared⟩ := start_cleared hlined hrun
    refine hafter.setUntrust hbegun hfree
      ⟨⟨hlisted.asked, hlisted.distinct, hlisted.known, hlisted.agree⟩, ⟨?_, hconfined.claims⟩,
        line', ?_, ?_⟩
    · intro workspace state hstate hid
      cases hconfined.carries workspace state hstate hid
    · show Lined (Function.update s.checkpoints id run id) line'
      rw [Function.update_self]
      exact hlined'
    · show Cleared (Function.update s.checkpoints id run id) inner line'
      rw [Function.update_self]
      exact hcleared
  | cons workspace bound =>
    rw [System.untrustNext] at hnext
    split at hnext
    · rename_i hidle
      obtain rfl := Option.some.inj hnext
      have hinner := isIdle_iff.mp hidle
      have hclosing := h.beginCall hinner (h.attended.closeWorkspace workspace)
        (proceeds_closeWorkspace hinner workspace)
      exact hclosing.setUntrust hbegun hfree
        ⟨⟨hlisted.asked, hlisted.distinct, hlisted.known, hlisted.agree⟩, hconfined.close hinner⟩
    · cases hnext

theorem not_awaitsRemoval (hphase : s.untrusts call = phase)
    (hremoving : ∀ id listed inner, phase ≠ .removing id listed inner) :
    ¬ awaitsRemoval s (s.untrusts call) := by
  rintro ⟨id, listed, inner, hawaits, -⟩
  exact hremoving id listed inner (hphase.symm.trans hawaits)

/-- A phase of a call that has begun and waits for no removal. -/
def goesOn : UntrustPhase → Bool
  | .idle | .removing .. => false
  | _ => true

theorem Joint.settle (h : Joint settings s) {before : UntrustPhase}
    (hphase : s.untrusts call = before) (hgoes : goesOn before = true) (hsound : Sound s phase) :
    Joint settings (s.setUntrust call phase) := by
  refine h.setUntrust (h.begunBy hphase ?_) (not_awaitsRemoval hphase ?_) hsound
  · rintro rfl
    cases hgoes
  · rintro id listed inner rfl
    cases hgoes

theorem Joint.untrustPurged (h : Joint settings s)
    (hphase : s.untrusts call = .purging id listed inner) {purge : CheckpointStoreRuns.Call}
    {checkpoint : Option Checkpoint}
    (hpurge : (s.checkpoints id).calls inner = .fulfilled purge checkpoint) {removal : CallId}
    (hnext : s.stepTrust settings (.start removal (.untrust id)) = some t) :
    Joint settings (t.setUntrust call (.removing id listed removal)) := by
  obtain ⟨run, hrun, rfl⟩ := Option.map_eq_some_iff.mp hnext
  have hsound := h.sound call
  rw [hphase] at hsound
  obtain ⟨hlisted, hconfined, line, -, hcleared⟩ := hsound
  rw [TrustRun.next] at hrun
  split at hrun
  · rename_i hidle
    obtain rfl := Option.some.inj hrun
    have hafter : callOf (TrustRun.afterStart (.untrust id)) = some (.untrust id) := rfl
    have hlater : Later s { s with
        trust := s.trust.setPhase removal (TrustRun.afterStart (.untrust id)) } := by
      exact { Later.refl s with
        trust := by
          refine (Function.forall_update_iff s.trust.calls fun other phase => ∀ trustCall,
            callOf (s.trust.calls other) = some trustCall → callOf phase = some trustCall).mpr
              ⟨?_, fun _ _ _ hother => hother⟩
          rw [hidle]
          rintro _ ⟨⟩ }
    exact { h with
      begun :=
        (Function.forall_update_iff s.untrusts fun other phase =>
          phase ≠ .idle → other ∈ s.begun).mpr
            ⟨fun _ => h.begunBy hphase (by simp), fun other _ => h.begun other⟩
      trusts := by
        refine TrustCalls.setPhase ⟨h.trusts.sound, h.trusts.asked, h.trusts.removed, ?_⟩ rfl ?_ ?_ ?_
        · intro other id' hother hflight
          obtain ⟨u, listed', howner⟩ := h.trusts.owned other id' hother hflight
          have hu : u ≠ call := by
            rintro rfl
            rw [hphase] at howner
            cases howner
          exact ⟨u, listed', (Function.update_of_ne hu ..).trans howner⟩
        · intro id' hid
          obtain rfl := TrustCall.untrust.inj (Option.some.inj hid)
          exact hlisted.asked
        · exact fun _ hremoves => absurd hremoves not_removes_reading
        · intro id' hid _
          obtain rfl := TrustCall.untrust.inj (Option.some.inj hid)
          exact ⟨call, listed, Function.update_self ..⟩
      sound := by
        refine (Function.forall_update_iff s.untrusts fun _ other => Sound (System.setUntrust
          { s with trust := s.trust.setPhase removal (TrustRun.afterStart (.untrust id)) } call
            (.removing id listed removal)) other).mpr ⟨?_, ?_⟩
        · refine ⟨⟨hlisted.asked, hlisted.distinct, hlisted.known, hlisted.agree⟩,
            ⟨hconfined.carries, hconfined.claims⟩, hcleared.emptied hpurge, ?_⟩
          exact (congrArg callOf (TrustRun.setPhase_self ..)).trans hafter
        · exact fun other _ => ((h.sound other).later hlater).setUntrust }
  · cases hrun

theorem Joint.untrustRemoved (h : Joint settings s)
    (hphase : s.untrusts call = .removing id listed inner) {trustCall : TrustCall}
    (hremoval : s.trust.calls inner = .returned trustCall (.ok ())) :
    Sound s (.succeeding id listed) := by
  have hsound := h.sound call
  rw [hphase] at hsound
  obtain ⟨hlisted, -, hemptied, hcall⟩ := hsound
  rw [hremoval] at hcall
  obtain rfl := Option.some.inj hcall
  exact ⟨hlisted, hemptied, h.trusts.removed inner id (Or.inr hremoval)⟩

end Untrusts

section Steps

variable {settings : Settings P} {s t : System P}

theorem joint_started {file : TrustFile} (checkpoints : TrustId → StoredFile)
    (hdistinct : Distinct (entriesIn file)) :
    Joint settings (System.started file checkpoints : System P) := by
  constructor
  case attended => exact attended_started
  case distinct => exact hdistinct
  case known =>
    rintro id root ⟨entry, hentry, rfl, -⟩
    show entry.id ∈ match readDocument file with
      | .ok entries => entries.map TrustedWorkspaceEntry.id
      | .error _ => []
    rw [document, entriesIn] at hentry
    split at hentry
    · rename_i entries hread
      rw [show readDocument file = .ok entries from hread]
      exact List.mem_map_of_mem hentry
    · cases hentry
  case begun => exact fun u hidle => absurd rfl hidle
  case reads => exact fun call hsome => absurd rfl hsome
  case carried => exact nofun
  case claimed =>
    rintro call id root ⟨workspace, identity, entries, entry, hcall, -⟩
    cases hcall
  case trusts =>
    refine ⟨fun _ => trivial, nofun, ?_, nofun⟩
    rintro call id (⟨seen, next, step, hphase, -⟩ | hphase)
    · cases hphase
    · cases hphase
  case lined => exact fun id => ⟨[], Lined.started (checkpoints id)⟩
  case sound => exact fun _ => trivial

theorem not_untrusting_of_begun (h : Joint settings s) {id : TrustId}
    (hbegun : (s.begun.all fun u => !untrusting (s.untrusts u) id) = true) (u : CallId) :
    untrusting (s.untrusts u) id = false := by
  by_cases hmem : u ∈ s.begun
  · exact (Bool.not_eq_true' _).mp (List.all_eq_true.mp hbegun u hmem)
  · have hidle : s.untrusts u = .idle := by
      by_contra hphase
      exact hmem (h.begun u hphase)
    rw [hidle]
    rfl

theorem not_purged_of_begun (h : Joint settings s) {id : TrustId}
    (hbegun : (s.begun.all fun u => !purged (s.untrusts u) id) = true) (u : CallId) :
    purged (s.untrusts u) id = false := by
  by_cases hmem : u ∈ s.begun
  · exact (Bool.not_eq_true' _).mp (List.all_eq_true.mp hbegun u hmem)
  · have hidle : s.untrusts u = .idle := by
      by_contra hphase
      exact hmem (h.begun u hphase)
    rw [hidle]
    rfl

theorem Joint.checkpointAudited (h : Joint settings s) {call inner : CallId} {trustId : TrustId}
    {mutation : Mutation} (hphase : s.mutations call = .auditing trustId mutation)
    (hcalm : Calm s (.checkpointAudited call true inner) = true)
    (hstep : s.stepStore trustId (.start inner mutation.request none) = some t) :
    Joint settings t := by
  refine (h.store hstep ?_).1
  intro u hpurged run hrun other joined hidle hqueued
  have hvalid := start_queued hrun hidle hqueued
  cases mutation with
  | upsert checkpoint capturedSourceState expectedRevision =>
    rw [Calm, hphase] at hcalm
    rw [not_purged_of_begun h hcalm u] at hpurged
    cases hpurged
  | clear expectedRevision => exact validate_clear hvalid

theorem Joint.write (h : Joint settings s) {call : CallId} {fails : Bool}
    (hcalm : Calm s (.trustWrite call fails) = true)
    (hstep : s.stepTrust settings (.write call fails) = some t) :
    Joint settings { t with known := s.known ++ s.written call fails } := by
  obtain ⟨run, hrun, rfl⟩ := Option.map_eq_some_iff.mp hstep
  rw [TrustRun.next] at hrun
  split at hrun
  · rename_i trustCall seen next step hwriting
    split at hrun
    · rename_i hfails
      obtain rfl := Option.some.inj hrun
      have hwritten : s.written call fails = [] := by
        rw [System.written, hwriting]
        split
        · rw [if_pos hfails]
        · rfl
      rw [hwritten, List.append_nil]
      exact h.trustWrite hwriting (Or.inl ⟨.io, rfl⟩)
    · rename_i hfails
      split at hrun
      · rename_i hrename
        subst hrename
        obtain rfl := Option.some.inj hrun
        rw [Calm, hwriting, Bool.or_eq_true, or_iff_right hfails, Bool.and_eq_true,
          decide_eq_true_iff] at hcalm
        rw [System.written, hwriting]
        simp only [if_neg hfails]
        exact h.trustRename hwriting hcalm.1 hcalm.2
      · rename_i hrename
        obtain rfl := Option.some.inj hrun
        have hwritten : s.written call fails = [] := by
          rw [System.written, hwriting]
          split
          · rename_i heq
            exact absurd (TrustStoreRuns.CallPhase.writing.inj heq).2.2.2 hrename
          · rfl
        rw [hwritten, List.append_nil]
        exact h.trustWrite hwriting (Or.inr ⟨hrename, rfl⟩)
  · cases hrun

theorem Joint.untrustClosed (h : Joint settings s) {call closer inner : CallId} {id : TrustId}
    {listed : Entries} {bound : List WorkspaceId} {workspace : WorkspaceId}
    (hphase : s.untrusts call = .closing id listed closer bound)
    (hclosed : s.manager.calls closer = .closed workspace)
    (hnext : s.untrustNext call id listed inner bound = some t) : Joint settings t := by
  have hsound := h.sound call
  rw [hphase] at hsound
  obtain ⟨hlisted, hconfined⟩ := hsound
  refine h.untrustNext (h.begunBy hphase nofun) (not_awaitsRemoval hphase nofun) hlisted
    ⟨?_, hconfined.claims⟩ hnext
  intro other state hstate hid
  obtain hmem | hcloser := hconfined.carries other state hstate hid
  · exact hmem
  · exact absurd hcloser (not_closer hclosed nofun nofun)

/-- The step lemma. -/
theorem joint_next (s : System P) (event : Event P) (t : System P) (h : Joint settings s)
    (hcalm : Calm s event = true) (hnext : s.next settings event = some t) : Joint settings t := by
  cases event with
  | openWorkspace call id rootPath =>
    rw [System.next] at hnext
    split at hnext
    · rename_i hidle
      obtain rfl := Option.some.inj hnext
      exact h.beginCall (isIdle_iff.mp hidle) (h.attended.openWorkspace id rootPath)
        (proceeds_openWorkspace (isIdle_iff.mp hidle) id rootPath)
    · cases hnext
  | closeWorkspace call id =>
    rw [System.next] at hnext
    split at hnext
    · rename_i hidle
      obtain rfl := Option.some.inj hnext
      exact h.beginCall (isIdle_iff.mp hidle) (h.attended.closeWorkspace id)
        (proceeds_closeWorkspace (isIdle_iff.mp hidle) id)
    · cases hnext
  | answer call answer =>
    rw [System.next] at hnext
    split at hnext
    · cases hnext
    · rename_i htrusting
      obtain ⟨manager, hanswered, rfl⟩ := Option.map_eq_some_iff.mp hnext
      have hprogress := answered_progress hanswered
      have hunread : s.reads call = none := by
        by_contra hsome
        exact htrusting (h.reads call hsome)
      have hproceeds : Proceeds s.manager call (Claims s call) manager := by
        refine proceeds_answered h.attended hprogress ?_
        intro _ _ _ _ _ hcall
        rw [hcall] at htrusting
        exact absurd rfl htrusting
      have hjoint := h.proceed (h.attended.progress hprogress) hproceeds
      rwa [Function.update_eq_self_iff.mpr hunread.symm] at hjoint
  | requireTrusted call fails =>
    rw [System.next] at hnext
    split at hnext
    · rename_i htrusting
      rw [Bool.and_eq_true] at htrusting
      obtain rfl := Option.some.inj hnext
      refine h.read htrusting.1 ?_
      intro entry hfound
      rw [Calm, hfound] at hcalm
      exact not_untrusting_of_begun h hcalm
    · cases hnext
  | trusted call =>
    rw [System.next] at hnext
    split at hnext
    · rename_i workspace root identity read hcall hread
      obtain ⟨manager, hanswered, rfl⟩ := Option.map_eq_some_iff.mp hnext
      have hprogress := answered_progress hanswered
      refine h.proceed (h.attended.progress hprogress) (proceeds_answered h.attended hprogress ?_)
      intro workspace' root' identity' trustId ceiling hcall' hanswer
      obtain ⟨-, hstep⟩ := CallPhase.opening.inj (hcall.symm.trans hcall')
      obtain ⟨rfl, rfl⟩ := OpenStep.trusting.inj hstep
      cases read with
      | error error => cases hanswer
      | ok entries =>
        rw [WorkspaceUntrusting.requireTrusted] at hanswer
        split at hanswer
        · rename_i entry hentry
          obtain ⟨rfl, -⟩ := Answer.trusted.inj hanswer
          exact ⟨workspace, identity, entries, entry, hcall, hread, hentry, rfl⟩
        · cases hanswer
    · cases hnext
  | trustWorkspace call input freshId now =>
    obtain ⟨run, hrun, rfl⟩ := Option.map_eq_some_iff.mp hnext
    rw [TrustRun.next] at hrun
    split at hrun
    · rename_i hidle
      obtain rfl := Option.some.inj hrun
      exact h.trustWorkspace input freshId now hidle
    · cases hrun
  | trustRead call fails =>
    obtain ⟨run, hrun, rfl⟩ := Option.map_eq_some_iff.mp hnext
    rw [TrustRun.next] at hrun
    split at hrun
    · rename_i trustCall hreading
      obtain rfl := Option.some.inj hrun
      exact h.trustRead fails hreading
    · cases hrun
  | trustWrite call fails =>
    obtain ⟨after, hstep, rfl⟩ := Option.map_eq_some_iff.mp hnext
    exact h.write hcalm hstep
  | untrustWorkspace call id =>
    rw [System.next] at hnext
    split at hnext
    · rename_i hidle
      obtain rfl := Option.some.inj hnext
      refine h.untrustWorkspace hidle ?_
      intro hid
      split
      · trivial
      · exact hid
    · cases hnext
  | listTrusted call fails =>
    rw [System.next] at hnext
    split at hnext
    · rename_i id hphase
      obtain rfl := Option.some.inj hnext
      have hid := h.sound call
      rw [hphase] at hid
      exact h.settle hphase rfl (h.readDocument hid fails)
    · cases hnext
  | untrustListed call =>
    rw [System.next] at hnext
    split at hnext
    · rename_i id error hphase
      obtain rfl := Option.some.inj hnext
      exact h.settle hphase rfl trivial
    · rename_i id listed hphase
      have hlisted := h.sound call
      rw [hphase] at hlisted
      dsimp only at hnext
      split at hnext
      · rename_i hready
        obtain rfl := Option.some.inj hnext
        exact h.settle hphase rfl ⟨hlisted.1, h.confined hlisted hready⟩
      · obtain rfl := Option.some.inj hnext
        exact h.settle hphase rfl trivial
    · cases hnext
  | untrustAudited call acknowledged inner =>
    rw [System.next] at hnext
    split at hnext
    · rename_i id listed bound hphase
      have hsound := h.sound call
      rw [hphase] at hsound
      split at hnext
      · exact h.untrustNext (h.begunBy hphase (by simp)) (not_awaitsRemoval hphase (by simp))
          hsound.1 hsound.2 hnext
      · obtain rfl := Option.some.inj hnext
        exact h.settle hphase rfl trivial
    · cases hnext
  | untrustClosed call inner =>
    rw [System.next] at hnext
    split at hnext
    · rename_i id listed closer bound hphase
      split at hnext
      · rename_i workspace hclosed
        exact h.untrustClosed hphase hclosed hnext
      · obtain rfl := Option.some.inj hnext
        exact h.settle hphase rfl trivial
      · cases hnext
    · cases hnext
  | untrustPurged call inner =>
    rw [System.next] at hnext
    split at hnext
    · rename_i id listed purge hphase
      split at hnext
      · rename_i purgeCall checkpoint hpurge
        obtain ⟨after, hstep, rfl⟩ := Option.map_eq_some_iff.mp hnext
        exact h.untrustPurged hphase hpurge hstep
      · obtain rfl := Option.some.inj hnext
        exact h.settle hphase rfl trivial
      · cases hnext
    · cases hnext
  | untrustRemoved call =>
    rw [System.next] at hnext
    split at hnext
    · rename_i id listed removal hphase
      have hbegun := h.begunBy hphase (by simp)
      have hfree : ∀ trustCall result, s.trust.calls removal = .returned trustCall result →
          ¬ awaitsRemoval s (s.untrusts call) := by
        rintro trustCall result hreturned ⟨id', listed', inner, hawaits, hflight⟩
        rw [hphase] at hawaits
        obtain ⟨-, -, rfl⟩ := UntrustPhase.removing.inj hawaits
        rw [hreturned] at hflight
        cases hflight
      split at hnext
      · rename_i trustCall _ hremoval
        obtain rfl := Option.some.inj hnext
        exact h.setUntrust hbegun (hfree trustCall _ hremoval)
          (h.untrustRemoved hphase hremoval)
      · rename_i trustCall error hremoval
        obtain rfl := Option.some.inj hnext
        exact h.setUntrust hbegun (hfree trustCall _ hremoval) trivial
      · cases hnext
    · cases hnext
  | untrustReported call acknowledged =>
    rw [System.next] at hnext
    split at hnext
    · rename_i id listed hphase
      obtain rfl := Option.some.inj hnext
      have hsound := h.sound call
      rw [hphase] at hsound
      refine h.settle hphase rfl ?_
      split
      · exact hsound
      · trivial
    · rename_i hphase
      obtain rfl := Option.some.inj hnext
      exact h.settle hphase rfl trivial
    · cases hnext
  | checkpointWorkspace call id mutation =>
    rw [System.next] at hnext
    split at hnext
    · obtain rfl := Option.some.inj hnext
      exact h.setMutation _
    · obtain rfl := Option.some.inj hnext
      exact h.setMutation _
    · cases hnext
  | checkpointAudited call acknowledged inner =>
    rw [System.next] at hnext
    split at hnext
    · rename_i trustId mutation hphase
      split at hnext
      · rename_i hacknowledged
        obtain rfl := hacknowledged
        obtain ⟨after, hstep, rfl⟩ := Option.map_eq_some_iff.mp hnext
        exact (h.checkpointAudited hphase hcalm hstep).setMutation _
      · obtain rfl := Option.some.inj hnext
        exact h.setMutation _
    · cases hnext
  | checkpointStored call =>
    rw [System.next] at hnext
    split at hnext
    · split at hnext
      · obtain rfl := Option.some.inj hnext
        exact h.setMutation _
      · obtain rfl := Option.some.inj hnext
        exact h.setMutation _
      · cases hnext
    · cases hnext
  | checkpointReported call acknowledged =>
    rw [System.next] at hnext
    split at hnext
    · obtain rfl := Option.some.inj hnext
      exact h.setMutation _
    · obtain rfl := Option.some.inj hnext
      exact h.setMutation _
    · cases hnext
  | store id event =>
    cases event with
    | start call request observed => cases hnext
    | _ =>
      refine h.storeOn ?_ hnext
      rintro _ _ _ ⟨⟩

/-- The run lemma. -/
theorem joint_of_calm {file : TrustFile} {checkpoints : TrustId → StoredFile}
    {events : List (Event P)} (hdistinct : Distinct (entriesIn file))
    (hcalm : AllSteps (System.next settings) (fun s event => Calm s event = true)
      (System.started file checkpoints) events)
    (hrun : exec (System.next settings) (System.started file checkpoints) events = some s) :
    Joint settings s :=
  exec_invariant joint_next (joint_started checkpoints hdistinct) hcalm hrun

end Steps

/-- No workspace of the entry is READY, a READY one with its root has got a newer
entry, and the checkpoints are gone. -/
structure Revoked (s : System P) (id : TrustId) (listed : Entries) : Prop where
  carries : ∀ workspace state, s.manager.workspaces workspace = some state →
    state.phase = .ready → state.trustId ≠ some id
  renewed : ∀ workspace state root, s.manager.workspaces workspace = some state →
    state.phase = .ready → state.canonicalRoot = some root → Names listed id root →
      ∃ id', state.trustId = some id' ∧ Names (document s) id' root ∧
        ∀ root', ¬ Names listed id' root'
  missing : isMissing (s.checkpoints id).file = true

section Results

variable {settings : Settings P} {s : System P} {call : CallId} {id : TrustId} {listed : Entries}

theorem Joint.revoked (h : Joint settings s) (hphase : s.untrusts call = .untrusted id listed) :
    Revoked s id listed := by
  have hsound := h.sound call
  rw [hphase] at hsound
  obtain ⟨hlisted, hemptied, hgone⟩ := hsound
  have hcarries : ∀ workspace state, s.manager.workspaces workspace = some state →
      state.trustId ≠ some id := by
    intro workspace state hstate hid
    obtain ⟨root, -, hnames⟩ := h.carried workspace state id hstate hid
    exact hgone root hnames
  constructor
  case carries => exact fun workspace state hstate _ => hcarries workspace state hstate
  case renewed =>
    intro workspace state root hstate hready hroot hnames
    have hopen : state.phase ≠ .opening := by
      rw [hready]
      exact nofun
    obtain ⟨id', hid'⟩ := Option.ne_none_iff_exists'.mp
      (h.attended.bound workspace state hstate hopen)
    obtain ⟨root', hroot', hentry⟩ := h.carried workspace state id' hstate hid'
    obtain rfl := Option.some.inj (hroot'.symm.trans hroot)
    refine ⟨id', hid', hentry, ?_⟩
    intro root hfound
    obtain rfl := hlisted.agree id' root root' hfound hentry
    obtain rfl := (distinct_iff.mp hlisted.distinct id' root id root hfound hnames).mpr rfl
    exact hcarries workspace state hstate hid'
  case missing => exact hemptied.missing

/-- In a calm run, what has been untrusted stays so, in every state after it. -/
theorem untrusted_revoked (settings : Settings P) (file : TrustFile)
    (checkpoints : TrustId → StoredFile) (events : List (Event P)) (s : System P)
    (hrun : exec (System.next settings) (System.started file checkpoints) events = some s)
    (hdistinct : Distinct (entriesIn file))
    (hcalm : AllSteps (System.next settings) (fun s event => Calm s event = true)
      (System.started file checkpoints) events) :
    ∀ call id listed, s.untrusts call = .untrusted id listed → Revoked s id listed :=
  fun _ _ _ hphase => (joint_of_calm hdistinct hcalm hrun).revoked hphase

end Results

def someIdentity : PersistentFilesystemIdentity := ⟨8, 1, utf8 "42"⟩

def someFile : TrustFile :=
  .value (documentJson
    [⟨utf8 "trust_0", utf8 "/a", someIdentity, .develop, utf8 "2026-09-01T00:00:00.000Z"⟩])

def someSettings : Settings Unit where
  locale := TrustStoreRuns.byBytes
  getProfilePreset := fun _ => ()
  resolveProfile := fun _ _ => some ()

def startOpen : List (Event Unit) := [.openWorkspace 0 "workspace" (some (utf8 "/a"))]

def bindOpen : List (Event Unit) :=
  [.answer 0 (.root (utf8 "/a") someIdentity), .requireTrusted 0 false, .trusted 0]

def endOpen : List (Event Unit) :=
  [.answer 0 (.capability "capability"), .answer 0 (.profile none), .answer 0 .acknowledged,
    .answer 0 .acknowledged]

def startUntrust : List (Event Unit) :=
  [.untrustWorkspace 0 (utf8 "trust_0"), .listTrusted 0 false, .untrustListed 0]

def closeBound : List (Event Unit) :=
  [.untrustAudited 0 true 1, .answer 1 .acknowledged, .answer 1 .acknowledged,
    .answer 1 .acknowledged, .untrustClosed 0 0]

def endUntrust : List (Event Unit) :=
  [.store (utf8 "trust_0") (.enter 0)] ++
    List.replicate 3 (.store (utf8 "trust_0") (.remove 0 .done)) ++
    [.untrustPurged 0 0, .trustRead 0 false] ++ List.replicate 11 (.trustWrite 0 false) ++
    [.untrustRemoved 0, .untrustReported 0 true]

instance (entries : Entries) : Decidable (Distinct entries) :=
  inferInstanceAs (Decidable (∀ entry ∈ entries, ∀ other ∈ entries,
    entry.id = other.id ↔ entry.canonicalRoot = other.canonicalRoot))

def untrustedBy (phase : UntrustPhase) (id : TrustId) : Bool :=
  match phase with
  | .untrusted id' _ => id' = id
  | _ => false

theorem untrustedBy_iff {phase : UntrustPhase} {id : TrustId} (h : untrustedBy phase id = true) :
    ∃ listed, phase = .untrusted id listed := by
  cases phase with
  | untrusted id' listed =>
    obtain rfl := of_decide_eq_true h
    exact ⟨listed, rfl⟩
  | _ => cases h

/-- A workspace is opened, and the entry of it untrusted. -/
theorem untrusted_revoked_opened :
    ∃ s, exec (System.next someSettings) (System.started someFile fun _ => .missing)
        (startOpen ++ bindOpen ++ endOpen ++ startUntrust ++ closeBound ++ endUntrust) = some s ∧
      ∃ listed, s.untrusts 0 = .untrusted (utf8 "trust_0") listed ∧
        Revoked s (utf8 "trust_0") listed := by
  have hsome : (exec (System.next someSettings) (System.started someFile fun _ => .missing)
      (startOpen ++ bindOpen ++ endOpen ++ startUntrust ++ closeBound ++ endUntrust)).any
        (fun s => untrustedBy (s.untrusts 0) (utf8 "trust_0")) = true := by
    decide +kernel
  have hcalm : AllSteps (System.next someSettings) (fun s event => Calm s event = true)
      (System.started someFile fun _ => .missing)
      (startOpen ++ bindOpen ++ endOpen ++ startUntrust ++ closeBound ++ endUntrust) := by
    decide +kernel
  obtain ⟨s, hrun, huntrusted⟩ := (Option.any_eq_true _ _).mp hsome
  obtain ⟨listed, hphase⟩ := untrustedBy_iff huntrusted
  exact ⟨s, hrun, listed, hphase, untrusted_revoked someSettings someFile _ _ s hrun
    (by decide +kernel) hcalm 0 _ listed hphase⟩

def readyUnder (s : System Unit) (workspace : WorkspaceId) (id : TrustId) : Bool :=
  (s.manager.workspaces workspace).any fun state =>
    state.phase == .ready && state.trustId == some id

/-- An open that waits for the root when the workspaces are looked at is not
among those that are found bound, and becomes READY after the call. -/
theorem untrusted_not_revoked :
    ∃ s, exec (System.next someSettings) (System.started someFile fun _ => .missing)
        (startOpen ++ startUntrust ++ bindOpen ++ [.untrustAudited 0 true 0] ++ endUntrust ++
          endOpen) = some s ∧
      ∃ listed, s.untrusts 0 = .untrusted (utf8 "trust_0") listed ∧
        ¬ Revoked s (utf8 "trust_0") listed := by
  have hsome : (exec (System.next someSettings) (System.started someFile fun _ => .missing)
      (startOpen ++ startUntrust ++ bindOpen ++ [.untrustAudited 0 true 0] ++ endUntrust ++
        endOpen)).any (fun s => untrustedBy (s.untrusts 0) (utf8 "trust_0") &&
          readyUnder s "workspace" (utf8 "trust_0")) = true := by
    decide +kernel
  obtain ⟨s, hrun, hends⟩ := (Option.any_eq_true _ _).mp hsome
  rw [Bool.and_eq_true] at hends
  obtain ⟨listed, hphase⟩ := untrustedBy_iff hends.1
  refine ⟨s, hrun, listed, hphase, ?_⟩
  intro hrevoked
  obtain ⟨state, hstate, hready⟩ := (Option.any_eq_true _ _).mp hends.2
  rw [Bool.and_eq_true, beq_iff_eq, beq_iff_eq] at hready
  exact hrevoked.carries "workspace" state hstate hready.1 hready.2

end KodeGpt.UntrustedWorkspaces
