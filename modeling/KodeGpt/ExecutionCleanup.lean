import KodeGpt.GitExecutions

/-!
What the functions that run git leave behind: a child that nobody kills, if the first
write to the artifact of a patch fails, and an execution whose removal is refused.
-/

namespace KodeGpt.ExecutionCleanup

open JsonText FallibleActions GitCommands GitExecutions

/-- All children spawned in between are killed or waited for, and all executions added in
between are removed. -/
def Clean (before after : Host) : Prop :=
  (∀ child ∈ after.children.drop before.children.length, child.Settled) ∧
    ∀ execution ∈ after.executions, execution ∈ before.executions

/-- What has been added; nothing else has changed. -/
structure Adds (before : Host) (children : List Child) (executions : List Nat) (after : Host) :
    Prop where
  children_eq : after.children = before.children ++ children
  executions_eq : after.executions = executions ++ before.executions
  fresh : ∀ execution ∈ executions, before.nextExecution ≤ execution
  grows : before.nextExecution ≤ after.nextExecution

def Remains (children : List Child) (executions : List Nat) : Prop :=
  (∃ child ∈ children, ¬child.Settled) ∨ executions ≠ []

/-- Something is left if and only if the condition holds. -/
def Leaves (before : Host) (condition : Prop) (after : Host) : Prop :=
  ∃ children executions, Adds before children executions after ∧
    (condition ↔ Remains children executions)

theorem Adds.clean_iff {before after : Host} {children : List Child} {executions : List Nat}
    (h : Adds before children executions after) :
    Clean before after ↔ ¬Remains children executions := by
  have hchildren : after.children.drop before.children.length = children := by
    rw [h.children_eq, List.drop_left]
  have hexecutions : (∀ execution ∈ after.executions, execution ∈ before.executions) ↔
      executions = [] := by
    constructor
    · intro hall
      refine List.eq_nil_iff_forall_not_mem.mpr ?_
      intro execution hexecution
      have hold := hall execution (h.executions_eq ▸ List.mem_append_left _ hexecution)
      exact Nat.not_lt.mpr (h.fresh execution hexecution) (before.fresh execution hold)
    · intro hnone execution hexecution
      rw [h.executions_eq, hnone] at hexecution
      exact hexecution
  rw [Clean, hchildren, hexecutions, Remains, not_or, not_exists, not_not]
  simp only [not_and, not_not]

theorem Leaves.clean_iff {before after : Host} {condition : Prop}
    (h : Leaves before condition after) : Clean before after ↔ ¬condition := by
  obtain ⟨children, executions, hadds, hiff⟩ := h
  rw [hadds.clean_iff, hiff]

theorem Leaves.refl (host : Host) : Leaves host False host := by
  refine ⟨[], [], ⟨(List.append_nil _).symm, rfl, ?_, Nat.le_refl _⟩, ?_⟩
  · intro execution hexecution
    exact absurd hexecution List.not_mem_nil
  · simp [Remains]

theorem Leaves.trans {before middle after : Host} {first second : Prop}
    (h : Leaves before first middle) (hnext : Leaves middle second after) :
    Leaves before (first ∨ second) after := by
  obtain ⟨children, executions, hadds, hiff⟩ := h
  obtain ⟨children', executions', hadds', hiff'⟩ := hnext
  refine ⟨children ++ children', executions' ++ executions, ⟨?_, ?_, ?_, ?_⟩, ?_⟩
  · rw [hadds'.children_eq, hadds.children_eq, List.append_assoc]
  · rw [hadds'.executions_eq, hadds.executions_eq, List.append_assoc]
  · intro execution hexecution
    obtain hexecution | hexecution := List.mem_append.mp hexecution
    · exact Nat.le_trans hadds.grows (hadds'.fresh execution hexecution)
    · exact hadds.fresh execution hexecution
  · exact Nat.le_trans hadds.grows hadds'.grows
  · have hchildren : (∃ child ∈ children ++ children', ¬child.Settled) ↔
        (∃ child ∈ children, ¬child.Settled) ∨ ∃ child ∈ children', ¬child.Settled := by
      simp only [List.mem_append, or_and_right, exists_or]
    have hexecutions : executions' ++ executions ≠ [] ↔ executions ≠ [] ∨ executions' ≠ [] := by
      rw [ne_eq, List.append_eq_nil_iff, not_and_or, or_comm]
    rw [hiff, hiff', Remains, Remains, Remains, hchildren, hexecutions, or_or_or_comm]

theorem Leaves.iff {before after : Host} {condition condition' : Prop}
    (h : Leaves before condition after) (hiff : condition' ↔ condition) :
    Leaves before condition' after := by
  rwa [propext hiff]

theorem Leaves.bind {α β : Type} {before : Host} {action : Action α} {next : α → Action β}
    {first : Prop} {later : α → Host → Prop}
    (h : Triple (fun host => host = before) action (fun _ host => Leaves before first host)
      (fun _ host => Leaves before first host))
    (hnext : ∀ value middle, Leaves middle (later value middle) (finalState (next value middle))) :
    Leaves before (first ∨ ∃ value middle, action before = .ok value middle ∧ later value middle)
      (finalState ((action >>= next) before)) := by
  have hend := h before rfl
  show Leaves before _ (finalState (EStateM.bind action next before))
  rw [EStateM.bind]
  cases hrun : action before with
  | ok value middle =>
    rw [hrun] at hend
    refine (hend.trans (hnext value middle)).iff (or_congr_right ⟨?_, ?_⟩)
    · rintro ⟨value', middle', heq, hlater⟩
      obtain ⟨rfl, rfl⟩ := EStateM.Result.ok.inj heq
      exact hlater
    · intro hlater
      exact ⟨value, middle, rfl, hlater⟩
  | error error middle =>
    rw [hrun] at hend
    refine hend.iff (or_iff_left ?_)
    rintro ⟨value, middle', heq, _⟩
    cases heq

structure Spawned (before : Host) (id : Nat) (child : Child) (after : Host) : Prop where
  id_eq : id = before.children.length
  children_eq : after.children = before.children ++ [child]
  executions_eq : after.executions = before.executions
  next_eq : after.nextExecution = before.nextExecution

structure Running (before : Host) (id execution : Nat) (child : Child) (after : Host) :
    Prop where
  id_eq : id = before.children.length
  execution_eq : execution = before.nextExecution
  children_eq : after.children = before.children ++ [child]
  executions_eq : after.executions = execution :: before.executions
  next_eq : after.nextExecution = before.nextExecution + 1

def running : Child := ⟨false, false⟩

theorem modify_last (children : List Child) (child : Child) (change : Child → Child) :
    (children ++ [child]).modify children.length change = children ++ [change child] := by
  induction children with
  | nil => rfl
  | cons first rest ih => exact congrArg (first :: ·) ih

theorem Running.mapChild {before after : Host} {id execution : Nat} {child : Child}
    (h : Running before id execution child after) (change : Child → Child) :
    Running before id execution (change child) (after.mapChild id change) where
  id_eq := h.id_eq
  execution_eq := h.execution_eq
  children_eq := by
    show after.children.modify id change = _
    rw [h.children_eq, h.id_eq, modify_last]
  executions_eq := h.executions_eq
  next_eq := h.next_eq

theorem Spawned.killed {before after : Host} {id : Nat} {child : Child}
    (h : Spawned before id child after) :
    Leaves before False
      (after.mapChild id fun found => { found with killed := true }) := by
  refine ⟨[{ child with killed := true }], [], ⟨?_, ?_, ?_, ?_⟩, ?_⟩
  · show after.children.modify id _ = _
    rw [h.children_eq, h.id_eq, modify_last]
  · exact h.executions_eq
  · intro execution hexecution
    exact absurd hexecution List.not_mem_nil
  · exact h.next_eq.ge
  · simp [Remains, Child.Settled]

theorem Running.leaves {before after : Host} {id execution : Nat} {child : Child}
    (h : Running before id execution child after) :
    Leaves before True after := by
  refine ⟨[child], [execution], ⟨h.children_eq, h.executions_eq, ?_, ?_⟩, ?_⟩
  · intro other hother
    rw [List.mem_singleton.mp hother, h.execution_eq]
  · rw [h.next_eq]
    exact Nat.le_succ _
  · exact iff_of_true trivial (Or.inr (List.cons_ne_nil _ _))

theorem Running.remove {before after : Host} {id execution : Nat} {child : Child}
    (h : Running before id execution child after) :
    Leaves before (¬child.Settled) (after.remove execution) := by
  refine ⟨[child], [], ⟨h.children_eq, ?_, ?_, ?_⟩, ?_⟩
  · show after.executions.filter (· ≠ execution) = before.executions
    rw [h.executions_eq, List.filter_cons_of_neg (by simp)]
    refine List.filter_eq_self.mpr ?_
    intro other hother
    have hold := before.fresh other hother
    rw [h.execution_eq]
    exact decide_eq_true hold.ne
  · intro other hother
    exact absurd hother List.not_mem_nil
  · show before.nextExecution ≤ after.nextExecution
    rw [h.next_eq]
    exact Nat.le_succ _
  · simp [Remains]

theorem terminateChild_spec (before : Host) (id execution : Nat)
    {err : GitInspectionError → Host → Prop} :
    Triple (fun host => ∃ child, Running before id execution child host) (terminateChild id)
      (fun _ host => ∃ child, child.Settled ∧ Running before id execution child host) err := by
  refine Triple.modify ?_
  rintro host ⟨child, hrunning⟩
  exact ⟨_, Or.inl rfl, hrunning.mapChild _⟩

theorem spawn_spec (before : Host) (how : Spawn) :
    Triple (fun host => host = before) (spawn how)
      (fun id host => how = .published ∧ Spawned before id running host)
      (fun _ host => how ≠ .published ∧ Leaves before False host) := by
  have hspawned (seen : Host) (hseen : seen = before) :
      Spawned before seen.children.length running seen.spawn := by
    subst hseen
    exact ⟨rfl, rfl, rfl, rfl⟩
  cases how with
  | refused =>
    refine Triple.throw ?_
    rintro host rfl
    exact ⟨Spawn.noConfusion, Leaves.refl host⟩
  | unpublished =>
    refine Triple.bindGet ?_
    intro seen
    refine Triple.bind (fun _ host => Spawned before seen.children.length running host)
      (Triple.modify ?_) ?_
    · rintro host ⟨rfl, hseen⟩
      exact hspawned host hseen
    · intro _
      refine Triple.bind (fun _ host => Leaves before False host) (Triple.modify ?_) ?_
      · intro host hhost
        exact hhost.killed
      · intro _
        exact Triple.throw fun host hhost => ⟨Spawn.noConfusion, hhost⟩
  | published =>
    refine Triple.bindGet ?_
    intro seen
    refine Triple.bind (fun _ host => Spawned before seen.children.length running host)
      (Triple.modify ?_) ?_
    · rintro host ⟨rfl, hseen⟩
      exact hspawned host hseen
    · intro _
      exact Triple.pure fun host hhost => ⟨rfl, hhost⟩

theorem registerGitExecution_spec (before : Host) (lockPoisoned : Bool) (id : Nat) :
    Triple (fun host => Spawned before id running host) (registerGitExecution lockPoisoned id)
      (fun execution host => lockPoisoned = false ∧ Running before id execution running host)
      (fun _ host => lockPoisoned = true ∧ Leaves before False host) := by
  refine Triple.ite ?_ ?_
  · intro hpoisoned
    refine Triple.bind (fun _ host => Leaves before False host) (Triple.modify ?_) ?_
    · intro host hhost
      exact hhost.killed
    · intro _
      exact Triple.throw fun host hhost => ⟨hpoisoned, hhost⟩
  · intro hfree
    refine Triple.bindGet ?_
    intro seen
    refine Triple.bind (fun _ host => Running before id seen.nextExecution running host)
      (Triple.modify ?_) ?_
    · rintro host ⟨rfl, hhost⟩
      exact ⟨hhost.id_eq, hhost.next_eq, hhost.children_eq,
        congrArg (host.nextExecution :: ·) hhost.executions_eq, congrArg (· + 1) hhost.next_eq⟩
    · intro _
      exact Triple.pure fun host hhost => ⟨by simpa using hfree, hhost⟩

theorem removeExecution_spec (before : Host) (lockPoisoned : Bool) (id execution : Nat)
    {err : GitInspectionError → Host → Prop} :
    Triple (fun host => ∃ child, child.Settled ∧ Running before id execution child host)
      (removeExecution lockPoisoned execution)
      (fun _ host => Leaves before (lockPoisoned = true) host) err := by
  refine Triple.onlyIf ?_ ?_
  · intro hfree
    refine Triple.modify ?_
    rintro host ⟨child, hsettled, hrunning⟩
    exact hrunning.remove.iff (iff_of_false (by simp [hfree]) (not_not_intro hsettled))
  · rintro hpoisoned host ⟨child, _, hrunning⟩
    exact hrunning.leaves.iff (iff_of_true (by simpa using hpoisoned) trivial)

/-- A child whose capture has ended is settled, unless the capture has failed and leaves
it to the caller. -/
theorem captureChildWithBudget_spec (before : Host) (capture : Capture)
    (budget : GitCommandBudget) (id execution : Nat) :
    Triple (fun host => Running before id execution running host)
      (captureChildWithBudget capture budget id)
      (fun _ host => ∃ child, child.Settled ∧ Running before id execution child host)
      (fun error host => ∃ child, Running before id execution child host ∧
        (error = .timeout ∨ error = .outputLimitExceeded → child.Settled)) := by
  refine Triple.ite ?_ ?_
  · intro _
    refine Triple.throw ?_
    intro host hhost
    exact ⟨running, hhost, by rintro (h | h) <;> cases h⟩
  · intro _
    cases captureLoop budget capture.messages Progress.start with
    | aborted result =>
      refine Triple.bind
        (fun _ host => ∃ child, child.Settled ∧ Running before id execution child host)
        ((terminateChild_spec before id execution).weaken fun host hhost => ⟨running, hhost⟩) ?_
      · intro _
        refine Triple.ofExcept ?_ ?_
        · intro value host _ hhost
          exact hhost
        · rintro e host _ ⟨child, hsettled, hrunning⟩
          exact ⟨child, hrunning, fun _ => hsettled⟩
    | writeFailed =>
      refine Triple.throw ?_
      intro host hhost
      exact ⟨running, hhost, by rintro (h | h) <;> cases h⟩
    | drained progress =>
      refine Triple.ite ?_ ?_
      · intro _
        refine Triple.throw ?_
        intro host hhost
        exact ⟨running, hhost, by rintro (h | h) <;> cases h⟩
      · intro _
        refine Triple.bind
          (fun _ host => ∃ child, child.Settled ∧ Running before id execution child host)
          (Triple.attempt ?_ ?_) ?_
        · intro _ host hhost
          exact ⟨_, Or.inr rfl, hhost.mapChild _⟩
        · intro _ host hhost
          exact ⟨running, hhost, by rintro (h | h) <;> cases h⟩
        · intro _
          exact Triple.pure fun host hhost => hhost

/-- The execution is registered. -/
def Registered (run : CommandRun) : Prop :=
  run.spawn = .published ∧ run.registrationFails = false

/-- The execution is registered and stays so. -/
def LeavesExecution (run : CommandRun) : Prop :=
  Registered run ∧ run.removalFails = true

theorem spawnRegistered_spec {α : Type} {before : Host} {run : CommandRun}
    {next : Nat → Nat → Action α} {condition : Prop}
    (hcondition : condition → Registered run)
    (hnext : Registered run → ∀ id execution,
      Triple (fun host => Running before id execution running host) (next id execution)
        (fun _ host => Leaves before condition host)
        (fun _ host => Leaves before condition host)) :
    Triple (fun host => host = before)
      (do
        let child ← spawn run.spawn
        let execution ← registerGitExecution run.registrationFails child
        next child execution)
      (fun _ host => Leaves before condition host)
      (fun _ host => Leaves before condition host) := by
  refine Triple.bind (fun id host => run.spawn = .published ∧ Spawned before id running host)
    ((spawn_spec before run.spawn).conseq (fun _ hhost => hhost) (fun _ _ hhost => hhost) ?_) ?_
  · rintro _ host ⟨hrefused, hhost⟩
    exact hhost.iff (iff_false_intro fun h => hrefused (hcondition h).1)
  · intro id s ⟨hpublished, hs⟩
    refine Triple.bind
      (fun execution host => Registered run ∧ Running before id execution running host)
      ((registerGitExecution_spec before run.registrationFails id).conseq
        (fun _ hhost => hhost) ?_ ?_) ?_ s hs
    · rintro execution host ⟨hfree, hhost⟩
      exact ⟨⟨hpublished, hfree⟩, hhost⟩
    · rintro _ host ⟨hpoisoned, hhost⟩
      refine hhost.iff (iff_false_intro ?_)
      intro h
      rw [(hcondition h).2] at hpoisoned
      exact Bool.noConfusion hpoisoned
    · rintro execution s ⟨hregistered, hs⟩
      exact hnext hregistered id execution s hs

/-- The last steps of a function that fails: the child has been settled. -/
theorem removeAndThrow_spec {α : Type} {before : Host} {run : CommandRun}
    (hregistered : Registered run) (id execution : Nat) (error : GitInspectionError)
    {post : α → Host → Prop} :
    Triple (fun host => ∃ child, child.Settled ∧ Running before id execution child host)
      (do
        removeExecution run.removalFails execution
        throw error)
      post (fun _ host => Leaves before (LeavesExecution run) host) := by
  refine Triple.bind _ (removeExecution_spec before run.removalFails id execution) ?_
  intro _
  refine Triple.throw ?_
  intro host hhost
  exact hhost.iff (and_iff_right hregistered)

/-- Whatever fails, no child is left, and no execution unless its removal is refused. -/
theorem runGitCommandWithBudget_spec (before : Host) (run : CommandRun)
    (budget : GitCommandBudget) :
    Triple (fun host => host = before) (runGitCommandWithBudget run budget)
      (fun _ host => Leaves before (LeavesExecution run) host)
      (fun _ host => Leaves before (LeavesExecution run) host) := by
  refine spawnRegistered_spec And.left ?_
  intro hregistered id execution
  refine Triple.ite ?_ ?_
  · intro _
    refine Triple.bind _
      ((terminateChild_spec before id execution).weaken fun host hhost => ⟨running, hhost⟩) ?_
    intro _
    exact removeAndThrow_spec hregistered id execution _
  · intro _
    refine Triple.bind _
      (Triple.observe (captureChildWithBudget_spec before run.capture budget id execution)) ?_
    intro result
    cases result with
    | error error =>
      refine Triple.bind
        (fun _ host => ∃ child, child.Settled ∧ Running before id execution child host)
        (Triple.onlyIf ?_ ?_) ?_
      · intro _
        refine (terminateChild_spec before id execution).weaken ?_
        rintro host ⟨child, hrunning, _⟩
        exact ⟨child, hrunning⟩
      · rintro hsettled host ⟨child, hrunning, hchild⟩
        exact ⟨child, hchild (by tauto), hrunning⟩
      · intro _
        exact removeAndThrow_spec hregistered id execution error
    | ok captured =>
      refine Triple.bind (fun _ host => Leaves before (LeavesExecution run) host)
        ((removeExecution_spec before run.removalFails id execution).conseq
          (fun _ hhost => hhost) ?_ fun _ _ hhost => hhost) ?_
      · intro _ host hhost
        exact hhost.iff (and_iff_right hregistered)
      · intro _
        refine Triple.bind (fun _ host => Leaves before (LeavesExecution run) host)
          (Triple.attempt ?_ ?_) ?_
        · intro _ host hhost
          exact hhost
        · intro _ host hhost
          exact hhost
        · intro _
          exact Triple.pure fun host hhost => hhost

theorem discoverFilterOverrides_spec (before : Host) (probe : CommandRun) :
    Triple (fun host => host = before) (discoverFilterOverrides probe)
      (fun _ host => Leaves before (LeavesExecution probe) host)
      (fun _ host => Leaves before (LeavesExecution probe) host) := by
  refine Triple.bind _ (runGitCommandWithBudget_spec before probe _) ?_
  intro output
  split
  · exact Triple.throw fun host hhost => hhost
  · exact Triple.pure fun host hhost => hhost

/-- Some command of the script leaves its execution. -/
def ScriptLeaves : Script → Host → Prop
  | .stop, _ => False
  | .command run budget next, host =>
    LeavesExecution run ∨
      match runGitCommandWithBudget run budget host with
      | .ok output after => ScriptLeaves (next (.ok output)) after
      | .error error after => ScriptLeaves (next (.error error)) after

theorem script_leaves (script : Script) (host : Host) :
    Leaves host (ScriptLeaves script host) (finalState (script.run host)) := by
  induction script generalizing host with
  | stop => exact Leaves.refl host
  | command run budget next ih =>
    have hcommand := runGitCommandWithBudget_spec host run budget host rfl
    rw [Script.run, ScriptLeaves]
    show Leaves host _ (finalState (EStateM.bind _ _ host))
    rw [EStateM.bind, observing_apply]
    cases hrun : runGitCommandWithBudget run budget host with
    | ok output after =>
      rw [hrun] at hcommand
      exact hcommand.trans (ih _ after)
    | error error after =>
      rw [hrun] at hcommand
      exact hcommand.trans (ih _ after)

/-- The header of the staged diff cannot be written although the artifact exists. -/
def Abandons (run : CommandRun) (headerFails : Bool) : Prop :=
  Registered run ∧ run.creationFails = false ∧ headerFails = true

theorem captureDiff_spec {before : Host} {run : CommandRun} (hregistered : Registered run)
    (id execution : Nat) :
    Triple (fun host => Running before id execution running host) (captureDiff run id execution)
      (fun _ host => Leaves before (LeavesExecution run) host)
      (fun _ host => Leaves before (LeavesExecution run) host) := by
  refine Triple.bind _
    (Triple.observe (captureChildWithBudget_spec before run.capture _ id execution)) ?_
  intro result
  cases result with
  | error error =>
    refine Triple.bind _ ((terminateChild_spec before id execution).weaken ?_) ?_
    · rintro host ⟨child, hrunning, _⟩
      exact ⟨child, hrunning⟩
    · intro _
      exact removeAndThrow_spec hregistered id execution error
  | ok captured =>
    refine Triple.bind (fun _ host => Leaves before (LeavesExecution run) host)
      ((removeExecution_spec before run.removalFails id execution).conseq
        (fun _ hhost => hhost) ?_ fun _ _ hhost => hhost) ?_
    · intro _ host hhost
      exact hhost.iff (and_iff_right hregistered)
    · intro _
      refine Triple.ite ?_ ?_
      · intro _
        exact Triple.throw fun host hhost => hhost
      · intro _
        exact Triple.pure fun host hhost => hhost

theorem worktreeDiff_spec (before : Host) (run : CommandRun) :
    Triple (fun host => host = before) (worktreeDiff run)
      (fun _ host => Leaves before (LeavesExecution run) host)
      (fun _ host => Leaves before (LeavesExecution run) host) := by
  refine spawnRegistered_spec And.left ?_
  intro hregistered id execution
  exact captureDiff_spec hregistered id execution

theorem stagedDiff_spec (before : Host) (run : CommandRun) (headerFails : Bool) :
    Triple (fun host => host = before) (stagedDiff run headerFails)
      (fun _ host => Leaves before (LeavesExecution run ∨ Abandons run headerFails) host)
      (fun _ host => Leaves before (LeavesExecution run ∨ Abandons run headerFails) host) := by
  refine spawnRegistered_spec ?_ ?_
  · rintro (h | h) <;> exact h.1
  · intro hregistered id execution
    have hwritten (hkept : ¬Abandons run headerFails) (host : Host)
        (hhost : Leaves before (LeavesExecution run) host) :
        Leaves before (LeavesExecution run ∨ Abandons run headerFails) host :=
      hhost.iff (or_iff_left hkept)
    refine Triple.ite ?_ ?_
    · intro hcreation
      have hkept : ¬Abandons run headerFails := by
        rintro ⟨_, hcreated, _⟩
        rw [hcreation] at hcreated
        exact Bool.noConfusion hcreated
      refine Triple.bind _
        ((terminateChild_spec before id execution).weaken fun host hhost => ⟨running, hhost⟩) ?_
      intro _
      exact (removeAndThrow_spec hregistered id execution _).conseq (fun _ hhost => hhost)
        (fun _ _ hhost => hhost) fun _ => hwritten hkept
    · intro hcreation
      refine Triple.bind
        (fun _ host => headerFails = false ∧ Running before id execution running host)
        (Triple.attempt ?_ ?_) ?_
      · intro hheader host hhost
        exact ⟨hheader, hhost⟩
      · intro hheader host hhost
        exact hhost.leaves.iff
          (iff_true_intro (Or.inr ⟨hregistered, by simpa using hcreation, hheader⟩))
      · rintro _ host ⟨hheader, hhost⟩
        have hkept : ¬Abandons run headerFails := by
          rintro ⟨_, _, hfailed⟩
          rw [hheader] at hfailed
          exact Bool.noConfusion hfailed
        exact (captureDiff_spec hregistered id execution).conseq (fun _ h => h)
          (fun _ => hwritten hkept) (fun _ => hwritten hkept) host hhost

/-- What the worktree's diff leaves, if the run comes to it. -/
def WorktreeLeaves (run : PatchRun) (overrides : List Bytes) : Prop :=
  run.worktreeHeaderFails = false ∧
    LeavesExecution (run.worktree (checkpointPatchArgs false overrides))

/-- What the two diffs leave. -/
def DiffsLeave (run : PatchRun) (overrides : List Bytes) (probed : Host) : Prop :=
  let staged := run.staged (checkpointPatchArgs true overrides)
  (LeavesExecution staged ∨ Abandons staged run.stagedHeaderFails) ∨
    ∃ captured written, stagedDiff staged run.stagedHeaderFails probed = .ok captured written ∧
      WorktreeLeaves run overrides

def PatchLeaves (run : PatchRun) (host : Host) : Prop :=
  LeavesExecution run.probe ∨
    ∃ overrides probed, discoverFilterOverrides run.probe host = .ok overrides probed ∧
      DiffsLeave run overrides probed

theorem worktree_spec (run : PatchRun) (overrides : List Bytes) (staged : CaptureResult)
    (written : Host) :
    Triple (fun host => host = written)
      (do
        attempt run.worktreeHeaderFails .spool id
        let worktree ← worktreeDiff (run.worktree (checkpointPatchArgs false overrides))
        attempt run.finishFails .spool id
        return patchResult staged worktree run.artifactTruncated)
      (fun _ host => Leaves written (WorktreeLeaves run overrides) host)
      (fun _ host => Leaves written (WorktreeLeaves run overrides) host) := by
  have hreached (hheader : run.worktreeHeaderFails = false) (host : Host)
      (hhost : Leaves written
        (LeavesExecution (run.worktree (checkpointPatchArgs false overrides))) host) :
      Leaves written (WorktreeLeaves run overrides) host :=
    hhost.iff (and_iff_right hheader)
  refine Triple.bind (fun _ host => run.worktreeHeaderFails = false ∧ host = written)
    (Triple.attempt ?_ ?_) ?_
  · rintro hheader host rfl
    exact ⟨hheader, rfl⟩
  · rintro hheader host rfl
    refine (Leaves.refl host).iff (iff_false_intro ?_)
    intro h
    rw [WorktreeLeaves, hheader] at h
    exact Bool.noConfusion h.1
  · rintro _ host ⟨hheader, rfl⟩
    refine Triple.bind (fun _ after => Leaves host (WorktreeLeaves run overrides) after)
      ((worktreeDiff_spec host _).conseq (fun _ h => h) (fun _ => hreached hheader)
        (fun _ => hreached hheader)) ?_ host rfl
    intro worktree
    refine Triple.bind (fun _ after => Leaves host (WorktreeLeaves run overrides) after)
      (Triple.attempt ?_ ?_) ?_
    · intro _ after hafter
      exact hafter
    · intro _ after hafter
      exact hafter
    · intro _
      exact Triple.pure fun after hafter => hafter

theorem checkpointPatch_leaves (run : PatchRun) (host : Host) :
    Leaves host (PatchLeaves run host) (finalState (runGitCheckpointPatch run host)) := by
  refine Leaves.bind (discoverFilterOverrides_spec host run.probe) ?_
  intro overrides probed
  refine Leaves.bind (stagedDiff_spec probed _ run.stagedHeaderFails) ?_
  intro staged written
  exact Triple.final (worktree_spec run overrides staged written) rfl

/-- The functions that run git: those made of commands, and the patch. -/
inductive GitFunction where
  | commands (script : Script)
  | checkpointPatch (run : PatchRun)

def GitFunction.returned : GitFunction → Host → Host
  | .commands script, host => finalState (script.run host)
  | .checkpointPatch run, host => finalState (runGitCheckpointPatch run host)

/-- No diff is abandoned, and no removal of an execution is refused. -/
def GitFunction.Tidy : GitFunction → Host → Prop
  | .commands script, host => ¬ScriptLeaves script host
  | .checkpointPatch run, host => ¬PatchLeaves run host

theorem returned_clean_iff (function : GitFunction) (host : Host) :
    Clean host (function.returned host) ↔ function.Tidy host := by
  cases function with
  | commands script => exact (script_leaves script host).clean_iff
  | checkpointPatch run => exact (checkpointPatch_leaves run host).clean_iff

instance (child : Child) : Decidable child.Settled := inferInstanceAs (Decidable (_ ∨ _))

instance (before after : Host) : Decidable (Clean before after) :=
  inferInstanceAs (Decidable (_ ∧ _))

def quiet (exitCode : Int) : Capture := ⟨false, [.done false, .done false], false, false, exitCode⟩

def smooth (exitCode : Int) : CommandRun :=
  ⟨.published, false, false, quiet exitCode, false, false, false⟩

def headerless : PatchRun where
  probe := smooth 1
  staged := fun _ => smooth 0
  stagedHeaderFails := true
  worktreeHeaderFails := false
  worktree := fun _ => smooth 0
  finishFails := false
  artifactTruncated := false

def noChildren : Host := ⟨[], [], 0, by simp⟩

theorem headerless_not_clean :
    ¬∀ (function : GitFunction) (host : Host), Clean host (function.returned host) := by
  intro h
  have hclean : ¬Clean noChildren ((GitFunction.checkpointPatch headerless).returned noChildren) := by
    decide
  exact hclean (h _ _)

end KodeGpt.ExecutionCleanup
