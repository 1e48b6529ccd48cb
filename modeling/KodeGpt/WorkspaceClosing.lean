import KodeGpt.CancellationSignals

/-!
Whether a workspace is free of processes once the cancellation of its
executions has answered ok, or once it was unregistered.
-/

namespace KodeGpt.WorkspaceClosing

open CancellationSignals ProcessOperations ProcessReaping TransitionSystem WorkspaceContexts

def Stopped (child : Child) : Prop := child.running = false

theorem lasting_stopped : Lasting Stopped where
  exit := fun _ _ => rfl
  kill := fun _ => rfl
  reap := fun _ hrunning => hrunning

/-- No process of the capability runs. -/
def NoProcess (s : ProcessSystem) : Prop := ∀ id, Quiet Stopped (s.runs id)

/-- The task serves `workspace.cancel_executions` and has answered ok. -/
def AnsweredOk (canceller : Canceller) : Prop :=
  canceller.sweep = true ∧ canceller.pc = .done none

/-- The operations that a cancellation of all executions has yet to see over
or killed, from its snapshot on and unless it fails. -/
def remaining (canceller : Canceller) : Option (List RunId) :=
  if canceller.sweep then
    match canceller.pc with
    | .reading operation | .signalling operation _ | .polling operation _ _
    | .killing operation _ => some (operation :: canceller.rest)
    | .pollingKilled _ _ => some canceller.rest
    | .done none => some []
    | _ => none
  else none

theorem remaining_of_answeredOk {canceller : Canceller} (h : AnsweredOk canceller) :
    remaining canceller = some [] := by
  simp [remaining, h.1, h.2]

theorem remaining_advance (canceller : Canceller) :
    remaining canceller.advance = if canceller.sweep then some canceller.rest else none := by
  unfold Canceller.advance
  split
  · rename_i hrest
    simp [remaining, hrest]
  · rename_i hrest
    simp [remaining, hrest]

/-- The cancellation of all executions has answered ok, or the capability was
unregistered. -/
def Over (s : ProcessSystem) : Prop :=
  (∃ canceller, AnsweredOk (s.cancellers canceller)) ∨ s.phase = none

/-- A child is launched only while no cancellation of all executions is under
way or has answered ok, and before the capability is unregistered; no spool
write fails on a running child; when the snapshot is taken every running child
has its operation recorded as Running; and a closing capability is unregistered
only after a cancellation has answered ok. -/
def ClosesInOrder (s : ProcessSystem) : Event → Prop
  | .run id event =>
    WriteFailureOnly Stopped (s.runs id) event ∧
      ((∃ processGroup, event = .launch (some processGroup)) →
        s.phase ≠ none ∧ ∀ canceller, remaining (s.cancellers canceller) = none)
  | .cancel _ (.snapshot _) =>
    ∀ id child, (s.runs id).child = some child → child.running = true →
      (s.runs id).status = some true
  | .unregister => s.phase = some .closing → ∃ canceller, AnsweredOk (s.cancellers canceller)
  | _ => True

theorem next_child_source {P : Child → Prop} {s t : ProcessSystem} {event : Event}
    (hnext : s.next event = some t) (hinv : ∀ id, RunInvariant P (s.runs id)) {id : RunId}
    {later : Child} (hlater : (t.runs id).child = some later) :
    (∃ child, (s.runs id).child = some child ∧ (later.running = true → child.running = true)) ∨
      ((s.runs id).pc = .admitted ∧
        ∃ processGroup, event = .run id (.launch (some processGroup))) := by
  cases hchild : (s.runs id).child with
  | some child =>
    obtain ⟨found, hfound, hrelated⟩ := next_child hnext hinv id hchild
    rw [hlater] at hfound
    obtain rfl := Option.some.inj hfound
    exact .inl ⟨child, rfl, hrelated.stopped⟩
  | none =>
    cases event with
    | run other step =>
      obtain ⟨run, hstep, -, -, -, hruns⟩ := ProcessSystem.next_run hnext
      rw [hruns] at hlater
      split at hlater
      · rename_i heq
        subst heq
        cases hstep with
        | launch processGroup hpc => exact .inr ⟨hpc, processGroup, rfl⟩
        | _ => simp [Run.mapChild, hchild] at hlater
      · rw [hchild] at hlater
        cases hlater
    | cancel other step =>
      rcases (ProcessSystem.cancelNext_step hnext).run id with hsame | hmarked | ⟨_, hkilled⟩
      · rw [hsame, hchild] at hlater
        cases hlater
      · rw [hmarked] at hlater
        simp [Run.requestCancel, hchild] at hlater
      · rw [hkilled] at hlater
        simp [Run.deliverKill, Run.mapChild, hchild] at hlater
    | _ =>
      obtain rfl := Option.some.inj hnext
      rw [hchild] at hlater
      cases hlater

structure ClosingInvariant (s : ProcessSystem) : Prop where
  runs : ∀ id, RunInvariant Stopped (s.runs id)
  recorded : ∀ id, (s.runs id).record.isSome = true → id ∈ s.recorded
  held : GroupsHeld s
  opening : s.phase = some .opening →
    ∀ id, (s.runs id).child = none ∧ (s.runs id).pc ≠ .admitted
  swept : ∀ canceller operations, remaining (s.cancellers canceller) = some operations →
    ∀ id child, (s.runs id).child = some child → child.running = true → id ∈ operations
  removed : s.phase = none → NoProcess s

theorem closingInvariant_initial : ClosingInvariant ProcessSystem.initial where
  runs := fun _ => RunInvariant.initial
  recorded := nofun
  held := groupsHeld_initial
  opening := fun _ _ => ⟨rfl, nofun⟩
  swept := nofun
  removed := nofun

theorem recorded_step {s t : ProcessSystem} {event : Event} (hinv : ClosingInvariant s)
    (hnext : s.next event = some t) :
    ∀ id, (t.runs id).record.isSome = true → id ∈ t.recorded := by
  intro id hsome
  cases event with
  | run other step =>
    obtain ⟨run, hstep, -, -, hrecorded, hruns⟩ := ProcessSystem.next_run hnext
    rw [hrecorded]
    rw [hruns] at hsome
    have hold : (s.runs id).record.isSome = true →
        id ∈ if step = .insertRecord true then other :: s.recorded else s.recorded := by
      intro h
      split
      · exact List.mem_cons_of_mem _ (hinv.recorded id h)
      · exact hinv.recorded id h
    split at hsome
    · rename_i heq
      subst heq
      cases hstep with
      | insertRecord hpc => simp
      | settle exitCode hpc => exact hold (by simpa using hsome)
      | _ => exact hold hsome
    · exact hold hsome
  | cancel other step =>
    have hstep := ProcessSystem.cancelNext_step hnext
    rw [hstep.recorded]
    apply hinv.recorded
    rcases hstep.run id with hsame | hmarked | ⟨_, hkilled⟩
    · rwa [hsame] at hsome
    · rw [hmarked] at hsome
      simpa [Run.requestCancel] using hsome
    · rw [hkilled] at hsome
      exact hsome
  | _ =>
    obtain rfl := Option.some.inj hnext
    exact hinv.recorded id hsome

theorem opening_before {s t : ProcessSystem} {event : Event} (hnext : s.next event = some t)
    (hopening : t.phase = some .opening) : s.phase = some .opening := by
  cases event with
  | run id step =>
    obtain ⟨run, -, hphase, -, -, -⟩ := ProcessSystem.next_run hnext
    rwa [hphase] at hopening
  | cancel id step => rwa [(ProcessSystem.cancelNext_step hnext).phase] at hopening
  | _ =>
    obtain rfl := Option.some.inj hnext
    dsimp only at hopening
    split at hopening
    · simp_all
    · simp_all

theorem opening_step {s t : ProcessSystem} {event : Event} (hinv : ClosingInvariant s)
    (hnext : s.next event = some t) (hopening : t.phase = some .opening) :
    ∀ id, (t.runs id).child = none ∧ (t.runs id).pc ≠ .admitted := by
  intro id
  have hbefore := opening_before hnext hopening
  obtain ⟨hchild, hadmitted⟩ := hinv.opening hbefore id
  constructor
  · cases hlater : (t.runs id).child with
    | none => rfl
    | some later =>
      rcases next_child_source hnext hinv.runs hlater with ⟨child, hfound, -⟩ | ⟨hpc, -⟩
      · rw [hchild] at hfound
        cases hfound
      · exact absurd hpc hadmitted
  · cases event with
    | run other step =>
      obtain ⟨run, hstep, -, -, -, hruns⟩ := ProcessSystem.next_run hnext
      rw [hruns]
      split
      · rename_i heq
        subst heq
        cases hstep with
        | exit => exact hadmitted
        | move event pc hfresh hsettling hready =>
          intro hpc
          have hphase := of_decide_eq_true (hready hpc)
          rw [hbefore] at hphase
          cases hphase
        | removeExecution pc hsettling hpc =>
          rintro rfl
          cases hpc
        | waitForChild event pc child hevent hchild hrunning hpc =>
          rintro rfl
          cases hpc
        | _ => nofun
      · exact hadmitted
    | cancel other step =>
      rcases (ProcessSystem.cancelNext_step hnext).run id with hsame | hmarked | ⟨_, hkilled⟩
      · rwa [hsame]
      · rwa [hmarked]
      · rwa [hkilled]
    | _ =>
      obtain rfl := Option.some.inj hnext
      exact hadmitted

theorem not_running_of_status {s : ProcessSystem} (hinv : ClosingInvariant s) {id : RunId}
    (hstatus : (s.runs id).status = some false) {child : Child}
    (hchild : (s.runs id).child = some child) : child.running = false := by
  obtain ⟨record, hrecord, hstate⟩ := Option.map_eq_some_iff.mp hstatus
  exact (hinv.runs id).settled record hrecord (of_decide_eq_false hstate) child hchild

theorem remaining_eq_some {canceller : Canceller} {operations : List RunId}
    (h : remaining canceller = some operations) : canceller.sweep = true := by
  unfold remaining at h
  split at h
  · assumption
  · cases h

theorem not_running_of_kill {s : ProcessSystem} (hinv : ClosingInvariant s)
    {canceller : CancellerId} {operation : RunId} {processGroup : Int}
    (hpc : (s.cancellers canceller).pc = .killing operation processGroup) :
    Quiet Stopped ((s.runs operation).deliverKill processGroup) := by
  obtain ⟨child, hchild, hgroup⟩ := hinv.held canceller operation processGroup (.inr (.inl hpc))
  intro later hlater
  simp only [Run.deliverKill, Run.mapChild, hchild, Option.map_some, Option.some.injEq] at hlater
  rw [← hlater]
  split
  · rfl
  · rename_i hreaped
    rw [not_and, Bool.not_eq_false] at hreaped
    exact (hinv.runs operation).stopped child hchild (hreaped hgroup)

/-- A cancellation of all executions lists its operations when it takes its
snapshot, and takes one off its list once its record is over or it is killed. -/
theorem cancelStep_remaining {s s' : ProcessSystem} {id : CancellerId} {event : CancelEvent}
    (hstep : CancelStep s id event s') {operations : List RunId}
    (hremaining : remaining (s'.cancellers id) = some operations) :
    (event = .snapshot operations ∧ operations.Perm s.runningOperations) ∨
      remaining (s.cancellers id) = some operations ∨
      ∃ operation, remaining (s.cancellers id) = some (operation :: operations) ∧
        ((s.runs operation).status = some false ∨
          ∃ processGroup, (s.cancellers id).pc = .killing operation processGroup ∧
            s'.runs operation = (s.runs operation).deliverKill processGroup) := by
  have hsweep := remaining_eq_some hremaining
  cases hstep with
  | processCancel target hpc =>
    rw [setCanceller_self] at hsweep
    cases hsweep
  | cancelExecutions hpc hphase =>
    rw [setCanceller_self] at hremaining
    cases hremaining
  | fail event sweep error rest hpc =>
    rw [setCanceller_self] at hremaining
    simp [remaining] at hremaining
  | snapshot listed hpc hperm =>
    rw [setCanceller_self, remaining_advance] at hremaining
    split at hremaining
    · obtain rfl := Option.some.inj hremaining
      exact .inl ⟨rfl, hperm⟩
    · cases hremaining
  | overAlready target record hpc hrecord hover =>
    rw [setCanceller_self, remaining_advance] at hremaining
    split at hremaining
    · rename_i hbefore
      obtain rfl := Option.some.inj hremaining
      refine .inr (.inr ⟨target, by simp [remaining, hbefore, hpc], .inl ?_⟩)
      simp [Run.status, hrecord, hover]
    · cases hremaining
  | decide target record hpc hrecord hstate =>
    rw [setCanceller_self] at hremaining hsweep
    refine .inr (.inl ?_)
    simpa [remaining, hpc] using hremaining
  | terminate target group hpc =>
    rw [setCanceller_self] at hremaining hsweep
    refine .inr (.inl ?_)
    simpa [remaining, hpc] using hremaining
  | polled target group left hpc hover =>
    rw [setCanceller_self, remaining_advance] at hremaining
    split at hremaining
    · rename_i hbefore
      obtain rfl := Option.some.inj hremaining
      exact .inr (.inr ⟨target, by simp [remaining, hbefore, hpc], .inl hover⟩)
    · cases hremaining
  | keepPolling target group left after hpc =>
    rw [setCanceller_self] at hremaining hsweep
    refine .inr (.inl ?_)
    simpa [remaining, hpc] using hremaining
  | escalate target group left hpc hleft hstatus =>
    rw [setCanceller_self] at hremaining hsweep
    refine .inr (.inl ?_)
    simpa [remaining, hpc] using hremaining
  | kill target group hpc =>
    rw [setCanceller_self] at hremaining hsweep
    refine .inr (.inr ⟨target, ?_, .inr ⟨group, hpc, rfl⟩⟩)
    have hbefore : (s.cancellers id).sweep = true := hsweep
    have hrest : operations = (s.cancellers id).rest := by
      simpa [remaining, hbefore, eq_comm] using hremaining
    simp [remaining, hbefore, hpc, hrest]
  | polledKilled target left hpc =>
    rw [setCanceller_self, remaining_advance] at hremaining
    refine .inr (.inl ?_)
    simpa [remaining, hpc] using hremaining
  | keepPollingKilled target left after hpc =>
    rw [setCanceller_self] at hremaining hsweep
    refine .inr (.inl ?_)
    simpa [remaining, hpc] using hremaining

theorem mem_runningOperations {s : ProcessSystem} (hinv : ClosingInvariant s) {id : RunId}
    (hstatus : (s.runs id).status = some true) : id ∈ s.runningOperations := by
  obtain ⟨record, hrecord, hstate⟩ := Option.map_eq_some_iff.mp hstatus
  refine List.mem_filter.mpr ⟨hinv.recorded id (by simp [hrecord]), ?_⟩
  simpa [ProcessSystem.operationRunning, hrecord] using hstate

theorem swept_step {s t : ProcessSystem} {event : Event} (hinv : ClosingInvariant s)
    (horder : ClosesInOrder s event) (hnext : s.next event = some t) :
    ∀ canceller operations, remaining (t.cancellers canceller) = some operations →
      ∀ id child, (t.runs id).child = some child → child.running = true → id ∈ operations := by
  intro canceller operations hremaining id later hlater hrunning
  have hbefore : (∃ child, (s.runs id).child = some child ∧ child.running = true) ∨
      ∃ processGroup, event = .run id (.launch (some processGroup)) := by
    rcases next_child_source hnext hinv.runs hlater with ⟨child, hchild, hrelated⟩ | ⟨-, hlaunch⟩
    · exact .inl ⟨child, hchild, hrelated hrunning⟩
    · exact .inr hlaunch
  rcases hbefore with ⟨child, hchild, hchildRunning⟩ | ⟨processGroup, rfl⟩
  · have hlisted : ∀ {before}, remaining (s.cancellers canceller) = some before → id ∈ before :=
      fun h => hinv.swept canceller _ h id child hchild hchildRunning
    cases event with
    | run other step =>
      obtain ⟨run, -, -, hcancellers, -, -⟩ := ProcessSystem.next_run hnext
      rw [hcancellers] at hremaining
      exact hlisted hremaining
    | cancel other step =>
      have hstep := ProcessSystem.cancelNext_step hnext
      by_cases hother : canceller = other
      · subst hother
        rcases cancelStep_remaining hstep hremaining with
          ⟨rfl, hperm⟩ | hsame | ⟨operation, hdropped, hover⟩
        · exact hperm.mem_iff.mpr (mem_runningOperations hinv (horder id child hchild hchildRunning))
        · exact hlisted hsame
        · rcases List.mem_cons.mp (hlisted hdropped) with rfl | hmem
          · rcases hover with hstatus | ⟨group, hpc, hkilled⟩
            · rw [not_running_of_status hinv hstatus hchild] at hchildRunning
              cases hchildRunning
            · have hstopped := not_running_of_kill hinv hpc
              rw [← hkilled] at hstopped
              have hfalse : later.running = false := hstopped later hlater
              rw [hfalse] at hrunning
              cases hrunning
          · exact hmem
      · rw [hstep.other hother] at hremaining
        exact hlisted hremaining
    | _ =>
      obtain rfl := Option.some.inj hnext
      exact hlisted hremaining
  · obtain ⟨-, hnone⟩ := horder.2 ⟨processGroup, rfl⟩
    obtain ⟨run, -, -, hcancellers, -, -⟩ := ProcessSystem.next_run hnext
    rw [hcancellers, hnone canceller] at hremaining
    cases hremaining

theorem noProcess_of_answered {s : ProcessSystem} (hinv : ClosingInvariant s)
    {canceller : CancellerId} (h : AnsweredOk (s.cancellers canceller)) : NoProcess s := by
  intro id child hchild
  change child.running = false
  rw [← Bool.not_eq_true]
  intro hrunning
  cases hinv.swept canceller [] (remaining_of_answeredOk h) id child hchild hrunning

theorem removed_step {s t : ProcessSystem} {event : Event} (hinv : ClosingInvariant s)
    (horder : ClosesInOrder s event) (hnext : s.next event = some t) (hremoved : t.phase = none) :
    NoProcess t := by
  have hkept : NoProcess s →
      (∀ id processGroup, event ≠ .run id (.launch (some processGroup))) → NoProcess t := by
    intro hnone hlaunch id later hlater
    change later.running = false
    rw [← Bool.not_eq_true]
    intro hrunning
    rcases next_child_source hnext hinv.runs hlater with
      ⟨child, hchild, hrelated⟩ | ⟨-, processGroup, heq⟩
    · have hstopped : child.running = false := hnone id child hchild
      rw [hrelated hrunning] at hstopped
      cases hstopped
    · exact hlaunch id processGroup heq
  cases event with
  | run id step =>
    obtain ⟨run, -, hphase, -, -, -⟩ := ProcessSystem.next_run hnext
    rw [hphase] at hremoved
    refine hkept (hinv.removed hremoved) ?_
    intro other processGroup heq
    obtain ⟨-, rfl⟩ := Event.run.inj heq
    exact (horder.2 ⟨processGroup, rfl⟩).1 hremoved
  | cancel id step =>
    rw [(ProcessSystem.cancelNext_step hnext).phase] at hremoved
    exact hkept (hinv.removed hremoved) nofun
  | unregister =>
    refine hkept ?_ nofun
    cases hphase : s.phase with
    | none => exact hinv.removed hphase
    | some phase =>
      cases phase with
      | opening =>
        intro id child hchild
        rw [(hinv.opening hphase id).1] at hchild
        cases hchild
      | ready =>
        obtain rfl := Option.some.inj hnext
        simp [hphase] at hremoved
      | closing =>
        obtain ⟨canceller, hanswered⟩ := horder hphase
        exact noProcess_of_answered hinv hanswered
  | activate =>
    refine hkept (hinv.removed ?_) nofun
    obtain rfl := Option.some.inj hnext
    dsimp only at hremoved
    split at hremoved
    · cases hremoved
    · exact hremoved
  | beginClose =>
    refine hkept (hinv.removed ?_) nofun
    obtain rfl := Option.some.inj hnext
    dsimp only at hremoved
    split at hremoved
    · cases hremoved
    · exact hremoved

theorem writeFailuresOnly_of_closesInOrder {s : ProcessSystem} {event : Event}
    (h : ClosesInOrder s event) : WriteFailuresOnly Stopped s event := by
  cases event with
  | run id event => exact h.1
  | _ => trivial

theorem closingInvariant_step {s t : ProcessSystem} {event : Event} (hinv : ClosingInvariant s)
    (horder : ClosesInOrder s event) (hnext : s.next event = some t) : ClosingInvariant t where
  runs := runs_invariant_step lasting_stopped hinv.runs
    (writeFailuresOnly_of_closesInOrder horder) hnext
  recorded := recorded_step hinv hnext
  held := groupsHeld_step hinv.runs hinv.held hnext
  opening := opening_step hinv hnext
  swept := swept_step hinv horder hnext
  removed := removed_step hinv horder hnext

theorem answeredOk_step {s t : ProcessSystem} {event : Event} {canceller : CancellerId}
    (h : AnsweredOk (s.cancellers canceller)) (hnext : s.next event = some t) :
    AnsweredOk (t.cancellers canceller) := by
  cases event with
  | run id step =>
    obtain ⟨run, -, -, hcancellers, -, -⟩ := ProcessSystem.next_run hnext
    rwa [hcancellers]
  | cancel id step =>
    have hstep := ProcessSystem.cancelNext_step hnext
    by_cases hid : canceller = id
    · subst hid
      obtain ⟨-, hdone⟩ := h
      cases hstep with
      | fail event sweep error rest hpc => exact absurd hdone hpc
      | _ => simp_all
    · rwa [hstep.other hid]
  | _ =>
    obtain rfl := Option.some.inj hnext
    exact h

theorem removed_stays {s t : ProcessSystem} {event : Event} (h : s.phase = none)
    (hnext : s.next event = some t) : t.phase = none := by
  cases event with
  | run id step =>
    obtain ⟨run, -, hphase, -, -, -⟩ := ProcessSystem.next_run hnext
    rwa [hphase]
  | cancel id step => rwa [(ProcessSystem.cancelNext_step hnext).phase]
  | _ =>
    obtain rfl := Option.some.inj hnext
    simp [h]

/-- An answer is not taken back, and a capability does not come back. -/
theorem over_step {s t : ProcessSystem} {event : Event} (hover : Over s)
    (hnext : s.next event = some t) : Over t := by
  rcases hover with ⟨canceller, h⟩ | h
  · exact .inl ⟨canceller, answeredOk_step h hnext⟩
  · exact .inr (removed_stays h hnext)

theorem noProcess_of_over {s : ProcessSystem} (hinv : ClosingInvariant s) (hover : Over s) :
    NoProcess s := by
  rcases hover with ⟨canceller, h⟩ | h
  · exact noProcess_of_answered hinv h
  · exact hinv.removed h

/-- In a run whose steps close the workspace in order, nothing of the
capability runs once the cancellation of its executions has answered ok or it
was unregistered, then and at any later time. -/
theorem over_noProcess {s t : ProcessSystem} {front back : List Event}
    (horder : AllSteps ProcessSystem.next ClosesInOrder ProcessSystem.initial (front ++ back))
    (hfront : exec ProcessSystem.next ProcessSystem.initial front = some s) (hover : Over s)
    (hback : exec ProcessSystem.next s back = some t) : NoProcess t := by
  have hrun : exec ProcessSystem.next ProcessSystem.initial (front ++ back) = some t := by
    rw [exec_append, hfront]
    exact hback
  have hinv : ClosingInvariant t :=
    exec_invariant (fun _ _ _ => closingInvariant_step) closingInvariant_initial horder hrun
  have hlater : Over t := by
    have hany : AllSteps ProcessSystem.next (fun _ _ => True) s back :=
      AllSteps.of_forall (fun _ _ => trivial) s back
    exact exec_invariant (fun _ _ _ h _ hnext => over_step h hnext) hover hany hback
  exact noProcess_of_over hinv hlater

def orderly : Event → Bool
  | .run _ (.chunk false) | .run _ (.launch (some _)) | .cancel _ (.snapshot _) | .unregister =>
    false
  | _ => true

theorem closesInOrder_of_orderly {s : ProcessSystem} {event : Event} (h : orderly event = true) :
    ClosesInOrder s event := by
  cases event with
  | run id event =>
    constructor
    · rintro rfl
      cases h
    · rintro ⟨processGroup, rfl⟩
      cases h
  | cancel canceller event =>
    cases event with
    | snapshot operations => cases h
    | _ => trivial
  | unregister => cases h
  | _ => trivial

theorem closesInOrder_of_all {events : List Event}
    (h : ∀ event ∈ events, orderly event = true) (s : ProcessSystem) :
    AllSteps ProcessSystem.next ClosesInOrder s events :=
  AllSteps.of_mem (fun event hevent _ => closesInOrder_of_orderly (h event hevent)) s

def admittedRun : List Event := [.activate, .run 0 .request, .run 0 (.checkPolicy true)]

def runningThenClosing : List Event :=
  [.run 0 (.register true), .run 0 (.createSpool true), .run 0 (.insertRecord true),
    .run 0 (.takePipes true), .beginClose, .cancel 0 .cancelExecutions]

def swept : List Event :=
  [.cancel 0 .read, .cancel 0 (.signal true), .run 0 .exit, .run 0 (.streamDone true),
    .run 0 (.streamDone true), .run 0 (.joinReaders true), .run 0 (.wait (some 143)),
    .run 0 (.finish true), .run 0 .removeExecution, .run 0 .settle, .cancel 0 .poll]

def closedInOrder : List Event :=
  admittedRun ++ (.run 0 (.launch (some 7)) ::
    (runningThenClosing ++ (.cancel 0 (.snapshot [0]) :: swept)))

theorem closedInOrder_steps :
    AllSteps ProcessSystem.next ClosesInOrder ProcessSystem.initial closedInOrder := by
  refine AllSteps.append (closesInOrder_of_all (by decide) _) ?_
  intro s hs
  have hphase : some (some WorkspacePhase.ready) = some s.phase :=
    congrArg (Option.map fun s : ProcessSystem => s.phase) hs
  have hcancellers : some (fun _ => Canceller.initial) = some s.cancellers :=
    congrArg (Option.map fun s : ProcessSystem => s.cancellers) hs
  refine ⟨⟨nofun, fun _ => ⟨?_, ?_⟩⟩, fun t ht => ?_⟩
  · rw [← Option.some.inj hphase]
    nofun
  · intro canceller
    rw [← Option.some.inj hcancellers]
    rfl
  have hlaunched : exec ProcessSystem.next ProcessSystem.initial
      (admittedRun ++ [.run 0 (.launch (some 7))]) = some t := by
    rw [exec_append, hs]
    simpa using ht
  refine AllSteps.append (closesInOrder_of_all (by decide) _) ?_
  intro u hu
  have hclosing : exec ProcessSystem.next ProcessSystem.initial
      ((admittedRun ++ [.run 0 (.launch (some 7))]) ++ runningThenClosing) = some u := by
    rw [exec_append, hlaunched]
    exact hu
  refine ⟨?_, fun v _ => closesInOrder_of_all (by decide) v⟩
  intro id child hchild _
  cases id with
  | zero =>
    have hstatus : some (some true) = some (u.runs 0).status :=
      congrArg (Option.map fun s : ProcessSystem => (s.runs 0).status) hclosing
    exact (Option.some.inj hstatus).symm
  | succ id =>
    have hnone : some none = some (u.runs (id + 1)).child :=
      congrArg (Option.map fun s : ProcessSystem => (s.runs (id + 1)).child) hclosing
    rw [← Option.some.inj hnone] at hchild
    cases hchild

theorem closedInOrder_noProcess :
    ∃ t, exec ProcessSystem.next ProcessSystem.initial closedInOrder = some t ∧ NoProcess t := by
  cases hrun : exec ProcessSystem.next ProcessSystem.initial closedInOrder with
  | none => cases congrArg Option.isSome hrun
  | some t =>
    have hanswer : some (⟨true, .done none, []⟩ : Canceller) = some (t.cancellers 0) :=
      congrArg (Option.map fun s : ProcessSystem => s.cancellers 0) hrun
    have hover : Over t := by
      refine .inl ⟨0, ?_⟩
      rw [← Option.some.inj hanswer]
      exact ⟨rfl, rfl⟩
    have hsteps : AllSteps ProcessSystem.next ClosesInOrder ProcessSystem.initial
        (closedInOrder ++ []) := by
      rw [List.append_nil]
      exact closedInOrder_steps
    exact ⟨t, rfl, over_noProcess hsteps hrun hover rfl⟩

/-- A `process.run` that was admitted before the workspace closed launches its
child after the cancellation has answered ok, and after the unregistration. -/
theorem process_started_after_close :
    ∃ s t, exec ProcessSystem.next ProcessSystem.initial
        (admittedRun ++ [.beginClose, .cancel 0 .cancelExecutions, .cancel 0 (.snapshot []),
          .unregister]) = some s ∧
      AnsweredOk (s.cancellers 0) ∧ s.phase = none ∧
      s.next (.run 0 (.launch (some 7))) = some t ∧
      (t.runs 0).child = some (Child.spawned 7) :=
  ⟨_, _, rfl, ⟨rfl, rfl⟩, rfl, rfl, rfl⟩

end KodeGpt.WorkspaceClosing
