import KodeGpt.ProcessOperations
import KodeGpt.TransitionSystem

/-!
When an operation may be reported as over, and when a cancellation may send
its signals: the record of an operation, its entry in the execution registry
and the process group of its child, in every interleaving.
-/

namespace KodeGpt.ProcessReaping

open ProcessOperations TransitionSystem

/-- The child, if there is one, satisfies `P`. -/
def Quiet (P : Child → Prop) (run : Run) : Prop := ∀ child, run.child = some child → P child

/-- What holds of a run at any time, for a property `P` of children which
killing and reaping them brings about. -/
structure RunInvariant (P : Child → Prop) (run : Run) : Prop where
  fresh : fresh run.pc = true → run.child = none ∧ run.record = none ∧ run.execution = .absent
  settling : settling run.pc = true → Quiet P run
  settled : ∀ record, run.record = some record → record.state ≠ .running → Quiet P run
  removed : run.execution = .removed → Quiet P run
  group : ∀ record, run.record = some record → record.state = .running →
    ∃ child, run.child = some child ∧ child.processGroup = record.processGroup
  stopped : Quiet (fun child => child.waited = true → child.running = false) run

/-- Exits, kills and reaps never undo `P`, and the last two establish it. -/
structure Lasting (P : Child → Prop) : Prop where
  exit : ∀ child : Child, P child → P child.exit
  kill : ∀ child : Child, P child.kill
  reap : ∀ child : Child, child.running = false → P child.reap

section RunLemmas

variable {P : Child → Prop} {run : Run}

theorem RunInvariant.initial : RunInvariant P Run.initial where
  fresh := fun _ => ⟨rfl, rfl, rfl⟩
  settling := nofun
  settled := nofun
  removed := nofun
  group := nofun
  stopped := nofun

theorem RunInvariant.moveTo (h : RunInvariant P run) (pc : RunPc)
    (hfresh : ProcessOperations.fresh pc = true → ProcessOperations.fresh run.pc = true)
    (hquiet : ProcessOperations.settling pc = true → Quiet P run) :
    RunInvariant P { run with pc } :=
  ⟨fun hpc => h.fresh (hfresh hpc), hquiet, h.settled, h.removed, h.group, h.stopped⟩

theorem quiet_mapChild {f : Child → Child} (hf : ∀ child, P child → P (f child))
    (h : Quiet P run) : Quiet P (run.mapChild f) := by
  intro child hchild
  obtain ⟨before, hbefore, rfl⟩ := Option.map_eq_some_iff.mp hchild
  exact hf before (h before hbefore)

theorem quiet_kill (hP : Lasting P) (run : Run) : Quiet P (run.mapChild Child.kill) := by
  intro child hchild
  obtain ⟨before, -, rfl⟩ := Option.map_eq_some_iff.mp hchild
  exact hP.kill before

theorem RunInvariant.mapChild (h : RunInvariant P run) {f : Child → Child}
    (hf : ∀ child, P child → P (f child))
    (hgroup : ∀ child, (f child).processGroup = child.processGroup)
    (hstopped : ∀ child : Child, (child.waited = true → child.running = false) →
      (f child).waited = true → (f child).running = false) :
    RunInvariant P (run.mapChild f) := by
  constructor
  · intro hpc
    obtain ⟨hchild, hrecord, hexecution⟩ := h.fresh hpc
    exact ⟨by simp [Run.mapChild, hchild], hrecord, hexecution⟩
  · exact fun hpc => quiet_mapChild hf (h.settling hpc)
  · exact fun record hrecord hstate => quiet_mapChild hf (h.settled record hrecord hstate)
  · exact fun hexecution => quiet_mapChild hf (h.removed hexecution)
  · intro record hrecord hstate
    obtain ⟨child, hchild, hpg⟩ := h.group record hrecord hstate
    exact ⟨f child, by simp [Run.mapChild, hchild], (hgroup child).trans hpg⟩
  · exact quiet_mapChild hstopped h.stopped

theorem RunInvariant.exit (hP : Lasting P) (h : RunInvariant P run) :
    RunInvariant P (run.mapChild Child.exit) :=
  h.mapChild hP.exit (fun _ => rfl) fun _ _ _ => rfl

theorem RunInvariant.kill (hP : Lasting P) (h : RunInvariant P run) :
    RunInvariant P (run.mapChild Child.kill) :=
  h.mapChild (fun child _ => hP.kill child) (fun _ => rfl) fun _ _ _ => rfl

theorem RunInvariant.deliverKill (hP : Lasting P) (h : RunInvariant P run) (processGroup : Int) :
    RunInvariant P (run.deliverKill processGroup) := by
  refine h.mapChild ?_ ?_ ?_
  · intro child hchild
    split
    · exact hP.kill child
    · exact hchild
  · intro child
    split <;> rfl
  · intro child hchild
    split
    · exact fun _ => rfl
    · exact hchild

theorem RunInvariant.requestCancel (h : RunInvariant P run) : RunInvariant P run.requestCancel := by
  refine ⟨?_, h.settling, ?_, h.removed, ?_, h.stopped⟩
  · intro hpc
    obtain ⟨hchild, hrecord, hexecution⟩ := h.fresh hpc
    exact ⟨hchild, by simp [Run.requestCancel, hrecord], hexecution⟩
  · intro record hrecord hstate
    obtain ⟨before, hbefore, rfl⟩ := Option.map_eq_some_iff.mp hrecord
    exact h.settled before hbefore hstate
  · intro record hrecord hstate
    obtain ⟨before, hbefore, rfl⟩ := Option.map_eq_some_iff.mp hrecord
    exact h.group before hbefore hstate

theorem RunInvariant.reap (hP : Lasting P) (h : RunInvariant P run) {child : Child}
    (hchild : run.child = some child) (hrunning : child.running = false) :
    RunInvariant P (run.mapChild Child.reap) ∧ Quiet P (run.mapChild Child.reap) := by
  have hquiet : Quiet P (run.mapChild Child.reap) := by
    intro after hafter
    simp only [Run.mapChild, hchild, Option.map_some, Option.some.injEq] at hafter
    rw [← hafter]
    exact hP.reap child hrunning
  refine ⟨⟨?_, fun _ => hquiet, fun _ _ _ => hquiet, fun _ => hquiet, ?_, ?_⟩, hquiet⟩
  · intro hpc
    rw [(h.fresh hpc).1] at hchild
    cases hchild
  · intro record hrecord hstate
    obtain ⟨before, hbefore, hpg⟩ := h.group record hrecord hstate
    exact ⟨before.reap, by simp [Run.mapChild, hbefore], hpg⟩
  · intro after hafter _
    simp only [Run.mapChild, hchild, Option.map_some, Option.some.injEq] at hafter
    rw [← hafter]
    exact hrunning

end RunLemmas

/-- A spool write of the run fails only on a child that satisfies `P`. -/
def WriteFailureOnly (P : Child → Prop) (run : Run) (event : RunEvent) : Prop :=
  event = .chunk false → Quiet P run

/-- One step of the thread keeps the invariant. -/
theorem RunInvariant.next {P : Child → Prop} (hP : Lasting P) {ready : Bool} {run run' : Run}
    {event : RunEvent} (h : RunInvariant P run) (hwrite : WriteFailureOnly P run event)
    (hnext : run.next ready event = some run') : RunInvariant P run' := by
  cases Run.next_step hnext with
  | exit => exact h.exit hP
  | move event pc hfresh hsettling hadmitted =>
    refine h.moveTo pc hfresh ?_
    intro hpc
    rcases hsettling hpc with hbefore | hbefore | hevent
    · exact h.settling hbefore
    · intro child hchild
      rw [(h.fresh hbefore).1] at hchild
      cases hchild
    · exact hwrite hevent
  | launch processGroup hpc =>
    obtain ⟨-, hrecord, hexecution⟩ := h.fresh (by rw [hpc]; rfl)
    refine ⟨nofun, nofun, ?_, ?_, ?_, ?_⟩
    · intro record hsome
      rw [hrecord] at hsome
      cases hsome
    · intro hremoved
      rw [hexecution] at hremoved
      cases hremoved
    · intro record hsome
      rw [hrecord] at hsome
      cases hsome
    · intro child hchild hwaited
      obtain rfl := Option.some.inj hchild
      cases hwaited
  | register hpc => exact ⟨nofun, nofun, h.settled, nofun, h.group, h.stopped⟩
  | insertRecord hpc =>
    refine ⟨nofun, nofun, ?_, h.removed, ?_, h.stopped⟩
    · intro record hrecord hstate
      obtain ⟨child, -, rfl⟩ := Option.map_eq_some_iff.mp hrecord
      exact absurd rfl hstate
    · intro record hrecord hstate
      obtain ⟨child, hchild, rfl⟩ := Option.map_eq_some_iff.mp hrecord
      exact ⟨child, hchild, rfl⟩
  | waitForChild event pc child hevent hchild hrunning hpc =>
    obtain ⟨hreaped, hquiet⟩ := h.reap hP hchild hrunning
    refine hreaped.moveTo pc ?_ fun _ => hquiet
    rw [hpc]
    nofun
  | killChild registered hpc =>
    exact (h.kill hP).moveTo _ nofun fun _ => quiet_kill hP run
  | removeExecution pc hsettling hpc =>
    have hquiet := h.settling hsettling
    refine ⟨?_, fun _ => hquiet, h.settled, fun _ => hquiet, h.group, h.stopped⟩
    intro hfresh
    rw [hpc] at hfresh
    cases hfresh
  | settle exitCode hpc =>
    have hquiet := h.settling (by rw [hpc]; rfl)
    refine ⟨nofun, fun _ => hquiet, fun _ _ _ => hquiet, h.removed, ?_, h.stopped⟩
    intro record hrecord hstate
    obtain ⟨before, -, rfl⟩ := Option.map_eq_some_iff.mp hrecord
    exact absurd hstate (settle_state_ne_running before exitCode)

/-- Every spool write that fails in the system fails on a child that satisfies
`P`. -/
def WriteFailuresOnly (P : Child → Prop) (s : ProcessSystem) : Event → Prop
  | .run id event => WriteFailureOnly P (s.runs id) event
  | _ => True

def failedWrite : Event → Bool
  | .run _ (.chunk false) => true
  | _ => false

theorem writeFailuresOnly_of_not_failed {P : Child → Prop} {s : ProcessSystem} {event : Event}
    (h : failedWrite event = false) : WriteFailuresOnly P s event := by
  cases event with
  | run id event =>
    rintro rfl
    cases h
  | _ => trivial

theorem runs_invariant_step {P : Child → Prop} (hP : Lasting P) {s t : ProcessSystem}
    {event : Event} (h : ∀ id, RunInvariant P (s.runs id)) (hwrite : WriteFailuresOnly P s event)
    (hnext : s.next event = some t) : ∀ id, RunInvariant P (t.runs id) := by
  cases event with
  | run id event =>
    obtain ⟨run, hrun, rfl⟩ := Option.map_eq_some_iff.mp hnext
    intro other
    change RunInvariant P ((s.setRun id run).runs other)
    rw [setRun_runs]
    split
    · exact (h id).next hP hwrite hrun
    · exact h other
  | cancel id event =>
    intro other
    rcases (ProcessSystem.cancelNext_step hnext).run other with hsame | hmarked | ⟨_, hkilled⟩
    · rw [hsame]
      exact h other
    · rw [hmarked]
      exact (h other).requestCancel
    · rw [hkilled]
      exact (h other).deliverKill hP _
  | _ =>
    obtain rfl := Option.some.inj hnext
    exact h

theorem runs_invariant {P : Child → Prop} (hP : Lasting P) {s : ProcessSystem}
    {events : List Event}
    (hwrite : AllSteps ProcessSystem.next (WriteFailuresOnly P) ProcessSystem.initial events)
    (hrun : exec ProcessSystem.next ProcessSystem.initial events = some s) :
    ∀ id, RunInvariant P (s.runs id) := by
  have hinitial : ∀ id, RunInvariant P (ProcessSystem.initial.runs id) :=
    fun _ => RunInvariant.initial
  exact exec_invariant (I := fun s => ∀ id, RunInvariant P (s.runs id))
    (fun _ _ _ => runs_invariant_step hP) hinitial hwrite hrun

/-- The child was waited for or killed, and no process of its group can run. -/
def Gone (child : Child) : Prop :=
  child.running = false ∧ (child.waited = true ∨ child.killed = true)

theorem lasting_gone : Lasting Gone where
  exit := fun _ h => ⟨rfl, h.2⟩
  kill := fun _ => ⟨rfl, .inr rfl⟩
  reap := fun _ hrunning => ⟨hrunning, .inl rfl⟩

/-- If spool writes fail on killed children only, then in every state reached
an operation that is not Running any more, or whose execution was removed, has
a child that was waited for or killed and does not run. -/
theorem operation_over_child_gone {s : ProcessSystem} {events : List Event}
    (hwrite : AllSteps ProcessSystem.next (WriteFailuresOnly Gone) ProcessSystem.initial events)
    (hrun : exec ProcessSystem.next ProcessSystem.initial events = some s) (id : RunId)
    (hover : (∃ record, (s.runs id).record = some record ∧ record.state ≠ .running) ∨
      (s.runs id).execution = .removed) :
    ∀ child, (s.runs id).child = some child → Gone child := by
  have hinv := runs_invariant lasting_gone hwrite hrun id
  rcases hover with ⟨record, hrecord, hstate⟩ | hremoved
  · exact hinv.settled record hrecord hstate
  · exact hinv.removed hremoved

def launched : List Event :=
  [.activate, .run 0 .request, .run 0 (.checkPolicy true), .run 0 (.launch (some 7)),
    .run 0 (.register true), .run 0 (.createSpool true), .run 0 (.insertRecord true),
    .run 0 (.takePipes true)]

def readersFail : List Event :=
  launched ++ [.run 0 .channelClosed, .run 0 (.joinReaders true), .run 0 .killChild,
    .run 0 (.waitChild true), .run 0 .removeExecution, .run 0 .settle]

theorem readersFail_child_gone :
    ∃ s, exec ProcessSystem.next ProcessSystem.initial readersFail = some s ∧
      ∀ child, (s.runs 0).child = some child → Gone child := by
  have hwrite : AllSteps ProcessSystem.next (WriteFailuresOnly Gone) ProcessSystem.initial
      readersFail := by
    have hnone : ∀ event ∈ readersFail, failedWrite event = false := by decide
    apply AllSteps.of_mem
    intro event hevent s
    exact writeFailuresOnly_of_not_failed (hnone event hevent)
  cases hrun : exec ProcessSystem.next ProcessSystem.initial readersFail with
  | none => cases congrArg Option.isSome hrun
  | some s =>
    have hrecord : some (some ⟨0, .failed, none, false⟩) = some (s.runs 0).record :=
      congrArg (Option.map fun s : ProcessSystem => (s.runs 0).record) hrun
    have hsettled : (s.runs 0).record = some ⟨0, .failed, none, false⟩ :=
      (Option.some.inj hrecord).symm
    exact ⟨s, rfl, operation_over_child_gone hwrite hrun 0 (.inl ⟨_, hsettled, nofun⟩)⟩

/-- A write to the spool fails while the child runs: the operation is reported
failed, and its execution forgotten, with the child neither killed nor waited
for. -/
theorem spool_failure_leaves_child_running :
    ∃ s, exec ProcessSystem.next ProcessSystem.initial
        (launched ++ [.run 0 (.chunk false), .run 0 .removeExecution, .run 0 .settle]) = some s ∧
      (s.runs 0).record = some ⟨0, .failed, none, false⟩ ∧
      (s.runs 0).execution = .removed ∧
      (s.runs 0).child = some ⟨7, true, false, false⟩ := by
  exact ⟨_, rfl, rfl, rfl, rfl⟩

end KodeGpt.ProcessReaping
