import KodeGpt.ProcessReaping

/-!
Which process groups a cancellation signals. A cancelling task reads the group
from the record under the lock and signals after it has let the lock go, while
the worker reaps the child first and clears the record later.
-/

namespace KodeGpt.CancellationSignals

open ProcessOperations ProcessReaping TransitionSystem

/-- A later state of the same child: the same group, not running again, and
reaped only if `reaped` allows it. -/
structure ChildLater (reaped : Prop) (child later : Child) : Prop where
  group : later.processGroup = child.processGroup
  stopped : later.running = true → child.running = true
  reaped : later.waited = true → child.waited = true ∨ reaped

theorem ChildLater.refl (reaped : Prop) (child : Child) : ChildLater reaped child child :=
  ⟨rfl, id, .inl⟩

theorem runStep_child {P : Child → Prop} {ready : Bool} {run run' : Run} {event : RunEvent}
    (hstep : RunStep ready run event run') (hinv : RunInvariant P run) {child : Child}
    (hchild : run.child = some child) :
    ∃ later, run'.child = some later ∧ ChildLater (event.reaps = true) child later := by
  cases hstep with
  | exit => exact ⟨child.exit, by simp [Run.mapChild, hchild], rfl, by rintro ⟨⟩, .inl⟩
  | launch processGroup hpc =>
    rw [(hinv.fresh (by rw [hpc]; rfl)).1] at hchild
    cases hchild
  | waitForChild event pc found hevent hfound hrunning hpc =>
    exact ⟨child.reap, by simp [Run.mapChild, hchild], rfl, id, fun _ => .inr hevent⟩
  | killChild registered hpc =>
    exact ⟨child.kill, by simp [Run.mapChild, hchild], rfl, by rintro ⟨⟩, .inl⟩
  | _ => exact ⟨child, hchild, ChildLater.refl _ child⟩

theorem cancelStep_child {s s' : ProcessSystem} {id : CancellerId} {event : CancelEvent}
    (hstep : CancelStep s id event s') (operation : RunId) {child : Child}
    (hchild : (s.runs operation).child = some child) :
    ∃ later, (s'.runs operation).child = some later ∧ ChildLater False child later := by
  rcases hstep.run operation with hsame | hmarked | ⟨processGroup, hkilled⟩
  · rw [hsame]
    exact ⟨child, hchild, ChildLater.refl _ child⟩
  · rw [hmarked]
    exact ⟨child, hchild, ChildLater.refl _ child⟩
  · rw [hkilled]
    refine ⟨_, by rw [Run.deliverKill, Run.mapChild, hchild]; rfl, ?_⟩
    dsimp only
    split
    · exact ⟨rfl, by rintro ⟨⟩, .inl⟩
    · exact ChildLater.refl _ child

theorem next_child {P : Child → Prop} {s t : ProcessSystem} {event : Event}
    (hnext : s.next event = some t) (hinv : ∀ id, RunInvariant P (s.runs id)) (id : RunId)
    {child : Child} (hchild : (s.runs id).child = some child) :
    ∃ later, (t.runs id).child = some later ∧
      ChildLater (∃ step, event = .run id step ∧ step.reaps = true) child later := by
  cases event with
  | run other step =>
    obtain ⟨run, hstep, -, -, -, hruns⟩ := ProcessSystem.next_run hnext
    rw [hruns]
    split
    · rename_i heq
      subst heq
      obtain ⟨later, hlater, hrelated⟩ := runStep_child hstep (hinv id) hchild
      refine ⟨later, hlater, hrelated.group, hrelated.stopped, ?_⟩
      intro hwaited
      exact (hrelated.reaped hwaited).imp_right fun hreaps => ⟨step, rfl, hreaps⟩
    · exact ⟨child, hchild, ChildLater.refl _ child⟩
  | cancel other step =>
    obtain ⟨later, hlater, hrelated⟩ :=
      cancelStep_child (ProcessSystem.cancelNext_step hnext) id hchild
    exact ⟨later, hlater, hrelated.group, hrelated.stopped,
      fun hwaited => (hrelated.reaped hwaited).imp_right False.elim⟩
  | _ =>
    obtain rfl := Option.some.inj hnext
    exact ⟨child, hchild, ChildLater.refl _ child⟩

/-- The task keeps this group id of the operation. -/
def Holds (pc : CancelPc) (operation : RunId) (processGroup : Int) : Prop :=
  pc = .signalling operation processGroup ∨ pc = .killing operation processGroup ∨
    ∃ left, pc = .polling operation processGroup left

/-- The task has decided to signal the group of the operation. -/
def Aims (pc : CancelPc) (operation : RunId) (processGroup : Int) : Prop :=
  pc = .signalling operation processGroup ∨ pc = .killing operation processGroup

/-- The task decides, by this step, whether to signal the group of the
operation. -/
def Decides (pc : CancelPc) (event : CancelEvent) (operation : RunId) : Prop :=
  (pc = .reading operation ∧ event = .read) ∨
    ∃ processGroup left, pc = .polling operation processGroup left ∧ left ≤ 1 ∧ event = .poll

/-- The worker does not reap between a decision to signal its child and the
signal, and no such decision falls between the reaping and the update of the
record. -/
def ReapingApart (s : ProcessSystem) : Event → Prop
  | .run id event =>
    event.reaps = true → ∀ canceller processGroup,
      ¬ Aims (s.cancellers canceller).pc id processGroup
  | .cancel canceller event =>
    ∀ operation, Decides (s.cancellers canceller).pc event operation →
      (s.runs operation).status = some true →
      Quiet (fun child => child.waited = false) (s.runs operation)
  | _ => True

/-- The group ids that cancelling tasks keep are those of the children. -/
def GroupsHeld (s : ProcessSystem) : Prop :=
  ∀ canceller operation processGroup, Holds (s.cancellers canceller).pc operation processGroup →
    ∃ child, (s.runs operation).child = some child ∧ child.processGroup = processGroup

/-- No task is about to signal a child that was reaped. -/
structure SignalInvariant (s : ProcessSystem) : Prop where
  runs : ∀ id, RunInvariant (fun _ => True) (s.runs id)
  held : GroupsHeld s
  aimed : ∀ canceller operation processGroup,
    Aims (s.cancellers canceller).pc operation processGroup →
    Quiet (fun child => child.waited = false) (s.runs operation)

theorem groupsHeld_initial : GroupsHeld ProcessSystem.initial := by
  rintro canceller operation processGroup (h | h | ⟨left, h⟩) <;> cases h

theorem signalInvariant_initial : SignalInvariant ProcessSystem.initial where
  runs := fun _ => RunInvariant.initial
  held := groupsHeld_initial
  aimed := by
    rintro canceller operation processGroup (h | h) <;> cases h

theorem lasting_true : Lasting fun _ => True :=
  ⟨fun _ _ => trivial, fun _ => trivial, fun _ _ => trivial⟩

theorem writeFailuresOnly_true (s : ProcessSystem) (event : Event) :
    WriteFailuresOnly (fun _ => True) s event := by
  cases event with
  | run id event => exact fun _ _ _ => trivial
  | _ => trivial

theorem not_holds_advance (canceller : Canceller) (operation : RunId) (processGroup : Int) :
    ¬ Holds canceller.advance.pc operation processGroup := by
  rcases canceller.advance_pc with hdone | ⟨next, rest, -, hadvance⟩
  · rw [hdone]
    rintro (h | h | ⟨left, h⟩) <;> cases h
  · rw [hadvance]
    rintro (h | h | ⟨left, h⟩) <;> cases h

theorem Aims.holds {pc : CancelPc} {operation : RunId} {processGroup : Int}
    (h : Aims pc operation processGroup) : Holds pc operation processGroup :=
  h.imp_right .inl

/-- A task that keeps a group after its step kept it before, or has just read
it from a record in state Running. -/
theorem cancelStep_holds {s s' : ProcessSystem} {id : CancellerId} {event : CancelEvent}
    (hstep : CancelStep s id event s') {operation : RunId} {processGroup : Int}
    (hholds : Holds (s'.cancellers id).pc operation processGroup) :
    Holds (s.cancellers id).pc operation processGroup ∨
      ∃ record, (s.runs operation).record = some record ∧ record.state = .running ∧
        record.processGroup = processGroup := by
  cases hstep with
  | snapshot operations hpc hperm =>
    rw [setCanceller_self] at hholds
    exact absurd hholds (not_holds_advance _ _ _)
  | overAlready target record hpc hrecord hover =>
    rw [setCanceller_self] at hholds
    exact absurd hholds (not_holds_advance _ _ _)
  | polled target group left hpc hover =>
    rw [setCanceller_self] at hholds
    exact absurd hholds (not_holds_advance _ _ _)
  | polledKilled target left hpc =>
    rw [setCanceller_self] at hholds
    exact absurd hholds (not_holds_advance _ _ _)
  | decide target record hpc hrecord hrunning =>
    rw [setCanceller_self] at hholds
    rcases hholds with h | h | ⟨left, h⟩ <;> cases h
    exact .inr ⟨record, hrecord, hrunning, rfl⟩
  | terminate target group hpc =>
    rw [setCanceller_self] at hholds
    rcases hholds with h | h | ⟨left, h⟩ <;> cases h
    exact .inl (.inl hpc)
  | keepPolling target group left after hpc =>
    rw [setCanceller_self] at hholds
    rcases hholds with h | h | ⟨left, h⟩ <;> cases h
    exact .inl (.inr (.inr ⟨_, hpc⟩))
  | escalate target group left hpc hleft hrunning =>
    rw [setCanceller_self] at hholds
    rcases hholds with h | h | ⟨left, h⟩ <;> cases h
    exact .inl (.inr (.inr ⟨_, hpc⟩))
  | _ =>
    rw [setCanceller_self] at hholds
    rcases hholds with h | h | ⟨left, h⟩ <;> cases h

theorem groupsHeld_step {P : Child → Prop} {s t : ProcessSystem} {event : Event}
    (hruns : ∀ id, RunInvariant P (s.runs id)) (hheld : GroupsHeld s)
    (hnext : s.next event = some t) : GroupsHeld t := by
  have hkept : ∀ {operation : RunId} {processGroup : Int},
      (∃ child, (s.runs operation).child = some child ∧ child.processGroup = processGroup) →
      ∃ child, (t.runs operation).child = some child ∧ child.processGroup = processGroup := by
    rintro operation processGroup ⟨child, hchild, hgroup⟩
    obtain ⟨later, hlater, hrelated⟩ := next_child hnext hruns operation hchild
    exact ⟨later, hlater, hrelated.group.trans hgroup⟩
  intro canceller operation processGroup hholds
  cases event with
  | run id step =>
    obtain ⟨run, -, -, hcancellers, -, -⟩ := ProcessSystem.next_run hnext
    rw [hcancellers] at hholds
    exact hkept (hheld canceller operation processGroup hholds)
  | cancel id step =>
    have hstep := ProcessSystem.cancelNext_step hnext
    by_cases hid : canceller = id
    · subst hid
      rcases cancelStep_holds hstep hholds with hbefore | ⟨record, hrecord, hrunning, hgroup⟩
      · exact hkept (hheld canceller operation processGroup hbefore)
      · obtain ⟨child, hchild, hsame⟩ := (hruns operation).group record hrecord hrunning
        exact hkept ⟨child, hchild, hsame.trans hgroup⟩
    · rw [hstep.other hid] at hholds
      exact hkept (hheld canceller operation processGroup hholds)
  | _ =>
    obtain rfl := Option.some.inj hnext
    exact hheld canceller operation processGroup hholds

theorem cancelStep_aims {s s' : ProcessSystem} {id : CancellerId} {event : CancelEvent}
    (hstep : CancelStep s id event s') {operation : RunId} {processGroup : Int}
    (haims : Aims (s'.cancellers id).pc operation processGroup) :
    Decides (s.cancellers id).pc event operation ∧ (s.runs operation).status = some true := by
  cases hstep with
  | snapshot operations hpc hperm =>
    rw [setCanceller_self] at haims
    exact absurd haims.holds (not_holds_advance _ _ _)
  | overAlready target record hpc hrecord hover =>
    rw [setCanceller_self] at haims
    exact absurd haims.holds (not_holds_advance _ _ _)
  | polled target group left hpc hover =>
    rw [setCanceller_self] at haims
    exact absurd haims.holds (not_holds_advance _ _ _)
  | polledKilled target left hpc =>
    rw [setCanceller_self] at haims
    exact absurd haims.holds (not_holds_advance _ _ _)
  | decide target record hpc hrecord hrunning =>
    rw [setCanceller_self] at haims
    rcases haims with h | h <;> cases h
    refine ⟨.inl ⟨hpc, rfl⟩, ?_⟩
    simp [Run.status, hrecord, hrunning]
  | escalate target group left hpc hleft hrunning =>
    rw [setCanceller_self] at haims
    rcases haims with h | h <;> cases h
    exact ⟨.inr ⟨_, left, hpc, hleft, rfl⟩, hrunning⟩
  | _ =>
    rw [setCanceller_self] at haims
    rcases haims with h | h <;> cases h

/-- A child that a task aims at stays unreaped over a step that does not reap
it. -/
theorem unreaped_step {s t : ProcessSystem} {event : Event} (hinv : SignalInvariant s)
    (hnext : s.next event = some t) {operation : RunId} {child : Child}
    (hchild : (s.runs operation).child = some child) (hunreaped : child.waited = false)
    (hother : ∀ step, event = .run operation step → step.reaps = false) :
    Quiet (fun child => child.waited = false) (t.runs operation) := by
  obtain ⟨later, hlater, hrelated⟩ := next_child hnext hinv.runs operation hchild
  intro after hafter
  rw [hlater] at hafter
  obtain rfl := Option.some.inj hafter
  rw [← Bool.not_eq_true]
  intro hwaited
  rcases hrelated.reaped hwaited with hbefore | ⟨step, hevent, hreaps⟩
  · rw [hunreaped] at hbefore
    cases hbefore
  · rw [hother step hevent] at hreaps
    cases hreaps

theorem signalInvariant_step {s t : ProcessSystem} {event : Event} (hinv : SignalInvariant s)
    (hapart : ReapingApart s event) (hnext : s.next event = some t) : SignalInvariant t := by
  have hruns := runs_invariant_step lasting_true hinv.runs (writeFailuresOnly_true s event) hnext
  have haimed : ∀ {canceller : CancellerId} {operation : RunId} {processGroup : Int},
      Aims (s.cancellers canceller).pc operation processGroup →
      (∀ step, event = .run operation step → step.reaps = false) →
      Quiet (fun child => child.waited = false) (t.runs operation) := by
    intro canceller operation processGroup haims hother
    obtain ⟨child, hchild, -⟩ := hinv.held canceller operation processGroup haims.holds
    exact unreaped_step hinv hnext hchild (hinv.aimed _ _ _ haims child hchild) hother
  refine ⟨hruns, groupsHeld_step hinv.runs hinv.held hnext, ?_⟩
  · intro canceller operation processGroup haims
    cases event with
    | run id step =>
      obtain ⟨run, -, -, hcancellers, -, -⟩ := ProcessSystem.next_run hnext
      rw [hcancellers] at haims
      refine haimed haims ?_
      rintro step' hevent
      obtain ⟨rfl, rfl⟩ := Event.run.inj hevent
      rw [← Bool.not_eq_true]
      intro hreaps
      exact hapart hreaps canceller processGroup haims
    | cancel id step =>
      have hstep := ProcessSystem.cancelNext_step hnext
      by_cases hid : canceller = id
      · subst hid
        obtain ⟨hdecides, hstatus⟩ := cancelStep_aims hstep haims
        have hunreaped := hapart operation hdecides hstatus
        obtain ⟨record, hrecord, hrunning⟩ := Option.map_eq_some_iff.mp hstatus
        obtain ⟨child, hchild, -⟩ :=
          (hinv.runs operation).group record hrecord (of_decide_eq_true hrunning)
        exact unreaped_step hinv hnext hchild (hunreaped child hchild) nofun
      · rw [hstep.other hid] at haims
        exact haimed haims nofun
    | _ =>
      obtain rfl := Option.some.inj hnext
      exact hinv.aimed canceller operation processGroup haims

/-- In a run whose steps keep decisions and reaping apart, every signal of a
cancellation goes to the group of its operation's child, and that child was not
reaped. -/
theorem signal_hits_unreaped_child {s t : ProcessSystem} {events : List Event}
    (hapart : AllSteps ProcessSystem.next ReapingApart ProcessSystem.initial events)
    (hrun : exec ProcessSystem.next ProcessSystem.initial events = some s)
    (canceller : CancellerId) (delivered : Bool)
    (hsignal : s.next (.cancel canceller (.signal delivered)) = some t) :
    ∃ operation processGroup child, Aims (s.cancellers canceller).pc operation processGroup ∧
      (s.runs operation).child = some child ∧ child.processGroup = processGroup ∧
      child.waited = false := by
  have hinv : SignalInvariant s :=
    exec_invariant (fun _ _ _ => signalInvariant_step) signalInvariant_initial hapart hrun
  have haims : ∃ operation processGroup, Aims (s.cancellers canceller).pc operation processGroup := by
    change s.cancelNext canceller (.signal delivered) = some t at hsignal
    unfold ProcessSystem.cancelNext at hsignal
    dsimp only at hsignal
    split at hsignal <;> first | contradiction | skip
    · exact ⟨_, _, .inl ‹_›⟩
    · exact ⟨_, _, .inr ‹_›⟩
  obtain ⟨operation, processGroup, haims⟩ := haims
  obtain ⟨child, hchild, hgroup⟩ := hinv.held canceller operation processGroup haims.holds
  exact ⟨operation, processGroup, child, haims, hchild, hgroup,
    hinv.aimed canceller operation processGroup haims child hchild⟩

/-- Neither the worker's reaping nor a look at a record: such an event meets
the condition in any state. -/
def harmless : Event → Bool
  | .run _ event => !event.reaps
  | .cancel _ .read | .cancel _ .poll => false
  | _ => true

theorem reapingApart_of_harmless {s : ProcessSystem} {event : Event}
    (h : harmless event = true) : ReapingApart s event := by
  cases event with
  | run id event =>
    intro hreaps
    simp [harmless, hreaps] at h
  | cancel canceller event =>
    rintro operation (⟨-, rfl⟩ | ⟨_, _, -, -, rfl⟩)
    · cases h
    · cases h
  | _ => trivial

def cancelled : List Event := launched ++ [.cancel 0 (.processCancel 0)]

theorem cancelled_signal_hits_unreaped_child :
    ∃ s t, exec ProcessSystem.next ProcessSystem.initial (cancelled ++ [.cancel 0 .read]) = some s ∧
      s.next (.cancel 0 (.signal true)) = some t ∧
      ∃ operation processGroup child, Aims (s.cancellers 0).pc operation processGroup ∧
        (s.runs operation).child = some child ∧ child.processGroup = processGroup ∧
        child.waited = false := by
  have hharmless : ∀ event ∈ cancelled, harmless event = true := by decide
  have hapart : AllSteps ProcessSystem.next ReapingApart ProcessSystem.initial
      (cancelled ++ [.cancel 0 .read]) := by
    refine AllSteps.append (AllSteps.of_mem ?_ _) ?_
    · intro event hevent s
      exact reapingApart_of_harmless (hharmless event hevent)
    · intro t ht
      refine ⟨?_, fun _ _ => trivial⟩
      have hpc : some (CancelPc.reading 0) = some (t.cancellers 0).pc :=
        congrArg (Option.map fun s : ProcessSystem => (s.cancellers 0).pc) ht
      have hchild : some (some (Child.spawned 7)) = some (t.runs 0).child :=
        congrArg (Option.map fun s : ProcessSystem => (s.runs 0).child) ht
      intro operation hdecides _ child
      rw [← Option.some.inj hpc] at hdecides
      rcases hdecides with ⟨hread, -⟩ | ⟨_, _, hpoll, -⟩
      · obtain rfl := CancelPc.reading.inj hread
        rw [← Option.some.inj hchild]
        intro hsome
        rw [← Option.some.inj hsome]
        rfl
      · cases hpoll
  cases hrun : exec ProcessSystem.next ProcessSystem.initial (cancelled ++ [.cancel 0 .read]) with
  | none => cases congrArg Option.isSome hrun
  | some s =>
    cases hsignal : s.next (.cancel 0 (.signal true)) with
    | none =>
      have hnone := congrArg
        (Option.map fun s : ProcessSystem => (s.next (.cancel 0 (.signal true))).isSome) hrun
      rw [Option.map_some, hsignal] at hnone
      cases hnone
    | some t => exact ⟨s, t, rfl, hsignal, signal_hits_unreaped_child hapart hrun 0 true hsignal⟩

/-- The task has read the record when the child exits and the worker reaps it:
SIGTERM then goes to a process group id that is free. -/
theorem reaped_child_signalled :
    ∃ s t, exec ProcessSystem.next ProcessSystem.initial
        (cancelled ++ [.cancel 0 .read, .run 0 .exit, .run 0 (.streamDone true),
          .run 0 (.streamDone true), .run 0 (.joinReaders true), .run 0 (.wait (some 0))]) = some s ∧
      (s.cancellers 0).pc = .signalling 0 7 ∧
      (s.runs 0).child = some ⟨7, false, false, true⟩ ∧
      s.next (.cancel 0 (.signal true)) = some t ∧
      (t.cancellers 0).pc = .polling 0 7 cancelGraceSteps :=
  ⟨_, _, rfl, rfl, rfl, rfl, rfl⟩

end KodeGpt.CancellationSignals
