import Mathlib.Data.List.Perm.Basic
import KodeGpt.WorkspaceContexts

/-!
The processes of one workspace capability: the threads that serve
`process.run`, the tasks that cancel an operation or all operations of the
workspace, and the life cycle of the workspace, taking their steps in any
order. A lock is held within one step only.
-/

namespace KodeGpt.ProcessOperations

open WorkspaceContexts

inductive ProcessState
  | running
  | completed
  | failed
  | cancelled
  deriving DecidableEq, Repr

/-- The part of an operation record that decides about its process. -/
structure ProcessOperationRecord where
  processGroup : Int
  state : ProcessState
  exitCode : Option Int
  cancelRequested : Bool
  deriving DecidableEq, Repr

def completeOperation (record : ProcessOperationRecord) (exitCode : Int) :
    ProcessOperationRecord :=
  { record with
    exitCode := some exitCode
    state :=
      if record.cancelRequested then .cancelled
      else if exitCode = 0 then .completed
      else .failed
    processGroup := 0 }

def markFailed (record : ProcessOperationRecord) : ProcessOperationRecord :=
  { record with
    state := if record.cancelRequested then .cancelled else .failed
    processGroup := 0 }

@[simp] theorem completeOperation_state_ne_running (record : ProcessOperationRecord)
    (exitCode : Int) : (completeOperation record exitCode).state ≠ .running := by
  unfold completeOperation
  dsimp only
  split
  · simp
  · split <;> simp

@[simp] theorem markFailed_state_ne_running (record : ProcessOperationRecord) :
    (markFailed record).state ≠ .running := by
  unfold markFailed
  dsimp only
  split <;> simp

/-- A sandboxed child: whether a process of its group can still run, whether
the group was sent SIGKILL, and whether the worker's `wait` has returned, so
that the id of the group is free for any other process of the host. -/
structure Child where
  processGroup : Int
  running : Bool
  killed : Bool
  waited : Bool
  deriving DecidableEq, Repr

namespace Child

def spawned (processGroup : Int) : Child := ⟨processGroup, true, false, false⟩

def exit (child : Child) : Child := { child with running := false }

def kill (child : Child) : Child := { child with running := false, killed := true }

def reap (child : Child) : Child := { child with waited := true }

end Child

/-- What a thread that terminates its child has registered before. -/
inductive Registered
  | nothing
  | execution
  | operation
  deriving DecidableEq, Repr

/-- Where the thread that serves a `process.run` stands. -/
inductive RunPc
  | idle
  | requested
  | admitted
  | spawned
  | executing
  | spooled
  | taking
  | capturing (completed : Nat) (readFailed : Bool)
  | joining (readFailed : Bool)
  | waiting
  | captured (exitCode : Int)
  | finished (exitCode : Option Int)
  | unlisted (exitCode : Option Int)
  | terminating (registered : Registered)
  | reaping (registered : Registered)
  | reaped (registered : Registered)
  | returned
  deriving DecidableEq, Repr

/-- An operation's entry in the execution registry. -/
inductive ExecutionEntry
  | absent
  | listed
  | removed
  deriving DecidableEq, Repr

structure Run where
  pc : RunPc
  child : Option Child
  execution : ExecutionEntry
  record : Option ProcessOperationRecord
  deriving DecidableEq, Repr

namespace Run

def initial : Run := ⟨.idle, none, .absent, none⟩

def mapChild (run : Run) (f : Child → Child) : Run := { run with child := run.child.map f }

/-- `wait` returns once the child has exited. -/
def waitForChild (run : Run) : Option Run :=
  match run.child with
  | none => none
  | some child => if child.running then none else some { run with child := some child.reap }

def settle (record : ProcessOperationRecord) : Option Int → ProcessOperationRecord
  | some exitCode => completeOperation record exitCode
  | none => markFailed record

end Run

theorem settle_state_ne_running (record : ProcessOperationRecord) (exitCode : Option Int) :
    (Run.settle record exitCode).state ≠ .running := by
  cases exitCode with
  | none => exact markFailed_state_ne_running record
  | some code => exact completeOperation_state_ne_running record code

/-- The steps of the thread, with the outcome of each call it makes, and the
exit of the child. -/
inductive RunEvent
  | request
  | checkPolicy (granted : Bool)
  | launch (processGroup : Option Int)
  | register (available : Bool)
  | createSpool (created : Bool)
  | insertRecord (available : Bool)
  | takePipes (taken : Bool)
  | chunk (written : Bool)
  | streamDone (ok : Bool)
  | channelClosed
  | joinReaders (ok : Bool)
  | wait (exitCode : Option Int)
  | finish (ok : Bool)
  | killChild
  | waitChild (ok : Bool)
  | removeExecution
  | settle
  | returnError
  | exit
  deriving DecidableEq, Repr

/-- One step of the thread. `ready` is the answer of the workspace registry to
`clone_ready_policy`. A launch that fails has left no process behind, and a
thread may always signal the child it has not waited for. -/
def Run.next (ready : Bool) (run : Run) (event : RunEvent) : Option Run :=
  match run.pc, event with
  | _, .exit => some (run.mapChild Child.exit)
  | .idle, .request => some { run with pc := .requested }
  | .requested, .checkPolicy granted =>
    some { run with pc := if ready && granted then .admitted else .returned }
  | .admitted, .launch none => some { run with pc := .returned }
  | .admitted, .launch (some processGroup) =>
    if 0 < processGroup then
      some { run with pc := .spawned, child := some (Child.spawned processGroup) }
    else none
  | .spawned, .register true => some { run with pc := .executing, execution := .listed }
  | .spawned, .register false => some { run with pc := .terminating .nothing }
  | .executing, .createSpool true => some { run with pc := .spooled }
  | .executing, .createSpool false => some { run with pc := .terminating .execution }
  | .spooled, .insertRecord true =>
    some { run with
      pc := .taking
      record := run.child.map fun child => ⟨child.processGroup, .running, none, false⟩ }
  | .spooled, .insertRecord false => some { run with pc := .terminating .execution }
  | .taking, .takePipes true => some { run with pc := .capturing 0 false }
  | .taking, .takePipes false => some { run with pc := .terminating .operation }
  | .capturing completed readFailed, .chunk true =>
    some { run with pc := .capturing completed readFailed }
  | .capturing _ _, .chunk false =>
    -- a failing spool write leaves the capture at once and is not a reason to terminate
    some { run with pc := .finished none }
  | .capturing completed readFailed, .streamDone ok =>
    some { run with
      pc :=
        if completed + 1 < 2 then .capturing (completed + 1) (readFailed || !ok)
        else .joining (readFailed || !ok) }
  | .capturing _ _, .channelClosed => some { run with pc := .joining true }
  | .joining readFailed, .joinReaders ok =>
    some { run with pc := if !ok || readFailed then .terminating .operation else .waiting }
  | .waiting, .wait (some exitCode) =>
    run.waitForChild.map fun run => { run with pc := .captured exitCode }
  | .waiting, .wait none => some { run with pc := .terminating .operation }
  | .captured exitCode, .finish ok =>
    some { run with pc := .finished (if ok then some exitCode else none) }
  | .finished exitCode, .removeExecution =>
    some { run with pc := .unlisted exitCode, execution := .removed }
  | .unlisted exitCode, .settle =>
    some { run with
      pc := .returned, record := run.record.map fun record => Run.settle record exitCode }
  | .terminating registered, .killChild =>
    some { run.mapChild Child.kill with pc := .reaping registered }
  | .reaping registered, .waitChild true =>
    run.waitForChild.map fun run => { run with pc := .reaped registered }
  | .reaping registered, .waitChild false => some { run with pc := .reaped registered }
  | .reaped .nothing, .returnError => some { run with pc := .returned }
  | .reaped .execution, .removeExecution =>
    some { run with pc := .returned, execution := .removed }
  | .reaped .operation, .removeExecution =>
    some { run with pc := .unlisted none, execution := .removed }
  | _, _ => none

def fresh : RunPc → Bool
  | .idle | .requested | .admitted => true
  | _ => false

/-- The thread is past its child: it has killed it, waited for it, or given up
on its output. -/
def settling : RunPc → Bool
  | .reaping _ | .reaped _ | .captured _ | .finished _ | .unlisted _ | .returned => true
  | _ => false

def RunEvent.reaps : RunEvent → Bool
  | .wait (some _) | .waitChild true => true
  | _ => false

theorem waitForChild_eq_some {run run' : Run} (h : run.waitForChild = some run') :
    ∃ child, run.child = some child ∧ child.running = false ∧
      run' = run.mapChild Child.reap := by
  unfold Run.waitForChild at h
  split at h
  · cases h
  · rename_i child hchild
    split at h
    · cases h
    · rename_i hrunning
      obtain rfl := Option.some.inj h
      exact ⟨child, hchild, by simpa using hrunning, by simp [Run.mapChild, hchild]⟩

inductive RunStep (ready : Bool) (run : Run) : RunEvent → Run → Prop
  | exit : RunStep ready run .exit (run.mapChild Child.exit)
  | move (event : RunEvent) (pc : RunPc)
      (hfresh : fresh pc = true → fresh run.pc = true)
      (hsettling : settling pc = true →
        settling run.pc = true ∨ fresh run.pc = true ∨ event = .chunk false)
      (hadmitted : pc = .admitted → ready = true) :
      RunStep ready run event { run with pc }
  | launch (processGroup : Int) (hpc : run.pc = .admitted) :
      RunStep ready run (.launch (some processGroup))
        { run with pc := .spawned, child := some (Child.spawned processGroup) }
  | register (hpc : run.pc = .spawned) :
      RunStep ready run (.register true) { run with pc := .executing, execution := .listed }
  | insertRecord (hpc : run.pc = .spooled) :
      RunStep ready run (.insertRecord true)
        { run with
          pc := .taking
          record := run.child.map fun child => ⟨child.processGroup, .running, none, false⟩ }
  | waitForChild (event : RunEvent) (pc : RunPc) (child : Child) (hevent : event.reaps = true)
      (hchild : run.child = some child) (hrunning : child.running = false)
      (hpc : fresh pc = false) :
      RunStep ready run event { run.mapChild Child.reap with pc }
  | killChild (registered : Registered) (hpc : run.pc = .terminating registered) :
      RunStep ready run .killChild { run.mapChild Child.kill with pc := .reaping registered }
  | removeExecution (pc : RunPc) (hsettling : settling run.pc = true) (hpc : fresh pc = false) :
      RunStep ready run .removeExecution { run with pc, execution := .removed }
  | settle (exitCode : Option Int) (hpc : run.pc = .unlisted exitCode) :
      RunStep ready run .settle
        { run with
          pc := .returned, record := run.record.map fun record => Run.settle record exitCode }

theorem Run.next_step {ready : Bool} {run run' : Run} {event : RunEvent}
    (h : run.next ready event = some run') : RunStep ready run event run' := by
  have hmove : ∀ {event : RunEvent} {pc : RunPc},
      some { run with pc } = some run' →
      (fresh pc = true → fresh run.pc = true) →
      (settling pc = true →
        settling run.pc = true ∨ fresh run.pc = true ∨ event = .chunk false) →
      (pc = .admitted → ready = true) → RunStep ready run event run' := by
    intro event pc hsome hfresh hsettling hadmitted
    obtain rfl := Option.some.inj hsome
    exact .move event pc hfresh hsettling hadmitted
  unfold Run.next at h
  split at h
  case h_1 =>
    obtain rfl := Option.some.inj h
    exact .exit
  case h_2 hpc => exact hmove h (by simp [hpc, fresh]) nofun nofun
  case h_3 granted hpc =>
    refine hmove h (by simp [hpc, fresh]) (by simp [hpc, fresh]) ?_
    cases ready <;> cases granted <;> simp
  case h_4 hpc => exact hmove h nofun (by simp [hpc, fresh]) nofun
  case h_5 processGroup hpc =>
    split at h
    · obtain rfl := Option.some.inj h
      exact .launch processGroup hpc
    · cases h
  case h_6 hpc =>
    obtain rfl := Option.some.inj h
    exact .register hpc
  case h_10 hpc =>
    obtain rfl := Option.some.inj h
    exact .insertRecord hpc
  case h_15 hpc => exact hmove h nofun (fun _ => .inr (.inr rfl)) nofun
  case h_16 completed readFailed ok hpc =>
    refine hmove h ?_ ?_ ?_ <;> split <;> simp [fresh, settling]
  case h_18 readFailed ok hpc =>
    refine hmove h ?_ ?_ ?_ <;> split <;> simp [fresh, settling]
  case h_19 exitCode hpc =>
    obtain ⟨reaped, hreap, rfl⟩ := Option.map_eq_some_iff.mp h
    obtain ⟨child, hchild, hrunning, rfl⟩ := waitForChild_eq_some hreap
    exact .waitForChild _ _ child rfl hchild hrunning rfl
  case h_21 exitCode ok hpc => exact hmove h nofun (fun _ => .inl (by rw [hpc]; rfl)) nofun
  case h_22 exitCode hpc =>
    obtain rfl := Option.some.inj h
    exact .removeExecution _ (by rw [hpc]; rfl) rfl
  case h_23 exitCode hpc =>
    obtain rfl := Option.some.inj h
    exact .settle exitCode hpc
  case h_24 registered hpc =>
    obtain rfl := Option.some.inj h
    exact .killChild registered hpc
  case h_25 registered hpc =>
    obtain ⟨reaped, hreap, rfl⟩ := Option.map_eq_some_iff.mp h
    obtain ⟨child, hchild, hrunning, rfl⟩ := waitForChild_eq_some hreap
    exact .waitForChild _ _ child rfl hchild hrunning rfl
  case h_26 registered hpc => exact hmove h nofun (fun _ => .inl (by rw [hpc]; rfl)) nofun
  case h_27 hpc => exact hmove h nofun (fun _ => .inl (by rw [hpc]; rfl)) nofun
  case h_28 hpc =>
    obtain rfl := Option.some.inj h
    exact .removeExecution _ (by rw [hpc]; rfl) rfl
  case h_29 hpc =>
    obtain rfl := Option.some.inj h
    exact .removeExecution _ (by rw [hpc]; rfl) rfl
  case h_30 => cases h
  -- the others move the thread from one position before its child's end to another
  all_goals exact hmove h nofun nofun nofun

abbrev RunId := Nat

abbrev CancellerId := Nat

inductive CancelError
  | workspaceNotReady
  | operationNotFound
  | cancellationFailed
  deriving DecidableEq, Repr

def cancelGraceSteps : Nat := 50

/-- Where a task that cancels operations stands. The process group is the one
it has read from the record. -/
inductive CancelPc
  | idle
  | sweeping
  | reading (operation : RunId)
  | signalling (operation : RunId) (processGroup : Int)
  | polling (operation : RunId) (processGroup : Int) (left : Nat)
  | killing (operation : RunId) (processGroup : Int)
  | pollingKilled (operation : RunId) (left : Nat)
  | done (error : Option CancelError)
  deriving DecidableEq, Repr

/-- A task that serves `process.cancel`, or `workspace.cancel_executions` with
the operations that remain of its snapshot. -/
structure Canceller where
  sweep : Bool
  pc : CancelPc
  rest : List RunId
  deriving DecidableEq, Repr

namespace Canceller

def initial : Canceller := ⟨false, .idle, []⟩

def advance (canceller : Canceller) : Canceller :=
  match canceller.rest with
  | [] => { canceller with pc := .done none }
  | operation :: rest => { canceller with pc := .reading operation, rest }

def fail (canceller : Canceller) (error : CancelError) : Canceller :=
  { canceller with pc := .done (some error) }

end Canceller

inductive CancelEvent
  | processCancel (operation : RunId)
  | cancelExecutions
  | snapshot (operations : List RunId)
  | read
  | signal (delivered : Bool)
  | poll
  deriving DecidableEq, Repr

/-- Everything about one capability. Operation ids are drawn from a counter,
so every run has its own; `recorded` are the keys of the record map. -/
structure ProcessSystem where
  phase : Option WorkspacePhase
  runs : RunId → Run
  recorded : List RunId
  cancellers : CancellerId → Canceller

inductive Event
  | activate
  | beginClose
  | unregister
  | run (id : RunId) (event : RunEvent)
  | cancel (id : CancellerId) (event : CancelEvent)

namespace ProcessSystem

def initial : ProcessSystem where
  phase := some .opening
  runs := fun _ => Run.initial
  recorded := []
  cancellers := fun _ => Canceller.initial

def setRun (s : ProcessSystem) (id : RunId) (run : Run) : ProcessSystem :=
  { s with runs := Function.update s.runs id run }

def setCanceller (s : ProcessSystem) (id : CancellerId) (canceller : Canceller) : ProcessSystem :=
  { s with cancellers := Function.update s.cancellers id canceller }

def operationRunning (s : ProcessSystem) (id : RunId) : Bool :=
  match (s.runs id).record with
  | some record => record.state = .running
  | none => false

def runningOperations (s : ProcessSystem) : List RunId := s.recorded.filter s.operationRunning

end ProcessSystem

def Run.deliverKill (processGroup : Int) (run : Run) : Run :=
  run.mapChild fun child =>
    if child.processGroup = processGroup ∧ child.waited = false then child.kill else child

/-- Whether `kill_process_group` may give this result: a group id that is not
positive is refused, the signal to a child that was not waited for arrives,
and one to an id that is free may reach anything or nothing. -/
def killOutcome (run : Run) (processGroup : Int) (delivered : Bool) : Bool :=
  if processGroup ≤ 0 then !delivered
  else delivered || run.child.all fun child => child.waited

def Run.requestCancel (run : Run) : Run :=
  { run with record := run.record.map fun record => { record with cancelRequested := true } }

/-- The result of polling: `none` is an error, otherwise whether the operation
still runs. -/
def Run.status (run : Run) : Option Bool :=
  run.record.map fun record => decide (record.state = .running)

namespace ProcessSystem

def cancelNext (s : ProcessSystem) (id : CancellerId) (event : CancelEvent) :
    Option ProcessSystem :=
  let canceller := s.cancellers id
  match canceller.pc, event with
  | .idle, .processCancel operation =>
    some (s.setCanceller id
      (if s.phase = some .ready then { sweep := false, pc := .reading operation, rest := [] }
      else { sweep := false, pc := .done (some .workspaceNotReady), rest := [] }))
  | .idle, .cancelExecutions =>
    some (s.setCanceller id
      (if s.phase = some .closing then { sweep := true, pc := .sweeping, rest := [] }
      else { sweep := true, pc := .done (some .workspaceNotReady), rest := [] }))
  | .sweeping, .snapshot operations =>
    if operations.isPerm s.runningOperations then
      some (s.setCanceller id { canceller with rest := operations }.advance)
    else none
  | .reading operation, .read =>
    match (s.runs operation).record with
    | none => some (s.setCanceller id (canceller.fail .operationNotFound))
    | some record =>
      if record.state ≠ .running then some (s.setCanceller id canceller.advance)
      else
        some ((s.setRun operation (s.runs operation).requestCancel).setCanceller id
          { canceller with pc := .signalling operation record.processGroup })
  | .signalling operation processGroup, .signal delivered =>
    if killOutcome (s.runs operation) processGroup delivered then
      some (s.setCanceller id
        (if delivered then
          { canceller with pc := .polling operation processGroup cancelGraceSteps }
        else canceller.fail .cancellationFailed))
    else none
  | .polling operation processGroup left, .poll =>
    match (s.runs operation).status with
    | none => some (s.setCanceller id (canceller.fail .operationNotFound))
    | some false => some (s.setCanceller id canceller.advance)
    | some true =>
      some (s.setCanceller id
        { canceller with
          pc :=
            if left ≤ 1 then .killing operation processGroup
            else .polling operation processGroup (left - 1) })
  | .killing operation processGroup, .signal delivered =>
    if killOutcome (s.runs operation) processGroup delivered then
      if delivered then
        some ({ s with runs := fun run => (s.runs run).deliverKill processGroup }.setCanceller id
          { canceller with pc := .pollingKilled operation cancelGraceSteps })
      else some (s.setCanceller id (canceller.fail .cancellationFailed))
    else none
  | .pollingKilled operation left, .poll =>
    match (s.runs operation).status with
    | none => some (s.setCanceller id (canceller.fail .operationNotFound))
    | some false => some (s.setCanceller id canceller.advance)
    | some true =>
      -- after the last poll the status is answered as it is
      some (s.setCanceller id
        (if left = 0 then canceller.advance
        else { canceller with pc := .pollingKilled operation (left - 1) }))
  | _, _ => none

def next (s : ProcessSystem) : Event → Option ProcessSystem
  | .activate => some { s with phase := if s.phase = some .opening then some .ready else s.phase }
  | .beginClose => some { s with phase := if s.phase = some .ready then some .closing else s.phase }
  | .unregister => some { s with phase := if s.phase = some .ready then s.phase else none }
  | .run id event =>
    ((s.runs id).next (s.phase = some .ready) event).map fun run =>
      { s.setRun id run with
        recorded := if event = .insertRecord true then id :: s.recorded else s.recorded }
  | .cancel id event => s.cancelNext id event

end ProcessSystem

/-- Everything a step of a cancelling task can do. -/
inductive CancelStep (s : ProcessSystem) (id : CancellerId) : CancelEvent → ProcessSystem → Prop
  | processCancel (operation : RunId) (hpc : (s.cancellers id).pc = .idle) :
      CancelStep s id (.processCancel operation)
        (s.setCanceller id { sweep := false, pc := .reading operation, rest := [] })
  | cancelExecutions (hpc : (s.cancellers id).pc = .idle) (hphase : s.phase = some .closing) :
      CancelStep s id .cancelExecutions
        (s.setCanceller id { sweep := true, pc := .sweeping, rest := [] })
  | fail (event : CancelEvent) (sweep : Bool) (error : CancelError) (rest : List RunId)
      (hpc : (s.cancellers id).pc ≠ .done none) :
      CancelStep s id event (s.setCanceller id { sweep, pc := .done (some error), rest })
  | snapshot (operations : List RunId) (hpc : (s.cancellers id).pc = .sweeping)
      (hperm : operations.Perm s.runningOperations) :
      CancelStep s id (.snapshot operations)
        (s.setCanceller id { s.cancellers id with rest := operations }.advance)
  | overAlready (operation : RunId) (record : ProcessOperationRecord)
      (hpc : (s.cancellers id).pc = .reading operation)
      (hrecord : (s.runs operation).record = some record) (hover : record.state ≠ .running) :
      CancelStep s id .read (s.setCanceller id (s.cancellers id).advance)
  | decide (operation : RunId) (record : ProcessOperationRecord)
      (hpc : (s.cancellers id).pc = .reading operation)
      (hrecord : (s.runs operation).record = some record) (hrunning : record.state = .running) :
      CancelStep s id .read
        ((s.setRun operation (s.runs operation).requestCancel).setCanceller id
          { s.cancellers id with pc := .signalling operation record.processGroup })
  | terminate (operation : RunId) (processGroup : Int)
      (hpc : (s.cancellers id).pc = .signalling operation processGroup) :
      CancelStep s id (.signal true)
        (s.setCanceller id
          { s.cancellers id with pc := .polling operation processGroup cancelGraceSteps })
  | polled (operation : RunId) (processGroup : Int) (left : Nat)
      (hpc : (s.cancellers id).pc = .polling operation processGroup left)
      (hover : (s.runs operation).status = some false) :
      CancelStep s id .poll (s.setCanceller id (s.cancellers id).advance)
  | keepPolling (operation : RunId) (processGroup : Int) (left after : Nat)
      (hpc : (s.cancellers id).pc = .polling operation processGroup left) :
      CancelStep s id .poll
        (s.setCanceller id { s.cancellers id with pc := .polling operation processGroup after })
  | escalate (operation : RunId) (processGroup : Int) (left : Nat)
      (hpc : (s.cancellers id).pc = .polling operation processGroup left) (hleft : left ≤ 1)
      (hrunning : (s.runs operation).status = some true) :
      CancelStep s id .poll
        (s.setCanceller id { s.cancellers id with pc := .killing operation processGroup })
  | kill (operation : RunId) (processGroup : Int)
      (hpc : (s.cancellers id).pc = .killing operation processGroup) :
      CancelStep s id (.signal true)
        ({ s with runs := fun run => (s.runs run).deliverKill processGroup }.setCanceller id
          { s.cancellers id with pc := .pollingKilled operation cancelGraceSteps })
  | polledKilled (operation : RunId) (left : Nat)
      (hpc : (s.cancellers id).pc = .pollingKilled operation left) :
      CancelStep s id .poll (s.setCanceller id (s.cancellers id).advance)
  | keepPollingKilled (operation : RunId) (left after : Nat)
      (hpc : (s.cancellers id).pc = .pollingKilled operation left) :
      CancelStep s id .poll
        (s.setCanceller id { s.cancellers id with pc := .pollingKilled operation after })

theorem ProcessSystem.cancelNext_step {s s' : ProcessSystem} {id : CancellerId}
    {event : CancelEvent} (h : s.cancelNext id event = some s') : CancelStep s id event s' := by
  unfold ProcessSystem.cancelNext at h
  dsimp only at h
  split at h
  case h_1 operation hpc =>
    obtain rfl := Option.some.inj h
    split
    · exact .processCancel operation hpc
    · exact .fail _ _ _ _ (by rw [hpc]; nofun)
  case h_2 hpc =>
    obtain rfl := Option.some.inj h
    split
    · exact .cancelExecutions hpc ‹_›
    · exact .fail _ _ _ _ (by rw [hpc]; nofun)
  case h_3 operations hpc =>
    split at h
    · obtain rfl := Option.some.inj h
      exact .snapshot operations hpc (List.isPerm_iff.mp ‹_›)
    · cases h
  case h_4 operation hpc =>
    split at h
    · obtain rfl := Option.some.inj h
      exact .fail _ _ _ _ (by rw [hpc]; nofun)
    · rename_i record hrecord
      split at h
      · obtain rfl := Option.some.inj h
        exact .overAlready operation record hpc hrecord ‹_›
      · obtain rfl := Option.some.inj h
        exact .decide operation record hpc hrecord (not_not.mp ‹_›)
  case h_5 operation processGroup delivered hpc =>
    split at h
    · obtain rfl := Option.some.inj h
      cases delivered with
      | false => exact .fail _ _ _ _ (by rw [hpc]; nofun)
      | true => exact .terminate operation processGroup hpc
    · cases h
  case h_6 operation processGroup left hpc =>
    split at h
    · obtain rfl := Option.some.inj h
      exact .fail _ _ _ _ (by rw [hpc]; nofun)
    · obtain rfl := Option.some.inj h
      exact .polled operation processGroup left hpc ‹_›
    · obtain rfl := Option.some.inj h
      split
      · exact .escalate operation processGroup left hpc ‹_› ‹_›
      · exact .keepPolling operation processGroup left _ hpc
  case h_7 operation processGroup delivered hpc =>
    split at h
    · split at h
      · obtain rfl := Option.some.inj h
        obtain rfl : delivered = true := ‹_›
        exact .kill operation processGroup hpc
      · obtain rfl := Option.some.inj h
        exact .fail _ _ _ _ (by rw [hpc]; nofun)
    · cases h
  case h_8 operation left hpc =>
    split at h
    · obtain rfl := Option.some.inj h
      exact .fail _ _ _ _ (by rw [hpc]; nofun)
    · obtain rfl := Option.some.inj h
      exact .polledKilled operation left hpc
    · obtain rfl := Option.some.inj h
      split
      · exact .polledKilled operation left hpc
      · exact .keepPollingKilled operation left _ hpc
  case h_9 => cases h

@[simp] theorem setCanceller_runs (s : ProcessSystem) (id : CancellerId) (canceller : Canceller) :
    (s.setCanceller id canceller).runs = s.runs := rfl

@[simp] theorem setCanceller_phase (s : ProcessSystem) (id : CancellerId) (canceller : Canceller) :
    (s.setCanceller id canceller).phase = s.phase := rfl

@[simp] theorem setCanceller_recorded (s : ProcessSystem) (id : CancellerId)
    (canceller : Canceller) : (s.setCanceller id canceller).recorded = s.recorded := rfl

theorem setCanceller_cancellers (s : ProcessSystem) (id other : CancellerId)
    (canceller : Canceller) : (s.setCanceller id canceller).cancellers other =
      if other = id then canceller else s.cancellers other := by
  simp [ProcessSystem.setCanceller, Function.update_apply]

@[simp] theorem setCanceller_self (s : ProcessSystem) (id : CancellerId) (canceller : Canceller) :
    (s.setCanceller id canceller).cancellers id = canceller := by
  simp [setCanceller_cancellers]

theorem CancelStep.other {s s' : ProcessSystem} {id : CancellerId} {event : CancelEvent}
    (h : CancelStep s id event s') {other : CancellerId} (hother : other ≠ id) :
    s'.cancellers other = s.cancellers other := by
  cases h <;> simp [setCanceller_cancellers, hother, ProcessSystem.setRun]

theorem CancelStep.recorded {s s' : ProcessSystem} {id : CancellerId} {event : CancelEvent}
    (h : CancelStep s id event s') : s'.recorded = s.recorded := by
  cases h <;> rfl

theorem CancelStep.phase {s s' : ProcessSystem} {id : CancellerId} {event : CancelEvent}
    (h : CancelStep s id event s') : s'.phase = s.phase := by
  cases h <;> rfl

theorem Canceller.advance_pc (canceller : Canceller) :
    canceller.advance.pc = .done none ∨
      ∃ operation rest, canceller.rest = operation :: rest ∧
        canceller.advance = { canceller with pc := .reading operation, rest } := by
  unfold Canceller.advance
  split
  · exact .inl rfl
  · exact .inr ⟨_, _, ‹_›, rfl⟩

@[simp] theorem setRun_cancellers (s : ProcessSystem) (id : RunId) (run : Run) :
    (s.setRun id run).cancellers = s.cancellers := rfl

@[simp] theorem setRun_phase (s : ProcessSystem) (id : RunId) (run : Run) :
    (s.setRun id run).phase = s.phase := rfl

theorem setRun_runs (s : ProcessSystem) (id other : RunId) (run : Run) :
    (s.setRun id run).runs other = if other = id then run else s.runs other := by
  simp [ProcessSystem.setRun, Function.update_apply]

/-- A cancelling task marks the record it is about to cancel and kills; it does
nothing else to a run. -/
theorem CancelStep.run {s s' : ProcessSystem} {id : CancellerId} {event : CancelEvent}
    (h : CancelStep s id event s') (operation : RunId) :
    s'.runs operation = s.runs operation ∨
      s'.runs operation = (s.runs operation).requestCancel ∨
      ∃ processGroup, s'.runs operation = (s.runs operation).deliverKill processGroup := by
  cases h with
  | decide target record hpc hrecord hrunning =>
    rw [setCanceller_runs, setRun_runs]
    split
    · rename_i htarget
      rw [htarget]
      exact .inr (.inl rfl)
    · exact .inl rfl
  | kill target processGroup hpc => exact .inr (.inr ⟨processGroup, rfl⟩)
  | _ => exact .inl rfl

theorem ProcessSystem.next_run {s t : ProcessSystem} {id : RunId} {event : RunEvent}
    (h : s.next (.run id event) = some t) :
    ∃ run, RunStep (s.phase = some .ready) (s.runs id) event run ∧ t.phase = s.phase ∧
      t.cancellers = s.cancellers ∧
      t.recorded = (if event = .insertRecord true then id :: s.recorded else s.recorded) ∧
      ∀ other, t.runs other = if other = id then run else s.runs other := by
  obtain ⟨run, hrun, rfl⟩ := Option.map_eq_some_iff.mp h
  exact ⟨run, Run.next_step hrun, rfl, rfl, rfl, fun other => setRun_runs s id other run⟩

end KodeGpt.ProcessOperations
