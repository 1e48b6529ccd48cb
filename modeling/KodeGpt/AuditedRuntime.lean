import KodeGpt.AuditOrdering
import KodeGpt.AuditSink
import KodeGpt.TransitionSystem

/-!
Requests in any interleaving over one audit sink, and the order of records,
effects and responses over whole runs.
-/

namespace KodeGpt.AuditedRuntime

open AuditOrdering AuditRecords AuditSink AuditedDispatch FallibleActions JsonText MonitoredPrograms
open PolicyRestriction RpcResponses TransitionSystem WorkspaceContexts

section Runtime

variable {A : Type}

/-- A request that is being served: what is left of its path, and the threads it
has started. -/
structure Task (A : Type) where
  program : Dispatch A Json
  workers : List (HostProgram A Unit)

/-- The sink, the requests in the order of their arrival, and everything they
have done, each step with the number of its request. -/
structure Runtime (A : Type) where
  host : AuditHost
  tasks : List (Task A)
  log : List (Nat × Step)

/-- The surroundings' answers to the next call, whichever call that is. -/
structure Oracle (A : Type) where
  now : Nat
  failing : Failing
  policy : Option (Except WorkspaceRegistryError RuntimePolicy)
  answer : A

inductive Event (A : Type) where
  | receive (request : Request A)
  | advance (index : Nat) (oracle : Oracle A)
  | work (index worker : Nat) (answer : A)

def appendRecord (config : AuditSinkConfig) (host : AuditHost) (record : AuditRecord)
    (failing : Failing) : Bool × AuditHost :=
  match append config failing record host with
  | .ok _ after => (true, after)
  | .error _ after => (false, after)

def Oracle.reply (config : AuditSinkConfig) (oracle : Oracle A) (host : AuditHost) :
    (op : Op A) → Answer op × AuditHost
  | .append _ _ record => appendRecord config host (record oracle.now) oracle.failing
  | .control record => appendRecord config host (record oracle.now) oracle.failing
  | .readPolicy _ => (oracle.policy, host)
  | .effect => (oracle.answer, host)
  | .spawn _ => ((), host)

def spawned : Op A → List (HostProgram A Unit)
  | .spawn worker => [worker]
  | _ => []

def traceOf (index : Nat) (log : List (Nat × Step)) : List Step :=
  log.filterMap fun entry => if entry.1 = index then some entry.2 else none

namespace Runtime

def start (failing : Failing) : Runtime A where
  host := openInternal failing
    { files := fun _ => none, sink := { file := false, bytesWritten := 0, healthy := false } }
  tasks := []
  log := []

def receive (runtime : Runtime A) (request : Request A) : Runtime A :=
  { runtime with tasks := runtime.tasks ++ [{ program := dispatchOne request, workers := [] }] }

def advance (config : AuditSinkConfig) (runtime : Runtime A) (index : Nat) (oracle : Oracle A) :
    Runtime A :=
  match runtime.tasks[index]? with
  | none => runtime
  | some task =>
    match task.program with
    | .done _ => runtime
    | .call op next =>
      let reply := oracle.reply config runtime.host op
      { host := reply.2
        tasks := runtime.tasks.set index
          { program := next reply.1, workers := task.workers ++ spawned op }
        log := runtime.log ++ (stepOf op reply.1).toList.map fun step => (index, step) }

def work (runtime : Runtime A) (index worker : Nat) (answer : A) : Runtime A :=
  match runtime.tasks[index]? with
  | none => runtime
  | some task =>
    match task.workers[worker]? with
    | some (.call () next) =>
      { runtime with
        tasks := runtime.tasks.set index
          { task with workers := task.workers.set worker (next answer) }
        log := runtime.log ++ [(index, .effect)] }
    | _ => runtime

def step (config : AuditSinkConfig) (runtime : Runtime A) : Event A → Runtime A
  | .receive request => runtime.receive request
  | .advance index oracle => runtime.advance config index oracle
  | .work index worker answer => runtime.work index worker answer

def run (config : AuditSinkConfig) (runtime : Runtime A) (events : List (Event A)) : Runtime A :=
  events.foldl (step config) runtime

def trace (runtime : Runtime A) (index : Nat) : List Step :=
  traceOf index runtime.log

end Runtime

/-- What one step of the runtime can do: take a request in, let a request make
its next call, or let one of its threads make a host call. -/
inductive RuntimeStep (config : AuditSinkConfig) (runtime : Runtime A) : Runtime A → Prop where
  | none : RuntimeStep config runtime runtime
  | receive (request : Request A) : RuntimeStep config runtime (runtime.receive request)
  | call (index : Nat) (task : Task A) (op : Op A) (next : Answer op → Dispatch A Json)
      (oracle : Oracle A) (htask : runtime.tasks[index]? = some task)
      (hprogram : task.program = .call op next) :
      RuntimeStep config runtime
        { host := (oracle.reply config runtime.host op).2
          tasks := runtime.tasks.set index
            { program := next (oracle.reply config runtime.host op).1
              workers := task.workers ++ spawned op }
          log := runtime.log ++
            (stepOf op (oracle.reply config runtime.host op).1).toList.map fun step =>
              (index, step) }
  | work (index : Nat) (task : Task A) (workers : List (HostProgram A Unit))
      (htask : runtime.tasks[index]? = some task) (hworkers : task.workers ≠ []) :
      RuntimeStep config runtime
        { runtime with
          tasks := runtime.tasks.set index { task with workers := workers }
          log := runtime.log ++ [(index, .effect)] }

theorem runtime_step (config : AuditSinkConfig) (runtime : Runtime A) (event : Event A) :
    RuntimeStep config runtime (runtime.step config event) := by
  cases event with
  | receive request => exact .receive request
  | advance index oracle =>
    rw [Runtime.step, Runtime.advance]
    split
    · exact .none
    · rename_i task htask
      split
      · exact .none
      · rename_i op next hprogram
        exact .call index task op next oracle htask hprogram
  | work index worker answer =>
    rw [Runtime.step, Runtime.work]
    split
    · exact .none
    · rename_i task htask
      split
      · rename_i next hworker
        refine .work index task _ htask ?_
        rintro hnil
        rw [hnil] at hworker
        cases hworker
      · exact .none

theorem appendRecord_accepted {config : AuditSinkConfig} {host : AuditHost}
    {record : AuditRecord} {failing : Failing}
    (h : (appendRecord config host record failing).1 = true) : host.sink.healthy = true := by
  by_contra hunhealthy
  rw [appendRecord, append_unhealthy (by simpa using hunhealthy)] at h
  cases h

theorem appendRecord_refused {config : AuditSinkConfig} {host : AuditHost}
    {record : AuditRecord} {failing : Failing}
    (h : (appendRecord config host record failing).1 = false) :
    (appendRecord config host record failing).2.sink.healthy = false := by
  rw [appendRecord] at h ⊢
  cases hrun : append config failing record host with
  | ok _ after => simp [hrun] at h
  | error _ after => exact append_error_unhealthy hrun

/-- How a call meets the latch: what is recorded finds the sink healthy, and what
fails leaves it unhealthy. -/
structure Latching (host after : AuditHost) (step : Option Step) : Prop where
  recorded : ∀ done, step = some done → done.isRecord = true → host.sink.healthy = true
  failed : ∀ done, step = some done → done.isFailure = true → after.sink.healthy = false
  stays : host.sink.healthy = false → after.sink.healthy = false

theorem appendRecord_latching {config : AuditSinkConfig} {host : AuditHost}
    {record : AuditRecord} {failing : Failing} {step : Bool → Step}
    (hrecord : ∀ ok, (step ok).isRecord = ok) (hfailure : ∀ ok, (step ok).isFailure = !ok) :
    Latching host (appendRecord config host record failing).2
      (some (step (appendRecord config host record failing).1)) := by
  refine ⟨?_, ?_, ?_⟩
  · rintro done hdone hok
    obtain rfl := Option.some.inj hdone
    rw [hrecord] at hok
    exact appendRecord_accepted hok
  · rintro done hdone hfailed
    obtain rfl := Option.some.inj hdone
    rw [hfailure] at hfailed
    exact appendRecord_refused (by simpa using hfailed)
  · intro hunhealthy
    rw [appendRecord, append_unhealthy hunhealthy]
    exact hunhealthy

theorem reply_latching (config : AuditSinkConfig) (oracle : Oracle A) (host : AuditHost)
    (op : Op A) :
    Latching host (oracle.reply config host op).2 (stepOf op (oracle.reply config host op).1) := by
  cases op with
  | append phase action record => exact appendRecord_latching (fun _ => rfl) fun _ => rfl
  | control record => exact appendRecord_latching (fun _ => rfl) fun _ => rfl
  | readPolicy capabilityId => exact ⟨nofun, nofun, id⟩
  | effect =>
    refine ⟨?_, ?_, id⟩
    · rintro done hdone hrecord
      obtain rfl := Option.some.inj hdone
      cases hrecord
    · rintro done hdone hfailed
      obtain rfl := Option.some.inj hdone
      cases hfailed
  | spawn worker => exact ⟨nofun, nofun, id⟩

theorem reply_possible {config : AuditSinkConfig} {oracle : Oracle A} {host : AuditHost}
    {s : Standing} (hlatch : s.failed = true → host.sink.healthy = false) (op : Op A) :
    (auditMonitor A).possible s op (oracle.reply config host op).1 := by
  have haccepted : ∀ record failing,
      (appendRecord config host record failing).1 = true → s.failed = false := by
    intro record failing hok
    by_contra hfailed
    have hhealthy := appendRecord_accepted hok
    rw [hlatch (by simpa using hfailed)] at hhealthy
    cases hhealthy
  cases op with
  | append phase action record => exact haccepted _ _
  | control record => exact haccepted _ _
  | readPolicy capabilityId => trivial
  | effect => trivial
  | spawn worker => trivial

@[simp] theorem traceOf_append (index : Nat) (front back : List (Nat × Step)) :
    traceOf index (front ++ back) = traceOf index front ++ traceOf index back :=
  List.filterMap_append

theorem traceOf_own (index : Nat) (steps : List Step) :
    traceOf index (steps.map fun step => (index, step)) = steps := by
  induction steps with
  | nil => rfl
  | cons step rest ih => simp [traceOf]

theorem traceOf_other {index other : Nat} (hother : other ≠ index) (steps : List Step) :
    traceOf index (steps.map fun step => (other, step)) = [] := by
  induction steps with
  | nil => rfl
  | cons step rest ih => simp [traceOf, hother]

theorem mem_of_mem_traceOf {index : Nat} {log : List (Nat × Step)} {step : Step}
    (h : step ∈ traceOf index log) : (index, step) ∈ log := by
  obtain ⟨⟨other, done⟩, hmem, heq⟩ := List.mem_filterMap.mp h
  by_cases hother : other = index
  · obtain rfl := hother
    rw [if_pos rfl] at heq
    obtain rfl := Option.some.inj heq
    exact hmem
  · rw [if_neg hother] at heq
    cases heq

/-- Every request keeps the discipline with what is left of its path, threads
run only under a decision, and nothing is recorded after a failed append. -/
structure InOrder (runtime : Runtime A) : Prop where
  respects : ∀ index task, runtime.tasks[index]? = some task →
    Respects (auditMonitor A) (standing (runtime.trace index)) task.program (Answered [])
  workers : ∀ index task, runtime.tasks[index]? = some task → task.workers ≠ [] →
    (standing (runtime.trace index)).decided = true
  disciplined : ∀ index, Disciplined (runtime.trace index)
  fresh : ∀ index, runtime.tasks.length ≤ index → runtime.trace index = []
  latched : ∀ entry ∈ runtime.log, entry.2.isFailure = true →
    runtime.host.sink.healthy = false
  sealed : runtime.log.Pairwise fun earlier later =>
    earlier.2.isFailure = true → later.2.isRecord = false

theorem inOrder_start (failing : Failing) : InOrder (Runtime.start failing : Runtime A) :=
  { respects := nofun, workers := nofun, disciplined := fun _ => .nil, fresh := fun _ _ => rfl,
    latched := nofun, sealed := .nil }

theorem inOrder_receive {runtime : Runtime A} (h : InOrder runtime) (request : Request A) :
    InOrder (runtime.receive request) := by
  have hsplit : ∀ {index task}, (runtime.receive request).tasks[index]? = some task →
      runtime.tasks[index]? = some task ∨
        index = runtime.tasks.length ∧
          task = { program := dispatchOne request, workers := [] } := by
    intro index task htask
    rw [Runtime.receive, List.getElem?_append] at htask
    split at htask
    · exact .inl htask
    · rename_i hge
      obtain ⟨hindex, hvalue⟩ := List.getElem?_eq_some_iff.mp htask
      simp only [List.length_singleton] at hindex
      refine .inr ⟨by omega, ?_⟩
      rw [← hvalue]
      simp
  refine { h with respects := ?_, workers := ?_, fresh := ?_ }
  · intro index task htask
    rcases hsplit htask with hold | ⟨rfl, rfl⟩
    · exact h.respects index task hold
    · have htrace : (runtime.receive request).trace runtime.tasks.length = [] :=
        h.fresh _ le_rfl
      rw [htrace]
      exact dispatchOne_respects request
  · intro index task htask hworkers
    rcases hsplit htask with hold | ⟨rfl, rfl⟩
    · exact h.workers index task hold hworkers
    · exact absurd rfl hworkers
  · intro index hindex
    rw [Runtime.receive, List.length_append] at hindex
    exact h.fresh index (by omega)

theorem step_decided {s : Standing} (h : s.decided = true) (step : Step) :
    (s.step step).decided = true := by
  rcases step with ⟨_ | _, action, _ | _⟩ | ok | _ <;> first | exact h | rfl

theorem decided_extend {trace : List Step} (h : (standing trace).decided = true)
    (step : Option Step) : (standing (trace ++ step.toList)).decided = true := by
  cases step with
  | none => simpa using h
  | some done =>
    rw [Option.toList_some, standing_append]
    exact step_decided h done

theorem standing_after (trace : List Step) (op : Op A) (answer : Answer op) :
    standing (trace ++ (stepOf op answer).toList) =
      (auditMonitor A).after (standing trace) op answer := by
  show _ = (stepOf op answer).elim (standing trace) (standing trace).step
  cases stepOf op answer with
  | none => simp
  | some step => exact standing_append trace step

theorem inOrder_extend {runtime : Runtime A} (h : InOrder runtime) {index : Nat}
    {task after : Task A} (htask : runtime.tasks[index]? = some task) {host : AuditHost}
    {step : Option Step} (hlatching : Latching runtime.host host step)
    (hallowed : ∀ done, step = some done → StepAllowed (standing (runtime.trace index)) done)
    (hrespects : Respects (auditMonitor A) (standing (runtime.trace index ++ step.toList))
      after.program (Answered []))
    (hworkers : after.workers ≠ [] →
      (standing (runtime.trace index ++ step.toList)).decided = true) :
    InOrder
      { host := host
        tasks := runtime.tasks.set index after
        log := runtime.log ++ step.toList.map fun done => (index, done) } := by
  obtain ⟨hindex, -⟩ := List.getElem?_eq_some_iff.mp htask
  have htrace : ∀ other,
      traceOf other (runtime.log ++ step.toList.map fun done => (index, done)) =
        if other = index then runtime.trace index ++ step.toList else runtime.trace other := by
    intro other
    rw [traceOf_append]
    split
    · rename_i heq
      rw [heq, traceOf_own, Runtime.trace]
    · rename_i hne
      rw [traceOf_other (Ne.symm hne), List.append_nil, Runtime.trace]
  have hcases : ∀ {other found}, (runtime.tasks.set index after)[other]? = some found →
      other = index ∧ found = after ∨ other ≠ index ∧ runtime.tasks[other]? = some found := by
    intro other found hfound
    rcases eq_or_ne other index with rfl | hne
    · rw [List.getElem?_set_self hindex] at hfound
      exact .inl ⟨rfl, (Option.some.inj hfound).symm⟩
    · rw [List.getElem?_set_ne (Ne.symm hne)] at hfound
      exact .inr ⟨hne, hfound⟩
  refine ⟨?_, ?_, ?_, ?_, ?_, ?_⟩
  · intro other found hfound
    rw [Runtime.trace, htrace]
    rcases hcases hfound with ⟨rfl, rfl⟩ | ⟨hne, hold⟩
    · rw [if_pos rfl]
      exact hrespects
    · rw [if_neg hne]
      exact h.respects other found hold
  · intro other found hfound hsome
    rw [Runtime.trace, htrace]
    rcases hcases hfound with ⟨rfl, rfl⟩ | ⟨hne, hold⟩
    · rw [if_pos rfl]
      exact hworkers hsome
    · rw [if_neg hne]
      exact h.workers other found hold hsome
  · intro other
    rw [Runtime.trace, htrace]
    split
    · cases step with
      | none => simpa using h.disciplined index
      | some done => exact .snoc (h.disciplined index) (hallowed done rfl)
    · exact h.disciplined other
  · intro other hother
    rw [List.length_set] at hother
    rw [Runtime.trace, htrace, if_neg (by omega)]
    exact h.fresh other hother
  · intro entry hentry hfailed
    rcases List.mem_append.mp hentry with hold | hnew
    · exact hlatching.stays (h.latched entry hold hfailed)
    · obtain ⟨done, hdone, rfl⟩ := List.mem_map.mp hnew
      exact hlatching.failed done (Option.mem_toList.mp hdone) hfailed
  · rw [List.pairwise_append]
    refine ⟨h.sealed, ?_, ?_⟩
    · cases step with
      | none => exact .nil
      | some done => exact List.pairwise_singleton _ _
    · rintro earlier hearlier later hlater hfailed
      obtain ⟨done, hdone, rfl⟩ := List.mem_map.mp hlater
      by_contra hrecord
      have hhealthy := hlatching.recorded done (Option.mem_toList.mp hdone) (by simpa using hrecord)
      rw [h.latched earlier hearlier hfailed] at hhealthy
      cases hhealthy

theorem inOrder_step {config : AuditSinkConfig} {runtime after : Runtime A} (h : InOrder runtime)
    (hstep : RuntimeStep config runtime after) : InOrder after := by
  cases hstep with
  | none => exact h
  | receive request => exact inOrder_receive h request
  | call index task op next oracle htask hprogram =>
    have hrespects := h.respects index task htask
    rw [hprogram] at hrespects
    obtain ⟨hallowed, hnext⟩ := hrespects
    have hlatch : (standing (runtime.trace index)).failed = true →
        runtime.host.sink.healthy = false := by
      rw [standing_failed, List.any_eq_true]
      rintro ⟨step, hstep, hfailed⟩
      exact h.latched _ (mem_of_mem_traceOf hstep) hfailed
    refine inOrder_extend h htask (reply_latching config oracle runtime.host op) ?_ ?_ ?_
    · intro done hdone
      exact stepAllowed_of_allowed hallowed hdone
    · rw [standing_after]
      exact hnext _ (reply_possible hlatch op)
    · intro hworkers
      by_cases hold : task.workers = []
      · cases op with
        | spawn worker => exact decided_extend hallowed _
        | _ => exact absurd (by rw [hold]; rfl) hworkers
      · exact decided_extend (h.workers index task htask hold) _
  | work index task workers htask hworkers =>
    have hdecided := h.workers index task htask hworkers
    have hlatching : Latching runtime.host runtime.host (some .effect) := by
      refine ⟨?_, ?_, id⟩
      · rintro done hdone hrecord
        obtain rfl := Option.some.inj hdone
        cases hrecord
      · rintro done hdone hfailed
        obtain rfl := Option.some.inj hdone
        cases hfailed
    have hafter : standing (runtime.trace index ++ [Step.effect]) =
        standing (runtime.trace index) := standing_append _ _
    refine inOrder_extend h htask hlatching ?_ ?_ ?_
    · rintro done hdone
      obtain rfl := Option.some.inj hdone
      exact hdecided
    · rw [Option.toList_some, hafter]
      exact h.respects index task htask
    · intro _
      rw [Option.toList_some, hafter]
      exact hdecided

/-- After any run of arrivals and calls, in whatever order. -/
theorem run_inOrder (config : AuditSinkConfig) {runtime : Runtime A} (h : InOrder runtime)
    (events : List (Event A)) : InOrder (runtime.run config events) :=
  foldl_invariant (fun runtime event hin => inOrder_step hin (runtime_step config runtime event))
    h events

theorem step_log {config : AuditSinkConfig} {runtime after : Runtime A}
    (hstep : RuntimeStep config runtime after) : runtime.log <+: after.log := by
  cases hstep with
  | none => exact List.prefix_refl _
  | receive request => exact List.prefix_refl _
  | call index task op next oracle htask hprogram => exact List.prefix_append _ _
  | work index task workers htask hworkers => exact List.prefix_append _ _

theorem run_log (config : AuditSinkConfig) (runtime : Runtime A) (events : List (Event A)) :
    runtime.log <+: (runtime.run config events).log := by
  induction events generalizing runtime with
  | nil => exact List.prefix_refl _
  | cons event rest ih =>
    exact List.IsPrefix.trans (step_log (runtime_step config runtime event))
      (ih (runtime.step config event))

theorem InOrder.decided_before {runtime : Runtime A} (h : InOrder runtime)
    {front back : List (Nat × Step)} {index : Nat}
    (hlog : runtime.log = front ++ (index, .effect) :: back) :
    ∃ action, (index, Step.appended .decision action true) ∈ front := by
  have htrace : runtime.trace index = traceOf index front ++ .effect :: traceOf index back := by
    rw [Runtime.trace, hlog, traceOf_append]
    simp [traceOf]
  have hdisciplined := h.disciplined index
  rw [htrace] at hdisciplined
  obtain ⟨action, haction⟩ := standing_decided hdisciplined.allowed_at
  exact ⟨action, mem_of_mem_traceOf haction⟩

end Runtime

/-- What the audit promises of a runtime: effects come after a decision of their
request, a request that has answered has attempted one outcome for each of its
decisions, and it has answered with a result only if none of its appends
failed. -/
structure AuditKept {A : Type} (runtime : Runtime A) : Prop where
  decided : ∀ front index back, runtime.log = front ++ (index, .effect) :: back →
    ∃ action, (index, Step.appended .decision action true) ∈ front
  paired : ∀ index task response, runtime.tasks[index]? = some task →
    task.program = .done response →
    ∀ action, ∃ count, recordsOf action (runtime.trace index) = pairs count
  recorded : ∀ index task response, runtime.tasks[index]? = some task →
    task.program = .done response → hasResult response = true →
    ∀ step ∈ runtime.trace index, step.isFailure = false

/-- Whatever is requested, whatever the policies and the host answer, wherever
an append fails and however the requests interleave, the audit is kept; and once
an append has failed no request that arrives later has an effect. -/
theorem audit_ordering {A : Type} (config : AuditSinkConfig) (first : Failing)
    (events : List (Event A)) :
    let runtime := (Runtime.start first : Runtime A).run config events
    AuditKept runtime ∧
      ∀ later, (∃ entry ∈ runtime.log, entry.2.isFailure = true) →
        ∀ index, runtime.tasks.length ≤ index →
          (index, .effect) ∉ (runtime.run config later).log := by
  intro runtime
  have hruntime : InOrder runtime := run_inOrder config (inOrder_start first) events
  refine ⟨⟨?_, ?_, ?_⟩, ?_⟩
  · intro front index back hlog
    exact hruntime.decided_before hlog
  · intro index task response htask hprogram action
    have hanswered := hruntime.respects index task htask
    rw [hprogram] at hanswered
    exact (hruntime.disciplined index).paired hanswered.1 action
  · intro index task response htask hprogram hresult step hstep
    have hanswered := hruntime.respects index task htask
    rw [hprogram] at hanswered
    have hnone := hanswered.2 hresult
    rw [standing_failed] at hnone
    have hstep := List.any_eq_false.mp hnone step hstep
    simpa using hstep
  · rintro later ⟨failure, hfailure, hfailed⟩ index hindex heffect
    have hlater : InOrder (runtime.run config later) := run_inOrder config hruntime later
    obtain ⟨front, back, hlog⟩ := List.append_of_mem heffect
    obtain ⟨action, haction⟩ := hlater.decided_before hlog
    obtain ⟨added, hadded⟩ := run_log config runtime later
    have hnew : (index, Step.appended .decision action true) ∈ added := by
      have hmem : (index, Step.appended .decision action true) ∈ runtime.log ++ added := by
        rw [hadded, hlog]
        exact List.mem_append_left _ haction
      rcases List.mem_append.mp hmem with hold | hnew
      · have htrace : Step.appended .decision action true ∈ runtime.trace index :=
          List.mem_filterMap.mpr ⟨_, hold, if_pos rfl⟩
        rw [hruntime.fresh index hindex] at htrace
        cases htrace
      · exact hnew
    have hsealed := hlater.sealed
    rw [← hadded, List.pairwise_append] at hsealed
    have hrecord := hsealed.2.2 failure hfailure _ hnew hfailed
    cases hrecord

/-- A read whose outcome cannot be appended, and a write that comes after it. -/
example :
    let answer : Oracle Unit := { now := 0, failing := none, policy := none, answer := () }
    let once : HostProgram Unit (Option (Except WorkspaceRegistryError Json)) :=
      .call () fun _ => .done (some (.ok .null))
    ((Runtime.start none).run defaultAuditSinkConfig
      [.receive (.workspace (utf8 "req_1") none .fileRead once), .advance 0 answer,
        .advance 0 answer, .advance 0 { answer with failing := some .encode },
        .receive (.workspace (utf8 "req_2") none .fileWrite once), .advance 1 answer,
        .advance 1 answer]).log =
      [(0, .appended .decision .fileRead true), (0, .effect),
        (0, .appended .outcome .fileRead false), (1, .appended .decision .fileWrite false)] := by
  decide

end KodeGpt.AuditedRuntime
