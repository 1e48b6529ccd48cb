import KodeGpt.AuditedDispatch

/-!
The discipline of records, effects and responses, and that every path of the
dispatcher keeps it.
-/

namespace KodeGpt.AuditOrdering

open AuditRecords AuditedDispatch JsonText MonitoredPrograms PolicyRestriction RpcResponses
open SkillSources WorkspaceContexts

/-- What a request does that others can see: an attempt to append a record, and
an effect on the host. -/
inductive Step where
  | appended (phase : AuditPhase) (action : AuditAction) (ok : Bool)
  | controlled (ok : Bool)
  | effect
  deriving DecidableEq, Repr

/-- Where a request stands: whether a decision of it is in the log, the actions
that are decided and wait for their outcome, the innermost first, and whether
one of its appends has failed. -/
structure Standing where
  decided : Bool
  opened : List AuditAction
  failed : Bool

namespace Standing

def initial : Standing := { decided := false, opened := [], failed := false }

def step (s : Standing) : Step → Standing
  | .appended .decision action true =>
    { decided := true, opened := action :: s.opened, failed := s.failed }
  | .appended .decision _ false => { s with failed := true }
  | .appended .outcome _ ok => { s with opened := s.opened.tail, failed := s.failed || !ok }
  | .controlled ok => { s with failed := s.failed || !ok }
  | .effect => s

end Standing

def Step.isFailure : Step → Bool
  | .appended _ _ ok => !ok
  | .controlled ok => !ok
  | .effect => false

def Step.isRecord : Step → Bool
  | .appended _ _ ok => ok
  | .controlled ok => ok
  | .effect => false

def recordOf (action : AuditAction) : Step → Option AuditPhase
  | .appended .decision other true => if other = action then some .decision else none
  | .appended .outcome other _ => if other = action then some .outcome else none
  | _ => none

/-- The decisions of an action that were appended and the outcomes of it that
were attempted, in order. -/
def recordsOf (action : AuditAction) (trace : List Step) : List AuditPhase :=
  trace.filterMap (recordOf action)

def standing (trace : List Step) : Standing :=
  trace.foldl Standing.step Standing.initial

theorem standing_append (trace : List Step) (step : Step) :
    standing (trace ++ [step]) = (standing trace).step step := by
  simp [standing]

/-- What the discipline asks of a step in its standing. -/
def StepAllowed (s : Standing) : Step → Prop
  | .appended .decision action _ => action ∉ s.opened
  | .appended .outcome action _ => s.opened.head? = some action
  | .controlled _ => True
  | .effect => s.decided = true

/-- A trace of which every step is allowed where it stands. -/
inductive Disciplined : List Step → Prop where
  | nil : Disciplined []
  | snoc {trace : List Step} {step : Step} (htrace : Disciplined trace)
      (hstep : StepAllowed (standing trace) step) : Disciplined (trace ++ [step])

theorem Disciplined.last {whole trace : List Step} {step : Step} (h : Disciplined whole)
    (hwhole : whole = trace ++ [step]) :
    Disciplined trace ∧ StepAllowed (standing trace) step := by
  cases h with
  | nil => simp at hwhole
  | snoc htrace hstep =>
    obtain ⟨rfl, hlast⟩ := List.append_inj' hwhole rfl
    obtain rfl := List.singleton_inj.mp hlast
    exact ⟨htrace, hstep⟩

theorem Disciplined.allowed_at {front back : List Step} {step : Step}
    (h : Disciplined (front ++ step :: back)) : StepAllowed (standing front) step := by
  induction back using List.reverseRecOn with
  | nil => exact (h.last rfl).2
  | append_singleton back last ih =>
    have hsplit : front ++ step :: (back ++ [last]) = front ++ step :: back ++ [last] := by
      simp
    exact ih (h.last hsplit).1

theorem standing_decided {trace : List Step} (h : (standing trace).decided = true) :
    ∃ action, Step.appended .decision action true ∈ trace := by
  induction trace using List.reverseRecOn with
  | nil => cases h
  | append_singleton trace step ih =>
    rw [standing_append] at h
    have hcases : (standing trace).decided = true ∨
        ∃ action, step = .appended .decision action true := by
      rcases step with ⟨_ | _, action, _ | _⟩ | _ | _
      · exact .inl h
      · exact .inr ⟨action, rfl⟩
      · exact .inl h
      · exact .inl h
      · exact .inl h
      · exact .inl h
    rcases hcases with hbefore | ⟨action, rfl⟩
    · obtain ⟨action, haction⟩ := ih hbefore
      exact ⟨action, List.mem_append_left _ haction⟩
    · exact ⟨action, by simp⟩

theorem step_failed (s : Standing) (step : Step) :
    (s.step step).failed = (s.failed || step.isFailure) := by
  rcases step with ⟨_ | _, action, _ | _⟩ | ok | _ <;> simp [Standing.step, Step.isFailure]

theorem standing_failed (trace : List Step) :
    (standing trace).failed = trace.any Step.isFailure := by
  induction trace using List.reverseRecOn with
  | nil => rfl
  | append_singleton trace step ih =>
    rw [standing_append, step_failed, ih, List.any_append]
    simp

theorem recordsOf_append (action : AuditAction) (trace : List Step) (step : Step) :
    recordsOf action (trace ++ [step]) =
      recordsOf action trace ++ (recordOf action step).toList := by
  cases hrecord : recordOf action step <;> simp [recordsOf, hrecord]

def pairs (count : Nat) : List AuditPhase :=
  (List.replicate count [AuditPhase.decision, .outcome]).flatten

theorem pairs_succ (count : Nat) : pairs (count + 1) = pairs count ++ [.decision, .outcome] := by
  rw [pairs, List.replicate_succ', List.flatten_concat, pairs]

/-- In a disciplined trace the records of an action are pairs of a decision and
its outcome, and one decision more while the action is open. -/
theorem Disciplined.records {trace : List Step} (h : Disciplined trace) :
    (standing trace).opened.Nodup ∧
      ∀ action, ∃ count, recordsOf action trace =
        pairs count ++ if action ∈ (standing trace).opened then [.decision] else [] := by
  induction h with
  | nil => exact ⟨List.nodup_nil, fun action => ⟨0, rfl⟩⟩
  | @snoc trace step htrace hstep ih =>
    obtain ⟨hnodup, hrecords⟩ := ih
    rw [standing_append]
    have hquiet : ((standing trace).step step).opened = (standing trace).opened →
        (∀ action, recordOf action step = none) →
        ((standing trace).step step).opened.Nodup ∧
          ∀ action, ∃ count, recordsOf action (trace ++ [step]) =
            pairs count ++
              if action ∈ ((standing trace).step step).opened then [.decision] else [] := by
      intro hopened hnone
      rw [hopened]
      refine ⟨hnodup, fun action => ?_⟩
      rw [recordsOf_append, hnone]
      simpa using hrecords action
    rcases step with ⟨_ | _, other, ok⟩ | ok | _
    · cases ok with
      | false => exact hquiet rfl fun _ => rfl
      | true =>
        refine ⟨List.nodup_cons.mpr ⟨hstep, hnodup⟩, fun action => ?_⟩
        obtain ⟨count, hcount⟩ := hrecords action
        refine ⟨count, ?_⟩
        rw [recordsOf_append, hcount]
        rcases eq_or_ne other action with rfl | hne
        · have hclosed : other ∉ (standing trace).opened := hstep
          simp [recordOf, Standing.step, hclosed]
        · simp [recordOf, Standing.step, hne, Ne.symm hne]
    · obtain ⟨rest, hopened⟩ : ∃ rest, (standing trace).opened = other :: rest := by
        rw [← List.head?_eq_some_iff]
        exact hstep
      have htail : ((standing trace).step (.appended .outcome other ok)).opened = rest := by
        show (standing trace).opened.tail = rest
        rw [hopened]
        rfl
      rw [hopened, List.nodup_cons] at hnodup
      rw [htail]
      refine ⟨hnodup.2, fun action => ?_⟩
      obtain ⟨count, hcount⟩ := hrecords action
      rcases eq_or_ne other action with rfl | hne
      · refine ⟨count + 1, ?_⟩
        rw [recordsOf_append, hcount, hopened, pairs_succ]
        simp [recordOf, hnodup.1]
      · refine ⟨count, ?_⟩
        rw [recordsOf_append, hcount, hopened]
        simp [recordOf, hne, Ne.symm hne]
    · exact hquiet rfl fun _ => rfl
    · exact hquiet rfl fun _ => rfl

theorem Disciplined.paired {trace : List Step} (h : Disciplined trace)
    (hclosed : (standing trace).opened = []) (action : AuditAction) :
    ∃ count, recordsOf action trace = pairs count := by
  obtain ⟨count, hcount⟩ := h.records.2 action
  rw [hclosed] at hcount
  exact ⟨count, by simpa using hcount⟩

section Monitor

variable {A : Type}

/-- The step that a call leaves in the log. A thread that is started leaves its
steps when it makes them. -/
def stepOf : (op : Op A) → Answer op → Option Step
  | .append phase action _, ok => some (.appended phase action ok)
  | .control _, ok => some (.controlled ok)
  | .readPolicy _, _ => none
  | .effect, _ => some .effect
  | .spawn _, _ => none

/-- The discipline: effects only under a decision, an action is decided again
only when its outcome has been attempted, and outcomes in the reverse order of
their decisions. Once an append has failed no other can succeed. -/
def auditMonitor (A : Type) : Monitor (Op A) Answer where
  State := Standing
  allowed s
    | .append .decision action _ => action ∉ s.opened
    | .append .outcome action _ => s.opened.head? = some action
    | .control _ => True
    | .readPolicy _ => True
    | .effect => s.decided = true
    | .spawn _ => s.decided = true
  possible s
    | .append _ _ _, ok => ok = true → s.failed = false
    | .control _, ok => ok = true → s.failed = false
    | _, _ => True
  after s op answer := (stepOf op answer).elim s s.step

theorem stepAllowed_of_allowed {s : Standing} {op : Op A}
    (hallowed : (auditMonitor A).allowed s op) {answer : Answer op} {step : Step}
    (hstep : stepOf op answer = some step) : StepAllowed s step := by
  cases op with
  | append phase action record =>
    obtain rfl := Option.some.inj hstep
    cases phase <;> exact hallowed
  | control record =>
    obtain rfl := Option.some.inj hstep
    trivial
  | readPolicy capabilityId => cases hstep
  | effect =>
    obtain rfl := Option.some.inj hstep
    exact hallowed
  | spawn worker => cases hstep

/-- A response is due: what was open before is open, and a result is reported
only when no append has failed. -/
def Answered (opened : List AuditAction) (response : Json) (s : Standing) : Prop :=
  s.opened = opened ∧ (hasResult response = true → s.failed = false)

theorem answered_failure {opened : List AuditAction} {s : Standing} (hs : s.opened = opened)
    (requestId : Bytes) (error : RpcError) : Answered opened (failure requestId error) s := by
  refine ⟨hs, ?_⟩
  rw [AuditedDispatch.failure, hasResult_errorResponse]
  exact nofun

theorem decision_respects {β : Type} {trail : AuditTrail} {granted refused : Dispatch A β}
    {post : β → Standing → Prop} {s : Standing} (hfresh : trail.context.action ∉ s.opened)
    (hrefused : Respects (auditMonitor A) { s with failed := true } refused post)
    (hgranted : Respects (auditMonitor A)
      { decided := true, opened := trail.context.action :: s.opened, failed := s.failed }
      granted post) :
    Respects (auditMonitor A) s (do if ← trail.decision then granted else refused) post := by
  refine ⟨hfresh, ?_⟩
  rintro (_ | _) -
  · exact hrefused
  · exact hgranted

theorem outcome_bind {β : Type} {trail : AuditTrail} {outcome : AuditOutcome}
    {next : Bool → Dispatch A β} {post : β → Standing → Prop} {s : Standing}
    {rest : List AuditAction} (hopened : s.opened = trail.context.action :: rest)
    (hrefused : Respects (auditMonitor A) { s with opened := rest, failed := true } (next false)
      post)
    (hdone : Respects (auditMonitor A) { s with opened := rest, failed := false } (next true)
      post) :
    Respects (auditMonitor A) s (trail.outcome outcome >>= next) post := by
  have htail : s.opened.tail = rest := by rw [hopened]; rfl
  refine ⟨?_, ?_⟩
  · show s.opened.head? = some trail.context.action
    rw [hopened]
    rfl
  · rintro (_ | _) hpossible
    · show Respects (auditMonitor A) { s with opened := s.opened.tail, failed := s.failed || true } _ _
      rw [htail, Bool.or_true]
      exact hrefused
    · show Respects (auditMonitor A) { s with opened := s.opened.tail, failed := s.failed || false } _ _
      rw [htail, hpossible rfl]
      exact hdone

theorem outcome_respects {β : Type} {trail : AuditTrail} {outcome : AuditOutcome}
    {recorded refused : Dispatch A β} {post : β → Standing → Prop} {s : Standing}
    {rest : List AuditAction} (hopened : s.opened = trail.context.action :: rest)
    (hrefused : Respects (auditMonitor A) { s with opened := rest, failed := true } refused post)
    (hdone : Respects (auditMonitor A) { s with opened := rest, failed := false } recorded
      post) :
    Respects (auditMonitor A) s (do if ← trail.outcome outcome then recorded else refused) post :=
  outcome_bind hopened hrefused hdone

theorem afterDecision_respects {trail : AuditTrail} {requestId : Bytes} {rest : Dispatch A Json}
    {s : Standing} (hfresh : trail.context.action ∉ s.opened)
    (hrest : Respects (auditMonitor A)
      { decided := true, opened := trail.context.action :: s.opened, failed := s.failed } rest
      (Answered s.opened)) :
    Respects (auditMonitor A) s (afterDecision trail requestId rest) (Answered s.opened) := by
  refine decision_respects hfresh ?_ hrest
  apply Respects.done
  exact answered_failure rfl requestId auditUnavailable

theorem withOutcome_respects {trail : AuditTrail} (requestId : Bytes) (outcome : AuditOutcome)
    (response : Json) {s : Standing} {rest : List AuditAction}
    (hopened : s.opened = trail.context.action :: rest) :
    Respects (auditMonitor A) s (withOutcome trail requestId outcome response)
      (Answered rest) := by
  refine outcome_respects hopened ?_ ?_
  · apply Respects.done
    exact answered_failure rfl requestId auditUnavailable
  · apply Respects.done
    exact ⟨rfl, fun _ => rfl⟩

theorem auditedSkillSourceFailure_respects {trail : AuditTrail} (requestId : Bytes)
    (error : RpcError) {s : Standing} {rest : List AuditAction}
    (hopened : s.opened = trail.context.action :: rest) :
    Respects (auditMonitor A) s (auditedSkillSourceFailure trail requestId error)
      (Answered rest) :=
  withOutcome_respects requestId _ _ hopened

theorem auditedFailure_respects {trail : AuditTrail} (requestId : Bytes) (error : RpcError)
    {s : Standing} {rest : List AuditAction}
    (hopened : s.opened = trail.context.action :: rest) :
    Respects (auditMonitor A) s (auditedFailure trail requestId error) (Answered rest) :=
  withOutcome_respects requestId _ _ hopened

theorem auditedSuccess_respects {trail : AuditTrail} (requestId : Bytes) (result : Json)
    (outcome : AuditOutcome) {s : Standing} {rest : List AuditAction}
    (hopened : s.opened = trail.context.action :: rest) :
    Respects (auditMonitor A) s (auditedSuccess trail requestId result outcome)
      (Answered rest) :=
  withOutcome_respects requestId _ _ hopened

theorem host_respects {α : Type} (program : HostProgram A α) {s : Standing}
    (hdecided : s.decided = true) :
    Respects (auditMonitor A) s (host program) fun _ t => t = s := by
  refine Respects.expand ?_ program rfl
  rintro - t rfl
  exact ⟨hdecided, fun _ _ => rfl⟩

theorem host_bind_respects {α β : Type} {program : HostProgram A α} {rest : α → Dispatch A β}
    {post : β → Standing → Prop} {s : Standing} (hdecided : s.decided = true)
    (hrest : ∀ value, Respects (auditMonitor A) s (rest value) post) :
    Respects (auditMonitor A) s (host program >>= rest) post := by
  refine Respects.bind (host_respects program hdecided) ?_
  rintro value t rfl
  exact hrest value

/-- What a spool operation leaves: the same actions open, and when it succeeds
a decision in the log and no failed append. -/
structure SpoolDone {α : Type} (s : Standing) (result : Except RawSpoolError α) (t : Standing) :
    Prop where
  opened : t.opened = s.opened
  decided : s.decided = true → t.decided = true
  succeeded : ∀ value, result = .ok value → t.decided = true ∧ t.failed = false

theorem auditedSpoolOperation_respects {α : Type} {trail : AuditTrail}
    (operation : HostProgram A (Except RawSpoolError α)) {s : Standing}
    (hfresh : trail.context.action ∉ s.opened) :
    Respects (auditMonitor A) s (auditedSpoolOperation trail operation) (SpoolDone s) := by
  apply decision_respects hfresh
  · exact Respects.done ⟨rfl, id, nofun⟩
  · refine host_bind_respects (by rfl) ?_
    intro result
    apply outcome_respects rfl
    · exact Respects.done ⟨rfl, fun _ => rfl, nofun⟩
    · exact Respects.done ⟨rfl, fun _ => rfl, fun _ _ => ⟨rfl, rfl⟩⟩

theorem createArtifact_respects {trail : AuditTrail} (create : SpoolCreate A) {s : Standing}
    (hfresh : trail.context.action ∉ s.opened) :
    Respects (auditMonitor A) s (createArtifact trail create) (SpoolDone s) := by
  apply decision_respects hfresh
  · exact Respects.done ⟨rfl, id, nofun⟩
  · refine host_bind_respects (by rfl) ?_
    rintro (error | _)
    · apply outcome_respects rfl
      · exact Respects.done ⟨rfl, fun _ => rfl, nofun⟩
      · exact Respects.done ⟨rfl, fun _ => rfl, nofun⟩
    · refine host_bind_respects (by rfl) ?_
      rintro (_ | _)
      · refine host_bind_respects (by rfl) ?_
        intro _
        apply outcome_bind rfl
        · exact Respects.done ⟨rfl, fun _ => rfl, nofun⟩
        · exact Respects.done ⟨rfl, fun _ => rfl, nofun⟩
      · apply outcome_respects rfl
        · refine host_bind_respects (by rfl) ?_
          intro _
          exact Respects.done ⟨rfl, fun _ => rfl, nofun⟩
        · exact Respects.done ⟨rfl, fun _ => rfl, fun _ _ => ⟨rfl, rfl⟩⟩

/-- A spool is created under two decisions, neither of which may be open. -/
structure SpoolFresh (s : Standing) : Prop where
  cleanup : AuditAction.artifactCleanup ∉ s.opened
  create : AuditAction.artifactSpoolCreate ∉ s.opened

theorem spoolCreate_respects (requestId : Bytes) (create : SpoolCreate A) {s : Standing}
    (hfresh : SpoolFresh s) :
    Respects (auditMonitor A) s (spoolCreate requestId create) (SpoolDone s) := by
  rw [spoolCreate]
  split
  · exact Respects.done ⟨rfl, id, nofun⟩
  · split
    · apply Respects.bind (auditedSpoolOperation_respects _ hfresh.cleanup)
      rintro (error | _) t ht
      · exact Respects.done ⟨ht.opened, ht.decided, nofun⟩
      · obtain ⟨hdecided, -⟩ := ht.succeeded () rfl
        apply host_bind_respects hdecided
        rintro (error | _)
        · exact Respects.done ⟨ht.opened, ht.decided, nofun⟩
        · have hcreate : AuditAction.artifactSpoolCreate ∉ t.opened := by
            rw [ht.opened]
            exact hfresh.create
          refine (createArtifact_respects create hcreate).conseq ?_
          intro result u hu
          exact ⟨hu.opened.trans ht.opened, fun _ => hu.decided hdecided, hu.succeeded⟩
    · exact Respects.done ⟨rfl, id, nofun⟩

/-- Inside a decided action the blocking code may do anything it can: it leaves
the same actions open. -/
theorem runBlocking_respects {α : Type} (requestId : Bytes) (program : RunProgram A α)
    {s : Standing} (hdecided : s.decided = true) (hfresh : SpoolFresh s) :
    Respects (auditMonitor A) s (runBlocking requestId program)
      fun _ t => t.decided = true ∧ t.opened = s.opened := by
  refine Respects.expand ?_ program ⟨hdecided, rfl⟩
  rintro (_ | create | worker) t ⟨htdecided, htopened⟩
  · exact ⟨htdecided, fun _ _ => ⟨htdecided, htopened⟩⟩
  · have htfresh : SpoolFresh t := by
      refine ⟨?_, ?_⟩ <;> rw [htopened]
      · exact hfresh.cleanup
      · exact hfresh.create
    refine (spoolCreate_respects requestId create htfresh).conseq ?_
    intro result u hu
    exact ⟨hu.decided htdecided, hu.opened.trans htopened⟩
  · exact ⟨htdecided, fun _ _ => ⟨htdecided, htopened⟩⟩

section Paths

variable {s : Standing}

theorem auditedWorkspaceOperation_respects (requestId : Bytes) (capabilityId : Option Bytes)
    (action : AuditAction)
    (operation : HostProgram A (Option (Except WorkspaceRegistryError Json)))
    (hfresh : action ∉ s.opened) :
    Respects (auditMonitor A) s (auditedWorkspaceOperation requestId capabilityId action operation)
      (Answered s.opened) := by
  refine afterDecision_respects hfresh (host_bind_respects (by rfl) ?_)
  rintro (_ | error | result)
  · exact auditedFailure_respects requestId _ rfl
  · exact auditedFailure_respects requestId _ rfl
  · exact auditedSuccess_respects requestId _ _ rfl

theorem auditedSkillSourceOperation_respects (requestId : Bytes) (capabilityId : Option Bytes)
    (action : AuditAction)
    (operation : HostProgram A (Option (Except SkillSourceRegistryError Json)))
    (hfresh : action ∉ s.opened) :
    Respects (auditMonitor A) s
      (auditedSkillSourceOperation requestId capabilityId action operation)
      (Answered s.opened) := by
  refine afterDecision_respects hfresh (host_bind_respects (by rfl) ?_)
  rintro (_ | error | result)
  · exact auditedSkillSourceFailure_respects requestId _ rfl
  · exact auditedSkillSourceFailure_respects requestId _ rfl
  · exact auditedSuccess_respects requestId _ _ rfl

theorem dispatchInspectRoot_respects (requestId : Bytes)
    (inspect : HostProgram A (Except RpcError Json)) (hfresh : AuditAction.inspectRoot ∉ s.opened) :
    Respects (auditMonitor A) s (dispatchInspectRoot requestId inspect)
      (Answered s.opened) := by
  refine afterDecision_respects hfresh (host_bind_respects (by rfl) ?_)
  rintro (error | inspected)
  · exact auditedFailure_respects requestId _ rfl
  · exact auditedSuccess_respects requestId _ _ rfl

theorem dispatchSkillSourceInspectRoot_respects (requestId : Bytes) (available : Bool)
    (inspect : HostProgram A (Except SkillSourceRegistryError Json))
    (hfresh : AuditAction.skillSourceInspectRoot ∉ s.opened) :
    Respects (auditMonitor A) s (dispatchSkillSourceInspectRoot requestId available inspect)
      (Answered s.opened) := by
  refine afterDecision_respects hfresh ?_
  split
  · refine host_bind_respects (by rfl) ?_
    rintro (error | inspected)
    · exact auditedSkillSourceFailure_respects requestId _ rfl
    · exact auditedSuccess_respects requestId _ _ rfl
  · exact auditedSkillSourceFailure_respects requestId _ rfl

theorem dispatchWorkspaceCancelExecutions_respects (requestId capabilityId : Bytes)
    (cancelExecutions : HostProgram A (Option (Except WorkspaceRegistryError Unit)))
    (cancelWorkspace : HostProgram A (Option (Except ProcessError Unit)))
    (hfresh : AuditAction.workspaceCancelExecutions ∉ s.opened) :
    Respects (auditMonitor A) s
      (dispatchWorkspaceCancelExecutions requestId capabilityId cancelExecutions cancelWorkspace)
      (Answered s.opened) := by
  refine afterDecision_respects hfresh (host_bind_respects (by rfl) ?_)
  rintro (_ | error | _)
  · exact auditedFailure_respects requestId _ rfl
  · exact auditedFailure_respects requestId _ rfl
  · refine host_bind_respects (by rfl) ?_
    rintro (_ | error | _)
    · exact auditedFailure_respects requestId _ rfl
    · exact auditedFailure_respects requestId _ rfl
    · exact auditedSuccess_respects requestId _ _ rfl

theorem SpoolFresh.cons {s t : Standing} (hs : SpoolFresh s) {action : AuditAction}
    (ht : t.opened = action :: s.opened) (hcleanup : AuditAction.artifactCleanup ≠ action)
    (hcreate : AuditAction.artifactSpoolCreate ≠ action) : SpoolFresh t := by
  refine ⟨?_, ?_⟩ <;> rw [ht, List.mem_cons, not_or]
  · exact ⟨hcleanup, hs.cleanup⟩
  · exact ⟨hcreate, hs.create⟩

theorem gitAfterDecision_respects {ε : Type} {trail : AuditTrail} (requestId : Bytes)
    (unavailable panicked : RpcError) (contract : ε → RpcError) (task : GitTask A ε)
    {rest : List AuditAction} (hdecided : s.decided = true)
    (hopened : s.opened = trail.context.action :: rest) (hfresh : SpoolFresh s) :
    Respects (auditMonitor A) s
      (gitAfterDecision trail requestId unavailable panicked contract task) (Answered rest) := by
  refine host_bind_respects hdecided ?_
  rintro (_ | error | _)
  · exact auditedFailure_respects requestId _ hopened
  · exact auditedFailure_respects requestId _ hopened
  · refine Respects.ite ?_ ?_
    · refine Respects.bind (runBlocking_respects requestId task.run hdecided hfresh) ?_
      rintro (_ | error | report) t ⟨-, ht⟩
      · exact auditedFailure_respects requestId _ (ht.trans hopened)
      · exact auditedFailure_respects requestId _ (ht.trans hopened)
      · exact auditedSuccess_respects requestId _ _ (ht.trans hopened)
    · exact auditedFailure_respects requestId _ hopened

theorem gitDispatch_respects {ε : Type} {trail : AuditTrail} (requestId : Bytes)
    (unavailable panicked : RpcError) (contract : ε → RpcError) (task : GitTask A ε)
    (hfresh : trail.context.action ∉ s.opened) (hspool : SpoolFresh s)
    (hcleanup : AuditAction.artifactCleanup ≠ trail.context.action)
    (hcreate : AuditAction.artifactSpoolCreate ≠ trail.context.action) :
    Respects (auditMonitor A) s
      (afterDecision trail requestId
        (gitAfterDecision trail requestId unavailable panicked contract task))
      (Answered s.opened) := by
  refine afterDecision_respects hfresh ?_
  exact gitAfterDecision_respects requestId _ _ _ _ rfl rfl
    (hspool.cons rfl hcleanup hcreate)

theorem withPolicy_respects (requestId capabilityId : Bytes) (permitted : RuntimePolicy → Bool)
    (denied : RpcError) {rest : Dispatch A Json}
    (hrest : Respects (auditMonitor A) s rest (Answered s.opened)) :
    Respects (auditMonitor A) s (withPolicy requestId capabilityId permitted denied rest)
      (Answered s.opened) := by
  refine ⟨trivial, ?_⟩
  rintro (_ | error | policy) -
  · exact answered_failure rfl requestId _
  · exact answered_failure rfl requestId _
  · exact Respects.ite hrest (answered_failure rfl requestId _)

theorem dispatchProcessInspectExecutable_respects (requestId capabilityId : Bytes)
    (available : RuntimePolicy → HostProgram A (Bool × Bool))
    (hfresh : AuditAction.processInspectExecutable ∉ s.opened) :
    Respects (auditMonitor A) s
      (dispatchProcessInspectExecutable requestId capabilityId available)
      (Answered s.opened) := by
  refine ⟨trivial, ?_⟩
  rintro (_ | error | policy) -
  · exact answered_failure rfl requestId _
  · exact answered_failure rfl requestId _
  · refine afterDecision_respects hfresh (host_bind_respects (by rfl) ?_)
    intro value
    exact auditedSuccess_respects requestId _ _ rfl

theorem dispatchProcessRunWithOperationId_respects (requestId capabilityId operationId : Bytes)
    (task : ProcessTask A) (hfresh : AuditAction.processRun ∉ s.opened) (hspool : SpoolFresh s) :
    Respects (auditMonitor A) s
      (dispatchProcessRunWithOperationId requestId capabilityId operationId task)
      (Answered s.opened) := by
  refine afterDecision_respects hfresh ⟨trivial, ?_⟩
  rintro (_ | error | policy) -
  · exact auditedFailure_respects requestId _ rfl
  · exact auditedFailure_respects requestId _ rfl
  · refine Respects.ite ?_ (auditedFailure_respects requestId _ rfl)
    refine host_bind_respects (by rfl) ?_
    rintro (error | _)
    · exact auditedFailure_respects requestId _ rfl
    · refine Respects.ite ?_ (auditedFailure_respects requestId _ rfl)
      have hinside : SpoolFresh
          { decided := true, opened := AuditAction.processRun :: s.opened, failed := s.failed } :=
        hspool.cons rfl nofun nofun
      refine Respects.bind (runBlocking_respects requestId (task.run policy) rfl hinside) ?_
      rintro (_ | error | view) t ⟨-, ht⟩
      · exact auditedFailure_respects requestId _ ht
      · exact auditedFailure_respects requestId _ ht
      · exact auditedSuccess_respects requestId _ _ ht

/-- The process run inside a verification leaves the verification's own action
open, for its outcome. -/
theorem dispatchVerifyRun_respects (requestId capabilityId operationId : Bytes)
    (task : ProcessTask A) (hfresh : AuditAction.verifyRun ∉ s.opened)
    (hprocess : AuditAction.processRun ∉ s.opened) (hspool : SpoolFresh s) :
    Respects (auditMonitor A) s (dispatchVerifyRun requestId capabilityId operationId task)
      (Answered s.opened) := by
  refine afterDecision_respects hfresh ?_
  refine Respects.bind (dispatchProcessRunWithOperationId_respects requestId capabilityId
    operationId task ?_ (hspool.cons rfl nofun nofun)) ?_
  · rw [List.mem_cons, not_or]
    exact ⟨nofun, hprocess⟩
  · rintro response t ⟨ht, -⟩
    exact withOutcome_respects requestId _ _ ht

theorem dispatchProcessOperation_respects (requestId capabilityId operationId : Bytes)
    (action : AuditAction)
    (requireReady : HostProgram A (Option (Except WorkspaceRegistryError Unit)))
    (operation : HostProgram A (Except ProcessError Json)) (hfresh : action ∉ s.opened) :
    Respects (auditMonitor A) s
      (dispatchProcessOperation requestId capabilityId operationId action requireReady operation)
      (Answered s.opened) := by
  refine afterDecision_respects hfresh (host_bind_respects (by rfl) ?_)
  rintro (_ | error | _)
  · exact auditedFailure_respects requestId _ rfl
  · exact auditedFailure_respects requestId _ rfl
  · refine host_bind_respects (by rfl) ?_
    rintro (error | view)
    · exact auditedFailure_respects requestId _ rfl
    · exact auditedSuccess_respects requestId _ _ rfl

theorem dispatchArtifactWrite_respects (requestId : Bytes) (spoolAvailable dataValid : Bool)
    (create : SpoolCreate A) (writeSource : HostProgram A (Option (Except RawSpoolError Json)))
    (hspool : SpoolFresh s) :
    Respects (auditMonitor A) s
      (dispatchArtifactWrite requestId spoolAvailable dataValid create writeSource)
      (Answered s.opened) := by
  refine Respects.ite (Respects.ite ?_ (answered_failure rfl requestId _))
    (answered_failure rfl requestId _)
  refine Respects.bind (spoolCreate_respects requestId create hspool) ?_
  rintro (error | _) t ht
  · exact answered_failure ht.opened requestId _
  · obtain ⟨hdecided, hfailed⟩ := ht.succeeded () rfl
    refine host_bind_respects hdecided fun written => ?_
    exact Respects.done ⟨ht.opened, fun _ => hfailed⟩

theorem dispatchArtifactRead_respects (requestId operationId : Bytes) (spoolAvailable : Bool)
    (validated : Except RawSpoolError Unit)
    (readInner : HostProgram A (Except RawSpoolError Json))
    (hfresh : AuditAction.artifactRead ∉ s.opened) :
    Respects (auditMonitor A) s
      (dispatchArtifactRead requestId operationId spoolAvailable validated readInner)
      (Answered s.opened) := by
  refine Respects.ite ?_ (answered_failure rfl requestId _)
  cases validated with
  | error error => exact answered_failure rfl requestId _
  | ok =>
    refine Respects.bind (auditedSpoolOperation_respects readInner hfresh) ?_
    rintro (error | result) t ht
    · exact answered_failure ht.opened requestId _
    · exact Respects.done ⟨ht.opened, fun _ => (ht.succeeded result rfl).2⟩

theorem dispatchControlAudit_respects (requestId : Bytes) (record : Nat → AuditRecord) :
    Respects (auditMonitor A) s (dispatchControlAudit requestId record)
      (Answered s.opened) := by
  refine ⟨trivial, ?_⟩
  rintro (_ | _) hpossible
  · exact answered_failure rfl requestId auditUnavailable
  · refine Respects.done ⟨rfl, fun _ => ?_⟩
    show (s.failed || false) = false
    rw [hpossible rfl]
    rfl

end Paths

theorem dispatchOne_respects (request : Request A) :
    Respects (auditMonitor A) Standing.initial (dispatchOne request) (Answered []) := by
  have hspool : SpoolFresh Standing.initial := ⟨List.not_mem_nil, List.not_mem_nil⟩
  cases request with
  | refused id error =>
    refine Respects.done ⟨rfl, ?_⟩
    rw [hasResult_errorResponse]
    exact nofun
  | hello requestId result => exact Respects.done ⟨rfl, fun _ => rfl⟩
  | controlAudit requestId record => exact dispatchControlAudit_respects requestId record
  | inspectRoot requestId inspect =>
    exact dispatchInspectRoot_respects requestId inspect List.not_mem_nil
  | skillSourceInspectRoot requestId available inspect =>
    exact dispatchSkillSourceInspectRoot_respects requestId available inspect List.not_mem_nil
  | skillSource requestId capabilityId method operation =>
    exact auditedSkillSourceOperation_respects requestId capabilityId _ operation
      List.not_mem_nil
  | workspace requestId capabilityId method operation =>
    exact auditedWorkspaceOperation_respects requestId capabilityId _ operation
      List.not_mem_nil
  | workspaceCancelExecutions requestId capabilityId cancelExecutions cancelWorkspace =>
    exact dispatchWorkspaceCancelExecutions_respects requestId capabilityId cancelExecutions
      cancelWorkspace List.not_mem_nil
  | gitRepositoryIdentity requestId capabilityId task =>
    exact gitDispatch_respects requestId _ _ _ task List.not_mem_nil hspool nofun nofun
  | gitOperation requestId capabilityId diff task =>
    cases diff <;>
      exact gitDispatch_respects requestId _ _ _ task List.not_mem_nil hspool nofun nofun
  | gitCheckpoint requestId capabilityId patch task =>
    cases patch <;>
      exact gitDispatch_respects requestId _ _ _ task List.not_mem_nil hspool nofun nofun
  | gitLocalMutation requestId capabilityId mutation task =>
    refine withPolicy_respects requestId capabilityId _ _ ?_
    cases mutation <;>
      exact gitDispatch_respects requestId _ _ _ task List.not_mem_nil hspool nofun nofun
  | gitWorktreeMutation requestId capabilityId mutation task =>
    refine withPolicy_respects requestId capabilityId _ _ ?_
    cases mutation <;>
      exact gitDispatch_respects requestId _ _ _ task List.not_mem_nil hspool nofun nofun
  | gitRemoteMutation requestId capabilityId remote refName inputValid mutation task =>
    refine withPolicy_respects requestId capabilityId _ _ ?_
    refine Respects.ite ?_ (answered_failure rfl requestId _)
    cases mutation <;>
      exact gitDispatch_respects requestId _ _ _ task List.not_mem_nil hspool nofun nofun
  | gitLog requestId capabilityId task =>
    exact gitDispatch_respects requestId _ _ _ task List.not_mem_nil hspool nofun nofun
  | gitShow requestId capabilityId task =>
    exact gitDispatch_respects requestId _ _ _ task List.not_mem_nil hspool nofun nofun
  | gitRange requestId capabilityId task =>
    exact gitDispatch_respects requestId _ _ _ task List.not_mem_nil hspool nofun nofun
  | gitHistoryDiff requestId capabilityId task =>
    exact gitDispatch_respects requestId _ _ _ task List.not_mem_nil hspool nofun nofun
  | processInspectExecutable requestId capabilityId available =>
    exact dispatchProcessInspectExecutable_respects requestId capabilityId available
      List.not_mem_nil
  | processRun requestId capabilityId operationId task =>
    exact dispatchProcessRunWithOperationId_respects requestId capabilityId operationId task
      List.not_mem_nil hspool
  | verifyRun requestId capabilityId operationId task =>
    exact dispatchVerifyRun_respects requestId capabilityId operationId task List.not_mem_nil
      List.not_mem_nil hspool
  | processOperation requestId capabilityId operationId cancel requireReady operation =>
    exact dispatchProcessOperation_respects requestId capabilityId operationId _ requireReady
      operation List.not_mem_nil
  | artifactWrite requestId spoolAvailable dataValid create writeSource =>
    exact dispatchArtifactWrite_respects requestId spoolAvailable dataValid create writeSource
      hspool
  | artifactRead requestId operationId spoolAvailable validated readInner =>
    exact dispatchArtifactRead_respects requestId operationId spoolAvailable validated
      readInner List.not_mem_nil

end Monitor

end KodeGpt.AuditOrdering
