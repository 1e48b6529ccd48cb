import KodeGpt.ProviderExecutions

/-!
What an execution reports about a mutation that was handed to the requester, and the
answers of a provider for which that is not enough.
-/

namespace KodeGpt.MutationOutcomes

open FallibleActions JsonText ProviderExecutions

variable {Input Value : Type}

def Success (statusCode : Nat) : Prop := 200 ≤ statusCode ∧ statusCode ≤ 299

def Reply.status : Reply → Option Nat
  | .complete head _ | .oversized head => some head.statusCode
  | .broken _ | .aborted _ => none

/-- The failure is the one that the transport has raised. -/
def Raised (x : Execution Input Value) (failure : Failure) : Prop :=
  ∃ admission credential raised world, checkAdmission x = .ok admission ∧
    prepare x admission.manifest admission.provider = .ok credential ∧
    requestAttempts x.allowed x.parseUrl admission.mapping admission.manifest admission.input
      credential x.first x.second World.start = .error raised world ∧
    failure = .provider (asProviderFailure raised)

/-- At most one request is sent, and once it was handed to the requester, the execution
returns, or tells that the outcome is unknown, or rejects with an error raised from an
answer of the provider that is not a success. -/
structure Accounted (x : Execution Input Value) : Prop where
  once : (finalState (execute x World.start)).sent.length ≤ 1
  reported : ∀ failure world, execute x World.start = .error failure world → world.sent ≠ [] →
    failure = mutationOutcomeUnknown ∨
      ∃ status, Reply.status x.first.first.reply = some status ∧ ¬Success status ∧
        Raised x failure

/-- What lets an execution get as far as the requester. -/
structure HandOff (x : Execution Input Value) where
  admission : Admission Input Value
  credential : Option Credential
  operation : Operation Input
  compiled : CompiledRequest
  answers : List Address
  address : Address
  admitted : checkAdmission x = .ok admission
  decided : x.decisionAudit = .ok ()
  prepared : prepare x admission.manifest admission.provider = .ok credential
  active : x.first.abortedBefore = none
  found : (admission.manifest.operations.find? fun operation =>
    operation.id = admission.mapping.adapterOperationId) = some operation
  compiles : operation.compile admission.input credential = .ok compiled
  claims : x.first.first.abortedBefore = none
  resolved : resolveHost x.first.first.lookup = .ok answers
  selected : selectProviderInternetAddress x.allowed answers = .ok address

def deferred (statusCode : Nat) : Bool :=
  200 ≤ statusCode && statusCode < 400 && !isRedirect statusCode || statusCode = 408 ||
    500 ≤ statusCode && statusCode ≤ 599

/-- A body that is too large does not come with a success, and a definite failure is
audited. The deadline may pass before a redirection that is permitted. -/
def Settled {x : Execution Input Value} (h : HandOff x) : Prop :=
  match x.first.first.reply with
  | .broken _ | .aborted _ => True
  | .oversized head => ¬Success head.statusCode ∧ x.failureAudit = .ok ()
  | .complete head _ =>
    deferred head.statusCode = true ∨ x.failureAudit = .ok () ∨
      (isRedirect head.statusCode = true ∧ x.first.second.abortedBefore ≠ none ∧
        ∃ target, redirectTarget x.parseUrl h.admission.manifest.redirect h.compiled.url
          head.location = .ok target)

def answered {x : Execution Input Value} (h : HandOff x) : Except Failure RawResponse := do
  let first ← checkReply x.first.first.reply
  if isRedirect first.head.statusCode = false then
    normalizeStatus first h.compiled.url.origin h.credential.isSome
  else
    let _ ← redirectTarget x.parseUrl h.admission.manifest.redirect h.compiled.url
      first.head.location
    match x.first.second.abortedBefore with
    | some reason => .error (abortError reason)
    | none => .error (.of .requestFailed "Provider request budget is exhausted")

def handedOver {x : Execution Input Value} (h : HandOff x) : World where
  requests := 1
  sent := [⟨h.address, h.compiled.url, h.operation.method, h.compiled.headers, h.compiled.body⟩]

def settle {α : Type} (world : World) : Except Failure α → EStateM.Result Failure World α
  | .ok value => .ok value world
  | .error failure => .error failure world

theorem reporting_ok {x : Execution Input Value} {mapping : Mapping Input Value}
    {started received : Bool} {α : Type} {action : EStateM Failure World α} {s t : World}
    {value : α} (hrun : action s = .ok value t) :
    reporting x mapping started received action s = .ok value t := by
  show EStateM.tryCatch action _ s = _
  rw [EStateM.tryCatch, hrun]

theorem reporting_error {x : Execution Input Value} {mapping : Mapping Input Value}
    {started received : Bool} {α : Type} {action : EStateM Failure World α} {s t : World}
    {failure : Failure} (hrun : action s = .error failure t) :
    reporting x mapping started received action s =
      .error (classify x mapping started received failure) t := by
  show EStateM.tryCatch action _ s = _
  rw [EStateM.tryCatch, hrun]
  rfl

section Attempts

variable {x : Execution Input Value} {mapping : Mapping Input Value} {manifest : Manifest Input}
  {input : Input} {credential : Option Credential} {s t : World}

theorem requestAttempts_of_ok {response : RawResponse}
    (hrun : request x.allowed x.parseUrl mapping.maxProviderRequests manifest
      mapping.adapterOperationId input credential x.first s = .ok response t) :
    requestAttempts x.allowed x.parseUrl mapping manifest input credential x.first x.second s =
      .ok response t := by
  show EStateM.tryCatch (request x.allowed x.parseUrl _ _ _ _ _ x.first) _ s = _
  rw [EStateM.tryCatch, hrun]

theorem requestAttempts_of_error (hmutation : mapping.effect = .remoteMutation)
    {failure : Failure} (hrun : request x.allowed x.parseUrl mapping.maxProviderRequests manifest
      mapping.adapterOperationId input credential x.first s = .error failure t) :
    requestAttempts x.allowed x.parseUrl mapping manifest input credential x.first x.second s =
      .error failure t := by
  have hretry : canRetry mapping 0 t.requests x.second.abortedBefore.isSome = false := by
    unfold canRetry
    rw [hmutation]
    simp
  show EStateM.tryCatch (request x.allowed x.parseUrl _ _ _ _ _ x.first) _ s = _
  rw [EStateM.tryCatch, hrun]
  show (if _ then _ else _ : EStateM Failure World RawResponse) t = _
  rw [if_neg]
  · rfl
  · rintro ⟨hcan, -⟩
    exact Bool.false_ne_true (hretry.symm.trans hcan)

end Attempts

section HandedOver

variable {x : Execution Input Value} (h : HandOff x)

theorem requestOnce_first : requestOnce x.allowed 1 h.operation.method h.compiled x.first.first
    World.start = settle (handedOver h) (checkReply x.first.first.reply) := by
  unfold requestOnce claimRequest
  rw [h.claims, h.resolved]
  show (MonadExcept.ofExcept (selectProviderInternetAddress x.allowed h.answers) >>= _ :
    EStateM Failure World HttpsResponse) ⟨1, []⟩ = _
  rw [h.selected]
  show (MonadExcept.ofExcept (checkReply x.first.first.reply) :
    EStateM Failure World HttpsResponse) (handedOver h) = _
  cases checkReply x.first.first.reply with
  | ok response => rfl
  | error failure => rfl

theorem requestOnce_second (method : Method) (compiled : CompiledRequest) (exchange : Exchange) :
    requestOnce x.allowed 1 method compiled exchange (handedOver h) =
      .error (match exchange.abortedBefore with
        | some reason => abortError reason
        | none => .of .requestFailed "Provider request budget is exhausted") (handedOver h) := by
  unfold requestOnce claimRequest
  cases exchange.abortedBefore with
  | some reason => rfl
  | none => rfl

theorem request_handedOver : request x.allowed x.parseUrl 1 h.admission.manifest
    h.admission.mapping.adapterOperationId h.admission.input h.credential x.first World.start =
      settle (handedOver h) (answered h) := by
  unfold request
  rw [h.active, h.found]
  show (MonadExcept.ofExcept (h.operation.compile h.admission.input h.credential) >>= _ :
    EStateM Failure World RawResponse) World.start = _
  rw [h.compiles]
  show EStateM.bind (requestOnce x.allowed 1 h.operation.method h.compiled x.first.first) _
    World.start = _
  rw [EStateM.bind, requestOnce_first]
  unfold answered
  cases checkReply x.first.first.reply with
  | error failure => rfl
  | ok first =>
    by_cases hredirect : isRedirect first.head.statusCode = false
    · show (if isRedirect first.head.statusCode = false then _ else _ :
        EStateM Failure World RawResponse) (handedOver h) = settle (handedOver h) (if _ then _ else _)
      rw [if_pos hredirect, if_pos hredirect]
      cases normalizeStatus first h.compiled.url.origin h.credential.isSome with
      | ok response => rfl
      | error failure => rfl
    · show (if isRedirect first.head.statusCode = false then _ else _ :
        EStateM Failure World RawResponse) (handedOver h) = settle (handedOver h) (if _ then _ else _)
      rw [if_neg hredirect, if_neg hredirect]
      cases redirectTarget x.parseUrl h.admission.manifest.redirect h.compiled.url
        first.head.location with
      | error failure => rfl
      | ok target =>
        show EStateM.bind (requestOnce x.allowed 1 _ _ x.first.second) _ (handedOver h) = _
        rw [EStateM.bind, requestOnce_second]
        cases x.first.second.abortedBefore with
        | some reason => rfl
        | none => rfl

variable (hmutation : h.admission.mapping.effect = .remoteMutation)

include hmutation in
theorem requestAttempts_handedOver : requestAttempts x.allowed x.parseUrl h.admission.mapping
    h.admission.manifest h.admission.input h.credential x.first x.second World.start =
      settle (handedOver h) (answered h) := by
  obtain ⟨-, hlimit⟩ := h.admission.mapping.once hmutation
  have hrequest := request_handedOver h
  rw [← hlimit] at hrequest
  cases hanswered : answered h with
  | ok response =>
    rw [hanswered] at hrequest
    exact requestAttempts_of_ok hrequest
  | error failure =>
    rw [hanswered] at hrequest
    exact requestAttempts_of_error hmutation hrequest

include hmutation in
theorem execute_handedOver : execute x World.start =
    match answered h with
    | .error failure =>
      .error (classify x h.admission.mapping true false failure) (handedOver h)
    | .ok response =>
      match conclude x h.admission response with
      | .ok result => .ok result (handedOver h)
      | .error failure =>
        .error (classify x h.admission.mapping true true failure) (handedOver h) := by
  unfold execute
  rw [h.admitted, h.decided]
  show EStateM.bind (reporting x h.admission.mapping false false (MonadExcept.ofExcept
    (prepare x h.admission.manifest h.admission.provider))) _ World.start = _
  rw [h.prepared]
  show EStateM.bind (reporting x h.admission.mapping true false (requestAttempts x.allowed
    x.parseUrl h.admission.mapping h.admission.manifest h.admission.input h.credential x.first
      x.second)) _ World.start = _
  rw [EStateM.bind]
  have hattempts := requestAttempts_handedOver h hmutation
  cases hanswered : answered h with
  | error failure =>
    rw [hanswered] at hattempts
    rw [reporting_error hattempts]
  | ok response =>
    rw [hanswered] at hattempts
    rw [reporting_ok hattempts]
    show reporting x h.admission.mapping true true
      (MonadExcept.ofExcept (conclude x h.admission response)) (handedOver h) =
        match conclude x h.admission response with
        | .ok result => .ok result (handedOver h)
        | .error failure =>
          .error (classify x h.admission.mapping true true failure) (handedOver h)
    cases conclude x h.admission response with
    | ok result => rfl
    | error failure => rfl

end HandedOver

section NotHandedOver

variable {x : Execution Input Value} (hnone : HandOff x → False)

include hnone in
theorem request_unsent {admission : Admission Input Value} {credential : Option Credential}
    (hadmission : checkAdmission x = .ok admission) (hdecision : x.decisionAudit = .ok ())
    (hprepare : prepare x admission.manifest admission.provider = .ok credential)
    (hlimit : admission.mapping.maxProviderRequests = 1) :
    ∃ failure world, request x.allowed x.parseUrl admission.mapping.maxProviderRequests
      admission.manifest admission.mapping.adapterOperationId admission.input credential x.first
        World.start = .error failure world ∧ world.sent = [] := by
  rw [hlimit]
  unfold request
  cases hactive : x.first.abortedBefore with
  | some reason => exact ⟨_, _, rfl, rfl⟩
  | none =>
    cases hfind : admission.manifest.operations.find? fun operation =>
        operation.id = admission.mapping.adapterOperationId with
    | none => exact ⟨_, _, rfl, rfl⟩
    | some operation =>
      show ∃ failure world, (MonadExcept.ofExcept (operation.compile admission.input
        credential) >>= _ : EStateM Failure World RawResponse) World.start =
          .error failure world ∧ world.sent = []
      cases hcompile : operation.compile admission.input credential with
      | error failure => exact ⟨_, _, rfl, rfl⟩
      | ok compiled =>
        show ∃ failure world, EStateM.bind (requestOnce x.allowed 1 operation.method compiled
          x.first.first) _ World.start = .error failure world ∧ world.sent = []
        unfold requestOnce claimRequest
        cases hclaims : x.first.first.abortedBefore with
        | some reason => exact ⟨_, _, rfl, rfl⟩
        | none =>
          cases hresolve : resolveHost x.first.first.lookup with
          | error failure => exact ⟨_, _, rfl, rfl⟩
          | ok answers =>
            cases hselect : selectProviderInternetAddress x.allowed answers with
            | error failure =>
              refine ⟨failure, ⟨1, []⟩, ?_, rfl⟩
              show EStateM.bind (MonadExcept.ofExcept
                (selectProviderInternetAddress x.allowed answers) >>= _) _
                  (World.mk 1 []) = _
              rw [hselect]
              rfl
            | ok address =>
              exact (hnone ⟨admission, credential, operation, compiled, answers,
                address, hadmission, hdecision, hprepare, hactive, hfind, hcompile,
                hclaims, hresolve, hselect⟩).elim

include hnone in
theorem execute_unsent (hmutation : ∀ admission, checkAdmission x = .ok admission →
    admission.mapping.effect = .remoteMutation) :
    (finalState (execute x World.start)).sent = [] := by
  unfold execute
  cases hadmission : checkAdmission x with
  | error failure => rfl
  | ok admission =>
    cases hdecision : x.decisionAudit with
    | error failure => rfl
    | ok decided =>
      have hmutates := hmutation admission hadmission
      show (finalState (EStateM.bind (reporting x admission.mapping false false
        (MonadExcept.ofExcept (prepare x admission.manifest admission.provider))) _
          World.start)).sent = []
      cases hprepare : prepare x admission.manifest admission.provider with
      | error failure => rfl
      | ok credential =>
        obtain ⟨-, hlimit⟩ := admission.mapping.once hmutates
        obtain ⟨failure, world, hrequest, hsent⟩ :=
          request_unsent hnone hadmission hdecision hprepare hlimit
        have hattempts := requestAttempts_of_error hmutates hrequest
        show (finalState (EStateM.bind (reporting x admission.mapping true false
          (requestAttempts x.allowed x.parseUrl admission.mapping admission.manifest
            admission.input credential x.first x.second)) _ World.start)).sent = []
        rw [EStateM.bind, reporting_error hattempts]
        exact hsent

end NotHandedOver

theorem receive_bounded {head : Option Head} {received : Bytes} {events : List ExchangeEvent}
    {last : Head} {body : Bytes} (hreceived : received.length ≤ maxMetadataResponseBytes)
    (hreply : receive head received events = .complete last body) :
    body.length ≤ maxMetadataResponseBytes := by
  induction events generalizing head received with
  | nil =>
    unfold receive at hreply
    cases hreply
  | cons event rest ih =>
    cases event with
    | aborted reason =>
      unfold receive at hreply
      cases hreply
    | failed timedOut =>
      unfold receive at hreply
      cases hreply
    | answer next =>
      cases head with
      | none => exact ih hreceived hreply
      | some head => exact ih hreceived hreply
    | ended =>
      cases head with
      | none => exact ih hreceived hreply
      | some head =>
        obtain ⟨-, rfl⟩ := Reply.complete.inj hreply
        exact hreceived
    | data chunk =>
      cases head with
      | none => exact ih hreceived hreply
      | some head =>
        unfold receive at hreply
        split at hreply
        · cases hreply
        · rename_i hsize
          refine ih ?_ hreply
          rw [List.length_append]
          exact Nat.le_of_not_lt hsize

/-- A failure whose code is the transport's own. -/
def Plain (failure : Failure) : Prop :=
  (asProviderFailure failure).code ≠ .auditUnavailable ∧
    (asProviderFailure failure).code ≠ .mutationOutcomeUnknown

section Conditions

variable {x : Execution Input Value} (h : HandOff x)
variable (hmutation : h.admission.mapping.effect = .remoteMutation)

include hmutation in
theorem accounted_of_ok {response : RawResponse} (hanswered : answered h = .ok response) :
    Accounted x := by
  have hexecute := execute_handedOver h hmutation
  rw [hanswered] at hexecute
  change execute x World.start = (match conclude x h.admission response with
    | .ok result => .ok result (handedOver h)
    | .error failure =>
      .error (classify x h.admission.mapping true true failure) (handedOver h)) at hexecute
  cases hconclude : conclude x h.admission response with
  | ok result =>
    rw [hconclude] at hexecute
    refine ⟨?_, ?_⟩
    · rw [hexecute]
      exact Nat.le_refl 1
    · intro failure world hfailure
      rw [hexecute] at hfailure
      cases hfailure
  | error raised =>
    rw [hconclude] at hexecute
    refine ⟨?_, ?_⟩
    · rw [hexecute]
      exact Nat.le_refl 1
    · intro failure world hfailure hsent
      rw [hexecute] at hfailure
      obtain ⟨rfl, rfl⟩ := EStateM.Result.error.inj hfailure
      refine Or.inl ?_
      unfold classify
      exact if_pos ⟨hmutation, Or.inl rfl⟩

include hmutation in
theorem accounted_iff_of_error {raised : Failure} (hanswered : answered h = .error raised)
    (hplain : Plain raised) : Accounted x ↔
      isAmbiguousMutationFailure (asProviderFailure raised) = true ∨
        (x.failureAudit = .ok () ∧
          ∃ status, Reply.status x.first.first.reply = some status ∧ ¬Success status) := by
  have hexecute := execute_handedOver h hmutation
  rw [hanswered] at hexecute
  change execute x World.start =
    .error (classify x h.admission.mapping true false raised) (handedOver h) at hexecute
  have honce : (finalState (execute x World.start)).sent.length ≤ 1 := by
    rw [hexecute]
    exact Nat.le_refl 1
  have hattempts := requestAttempts_handedOver h hmutation
  rw [hanswered] at hattempts
  by_cases hambiguous : isAmbiguousMutationFailure (asProviderFailure raised) = true
  · refine iff_of_true ⟨honce, ?_⟩ (Or.inl hambiguous)
    intro failure world hfailure hsent
    rw [hexecute] at hfailure
    obtain ⟨rfl, rfl⟩ := EStateM.Result.error.inj hfailure
    refine Or.inl ?_
    unfold classify
    exact if_pos ⟨hmutation, Or.inr ⟨rfl, hambiguous⟩⟩
  · have hdetermined : ¬(h.admission.mapping.effect = .remoteMutation ∧ (false = true ∨
        (true = true ∧ isAmbiguousMutationFailure (asProviderFailure raised) = true))) := by
      rintro ⟨-, hreceived | ⟨-, htrue⟩⟩
      · cases hreceived
      · exact hambiguous htrue
    have hclassify : classify x h.admission.mapping true false raised = _ := if_neg hdetermined
    rw [hclassify] at hexecute
    cases haudit : x.failureAudit with
    | error unrecorded =>
      rw [haudit] at hexecute
      refine iff_of_false ?_ ?_
      · intro haccounted
        obtain hunknown | ⟨status, -, -, admission, credential, failure, world, hadmission, hprepare,
            hfailure, hraised⟩ := haccounted.reported _ _ hexecute (List.cons_ne_nil _ _)
        · cases hunknown
        · obtain rfl := Except.ok.inj (h.admitted.symm.trans hadmission)
          obtain rfl := Except.ok.inj (h.prepared.symm.trans hprepare)
          obtain ⟨rfl, -⟩ := EStateM.Result.error.inj (hattempts.symm.trans hfailure)
          exact hplain.1 (congrArg CapabilityError.code (Failure.provider.inj hraised)).symm
      · rintro (htrue | ⟨hrecorded, -⟩)
        · exact hambiguous htrue
        · cases hrecorded
    | ok recorded =>
      rw [haudit] at hexecute
      constructor
      · intro haccounted
        obtain hunknown | ⟨status, hstatus, hsuccess, -⟩ :=
          haccounted.reported _ _ hexecute (List.cons_ne_nil _ _)
        · exact absurd (congrArg CapabilityError.code (Failure.provider.inj hunknown)) hplain.2
        · exact Or.inr ⟨rfl, status, hstatus, hsuccess⟩
      · rintro (htrue | ⟨-, status, hstatus, hsuccess⟩)
        · exact absurd htrue hambiguous
        · refine ⟨honce, ?_⟩
          intro failure world hfailure hsent
          rw [hexecute] at hfailure
          obtain ⟨rfl, rfl⟩ := EStateM.Result.error.inj hfailure
          exact Or.inr ⟨status, hstatus, hsuccess, h.admission, h.credential, raised,
            handedOver h, h.admitted, h.prepared, hattempts, rfl⟩

end Conditions

theorem abortError_ambiguous (reason : AbortReason) : Plain (abortError reason) ∧
    isAmbiguousMutationFailure (asProviderFailure (abortError reason)) = true := by
  cases reason with
  | _ => exact ⟨⟨nofun, nofun⟩, rfl⟩

theorem isRedirect_mem {statusCode : Nat} (hredirect : isRedirect statusCode = true) :
    statusCode ∈ [301, 302, 303, 307, 308] := List.contains_iff_mem.mp hredirect

theorem deferred_redirect {statusCode : Nat} (hredirect : isRedirect statusCode = true) :
    deferred statusCode = false ∧ ¬Success statusCode := by
  have hmem := isRedirect_mem hredirect
  unfold deferred Success
  rw [hredirect]
  simp only [List.mem_cons, List.not_mem_nil, or_false] at hmem
  simp only [Bool.not_true, Bool.and_false, Bool.false_or, Bool.or_eq_false_iff,
    Bool.and_eq_false_iff, decide_eq_false_iff_not]
  omega

theorem deferred_invalid {statusCode : Nat} (hinvalid : statusCode < 100 ∨ 599 < statusCode) :
    deferred statusCode = false ∧ ¬Success statusCode := by
  unfold deferred Success
  simp only [Bool.or_eq_false_iff, Bool.and_eq_false_iff, decide_eq_false_iff_not]
  omega

theorem redirectTarget_plain {parseUrl : Url → String → Option Url}
    {redirect : Option RedirectPolicy} {url : Url} {location : Option String} {failure : Failure}
    (hfailure : redirectTarget parseUrl redirect url location = .error failure) :
    Plain failure ∧ isAmbiguousMutationFailure (asProviderFailure failure) = false := by
  unfold redirectTarget at hfailure
  repeat' split at hfailure
  all_goals cases hfailure <;> exact ⟨⟨nofun, nofun⟩, rfl⟩

theorem normalizeStatus_cases (response : HttpsResponse) (finalOrigin : String)
    (hadCredential : Bool) (hredirect : isRedirect response.head.statusCode = false)
    (hvalid : response.head.statusCode ≤ 599) :
    ((∃ raw, normalizeStatus response finalOrigin hadCredential = .ok raw) ∧
        deferred response.head.statusCode = true) ∨
      ∃ failure, normalizeStatus response finalOrigin hadCredential = .error failure ∧
        Plain failure ∧
        isAmbiguousMutationFailure (asProviderFailure failure) =
          deferred response.head.statusCode ∧ ¬Success response.head.statusCode := by
  generalize hstatus : response.head.statusCode = statusCode at hredirect hvalid
  unfold normalizeStatus deferred Success
  rw [hredirect, hstatus]
  dsimp only
  split
  · refine Or.inr ⟨_, rfl, ⟨nofun, nofun⟩, ?_, ?_⟩
    · rename_i hcode
      subst hcode
      rfl
    · omega
  split
  · rename_i hcode
    refine Or.inr ⟨_, rfl, ⟨nofun, nofun⟩, ?_, ?_⟩
    · obtain ⟨rfl | rfl, -⟩ := hcode
      · rfl
      · rfl
    · omega
  split
  · rename_i hcode
    refine Or.inr ⟨_, rfl, ⟨nofun, nofun⟩, ?_, ?_⟩
    · obtain rfl | rfl := hcode
      · rfl
      · rfl
    · omega
  split
  · rename_i hcode
    refine Or.inr ⟨_, rfl, ⟨nofun, nofun⟩, ?_, ?_⟩
    · symm
      show _ = true
      simp only [Bool.or_eq_true, Bool.and_eq_true, decide_eq_true_eq]
      exact Or.inr ⟨hcode, hvalid⟩
    · omega
  split
  · rename_i hcode
    refine Or.inr ⟨_, rfl, ⟨nofun, nofun⟩, ?_, ?_⟩
    · symm
      show _ = false
      simp only [Bool.or_eq_false_iff, Bool.and_eq_false_iff, decide_eq_false_iff_not]
      omega
    · omega
  · rename_i hcode
    refine Or.inl ⟨⟨_, rfl⟩, ?_⟩
    simp only [Bool.or_eq_true, Bool.and_eq_true, decide_eq_true_eq, Bool.not_false, and_true]
    omega

theorem accounted_iff_audited {x : Execution Input Value} (h : HandOff x)
    (hmutation : h.admission.mapping.effect = .remoteMutation) {head : Head} {body : Bytes}
    (hreply : x.first.first.reply = .complete head body) {raised : Failure}
    (hanswered : answered h = .error raised) (hplain : Plain raised)
    (hsuccess : ¬Success head.statusCode) : Accounted x ↔
      isAmbiguousMutationFailure (asProviderFailure raised) = true ∨ x.failureAudit = .ok () := by
  rw [accounted_iff_of_error h hmutation hanswered hplain, hreply]
  constructor
  · rintro (hambiguous | ⟨haudit, -⟩)
    · exact Or.inl hambiguous
    · exact Or.inr haudit
  · rintro (hambiguous | haudit)
    · exact Or.inl hambiguous
    · exact Or.inr ⟨haudit, head.statusCode, rfl, hsuccess⟩

theorem accounted_iff_complete {x : Execution Input Value} (h : HandOff x)
    (hmutation : h.admission.mapping.effect = .remoteMutation) {head : Head} {body : Bytes}
    (hreply : x.first.first.reply = .complete head body) : Accounted x ↔
      (deferred head.statusCode = true ∨ x.failureAudit = .ok () ∨
        (isRedirect head.statusCode = true ∧ x.first.second.abortedBefore ≠ none ∧
          ∃ target, redirectTarget x.parseUrl h.admission.manifest.redirect h.compiled.url
            head.location = .ok target)) := by
  have hbody : ¬maxMetadataResponseBytes < body.length :=
    Nat.not_lt.mpr (receive_bounded (Nat.zero_le _) hreply)
  by_cases hinvalid : head.statusCode < 100 ∨ 599 < head.statusCode
  · obtain ⟨hdeferred, hsuccess⟩ := deferred_invalid hinvalid
    have hredirect : isRedirect head.statusCode ≠ true := by
      intro hredirect
      have hmem := isRedirect_mem hredirect
      simp only [List.mem_cons, List.not_mem_nil, or_false] at hmem
      omega
    have hanswered : answered h =
        .error (responseInvalid "Provider returned an invalid HTTP status") := by
      unfold answered checkReply
      rw [hreply]
      dsimp only
      rw [if_neg hbody, if_pos hinvalid]
      rfl
    rw [accounted_iff_audited h hmutation hreply hanswered ⟨nofun, nofun⟩ hsuccess, hdeferred]
    constructor
    · rintro (hambiguous | haudit)
      · cases hambiguous
      · exact Or.inr (Or.inl haudit)
    · rintro (hfalse | haudit | ⟨htrue, -⟩)
      · cases hfalse
      · exact Or.inr haudit
      · exact absurd htrue hredirect
  have hchecked : checkReply x.first.first.reply = .ok ⟨head, body⟩ := by
    rw [hreply]
    unfold checkReply
    dsimp only
    rw [if_neg hbody, if_neg hinvalid]
  by_cases hredirect : isRedirect head.statusCode = true
  · obtain ⟨hdeferred, hsuccess⟩ := deferred_redirect hredirect
    have hanswer : answered h = (redirectTarget x.parseUrl h.admission.manifest.redirect
        h.compiled.url head.location >>= fun _ =>
          match x.first.second.abortedBefore with
          | some reason => .error (abortError reason)
          | none => .error (.of .requestFailed "Provider request budget is exhausted")) := by
      unfold answered
      rw [hchecked]
      show (if isRedirect head.statusCode = false then _ else _) = _
      rw [if_neg (by rw [hredirect]; exact Bool.noConfusion)]
    rw [hdeferred]
    cases htarget : redirectTarget x.parseUrl h.admission.manifest.redirect h.compiled.url
      head.location with
    | error failure =>
      rw [htarget] at hanswer
      obtain ⟨hplain, hambiguous⟩ := redirectTarget_plain htarget
      rw [accounted_iff_audited h hmutation hreply hanswer hplain hsuccess, hambiguous]
      constructor
      · rintro (hfalse | haudit)
        · cases hfalse
        · exact Or.inr (Or.inl haudit)
      · rintro (hfalse | haudit | ⟨-, -, target, htarget⟩)
        · cases hfalse
        · exact Or.inr haudit
        · cases htarget
    | ok target =>
      rw [htarget] at hanswer
      cases habort : x.first.second.abortedBefore with
      | some reason =>
        rw [habort] at hanswer
        obtain ⟨hplain, hambiguous⟩ := abortError_ambiguous reason
        rw [accounted_iff_audited h hmutation hreply hanswer hplain hsuccess]
        exact iff_of_true (Or.inl hambiguous)
          (Or.inr (Or.inr ⟨hredirect, Option.some_ne_none reason, target, rfl⟩))
      | none =>
        rw [habort] at hanswer
        rw [accounted_iff_audited h hmutation hreply hanswer ⟨nofun, nofun⟩ hsuccess]
        constructor
        · rintro (hfalse | haudit)
          · cases hfalse
          · exact Or.inr (Or.inl haudit)
        · rintro (hfalse | haudit | ⟨-, habsent, -⟩)
          · cases hfalse
          · exact Or.inr haudit
          · exact absurd rfl habsent
  · have hplainStatus : isRedirect head.statusCode = false := by simpa using hredirect
    have hanswer : answered h =
        normalizeStatus ⟨head, body⟩ h.compiled.url.origin h.credential.isSome := by
      unfold answered
      rw [hchecked]
      exact if_pos hplainStatus
    obtain ⟨⟨raw, hraw⟩, hdeferred⟩ | ⟨failure, hfailure, hplain, hambiguous, hsuccess⟩ :=
      normalizeStatus_cases ⟨head, body⟩ h.compiled.url.origin h.credential.isSome hplainStatus
        (Nat.le_of_not_lt fun hlarge => hinvalid (Or.inr hlarge))
    · exact iff_of_true (accounted_of_ok h hmutation (hanswer.trans hraw)) (Or.inl hdeferred)
    · rw [accounted_iff_audited h hmutation hreply (hanswer.trans hfailure) hplain hsuccess,
        hambiguous]
      constructor
      · rintro (hdeferred | haudit)
        · exact Or.inl hdeferred
        · exact Or.inr (Or.inl haudit)
      · rintro (hdeferred | haudit | ⟨htrue, -⟩)
        · exact Or.inl hdeferred
        · exact Or.inr haudit
        · exact absurd htrue hredirect

theorem accounted_iff_settled {x : Execution Input Value} (h : HandOff x)
    (hmutation : h.admission.mapping.effect = .remoteMutation) : Accounted x ↔ Settled h := by
  unfold Settled
  cases hreply : x.first.first.reply with
  | aborted reason =>
    obtain ⟨hplain, hambiguous⟩ := abortError_ambiguous reason
    have hanswered : answered h = .error (abortError reason) := by
      unfold answered
      rw [hreply]
      rfl
    rw [accounted_iff_of_error h hmutation hanswered hplain]
    exact iff_of_true (Or.inl hambiguous) trivial
  | broken timedOut =>
    obtain ⟨raised, hanswered, hplain, hambiguous⟩ : ∃ raised, answered h = .error raised ∧
        Plain raised ∧ isAmbiguousMutationFailure (asProviderFailure raised) = true := by
      unfold answered
      rw [hreply]
      cases timedOut with
      | true => exact ⟨_, rfl, ⟨nofun, nofun⟩, rfl⟩
      | false => exact ⟨_, rfl, ⟨nofun, nofun⟩, rfl⟩
    rw [accounted_iff_of_error h hmutation hanswered hplain]
    exact iff_of_true (Or.inl hambiguous) trivial
  | oversized head =>
    have hanswered : answered h = .error
        (responseInvalid "Provider response exceeded its bounded transport size") := by
      unfold answered
      rw [hreply]
      rfl
    rw [accounted_iff_of_error h hmutation hanswered ⟨nofun, nofun⟩, hreply]
    constructor
    · rintro (hambiguous | ⟨haudit, status, hstatus, hsuccess⟩)
      · cases hambiguous
      · obtain rfl := Option.some.inj hstatus
        exact ⟨hsuccess, haudit⟩
    · rintro ⟨hsuccess, haudit⟩
      exact Or.inr ⟨haudit, head.statusCode, rfl, hsuccess⟩
  | complete head body =>
    exact accounted_iff_complete h hmutation hreply

theorem not_accounted_of_oversized {x : Execution Input Value} (h : HandOff x)
    (hmutation : h.admission.mapping.effect = .remoteMutation) {head : Head}
    (hreply : x.first.first.reply = .oversized head) (hsuccess : Success head.statusCode) :
    ¬Accounted x := by
  intro haccounted
  have hsettled := (accounted_iff_settled h hmutation).mp haccounted
  unfold Settled at hsettled
  rw [hreply] at hsettled
  exact hsettled.1 hsuccess

/-- A mutation is accounted for exactly when its answer settles it, if it gets as far as
the requester. -/
theorem accounted_iff (x : Execution Input Value) (hmutation : ∀ admission,
    checkAdmission x = .ok admission → admission.mapping.effect = .remoteMutation) :
    Accounted x ↔ ∀ h : HandOff x, Settled h := by
  constructor
  · intro haccounted h
    exact (accounted_iff_settled h (hmutation h.admission h.admitted)).mp haccounted
  · intro hsettled
    by_cases hnone : Nonempty (HandOff x)
    · obtain ⟨h⟩ := hnone
      exact (accounted_iff_settled h (hmutation h.admission h.admitted)).mpr (hsettled h)
    · have hsent := execute_unsent (fun h => hnone ⟨h⟩) hmutation
      refine ⟨?_, ?_⟩
      · rw [hsent]
        exact Nat.zero_le 1
      · intro failure world hfailure hworld
        rw [hfailure] at hsent
        exact absurd hsent hworld

def issueMapping : Mapping Unit Unit where
  semanticCapabilityId := "github.issue.create"
  adapterId := "github-write"
  adapterOperationId := "issue.create"
  effect := .remoteMutation
  workspaceBinding := .none
  inputSchema := some
  output := fun _ _ => .ok ()
  maxProviderRequests := 1
  retry := .none
  bounded := by decide
  once := fun _ => ⟨rfl, rfl⟩

def issueUrl : Url := ⟨"https://api.github.com", "api.github.com", "/repos/o/r/issues", true⟩

def issueManifest : Manifest Unit where
  adapterId := "github-write"
  adapterContractVersion := "1"
  inventoryMode := .static
  redirect := none
  operations := [⟨"issue.create", .post, fun _ _ => .ok ⟨issueUrl, [], some []⟩⟩]

def issueProvider : ProviderRecord where
  providerInstanceId := "provider"
  adapterId := "github-write"
  adapterContractVersion := "1"
  enabled := true
  implementationFingerprint := "fingerprint"
  inventoryMode := .static
  approvedInventoryFingerprint := none

/-- An enabled provider creates an issue; `events` is what its answer does. -/
def issueExecution (events : List ExchangeEvent) : Execution Unit Unit where
  parseSemanticInput := .ok ⟨"github.issue.create", "provider", none, ()⟩
  requireMapping := fun _ => .ok issueMapping
  getProvider := fun _ => .ok (some issueProvider)
  requireAdapter := fun _ => .ok issueManifest
  resolveIdentity := fun _ _ => .ok "fingerprint"
  resolveWorkspace := fun _ => .error .other
  operationId := .ok "op_1"
  decisionAudit := .ok ()
  acquireCredential := .ok none
  fetchInventory := .error .other
  allowed := fun _ => true
  parseUrl := fun _ _ => none
  first := ⟨none, ⟨none, .answers [⟨"140.82.112.6", .v4⟩], events⟩, ⟨none, .failed none, []⟩⟩
  second := ⟨none, ⟨none, .failed none, []⟩, ⟨none, .failed none, []⟩⟩
  fit := .ok
  successAudit := .ok ()
  failureAudit := .ok ()

theorem issueExecution_mutates (events : List ExchangeEvent) (admission : Admission Unit Unit)
    (hadmission : checkAdmission (issueExecution events) = .ok admission) :
    admission.mapping.effect = .remoteMutation := by
  obtain rfl := Except.ok.inj hadmission
  rfl

def issueHandOff (events : List ExchangeEvent) : HandOff (issueExecution events) where
  admission := ⟨issueMapping, issueManifest, issueProvider, ()⟩
  credential := none
  operation := ⟨"issue.create", .post, fun _ _ => .ok ⟨issueUrl, [], some []⟩⟩
  compiled := ⟨issueUrl, [], some []⟩
  answers := [⟨"140.82.112.6", .v4⟩]
  address := ⟨"140.82.112.6", .v4⟩
  admitted := rfl
  decided := rfl
  prepared := rfl
  active := rfl
  found := rfl
  compiles := rfl
  claims := rfl
  resolved := rfl
  selected := rfl

theorem issueCreated_accounted : Accounted (issueExecution [.answer ⟨201, none⟩, .ended]) :=
  (accounted_iff _ (issueExecution_mutates _)).mpr fun _ => Or.inl rfl

def oversizedAnswer : List ExchangeEvent :=
  [.answer ⟨201, none⟩, .data (List.replicate (maxMetadataResponseBytes + 1) 32)]

theorem receive_oversized {head : Head} {received chunk : Bytes} {rest : List ExchangeEvent}
    (hsize : maxMetadataResponseBytes < received.length + chunk.length) :
    receive (some head) received (.data chunk :: rest) = .oversized head := by
  unfold receive
  exact if_pos hsize

theorem oversizedAnswer_reply :
    (issueExecution oversizedAnswer).first.first.reply = .oversized ⟨201, none⟩ := by
  refine receive_oversized ?_
  rw [List.length_replicate, List.length_nil, Nat.zero_add]
  exact Nat.lt_add_one maxMetadataResponseBytes

/-- An issue is created, and the execution reports that the response is invalid. -/
theorem oversized_not_accounted : ¬∀ x : Execution Unit Unit,
    (∀ admission, checkAdmission x = .ok admission → admission.mapping.effect = .remoteMutation) →
      Accounted x := by
  intro h
  refine not_accounted_of_oversized (issueHandOff oversizedAnswer) ?_ oversizedAnswer_reply ?_
    (h _ (issueExecution_mutates oversizedAnswer))
  · unfold issueHandOff
    rfl
  · exact ⟨by decide, by decide⟩

end KodeGpt.MutationOutcomes
