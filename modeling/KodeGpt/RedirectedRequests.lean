import KodeGpt.CompiledRequests

/-!
What an attempt sends: the compiled request and, after a redirection that the policy permits,
a second one to the policy's target, which has nothing of the credential.
-/

namespace KodeGpt.RedirectedRequests

open FallibleActions JsFrames ProviderExecutions
open CompiledRequests (CompiledOperation OperationDefinition)

def IsFirst (compiled : CompiledRequest) (request : HttpsRequest) : Prop :=
  request.url = compiled.url ∧ request.headers = compiled.headers ∧ request.body = compiled.body

def authorizationName : String := "authorization"

/-- The second request goes to the policy's target, without the credential's header. -/
structure IsSecond (redirect : Option RedirectPolicy) (compiled : CompiledRequest)
    (request : HttpsRequest) : Prop where
  permitted : ∃ policy, redirect = some policy ∧ policy.fromOrigin = compiled.url.origin ∧
    request.url.origin = policy.toOrigin ∧ request.url.safe = true
  headers : request.headers = compiled.headers.filter fun header => header.1 ≠ authorizationName
  body : request.body = compiled.body

inductive Sent (redirect : Option RedirectPolicy) (compiled : CompiledRequest) :
    List HttpsRequest → Prop
  | none : Sent redirect compiled []
  | once {first : HttpsRequest} (hfirst : IsFirst compiled first) : Sent redirect compiled [first]
  | twice {first second : HttpsRequest} (hfirst : IsFirst compiled first)
      (hsecond : IsSecond redirect compiled second) : Sent redirect compiled [first, second]

section Attempts

variable {allowed : Address → Bool} {limit : Nat} {method : Method} {exchange : Exchange}
  {Input : Type} {parseUrl : Url → String → Option Url} {manifest : Manifest Input}
  {operationId : String} {input : Input} {credential : Option Credential} {attempt : Attempt}
  {before : List HttpsRequest}

theorem refuseIf_triple {P : World → Prop} (condition : Prop) [Decidable condition]
    (failure : Failure) : Triple P (refuseIf condition failure) (fun _ => P) (fun _ => P) :=
  Triple.ite (fun _ => Triple.throw fun _ => id) fun _ => Triple.pure fun _ => id

theorem assertActive_triple {P : World → Prop} (aborted : Option AbortReason) :
    Triple P (assertActive aborted) (fun _ => P) (fun _ => P) := by
  cases aborted with
  | none => exact Triple.pure fun _ => id
  | some reason => exact Triple.throw fun _ => id

/-- One request adds itself to what has been sent, or nothing. -/
theorem requestOnce_triple (request : CompiledRequest) :
    Triple (fun world => world.sent = before) (requestOnce allowed limit method request exchange)
      (fun _ world => ∃ sent : HttpsRequest, IsFirst request sent ∧
        world.sent = before ++ [sent])
      (fun _ world => world.sent = before ∨
        ∃ sent : HttpsRequest, IsFirst request sent ∧ world.sent = before ++ [sent]) := by
  refine Triple.bind (fun _ world => world.sent = before) ?_ fun _ => ?_
  · refine Triple.bind (fun _ world => world.sent = before)
      ((assertActive_triple exchange.abortedBefore).conseq (fun _ => id) (fun _ _ => id)
        fun _ _ => .inl) fun _ => Triple.bindGet fun seen => ?_
    refine Triple.bind (fun _ world => world = seen ∧ world.sent = before)
      ((refuseIf_triple _ _).conseq (fun _ => id) (fun _ _ => id)
        fun _ world hworld => .inl hworld.2) fun _ => ?_
    rintro world ⟨rfl, hworld⟩
    exact hworld
  · refine Triple.bind (fun _ world => world.sent = before)
      (Triple.ofExcept (fun _ _ _ => id) fun _ world _ => .inl) fun answers => ?_
    refine Triple.bind (fun _ world => world.sent = before)
      (Triple.ofExcept (fun _ _ _ => id) fun _ world _ => .inl) fun address => ?_
    refine Triple.bind
      (fun _ world => ∃ sent : HttpsRequest, IsFirst request sent ∧ world.sent = before ++ [sent])
      (Triple.modify fun world hworld => ⟨_, ⟨rfl, rfl, rfl⟩, by rw [hworld]⟩) fun _ => ?_
    exact Triple.ofExcept (fun _ _ _ => id) fun _ _ _ => .inr

theorem redirectTarget_ok {redirect : Option RedirectPolicy} {url target : Url}
    {location : Option String} (h : redirectTarget parseUrl redirect url location = .ok target) :
    ∃ policy, redirect = some policy ∧ policy.fromOrigin = url.origin ∧
      target.origin = policy.toOrigin ∧ target.safe = true := by
  rw [redirectTarget.eq_def] at h
  split at h
  · cases h
  · rename_i policy
    split at h
    · cases h
    · rename_i hfrom
      split at h
      · cases h
      · split at h
        · cases h
        · split at h
          · cases h
          · rename_i hsafe
            split at h
            · cases h
            · rename_i hto
              obtain rfl := Except.ok.inj h
              exact ⟨policy, rfl, not_not.mp hfrom, not_not.mp hto, by simpa using hsafe⟩

/-- What has been sent since `before`: nothing, or the requests of an attempt. -/
def SentSince (before : List HttpsRequest) (redirect : Option RedirectPolicy)
    (compile : Except Failure CompiledRequest) (world : World) : Prop :=
  ∃ later, world.sent = before ++ later ∧
    (later = [] ∨ ∃ compiled, compile = .ok compiled ∧ Sent redirect compiled later)

theorem request_triple {operation : Operation Input}
    (hfind : (manifest.operations.find? fun operation => operation.id = operationId) =
      some operation) :
    Triple (fun world => world.sent = before)
      (request allowed parseUrl limit manifest operationId input credential attempt)
      (fun _ => SentSince before manifest.redirect (operation.compile input credential))
      (fun _ => SentSince before manifest.redirect (operation.compile input credential)) := by
  have hnothing : ∀ world : World, world.sent = before →
      SentSince before manifest.redirect (operation.compile input credential) world :=
    fun world hworld => ⟨[], by rw [hworld, List.append_nil], .inl rfl⟩
  rw [request, hfind]
  refine Triple.bind (fun _ world => world.sent = before)
    ((assertActive_triple attempt.abortedBefore).conseq (fun _ => id) (fun _ _ => id)
      fun _ => hnothing) fun _ => ?_
  dsimp only
  refine Triple.bind
    (fun compiled world => operation.compile input credential = .ok compiled ∧ world.sent = before)
    (Triple.ofExcept (fun compiled world hcompiled hworld => ⟨hcompiled, hworld⟩)
      fun _ world _ => hnothing world) fun compiled => Triple.assume fun hcompiled => ?_
  have hlater : ∀ (later : List HttpsRequest) (world : World), world.sent = before ++ later →
      Sent manifest.redirect compiled later →
        SentSince before manifest.redirect (operation.compile input credential) world :=
    fun later world hworld hsent => ⟨later, hworld, .inr ⟨compiled, hcompiled, hsent⟩⟩
  have honce : ∀ world : World,
      (∃ sent, IsFirst compiled sent ∧ world.sent = before ++ [sent]) →
        SentSince before manifest.redirect (operation.compile input credential) world :=
    fun world ⟨sent, hfirst, hworld⟩ => hlater [sent] world hworld (.once hfirst)
  refine Triple.bind
    (fun _ world => ∃ sent, IsFirst compiled sent ∧ world.sent = before ++ [sent])
    ((requestOnce_triple compiled).conseq (fun _ => id) (fun _ _ => id)
      fun _ world hworld => hworld.elim (hnothing world) (honce world)) fun first => ?_
  refine Triple.ite (fun _ => Triple.ofExcept (fun _ world _ => honce world)
    fun _ world _ => honce world) fun _ => ?_
  refine Triple.bind
    (fun target world => redirectTarget parseUrl manifest.redirect compiled.url
        first.head.location = .ok target ∧
      ∃ sent, IsFirst compiled sent ∧ world.sent = before ++ [sent])
    (Triple.ofExcept (fun target world htarget hworld => ⟨htarget, hworld⟩)
      fun _ world _ => honce world) fun target => Triple.assume fun htarget =>
        Triple.choose fun sent => Triple.assume fun hfirst => ?_
  obtain ⟨policy, hredirect, hfrom, hto, hsafe⟩ := redirectTarget_ok htarget
  have htwice : ∀ world : World, (∃ second, IsFirst { compiled with
        url := target
        headers := compiled.headers.filter fun header => header.1 ≠ authorizationName } second ∧
      world.sent = before ++ [sent] ++ [second]) →
        SentSince before manifest.redirect (operation.compile input credential) world := by
    rintro world ⟨second, ⟨hurl, hheaders, hbody⟩, hworld⟩
    refine hlater [sent, second] world (hworld.trans (List.append_assoc _ _ _))
      (.twice hfirst ⟨⟨policy, hredirect, hfrom, ?_, ?_⟩, hheaders, hbody⟩)
    · rw [hurl]
      exact hto
    · rw [hurl]
      exact hsafe
  refine Triple.bind
    (fun _ => SentSince before manifest.redirect (operation.compile input credential))
    ((requestOnce_triple _).conseq (fun _ => id) (fun _ => htwice)
      fun _ world hworld => hworld.elim (fun h => honce world ⟨sent, hfirst, h⟩) (htwice world))
    fun second => ?_
  exact Triple.ite (fun _ => Triple.throw fun _ => id)
    fun _ => Triple.ofExcept (fun _ _ _ => id) fun _ _ _ => id

end Attempts

section Credentials

variable {parseHost : List Char → Option String} {Input : Type}
  {definition : OperationDefinition Input} {input : Input}

theorem setHeader_filter {headers : List (String × String)} {name value : String}
    (hheaders : ∀ header ∈ headers, header.1 ≠ name) :
    (CompiledRequests.setHeader headers name value).filter (fun header => header.1 ≠ name) =
      headers := by
  have hnone : headers.any (·.1 = name) = false := by
    rw [List.any_eq_false]
    intro header hheader h
    exact hheaders header hheader (of_decide_eq_true h)
  rw [CompiledRequests.setHeader, hnone, if_neg Bool.false_ne_true, List.filter_append,
    List.filter_eq_self.mpr fun header hheader => decide_eq_true (hheaders header hheader)]
  simp

theorem mem_setHeader {headers : List (String × String)} {name value : String}
    {header : String × String} (h : header ∈ CompiledRequests.setHeader headers name value) :
    header.1 = name ∨ header ∈ headers := by
  rw [CompiledRequests.setHeader] at h
  split at h
  · obtain ⟨found, hfound, rfl⟩ := List.mem_map.mp h
    split
    · exact .inl rfl
    · exact .inr hfound
  · obtain h | h := List.mem_append.mp h
    · exact .inr h
    · exact .inl (congrArg Prod.fst (List.mem_singleton.mp h))

theorem fixedHeaders_ne (operation : CompiledOperation) :
    ∀ header ∈ operation.fixedHeaders, header.1 ≠ authorizationName := by
  intro header hheader hname
  have hvalid := operation.valid
  simp only [CompiledRequests.validateOperation, bind_eq_ok_iff] at hvalid
  obtain ⟨-, -, -, -, -, -, -, -, hheaders⟩ := hvalid
  have hchecked := forall_of_forM hheaders header hheader
  rw [CompiledRequests.validateFixedHeader] at hchecked
  obtain ⟨-, -, hchecked⟩ := bind_eq_ok_iff.mp hchecked
  rw [CompiledRequests.throwIf_eq_ok, hname] at hchecked
  exact hchecked (by decide)

theorem requestHeaders_bare {fixedHeaders headers : List (String × String)}
    {body : Option JsonText.Bytes} {credential : Option CompiledRequests.Credential}
    (hfixed : ∀ header ∈ fixedHeaders, header.1 ≠ authorizationName)
    (h : CompiledRequests.requestHeaders fixedHeaders body credential = .ok headers) :
    CompiledRequests.requestHeaders fixedHeaders body none =
        .ok (headers.filter fun header => header.1 ≠ authorizationName) ∧
      ∀ header ∈ CompiledRequests.bodyHeaders fixedHeaders body,
        header.1 ≠ authorizationName := by
  have hbody : ∀ header ∈ CompiledRequests.bodyHeaders fixedHeaders body,
      header.1 ≠ authorizationName := by
    intro header hheader
    cases body with
    | none => exact hfixed header hheader
    | some bytes =>
      obtain hname | hmem := mem_setHeader hheader
      · rw [hname]
        decide
      · exact hfixed header hmem
  refine ⟨?_, hbody⟩
  rw [CompiledRequests.requestHeaders]
  refine congrArg Except.ok ?_
  cases credential with
  | none =>
    obtain rfl := Except.ok.inj h
    exact (List.filter_eq_self.mpr fun header hheader =>
      decide_eq_true (hbody header hheader)).symm
  | some credential =>
    rw [CompiledRequests.requestHeaders.eq_def] at h
    dsimp only at h
    split at h
    · cases h
    · obtain rfl := Except.ok.inj h
      exact (setHeader_filter hbody).symm

theorem compileRequest_bare {credential : Option Credential} {compiled : CompiledRequest}
    (h : CompiledRequests.compileRequest parseHost definition input credential = .ok compiled) :
    ∃ bare, CompiledRequests.compileRequest parseHost definition input none = .ok bare ∧
      bare.headers = compiled.headers.filter (fun header => header.1 ≠ authorizationName) ∧
      bare.url = compiled.url ∧ bare.body = compiled.body ∧
      ∀ header ∈ bare.headers, header.1 ≠ authorizationName := by
  rw [CompiledRequests.compileRequest] at h ⊢
  split at h
  · cases h
  · rename_i parsed hparsed
    split at h
    · cases h
    · rename_i encoded hencoded
      obtain ⟨request, hrequest, h⟩ := bind_eq_ok_iff.mp h
      obtain rfl := Except.ok.inj h
      obtain ⟨hrecord, hkeys, path, url, pairs, body, headers, hpath, hurl, hquery, hpairs, hbody,
        hheaders, rfl⟩ := CompiledRequests.buildCompiledRequest_iff.mp hrequest
      obtain ⟨hbare, hnone⟩ := requestHeaders_bare (fixedHeaders_ne definition.compiled) hheaders
      have hbuilt := CompiledRequests.buildCompiledRequest_iff.mpr
        ⟨hrecord, hkeys, path, url, pairs, body, _, hpath, hurl, hquery, hpairs, hbody, hbare, rfl⟩
      refine ⟨_, bind_eq_ok_iff.mpr ⟨_, hbuilt, rfl⟩, rfl, rfl, rfl, ?_⟩
      intro header hheader
      exact of_decide_eq_true (List.mem_filter.mp hheader).2

/-- What goes to the target of a redirection is the request as it is without a credential. -/
structure IsUnauthorized (bare : CompiledRequest) (request : HttpsRequest) : Prop where
  headers : request.headers = bare.headers
  body : request.body = bare.body
  authorization : ∀ header ∈ request.headers, header.1 ≠ authorizationName

/-- Whatever an attempt of the operation sends, the first request is the compiled one, and a
second one goes to the target of the policy, as it would without a credential. -/
def RedirectsBare (parseHost : List Char → Option String) (operation : CompiledOperation) : Prop :=
  ∀ {Input : Type} (definition : OperationDefinition Input) (manifest : Manifest Input)
    (operationId : String) (input : Input) (credential : Option Credential)
    (allowed : Address → Bool) (parseUrl : Url → String → Option Url) (limit : Nat)
    (attempt : Attempt) (world : World),
    definition.compiled = operation →
    (manifest.operations.find? fun operation => operation.id = operationId) =
      some (definition.operation parseHost) →
    ∃ later, (finalState (request allowed parseUrl limit manifest operationId input credential
        attempt world)).sent = world.sent ++ later ∧ later.length ≤ 2 ∧
      (∀ first ∈ later.take 1, ∃ compiled,
        CompiledRequests.compileRequest parseHost definition input credential = .ok compiled ∧
          IsFirst compiled first) ∧
      ∀ second ∈ later.drop 1,
        (∃ policy, manifest.redirect = some policy ∧ second.url.origin = policy.toOrigin) ∧
          ∃ bare, CompiledRequests.compileRequest parseHost definition input none = .ok bare ∧
            IsUnauthorized bare second

theorem redirectsBare (parseHost : List Char → Option String) (operation : CompiledOperation) :
    RedirectsBare parseHost operation := by
  intro Input definition manifest operationId input credential allowed parseUrl limit attempt
    world _ hfind
  have hnone : ∀ {P : HttpsRequest → Prop}, ∀ request ∈ ([] : List HttpsRequest), P request :=
    List.forall_mem_nil _
  have hend : SentSince world.sent manifest.redirect
      (CompiledRequests.compileRequest parseHost definition input credential)
      (finalState (request allowed parseUrl limit manifest operationId input credential attempt
        world)) := (request_triple hfind).final rfl
  obtain ⟨later, hsent, rfl | ⟨compiled, hcompiled, hlater⟩⟩ := hend
  · exact ⟨[], hsent, Nat.zero_le _, hnone, hnone⟩
  · refine ⟨later, hsent, ?_⟩
    cases hlater with
    | none => exact ⟨Nat.zero_le _, hnone, hnone⟩
    | once hfirst =>
      exact ⟨Nat.le_succ _, List.forall_mem_singleton.mpr ⟨compiled, hcompiled, hfirst⟩, hnone⟩
    | twice hfirst hsecond =>
      refine ⟨Nat.le_refl _, List.forall_mem_singleton.mpr ⟨compiled, hcompiled, hfirst⟩,
        List.forall_mem_singleton.mpr ?_⟩
      obtain ⟨policy, hredirect, -, hto, -⟩ := hsecond.permitted
      obtain ⟨bare, hbare, hheaders, -, hbody, hauthorization⟩ := compileRequest_bare hcompiled
      refine ⟨⟨policy, hredirect, hto⟩, bare, hbare, ?_, ?_, ?_⟩
      · rw [hsecond.headers, hheaders]
      · rw [hsecond.body, hbody]
      · rw [hsecond.headers, ← hheaders]
        exact hauthorization

end Credentials

end KodeGpt.RedirectedRequests
