import KodeGpt.JsFrames
import KodeGpt.PendingCalls
import KodeGpt.TransitionSystem

/-!
The client of the runtime process as a state machine. Each event is one turn of
the event loop: a call, a callback of a write, a chunk of output, an event of
the child, or the part of `stop` behind its await. The decoder of the output is
a parameter. A promise is kept as the list of the settlements made on it.
-/

namespace KodeGpt.KernelClient

open JsFrames PendingCalls TransitionSystem
open JsonText (Bytes)

/-- A JavaScript string. -/
abbrev JsText := List UInt16

inductive ClientState where
  | running
  | stopping
  | unavailable
  | closed
  deriving DecidableEq

inductive RequestError where
  | runtimeUnavailable (message : JsText)
  | kernelRpc (code : JsNumber) (message : JsText) (data : Option JsValue)
  | duplicate (message : JsText)
  | encode (error : EncodeError)

inductive Settlement where
  | resolved (value : JsValue)
  | rejected (error : RequestError)

/-- The decoder of the frames on standard output. -/
structure Decoder (δ : Type) where
  initial : δ
  push : δ → Bytes → δ × Except JsText (List JsValue)
  finish : δ → δ × Except JsText Unit

structure Client (δ : Type) where
  state : ClientState
  decoder : δ
  ledger : Ledger JsText Settlement
  /-- The writes whose callback has not run. -/
  writing : List Nat
  /-- The responses that were handled, in order. -/
  handled : List JsValue
  errored : Bool
  exited : Bool
  /-- The calls of `stop` that wait for the exit. -/
  waitingStops : Nat
  unexpectedTermination : Option RequestError
  killed : Bool
  stdinEnded : Bool

inductive Event where
  | request (requestId method : JsText) (params : JsValue)
  | written (index : Nat) (error : Option JsText)
  | data (chunk : Bytes)
  | childError (message : JsText)
  | exit (detail : JsText)
  | stop
  | killTimer
  | exitAwaited
  | invalidHello

def property (name : JsText) : JsValue → Option JsValue
  | .object members => (members.reverse.find? fun member => member.1 = name).map Prod.snd
  | _ => none

def isRecord : JsValue → Bool
  | .object _ => true
  | _ => false

def stringProperty (name : JsText) (value : JsValue) : Option JsText :=
  match property name value with
  | some (.string text) => some text
  | _ => none

def numberProperty (name : JsText) (value : JsValue) : Option JsNumber :=
  match property name value with
  | some (.number number) => some number
  | _ => none

def responseId (value : JsValue) : Option JsText :=
  if isRecord value ∧ stringProperty (asciiUnits "jsonrpc") value = some (asciiUnits "2.0") then
    stringProperty (asciiUnits "id") value
  else none

/-- The settlement that a response makes, and the error that is thrown after
it. -/
def responseSettlement (value : JsValue) : Settlement × Option JsText :=
  match property (asciiUnits "result") value, property (asciiUnits "error") value with
  | some result, none => (.resolved result, none)
  | none, some error =>
    match numberProperty (asciiUnits "code") error,
      stringProperty (asciiUnits "message") error with
    | some code, some message =>
      (.rejected (.kernelRpc code message (property (asciiUnits "data") error)), none)
    | _, _ =>
      (.rejected (.runtimeUnavailable
        (asciiUnits "KodeGPT runtime returned an invalid error response")),
        some (asciiUnits "invalid JSON-RPC error response"))
  | _, _ =>
    (.rejected (.runtimeUnavailable
      (asciiUnits "KodeGPT runtime returned an ambiguous response")),
      some (asciiUnits "ambiguous JSON-RPC response"))

namespace Client

variable {δ : Type}

def start (decoder : Decoder δ) : Client δ where
  state := .running
  decoder := decoder.initial
  ledger := Ledger.empty
  writing := []
  handled := []
  errored := false
  exited := false
  waitingStops := 0
  unexpectedTermination := none
  killed := false
  stdinEnded := false

def poison (error : RequestError) (client : Client δ) : Client δ :=
  if client.state = .closed then client
  else
    { client with
      state := .unavailable
      unexpectedTermination :=
        if client.state = .running then some error else client.unexpectedTermination
      ledger := client.ledger.settleAll (.rejected error) }

def unavailable (message : JsText) : RequestError :=
  .runtimeUnavailable message

def kill (client : Client δ) : Client δ :=
  { client with killed := true }

def request (requestId method : JsText) (params : JsValue) (client : Client δ) : Client δ :=
  if client.state ≠ .running then
    { client with
      ledger := client.ledger.refuse requestId
        (.rejected (unavailable (asciiUnits "KodeGPT runtime is unavailable"))) }
  else if (client.ledger.find requestId).isSome then
    { client with
      ledger := client.ledger.refuse requestId
        (.rejected (.duplicate (asciiUnits "Duplicate runtime request id: " ++ requestId))) }
  else match encodeFrame (requestValue requestId method params) with
    | .error error =>
      { client with
        ledger := client.ledger.refuse requestId (.rejected (.encode error)) }
    | .ok _ =>
      { client with
        ledger := client.ledger.start requestId
        writing := client.writing ++ [client.ledger.calls.length] }

/-- The callback of the write of a request. It does nothing when the request is
no longer the one that waits under its id. -/
def written (index : Nat) (error : Option JsText) (client : Client δ) : Client δ :=
  let client := { client with writing := client.writing.erase index }
  match error, client.ledger.calls[index]? with
  | some message, some call =>
    if client.ledger.find call.key ≠ some index then client
    else
      let failure := unavailable
        (asciiUnits "Failed to write to KodeGPT runtime: " ++ message)
      poison failure
        { client with ledger := client.ledger.settle call.key index (.rejected failure) }
  | _, _ => client

def handleResponse (value : JsValue) (client : Client δ) : Client δ × Option JsText :=
  let client := { client with handled := client.handled ++ [value] }
  match responseId value with
  | none => (client, some (asciiUnits "invalid JSON-RPC response envelope"))
  | some requestId =>
    match client.ledger.find requestId with
    | none => (client, some (asciiUnits "unexpected runtime response id: " ++ requestId))
    | some index =>
      let outcome := responseSettlement value
      ({ client with ledger := client.ledger.settle requestId index outcome.1 }, outcome.2)

def handleResponses : List JsValue → Client δ → Client δ × Option JsText
  | [], client => (client, none)
  | value :: rest, client =>
    match client.handleResponse value with
    | (client, some error) => (client, some error)
    | (client, none) => handleResponses rest client

def refuseOutput (error : JsText) (client : Client δ) : Client δ :=
  (client.poison (unavailable
    (asciiUnits "KodeGPT runtime emitted invalid protocol output: " ++ error))).kill

def data (decoder : Decoder δ) (chunk : Bytes) (client : Client δ) : Client δ :=
  if client.state = .closed then client
  else match decoder.push client.decoder chunk with
    | (state, .error error) => { client with decoder := state }.refuseOutput error
    | (state, .ok values) =>
      match { client with decoder := state }.handleResponses values with
      | (client, some error) => client.refuseOutput error
      | (client, none) => client

def childError (message : JsText) (client : Client δ) : Client δ :=
  { client with errored := true }.poison (unavailable
    (asciiUnits "KodeGPT runtime process error: " ++ message))

def exit (decoder : Decoder δ) (detail : JsText) (client : Client δ) : Client δ :=
  match decoder.finish client.decoder with
  | (state, .error error) =>
    { client with decoder := state, exited := true }.poison (unavailable
      (asciiUnits "KodeGPT runtime closed with an incomplete protocol frame: " ++ error))
  | (state, .ok _) =>
    { client with decoder := state, exited := true }.poison (unavailable
      (asciiUnits "KodeGPT runtime exited (" ++ detail ++ asciiUnits ")"))

/-- `stop` up to its await. A call in the state `stopping` awaits nothing. -/
def stop (client : Client δ) : Client δ :=
  match client.state with
  | .closed => client
  | .unavailable => { client with waitingStops := client.waitingStops + 1 }
  | .running =>
    { client with
      state := .stopping
      stdinEnded := true
      waitingStops := client.waitingStops + 1 }
  | .stopping => { client with state := .closed }

/-- The end of a `stop` that has seen the exit. -/
def exitAwaited (client : Client δ) : Client δ :=
  { client with state := .closed, waitingStops := client.waitingStops - 1 }

def invalidHello (client : Client δ) : Client δ :=
  (client.poison (unavailable
    (asciiUnits "KodeGPT runtime returned an invalid hello payload"))).kill

end Client

/-- One event. A write has one callback, and the child emits its error and its
exit once. -/
def next {δ : Type} (decoder : Decoder δ) (client : Client δ) : Event → Option (Client δ)
  | .request requestId method params => some (client.request requestId method params)
  | .written index error =>
    if index ∈ client.writing then some (client.written index error) else none
  | .data chunk => some (client.data decoder chunk)
  | .childError message => if client.errored then none else some (client.childError message)
  | .exit detail => if client.exited then none else some (client.exit decoder detail)
  | .stop => some client.stop
  | .killTimer =>
    if client.exited = false ∧ 0 < client.waitingStops then some client.kill else none
  | .exitAwaited =>
    if client.exited ∧ 0 < client.waitingStops then some client.exitAwaited else none
  | .invalidHello => some client.invalidHello

/-- A promise is resolved with the result of a response that carries its id. -/
def Answered (handled : List JsValue) (requestId : JsText) (settlement : Settlement) : Prop :=
  ∀ value, settlement = .resolved value → ∃ response ∈ handled,
    responseId response = some requestId ∧
      property (asciiUnits "result") response = some value

/-- No request waits once the client has given up. -/
structure Kept {δ : Type} (client : Client δ) : Prop where
  tracked : client.ledger.Tracked
  answered : client.ledger.Sourced (Answered client.handled)
  quiet : client.state = .unavailable ∨ client.state = .closed → client.ledger.pending = []

theorem answered_rejected (handled : List JsValue) (requestId : JsText) (error : RequestError) :
    Answered handled requestId (.rejected error) := by
  intro value heq
  cases heq

theorem Answered.later {handled : List JsValue} {requestId : JsText} {settlement : Settlement}
    (h : Answered handled requestId settlement) (response : JsValue) :
    Answered (handled ++ [response]) requestId settlement := by
  intro value heq
  obtain ⟨found, hmem, hfound⟩ := h value heq
  exact ⟨found, List.mem_append_left _ hmem, hfound⟩

theorem Kept.same {δ : Type} {client later : Client δ} (h : Kept client)
    (hledger : later.ledger = client.ledger) (hhandled : later.handled = client.handled)
    (hstate : later.state = client.state) : Kept later where
  tracked := hledger ▸ h.tracked
  answered := by
    rw [hledger, hhandled]
    exact h.answered
  quiet := by
    rw [hledger, hstate]
    exact h.quiet

theorem responseSettlement_answered {handled : List JsValue} {response : JsValue}
    {requestId : JsText} (hid : responseId response = some requestId)
    (hmem : response ∈ handled) :
    Answered handled requestId (responseSettlement response).1 := by
  intro value heq
  unfold responseSettlement at heq
  split at heq
  · next result hresult herror =>
      obtain rfl := Settlement.resolved.inj heq
      exact ⟨response, hmem, hid, hresult⟩
  · split at heq <;> cases heq
  · cases heq

namespace Client

variable {δ : Type} {client : Client δ}

theorem start_kept (decoder : Decoder δ) : Kept (start decoder) where
  tracked := Ledger.Tracked.empty
  answered := by
    intro index call hcall
    simp [start, Ledger.empty] at hcall
  quiet := by
    rintro (hstate | hstate) <;> cases hstate

theorem poison_kept (h : Kept client) (error : RequestError) : Kept (client.poison error) := by
  unfold poison
  split
  · exact h
  · exact ⟨h.tracked.settleAll _,
      h.answered.settleAll fun requestId => answered_rejected _ requestId error, fun _ => rfl⟩

theorem poison_over (client : Client δ) (error : RequestError) :
    (client.poison error).state = .unavailable ∨ (client.poison error).state = .closed := by
  unfold poison
  split
  · next hclosed => exact Or.inr hclosed
  · exact Or.inl rfl

theorem poison_extends (client : Client δ) (error : RequestError) :
    client.ledger.Extends (client.poison error).ledger := by
  unfold poison
  split
  · exact .refl _
  · exact .settleAll _ _

theorem refuse_kept (h : Kept client) (requestId : JsText) (error : RequestError) :
    Kept { client with ledger := client.ledger.refuse requestId (.rejected error) } where
  tracked := h.tracked.refuse requestId _
  answered := h.answered.refuse (answered_rejected _ requestId error)
  quiet := h.quiet

theorem request_kept (h : Kept client) (requestId method : JsText) (params : JsValue) :
    Kept (client.request requestId method params) := by
  unfold request
  split
  · exact refuse_kept h requestId _
  · next hrunning =>
      split
      · exact refuse_kept h requestId _
      · next hfree =>
          split
          · exact refuse_kept h requestId _
          · have hnone : client.ledger.find requestId = none := by simpa using hfree
            have hstate : client.state = .running := by simpa using hrunning
            refine ⟨h.tracked.start (Ledger.notMem_of_find hnone), h.answered.start requestId, ?_⟩
            rintro (hover | hover) <;> (rw [hstate] at hover; cases hover)

theorem request_extends (client : Client δ) (requestId method : JsText) (params : JsValue) :
    client.ledger.Extends (client.request requestId method params).ledger := by
  unfold request
  split
  · exact .refuse _ _ _
  · split
    · exact .refuse _ _ _
    · split
      · exact .refuse _ _ _
      · exact .start _ _

theorem settle_kept (h : Kept client) {requestId : JsText} {index : Nat}
    (hfind : client.ledger.find requestId = some index) {settlement : Settlement}
    (hanswered : Answered client.handled requestId settlement) :
    Kept { client with ledger := client.ledger.settle requestId index settlement } where
  tracked := h.tracked.settle (Ledger.mem_of_find hfind) settlement
  answered := by
    apply h.answered.give
    intro call hcall
    rw [h.tracked.entry requestId index (Ledger.mem_of_find hfind)] at hcall
    obtain rfl := Option.some.inj hcall
    exact hanswered
  quiet := by
    intro hover
    have hnone := h.quiet hover
    simp [Ledger.settle, hnone]

theorem written_kept (h : Kept client) (index : Nat) (error : Option JsText) :
    Kept (client.written index error) := by
  have hwriting : Kept { client with writing := client.writing.erase index } :=
    h.same rfl rfl rfl
  unfold written
  simp only
  split
  · next message call hcall =>
      split
      · exact hwriting
      · next hfind =>
          have hfound : client.ledger.find call.key = some index := not_not.mp hfind
          exact poison_kept (settle_kept hwriting hfound (answered_rejected _ _ _)) _
  · exact hwriting

theorem written_extends (client : Client δ) (index : Nat) (error : Option JsText) :
    client.ledger.Extends (client.written index error).ledger := by
  unfold written
  simp only
  split
  · split
    · exact .refl _
    · refine Ledger.Extends.trans ?_ (poison_extends _ _)
      exact .give _ _ _ _ _
  · exact .refl _

theorem handleResponse_kept (h : Kept client) (value : JsValue) :
    Kept (client.handleResponse value).1 := by
  have hhandled : Kept { client with handled := client.handled ++ [value] } := by
    refine ⟨h.tracked, ?_, h.quiet⟩
    intro index call hcall settlement hmem
    exact (h.answered index call hcall settlement hmem).later value
  unfold handleResponse
  simp only
  split
  · exact hhandled
  · next requestId hid =>
      split
      · exact hhandled
      · next index hfind =>
          exact settle_kept hhandled hfind (responseSettlement_answered hid (by simp))

theorem handleResponse_state (client : Client δ) (value : JsValue) :
    (client.handleResponse value).1.state = client.state ∧
      (client.handleResponse value).1.exited = client.exited := by
  unfold handleResponse
  simp only
  split
  · exact ⟨rfl, rfl⟩
  · split <;> exact ⟨rfl, rfl⟩

theorem handleResponse_extends (client : Client δ) (value : JsValue) :
    client.ledger.Extends (client.handleResponse value).1.ledger := by
  unfold handleResponse
  simp only
  split
  · exact .refl _
  · split
    · exact .refl _
    · exact .give _ _ _ _ _

theorem handleResponses_kept (values : List JsValue) (h : Kept client) :
    Kept (client.handleResponses values).1 := by
  induction values generalizing client with
  | nil => exact h
  | cons value rest ih =>
    have hfirst := handleResponse_kept h value
    unfold handleResponses
    split
    · next later error heq => rwa [heq] at hfirst
    · next later heq =>
        rw [heq] at hfirst
        exact ih hfirst

theorem handleResponses_state (values : List JsValue) (client : Client δ) :
    (client.handleResponses values).1.state = client.state ∧
      (client.handleResponses values).1.exited = client.exited := by
  induction values generalizing client with
  | nil => exact ⟨rfl, rfl⟩
  | cons value rest ih =>
    have hfirst := handleResponse_state client value
    unfold handleResponses
    split
    · next later error heq => rwa [heq] at hfirst
    · next later heq =>
        rw [heq] at hfirst
        obtain ⟨hstate, hexited⟩ := ih later
        exact ⟨hstate.trans hfirst.1, hexited.trans hfirst.2⟩

theorem handleResponses_extends (values : List JsValue) (client : Client δ) :
    client.ledger.Extends (client.handleResponses values).1.ledger := by
  induction values generalizing client with
  | nil => exact .refl _
  | cons value rest ih =>
    have hfirst := handleResponse_extends client value
    unfold handleResponses
    split
    · next later error heq => rwa [heq] at hfirst
    · next later heq =>
        rw [heq] at hfirst
        exact hfirst.trans (ih later)

end Client

end KodeGpt.KernelClient
