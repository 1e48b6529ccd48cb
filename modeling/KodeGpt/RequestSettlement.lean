import KodeGpt.KernelClient

/-!
Every request of the kernel client is settled once. A call of `stop` that finds
another one waiting closes the client at once, and what is pending then is
settled by nobody; a run without that settles everything by the exit.
-/

namespace KodeGpt.RequestSettlement

open JsFrames KernelClient PendingCalls TransitionSystem

variable {δ : Type} {decoder : Decoder δ} {client later : Client δ} {event : Event}

/-- A call of `stop` behind one that still waits finds no request pending. -/
def StopsApart (client : Client δ) : Event → Prop
  | .stop => client.state = .stopping → client.ledger.pending = []
  | _ => True

instance (client : Client δ) : (event : Event) → Decidable (StopsApart client event)
  | .stop => inferInstanceAs (Decidable (client.state = .stopping → client.ledger.pending = []))
  | .request .. | .written .. | .data .. | .childError .. | .exit .. | .killTimer
  | .exitAwaited | .invalidHello => isTrue trivial

structure Orderly (client : Client δ) : Prop where
  kept : Kept client
  givenUp : client.exited = true → client.state = .unavailable ∨ client.state = .closed

def Continues (client later : Client δ) : Prop :=
  client.ledger.Extends later.ledger

instance : Std.Refl (Continues (δ := δ)) := ⟨fun client => .refl client.ledger⟩

instance : IsTrans (Client δ) Continues := ⟨fun _ _ _ hfirst hsecond => hfirst.trans hsecond⟩

theorem Orderly.start (decoder : Decoder δ) : Orderly (Client.start decoder) where
  kept := Client.start_kept decoder
  givenUp := by
    intro hexited
    cases hexited

theorem Orderly.poison (h : Kept client) (error : RequestError) :
    Orderly (client.poison error) where
  kept := Client.poison_kept h error
  givenUp := fun _ => Client.poison_over client error

theorem Orderly.kill (h : Orderly client) : Orderly client.kill :=
  ⟨h.kept.same rfl rfl rfl, h.givenUp⟩

theorem Orderly.refuseOutput (h : Kept client) (error : KernelClient.JsText) :
    Orderly (client.refuseOutput error) :=
  (Orderly.poison h _).kill

theorem Orderly.request (h : Orderly client) (requestId method : KernelClient.JsText)
    (params : JsValue) : Orderly (client.request requestId method params) where
  kept := Client.request_kept h.kept requestId method params
  givenUp := by
    unfold Client.request
    split
    · exact h.givenUp
    · split
      · exact h.givenUp
      · split <;> exact h.givenUp

theorem Orderly.written (h : Orderly client) (index : Nat) (error : Option KernelClient.JsText) :
    Orderly (client.written index error) where
  kept := Client.written_kept h.kept index error
  givenUp := by
    unfold Client.written
    simp only
    split
    · split
      · exact h.givenUp
      · exact fun _ => Client.poison_over _ _
    · exact h.givenUp

theorem Orderly.data (h : Orderly client) (decoder : Decoder δ) (chunk : JsonText.Bytes) :
    Orderly (client.data decoder chunk) := by
  unfold Client.data
  split
  · exact h
  · split
    · next state error hpush =>
        apply Orderly.refuseOutput
        exact h.kept.same rfl rfl rfl
    · next state values hpush =>
        have hdecoded : Kept { client with decoder := state } :=
          h.kept.same rfl rfl rfl
        have hkept := Client.handleResponses_kept values hdecoded
        obtain ⟨hstate, hexited⟩ :=
          Client.handleResponses_state values { client with decoder := state }
        split
        · next handled error heq =>
            rw [heq] at hkept
            exact Orderly.refuseOutput hkept error
        · next handled heq =>
            rw [heq] at hkept hstate hexited
            refine ⟨hkept, fun hexit => ?_⟩
            rw [hstate]
            exact h.givenUp (hexited ▸ hexit)

theorem Orderly.exit (h : Orderly client) (decoder : Decoder δ) (detail : KernelClient.JsText) :
    Orderly (client.exit decoder detail) := by
  unfold Client.exit
  split
  · apply Orderly.poison
    exact h.kept.same rfl rfl rfl
  · apply Orderly.poison
    exact h.kept.same rfl rfl rfl

theorem Orderly.stop (h : Orderly client) (hapart : StopsApart client .stop) :
    Orderly client.stop := by
  unfold Client.stop
  split
  · exact h
  · exact ⟨h.kept.same rfl rfl rfl, h.givenUp⟩
  · next hstate =>
      refine ⟨⟨h.kept.tracked, h.kept.answered, ?_⟩, ?_⟩
      · rintro (hover | hover) <;> cases hover
      · intro hexited
        obtain hover | hover := h.givenUp hexited <;> (rw [hstate] at hover; cases hover)
  · next hstate =>
      exact ⟨⟨h.kept.tracked, h.kept.answered, fun _ => hapart hstate⟩,
        fun _ => Or.inr rfl⟩

theorem Orderly.exitAwaited (h : Orderly client) (hexited : client.exited = true) :
    Orderly client.exitAwaited :=
  ⟨⟨h.kept.tracked, h.kept.answered, fun _ => h.kept.quiet (h.givenUp hexited)⟩,
    fun _ => Or.inr rfl⟩

theorem orderly_step (client : Client δ) (event : Event) (later : Client δ) (h : Orderly client)
    (hapart : StopsApart client event) (hnext : next decoder client event = some later) :
    Orderly later := by
  cases event with
  | request requestId method params =>
    obtain rfl := Option.some.inj hnext
    exact h.request requestId method params
  | written index error =>
    obtain ⟨-, hlater⟩ := Option.ite_none_right_eq_some.mp hnext
    obtain rfl := Option.some.inj hlater
    exact h.written index error
  | data chunk =>
    obtain rfl := Option.some.inj hnext
    exact h.data decoder chunk
  | childError message =>
    obtain ⟨-, hlater⟩ := Option.ite_none_left_eq_some.mp hnext
    obtain rfl := Option.some.inj hlater
    apply Orderly.poison
    exact h.kept.same rfl rfl rfl
  | exit detail =>
    obtain ⟨-, hlater⟩ := Option.ite_none_left_eq_some.mp hnext
    obtain rfl := Option.some.inj hlater
    exact h.exit decoder detail
  | stop =>
    obtain rfl := Option.some.inj hnext
    exact h.stop hapart
  | killTimer =>
    obtain ⟨-, hlater⟩ := Option.ite_none_right_eq_some.mp hnext
    obtain rfl := Option.some.inj hlater
    exact h.kill
  | exitAwaited =>
    obtain ⟨⟨hexited, -⟩, hlater⟩ := Option.ite_none_right_eq_some.mp hnext
    obtain rfl := Option.some.inj hlater
    exact h.exitAwaited hexited
  | invalidHello =>
    obtain rfl := Option.some.inj hnext
    exact (Orderly.poison h.kept _).kill

theorem continues_step (client : Client δ) (event : Event) (later : Client δ)
    (hnext : next decoder client event = some later) : Continues client later := by
  cases event with
  | request requestId method params =>
    obtain rfl := Option.some.inj hnext
    exact Client.request_extends client requestId method params
  | written index error =>
    obtain ⟨-, hlater⟩ := Option.ite_none_right_eq_some.mp hnext
    obtain rfl := Option.some.inj hlater
    exact Client.written_extends client index error
  | data chunk =>
    obtain rfl := Option.some.inj hnext
    unfold Client.data
    split
    · exact .refl _
    · split
      · next state error hpush =>
          exact Client.poison_extends { client with decoder := state } _
      · next state values hpush =>
          have hextends := Client.handleResponses_extends values
            { client with decoder := state }
          split
          · next handled error heq =>
              rw [heq] at hextends
              exact hextends.trans (Client.poison_extends handled _)
          · next handled heq =>
              rw [heq] at hextends
              exact hextends
  | childError message =>
    obtain ⟨-, hlater⟩ := Option.ite_none_left_eq_some.mp hnext
    obtain rfl := Option.some.inj hlater
    exact Client.poison_extends { client with errored := true } _
  | exit detail =>
    obtain ⟨-, hlater⟩ := Option.ite_none_left_eq_some.mp hnext
    obtain rfl := Option.some.inj hlater
    unfold Client.exit
    split
    · next state error hfinish =>
        exact Client.poison_extends { client with decoder := state, exited := true } _
    · next state done hfinish =>
        exact Client.poison_extends { client with decoder := state, exited := true } _
  | stop =>
    obtain rfl := Option.some.inj hnext
    unfold Client.stop
    split <;> exact .refl _
  | killTimer =>
    obtain ⟨-, hlater⟩ := Option.ite_none_right_eq_some.mp hnext
    obtain rfl := Option.some.inj hlater
    exact .refl _
  | exitAwaited =>
    obtain ⟨-, hlater⟩ := Option.ite_none_right_eq_some.mp hnext
    obtain rfl := Option.some.inj hlater
    exact .refl _
  | invalidHello =>
    obtain rfl := Option.some.inj hnext
    exact Client.poison_extends client _

theorem run_orderly {events : List Event}
    (hapart : AllSteps (next decoder) StopsApart (Client.start decoder) events)
    (hrun : exec (next decoder) (Client.start decoder) events = some client) :
    Orderly client :=
  exec_invariant orderly_step (Orderly.start decoder) hapart hrun

theorem run_continues {events : List Event}
    (hrun : exec (next decoder) client events = some later) : Continues client later := by
  have hall : AllSteps (next decoder) (fun _ _ => True) client events :=
    AllSteps.of_forall (fun _ _ => trivial) client events
  have htrue : (fun _ : Client δ => True) client := trivial
  refine exec_relation (fun _ _ _ _ _ _ => trivial) ?_ htrue hall hrun
  intro earlier event after htrue hok hnext
  exact continues_step earlier event after hnext

/-- Along every run in which no call of `stop` overtakes a waiting one while a
request is pending, a promise is settled once: by the exit at the latest, for
good, and resolved only with the result of a response that carries its id. -/
theorem requests_settled (decoder : Decoder δ) (events more : List Event)
    (client later : Client δ)
    (hapart : AllSteps (next decoder) StopsApart (Client.start decoder) (events ++ more))
    (hrun : exec (next decoder) (Client.start decoder) events = some client)
    (hmore : exec (next decoder) client more = some later) :
    (∀ promise ∈ client.ledger.calls, promise.outcomes.length ≤ 1 ∧
      ∀ value, .resolved value ∈ promise.outcomes → ∃ response ∈ client.handled,
        responseId response = some promise.key ∧
          property (asciiUnits "result") response = some value) ∧
      (client.exited = true → client.ledger.pending = [] ∧
        ∀ promise ∈ client.ledger.calls, promise.outcomes.length = 1) ∧
      ∀ (index : Nat) promise, client.ledger.calls[index]? = some promise →
        promise.outcomes ≠ [] → later.ledger.calls[index]? = some promise := by
  have horderly := run_orderly hapart.front hrun
  have hlater : Orderly later := by
    apply run_orderly hapart
    rw [exec_append, hrun]
    exact hmore
  refine ⟨?_, ?_, ?_⟩
  · intro promise hmem
    obtain ⟨index, hpromise⟩ := List.mem_iff_getElem?.mp hmem
    refine ⟨horderly.kept.tracked.once index promise hpromise, ?_⟩
    intro value hvalue
    exact horderly.kept.answered index promise hpromise (.resolved value) hvalue value rfl
  · intro hexited
    have hnone := horderly.kept.quiet (horderly.givenUp hexited)
    exact ⟨hnone, horderly.kept.tracked.settled hnone⟩
  · intro index promise hpromise hsettled
    exact (run_continues hmore).keeps hlater.kept.tracked hpromise hsettled

def replyValue : JsValue :=
  .object [(asciiUnits "jsonrpc", .string (asciiUnits "2.0")),
    (asciiUnits "id", .string (asciiUnits "a")), (asciiUnits "result", .boolean true)]

/-- The output of a runtime that answers the request `a` in one chunk. -/
def replyDecoder : Decoder Unit where
  initial := ()
  push := fun state chunk => (state, .ok (if chunk.isEmpty then [] else [replyValue]))
  finish := fun state => (state, .ok ())

def helloEvent : Event :=
  .request (asciiUnits "a") (asciiUnits "runtime.hello") (.object [])

def exitEvent : Event :=
  .exit (asciiUnits "exit code 0")

def answeredRun : List Event :=
  [helloEvent, .written 0 none, .data [123], .stop, .stop, exitEvent, .exitAwaited]

def overtakenRun : List Event :=
  [helloEvent, .written 0 none, .stop, .stop, .data [123], exitEvent, .exitAwaited]

theorem answeredRun_settled :
    ∃ client, exec (next replyDecoder) (Client.start replyDecoder) answeredRun = some client ∧
      client.exited = true ∧ client.ledger.pending = [] ∧
        ∀ promise ∈ client.ledger.calls, promise.outcomes.length = 1 := by
  have hapart : AllSteps (next replyDecoder) StopsApart (Client.start replyDecoder)
      (answeredRun ++ []) := by
    decide
  refine ⟨_, rfl, rfl, ?_⟩
  exact (requests_settled replyDecoder answeredRun [] _ _ hapart rfl rfl).2.1 rfl

/-- The second call of `stop` closes the client: the answer that comes then is
ignored, and the exit rejects nothing. -/
theorem overtaken_request_pending :
    ∃ client, exec (next replyDecoder) (Client.start replyDecoder) overtakenRun = some client ∧
      client.exited = true ∧ client.state = .closed ∧ client.waitingStops = 0 ∧
        client.writing = [] ∧ client.ledger.pending = [(asciiUnits "a", 0)] ∧
          client.ledger.calls = [⟨asciiUnits "a", []⟩] :=
  ⟨_, rfl, rfl, rfl, rfl, rfl, rfl, rfl⟩

end KodeGpt.RequestSettlement
