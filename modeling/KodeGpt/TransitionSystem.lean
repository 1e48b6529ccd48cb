import Mathlib.Data.List.Basic

/-!
Runs of a partial step function, and the rules by which a fact about one step
becomes a fact about every run. A step that is not enabled has no successor.
-/

namespace KodeGpt.TransitionSystem

universe u v

variable {σ : Type u} {ε : Type v} {next : σ → ε → Option σ}

/-- Take the events in order; the run is undefined as soon as one of them is
not enabled. -/
def exec (next : σ → ε → Option σ) : σ → List ε → Option σ
  | s, [] => some s
  | s, event :: rest => (next s event).bind fun t => exec next t rest

@[simp] theorem exec_nil (s : σ) : exec next s [] = some s := rfl

@[simp] theorem exec_cons (s : σ) (event : ε) (rest : List ε) :
    exec next s (event :: rest) = (next s event).bind fun t => exec next t rest := rfl

theorem exec_append (s : σ) (front back : List ε) :
    exec next s (front ++ back) = (exec next s front).bind fun t => exec next t back := by
  induction front generalizing s with
  | nil => rfl
  | cons event rest ih =>
    cases hnext : next s event with
    | none => simp [hnext]
    | some t => simp [hnext, ih]

theorem exec_some (step : σ → ε → σ) (s : σ) (events : List ε) :
    exec (fun s event => some (step s event)) s events = some (events.foldl step s) := by
  induction events generalizing s with
  | nil => rfl
  | cons event rest ih => simpa using ih (step s event)

/-- Every step of the run is taken in a state and with an event that satisfy
`ok`. -/
def AllSteps (next : σ → ε → Option σ) (ok : σ → ε → Prop) : σ → List ε → Prop
  | _, [] => True
  | s, event :: rest =>
    ok s event ∧ ∀ t, next s event = some t → AllSteps next ok t rest

instance decidableAllSteps {ok : σ → ε → Prop} [∀ s event, Decidable (ok s event)] :
    ∀ s events, Decidable (AllSteps next ok s events)
  | _, [] => isTrue trivial
  | s, event :: rest =>
    match hnext : next s event with
    | none => decidable_of_iff (ok s event) (by simp [AllSteps, hnext])
    | some t =>
      have : Decidable (AllSteps next ok t rest) := decidableAllSteps t rest
      decidable_of_iff (ok s event ∧ AllSteps next ok t rest) (by simp [AllSteps, hnext])

theorem AllSteps.front {ok : σ → ε → Prop} {s : σ} {front back : List ε}
    (h : AllSteps next ok s (front ++ back)) : AllSteps next ok s front := by
  induction front generalizing s with
  | nil => trivial
  | cons event rest ih => exact ⟨h.1, fun t ht => ih (h.2 t ht)⟩

theorem AllSteps.back {ok : σ → ε → Prop} {s t : σ} {front back : List ε}
    (h : AllSteps next ok s (front ++ back)) (hfront : exec next s front = some t) :
    AllSteps next ok t back := by
  induction front generalizing s with
  | nil =>
    obtain rfl : s = t := by simpa using hfront
    exact h
  | cons event rest ih =>
    obtain ⟨u, hfirst, hrest⟩ := Option.bind_eq_some_iff.mp hfront
    exact ih (h.2 u hfirst) hrest

/-- The step that follows a prefix of the run satisfies the condition in the
state which the prefix reaches. -/
theorem AllSteps.at {ok : σ → ε → Prop} {s t : σ} {front back : List ε} {event : ε}
    (h : AllSteps next ok s (front ++ event :: back))
    (hfront : exec next s front = some t) : ok t event := by
  induction front generalizing s with
  | nil =>
    obtain rfl : s = t := by simpa using hfront
    exact h.1
  | cons first rest ih =>
    obtain ⟨u, hfirst, hrest⟩ := Option.bind_eq_some_iff.mp hfront
    exact ih (h.2 u hfirst) hrest

/-- A condition that holds along a prefix and along what follows it holds along
the run. -/
theorem AllSteps.append {ok : σ → ε → Prop} {s : σ} {front back : List ε}
    (hfront : AllSteps next ok s front)
    (hback : ∀ t, exec next s front = some t → AllSteps next ok t back) :
    AllSteps next ok s (front ++ back) := by
  induction front generalizing s with
  | nil => exact hback s rfl
  | cons event rest ih =>
    refine ⟨hfront.1, fun t hnext => ih (hfront.2 t hnext) ?_⟩
    intro u hrest
    apply hback
    rw [exec_cons, hnext]
    exact hrest

/-- The condition holds along the run once it holds after each of its
prefixes. -/
theorem AllSteps.of_prefixes {ok : σ → ε → Prop} {s : σ} {events : List ε}
    (h : ∀ front event back, events = front ++ event :: back →
      ∀ t, exec next s front = some t → ok t event) : AllSteps next ok s events := by
  induction events generalizing s with
  | nil => trivial
  | cons event rest ih =>
    refine ⟨h [] event rest rfl s rfl, ?_⟩
    intro t hnext
    apply ih
    intro front later back hsplit u hfront
    refine h (event :: front) later back (by rw [hsplit]; rfl) u ?_
    rw [exec_cons, hnext]
    exact hfront

theorem AllSteps.of_mem {ok : σ → ε → Prop} {events : List ε}
    (h : ∀ event ∈ events, ∀ s, ok s event) (s : σ) : AllSteps next ok s events := by
  induction events generalizing s with
  | nil => trivial
  | cons event rest ih =>
    refine ⟨h event List.mem_cons_self s, fun t _ => ih ?_ t⟩
    intro later hlater
    exact h later (List.mem_cons_of_mem _ hlater)

theorem AllSteps.mono {ok ok' : σ → ε → Prop} (himp : ∀ s event, ok s event → ok' s event) {s : σ}
    {events : List ε} (h : AllSteps next ok s events) : AllSteps next ok' s events := by
  induction events generalizing s with
  | nil => trivial
  | cons event rest ih => exact ⟨himp s event h.1, fun t ht => ih (h.2 t ht)⟩

theorem AllSteps.of_forall {ok : σ → ε → Prop} (h : ∀ s event, ok s event) (s : σ)
    (events : List ε) : AllSteps next ok s events :=
  AllSteps.of_mem (fun event _ s => h s event) s

section Rules

variable {I : σ → Prop} {ok : σ → ε → Prop}

/-- The invariant rule: what holds at the start and is kept by every step that
meets the condition holds at the end of every run whose steps all meet it. -/
theorem exec_invariant
    (hstep : ∀ s event t, I s → ok s event → next s event = some t → I t)
    {s t : σ} {events : List ε} (hs : I s) (hok : AllSteps next ok s events)
    (hrun : exec next s events = some t) : I t := by
  induction events generalizing s with
  | nil =>
    obtain rfl : s = t := by simpa using hrun
    exact hs
  | cons event rest ih =>
    obtain ⟨u, hfirst, hrest⟩ := Option.bind_eq_some_iff.mp hrun
    exact ih (hstep s event u hs hok.1 hfirst) (hok.2 u hfirst) hrest

/-- The two-state rule: a preorder that every step out of an invariant state
respects relates the two ends of every run. -/
theorem exec_relation {R : σ → σ → Prop} [Std.Refl R] [IsTrans σ R]
    (hinv : ∀ s event t, I s → ok s event → next s event = some t → I t)
    (hstep : ∀ s event t, I s → ok s event → next s event = some t → R s t)
    {s t : σ} {events : List ε} (hs : I s) (hok : AllSteps next ok s events)
    (hrun : exec next s events = some t) : R s t := by
  induction events generalizing s with
  | nil =>
    obtain rfl : s = t := by simpa using hrun
    exact refl_of R s
  | cons event rest ih =>
    obtain ⟨u, hfirst, hrest⟩ := Option.bind_eq_some_iff.mp hrun
    exact trans_of R (hstep s event u hs hok.1 hfirst)
      (ih (hinv s event u hs hok.1 hfirst) (hok.2 u hfirst) hrest)

/-- The invariant rule for a step function that is enabled everywhere. -/
theorem foldl_invariant_of {step : σ → ε → σ}
    (hstep : ∀ s event, I s → ok s event → I (step s event)) {s : σ} (hs : I s)
    {events : List ε} (hok : ∀ front event back, events = front ++ event :: back →
      ok (front.foldl step s) event) : I (events.foldl step s) := by
  have hrun := exec_some step s events
  have hall : AllSteps (fun s event => some (step s event)) ok s events := by
    apply AllSteps.of_prefixes
    intro front event back hsplit t hfront
    rw [exec_some] at hfront
    obtain rfl := Option.some.inj hfront
    exact hok front event back hsplit
  refine exec_invariant ?_ hs hall hrun
  intro s event t hI hevent ht
  obtain rfl := Option.some.inj ht
  exact hstep s event hI hevent

/-- The invariant rule for a step function whose every step keeps the
invariant. -/
theorem foldl_invariant {step : σ → ε → σ} (hstep : ∀ s event, I s → I (step s event))
    {s : σ} (hs : I s) (events : List ε) : I (events.foldl step s) := by
  have hkeep : ∀ s event, I s → (fun (_ : σ) (_ : ε) => True) s event → I (step s event) :=
    fun s event hI _ => hstep s event hI
  exact foldl_invariant_of hkeep hs fun _ _ _ _ => trivial

theorem foldl_relation {R : σ → σ → Prop} [Std.Refl R] [IsTrans σ R] {step : σ → ε → σ}
    (hstep : ∀ s event, R s (step s event)) (s : σ) (events : List ε) :
    R s (events.foldl step s) := by
  have hrun := exec_some step s events
  have hok : AllSteps (fun s event => some (step s event)) (fun _ _ => True) s events :=
    AllSteps.of_forall (fun _ _ => trivial) s events
  have htrue : (fun _ : σ => True) s := trivial
  refine exec_relation (fun _ _ _ _ _ _ => trivial) ?_ htrue hok hrun
  rintro s event t - - ht
  obtain rfl := Option.some.inj ht
  exact hstep s event

end Rules

end KodeGpt.TransitionSystem
