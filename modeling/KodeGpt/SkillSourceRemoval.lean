import KodeGpt.SkillSourceManagers

/-!
Sources that are gone once their removal has resolved: no later access reaches the runtime,
and no capability stays behind, as long as no registration is under way when a removal or a
close returns.
-/

namespace KodeGpt.SkillSourceRemoval

open KeyedFamily TransitionSystem SkillSourceManagers

variable {Id : Type} [DecidableEq Id]

/-- A removal that has resolved leaves no capability and no later access that reaches the
runtime; a close that has resolved leaves no capability at all. -/
structure Released (s : State Id) : Prop where
  unregistered : ∀ number call id time, s.calls number = some call →
    call.operation = .removeSource id → call.phase = .resolved time →
      ∀ capability, s.registered capability ≠ some id
  unreached : ∀ number call id time number' call', s.calls number = some call →
    call.operation = .removeSource id → call.phase = .resolved time →
      s.calls number' = some call' → call'.operation = .access id → time < call'.begun →
        call'.reached = false
  closed : ∀ number call time, s.calls number = some call → call.operation = .close →
    call.phase = .resolved time → ∀ capability, s.registered capability = none

def underWay : RegistrationPhase → Bool
  | .found | .requested _ => true
  | _ => false

/-- The source has no active capability, and no registration that may bring one. -/
def Clear (s : State Id) (id : Id) : Prop :=
  s.activeCapabilities.lookup id = none ∧
    ∀ number registration, s.registrations number = some registration → registration.id = id →
      underWay registration.phase = false

/-- A removal or a close returns when its sources are clear, and no registration finds an
entry after a close; a written document brings back no source that has gone since it was
read; and a register request that fails is not carried out. -/
def Orderly (s : State Id) (event : Event Id) : Prop :=
  match event with
  | .load number _ => ∀ registration, s.registrations number = some registration →
      registration.id ∈ s.store → ∀ number' call time, s.calls number' = some call →
        call.operation = .close → call.phase ≠ .resolved time
  | .grant number => ∀ registration, s.registrations number = some registration →
      registration.phase ≠ .abandoned
  | .giveUp number => ∀ registration capability, s.registrations number = some registration →
      registration.phase ≠ .requested (some (some capability))
  | .replace number _ written => written = true → ∀ call sources, s.calls number = some call →
      call.phase = .loaded sources → ∀ id ∈ sources, id ∈ s.store
  | .conclude number ok => ∀ call, s.calls number = some call →
      (∀ id, call.operation = .removeSource id → ok = true → Clear s id) ∧
        (call.operation = .close → call.phase = .concluding false → ∀ id, Clear s id)
  | _ => True

def running : RegistrationPhase → Bool
  | .reading | .found | .requested _ => true
  | _ => false

/-- If the capability is still registered, then it is the active one of the source. -/
def Owned (s : State Id) (id : Id) (capability : Nat) : Prop :=
  capability < s.sequence ∧
    (s.registered capability ≠ none → s.activeCapabilities.lookup id = some capability)

/-- The runtime has taken the active capability of the source back. -/
def Withdrawn (s : State Id) (id : Id) (capability : Nat) : Prop :=
  s.registered capability = none ∧ s.activeCapabilities.lookup id = some capability

/-- Operations that wait for a registration. -/
def Registers (operation : Operation Id) : Prop :=
  ∃ id, operation = .ensureRegistered id ∨ operation = .access id

/-- What holds of a call on its own. -/
def Fits (s : State Id) (call : Call Id) : Prop :=
  match call.phase with
  | .registering _ _ => Registers call.operation
  | .holding _ | .sent => Registers call.operation
  | .concluding _ => call.operation = .close
  | .unregistering id capability rest _ answer =>
    Owned s id capability ∧ (∀ entry ∈ rest, Owned s entry.1 entry.2) ∧
      (answer = some true → Withdrawn s id capability)
  | .loaded sources => ∀ id, call.operation = .removeSource id → id ∉ sources → id ∉ s.store
  | .replaced =>
    call.operation ≠ .close ∧ ∀ id, call.operation = .removeSource id → id ∉ s.store
  | .resolved _ =>
    (∀ id, call.operation = .removeSource id → id ∉ s.store ∧ Clear s id) ∧
      (call.operation = .close → ∀ id, Clear s id)
  | _ => True

/-- The capabilities of the runtime are known to the manager. -/
structure Tracked (s : State Id) : Prop where
  issued : ∀ capability id, s.registered capability = some id → capability < s.sequence
  held : ∀ capability id, s.registered capability = some id →
    s.activeCapabilities.lookup id = some capability ∨
      ∃ number, s.registrations number = some ⟨id, .requested (some (some capability))⟩
  granted : ∀ number id capability,
    s.registrations number = some ⟨id, .requested (some (some capability))⟩ →
      capability < s.sequence
  recorded : ∀ id capability, s.activeCapabilities.lookup id = some capability →
    capability < s.sequence
  numbered : ∀ number registration, s.registrations number = some registration → number < s.clock
  alone : ∀ number registration, s.registrations number = some registration →
    running registration.phase = true → s.activeCapabilities.lookup registration.id = none ∧
      s.registrationInFlight.lookup registration.id = some number

structure Consistent (s : State Id) : Prop where
  mentioned : ∀ number call, s.calls number = some call →
    ∀ id ∈ call.operation.mentions, id ∈ s.known
  begun : ∀ number call, s.calls number = some call → call.begun < s.clock
  fits : ∀ number call, s.calls number = some call → Fits s call
  once : ∀ number call id capability rest failed number' call' id' rest' failed',
    s.calls number = some call → s.calls number' = some call' →
      call.phase = .unregistering id capability rest failed (some true) →
        call'.phase = .unregistering id' capability rest' failed' (some true) →
          number' = number
  unreached : ∀ number call id time number' call', s.calls number = some call →
    call.operation = .removeSource id → call.phase = .resolved time →
      s.calls number' = some call' → call'.operation = .access id → time < call'.begun →
        call'.reached = false ∧ ∀ capability, call'.phase ≠ .holding capability

/-- What a step keeps for the calls that do not take it. It may forget one capability that
the runtime has taken back. -/
structure Keeps (gone : Option Nat) (s t : State Id) : Prop where
  clock : s.clock ≤ t.clock
  known : ∀ id ∈ s.known, id ∈ t.known
  owned : ∀ id capability, Owned s id capability → Owned t id capability
  withdrawn : ∀ id capability, some capability ≠ gone → Withdrawn s id capability →
    Withdrawn t id capability
  absent : ∀ id ∈ s.known, id ∉ s.store → id ∉ t.store
  clear : ∀ id, id ∉ s.store → Clear s id → Clear t id
  closed : (∃ number call time, s.calls number = some call ∧ call.operation = .close ∧
    call.phase = .resolved time) → (∀ id, Clear s id) → ∀ id, Clear t id

theorem Keeps.fits {gone : Option Nat} {s t : State Id} (h : Keeps gone s t) {number : Nat}
    {call : Call Id} (hcall : s.calls number = some call)
    (hmentioned : ∀ id ∈ call.operation.mentions, id ∈ s.known)
    (hgone : ∀ id capability rest failed,
      call.phase = .unregistering id capability rest failed (some true) → some capability ≠ gone)
    (hfits : Fits s call) : Fits t call := by
  unfold Fits at hfits ⊢
  split
  · rename_i hphase
    rwa [hphase] at hfits
  · rename_i hphase
    rwa [hphase] at hfits
  · rename_i hphase
    rwa [hphase] at hfits
  · rename_i hphase
    rwa [hphase] at hfits
  · rename_i id capability rest failed answer hphase
    rw [hphase] at hfits
    refine ⟨h.owned _ _ hfits.1, fun entry hentry => h.owned _ _ (hfits.2.1 entry hentry), ?_⟩
    rintro rfl
    exact h.withdrawn _ _ (hgone _ _ _ _ hphase) (hfits.2.2 rfl)
  · rename_i sources hphase
    rw [hphase] at hfits
    intro id hoperation hid
    exact h.absent id (hmentioned id (by simp [hoperation, Operation.mentions]))
      (hfits id hoperation hid)
  · rename_i hphase
    rw [hphase] at hfits
    refine ⟨hfits.1, fun id hoperation => ?_⟩
    exact h.absent id (hmentioned id (by simp [hoperation, Operation.mentions]))
      (hfits.2 id hoperation)
  · rename_i time hphase
    rw [hphase] at hfits
    refine ⟨fun id hoperation => ?_, fun hoperation => ?_⟩
    · obtain ⟨habsent, hclear⟩ := hfits.1 id hoperation
      exact ⟨h.absent id (hmentioned id (by simp [hoperation, Operation.mentions])) habsent,
        h.clear id habsent hclear⟩
    · exact h.closed ⟨number, call, time, hcall, hoperation, hphase⟩ (hfits.2 hoperation)
  · trivial

theorem Keeps.refl (s : State Id) : Keeps none s s where
  clock := Nat.le_refl _
  known := fun _ h => h
  owned := fun _ _ h => h
  withdrawn := fun _ _ _ h => h
  absent := fun _ _ h => h
  clear := fun _ _ h => h
  closed := fun _ h => h

theorem Consistent.keep {s t : State Id} (h : Consistent s) (hkeeps : Keeps none s t)
    (hcalls : t.calls = s.calls) : Consistent t where
  mentioned := by
    intro number call hcall id hid
    rw [hcalls] at hcall
    exact hkeeps.known id (h.mentioned number call hcall id hid)
  begun := by
    intro number call hcall
    rw [hcalls] at hcall
    exact Nat.lt_of_lt_of_le (h.begun number call hcall) hkeeps.clock
  fits := by
    intro number call hcall
    rw [hcalls] at hcall
    exact hkeeps.fits hcall (h.mentioned number call hcall) (fun _ _ _ _ _ => nofun)
      (h.fits number call hcall)
  once := by
    rw [hcalls]
    exact h.once
  unreached := by
    rw [hcalls]
    exact h.unreached

theorem Consistent.move {gone : Option Nat} {s t : State Id} (h : Consistent s)
    (hkeeps : Keeps gone s t) {number : Nat} {call : Call Id}
    (hcalls : t.calls = Function.update s.calls number (some call))
    (hgone : ∀ number' call' id capability rest failed, s.calls number' = some call' →
      number' ≠ number → call'.phase = .unregistering id capability rest failed (some true) →
        some capability ≠ gone)
    (hmentioned : ∀ id ∈ call.operation.mentions, id ∈ t.known) (hbegun : call.begun < t.clock)
    (hfits : Fits t call)
    (honce : ∀ id capability rest failed,
      call.phase = .unregistering id capability rest failed (some true) →
        ∀ number' call' id' rest' failed', s.calls number' = some call' →
          call'.phase ≠ .unregistering id' capability rest' failed' (some true))
    (hresolved : ∀ time, call.phase = .resolved time → s.clock ≤ time + 1)
    (hreached : ∀ id number' call' time, call.operation = .access id →
      s.calls number' = some call' → call'.operation = .removeSource id →
        call'.phase = .resolved time → time < call.begun →
          call.reached = false ∧ ∀ capability, call.phase ≠ .holding capability) :
    Consistent t where
  mentioned := by
    intro found called hfound
    rw [hcalls] at hfound
    obtain ⟨rfl, rfl⟩ | ⟨-, hfound⟩ := update_eq_some hfound
    · exact hmentioned
    · exact fun id hid => hkeeps.known id (h.mentioned found called hfound id hid)
  begun := by
    intro found called hfound
    rw [hcalls] at hfound
    obtain ⟨rfl, rfl⟩ | ⟨-, hfound⟩ := update_eq_some hfound
    · exact hbegun
    · exact Nat.lt_of_lt_of_le (h.begun found called hfound) hkeeps.clock
  fits := by
    intro found called hfound
    rw [hcalls] at hfound
    obtain ⟨rfl, rfl⟩ | ⟨hne, hfound⟩ := update_eq_some hfound
    · exact hfits
    · exact hkeeps.fits hfound (h.mentioned found called hfound)
        (fun id capability rest failed => hgone found called id capability rest failed hfound hne)
        (h.fits found called hfound)
  once := by
    intro found called id capability rest failed found' called' id' rest' failed' hfound hfound'
      hphase hphase'
    rw [hcalls] at hfound hfound'
    obtain ⟨rfl, rfl⟩ | ⟨-, hold⟩ := update_eq_some hfound
    · obtain ⟨rfl, rfl⟩ | ⟨-, hold'⟩ := update_eq_some hfound'
      · rfl
      · exact absurd hphase' (honce _ _ _ _ hphase found' called' _ _ _ hold')
    · obtain ⟨rfl, rfl⟩ | ⟨-, hold'⟩ := update_eq_some hfound'
      · exact absurd hphase (honce _ _ _ _ hphase' found called _ _ _ hold)
      · exact h.once found called id capability rest failed found' called' id' rest' failed' hold
          hold' hphase hphase'
  unreached := by
    intro found called id time found' called' hfound hoperation hphase hfound' haccess hlater
    rw [hcalls] at hfound hfound'
    obtain ⟨rfl, rfl⟩ | ⟨-, hold⟩ := update_eq_some hfound
    · obtain ⟨rfl, rfl⟩ | ⟨-, hold'⟩ := update_eq_some hfound'
      · rw [hoperation] at haccess
        cases haccess
      · have htime := hresolved time hphase
        have hbefore := h.begun found' called' hold'
        omega
    · obtain ⟨rfl, rfl⟩ | ⟨-, hold'⟩ := update_eq_some hfound'
      · exact hreached id found called time haccess hold hoperation hphase hlater
      · exact h.unreached found called id time found' called' hold hoperation hphase hold' haccess
          hlater

section Steps

variable {s : State Id}

theorem Tracked.same {t : State Id} (h : Tracked s) (hregistered : t.registered = s.registered)
    (hsequence : t.sequence = s.sequence) (hactive : t.activeCapabilities = s.activeCapabilities)
    (hflight : t.registrationInFlight = s.registrationInFlight)
    (hregistrations : t.registrations = s.registrations) (hclock : s.clock ≤ t.clock) :
    Tracked t where
  issued := by
    rw [hregistered, hsequence]
    exact h.issued
  held := by
    rw [hregistered, hactive, hregistrations]
    exact h.held
  granted := by
    rw [hregistrations, hsequence]
    exact h.granted
  recorded := by
    rw [hactive, hsequence]
    exact h.recorded
  numbered := by
    rw [hregistrations]
    exact fun number registration hreg =>
      Nat.lt_of_lt_of_le (h.numbered number registration hreg) hclock
  alone := by
    rw [hregistrations, hactive, hflight]
    exact h.alone

theorem keeps_same {t : State Id} (hregistered : t.registered = s.registered)
    (hsequence : t.sequence = s.sequence) (hactive : t.activeCapabilities = s.activeCapabilities)
    (hregistrations : t.registrations = s.registrations)
    (hstore : ∀ id ∈ s.known, id ∉ s.store → id ∉ t.store)
    (hknown : ∀ id ∈ s.known, id ∈ t.known) (hclock : s.clock ≤ t.clock) : Keeps none s t where
  clock := hclock
  known := hknown
  owned := by
    unfold Owned
    rw [hregistered, hsequence, hactive]
    exact fun _ _ => id
  withdrawn := by
    unfold Withdrawn
    rw [hregistered, hactive]
    exact fun _ _ _ => id
  absent := hstore
  clear := by
    unfold Clear
    rw [hactive, hregistrations]
    exact fun _ _ => id
  closed := by
    unfold Clear
    rw [hactive, hregistrations]
    exact fun _ => id

theorem Tracked.setRegistration (h : Tracked s) {number : Nat} {registration : Registration Id}
    (hreg : s.registrations number = some registration) {phase : RegistrationPhase}
    (hold : ∀ capability, registration.phase ≠ .requested (some (some capability)))
    (hphase : ∀ capability, phase ≠ .requested (some (some capability)))
    (hrunning : running phase = true → running registration.phase = true) :
    Tracked (s.setRegistration number ⟨registration.id, phase⟩) where
  issued := h.issued
  held := by
    intro capability id hregistered
    obtain hactive | ⟨found, hfound⟩ := h.held capability id hregistered
    · exact Or.inl hactive
    · refine Or.inr ⟨found, ?_⟩
      have hne : found ≠ number := by
        rintro rfl
        obtain rfl := Option.some.inj (hreg.symm.trans hfound)
        exact hold capability rfl
      exact (Function.update_of_ne hne _ _).trans hfound
  granted := by
    intro found id capability hfound
    obtain ⟨-, heq⟩ | ⟨-, hfound⟩ := update_eq_some hfound
    · exact absurd (congrArg Registration.phase heq).symm (hphase capability)
    · exact h.granted found id capability hfound
  recorded := h.recorded
  numbered := by
    intro found other hfound
    obtain ⟨rfl, -⟩ | ⟨-, hfound⟩ := update_eq_some hfound
    · exact Nat.lt_succ_of_lt (h.numbered found registration hreg)
    · exact Nat.lt_succ_of_lt (h.numbered found other hfound)
  alone := by
    intro found other hfound hrun
    obtain ⟨rfl, rfl⟩ | ⟨-, hfound⟩ := update_eq_some hfound
    · exact h.alone found registration hreg (hrunning hrun)
    · exact h.alone found other hfound hrun

theorem keeps_setRegistration {number : Nat} {registration : Registration Id}
    (hreg : s.registrations number = some registration) {phase : RegistrationPhase}
    (hclear : underWay phase = true → underWay registration.phase = true ∨
      (registration.id ∈ s.store ∧ ∀ number' call time, s.calls number' = some call →
        call.operation = .close → call.phase ≠ .resolved time)) :
    Keeps none s (s.setRegistration number ⟨registration.id, phase⟩) := by
  have hmove : ∀ id, (underWay phase = true → registration.id = id →
      underWay registration.phase = true) → Clear s id →
        Clear (s.setRegistration number ⟨registration.id, phase⟩) id := by
    intro id hnew hs
    refine ⟨hs.1, ?_⟩
    intro found other hfound hid
    obtain ⟨rfl, rfl⟩ | ⟨-, hfound⟩ := update_eq_some hfound
    · have hnot := hs.2 found registration hreg hid
      by_contra hunder
      have hwas := hnew (by simpa using hunder) hid
      rw [hnot] at hwas
      cases hwas
    · exact hs.2 found other hfound hid
  refine { clock := Nat.le_succ _, known := fun _ => id, owned := fun _ _ => id,
           withdrawn := fun _ _ _ => id, absent := fun _ _ => id, clear := ?_, closed := ?_ }
  · intro id habsent
    refine hmove id fun hunder hid => ?_
    obtain hwas | ⟨hstored, -⟩ := hclear hunder
    · exact hwas
    · exact absurd (hid ▸ hstored) habsent
  · rintro ⟨number', call, time, hcall, hoperation, hphase⟩ hs id
    refine hmove id (fun hunder _ => ?_) (hs id)
    obtain hwas | ⟨-, hopen⟩ := hclear hunder
    · exact hwas
    · exact absurd hphase (hopen number' call time hcall hoperation)

theorem Tracked.grant (h : Tracked s) {number : Nat} {registration : Registration Id}
    (hreg : s.registrations number = some registration)
    (hphase : registration.phase = .requested none) :
    Tracked ({ s with
      registered := Function.update s.registered s.sequence (some registration.id)
      sequence := s.sequence + 1 }.setRegistration number
        ⟨registration.id, .requested (some (some s.sequence))⟩) where
  issued := by
    intro capability id hregistered
    by_cases hnew : capability = s.sequence
    · subst hnew
      exact Nat.lt_succ_self _
    · have hold := (Function.update_of_ne hnew _ _).symm.trans hregistered
      exact Nat.lt_succ_of_lt (h.issued capability id hold)
  held := by
    intro capability id hregistered
    by_cases hnew : capability = s.sequence
    · subst hnew
      have hself : Function.update s.registered s.sequence (some registration.id) s.sequence =
          some id := hregistered
      rw [Function.update_self] at hself
      obtain rfl := Option.some.inj hself
      exact Or.inr ⟨number, Function.update_self ..⟩
    · have hold := (Function.update_of_ne hnew _ _).symm.trans hregistered
      obtain hactive | ⟨found, hfound⟩ := h.held capability id hold
      · exact Or.inl hactive
      · refine Or.inr ⟨found, ?_⟩
        have hne : found ≠ number := by
          rintro rfl
          obtain rfl := Option.some.inj (hreg.symm.trans hfound)
          cases hphase
        exact (Function.update_of_ne hne _ _).trans hfound
  granted := by
    intro found id capability hfound
    obtain ⟨-, heq⟩ | ⟨-, hfound⟩ := update_eq_some hfound
    · have hcapability := congrArg Registration.phase heq
      injection hcapability with hcapability
      obtain rfl := Option.some.inj (Option.some.inj hcapability)
      exact Nat.lt_succ_self _
    · exact Nat.lt_succ_of_lt (h.granted found id capability hfound)
  recorded := fun id capability hactive => Nat.lt_succ_of_lt (h.recorded id capability hactive)
  numbered := by
    intro found other hfound
    obtain ⟨rfl, -⟩ | ⟨-, hfound⟩ := update_eq_some hfound
    · exact Nat.lt_succ_of_lt (h.numbered found registration hreg)
    · exact Nat.lt_succ_of_lt (h.numbered found other hfound)
  alone := by
    intro found other hfound hrun
    obtain ⟨rfl, rfl⟩ | ⟨-, hfound⟩ := update_eq_some hfound
    · exact h.alone found registration hreg (by rw [hphase]; rfl)
    · exact h.alone found other hfound hrun

theorem Owned.issue {id : Id} {capability : Nat} (h : Owned s id capability)
    {registered : Nat → Option Id}
    (hsame : ∀ other, other < s.sequence → registered other = s.registered other) :
    capability < s.sequence + 1 ∧
      (registered capability ≠ none → s.activeCapabilities.lookup id = some capability) :=
  ⟨Nat.lt_succ_of_lt h.1, fun hne => h.2 (hsame capability h.1 ▸ hne)⟩

theorem keeps_grant (h : Tracked s) {number : Nat} {registration : Registration Id}
    (hreg : s.registrations number = some registration)
    (hphase : registration.phase = .requested none) :
    Keeps none s ({ s with
      registered := Function.update s.registered s.sequence (some registration.id)
      sequence := s.sequence + 1 }.setRegistration number
        ⟨registration.id, .requested (some (some s.sequence))⟩) := by
  have hunder : underWay registration.phase = true := by rw [hphase]; rfl
  have hsame : ∀ other, other < s.sequence →
      Function.update s.registered s.sequence (some registration.id) other = s.registered other :=
    fun other hlt => Function.update_of_ne (Nat.ne_of_lt hlt) _ _
  have hkeeps : Keeps none s (s.setRegistration number
      ⟨registration.id, .requested (some (some s.sequence))⟩) :=
    keeps_setRegistration hreg fun _ => Or.inl hunder
  refine { clock := hkeeps.clock, known := hkeeps.known, owned := ?_, withdrawn := ?_,
           absent := hkeeps.absent, clear := hkeeps.clear, closed := hkeeps.closed }
  · exact fun id capability howned => howned.issue hsame
  · rintro id capability - ⟨hnone, hactive⟩
    exact ⟨(hsame capability (h.recorded id capability hactive)).trans hnone, hactive⟩

theorem Tracked.settle (h : Tracked s) {number : Nat} {id : Id} {capability : Nat}
    (hreg : s.registrations number = some ⟨id, .requested (some (some capability))⟩) :
    Tracked ((s.record id capability).setRegistration number ⟨id, .recorded⟩) where
  issued := h.issued
  held := by
    intro other owner hregistered
    obtain hactive | ⟨found, hfound⟩ := h.held other owner hregistered
    · refine Or.inl ?_
      have hne : owner ≠ id := by
        rintro rfl
        rw [(h.alone number _ hreg rfl).1] at hactive
        cases hactive
      exact (AList.lookup_insert_ne hne).trans hactive
    · by_cases hnumber : found = number
      · subst hnumber
        obtain ⟨rfl, heq⟩ := Registration.mk.inj (Option.some.inj (hfound.symm.trans hreg))
        injection heq with heq
        obtain rfl := Option.some.inj (Option.some.inj heq)
        exact Or.inl (AList.lookup_insert _)
      · exact Or.inr ⟨found, (Function.update_of_ne hnumber _ _).trans hfound⟩
  granted := by
    intro found owner other hfound
    obtain ⟨-, heq⟩ | ⟨-, hfound⟩ := update_eq_some hfound
    · cases heq
    · exact h.granted found owner other hfound
  recorded := by
    intro owner other hactive
    obtain ⟨-, rfl⟩ | ⟨-, hold⟩ := lookup_insert_eq_some hactive
    · exact h.granted number id other hreg
    · exact h.recorded owner other hold
  numbered := by
    intro found other hfound
    obtain ⟨rfl, -⟩ | ⟨-, hfound⟩ := update_eq_some hfound
    · exact Nat.lt_succ_of_lt (h.numbered found _ hreg)
    · exact Nat.lt_succ_of_lt (h.numbered found other hfound)
  alone := by
    intro found other hfound hrun
    obtain ⟨rfl, rfl⟩ | ⟨hne, hfound⟩ := update_eq_some hfound
    · cases hrun
    · obtain ⟨hactive, hflight⟩ := h.alone found other hfound hrun
      refine ⟨?_, hflight⟩
      have hid : other.id ≠ id := by
        intro hid
        have hother := (h.alone number _ hreg rfl).2
        rw [hid, hother] at hflight
        exact hne (Option.some.inj hflight).symm
      exact (AList.lookup_insert_ne hid).trans hactive

theorem keeps_settle (h : Tracked s) {number : Nat} {id : Id} {capability : Nat}
    (hreg : s.registrations number = some ⟨id, .requested (some (some capability))⟩) :
    Keeps none s ((s.record id capability).setRegistration number ⟨id, .recorded⟩) := by
  have hnone : s.activeCapabilities.lookup id = none := (h.alone number _ hreg rfl).1
  have hother : ∀ {owner other}, s.activeCapabilities.lookup owner = some other →
      (s.activeCapabilities.insert id capability).lookup owner = some other := by
    intro owner other hactive
    have hne : owner ≠ id := by
      rintro rfl
      rw [hnone] at hactive
      cases hactive
    exact (AList.lookup_insert_ne hne).trans hactive
  have hclear : ∀ owner, Clear s owner →
      Clear ((s.record id capability).setRegistration number ⟨id, .recorded⟩) owner := by
    intro owner hs
    have hne : owner ≠ id := by
      rintro rfl
      have hunder := hs.2 number _ hreg rfl
      cases hunder
    refine ⟨(AList.lookup_insert_ne hne).trans hs.1, ?_⟩
    intro found other hfound hid
    obtain ⟨rfl, rfl⟩ | ⟨-, hfound⟩ := update_eq_some hfound
    · rfl
    · exact hs.2 found other hfound hid
  refine { clock := Nat.le_succ _, known := fun _ hid => hid, owned := ?_, withdrawn := ?_,
           absent := fun _ _ habsent => habsent, clear := fun owner _ => hclear owner,
           closed := fun _ hs owner => hclear owner (hs owner) }
  · exact fun owner other howned => ⟨howned.1, fun hne => hother (howned.2 hne)⟩
  · exact fun owner other _ hgiven => ⟨hgiven.1, hother hgiven.2⟩

theorem Tracked.unregister (h : Tracked s) (capability : Nat) :
    Tracked (s.unregister capability) := by
  have hold : ∀ {other id}, (s.unregister capability).registered other = some id →
      s.registered other = some id := by
    intro other id hregistered
    by_cases hne : other = capability
    · subst hne
      cases (Function.update_self ..).symm.trans hregistered
    · exact (Function.update_of_ne hne _ _).symm.trans hregistered
  exact { issued := fun other id hregistered => h.issued other id (hold hregistered)
          held := fun other id hregistered => h.held other id (hold hregistered)
          granted := h.granted, recorded := h.recorded, numbered := h.numbered, alone := h.alone }

omit [DecidableEq Id] in
theorem unregister_none {capability other : Nat} (h : s.registered other = none) :
    (s.unregister capability).registered other = none := by
  by_cases hne : other = capability
  · subst hne
    exact Function.update_self ..
  · exact (Function.update_of_ne hne _ _).trans h

theorem keeps_unregister (capability : Nat) : Keeps none s (s.unregister capability) where
  clock := Nat.le_refl _
  known := fun _ hid => hid
  owned := fun _ _ howned => ⟨howned.1, fun hne => howned.2 fun hnone => hne (unregister_none hnone)⟩
  withdrawn := fun _ _ _ hgiven => ⟨unregister_none hgiven.1, hgiven.2⟩
  absent := fun _ _ habsent => habsent
  clear := fun _ _ hclear => hclear
  closed := fun _ hclear => hclear

theorem Tracked.forget (h : Tracked s) {id : Id} {capability : Nat}
    (hgiven : Withdrawn s id capability) : Tracked (s.forget id) where
  issued := h.issued
  held := by
    intro other owner hregistered
    obtain hactive | hfound := h.held other owner hregistered
    · refine Or.inl ?_
      have hne : owner ≠ id := by
        rintro rfl
        obtain rfl := Option.some.inj (hgiven.2.symm.trans hactive)
        cases hgiven.1.symm.trans hregistered
      exact (AList.lookup_erase_ne hne).trans hactive
    · exact Or.inr hfound
  granted := h.granted
  recorded := fun owner other hactive => h.recorded owner other (lookup_erase_eq_some hactive).2
  numbered := h.numbered
  alone := by
    intro found other hfound hrun
    obtain ⟨hactive, hflight⟩ := h.alone found other hfound hrun
    refine ⟨?_, hflight⟩
    by_cases hid : other.id = id
    · rw [hid]
      exact AList.lookup_erase _ _
    · exact (AList.lookup_erase_ne hid).trans hactive

theorem lookup_forget {id owner : Id} (h : s.activeCapabilities.lookup owner = none) :
    (s.forget id).activeCapabilities.lookup owner = none := by
  by_cases hid : owner = id
  · rw [hid]
    exact AList.lookup_erase _ _
  · exact (AList.lookup_erase_ne hid).trans h

theorem keeps_forget {id : Id} {capability : Nat} (hgiven : Withdrawn s id capability) :
    Keeps (some capability) s (s.forget id) := by
  have hclear : ∀ owner, Clear s owner → Clear (s.forget id) owner :=
    fun owner hs => ⟨lookup_forget hs.1, hs.2⟩
  refine { clock := Nat.le_refl _, known := fun _ hid => hid, owned := ?_, withdrawn := ?_,
           absent := fun _ _ habsent => habsent, clear := fun owner _ => hclear owner,
           closed := fun _ hs owner => hclear owner (hs owner) }
  · intro owner other howned
    refine ⟨howned.1, fun hne => ?_⟩
    have hactive := howned.2 hne
    have hid : owner ≠ id := by
      rintro rfl
      obtain rfl := Option.some.inj (hgiven.2.symm.trans hactive)
      exact hne hgiven.1
    exact (AList.lookup_erase_ne hid).trans hactive
  · rintro owner other hother ⟨hnone, hactive⟩
    refine ⟨hnone, ?_⟩
    have hid : owner ≠ id := by
      rintro rfl
      exact hother (hactive.symm.trans hgiven.2)
    exact (AList.lookup_erase_ne hid).trans hactive

theorem release_cases (owner : Bool) (number : Nat) (id : Id) :
    s.release owner number id = s ∨
      (s.registrationInFlight.lookup id = some number ∧ s.release owner number id =
        { s with registrationInFlight := s.registrationInFlight.erase id }) := by
  unfold State.release
  split
  · rename_i hrelease
    exact Or.inr ⟨hrelease.2, rfl⟩
  · exact Or.inl rfl

theorem Tracked.release (h : Tracked s) (owner : Bool) {number : Nat}
    {registration : Registration Id} (hreg : s.registrations number = some registration)
    (hsettled : running registration.phase = false) (id : Id) :
    Tracked (s.release owner number id) := by
  obtain hsame | ⟨hlookup, hrelease⟩ := release_cases (s := s) owner number id
  · rw [hsame]
    exact h
  · rw [hrelease]
    refine { issued := h.issued, held := h.held, granted := h.granted, recorded := h.recorded,
             numbered := h.numbered, alone := ?_ }
    intro found other hfound hrun
    obtain ⟨hactive, hflight⟩ := h.alone found other hfound hrun
    refine ⟨hactive, ?_⟩
    have hid : other.id ≠ id := by
      rintro rfl
      obtain rfl := Option.some.inj (hlookup.symm.trans hflight)
      obtain rfl := Option.some.inj (hreg.symm.trans hfound)
      rw [hsettled] at hrun
      cases hrun
    exact (AList.lookup_erase_ne hid).trans hflight

theorem keeps_release (owner : Bool) (number : Nat) (id : Id) :
    Keeps none s (s.release owner number id) := by
  obtain hsame | ⟨-, hrelease⟩ := release_cases (s := s) owner number id
  · rw [hsame]
    exact Keeps.refl s
  · rw [hrelease]
    exact keeps_same rfl rfl rfl rfl (fun _ _ h => h) (fun _ h => h) (Nat.le_refl _)

theorem calls_release (owner : Bool) (number : Nat) (id : Id) :
    (s.release owner number id).calls = s.calls := by
  obtain hsame | ⟨-, hrelease⟩ := release_cases (s := s) owner number id
  · rw [hsame]
  · rw [hrelease]

theorem Tracked.registering (h : Tracked s) {id : Id}
    (hactive : s.activeCapabilities.lookup id = none)
    (hflight : s.registrationInFlight.lookup id = none) : Tracked (s.registering id) where
  issued := h.issued
  held := by
    intro capability owner hregistered
    obtain hfound | ⟨found, hfound⟩ := h.held capability owner hregistered
    · exact Or.inl hfound
    · have hne : found ≠ s.clock := Nat.ne_of_lt (h.numbered found _ hfound)
      exact Or.inr ⟨found, (Function.update_of_ne hne _ _).trans hfound⟩
  granted := by
    intro found owner capability hfound
    obtain ⟨-, heq⟩ | ⟨-, hfound⟩ := update_eq_some hfound
    · cases heq
    · exact h.granted found owner capability hfound
  recorded := h.recorded
  numbered := by
    intro found other hfound
    obtain ⟨rfl, -⟩ | ⟨-, hfound⟩ := update_eq_some hfound
    · exact Nat.lt_succ_self _
    · exact Nat.lt_succ_of_lt (h.numbered found other hfound)
  alone := by
    intro found other hfound hrun
    obtain ⟨rfl, rfl⟩ | ⟨-, hfound⟩ := update_eq_some hfound
    · exact ⟨hactive, AList.lookup_insert _⟩
    · obtain ⟨hnone, hlookup⟩ := h.alone found other hfound hrun
      refine ⟨hnone, ?_⟩
      have hne : other.id ≠ id := by
        rintro rfl
        rw [hflight] at hlookup
        cases hlookup
      exact (AList.lookup_insert_ne hne).trans hlookup

theorem keeps_registering (id : Id) : Keeps none s (s.registering id) := by
  have hclear : ∀ owner, Clear s owner → Clear (s.registering id) owner := by
    rintro owner ⟨hnone, hregistrations⟩
    refine ⟨hnone, ?_⟩
    intro found other hfound hid
    obtain ⟨rfl, rfl⟩ | ⟨-, hfound⟩ := update_eq_some hfound
    · rfl
    · exact hregistrations found other hfound hid
  exact { clock := Nat.le_succ _, known := fun _ h => h, owned := fun _ _ h => h,
          withdrawn := fun _ _ _ h => h, absent := fun _ _ h => h,
          clear := fun owner _ => hclear owner, closed := fun _ hs owner => hclear owner (hs owner) }

end Steps

structure Inv (s : State Id) : Prop where
  tracked : Tracked s
  consistent : Consistent s

section Calls

variable {s : State Id}

theorem Tracked.setCall (h : Tracked s) (number : Nat) (call : Call Id) :
    Tracked (s.setCall number call) :=
  h.same rfl rfl rfl rfl rfl (Nat.le_succ _)

theorem Keeps.setCall {gone : Option Nat} {u : State Id} (h : Keeps gone s u) (number : Nat)
    (call : Call Id) : Keeps gone s (u.setCall number call) where
  clock := Nat.le_succ_of_le h.clock
  known := h.known
  owned := h.owned
  withdrawn := h.withdrawn
  absent := h.absent
  clear := h.clear
  closed := h.closed

/-- A call may go on from the state, whatever the step does to the manager. -/
def Advances (s : State Id) (gone : Option Nat) (number : Nat) (call : Call Id) : Prop :=
  ∀ (u : State Id) (phase : Phase Id), Tracked u → Keeps gone s u → u.calls = s.calls →
    Fits u (call.withPhase phase) →
    (∀ id capability rest failed,
      phase ≠ .unregistering id capability rest failed (some true)) →
    (∀ time, phase = .resolved time → s.clock ≤ time + 1) →
    (∀ capability, phase ≠ .holding capability) → Inv (u.setCall number (call.withPhase phase))

theorem Inv.advances_gone {gone : Option Nat} (h : Inv s) {number : Nat} {call : Call Id}
    (hcall : s.calls number = some call)
    (hgone : ∀ number' call' id capability rest failed, s.calls number' = some call' →
      number' ≠ number → call'.phase = .unregistering id capability rest failed (some true) →
        some capability ≠ gone) : Advances s gone number call := by
  intro u phase hu hkeeps hcalls hfits hphase hresolved hholding
  refine { tracked := hu.setCall number _, consistent := ?_ }
  refine h.consistent.move (hkeeps.setCall number _) (congrArg (Function.update · number _) hcalls)
    hgone ?_ ?_ hfits ?_ hresolved ?_
  · exact fun id hid => hkeeps.known id (h.consistent.mentioned number call hcall id hid)
  · exact Nat.lt_succ_of_le
      (Nat.le_trans (Nat.le_of_lt (h.consistent.begun number call hcall)) hkeeps.clock)
  · exact fun id capability rest failed hnew => absurd hnew (hphase id capability rest failed)
  · intro id number' call' time haccess hcall' hremove htime hlater
    have hbefore := h.consistent.unreached number' call' id time number call hcall' hremove htime
      hcall haccess hlater
    exact ⟨hbefore.1, hholding⟩

theorem Inv.advances (h : Inv s) {number : Nat} {call : Call Id}
    (hcall : s.calls number = some call) : Advances s none number call :=
  h.advances_gone hcall fun _ _ _ _ _ _ _ _ _ => nofun

theorem Inv.advances_new (h : Inv s) {number : Nat} {call : Call Id}
    (hmentioned : ∀ id ∈ call.operation.mentions, id ∈ s.known) (hbegun : call.begun = s.clock)
    (hreached : call.reached = false) : Advances s none number call := by
  intro u phase hu hkeeps hcalls hfits hphase hresolved hholding
  refine { tracked := hu.setCall number _, consistent := ?_ }
  refine h.consistent.move (hkeeps.setCall number _) (congrArg (Function.update · number _) hcalls)
    (fun _ _ _ _ _ _ _ _ _ => nofun) ?_ ?_ hfits ?_ hresolved ?_
  · exact fun id hid => hkeeps.known id (hmentioned id hid)
  · exact Nat.lt_succ_of_le (Nat.le_trans (Nat.le_of_eq hbegun) hkeeps.clock)
  · exact fun id capability rest failed hnew => absurd hnew (hphase id capability rest failed)
  · intro _ _ _ _ _ _ _ _ _
    exact ⟨hreached, hholding⟩

theorem Advances.plain {gone : Option Nat} {number : Nat} {call : Call Id}
    (h : Advances s gone number call) {u : State Id} {phase : Phase Id} (hu : Tracked u)
    (hkeeps : Keeps gone s u) (hcalls : u.calls = s.calls)
    (hphase : phase = .inspecting ∨ phase = .checking ∨ phase = .looking ∨ phase = .delegated ∨
      phase = .reading ∨ phase = .rejected) :
    Inv (u.setCall number (call.withPhase phase)) := by
  obtain rfl | rfl | rfl | rfl | rfl | rfl := hphase <;>
    exact h u _ hu hkeeps hcalls trivial (fun _ _ _ _ => nofun) (fun _ => nofun) (fun _ => nofun)

theorem Advances.unregisterNext {gone : Option Nat} {number : Nat} {call : Call Id}
    (h : Advances s gone number call) {u : State Id} (hu : Tracked u) (hkeeps : Keeps gone s u)
    (hcalls : u.calls = s.calls) (hclose : call.operation = .close) (failed : Bool)
    {rest : List (Id × Nat)} (hrest : ∀ entry ∈ rest, Owned u entry.1 entry.2) :
    Inv (u.setCall number (call.withPhase (unregisterNext failed rest))) := by
  cases rest with
  | nil =>
    exact h u _ hu hkeeps hcalls hclose (fun _ _ _ _ => nofun) (fun _ => nofun) (fun _ => nofun)
  | cons entry rest =>
    refine h u _ hu hkeeps hcalls ⟨?_, ?_, nofun⟩ (fun _ _ _ _ => nofun) (fun _ => nofun)
      (fun _ => nofun)
    · exact hrest entry List.mem_cons_self
    · exact fun other hother => hrest other (List.mem_cons_of_mem _ hother)

theorem fits_resolved {u : State Id} {call : Call Id} (hregisters : Registers call.operation)
    (time : Nat) : Fits u (call.withPhase (.resolved time)) := by
  obtain ⟨owner, howner⟩ := hregisters
  constructor
  · intro id hremove
    obtain heq | heq := howner <;> cases heq.symm.trans hremove
  · intro hclose
    obtain heq | heq := howner <;> cases heq.symm.trans hclose

theorem Advances.afterRegistration {number : Nat} {call : Call Id}
    (h : Advances s none number call) {u : State Id} (hu : Tracked u) (hkeeps : Keeps none s u)
    (hcalls : u.calls = s.calls) (hregisters : Registers call.operation) :
    Inv (u.setCall number (call.withPhase (call.operation.afterRegistration s.clock))) := by
  have hresolved : Inv (u.setCall number (call.withPhase (.resolved s.clock))) := by
    refine h u _ hu hkeeps hcalls (fits_resolved hregisters _) (fun _ _ _ _ => nofun) ?_
      (fun _ => nofun)
    rintro time ⟨⟩
    exact Nat.le_succ _
  cases hoperation : call.operation with
  | access id => exact h.plain hu hkeeps hcalls (Or.inr (Or.inr (Or.inl rfl)))
  | _ => exact hresolved

theorem Inv.ensureRegistered (h : Inv s) {number : Nat} {call : Call Id}
    (hadvances : Advances s none number call) (hregisters : Registers call.operation) (id : Id) :
    Inv (s.ensureRegistered number call id) := by
  unfold State.ensureRegistered
  split
  · exact hadvances.afterRegistration h.tracked (Keeps.refl s) rfl hregisters
  · rename_i hactive
    split
    · exact hadvances s _ h.tracked (Keeps.refl s) rfl hregisters (fun _ _ _ _ => nofun)
        (fun _ => nofun) (fun _ => nofun)
    · rename_i hflight
      exact hadvances _ _ (h.tracked.registering hactive hflight) (keeps_registering id) rfl
        hregisters (fun _ _ _ _ => nofun) (fun _ => nofun) (fun _ => nofun)

theorem owned_active (h : Tracked s) {id : Id} {capability : Nat}
    (hactive : s.activeCapabilities.lookup id = some capability) : Owned s id capability :=
  ⟨h.recorded id capability hactive, fun _ => hactive⟩

theorem owned_entries (h : Tracked s) : ∀ entry ∈ s.activeEntries, Owned s entry.1 entry.2 := by
  intro entry hentry
  obtain ⟨⟨id, capability⟩, hmem, rfl⟩ := List.mem_map.mp hentry
  exact owned_active h (AList.mem_lookup_iff.mpr (List.mem_reverse.mp hmem))

theorem Inv.begin (h : Inv s) (number : Nat) (operation : Operation Id) :
    Inv (s.begin number operation) := by
  unfold State.begin
  dsimp only
  generalize hknown : operation.mentions ++ s.known = known
  have htracked : Tracked { s with known } := h.tracked.same rfl rfl rfl rfl rfl (Nat.le_refl _)
  have hinv : Inv { s with known } := by
    refine { tracked := htracked, consistent := h.consistent.keep ?_ rfl }
    refine keeps_same rfl rfl rfl rfl (fun _ _ habsent => habsent) ?_ (Nat.le_refl _)
    intro id hid
    rw [← hknown]
    exact List.mem_append_right _ hid
  have hadvances : Advances { s with known } none number
      { operation, begun := s.clock, reached := false, phase := .checking } := by
    refine hinv.advances_new ?_ rfl rfl
    intro id hid
    rw [← hknown]
    exact List.mem_append_left _ hid
  cases operation with
  | addSource => exact hadvances.plain htracked (Keeps.refl _) rfl (Or.inl rfl)
  | ensureRegistered id => exact hinv.ensureRegistered hadvances ⟨id, Or.inl rfl⟩ id
  | access id => exact hadvances.plain htracked (Keeps.refl _) rfl (Or.inr (Or.inl rfl))
  | removeSource id =>
    dsimp only
    unfold State.removeSource
    split
    · rename_i capability hactive
      exact hadvances _ _ htracked (Keeps.refl _) rfl
        ⟨owned_active htracked hactive, fun _ => nofun, nofun⟩ (fun _ _ _ _ => nofun)
        (fun _ => nofun) (fun _ => nofun)
    · exact hadvances.plain htracked (Keeps.refl _) rfl
        (Or.inr (Or.inr (Or.inr (Or.inr (Or.inl rfl)))))
  | close =>
    exact hadvances.unregisterNext htracked (Keeps.refl _) rfl rfl false (owned_entries htracked)

theorem Inv.core {u : State Id} (h : Inv s) (hu : Tracked u) (hkeeps : Keeps none s u)
    (hcalls : u.calls = s.calls) : Inv u where
  tracked := hu
  consistent := h.consistent.keep hkeeps hcalls

theorem Inv.register {t : State Id} {number : Nat} {registration : Registration Id}
    {event : Event Id} (h : Inv s) (hreg : s.registrations number = some registration)
    (horderly : Orderly s event) (hnext : s.register number registration event = some t)
    (hevent : (∃ ok, event = .load number ok) ∨ event = .request number ∨ event = .grant number ∨
      event = .refuse number ∨ event = .giveUp number ∨ event = .settle number) : Inv t := by
  -- a step that neither finds the entry nor touches a capability
  have hplain : ∀ phase, (∀ capability, registration.phase ≠ .requested (some (some capability))) →
      (∀ capability, phase ≠ .requested (some (some capability))) →
      (running phase = true → running registration.phase = true) →
      (underWay phase = true → underWay registration.phase = true ∨
        (registration.id ∈ s.store ∧ ∀ number' call time, s.calls number' = some call →
          call.operation = .close → call.phase ≠ .resolved time)) →
      Inv (s.setRegistration number ⟨registration.id, phase⟩) :=
    fun phase hold hphase hrunning hunder =>
      h.core (h.tracked.setRegistration hreg hold hphase hrunning)
        (keeps_setRegistration hreg hunder) rfl
  obtain ⟨id, phase⟩ := registration
  obtain ⟨ok, rfl⟩ | rfl | rfl | rfl | rfl | rfl := hevent
  · obtain ⟨hphase, heq⟩ := Option.ite_none_right_eq_some.mp hnext
    obtain rfl := Option.some.inj heq
    obtain rfl : phase = .reading := hphase
    by_cases hfound : ok = true ∧ id ∈ s.store
    · simp only [if_pos hfound]
      refine hplain _ (fun _ => nofun) (fun _ => nofun) (fun _ => rfl) fun _ => Or.inr ⟨hfound.2, ?_⟩
      exact horderly ⟨id, .reading⟩ hreg hfound.2
    · simp only [if_neg hfound]
      exact hplain _ (fun _ => nofun) (fun _ => nofun) nofun nofun
  · obtain ⟨hphase, heq⟩ := Option.ite_none_right_eq_some.mp hnext
    obtain rfl := Option.some.inj heq
    obtain rfl : phase = .found := hphase
    exact hplain _ (fun _ => nofun) (fun _ => nofun) (fun _ => rfl) fun _ => Or.inl rfl
  · unfold State.register at hnext
    dsimp only at hnext
    split at hnext
    · rename_i hphase
      obtain rfl := Option.some.inj hnext
      exact h.core (h.tracked.grant hreg hphase) (keeps_grant h.tracked hreg hphase) rfl
    · obtain ⟨hphase, -⟩ := Option.ite_none_right_eq_some.mp hnext
      exact absurd hphase (horderly _ hreg)
  · obtain ⟨hphase, heq⟩ := Option.ite_none_right_eq_some.mp hnext
    obtain rfl := Option.some.inj heq
    obtain rfl : phase = .requested none := hphase
    exact hplain _ (fun _ => nofun) (fun _ => nofun) (fun _ => rfl) fun _ => Or.inl rfl
  · unfold State.register at hnext
    dsimp only at hnext
    split at hnext
    · obtain rfl := Option.some.inj hnext
      exact hplain _ (fun _ => nofun) (fun _ => nofun) nofun nofun
    · rename_i answer
      obtain rfl := Option.some.inj hnext
      cases answer with
      | none => exact hplain _ (fun _ => nofun) (fun _ => nofun) nofun nofun
      | some capability => exact absurd rfl (horderly _ capability hreg)
    · cases hnext
  · unfold State.register at hnext
    dsimp only at hnext
    split at hnext
    · obtain rfl := Option.some.inj hnext
      exact h.core (h.tracked.settle hreg) (keeps_settle h.tracked hreg) rfl
    · obtain rfl := Option.some.inj hnext
      exact hplain _ (fun _ => nofun) (fun _ => nofun) nofun nofun
    · cases hnext

theorem Inv.resume {t : State Id} {number registration : Nat} {call : Call Id} {owner : Bool}
    (h : Inv s) (hcall : s.calls number = some call)
    (hphase : call.phase = .registering registration owner)
    (hnext : s.resume number call registration owner = some t) : Inv t := by
  have hfits := h.consistent.fits number call hcall
  unfold Fits at hfits
  rw [hphase] at hfits
  unfold State.resume at hnext
  split at hnext
  · rename_i id hreg
    obtain rfl := Option.some.inj hnext
    exact (h.advances hcall).afterRegistration (h.tracked.release owner hreg rfl id)
      (keeps_release owner registration id) (calls_release owner registration id) hfits
  · rename_i id hreg
    obtain rfl := Option.some.inj hnext
    exact (h.advances hcall).plain (h.tracked.release owner hreg rfl id)
      (keeps_release owner registration id) (calls_release owner registration id)
      (Or.inr (Or.inr (Or.inr (Or.inr (Or.inr rfl)))))
  · rename_i id hreg
    obtain rfl := Option.some.inj hnext
    exact (h.advances hcall).plain (h.tracked.release owner hreg rfl id)
      (keeps_release owner registration id) (calls_release owner registration id)
      (Or.inr (Or.inr (Or.inr (Or.inr (Or.inr rfl)))))
  · cases hnext

theorem Inv.noRemoval (h : Inv s) {id : Id}
    {capability : Nat} (hactive : s.activeCapabilities.lookup id = some capability)
    {number : Nat} {call : Call Id} {time : Nat} (hcall : s.calls number = some call)
    (hremove : call.operation = .removeSource id) : call.phase ≠ .resolved time := by
  intro hphase
  have hfits := h.consistent.fits number call hcall
  unfold Fits at hfits
  rw [hphase] at hfits
  rw [(hfits.1 id hremove).2.1] at hactive
  cases hactive

theorem Inv.look (h : Inv s) {number : Nat} {call : Call Id} {id : Id} {capability : Nat}
    (hcall : s.calls number = some call) (haccess : call.operation = .access id)
    (hactive : s.activeCapabilities.lookup id = some capability) :
    Inv (s.setCall number (call.withPhase (.holding capability))) where
  tracked := h.tracked.setCall number _
  consistent := by
    refine h.consistent.move ((Keeps.refl s).setCall number _) rfl (fun _ _ _ _ _ _ _ _ _ => nofun)
      (h.consistent.mentioned number call hcall) (Nat.lt_succ_of_lt (h.consistent.begun number call hcall))
      ⟨id, Or.inr haccess⟩ (fun _ _ _ _ => nofun) (fun _ => nofun) ?_
    intro owner number' call' time howner hcall' hremove htime _
    obtain rfl := Operation.access.inj (haccess.symm.trans howner)
    exact absurd htime (h.noRemoval hactive hcall' hremove)

theorem Inv.send (h : Inv s) {number : Nat} {call : Call Id} {capability : Nat}
    (hcall : s.calls number = some call) (hphase : call.phase = .holding capability) :
    Inv (s.setCall number { call with reached := true, phase := .sent }) where
  tracked := h.tracked.setCall number _
  consistent := by
    have hfits := h.consistent.fits number call hcall
    unfold Fits at hfits
    rw [hphase] at hfits
    refine h.consistent.move ((Keeps.refl s).setCall number _) rfl (fun _ _ _ _ _ _ _ _ _ => nofun)
      (h.consistent.mentioned number call hcall) (Nat.lt_succ_of_lt (h.consistent.begun number call hcall))
      hfits (fun _ _ _ _ => nofun) (fun _ => nofun) ?_
    intro id number' call' time haccess hcall' hremove htime hlater
    have hbefore := h.consistent.unreached number' call' id time number call hcall' hremove htime
      hcall haccess hlater
    exact absurd hphase (hbefore.2 capability)

theorem Inv.withdraw (h : Inv s) {number : Nat} {call : Call Id} {id : Id} {capability : Nat}
    {rest : List (Id × Nat)} {failed : Bool} (hcall : s.calls number = some call)
    (hphase : call.phase = .unregistering id capability rest failed none) :
    Inv ((s.unregister capability).setCall number (call.withPhase
      (.unregistering id capability rest failed (some (s.registered capability).isSome)))) := by
  have hfits := h.consistent.fits number call hcall
  unfold Fits at hfits
  rw [hphase] at hfits
  have hkeeps := keeps_unregister (s := s) capability
  refine { tracked := (h.tracked.unregister capability).setCall number _, consistent := ?_ }
  refine h.consistent.move (hkeeps.setCall number _) rfl (fun _ _ _ _ _ _ _ _ _ => nofun)
    (h.consistent.mentioned number call hcall)
    (Nat.lt_succ_of_lt (h.consistent.begun number call hcall)) ?_ ?_ (fun _ => nofun) ?_
  · refine ⟨hkeeps.owned _ _ hfits.1, fun entry hentry => hkeeps.owned _ _ (hfits.2.1 entry hentry), ?_⟩
    intro hanswer
    refine ⟨Function.update_self .., hfits.1.2 fun hnone => ?_⟩
    rw [hnone] at hanswer
    cases hanswer
  · intro id' capability' rest' failed' hnew number' call' id'' rest'' failed'' hcall' hphase'
    obtain ⟨-, rfl, -, -, hanswer⟩ := Phase.unregistering.inj hnew
    have hother := h.consistent.fits number' call' hcall'
    unfold Fits at hother
    rw [hphase'] at hother
    rw [(hother.2.2 rfl).1] at hanswer
    cases hanswer
  · intro owner number' call' time howner hcall' hremove htime hlater
    have hbefore := h.consistent.unreached number' call' owner time number call hcall' hremove htime
      hcall howner hlater
    exact ⟨hbefore.1, fun _ => nofun⟩

theorem Inv.unregistered (h : Inv s) {number : Nat} {call : Call Id} {id : Id} {capability : Nat}
    {rest : List (Id × Nat)} {failed : Bool} (hcall : s.calls number = some call)
    (hphase : call.phase = .unregistering id capability rest failed (some true)) :
    Inv ((s.forget id).setCall number
      (call.withPhase (call.operation.afterUnregistration failed rest))) := by
  have hfits := h.consistent.fits number call hcall
  unfold Fits at hfits
  rw [hphase] at hfits
  have hgiven := hfits.2.2 rfl
  have hkeeps := keeps_forget hgiven
  have hadvances : Advances s (some capability) number call := by
    refine h.advances_gone hcall ?_
    rintro number' call' id' capability' rest' failed' hcall' hne hphase' heq
    obtain rfl := Option.some.inj heq
    exact hne (h.consistent.once number call id _ rest failed number' call' id' rest' failed' hcall
      hcall' hphase hphase')
  have hreading : Inv ((s.forget id).setCall number (call.withPhase .reading)) :=
    hadvances.plain (h.tracked.forget hgiven) hkeeps rfl
      (Or.inr (Or.inr (Or.inr (Or.inr (Or.inl rfl)))))
  cases hoperation : call.operation with
  | close =>
    exact hadvances.unregisterNext (h.tracked.forget hgiven) hkeeps rfl hoperation failed
      fun entry hentry => hkeeps.owned _ _ (hfits.2.1 entry hentry)
  | _ => exact hreading

theorem Inv.refused (h : Inv s) {number : Nat} {call : Call Id} {id : Id} {capability : Nat}
    {rest : List (Id × Nat)} {failed : Bool} {answer : Option Bool}
    (hcall : s.calls number = some call)
    (hphase : call.phase = .unregistering id capability rest failed answer) (strays : List Nat) :
    Inv ({ s with strays }.setCall number (call.withPhase (call.operation.afterRefusal rest))) := by
  have hfits := h.consistent.fits number call hcall
  unfold Fits at hfits
  rw [hphase] at hfits
  have htracked : Tracked { s with strays } := h.tracked.same rfl rfl rfl rfl rfl (Nat.le_refl _)
  have hkeeps : Keeps none s { s with strays } :=
    keeps_same rfl rfl rfl rfl (fun _ _ habsent => habsent) (fun _ hid => hid) (Nat.le_refl _)
  have hrejected : Inv ({ s with strays }.setCall number (call.withPhase .rejected)) :=
    (h.advances hcall).plain htracked hkeeps rfl (Or.inr (Or.inr (Or.inr (Or.inr (Or.inr rfl)))))
  cases hoperation : call.operation with
  | close =>
    exact (h.advances hcall).unregisterNext htracked hkeeps rfl hoperation true
      fun entry hentry => hkeeps.owned _ _ (hfits.2.1 entry hentry)
  | _ => exact hrejected

theorem Inv.replace {t : State Id} {number : Nat} {call : Call Id} {sources : List Id} {id : Id}
    {written : Bool} (h : Inv s) (hcall : s.calls number = some call)
    (hphase : call.phase = .loaded sources)
    (hcurrent : written = true → ∀ id ∈ sources, id ∈ s.store)
    (hnext : s.replace number call sources id written = some t) : Inv t := by
  have hfits := h.consistent.fits number call hcall
  unfold Fits at hfits
  rw [hphase] at hfits
  have hrejected : Inv (s.setCall number (call.withPhase .rejected)) :=
    (h.advances hcall).plain h.tracked (Keeps.refl s) rfl
      (Or.inr (Or.inr (Or.inr (Or.inr (Or.inr rfl)))))
  have hwrite : ∀ store known, (∀ id ∈ s.known, id ∉ s.store → id ∉ store) →
      (∀ id ∈ s.known, id ∈ known) → call.operation ≠ .close →
      (∀ id, call.operation = .removeSource id → id ∉ store) →
      Inv ({ s with store, known }.setCall number (call.withPhase .replaced)) := by
    intro store known hstore hknown hopen hremoved
    exact h.advances hcall { s with store, known } _
      (h.tracked.same rfl rfl rfl rfl rfl (Nat.le_refl _))
      (keeps_same rfl rfl rfl rfl hstore hknown (Nat.le_refl _)) rfl ⟨hopen, hremoved⟩
      (fun _ _ _ _ => nofun) (fun _ => nofun) (fun _ => nofun)
  unfold State.replace at hnext
  split at hnext
  · rename_i hoperation
    split at hnext
    · rename_i hwritten
      obtain ⟨hfresh, heq⟩ := Option.ite_none_left_eq_some.mp hnext
      obtain rfl := Option.some.inj heq
      refine hwrite _ _ ?_ (fun _ hid => List.mem_cons_of_mem _ hid) (by rw [hoperation]; nofun)
        (by rw [hoperation]; nofun)
      intro owner hknown habsent hmem
      obtain hold | hnew := List.mem_append.mp hmem
      · exact habsent (hcurrent hwritten owner hold)
      · exact hfresh (List.mem_singleton.mp hnew ▸ hknown)
    · obtain rfl := Option.some.inj hnext
      exact hrejected
  · rename_i removed hoperation
    split at hnext
    · split at hnext
      · rename_i hwritten
        obtain rfl := Option.some.inj hnext
        refine hwrite _ s.known ?_ (fun _ hid => hid) (by rw [hoperation]; nofun) ?_
        · intro owner _ habsent hmem
          exact habsent (hcurrent hwritten owner (List.mem_of_mem_filter hmem))
        · intro owner howner hmem
          obtain rfl := Operation.removeSource.inj (hoperation.symm.trans howner)
          simpa using (List.mem_filter.mp hmem).2
      · obtain rfl := Option.some.inj hnext
        exact hrejected
    · rename_i hmissing
      obtain rfl := Option.some.inj hnext
      refine hwrite s.store s.known (fun _ _ habsent => habsent) (fun _ hid => hid)
        (by rw [hoperation]; nofun) ?_
      intro owner howner
      obtain rfl := Operation.removeSource.inj (hoperation.symm.trans howner)
      exact hfits _ hoperation hmissing
  · cases hnext

theorem Inv.conclude (h : Inv s) {number : Nat} {call : Call Id}
    (hcall : s.calls number = some call) {returns : Bool} (hfits : returns = true → Fits s (call.withPhase (.resolved s.clock))) :
    Inv (s.setCall number
      (call.withPhase (if returns = true then .resolved s.clock else .rejected))) := by
  cases returns with
  | true =>
    refine h.advances hcall s _ h.tracked (Keeps.refl s) rfl (hfits rfl) (fun _ _ _ _ => nofun) ?_
      (fun _ => nofun)
    rintro time ⟨⟩
    exact Nat.le_succ _
  | false =>
    exact (h.advances hcall).plain h.tracked (Keeps.refl s) rfl
      (Or.inr (Or.inr (Or.inr (Or.inr (Or.inr rfl)))))

theorem Inv.call {t : State Id} {number : Nat} {call : Call Id} {event : Event Id} (h : Inv s)
    (hcall : s.calls number = some call) (horderly : Orderly s event)
    (hnext : s.call number call event = some t)
    (hevent : (∃ ok, event = .inspected number ok) ∨ (∃ outcome, event = .checked number outcome) ∨
      event = .resume number ∨ event = .look number ∨ event = .send number ∨
      (∃ ok, event = .receive number ok) ∨ event = .withdraw number ∨
      (∃ ok, event = .unregistered number ok) ∨ (∃ ok, event = .read number ok) ∨
      (∃ id written, event = .replace number id written) ∨
      (∃ ok, event = .conclude number ok)) : Inv t := by
  have hfits := h.consistent.fits number call hcall
  have hplain : ∀ phase : Phase Id, (phase = .inspecting ∨ phase = .checking ∨ phase = .looking ∨
      phase = .delegated ∨ phase = .reading ∨ phase = .rejected) →
      Inv (s.setCall number (call.withPhase phase)) :=
    fun phase hphase => (h.advances hcall).plain h.tracked (Keeps.refl s) rfl hphase
  obtain ⟨ok, rfl⟩ | ⟨outcome, rfl⟩ | rfl | rfl | rfl | ⟨ok, rfl⟩ | rfl | ⟨ok, rfl⟩ | ⟨ok, rfl⟩ |
    ⟨id, written, rfl⟩ | ⟨ok, rfl⟩ := hevent <;> unfold State.call at hnext <;> dsimp only at hnext
  · split at hnext
    · obtain rfl := Option.some.inj hnext
      apply hplain
      cases ok <;> simp
    · cases hnext
  · split at hnext
    · rename_i id hphase haccess
      obtain rfl := Option.some.inj hnext
      cases outcome with
      | global => exact h.ensureRegistered (h.advances hcall) ⟨id, Or.inr haccess⟩ id
      | workspace => exact hplain _ (by simp)
      | failed => exact hplain _ (by simp)
    · cases hnext
  · split at hnext
    · rename_i hphase
      exact h.resume hcall hphase hnext
    · cases hnext
  · split at hnext
    · rename_i id hphase haccess
      split at hnext
      · rename_i hactive
        obtain rfl := Option.some.inj hnext
        exact h.look hcall haccess hactive
      · obtain rfl := Option.some.inj hnext
        exact hplain _ (by simp)
    · cases hnext
  · split at hnext
    · rename_i hphase
      obtain rfl := Option.some.inj hnext
      exact h.send hcall hphase
    · cases hnext
  · split at hnext
    · rename_i hphase
      obtain rfl := Option.some.inj hnext
      refine h.conclude hcall fun _ => ?_
      unfold Fits at hfits
      rw [hphase] at hfits
      exact fits_resolved hfits _
    · cases hnext
  · split at hnext
    · rename_i hphase
      obtain rfl := Option.some.inj hnext
      exact h.withdraw hcall hphase
    · cases hnext
  · split at hnext
    · rename_i hphase
      split at hnext
      · obtain ⟨rfl, heq⟩ := Option.ite_none_right_eq_some.mp hnext
        obtain rfl := Option.some.inj heq
        exact h.unregistered hcall hphase
      · obtain rfl := Option.some.inj hnext
        exact h.refused hcall hphase _
    · cases hnext
  · split at hnext
    · obtain rfl := Option.some.inj hnext
      cases ok with
      | true =>
        refine h.advances hcall s _ h.tracked (Keeps.refl s) rfl ?_ (fun _ _ _ _ => nofun)
          (fun _ => nofun) (fun _ => nofun)
        exact fun _ _ habsent => habsent
      | false => exact hplain _ (by simp)
    · cases hnext
  · split at hnext
    · rename_i sources hphase
      exact h.replace hcall hphase (fun hwritten => horderly hwritten call sources hcall hphase) hnext
    · cases hnext
  · obtain ⟨hremoval, hclose⟩ := horderly call hcall
    split at hnext
    · rename_i hphase
      obtain rfl := Option.some.inj hnext
      refine h.conclude hcall fun hok => ?_
      unfold Fits at hfits
      rw [hphase] at hfits
      exact ⟨fun id hid => ⟨hfits.2 id hid, hremoval id hid hok⟩, fun hid => absurd hid hfits.1⟩
    · rename_i failed hphase
      obtain rfl := Option.some.inj hnext
      unfold Fits at hfits
      rw [hphase] at hfits
      cases failed with
      | true => exact hplain _ (by simp)
      | false =>
        refine @Inv.conclude _ _ _ h number call hcall true fun _ => ⟨?_, fun _ => ?_⟩
        · intro id hid
          cases hfits.symm.trans hid
        · exact hclose hfits hphase
    · cases hnext

end Calls

theorem inv_start (store : List Id) : Inv (start store) where
  tracked := by
    refine { issued := ?_, held := ?_, granted := ?_, recorded := ?_, numbered := ?_, alone := ?_ }
    · intro capability id h
      cases h
    · intro capability id h
      cases h
    · intro number id capability h
      cases h
    · intro id capability h
      cases h
    · intro number registration h
      cases h
    · intro number registration h
      cases h
  consistent := by
    refine { mentioned := ?_, begun := ?_, fits := ?_, once := ?_, unreached := ?_ }
    · intro number call h
      cases h
    · intro number call h
      cases h
    · intro number call h
      cases h
    · intro _ _ _ _ _ _ _ _ _ _ _ h
      cases h
    · intro _ _ _ _ _ _ h
      cases h

theorem Inv.next {s t : State Id} {event : Event Id} (h : Inv s) (horderly : Orderly s event)
    (hnext : next s event = some t) : Inv t := by
  cases event with
  | «begin» number operation =>
    obtain ⟨-, heq⟩ := Option.ite_none_right_eq_some.mp hnext
    obtain rfl := Option.some.inj heq
    exact h.begin number operation
  | withdrawStray capability =>
    obtain ⟨-, heq⟩ := Option.ite_none_right_eq_some.mp hnext
    obtain rfl := Option.some.inj heq
    exact h.core (h.tracked.unregister capability) (keeps_unregister capability) rfl
  | load number | request number | grant number | refuse number | giveUp number | settle number =>
    obtain ⟨registration, hreg, hstep⟩ := Option.bind_eq_some_iff.mp hnext
    exact h.register hreg horderly hstep (by simp)
  | inspected number | checked number | resume number | look number | send number
  | receive number | withdraw number | unregistered number | read number | replace number
  | conclude number =>
    obtain ⟨call, hcall, hstep⟩ := Option.bind_eq_some_iff.mp hnext
    exact h.call hcall horderly hstep (by simp)

theorem Clear.registered {s : State Id} (hs : Tracked s) {id : Id} (h : Clear s id)
    (capability : Nat) : s.registered capability ≠ some id := by
  intro hregistered
  obtain hactive | ⟨number, hreg⟩ := hs.held capability id hregistered
  · rw [h.1] at hactive
    cases hactive
  · cases h.2 number _ hreg rfl

theorem Inv.released {s : State Id} (h : Inv s) : Released s where
  unregistered := by
    intro number call id time hcall hremove hphase
    have hfits := h.consistent.fits number call hcall
    unfold Fits at hfits
    rw [hphase] at hfits
    exact (hfits.1 id hremove).2.registered h.tracked
  unreached := fun number call id time number' call' hcall hremove hphase hcall' haccess hlater =>
    (h.consistent.unreached number call id time number' call' hcall hremove hphase hcall' haccess
      hlater).1
  closed := by
    intro number call time hcall hclose hphase capability
    have hfits := h.consistent.fits number call hcall
    unfold Fits at hfits
    rw [hphase] at hfits
    cases hregistered : s.registered capability with
    | none => rfl
    | some id => exact absurd hregistered ((hfits.2 hclose id).registered h.tracked capability)

/-- In an orderly run removed sources and a closed manager leave nothing in the runtime. -/
theorem released_of_orderly (store : List Id) (events : List (Event Id)) (s : State Id)
    (horderly : AllSteps next Orderly (start store) events)
    (hrun : exec next (start store) events = some s) : Released s :=
  (exec_invariant (fun _ _ _ h hok hnext => h.next hok hnext) (inv_start store) horderly
    hrun).released

def usedAndRemoved : List (Event Unit) :=
  [.begin 0 (.ensureRegistered ()), .load 0 true, .request 0, .grant 0, .settle 0, .resume 0,
    .begin 1 (.removeSource ()), .withdraw 1, .unregistered 1 true, .read 1 true,
    .replace 1 () true, .conclude 1 true]

theorem usedAndRemoved_released : ∃ s, exec next (start [()]) usedAndRemoved = some s ∧
    Released s := by
  have hrun : ∃ s, exec next (start [()]) usedAndRemoved = some s := ⟨_, rfl⟩
  obtain ⟨s, hs⟩ := hrun
  refine ⟨s, hs, released_of_orderly [()] usedAndRemoved s ?_ hs⟩
  refine ⟨trivial, ?_⟩
  rintro t ⟨⟩
  refine ⟨fun _ _ _ number call time hcall hclose _ => ?_, ?_⟩
  · obtain ⟨-, rfl⟩ | ⟨-, hcall⟩ := update_eq_some hcall
    · cases hclose
    · cases hcall
  rintro t ⟨⟩
  refine ⟨trivial, ?_⟩
  rintro t ⟨⟩
  refine ⟨?_, ?_⟩
  · rintro registration ⟨⟩
    nofun
  rintro t ⟨⟩
  refine ⟨trivial, ?_⟩
  rintro t ⟨⟩
  refine ⟨trivial, ?_⟩
  rintro t ⟨⟩
  refine ⟨trivial, ?_⟩
  rintro t ⟨⟩
  refine ⟨trivial, ?_⟩
  rintro t ⟨⟩
  refine ⟨trivial, ?_⟩
  rintro t ⟨⟩
  refine ⟨trivial, ?_⟩
  rintro t ⟨⟩
  refine ⟨?_, ?_⟩
  · rintro - call sources ⟨⟩ ⟨⟩ id hid
    exact hid
  rintro t ⟨⟩
  refine ⟨?_, fun _ _ => trivial⟩
  rintro call ⟨⟩
  refine ⟨?_, nofun⟩
  rintro id - -
  refine ⟨rfl, ?_⟩
  intro number registration hreg _
  match number with
  | 0 =>
    obtain rfl := Option.some.inj hreg
    rfl
  | _ + 1 => cases hreg

/-- A registration that has found its entry before the source is removed goes on after the
removal. -/
theorem lateRegistration_not_released : ¬∀ (store : List Unit) (events : List (Event Unit))
    (s : State Unit), exec next (start store) events = some s → Released s := by
  intro h
  have hreleased := h [()] [.begin 0 (.ensureRegistered ()), .load 0 true,
    .begin 1 (.removeSource ()), .read 1 true, .replace 1 () true, .conclude 1 true, .request 0,
    .grant 0, .settle 0, .resume 0] _ rfl
  exact hreleased.unregistered 1 _ () 6 rfl rfl rfl 0 rfl

end KodeGpt.SkillSourceRemoval
