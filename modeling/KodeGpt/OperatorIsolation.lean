import KodeGpt.KeyedFamily
import KodeGpt.ProviderOperators

/-!
Calls on the provider registry that keep out of each other's way: as long as no call
replaces a document or a record that has changed since it was read, the registry holds
what the resolved calls have made of it.
-/

namespace KodeGpt.OperatorIsolation

open KeyedFamily TransitionSystem ProviderOperators

variable {Approval Details : Type}

/-- A call on the record that still runs or has resolved, and that began after a moment. -/
def LaterCall (s : State Approval Details) (id : ProviderId) (moment : Nat)
    (kind : Operation Approval Details → Prop) : Prop :=
  ∃ number call, s.calls number = some call ∧ call.id = id ∧ kind call.operation ∧
    moment < call.begun ∧ call.phase ≠ .rejected

def Enables : Operation Approval Details → Prop
  | .add _ _ _ | .enable _ => True
  | _ => False

def Adds : Operation Approval Details → Prop
  | .add _ _ _ => True
  | _ => False

def Disables : Operation Approval Details → Prop
  | .disable _ => True
  | _ => False

/-- What resolved calls have done lasts, and a call that has rejected has left nothing:
without a running call whose change is in the registry, the record is what the resolved
calls have made of it. -/
structure Lasting (s : State Approval Details) : Prop where
  disabled : ∀ number call time record, s.calls number = some call →
    Disables call.operation → call.phase = .resolved time →
      s.document call.id = some record → record.enabled = true → LaterCall s call.id time Enables
  removed : ∀ number call time, s.calls number = some call → call.operation = .remove →
    call.phase = .resolved time → s.document call.id ≠ none → LaterCall s call.id time Adds
  settled : ∀ id, (∀ number call, s.calls number = some call → call.id = id →
    call.phase.running = true → call.wrote = false) → s.document id = s.settled id

def pending (call : Call Approval Details) : Bool := call.phase.running && call.wrote

/-- The document is the one that was read, and nobody else has changed the record. -/
def Current (s : State Approval Details) (call : Call Approval Details)
    (read : Document Approval Details) : Prop :=
  read = s.document ∧ call.seen = s.version call.id

/-- A call begins when no other one has a change of the record pending; what is replaced
is current; and a pending change can be taken back. -/
def Isolated (s : State Approval Details) (event : Event Approval Details) : Prop :=
  match event with
  | .begin _ _ id _ => ∀ number call, s.calls number = some call → call.id = id →
      pending call = false
  | .replace number replacement => ∀ call read, s.calls number = some call →
      call.phase = .storing read → replacement ≠ .unwritten → Current s call read
  | .undoRead number fails => ∀ call, s.calls number = some call → call.wrote = true →
      fails = false
  | .undoReplace number replacement => ∀ call read, s.calls number = some call →
      call.phase = .undoStoring read →
        (replacement ≠ .unwritten → Current s call read) ∧
          (call.wrote = true → replacement ≠ .unwritten)
  | _ => True

theorem admitted_cases (call : Call Approval Details) :
    (∃ approval details now, call.operation = .add approval details now ∧ call.snapshot = none) ∨
      ∃ record, call.operation.isAdd = false ∧ call.snapshot = some record := by
  have hadmitted := call.admitted
  cases hsnapshot : call.snapshot with
  | none =>
    cases hoperation : call.operation with
    | add approval details now => exact Or.inl ⟨approval, details, now, rfl, rfl⟩
    | _ =>
      rw [hsnapshot, hoperation] at hadmitted
      cases hadmitted
  | some record => exact Or.inr ⟨record, by rw [← hadmitted, hsnapshot]; rfl, rfl⟩

section Written

variable (call : Call Approval Details) {document : Document Approval Details}

theorem apply_eq (hdocument : document call.id = call.snapshot) :
    call.operation.apply call.id call.snapshot document =
      some (Function.update document call.id call.target) := by
  rw [Call.target]
  obtain ⟨approval, details, now, hoperation, hsnapshot⟩ | ⟨record, hadd, hsnapshot⟩ :=
    admitted_cases call
  · simp [hoperation, hsnapshot, Operation.apply, Document.insert, hdocument]
    rfl
  · rw [hsnapshot] at hdocument ⊢
    cases hoperation : call.operation with
    | add approval details now => rw [hoperation] at hadd; cases hadd
    | remove => simp [Operation.apply, Document.remove, hdocument]; rfl
    | _ => simp [Operation.apply, Document.replace, hdocument, Operation.target]

theorem rollback_eq (hdocument : document call.id = call.target) :
    call.operation.rollback call.id call.snapshot document =
      some (Function.update document call.id call.snapshot) := by
  rw [Call.target] at hdocument
  obtain ⟨approval, details, now, hoperation, hsnapshot⟩ | ⟨record, hadd, hsnapshot⟩ :=
    admitted_cases call
  · rw [hoperation, hsnapshot] at hdocument
    simp [hoperation, hsnapshot, Operation.rollback, Document.remove, hdocument, Operation.target]
  · rw [hsnapshot] at hdocument ⊢
    cases hoperation : call.operation with
    | add approval details now => rw [hoperation] at hadd; cases hadd
    | remove =>
      rw [hoperation] at hdocument
      simp [Operation.rollback, Document.insert, hdocument, Operation.target]
    | _ =>
      rw [hoperation] at hdocument
      simp [Operation.rollback, Document.replace, hdocument, Operation.target]

theorem rollback_unwritten (hdocument : document call.id = call.snapshot) :
    (call.operation.rollback call.id call.snapshot document).getD document = document := by
  have hsame := Function.update_eq_self call.id document
  obtain ⟨approval, details, now, hoperation, hsnapshot⟩ | ⟨record, hadd, hsnapshot⟩ :=
    admitted_cases call
  · simp [hoperation, hsnapshot, Operation.rollback, Document.remove, hdocument]
  · rw [hdocument, hsnapshot] at hsame
    rw [hsnapshot] at hdocument ⊢
    cases hoperation : call.operation with
    | add approval details now => rw [hoperation] at hadd; cases hadd
    | remove => simp [Operation.rollback, Document.insert, hdocument]
    | _ => simp [Operation.rollback, Document.replace, hdocument, hsame]

end Written

/-- Operations that act on a record so that something is broken only by operations that
excuse it. -/
structure Rule (Approval Details : Type) where
  acts : Operation Approval Details → Prop
  excuse : Operation Approval Details → Prop
  broken : Option (ProviderRecord Approval Details) → Prop
  made : ∀ call : Call Approval Details, acts call.operation → ¬broken call.target
  kept : ∀ call : Call Approval Details, ¬excuse call.operation → broken call.target →
    broken call.snapshot

/-- The phases before the change, and those after a rollback, have nothing in the registry. -/
def Fits : Phase Approval Details → Bool → Prop
  | .deciding, wrote | .preparing, wrote | .storing _, wrote | .reporting, wrote
  | .rejected, wrote => wrote = false
  | .confirming, wrote => wrote = true
  | _, _ => True

/-- No call on the record has a pending change. -/
def Quiet (s : State Approval Details) (id : ProviderId) : Prop :=
  ∀ number call, s.calls number = some call → call.id = id → pending call = false

structure Inv (s : State Approval Details) : Prop where
  fits : ∀ number call, s.calls number = some call → Fits call.phase call.wrote
  begun : ∀ number call, s.calls number = some call → call.begun < s.clock
  ended : ∀ number call time, s.calls number = some call → call.phase = .resolved time →
    time < s.clock
  seen : ∀ number call, s.calls number = some call → call.seen ≤ s.version call.id
  changed : ∀ number call, s.calls number = some call → pending call = true →
    call.seen = s.version call.id ∧ s.document call.id = call.target ∧
      s.settled call.id = call.snapshot
  unique : ∀ number call number' call', s.calls number = some call →
    s.calls number' = some call' → call'.id = call.id → pending call = true →
      pending call' = true → number' = number
  fresh : ∀ number call, s.calls number = some call → call.phase.running = true →
    call.wrote = false → call.seen = s.version call.id →
      s.document call.id = call.snapshot ∧ Quiet s call.id
  quiet : ∀ id, Quiet s id → s.document id = s.settled id
  order : ∀ number call time number' call', s.calls number = some call →
    call.phase = .resolved time → s.calls number' = some call' → call'.id = call.id →
      call'.phase.running = true → call'.seen = s.version call.id → time < call'.begun
  lasts : ∀ (rule : Rule Approval Details) number call time, s.calls number = some call →
    rule.acts call.operation → call.phase = .resolved time → rule.broken (s.settled call.id) →
      ∃ number' call' time', s.calls number' = some call' ∧ call'.id = call.id ∧
        rule.excuse call'.operation ∧ time < call'.begun ∧ call'.phase = .resolved time'

theorem start_calls (document : Document Approval Details) (number : Nat)
    (call : Call Approval Details) : (start document).calls number ≠ some call :=
  Option.some_ne_none call |>.symm

theorem inv_start (document : Document Approval Details) : Inv (start document) where
  fits := fun number call h => absurd h (start_calls document number call)
  begun := fun number call h => absurd h (start_calls document number call)
  ended := fun number call _ h => absurd h (start_calls document number call)
  seen := fun number call h => absurd h (start_calls document number call)
  changed := fun number call h => absurd h (start_calls document number call)
  unique := fun number call _ _ h => absurd h (start_calls document number call)
  fresh := fun number call h => absurd h (start_calls document number call)
  quiet := fun _ _ => rfl
  order := fun number call _ _ _ h => absurd h (start_calls document number call)
  lasts := fun _ number call _ h => absurd h (start_calls document number call)

section Steps

variable {s : State Approval Details} {number : Nat} {call : Call Approval Details}

theorem Inv.begun_succ (h : Inv s) (number : Nat) (call : Call Approval Details)
    (hcall : s.calls number = some call) : call.begun < s.clock + 1 :=
  Nat.lt_succ_of_lt (h.begun number call hcall)

theorem Inv.ended_succ (h : Inv s) (number : Nat) (call : Call Approval Details)
    (hcall : s.calls number = some call) (time : Nat) (htime : call.phase = .resolved time) :
    time < s.clock + 1 :=
  Nat.lt_succ_of_lt (h.ended number call time hcall htime)

theorem pending_withPhase (hrunning : call.phase.running = true)
    {phase : Phase Approval Details} (hfits : Fits phase call.wrote)
    (hphase : ∀ time, phase ≠ .resolved time) :
    pending (call.withPhase phase) = pending call := by
  rw [pending, pending, hrunning, Bool.true_and]
  show (phase.running && call.wrote) = call.wrote
  cases phase with
  | resolved time => exact absurd rfl (hphase time)
  | rejected =>
    rw [show call.wrote = false from hfits]
    rfl
  | _ => exact Bool.true_and _

theorem calls_resolved (hcall : s.calls number = some call) (hrunning : call.phase.running = true)
    {found time : Nat} {called : Call Approval Details} (hfound : s.calls found = some called)
    (hresolved : called.phase = .resolved time) (next : Call Approval Details) :
    Function.update s.calls number (some next) found = some called := by
  have hne : found ≠ number := by
    rintro rfl
    obtain rfl := Option.some.inj (hcall.symm.trans hfound)
    rw [hresolved] at hrunning
    cases hrunning
  rw [Function.update_of_ne hne]
  exact hfound

theorem Inv.setPhase (h : Inv s) (hcall : s.calls number = some call)
    (hrunning : call.phase.running = true) {phase : Phase Approval Details}
    (hfits : Fits phase call.wrote) (hphase : ∀ time, phase ≠ .resolved time) :
    Inv (s.setCall number (call.withPhase phase)) := by
  have hpending := pending_withPhase hrunning hfits hphase
  -- the calls are the same, but for the phase of one that has not resolved
  have hold : ∀ found called, (s.setCall number (call.withPhase phase)).calls found = some called →
      ∃ before, s.calls found = some before ∧ called = before.withPhase called.phase ∧
        pending called = pending before ∧
        (called.phase.running = true → before.phase.running = true) ∧
        (∀ time, called.phase = .resolved time → before.phase = .resolved time) := by
    intro found called hfound
    obtain ⟨rfl, rfl⟩ | ⟨-, hfound⟩ := update_eq_some hfound
    · exact ⟨call, hcall, rfl, hpending, fun _ => hrunning,
        fun time htime => absurd htime (hphase time)⟩
    · exact ⟨called, hfound, rfl, rfl, id, fun _ => id⟩
  have hquiet : ∀ id, Quiet (s.setCall number (call.withPhase phase)) id ↔ Quiet s id := by
    intro id
    constructor
    · intro hnew found called hfound hid
      by_cases hsame : found = number
      · subst hsame
        obtain rfl := Option.some.inj (hcall.symm.trans hfound)
        rw [← hpending]
        exact hnew found _ (Function.update_self ..) hid
      · exact hnew found called ((Function.update_of_ne hsame _ _).trans hfound) hid
    · intro hs found called hfound hid
      obtain ⟨before, hbefore, heq, hsame, -, -⟩ := hold found called hfound
      rw [hsame]
      refine hs found before hbefore ?_
      rw [← hid, heq]
      rfl
  refine { fits := forall_update hfits h.fits
           begun := forall_update (h.begun_succ number call hcall) h.begun_succ
           ended := fun found called time hfound htime => forall_update
             (fun time htime => absurd htime (hphase time)) h.ended_succ found called hfound time htime
           seen := forall_update (h.seen number call hcall) h.seen
           changed := forall_update (fun hchanged =>
             h.changed number call hcall (hpending ▸ hchanged)) h.changed
           unique := ?_, fresh := ?_, quiet := ?_, order := ?_, lasts := ?_ }
  · intro found called found' called' hfound hfound' hid hchanged hchanged'
    obtain ⟨before, hbefore, heq, hsame, -⟩ := hold found called hfound
    obtain ⟨before', hbefore', heq', hsame', -⟩ := hold found' called' hfound'
    rw [hsame] at hchanged
    rw [hsame'] at hchanged'
    rw [heq, heq'] at hid
    exact h.unique found before found' before' hbefore hbefore' hid hchanged hchanged'
  · intro found called hfound hrun hwrote hseen
    obtain ⟨before, hbefore, heq, -, hrunning', -⟩ := hold found called hfound
    have hrun' := hrunning' hrun
    rw [heq] at hwrote hseen ⊢
    rw [hquiet]
    exact h.fresh found before hbefore hrun' hwrote hseen
  · intro id hid
    exact h.quiet id ((hquiet id).mp hid)
  · intro found called time found' called' hfound htime hfound' hid hrun hseen
    obtain ⟨before, hbefore, heq, -, -, hresolved⟩ := hold found called hfound
    obtain ⟨before', hbefore', heq', -, hrunning', -⟩ := hold found' called' hfound'
    have hrun' := hrunning' hrun
    have htime' := hresolved time htime
    rw [heq, heq'] at hid hseen
    rw [heq']
    exact h.order found before time found' before' hbefore htime' hbefore' hid hrun' hseen
  · intro rule found called time hfound hacts htime hbroken
    obtain ⟨before, hbefore, heq, -, -, hresolved⟩ := hold found called hfound
    have htime' := hresolved time htime
    rw [heq] at hacts hbroken ⊢
    obtain ⟨found', called', time', hfound', hid, hexcuse, hlater, htime''⟩ :=
      h.lasts rule found before time hbefore hacts htime' hbroken
    exact ⟨found', called', time', calls_resolved hcall hrunning hfound' htime'' _, hid, hexcuse,
      hlater, htime''⟩

theorem Inv.begin (h : Inv s) (hfree : s.calls number = none) (call : Call Approval Details)
    (hsnapshot : call.snapshot = s.document call.id) (hbegun : call.begun = s.clock)
    (hseen : call.seen = s.version call.id) (hwrote : call.wrote = false)
    (hphase : call.phase = .deciding) (hid : Quiet s call.id) : Inv (s.setCall number call) := by
  have hpending : pending call = false := by rw [pending, hwrote, Bool.and_false]
  have hkept (found : Nat) (called : Call Approval Details) (hfound : s.calls found = some called) :
      Function.update s.calls number (some call) found = some called := by
    have hne : found ≠ number := by
      rintro rfl
      exact Option.some_ne_none _ (hfound.symm.trans hfree)
    rw [Function.update_of_ne hne]
    exact hfound
  have hquiet (id : ProviderId) : Quiet (s.setCall number call) id ↔ Quiet s id := by
    constructor
    · intro hnew found called hfound
      exact hnew found called (hkept found called hfound)
    · intro hs found called hfound hsame
      obtain ⟨rfl, rfl⟩ | ⟨-, hfound⟩ := update_eq_some hfound
      · exact hpending
      · exact hs found called hfound hsame
  have hdeciding : ∀ time, call.phase ≠ .resolved time := fun time htime => by
    cases hphase.symm.trans htime
  refine { fits := forall_update (hphase ▸ hwrote : Fits call.phase call.wrote) h.fits
           begun := forall_update (hbegun ▸ Nat.lt_succ_self _) h.begun_succ
           ended := fun found called time hfound htime => forall_update
             (fun time htime => absurd htime (hdeciding time)) h.ended_succ found called hfound
               time htime
           seen := forall_update (Nat.le_of_eq hseen) h.seen
           changed := forall_update (fun hchanged =>
             absurd (hpending.symm.trans hchanged) Bool.false_ne_true) h.changed
           unique := ?_, fresh := ?_, quiet := ?_, order := ?_, lasts := ?_ }
  · intro found called found' called' hfound hfound' hsame hchanged hchanged'
    obtain ⟨rfl, rfl⟩ | ⟨-, hbefore⟩ := update_eq_some hfound
    · exact absurd (hpending.symm.trans hchanged) Bool.false_ne_true
    · obtain ⟨rfl, rfl⟩ | ⟨-, hfound'⟩ := update_eq_some hfound'
      · exact absurd (hpending.symm.trans hchanged') Bool.false_ne_true
      · exact h.unique found called found' called' hbefore hfound' hsame hchanged hchanged'
  · intro found called hfound hrun hwrote' hseen'
    rw [hquiet]
    obtain ⟨rfl, rfl⟩ | ⟨-, hfound⟩ := update_eq_some hfound
    · exact ⟨hsnapshot.symm, hid⟩
    · exact h.fresh found called hfound hrun hwrote' hseen'
  · intro id hnew
    exact h.quiet id ((hquiet id).mp hnew)
  · intro found called time found' called' hfound htime hfound' hsame hrun hseen'
    obtain ⟨rfl, rfl⟩ | ⟨-, hbefore⟩ := update_eq_some hfound
    · cases hphase.symm.trans htime
    · obtain ⟨rfl, rfl⟩ | ⟨-, hfound'⟩ := update_eq_some hfound'
      · rw [hbegun]
        exact h.ended found called time hbefore htime
      · exact h.order found called time found' called' hbefore htime hfound' hsame hrun hseen'
  · intro rule found called time hfound hacts htime hbroken
    obtain ⟨rfl, rfl⟩ | ⟨-, hfound⟩ := update_eq_some hfound
    · cases hphase.symm.trans htime
    · obtain ⟨found', called', time', hfound', hrest⟩ :=
        h.lasts rule found called time hfound hacts htime hbroken
      exact ⟨found', called', time', hkept found' called' hfound', hrest⟩

/-- What a current call knows of its record: nobody else has a pending change, and the
resolved calls have made of it what the call has found. -/
theorem Inv.current (h : Inv s) (hcall : s.calls number = some call)
    (hrunning : call.phase.running = true) (hseen : call.seen = s.version call.id) :
    s.settled call.id = call.snapshot ∧ ∀ found called, s.calls found = some called →
      found ≠ number → called.id = call.id → pending called = false := by
  cases hwrote : call.wrote with
  | true =>
    have hpending : pending call = true := by rw [pending, hrunning, hwrote, Bool.and_self]
    refine ⟨(h.changed number call hcall hpending).2.2, ?_⟩
    intro found called hfound hne hid
    by_contra hchanged
    exact hne (h.unique number call found called hcall hfound hid hpending
      (by simpa using hchanged))
  | false =>
    obtain ⟨hdocument, hquiet⟩ := h.fresh number call hcall hrunning hwrote hseen
    exact ⟨(h.quiet call.id hquiet).symm.trans hdocument,
      fun found called hfound _ hid => hquiet found called hfound hid⟩

theorem Inv.write (h : Inv s) (hcall : s.calls number = some call)
    (hrunning : call.phase.running = true) (hseen : call.seen = s.version call.id)
    {wrote : Bool} {phase : Phase Approval Details} (hphase : phase.running = true)
    (hfits : Fits phase wrote) :
    Inv (s.write number call
      (Function.update s.document call.id (if wrote then call.target else call.snapshot)) wrote
      phase) := by
  obtain ⟨hsettled, hothers⟩ := h.current hcall hrunning hseen
  have hnotResolved (time : Nat) : phase ≠ .resolved time := by
    rintro rfl
    cases hphase
  have hversion : Function.update s.version call.id (s.version call.id + 1) call.id =
      s.version call.id + 1 := Function.update_self ..
  -- another call of the record is not current any more
  have hstale (found : Nat) (called : Call Approval Details) (hfound : s.calls found = some called)
      (hid : called.id = call.id) : called.seen ≠
        Function.update s.version call.id (s.version call.id + 1) called.id := by
    have hle := h.seen found called hfound
    rw [hid] at hle ⊢
    rw [hversion]
    exact Nat.ne_of_lt (Nat.lt_succ_of_le hle)
  have hquiet (id : ProviderId) (hid : id ≠ call.id) (hnew : Quiet (s.write number call
      (Function.update s.document call.id (if wrote then call.target else call.snapshot)) wrote
      phase) id) : Quiet s id := by
    intro found called hfound hsame
    refine hnew found called ?_ hsame
    have hne : found ≠ number := by
      rintro rfl
      obtain rfl := Option.some.inj (hcall.symm.trans hfound)
      exact hid hsame.symm
    exact (Function.update_of_ne hne _ _).trans hfound
  have hpending : pending (call.written (s.version call.id + 1) wrote phase) = wrote := by
    show (phase.running && wrote) = wrote
    rw [hphase, Bool.true_and]
  refine { fits := forall_update hfits h.fits
           begun := forall_update (h.begun_succ number call hcall) h.begun_succ
           ended := fun found called time hfound htime => forall_update
             (fun time htime => absurd htime (hnotResolved time)) h.ended_succ found called hfound
               time htime
           seen := ?_, changed := ?_, unique := ?_, fresh := ?_, quiet := ?_, order := ?_
           lasts := ?_ }
  · intro found called hfound
    obtain ⟨rfl, rfl⟩ | ⟨-, hfound⟩ := update_eq_some hfound
    · exact Nat.le_of_eq hversion.symm
    · show called.seen ≤ Function.update s.version call.id (s.version call.id + 1) called.id
      by_cases hid : called.id = call.id
      · rw [hid, hversion, ← hid]
        exact Nat.le_succ_of_le (h.seen found called hfound)
      · rw [Function.update_of_ne hid]
        exact h.seen found called hfound
  · intro found called hfound hchanged
    obtain ⟨rfl, rfl⟩ | ⟨hne, hfound⟩ := update_eq_some hfound
    · rw [hpending] at hchanged
      refine ⟨hversion.symm, ?_, hsettled⟩
      show Function.update s.document call.id _ call.id = call.target
      rw [Function.update_self, hchanged]
      rfl
    · have hid : called.id ≠ call.id := by
        intro hid
        exact absurd ((hothers found called hfound hne hid).symm.trans hchanged) Bool.false_ne_true
      show called.seen = Function.update s.version call.id _ called.id ∧
        Function.update s.document call.id _ called.id = _ ∧ _
      rw [Function.update_of_ne hid, Function.update_of_ne hid]
      exact h.changed found called hfound hchanged
  · intro found called found' called' hfound hfound' hid hchanged hchanged'
    obtain ⟨rfl, rfl⟩ | ⟨hne, hbefore⟩ := update_eq_some hfound
    · obtain ⟨rfl, -⟩ | ⟨hne', hfound'⟩ := update_eq_some hfound'
      · rfl
      · exact absurd ((hothers found' called' hfound' hne' hid).symm.trans hchanged')
          Bool.false_ne_true
    · obtain ⟨rfl, rfl⟩ | ⟨-, hfound'⟩ := update_eq_some hfound'
      · exact absurd ((hothers found called hbefore hne hid.symm).symm.trans hchanged)
          Bool.false_ne_true
      · exact h.unique found called found' called' hbefore hfound' hid hchanged hchanged'
  · intro found called hfound hrun hwrote hseen'
    obtain ⟨rfl, rfl⟩ | ⟨hne, hfound⟩ := update_eq_some hfound
    · change wrote = false at hwrote
      refine ⟨?_, ?_⟩
      · show Function.update s.document call.id _ call.id = call.snapshot
        rw [Function.update_self, hwrote]
        rfl
      · intro found' called' hfound' hid
        obtain ⟨rfl, rfl⟩ | ⟨hne', hfound'⟩ := update_eq_some hfound'
        · exact hpending.trans hwrote
        · exact hothers found' called' hfound' hne' hid
    · have hid : called.id ≠ call.id := fun hid => hstale found called hfound hid hseen'
      change called.seen = Function.update s.version call.id _ called.id at hseen'
      rw [Function.update_of_ne hid] at hseen'
      obtain ⟨hdocument, hquiet'⟩ := h.fresh found called hfound hrun hwrote hseen'
      refine ⟨(Function.update_of_ne hid _ _).trans hdocument, ?_⟩
      intro found' called' hfound' hid'
      obtain ⟨rfl, rfl⟩ | ⟨-, hfound'⟩ := update_eq_some hfound'
      · exact absurd hid'.symm hid
      · exact hquiet' found' called' hfound' hid'
  · intro id hnew
    by_cases hid : id = call.id
    · subst hid
      have hwrote : wrote = false :=
        hpending.symm.trans (hnew number _ (Function.update_self ..) rfl)
      show Function.update s.document call.id _ call.id = s.settled call.id
      rw [Function.update_self, hwrote, hsettled]
      rfl
    · exact (Function.update_of_ne hid _ _).trans (h.quiet id (hquiet id hid hnew))
  · intro found called time found' called' hfound htime hfound' hid hrun hseen'
    obtain ⟨rfl, rfl⟩ | ⟨-, hbefore⟩ := update_eq_some hfound
    · exact absurd htime (hnotResolved time)
    · obtain ⟨rfl, rfl⟩ | ⟨-, hfound'⟩ := update_eq_some hfound'
      · refine h.order found called time found' call hbefore htime hcall hid hrunning ?_
        rw [hseen]
        exact congrArg s.version hid
      · have hne : called'.id ≠ call.id := by
          intro hsame
          refine hstale found' called' hfound' hsame ?_
          rw [hseen', hid]
          rfl
        change called'.seen = Function.update s.version call.id _ called.id at hseen'
        rw [← hid, Function.update_of_ne hne, hid] at hseen'
        exact h.order found called time found' called' hbefore htime hfound' hid hrun hseen'
  · intro rule found called time hfound hacts htime hbroken
    obtain ⟨rfl, rfl⟩ | ⟨-, hfound⟩ := update_eq_some hfound
    · exact absurd htime (hnotResolved time)
    · obtain ⟨found', called', time', hfound', hid, hexcuse, hlater, htime'⟩ :=
        h.lasts rule found called time hfound hacts htime hbroken
      exact ⟨found', called', time', calls_resolved hcall hrunning hfound' htime' _, hid, hexcuse,
        hlater, htime'⟩

theorem Inv.resolve (h : Inv s) (hcall : s.calls number = some call)
    (hphase : call.phase = .confirming) : Inv (s.resolve number call) := by
  have hrunning : call.phase.running = true := by rw [hphase]; rfl
  have hwrote : call.wrote = true := by
    have hfits := h.fits number call hcall
    rw [hphase] at hfits
    exact hfits
  have hpending : pending call = true := by rw [pending, hrunning, hwrote, Bool.and_self]
  obtain ⟨hseen, hdocument, hsettled⟩ := h.changed number call hcall hpending
  -- there is no other current call of the record
  have hothers (found : Nat) (called : Call Approval Details) (hfound : s.calls found = some called)
      (hne : found ≠ number) (hrun : called.phase.running = true)
      (hcurrent : called.seen = s.version called.id) : called.id ≠ call.id := by
    intro hid
    cases hother : called.wrote with
    | true =>
      refine hne (h.unique number call found called hcall hfound hid hpending ?_)
      rw [pending, hrun, hother, Bool.and_self]
    | false =>
      have hquiet := (h.fresh found called hfound hrun hother hcurrent).2
      exact absurd (hpending.symm.trans (hquiet number call hcall hid.symm)) Bool.noConfusion
  have hsettledOf {id : ProviderId} (hid : id ≠ call.id) :
      (s.resolve number call).settled id = s.settled id := Function.update_of_ne hid _ _
  refine { fits := forall_update trivial h.fits
           begun := forall_update (h.begun_succ number call hcall) h.begun_succ
           ended := fun found called time hfound htime => forall_update
             (fun time htime => Phase.resolved.inj htime ▸ Nat.lt_succ_self _) h.ended_succ found
               called hfound time htime
           seen := forall_update (h.seen number call hcall) h.seen
           changed := ?_, unique := ?_, fresh := ?_, quiet := ?_, order := ?_, lasts := ?_ }
  · intro found called hfound hchanged
    obtain ⟨rfl, rfl⟩ | ⟨hne, hfound⟩ := update_eq_some hfound
    · cases hchanged
    · obtain ⟨hrun, -⟩ := (Bool.and_eq_true_iff).mp hchanged
      obtain ⟨hseen', hdocument', hsettled'⟩ := h.changed found called hfound hchanged
      rw [hsettledOf (hothers found called hfound hne hrun hseen')]
      exact ⟨hseen', hdocument', hsettled'⟩
  · intro found called found' called' hfound hfound' hid hchanged hchanged'
    obtain ⟨rfl, rfl⟩ | ⟨-, hbefore⟩ := update_eq_some hfound
    · cases hchanged
    · obtain ⟨rfl, rfl⟩ | ⟨-, hfound'⟩ := update_eq_some hfound'
      · cases hchanged'
      · exact h.unique found called found' called' hbefore hfound' hid hchanged hchanged'
  · intro found called hfound hrun hwrote' hseen'
    obtain ⟨rfl, rfl⟩ | ⟨-, hfound⟩ := update_eq_some hfound
    · cases hrun
    · obtain ⟨hdocument', hquiet⟩ := h.fresh found called hfound hrun hwrote' hseen'
      refine ⟨hdocument', ?_⟩
      intro found' called' hfound' hid
      obtain ⟨rfl, rfl⟩ | ⟨-, hfound'⟩ := update_eq_some hfound'
      · rfl
      · exact hquiet found' called' hfound' hid
  · intro id hnew
    by_cases hid : id = call.id
    · subst hid
      show s.document call.id = Function.update s.settled call.id call.target call.id
      rw [Function.update_self]
      exact hdocument
    · rw [hsettledOf hid]
      refine h.quiet id ?_
      intro found called hfound hsame
      refine hnew found called ?_ hsame
      have hne : found ≠ number := by
        rintro rfl
        obtain rfl := Option.some.inj (hcall.symm.trans hfound)
        exact hid hsame.symm
      exact (Function.update_of_ne hne _ _).trans hfound
  · intro found called time found' called' hfound htime hfound' hid hrun hseen'
    obtain ⟨rfl, rfl⟩ | ⟨hne', hother⟩ := update_eq_some hfound'
    · cases hrun
    · obtain ⟨rfl, rfl⟩ | ⟨-, hfound⟩ := update_eq_some hfound
      · exact absurd hid (hothers found' called' hother hne' hrun
          (hseen'.trans (congrArg s.version hid).symm))
      · exact h.order found called time found' called' hfound htime hother hid hrun hseen'
  · intro rule found called time hfound hacts htime hbroken
    by_cases hid : called.id = call.id
    · have htarget : (s.resolve number call).settled called.id = call.target :=
        (congrArg _ hid).trans (Function.update_self ..)
      rw [htarget] at hbroken
      obtain ⟨rfl, rfl⟩ | ⟨-, hfound⟩ := update_eq_some hfound
      · exact absurd hbroken (rule.made call hacts)
      · by_cases hexcuse : rule.excuse call.operation
        · refine ⟨number, call.withPhase (.resolved s.clock), s.clock, Function.update_self ..,
            hid.symm, hexcuse, ?_, rfl⟩
          exact h.order found called time number call hfound htime hcall hid.symm hrunning
            (hseen.trans (congrArg s.version hid.symm))
        · have hbefore := rule.kept call hexcuse hbroken
          rw [← hsettled, ← hid] at hbefore
          obtain ⟨found', called', time', hfound', hid', hexcuse', hlater, htime'⟩ :=
            h.lasts rule found called time hfound hacts htime hbefore
          exact ⟨found', called', time', calls_resolved hcall hrunning hfound' htime' _, hid',
            hexcuse', hlater, htime'⟩
    · rw [hsettledOf hid] at hbroken
      obtain ⟨rfl, rfl⟩ | ⟨-, hfound⟩ := update_eq_some hfound
      · exact absurd rfl hid
      · obtain ⟨found', called', time', hfound', hid', hexcuse', hlater, htime'⟩ :=
          h.lasts rule found called time hfound hacts htime hbroken
        exact ⟨found', called', time', calls_resolved hcall hrunning hfound' htime' _, hid',
          hexcuse', hlater, htime'⟩

theorem Inv.replace (h : Inv s) (hcall : s.calls number = some call)
    {read : Document Approval Details} (hphase : call.phase = .storing read)
    (hcurrent : Current s call read) {phase : Phase Approval Details}
    (hrun : phase.running = true) (hfits : Fits phase true) :
    Inv (s.write number call
      ((call.operation.apply call.id call.snapshot read).getD read) true phase) := by
  obtain ⟨rfl, hseen⟩ := hcurrent
  have hrunning : call.phase.running = true := by rw [hphase]; rfl
  have hwrote : call.wrote = false := by
    have hfits := h.fits number call hcall
    rw [hphase] at hfits
    exact hfits
  obtain ⟨hdocument, -⟩ := h.fresh number call hcall hrunning hwrote hseen
  rw [apply_eq call hdocument]
  exact @Inv.write _ _ s number call h hcall hrunning hseen true phase hrun hfits

theorem Inv.undoReplace (h : Inv s) (hcall : s.calls number = some call)
    {read : Document Approval Details} (hphase : call.phase = .undoStoring read)
    (hcurrent : Current s call read) :
    Inv (s.write number call
      ((call.operation.rollback call.id call.snapshot read).getD read) false .reporting) := by
  obtain ⟨rfl, hseen⟩ := hcurrent
  have hrunning : call.phase.running = true := by rw [hphase]; rfl
  have hrollback : (call.operation.rollback call.id call.snapshot s.document).getD s.document =
      Function.update s.document call.id call.snapshot := by
    cases hwrote : call.wrote with
    | true =>
      have hpending : pending call = true := by rw [pending, hrunning, hwrote, Bool.and_self]
      rw [rollback_eq call (h.changed number call hcall hpending).2.1, Option.getD_some]
    | false =>
      obtain ⟨hdocument, -⟩ := h.fresh number call hcall hrunning hwrote hseen
      rw [rollback_unwritten call hdocument, ← hdocument, Function.update_eq_self]
  rw [hrollback]
  exact @Inv.write _ _ s number call h hcall hrunning hseen false .reporting rfl rfl

theorem Inv.undoRead (h : Inv s) (hcall : s.calls number = some call)
    (hphase : call.phase = .undoing) {fails : Bool} (hfails : call.wrote = true → fails = false) :
    Inv (s.setCall number (call.withPhase
      (if fails ∨ call.operation.rollback call.id call.snapshot s.document = none then .reporting
        else .undoStoring s.document))) := by
  have hrunning : call.phase.running = true := by rw [hphase]; rfl
  split
  · rename_i hnone
    refine h.setPhase hcall hrunning ?_ nofun
    show call.wrote = false
    by_contra hchanged
    have hwrote : call.wrote = true := by simpa using hchanged
    have hpending : pending call = true := by rw [pending, hrunning, hwrote, Bool.and_self]
    obtain hfailed | hnone := hnone
    · exact absurd ((hfails hwrote).symm.trans hfailed) Bool.false_ne_true
    · rw [rollback_eq call (h.changed number call hcall hpending).2.1] at hnone
      exact Option.some_ne_none _ hnone
  · exact h.setPhase hcall hrunning trivial nofun

theorem Inv.advance (h : Inv s) (hcall : s.calls number = some call)
    {event : Event Approval Details} (hnumber : event.number = number)
    (hisolated : Isolated s event) {t : State Approval Details}
    (hstep : advance s number call call.phase event = some t) : Inv t := by
  have hfits := h.fits number call hcall
  generalize hphase : call.phase = phase at hstep hfits
  have hrunning (hrun : phase.running = true) : call.phase.running = true := by
    rw [hphase]
    exact hrun
  unfold ProviderOperators.advance at hstep
  split at hstep
  · obtain rfl := Option.some.inj hstep
    split
    · exact h.setPhase hcall (hrunning rfl) hfits nofun
    · exact h.setPhase hcall (hrunning rfl) hfits nofun
  · split at hstep
    · obtain rfl := Option.some.inj hstep
      exact h.setPhase hcall (hrunning rfl) trivial nofun
    · cases hstep
  · obtain rfl := Option.some.inj hstep
    split
    · exact h.setPhase hcall (hrunning rfl) trivial nofun
    · exact h.setPhase hcall (hrunning rfl) hfits nofun
  · rename_i read replaced replacement
    obtain rfl := hnumber
    have hcurrent := hisolated call read hcall hphase
    cases replacement with
    | done =>
      obtain rfl := Option.some.inj hstep
      exact h.replace hcall hphase (hcurrent Replacement.noConfusion) rfl rfl
    | unwritten =>
      obtain rfl := Option.some.inj hstep
      exact h.setPhase hcall (hrunning rfl) trivial nofun
    | unsynced =>
      obtain rfl := Option.some.inj hstep
      exact h.replace hcall hphase (hcurrent Replacement.noConfusion) rfl trivial
  · split at hstep
    · obtain rfl := Option.some.inj hstep
      exact h.setPhase hcall (hrunning rfl) trivial nofun
    · obtain rfl := Option.some.inj hstep
      exact h.resolve hcall hphase
  · obtain rfl := Option.some.inj hstep
    obtain rfl := hnumber
    exact h.undoRead hcall hphase (hisolated call hcall)
  · rename_i read undone replacement
    obtain rfl := hnumber
    obtain ⟨hcurrent, hwritten⟩ := hisolated call read hcall hphase
    cases replacement with
    | unwritten =>
      obtain rfl := Option.some.inj hstep
      refine h.setPhase hcall (hrunning rfl) ?_ nofun
      show call.wrote = false
      by_contra hchanged
      exact hwritten (by simpa using hchanged) rfl
    | done =>
      obtain rfl := Option.some.inj hstep
      exact h.undoReplace hcall hphase (hcurrent Replacement.noConfusion)
    | unsynced =>
      obtain rfl := Option.some.inj hstep
      exact h.undoReplace hcall hphase (hcurrent Replacement.noConfusion)
  · obtain rfl := Option.some.inj hstep
    exact h.setPhase hcall (hrunning rfl) hfits nofun
  · cases hstep

/-- Every step of a run that meets the condition keeps the invariant. -/
theorem Inv.next (h : Inv s) {event : Event Approval Details} (hisolated : Isolated s event)
    {t : State Approval Details} (hnext : next s event = some t) : Inv t := by
  cases hcall : s.calls event.number with
  | none =>
    cases event with
    | begin number operation id readFails =>
      have hfree : s.calls number = none := hcall
      unfold ProviderOperators.next at hnext
      rw [hcall] at hnext
      obtain rfl := Option.some.inj hnext
      rw [ProviderOperators.begin]
      split
      · exact h.begin hfree _ rfl rfl rfl rfl rfl hisolated
      · exact h
    | _ =>
      unfold ProviderOperators.next at hnext
      rw [hcall] at hnext
      cases hnext
  | some call =>
    cases event with
    | begin number operation id readFails =>
      unfold ProviderOperators.next at hnext
      rw [hcall] at hnext
      cases hnext
    | _ =>
      unfold ProviderOperators.next at hnext
      rw [hcall] at hnext
      exact h.advance hcall rfl hisolated hnext

end Steps

theorem Inv.laterCall {s : State Approval Details} (h : Inv s) (rule : Rule Approval Details)
    {number time : Nat} {call : Call Approval Details} (hcall : s.calls number = some call)
    (hacts : rule.acts call.operation) (hphase : call.phase = .resolved time)
    (hbroken : rule.broken (s.document call.id)) : LaterCall s call.id time rule.excuse := by
  have hlasts (hsettled : rule.broken (s.settled call.id)) :
      LaterCall s call.id time rule.excuse := by
    obtain ⟨later, called, time', hlater, hid, hexcuse, hbegun, htime⟩ :=
      h.lasts rule number call time hcall hacts hphase hsettled
    refine ⟨later, called, hlater, hid, hexcuse, hbegun, ?_⟩
    rw [htime]
    nofun
  by_cases hquiet : Quiet s call.id
  · exact hlasts (h.quiet call.id hquiet ▸ hbroken)
  · -- the record holds the change of a call that may still take it back
    simp only [Quiet, not_forall, Bool.not_eq_false] at hquiet
    obtain ⟨later, called, hlater, hid, hpending⟩ := hquiet
    obtain ⟨hseen, hdocument, hsettled⟩ := h.changed later called hlater hpending
    obtain ⟨hrunning, -⟩ := (Bool.and_eq_true_iff).mp hpending
    rw [hid] at hseen hdocument hsettled
    rw [hdocument] at hbroken
    by_cases hexcuse : rule.excuse called.operation
    · refine ⟨later, called, hlater, hid, hexcuse, ?_, ?_⟩
      · exact h.order number call time later called hcall hphase hlater hid hrunning hseen
      · intro hrejected
        rw [hrejected] at hrunning
        cases hrunning
    · exact hlasts (hsettled ▸ rule.kept called hexcuse hbroken)

def disableRule : Rule Approval Details where
  acts := Disables
  excuse := Enables
  broken := fun entry => ∃ record, entry = some record ∧ record.enabled = true
  made := by
    rintro call hacts ⟨record, htarget, henabled⟩
    rw [Call.target] at htarget
    cases hoperation : call.operation with
    | disable now =>
      rw [hoperation] at htarget
      obtain ⟨current, -, rfl⟩ := Option.map_eq_some_iff.mp htarget
      cases henabled
    | _ =>
      rw [hoperation] at hacts
      exact hacts
  kept := by
    rintro call hexcuse ⟨record, htarget, henabled⟩
    rw [Call.target] at htarget
    cases hoperation : call.operation with
    | add approval details now =>
      rw [hoperation] at hexcuse
      exact absurd trivial hexcuse
    | enable now =>
      rw [hoperation] at hexcuse
      exact absurd trivial hexcuse
    | disable now =>
      rw [hoperation] at htarget
      obtain ⟨current, -, rfl⟩ := Option.map_eq_some_iff.mp htarget
      cases henabled
    | reapprove approval now =>
      rw [hoperation] at htarget
      obtain ⟨current, hcurrent, rfl⟩ := Option.map_eq_some_iff.mp htarget
      exact ⟨current, hcurrent, henabled⟩
    | remove =>
      rw [hoperation] at htarget
      cases htarget

def removeRule : Rule Approval Details where
  acts := fun operation => operation = .remove
  excuse := Adds
  broken := fun entry => entry ≠ none
  made := by
    intro call hacts hbroken
    rw [Call.target, hacts] at hbroken
    exact hbroken rfl
  kept := by
    intro call hexcuse hbroken hnone
    rw [Call.target, hnone] at hbroken
    cases hoperation : call.operation with
    | add approval details now =>
      rw [hoperation] at hexcuse
      exact hexcuse trivial
    | _ =>
      rw [hoperation] at hbroken
      exact hbroken rfl

theorem Inv.lasting {s : State Approval Details} (h : Inv s) : Lasting s where
  disabled := fun _ _ _ record hcall hacts hphase hrecord henabled =>
    h.laterCall disableRule hcall hacts hphase ⟨record, hrecord, henabled⟩
  removed := fun _ _ _ hcall hacts hphase hrecord =>
    h.laterCall removeRule hcall hacts hphase hrecord
  settled := by
    intro id hnone
    refine h.quiet id ?_
    intro number call hcall hid
    cases hrunning : call.phase.running with
    | false => rw [pending, hrunning, Bool.false_and]
    | true => rw [pending, hrunning, hnone number call hcall hid hrunning, Bool.and_false]

/-- In a run whose steps keep out of each other's way, what resolved calls have done
lasts, and a rejected call leaves nothing. -/
theorem lasting_of_isolated (document : Document Approval Details)
    (events : List (Event Approval Details)) (s : State Approval Details)
    (hisolated : AllSteps next Isolated (start document) events)
    (hrun : exec next (start document) events = some s) : Lasting s :=
  (exec_invariant (fun _ _ _ h hok hnext => h.next hok hnext) (inv_start document) hisolated
    hrun).lasting

def oneProvider : Document Unit Unit :=
  Function.update (fun _ => none) [] (some ⟨true, (), (), []⟩)

def disabling (number : Nat) : List (Event Unit Unit) :=
  [.begin number (.disable []) [] false, .decide number false, .read number false,
    .replace number .done, .confirm number false]

theorem disabling_lasting : ∃ s, exec next (start oneProvider) (disabling 0) = some s ∧
    Lasting s := by
  have hrun : ∃ s, exec next (start oneProvider) (disabling 0) = some s := ⟨_, rfl⟩
  obtain ⟨s, hs⟩ := hrun
  refine ⟨s, hs, lasting_of_isolated oneProvider (disabling 0) s ?_ hs⟩
  refine ⟨fun number call h => absurd h (start_calls oneProvider number call), ?_⟩
  rintro t ⟨⟩
  refine ⟨trivial, ?_⟩
  rintro t ⟨⟩
  refine ⟨trivial, ?_⟩
  rintro t ⟨⟩
  refine ⟨?_, ?_⟩
  · intro call read hcall hphase hwritten
    cases hcall
    cases hphase
    exact ⟨rfl, rfl⟩
  · rintro t ⟨⟩
    exact ⟨trivial, fun _ _ => trivial⟩

/-- An enabling that has read the record before a disabling begins writes it back
after the disabling has resolved. -/
theorem staleEnable_not_lasting : ¬∀ (document : Document Unit Unit)
    (events : List (Event Unit Unit)) (s : State Unit Unit),
    exec next (start document) events = some s → Lasting s := by
  intro h
  have hlasting := h oneProvider (Event.begin 0 (.enable []) [] false :: disabling 1 ++
    [.decide 0 false, .read 0 false, .replace 0 .done, .confirm 0 false]) _ rfl
  obtain ⟨number, call, hcall, -, henables, hbegun, -⟩ :=
    hlasting.disabled 1 _ 5 _ rfl trivial rfl rfl rfl
  match number with
  | 0 =>
    obtain rfl := Option.some.inj hcall
    exact absurd hbegun (Nat.not_lt_zero 5)
  | 1 =>
    obtain rfl := Option.some.inj hcall
    exact henables
  | _ + 2 => cases hcall

end KodeGpt.OperatorIsolation
