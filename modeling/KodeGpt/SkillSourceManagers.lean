import KodeGpt.KeyedFamily
import KodeGpt.TransitionSystem

/-!
The manager of skill sources: a source is registered with the runtime when it is first used,
its capability is kept for later uses, and it is given back when the source is removed or
the manager is closed.
-/

namespace KodeGpt.SkillSourceManagers

open KeyedFamily TransitionSystem

variable {Id : Type} [DecidableEq Id]

/-- A registration reads the entry of the source, asks the runtime for a capability and
records it. The answer of the runtime is missing as long as the runtime has not taken the
request; a request that was given up may still be carried out. -/
inductive RegistrationPhase
  | reading
  | found
  | requested (answer : Option (Option Nat))
  | recorded
  | failed
  | abandoned
  deriving DecidableEq, Repr

structure Registration (Id : Type) where
  id : Id
  phase : RegistrationPhase

inductive Operation (Id : Type)
  | addSource
  | ensureRegistered (id : Id)
  | access (id : Id)
  | removeSource (id : Id)
  | close

/-- What a call waits for. Only an access sees `checking`, `looking`, `holding`, `sent` and
`delegated`; only an addition and a removal see the document of the store. -/
inductive Phase (Id : Type)
  | inspecting
  | checking
  | registering (registration : Nat) (owner : Bool)
  | looking
  | holding (capability : Nat)
  | sent
  | delegated
  | unregistering (id : Id) (capability : Nat) (rest : List (Id × Nat)) (failed : Bool)
      (answer : Option Bool)
  | concluding (failed : Bool)
  | reading
  | loaded (sources : List Id)
  | replaced
  | resolved (time : Nat)
  | rejected

structure Call (Id : Type) where
  operation : Operation Id
  begun : Nat
  /-- The call has sent a `tree`, `read` or `readBytes` request to the runtime. -/
  reached : Bool
  phase : Phase Id

def Call.withPhase (call : Call Id) (phase : Phase Id) : Call Id := { call with phase }

structure State (Id : Type) where
  /-- The sources of the stored document. -/
  store : List Id
  /-- The identifiers that a call or the document has mentioned. -/
  known : List Id
  /-- The capabilities that the runtime has registered, with their sources. -/
  registered : Nat → Option Id
  sequence : Nat
  /-- Capabilities whose unregistration was given up and may still be carried out. -/
  strays : List Nat
  activeCapabilities : Family Id Nat
  registrationInFlight : Family Id Nat
  registrations : Nat → Option (Registration Id)
  calls : Nat → Option (Call Id)
  clock : Nat

def start (store : List Id) : State Id where
  store
  known := store
  registered := fun _ => none
  sequence := 0
  strays := []
  activeCapabilities := ∅
  registrationInFlight := ∅
  registrations := fun _ => none
  calls := fun _ => none
  clock := 0

def State.setCall (s : State Id) (number : Nat) (call : Call Id) : State Id :=
  { s with calls := Function.update s.calls number (some call), clock := s.clock + 1 }

def State.setRegistration (s : State Id) (number : Nat) (registration : Registration Id) :
    State Id :=
  { s with
    registrations := Function.update s.registrations number (some registration)
    clock := s.clock + 1 }

def State.forget (s : State Id) (id : Id) : State Id :=
  { s with activeCapabilities := s.activeCapabilities.erase id }

def State.record (s : State Id) (id : Id) (capability : Nat) : State Id :=
  { s with activeCapabilities := s.activeCapabilities.insert id capability }

def State.unregister (s : State Id) (capability : Nat) : State Id :=
  { s with registered := Function.update s.registered capability none }

def Operation.afterRegistration (operation : Operation Id) (time : Nat) : Phase Id :=
  match operation with
  | .access _ => .looking
  | _ => .resolved time

def State.registering (s : State Id) (id : Id) : State Id :=
  { s.setRegistration s.clock ⟨id, .reading⟩ with
    registrationInFlight := s.registrationInFlight.insert id s.clock }

def State.ensureRegistered (s : State Id) (number : Nat) (call : Call Id) (id : Id) : State Id :=
  match s.activeCapabilities.lookup id with
  | some _ => s.setCall number (call.withPhase (call.operation.afterRegistration s.clock))
  | none =>
    match s.registrationInFlight.lookup id with
    | some existing => s.setCall number (call.withPhase (.registering existing false))
    | none =>
      (s.registering id).setCall number (call.withPhase (.registering s.clock true))

/-- The loop of `close` over the capabilities that were active when it began. -/
def unregisterNext (failed : Bool) : List (Id × Nat) → Phase Id
  | [] => .concluding failed
  | (id, capability) :: rest => .unregistering id capability rest failed none

def State.activeEntries (s : State Id) : List (Id × Nat) :=
  s.activeCapabilities.entries.reverse.map fun entry => (entry.1, entry.2)

def State.removeSource (s : State Id) (id : Id) : Phase Id :=
  match s.activeCapabilities.lookup id with
  | some capability => .unregistering id capability [] false none
  | none => .reading

def Operation.afterRefusal (operation : Operation Id) (rest : List (Id × Nat)) : Phase Id :=
  match operation with
  | .close => unregisterNext true rest
  | _ => .rejected

def Operation.afterUnregistration (operation : Operation Id) (failed : Bool)
    (rest : List (Id × Nat)) : Phase Id :=
  match operation with
  | .close => unregisterNext failed rest
  | _ => .reading

def Operation.mentions : Operation Id → List Id
  | .ensureRegistered id | .access id | .removeSource id => [id]
  | _ => []

inductive Check
  | global
  | workspace
  | failed

inductive Event (Id : Type)
  | begin (number : Nat) (operation : Operation Id)
  | inspected (number : Nat) (ok : Bool)
  | checked (number : Nat) (outcome : Check)
  | load (registration : Nat) (ok : Bool)
  | request (registration : Nat)
  | grant (registration : Nat)
  | refuse (registration : Nat)
  | giveUp (registration : Nat)
  | settle (registration : Nat)
  | resume (number : Nat)
  | look (number : Nat)
  | send (number : Nat)
  | receive (number : Nat) (ok : Bool)
  | withdraw (number : Nat)
  | withdrawStray (capability : Nat)
  | unregistered (number : Nat) (ok : Bool)
  | read (number : Nat) (ok : Bool)
  | replace (number : Nat) (id : Id) (written : Bool)
  | conclude (number : Nat) (ok : Bool)

def State.begin (s : State Id) (number : Nat) (operation : Operation Id) : State Id :=
  let s := { s with known := operation.mentions ++ s.known }
  let call : Call Id := { operation, begun := s.clock, reached := false, phase := .checking }
  match operation with
  | .addSource => s.setCall number (call.withPhase .inspecting)
  | .ensureRegistered id => s.ensureRegistered number call id
  | .access _ => s.setCall number call
  | .removeSource id => s.setCall number (call.withPhase (s.removeSource id))
  | .close => s.setCall number (call.withPhase (unregisterNext false s.activeEntries))

def State.checked (s : State Id) (number : Nat) (call : Call Id) (id : Id) : Check → State Id
  | .global => s.ensureRegistered number call id
  | .workspace => s.setCall number (call.withPhase .delegated)
  | .failed => s.setCall number (call.withPhase .rejected)

def State.release (s : State Id) (owner : Bool) (number : Nat) (id : Id) : State Id :=
  if owner = true ∧ s.registrationInFlight.lookup id = some number then
    { s with registrationInFlight := s.registrationInFlight.erase id }
  else s

def State.resume (s : State Id) (number : Nat) (call : Call Id) (registration : Nat)
    (owner : Bool) : Option (State Id) :=
  match s.registrations registration with
  | some ⟨id, .recorded⟩ =>
    some ((s.release owner registration id).setCall number
      (call.withPhase (call.operation.afterRegistration s.clock)))
  | some ⟨id, .failed⟩ | some ⟨id, .abandoned⟩ =>
    some ((s.release owner registration id).setCall number (call.withPhase .rejected))
  | _ => none

def State.register (s : State Id) (number : Nat) (registration : Registration Id) :
    Event Id → Option (State Id)
  | .load _ ok =>
    if registration.phase = .reading then
      some (s.setRegistration number
        ⟨registration.id, if ok ∧ registration.id ∈ s.store then .found else .failed⟩)
    else none
  | .request _ =>
    if registration.phase = .found then
      some (s.setRegistration number ⟨registration.id, .requested none⟩)
    else none
  | .grant _ =>
    if registration.phase = .requested none then
      some ({ s with
        registered := Function.update s.registered s.sequence (some registration.id)
        sequence := s.sequence + 1 }.setRegistration number
          ⟨registration.id, .requested (some (some s.sequence))⟩)
    else if registration.phase = .abandoned then
      some ({ s with
        registered := Function.update s.registered s.sequence (some registration.id)
        sequence := s.sequence + 1 }.setRegistration number ⟨registration.id, .failed⟩)
    else none
  | .refuse _ =>
    if registration.phase = .requested none then
      some (s.setRegistration number ⟨registration.id, .requested (some none)⟩)
    else none
  | .giveUp _ =>
    match registration.phase with
    | .requested none => some (s.setRegistration number ⟨registration.id, .abandoned⟩)
    | .requested (some _) => some (s.setRegistration number ⟨registration.id, .failed⟩)
    | _ => none
  | .settle _ =>
    match registration.phase with
    | .requested (some (some capability)) =>
      some ((s.record registration.id capability).setRegistration number
        ⟨registration.id, .recorded⟩)
    | .requested (some none) => some (s.setRegistration number ⟨registration.id, .failed⟩)
    | _ => none
  | _ => none

/-- The documents that an addition and a removal write. A removal of a source that the
document does not have writes nothing. -/
def State.replace (s : State Id) (number : Nat) (call : Call Id) (sources : List Id) (id : Id)
    (written : Bool) : Option (State Id) :=
  match call.operation with
  | .addSource =>
    if written then
      if id ∈ s.known then none
      else
        some ({ s with store := sources ++ [id], known := id :: s.known }.setCall number
          (call.withPhase .replaced))
    else some (s.setCall number (call.withPhase .rejected))
  | .removeSource removed =>
    if removed ∈ sources then
      if written then
        some ({ s with store := sources.filter (· ≠ removed) }.setCall number
          (call.withPhase .replaced))
      else some (s.setCall number (call.withPhase .rejected))
    else some (s.setCall number (call.withPhase .replaced))
  | _ => none

def State.call (s : State Id) (number : Nat) (call : Call Id) : Event Id → Option (State Id)
  | .inspected _ ok =>
    match call.phase with
    | .inspecting => some (s.setCall number (call.withPhase (if ok then .reading else .rejected)))
    | _ => none
  | .checked _ outcome =>
    match call.phase, call.operation with
    | .checking, .access id => some (s.checked number call id outcome)
    | _, _ => none
  | .resume _ =>
    match call.phase with
    | .registering registration owner => s.resume number call registration owner
    | _ => none
  | .look _ =>
    match call.phase, call.operation with
    | .looking, .access id =>
      match s.activeCapabilities.lookup id with
      | some capability => some (s.setCall number (call.withPhase (.holding capability)))
      | none => some (s.setCall number (call.withPhase .rejected))
    | _, _ => none
  | .send _ =>
    match call.phase with
    | .holding _ => some (s.setCall number { call with reached := true, phase := .sent })
    | _ => none
  | .receive _ ok =>
    match call.phase with
    | .sent =>
      some (s.setCall number (call.withPhase (if ok then .resolved s.clock else .rejected)))
    | _ => none
  | .withdraw _ =>
    match call.phase with
    | .unregistering id capability rest failed none =>
      some ((s.unregister capability).setCall number (call.withPhase
        (.unregistering id capability rest failed (some (s.registered capability).isSome))))
    | _ => none
  | .unregistered _ ok =>
    match call.phase with
    | .unregistering id capability rest failed answer =>
      if ok = true then
        if answer = some true then
          some ((s.forget id).setCall number
            (call.withPhase (call.operation.afterUnregistration failed rest)))
        else none
      else
        some ({ s with
          strays := if answer = none then capability :: s.strays else s.strays }.setCall number
            (call.withPhase (call.operation.afterRefusal rest)))
    | _ => none
  | .read _ ok =>
    match call.phase with
    | .reading =>
      some (s.setCall number (call.withPhase (if ok then .loaded s.store else .rejected)))
    | _ => none
  | .replace _ id written =>
    match call.phase with
    | .loaded sources => s.replace number call sources id written
    | _ => none
  | .conclude _ ok =>
    match call.phase with
    | .replaced =>
      some (s.setCall number (call.withPhase (if ok then .resolved s.clock else .rejected)))
    | .concluding failed =>
      some (s.setCall number
        (call.withPhase (if failed then .rejected else .resolved s.clock)))
    | _ => none
  | _ => none

def next (s : State Id) (event : Event Id) : Option (State Id) :=
  match event with
  | .begin number operation =>
    if (s.calls number).isNone then some (s.begin number operation) else none
  | .load number _ | .request number | .grant number | .refuse number | .giveUp number
  | .settle number =>
    (s.registrations number).bind fun registration => s.register number registration event
  | .withdrawStray capability =>
    if capability ∈ s.strays then some (s.unregister capability) else none
  | .inspected number _ | .checked number _ | .resume number | .look number | .send number
  | .receive number _ | .withdraw number | .unregistered number _ | .read number _
  | .replace number _ _ | .conclude number _ =>
    (s.calls number).bind fun call => s.call number call event

end KodeGpt.SkillSourceManagers
