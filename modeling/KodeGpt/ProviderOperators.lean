import KodeGpt.JsonText
import KodeGpt.TransitionSystem

/-!
Calls on the provider registry, await by await: what a call reads of the registry
first, how it writes its record, and how it takes that back when something fails.
-/

namespace KodeGpt.ProviderOperators

open JsonText

abbrev ProviderId := Bytes

/-- `approval` is what an approval fixes: the contract version, the fingerprints, the
inventory's mode and the credential broker. `details` never change. -/
structure ProviderRecord (Approval Details : Type) where
  enabled : Bool
  approval : Approval
  details : Details
  updatedAt : Bytes
  deriving DecidableEq

variable {Approval Details : Type}

/-- The entries of the registry's document, by their identifiers. -/
abbrev Document (Approval Details : Type) := ProviderId → Option (ProviderRecord Approval Details)

namespace Document

variable (document : Document Approval Details) (id : ProviderId)

def insert (record : ProviderRecord Approval Details) : Option (Document Approval Details) :=
  if (document id).isSome then none else some (Function.update document id (some record))

def replace (record : ProviderRecord Approval Details) : Option (Document Approval Details) :=
  if (document id).isSome then some (Function.update document id (some record)) else none

def remove : Option (Document Approval Details) :=
  if (document id).isSome then some (Function.update document id none) else none

end Document

/-- The calls, with what they put into a record. -/
inductive Operation (Approval Details : Type) where
  | add (approval : Approval) (details : Details) (now : Bytes)
  | disable (now : Bytes)
  | enable (now : Bytes)
  | reapprove (approval : Approval) (now : Bytes)
  | remove
  deriving DecidableEq

namespace Operation

def isAdd : Operation Approval Details → Bool
  | .add _ _ _ => true
  | _ => false

def prepares : Operation Approval Details → Bool
  | .disable _ | .remove => false
  | _ => true

def added (approval : Approval) (details : Details) (now : Bytes) :
    ProviderRecord Approval Details := ⟨true, approval, details, now⟩

def target (operation : Operation Approval Details)
    (snapshot : Option (ProviderRecord Approval Details)) :
    Option (ProviderRecord Approval Details) :=
  match operation with
  | .add approval details now => some (added approval details now)
  | .disable now => snapshot.map fun current => { current with enabled := false, updatedAt := now }
  | .enable now => snapshot.map fun current => { current with enabled := true, updatedAt := now }
  | .reapprove approval now =>
    snapshot.map fun current => { current with approval := approval, updatedAt := now }
  | .remove => none

def apply (operation : Operation Approval Details) (id : ProviderId)
    (snapshot : Option (ProviderRecord Approval Details)) (document : Document Approval Details) :
    Option (Document Approval Details) :=
  match operation with
  | .add approval details now => document.insert id (added approval details now)
  | .remove => document.remove id
  | operation => (operation.target snapshot).bind fun updated => document.replace id updated

/-- What it writes to take that back. A removed record is inserted if there is none, an
added one is removed if there is one. -/
def rollback (operation : Operation Approval Details) (id : ProviderId)
    (snapshot : Option (ProviderRecord Approval Details)) (document : Document Approval Details) :
    Option (Document Approval Details) :=
  match operation with
  | .add _ _ _ => document.remove id
  | .remove => snapshot.bind fun current => document.insert id current
  | _ => snapshot.bind fun current => document.replace id current

end Operation

/-- Where a call stands. A store operation has read a document that it is about to
replace. -/
inductive Phase (Approval Details : Type) where
  | deciding
  | preparing
  | storing (read : Document Approval Details)
  | confirming
  | undoing
  | undoStoring (read : Document Approval Details)
  | reporting
  | resolved (time : Nat)
  | rejected

def Phase.running : Phase Approval Details → Bool
  | .resolved _ | .rejected => false
  | _ => true

/-- An addition has found no record, every other call has found one. `seen` is the
version of the record after the last change that the call knows of, and `wrote` says that
its change is in the registry. -/
structure Call (Approval Details : Type) where
  operation : Operation Approval Details
  id : ProviderId
  snapshot : Option (ProviderRecord Approval Details)
  admitted : snapshot.isNone = operation.isAdd
  begun : Nat
  seen : Nat
  wrote : Bool
  phase : Phase Approval Details

namespace Call

variable (call : Call Approval Details)

def target : Option (ProviderRecord Approval Details) := call.operation.target call.snapshot

def withPhase (phase : Phase Approval Details) : Call Approval Details := { call with phase := phase }

def written (version : Nat) (wrote : Bool) (phase : Phase Approval Details) :
    Call Approval Details :=
  { call with seen := version, wrote := wrote, phase := phase }

end Call

/-- `settled` is what the calls that have resolved have made of the records, each when it
has resolved; `version` counts the changes of a record. -/
structure State (Approval Details : Type) where
  document : Document Approval Details
  calls : Nat → Option (Call Approval Details)
  clock : Nat
  version : ProviderId → Nat
  settled : Document Approval Details

namespace State

variable (s : State Approval Details)

def setCall (number : Nat) (call : Call Approval Details) : State Approval Details :=
  { s with calls := Function.update s.calls number (some call), clock := s.clock + 1 }

def write (number : Nat) (call : Call Approval Details) (document : Document Approval Details)
    (wrote : Bool) (phase : Phase Approval Details) : State Approval Details where
  document := document
  calls := Function.update s.calls number (some (call.written (s.version call.id + 1) wrote phase))
  clock := s.clock + 1
  version := Function.update s.version call.id (s.version call.id + 1)
  settled := s.settled

def resolve (number : Nat) (call : Call Approval Details) : State Approval Details where
  document := s.document
  calls := Function.update s.calls number (some (call.withPhase (.resolved s.clock)))
  clock := s.clock + 1
  version := s.version
  settled := Function.update s.settled call.id call.target

end State

/-- How the replacement of the document ends: it is done, it has failed and nothing is
written, or it has failed after the new document has got its name. -/
inductive Replacement where
  | done
  | unwritten
  | unsynced
  deriving DecidableEq

inductive Event (Approval Details : Type) where
  | begin (number : Nat) (operation : Operation Approval Details) (id : ProviderId)
      (readFails : Bool)
  | decide (number : Nat) (fails : Bool)
  | prepareFails (number : Nat)
  | read (number : Nat) (fails : Bool)
  | replace (number : Nat) (replacement : Replacement)
  | confirm (number : Nat) (fails : Bool)
  | undoRead (number : Nat) (fails : Bool)
  | undoReplace (number : Nat) (replacement : Replacement)
  | report (number : Nat)

/-- The first reading of the registry; without the record that the operation needs the
call rejects. -/
def begin (s : State Approval Details) (number : Nat) (operation : Operation Approval Details)
    (id : ProviderId) (readFails : Bool) : State Approval Details :=
  if hadmitted : readFails = false ∧ (s.document id).isNone = operation.isAdd then
    s.setCall number {
      operation := operation
      id := id
      snapshot := s.document id
      admitted := hadmitted.2
      begun := s.clock
      seen := s.version id
      wrote := false
      phase := .deciding }
  else s

/-- The next step of a call in its phase. A rollback does not depend on how far the call
has come, and reports in the end whatever happens. -/
def advance (s : State Approval Details) (number : Nat) (call : Call Approval Details) :
    Phase Approval Details → Event Approval Details → Option (State Approval Details)
  | .deciding, .decide _ fails =>
    some (s.setCall number (call.withPhase (if fails then .rejected else .preparing)))
  | .preparing, .prepareFails _ =>
    if call.operation.prepares then some (s.setCall number (call.withPhase .undoing)) else none
  | .preparing, .read _ fails =>
    some (s.setCall number (call.withPhase
      (if fails ∨ call.operation.apply call.id call.snapshot s.document = none then .undoing
        else .storing s.document)))
  | .storing read, .replace _ replacement =>
    let document := (call.operation.apply call.id call.snapshot read).getD read
    match replacement with
    | .done => some (s.write number call document true .confirming)
    | .unwritten => some (s.setCall number (call.withPhase .undoing))
    | .unsynced => some (s.write number call document true .undoing)
  | .confirming, .confirm _ fails =>
    if fails then some (s.setCall number (call.withPhase .undoing))
    else some (s.resolve number call)
  | .undoing, .undoRead _ fails =>
    some (s.setCall number (call.withPhase
      (if fails ∨ call.operation.rollback call.id call.snapshot s.document = none then .reporting
        else .undoStoring s.document)))
  | .undoStoring read, .undoReplace _ replacement =>
    let document := (call.operation.rollback call.id call.snapshot read).getD read
    match replacement with
    | .unwritten => some (s.setCall number (call.withPhase .reporting))
    | _ => some (s.write number call document false .reporting)
  | .reporting, .report _ => some (s.setCall number (call.withPhase .rejected))
  | _, _ => none

def Event.number : Event Approval Details → Nat
  | .begin number _ _ _ | .decide number _ | .prepareFails number | .read number _
  | .replace number _ | .confirm number _ | .undoRead number _ | .undoReplace number _
  | .report number => number

def next (s : State Approval Details) (event : Event Approval Details) :
    Option (State Approval Details) :=
  match event, s.calls event.number with
  | .begin number operation id readFails, none => some (begin s number operation id readFails)
  | .begin _ _ _ _, some _ => none
  | event, some call => advance s event.number call call.phase event
  | _, none => none

def start (document : Document Approval Details) : State Approval Details where
  document := document
  calls := fun _ => none
  clock := 0
  version := fun _ => 0
  settled := document

end KodeGpt.ProviderOperators
