import KodeGpt.JsonText
import KodeGpt.WorkspaceContexts

/-!
The workspaces of the control plane, and the calls that open and close them. A
call waits for one answer at a time, from the runtime or from the trust store;
between two answers nothing of it runs. Roots are `R`, identities `I` and
policies `P`, and `resolveProfile` is what restricts a ceiling.
-/

namespace KodeGpt.WorkspaceManager

open JsonText WorkspaceContexts

abbrev CallId := Nat
abbrev WorkspaceId := String
abbrev TrustId := Bytes
abbrev CapabilityId := String

variable {R I P : Type}

structure WorkspaceState (R P : Type) where
  phase : WorkspacePhase
  closeInFlight : Bool
  canonicalRoot : Option R
  trustId : Option TrustId
  capabilityId : Option CapabilityId
  effectivePolicy : Option P

/-- What `openWorkspace` waits for, with what it has got so far. -/
inductive OpenStep (R I P : Type) where
  | inspecting (rootPath : R)
  | trusting (root : R) (identity : I)
  | registering (root : R) (identity : I) (ceiling : P)
  | readingProfile (capabilityId : CapabilityId) (ceiling : P)
  | restricting (capabilityId : CapabilityId) (effectivePolicy : P)
  | activating (capabilityId : CapabilityId) (effectivePolicy : P)

def OpenStep.capability : OpenStep R I P → Option CapabilityId
  | readingProfile capabilityId _ | restricting capabilityId _ | activating capabilityId _ =>
    some capabilityId
  | _ => none

inductive CloseStep where
  | beginClose
  | cancelExecutions
  | unregister
  deriving DecidableEq, Repr

def CloseStep.following : CloseStep → Option CloseStep
  | beginClose => some cancelExecutions
  | cancelExecutions => some unregister
  | unregister => none

inductive ManagerError where
  | invalidArgument
  | idCollision
  | notFound
  | notReady
  | closeIncomplete
  deriving DecidableEq, Repr

/-- `unregistering` is the last step of an open that has failed; `failed` tells
the capability whose unregistering was acknowledged. -/
inductive CallPhase (R I P : Type) where
  | idle
  | opening (id : WorkspaceId) (step : OpenStep R I P)
  | unregistering (capabilityId : CapabilityId)
  | opened (id : WorkspaceId)
  | failed (unregistered : Option CapabilityId)
  | closing (id : WorkspaceId) (capabilityId : CapabilityId) (step : CloseStep)
  | closed (id : WorkspaceId)
  | rejected (error : ManagerError)

/-- An answer that a call can use; anything else it counts as a failure. -/
inductive Answer (R I P : Type) where
  | root (canonicalRoot : R) (identity : I)
  | trusted (trustId : TrustId) (ceiling : P)
  | capability (capabilityId : CapabilityId)
  | profile (restriction : Option P)
  | acknowledged
  | failure

/-- The map of the workspaces, with its keys in the order of their insertion. -/
structure Manager (R I P : Type) where
  workspaces : WorkspaceId → Option (WorkspaceState R P)
  order : List WorkspaceId
  calls : CallId → CallPhase R I P

namespace Manager

def started : Manager R I P where
  workspaces := fun _ => none
  order := []
  calls := fun _ => .idle

def setCall (m : Manager R I P) (call : CallId) (phase : CallPhase R I P) : Manager R I P :=
  { m with calls := Function.update m.calls call phase }

def change (m : Manager R I P) (id : WorkspaceId)
    (f : WorkspaceState R P → WorkspaceState R P) : Manager R I P :=
  { m with workspaces := Function.update m.workspaces id ((m.workspaces id).map f) }

def insert (m : Manager R I P) (id : WorkspaceId) (state : WorkspaceState R P) : Manager R I P :=
  { m with workspaces := Function.update m.workspaces id (some state), order := m.order ++ [id] }

def delete (m : Manager R I P) (id : WorkspaceId) : Manager R I P :=
  { m with workspaces := Function.update m.workspaces id none, order := m.order.erase id }

section Updates

variable (m : Manager R I P) (call other : CallId) (phase : CallPhase R I P)
  (id id' : WorkspaceId) (f : WorkspaceState R P → WorkspaceState R P)
  (state : WorkspaceState R P)

@[simp, grind =] theorem setCall_calls :
    (m.setCall call phase).calls other = if other = call then phase else m.calls other :=
  Function.update_apply ..

@[simp, grind =] theorem setCall_workspaces :
    (m.setCall call phase).workspaces id = m.workspaces id := rfl

@[simp, grind =] theorem setCall_order : (m.setCall call phase).order = m.order := rfl

@[simp, grind =] theorem change_calls : (m.change id f).calls call = m.calls call := rfl

@[simp, grind =] theorem change_workspaces :
    (m.change id f).workspaces id' =
      if id' = id then (m.workspaces id).map f else m.workspaces id' :=
  Function.update_apply ..

@[simp, grind =] theorem change_order : (m.change id f).order = m.order := rfl

@[simp, grind =] theorem insert_calls : (m.insert id state).calls call = m.calls call := rfl

@[simp, grind =] theorem insert_workspaces :
    (m.insert id state).workspaces id' = if id' = id then some state else m.workspaces id' :=
  Function.update_apply ..

@[simp, grind =] theorem insert_order : (m.insert id state).order = m.order ++ [id] := rfl

@[simp, grind =] theorem delete_calls : (m.delete id).calls call = m.calls call := rfl

@[simp, grind =] theorem delete_workspaces :
    (m.delete id).workspaces id' = if id' = id then none else m.workspaces id' :=
  Function.update_apply ..

@[simp, grind =] theorem delete_order : (m.delete id).order = m.order.erase id := rfl

end Updates

def openingState : WorkspaceState R P where
  phase := .opening
  closeInFlight := false
  canonicalRoot := none
  trustId := none
  capabilityId := none
  effectivePolicy := none

/-- An empty path is `none`. -/
def openWorkspace (m : Manager R I P) (call : CallId) (id : WorkspaceId) (rootPath : Option R) :
    Manager R I P :=
  match rootPath, m.workspaces id with
  | none, _ => m.setCall call (.rejected .invalidArgument)
  | some _, some _ => m.setCall call (.rejected .idCollision)
  | some rootPath, none =>
    (m.insert id openingState).setCall call (.opening id (.inspecting rootPath))

/-- The catch block of `openWorkspace`. -/
def openFails (m : Manager R I P) (call : CallId) (id : WorkspaceId)
    (capability : Option CapabilityId) : Manager R I P :=
  match capability with
  | some capabilityId => (m.delete id).setCall call (.unregistering capabilityId)
  | none => (m.delete id).setCall call (.failed none)

def openAnswered (resolveProfile : P → P → Option P) (m : Manager R I P) (call : CallId)
    (id : WorkspaceId) (step : OpenStep R I P) (answer : Answer R I P) : Manager R I P :=
  match step, answer with
  | .inspecting _, .root root identity =>
    (m.change id fun state => { state with canonicalRoot := some root }).setCall call
      (.opening id (.trusting root identity))
  | .trusting root identity, .trusted trustId ceiling =>
    (m.change id fun state => { state with trustId := some trustId }).setCall call
      (.opening id (.registering root identity ceiling))
  | .registering _ _ ceiling, .capability capabilityId =>
    (m.change id fun state => { state with capabilityId := some capabilityId }).setCall call
      (.opening id (.readingProfile capabilityId ceiling))
  | .readingProfile capabilityId ceiling, .profile restriction =>
    match resolveProfile ceiling (restriction.getD ceiling) with
    | some effectivePolicy => m.setCall call (.opening id (.restricting capabilityId effectivePolicy))
    | none => m.openFails call id (some capabilityId)
  | .restricting capabilityId effectivePolicy, .acknowledged =>
    m.setCall call (.opening id (.activating capabilityId effectivePolicy))
  | .activating _ effectivePolicy, .acknowledged =>
    (m.change id fun state =>
      { state with effectivePolicy := some effectivePolicy, phase := .ready }).setCall call
        (.opened id)
  | step, _ => m.openFails call id step.capability

def closeWorkspace (m : Manager R I P) (call : CallId) (id : WorkspaceId) : Manager R I P :=
  match m.workspaces id with
  | none => m.setCall call (.rejected .notFound)
  | some state =>
    match state.capabilityId with
    | none => m.setCall call (.rejected .notReady)
    | some capabilityId =>
      if state.phase = .opening ∨ state.closeInFlight = true then
        m.setCall call (.rejected .notReady)
      else
        (m.change id fun state => { state with phase := .closing, closeInFlight := true }).setCall
          call (.closing id capabilityId .beginClose)

def closeAnswered (m : Manager R I P) (call : CallId) (id : WorkspaceId)
    (capabilityId : CapabilityId) (step : CloseStep) (answer : Answer R I P) : Manager R I P :=
  match answer with
  | .acknowledged =>
    match step.following with
    | some later => m.setCall call (.closing id capabilityId later)
    | none => (m.delete id).setCall call (.closed id)
  | _ =>
    (m.change id fun state => { state with closeInFlight := false }).setCall call
      (.rejected .closeIncomplete)

def answered (resolveProfile : P → P → Option P) (m : Manager R I P) (call : CallId)
    (answer : Answer R I P) : Option (Manager R I P) :=
  match m.calls call with
  | .opening id step => some (m.openAnswered resolveProfile call id step answer)
  | .unregistering capabilityId =>
    match answer with
    | .acknowledged => some (m.setCall call (.failed (some capabilityId)))
    | _ => some (m.setCall call (.failed none))
  | .closing id capabilityId step => some (m.closeAnswered call id capabilityId step answer)
  | _ => none

end Manager

end KodeGpt.WorkspaceManager
