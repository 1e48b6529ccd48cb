import KodeGpt.ToolSessions

/-!
The manager of previews alone: its map, the starts that have reserved a slot in it, and the
calls that go on where what they await is answered. An answer that is `none` or `false` is a
failure of what a call awaits.
-/

namespace KodeGpt.PreviewSlots

open JsObjects WorkspaceManager ToolSessions

/-- A preview in the map: its place, the call that put it there, and its record. -/
structure Entry where
  place : Nat
  startedBy : CallId
  record : PreviewRecord

/-- What a call waits for. While it prunes, places below `passed` are behind it. -/
inductive Phase where
  | idle
  | pruning (input : PreviewStartInput) (passed : Nat) (previewId : PreviewId)
  | checkingPort (input : PreviewStartInput)
  | resolving (input : PreviewStartInput) (previewId : PreviewId)
  | running (input : PreviewStartInput) (previewId : PreviewId)
      (sourceState : EvidenceSourceStateRef)
  | awaitingReadiness
  | inspecting (record : PreviewRecord)
  | probing (record : PreviewRecord)
  | stopping (record : PreviewRecord)
  | cancelling (record : PreviewRecord)
  | settled (fulfilled : Bool)

def Phase.input : Phase → Option PreviewStartInput
  | pruning input _ _ | checkingPort input | resolving input _ | running input _ _ => some input
  | _ => none

def Phase.holdsSlot : Phase → Bool
  | checkingPort _ | resolving _ _ | running _ _ _ => true
  | _ => false

/-- `placed` are the places handed out so far, and `begun` the calls. -/
structure State where
  previews : List Entry
  placed : Nat
  pendingStarts : Nat
  calls : CallId → Phase
  begun : List CallId

def start : State where
  previews := []
  placed := 0
  pendingStarts := 0
  calls := fun _ => .idle
  begun := []

inductive Event where
  | start (call : CallId) (input : PreviewStartInput)
  /-- The status of the operation of a preview that might be pruned. -/
  | pruned (call : CallId) (running : Option Bool)
  | portChecked (call : CallId) (inUse : Option Bool) (previewId : PreviewId)
  | resolved (call : CallId) (sourceState : Option (JsText × JsText))
  | started (call : CallId) (operationId : Option OperationId)
  | inspect (call : CallId) (workspaceId : WorkspaceId) (previewId : PreviewId)
  | stop (call : CallId) (workspaceId : WorkspaceId) (previewId : PreviewId)
  /-- The status of the operation of a preview that is inspected or stopped. -/
  | status (call : CallId) (running : Option Bool)
  /-- A probe, a cancellation or the wait for readiness is over. -/
  | answered (call : CallId) (fulfilled : Bool)
  | releaseWorkspace (workspaceId : WorkspaceId)

namespace State

variable (s : State)

def setCall (call : CallId) (phase : Phase) : State :=
  { s with calls := Function.update s.calls call phase }

def enter (call : CallId) : Option State :=
  match s.calls call with
  | .idle => some { s with begun := s.begun ++ [call] }
  | _ => none

def lookup (workspaceId : WorkspaceId) (previewId : PreviewId) : Option PreviewRecord :=
  ((s.previews.find? fun entry => entry.record.previewId = previewId).map Entry.record).filter
    fun record => record.workspaceId = workspaceId

def deletePreview (previewId : PreviewId) : State :=
  { s with previews := s.previews.filter fun entry => entry.record.previewId ≠ previewId }

/-- `Map.set`: a record under the same key is replaced where it stands. -/
def setPreview (call : CallId) (record : PreviewRecord) : State :=
  if s.previews.any fun entry => entry.record.previewId = record.previewId then
    { s with previews := s.previews.map fun entry =>
        if entry.record.previewId = record.previewId then ⟨entry.place, call, record⟩ else entry }
  else { s with previews := s.previews ++ [⟨s.placed, call, record⟩], placed := s.placed + 1 }

/-- The rest of `#reserveStartSlot`, with the places that the iteration has passed. -/
def reserveStartSlot (call : CallId) (input : PreviewStartInput) (passed : Nat) : State :=
  if s.previews.length + s.pendingStarts < maxPreviewSessions then
    { s with pendingStarts := s.pendingStarts + 1 }.setCall call (.checkingPort input)
  else
    match s.previews.find? fun entry => passed ≤ entry.place with
    | some entry => s.setCall call (.pruning input (entry.place + 1) entry.record.previewId)
    | none => s.setCall call (.settled false)

/-- `start` fails with its slot reserved. -/
def failStart (call : CallId) : State :=
  { s with pendingStarts := s.pendingStarts - 1 }.setCall call (.settled false)

def previewRecord (input : PreviewStartInput) (previewId : PreviewId)
    (sourceState : EvidenceSourceStateRef) (operationId : OperationId) : PreviewRecord :=
  let requestPath := input.requestPath.getD (JsFrames.asciiUnits "/")
  { previewId, workspaceId := input.workspaceId, operationId, port := input.port, requestPath
    sourceState
    url := JsFrames.asciiUnits ("http://127.0.0.1:" ++ toString input.port) ++ requestPath }

/-- `start` puts down its record and gives back its slot. -/
def finishStart (call : CallId) (record : PreviewRecord) : State :=
  { s.setPreview call record with pendingStarts := s.pendingStarts - 1 }.setCall call
    .awaitingReadiness

def releaseWorkspace (workspaceId : WorkspaceId) : State :=
  { s with previews := s.previews.filter fun entry => entry.record.workspaceId ≠ workspaceId }

end State

section Steps

variable {P : Type} (settings : Settings P)

def next (s : State) : Event → Option State
  | .start call input =>
    (s.enter call).map fun s =>
      if validateStartInput settings input then s.reserveStartSlot call input 0
      else s.setCall call (.settled false)
  | .pruned call running =>
    match s.calls call with
    | .pruning input passed previewId =>
      if running = some false then
        some ((s.deletePreview previewId).reserveStartSlot call input passed)
      else some (s.reserveStartSlot call input passed)
    | _ => none
  | .portChecked call inUse previewId =>
    match s.calls call with
    | .checkingPort input =>
      if inUse = some false ∧ isPreviewId previewId = true ∧
          (s.previews.any fun entry => entry.record.previewId = previewId) = false then
        some (s.setCall call (.resolving input previewId))
      else some (s.failStart call)
    | _ => none
  | .resolved call sourceState =>
    match s.calls call with
    | .resolving input previewId =>
      match sourceState.bind fun value => validateEvidenceSourceStateRef value.1 value.2 with
      | some sourceState => some (s.setCall call (.running input previewId sourceState))
      | none => some (s.failStart call)
    | _ => none
  | .started call operationId =>
    match s.calls call, operationId with
    | .running input previewId sourceState, some operationId =>
      some (s.finishStart call (State.previewRecord input previewId sourceState operationId))
    | .running _ _ _, none => some (s.failStart call)
    | _, _ => none
  | .inspect call workspaceId previewId =>
    (s.enter call).map fun s =>
      match s.lookup workspaceId previewId with
      | some record => s.setCall call (.inspecting record)
      | none => s.setCall call (.settled false)
  | .stop call workspaceId previewId =>
    (s.enter call).map fun s =>
      match s.lookup workspaceId previewId with
      | some record => s.setCall call (.stopping record)
      | none => s.setCall call (.settled false)
  | .status call running =>
    match s.calls call, running with
    | .inspecting _, none | .stopping _, none => some (s.setCall call (.settled false))
    | .inspecting record, some true => some (s.setCall call (.probing record))
    | .inspecting _, some false => some (s.setCall call (.settled true))
    | .stopping record, some true => some (s.setCall call (.cancelling record))
    | .stopping record, some false =>
      some ((s.deletePreview record.previewId).setCall call (.settled true))
    | _, _ => none
  | .answered call fulfilled =>
    match s.calls call with
    | .cancelling record =>
      if fulfilled then some ((s.deletePreview record.previewId).setCall call (.settled true))
      else some (s.setCall call (.settled false))
    | .awaitingReadiness | .probing _ => some (s.setCall call (.settled fulfilled))
    | _ => none
  | .releaseWorkspace workspaceId => some (s.releaseWorkspace workspaceId)

end Steps

end KodeGpt.PreviewSlots
