import KodeGpt.ToolSessions

/-!
The manager of browser sessions alone: its map, the browsers that the driver has handed out,
and the calls that open and release sessions. An answer that is `none` or `false` is a
failure of what a call awaits.
-/

namespace KodeGpt.BrowserSessions

open JsObjects WorkspaceManager ToolSessions

/-- The status of a preview that runs and is reachable. -/
structure LiveStatus where
  url : JsText
  sourceState : EvidenceSourceStateRef

/-- What a call waits for. `rest` are the sessions that a loop has still to release, of one
workspace or of all; `browser` is the one that is being closed. A workspace that is released
keeps how many browsers had been handed out. -/
inductive Phase where
  | idle
  | inspecting (workspaceId : WorkspaceId) (previewId : PreviewId)
      (viewport : Option BrowserViewport)
  | launching (draft : SessionDraft) (disconnected : Bool)
  | releasingSession (browser : BrowserId) (fulfilled : Bool)
  | releasing (scope : Option WorkspaceId) (rest : List (WorkspaceId × PreviewId))
      (browser : Option BrowserId)
  | released (scope : Option WorkspaceId) (opened : Nat)
  | settled (fulfilled : Bool)

def Phase.closes : Phase → Option BrowserId
  | releasingSession browser _ => some browser
  | releasing _ _ browser => browser
  | _ => none

def Phase.browserClosed : Phase → Phase
  | releasingSession _ fulfilled => settled fulfilled
  | releasing scope rest _ => releasing scope rest none
  | phase => phase

/-- `browsers` run; `opened` of them have been handed out so far. -/
structure State where
  sessions : List SessionRecord
  browsers : List Browser
  opened : Nat
  calls : CallId → Phase

def start : State where
  sessions := []
  browsers := []
  opened := 0
  calls := fun _ => .idle

inductive Event where
  | openPreview (call : CallId) (workspaceId : WorkspaceId) (previewId : PreviewId)
      (viewport : Option BrowserViewport)
  | inspected (call : CallId) (status : Option LiveStatus)
  | launched (call : CallId) (fulfilled : Bool)
  | launchDisconnected (call : CallId)
  | releasePreview (call : CallId) (workspaceId : WorkspaceId) (previewId : PreviewId)
  | releaseWorkspace (call : CallId) (workspaceId : WorkspaceId)
  | close (call : CallId)
  /-- `driver.close` is answered; whether the browser has stopped. -/
  | browserClosed (call : CallId) (stopped : Bool)
  | releaseNext (call : CallId)
  | disconnected (browser : BrowserId)

namespace State

variable (s : State)

def setCall (call : CallId) (phase : Phase) : State :=
  { s with calls := Function.update s.calls call phase }

def find (workspaceId : WorkspaceId) (previewId : PreviewId) : Option SessionRecord :=
  s.sessions.find? (SessionRecord.isOf workspaceId previewId)

def deleteSession (workspaceId : WorkspaceId) (previewId : PreviewId) : State :=
  { s with sessions := s.sessions.filter fun record => !record.isOf workspaceId previewId }

/-- `releasePreview`, up to where it awaits that the browser is closed. -/
def releaseSession (call : CallId) (workspaceId : WorkspaceId) (previewId : PreviewId)
    (phase : Option BrowserId → Phase) : State :=
  match s.find workspaceId previewId with
  | some record =>
    (s.deleteSession workspaceId previewId).setCall call (phase (some record.browser))
  | none => s.setCall call (phase none)

def thenSettle (fulfilled : Bool) : Option BrowserId → Phase
  | some browser => .releasingSession browser fulfilled
  | none => .settled fulfilled

/-- The loop of `releaseWorkspace` and of `close`. -/
def releaseRest (call : CallId) (scope : Option WorkspaceId) :
    List (WorkspaceId × PreviewId) → State
  | [] => s.setCall call (.released scope s.opened)
  | key :: rest => s.releaseSession call key.1 key.2 (.releasing scope rest)

def keys (scope : Option WorkspaceId) : List (WorkspaceId × PreviewId) :=
  (s.sessions.filter fun record => scope.all (record.workspaceId = ·)).map fun record =>
    (record.workspaceId, record.previewId)

def launch (call : CallId) (draft : SessionDraft) : State :=
  { s with
    sessions := setRecord (SessionRecord.isOf draft.workspaceId draft.previewId)
      { toSessionDraft := draft, browser := s.opened } s.sessions
    browsers := s.browsers ++ [Browser.mk s.opened draft.workspaceId draft.previewId]
    opened := s.opened + 1 }.setCall call (.settled true)

/-- `openPreview`, once the preview is found live. -/
def openLive (call : CallId) (workspaceId : WorkspaceId) (previewId : PreviewId)
    (viewport : Option BrowserViewport) (parsed : PreviewOrigin)
    (sourceState : EvidenceSourceStateRef) : State :=
  match s.find workspaceId previewId with
  | some existing =>
    if existing.url ≠ parsed.url ∨ existing.origin ≠ parsed.origin then
      s.releaseSession call workspaceId previewId (thenSettle false)
    else s.setCall call (.settled true)
  | none =>
    if maxBrowserSessions ≤ s.sessions.length then s.setCall call (.settled false)
    else
      match validateViewport viewport with
      | none => s.setCall call (.settled false)
      | some viewport =>
        s.setCall call (.launching ⟨workspaceId, previewId, parsed.url, parsed.origin, viewport,
          sourceState⟩ false)

/-- `onDisconnect` deletes whatever session is kept under the key. -/
def disconnect (browser : Browser) : State :=
  { s.deleteSession browser.workspaceId browser.previewId with
    browsers := s.browsers.filter fun other => other.id ≠ browser.id }

def enter (call : CallId) (next : State) : Option State :=
  match s.calls call with
  | .idle => some next
  | _ => none

end State

section Steps

variable {P : Type} (settings : Settings P)

def next (s : State) : Event → Option State
  | .openPreview call workspaceId previewId viewport =>
    s.enter call (s.setCall call (.inspecting workspaceId previewId viewport))
  | .inspected call status =>
    match s.calls call with
    | .inspecting workspaceId previewId viewport =>
      match status.bind fun live => (parsePreviewOrigin settings live.url).map fun parsed =>
        (parsed, live.sourceState) with
      | some (parsed, sourceState) =>
        some (s.openLive call workspaceId previewId viewport parsed sourceState)
      | none => some (s.setCall call (.settled false))
    | _ => none
  | .launched call fulfilled =>
    match s.calls call with
    | .launching draft false =>
      if fulfilled then some (s.launch call draft) else some (s.setCall call (.settled false))
    | .launching _ true => some (s.setCall call (.settled false))
    | _ => none
  | .launchDisconnected call =>
    match s.calls call with
    | .launching draft false =>
      some ((s.deleteSession draft.workspaceId draft.previewId).setCall call
        (.launching draft true))
    | _ => none
  | .releasePreview call workspaceId previewId =>
    s.enter call (s.releaseSession call workspaceId previewId (State.thenSettle true))
  | .releaseWorkspace call workspaceId =>
    s.enter call (s.releaseRest call (some workspaceId) (s.keys (some workspaceId)))
  | .close call => s.enter call (s.releaseRest call none (s.keys none))
  | .browserClosed call stopped =>
    match (s.calls call).closes with
    | some browser =>
      let browsers :=
        if stopped then s.browsers.filter fun other => other.id ≠ browser else s.browsers
      some ({ s with browsers }.setCall call (s.calls call).browserClosed)
    | none => none
  | .releaseNext call =>
    match s.calls call with
    | .releasing scope rest none => some (s.releaseRest call scope rest)
    | _ => none
  | .disconnected browser =>
    (s.browsers.find? fun other => other.id = browser).map s.disconnect

end Steps

end KodeGpt.BrowserSessions
