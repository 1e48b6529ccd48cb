import KodeGpt.PreviewBrowsers
import KodeGpt.WorkspaceUntrusting

/-!
The previews and the browser sessions of one tool context, beside the workspaces that they
are of. Three managers keep a map each; a tool call gives up control wherever it awaits, and
other calls go on there. A call whose input does not pass its validation has no effect.
-/

namespace KodeGpt.ToolSessions

open CheckpointRecords JsFrames JsObjects WorkspaceManager WorkspaceUntrusting
open JsonText (Bytes)
open PreviewBrowsers (Url)

abbrev PreviewId := JsText
abbrev OperationId := String
abbrev BrowserId := Nat

def maxPreviewSessions : Nat := 32

def maxBrowserSessions : Nat := 8

/-- What the managers are given; `href` and `normalizedPath` are of a parsed `URL`. -/
structure Settings (P : Type) where
  manager : WorkspaceUntrusting.Settings P
  parseUrl : JsText → Option Url
  href : JsText → JsText
  normalizedPath : JsText → Option JsText

variable {P : Type}

structure PreviewStartInput where
  workspaceId : WorkspaceId
  logicalExecutable : JsText
  port : Int
  requestPath : Option JsText
  waitMs : Option Int

structure EvidenceSourceStateRef where
  headOid : HeadOid
  changesFingerprint : Fingerprint

structure PreviewRecord where
  previewId : PreviewId
  workspaceId : WorkspaceId
  operationId : OperationId
  port : Int
  requestPath : JsText
  url : JsText
  sourceState : EvidenceSourceStateRef

structure BrowserViewport where
  width : Int
  height : Int

/-- A session that is being opened has no browser yet. -/
structure SessionDraft where
  workspaceId : WorkspaceId
  previewId : PreviewId
  url : JsText
  origin : JsText
  viewport : BrowserViewport
  sourceState : EvidenceSourceStateRef

structure SessionRecord extends SessionDraft where
  browser : BrowserId

/-- A browser that the driver has handed out and that runs. -/
structure Browser where
  id : BrowserId
  workspaceId : WorkspaceId
  previewId : PreviewId

def validateStartInput (settings : Settings P) (input : PreviewStartInput) : Bool :=
  let requestPath := input.requestPath.getD (asciiUnits "/")
  let waitMs := input.waitMs.getD 3000
  input.workspaceId ≠ "" && !input.logicalExecutable.isEmpty &&
    1024 ≤ input.port && input.port ≤ 65535 &&
    settings.normalizedPath requestPath = some requestPath &&
    (asciiUnits "/").isPrefixOf requestPath && !(asciiUnits "//").isPrefixOf requestPath &&
    utf8Length requestPath ≤ 2048 && !requestPath.contains 35 &&
    requestPath.all (fun unit => 31 < unit && unit ≠ 127) && 0 ≤ waitMs && waitMs ≤ 10000

def isPreviewId (text : JsText) : Bool :=
  (asciiUnits "pv_").isPrefixOf text && text.length = 35 && (text.drop 3).all isLowerHex

def validateEvidenceSourceStateRef (headOid changesFingerprint : JsText) :
    Option EvidenceSourceStateRef :=
  if h : isLowerHeadOid headOid = true ∧ isFingerprint changesFingerprint = true then
    some ⟨⟨headOid, h.1⟩, ⟨changesFingerprint, h.2⟩⟩
  else none

def validateViewport (viewport : Option BrowserViewport) : Option BrowserViewport :=
  let candidate := viewport.getD ⟨1280, 720⟩
  if candidate.width < 320 ∨ 3840 < candidate.width ∨ candidate.height < 240 ∨
      2160 < candidate.height then none
  else some candidate

structure PreviewOrigin where
  url : JsText
  origin : JsText
  deriving DecidableEq

def parsePreviewOrigin (settings : Settings P) (urlText : JsText) : Option PreviewOrigin :=
  match settings.parseUrl urlText with
  | none => none
  | some url =>
    if url.protocol ≠ asciiUnits "http:" ∨ url.hostname ≠ asciiUnits "127.0.0.1" ∨
        url.username ≠ [] ∨ url.password ≠ [] then none
    else some ⟨settings.href urlText, url.origin⟩

/-- `Map.set`: a record under the same key is replaced where it stands. -/
def setRecord {α : Type} (same : α → Bool) (record : α) (records : List α) : List α :=
  if records.any same then records.map fun other => if same other then record else other
  else records ++ [record]

def SessionRecord.isOf (workspaceId : WorkspaceId) (previewId : PreviewId)
    (record : SessionRecord) : Bool :=
  record.workspaceId = workspaceId && record.previewId = previewId

inductive BrowserTool where
  | inspect
  | click
  | type
  | screenshot
  | console
  | networkFailures
  deriving DecidableEq

/-- What a call of the browser manager wants of the live preview. -/
inductive BrowserRequest where
  | openPreview (viewport : Option BrowserViewport)
  | use (tool : BrowserTool) (session : SessionRecord)

/-- What a tool call waits for. Where it releases a session, `browser` is the one that it
closes; where it prunes, `asked` tells whether the status of the preview was asked for. -/
inductive Phase where
  | idle
  | opening (inner : CallId)
  | untrusting (inner : CallId)
  | closing (workspaceId : WorkspaceId) (inner : CallId)
  | releasing (workspaceId : WorkspaceId) (rest : List PreviewId) (browser : Option BrowserId)
  | releasingPreviews (workspaceId : WorkspaceId)
  | pruning (input : PreviewStartInput) (seen : List PreviewId) (previewId : PreviewId)
      (asked : Bool)
  | checkingPort (input : PreviewStartInput)
  | resolving (input : PreviewStartInput) (previewId : PreviewId)
  | running (input : PreviewStartInput) (previewId : PreviewId)
      (sourceState : EvidenceSourceStateRef)
  | awaitingReadiness
  | stoppingBrowser (workspaceId : WorkspaceId) (previewId : PreviewId)
      (browser : Option BrowserId)
  | stopping (previewId : PreviewId)
  | inspecting (request : BrowserRequest) (record : PreviewRecord)
  | launching (draft : SessionDraft) (disconnected : Bool)
  | acting (tool : BrowserTool) (session : SessionRecord)
  | releasingSession (browser : BrowserId)
  | settled (fulfilled : Bool)

def Phase.closes : Phase → Option BrowserId
  | releasing _ _ browser | stoppingBrowser _ _ browser => browser
  | releasingSession browser => some browser
  | _ => none

def Phase.browserClosed : Phase → Phase
  | releasing workspaceId rest _ => releasing workspaceId rest none
  | stoppingBrowser workspaceId previewId _ => stoppingBrowser workspaceId previewId none
  | _ => settled false

def Phase.isSettled : Phase → Bool
  | settled _ => true
  | _ => false

/-- `begun` are the tool calls so far. -/
structure ToolContext (P : Type) where
  core : System P
  previews : List PreviewRecord
  pendingStarts : Nat
  sessions : List SessionRecord
  browsers : List Browser
  calls : CallId → Phase
  begun : List CallId

/-- The calls of the workspace manager and what it awaits go on by `core`. An answer that is
`none` or `false` is a failure of what the call awaits. -/
inductive Event (P : Type) where
  | core (event : WorkspaceUntrusting.Event P)
  | openWorkspace (call inner : CallId) (id : WorkspaceId) (rootPath : Option Bytes)
  | untrustWorkspace (call inner : CallId) (trustId : TrustId)
  | closeWorkspace (call inner : CallId) (workspaceId : WorkspaceId)
  /-- The call of the workspace manager is over. -/
  | answered (call : CallId)
  | releaseNext (call : CallId)
  | releasePreviews (call : CallId)
  | browserClosed (call : CallId) (stopped : Bool)
  | start (call : CallId) (input : PreviewStartInput)
  | pruned (call : CallId) (running : Option Bool)
  | portChecked (call : CallId) (inUse : Option Bool) (previewId : PreviewId)
  | resolved (call : CallId) (sourceState : Option (JsText × JsText))
  | started (call : CallId) (operationId : Option OperationId)
  | readinessAwaited (call : CallId) (fulfilled : Bool)
  | stop (call : CallId) (workspaceId : WorkspaceId) (previewId : PreviewId)
  | stopPreview (call : CallId)
  | stopped (call : CallId) (fulfilled : Bool)
  | openPreview (call : CallId) (workspaceId : WorkspaceId) (previewId : PreviewId)
      (viewport : Option BrowserViewport)
  | useBrowser (call : CallId) (tool : BrowserTool) (workspaceId : WorkspaceId)
      (previewId : PreviewId)
  /-- Whether the preview runs and is reachable. -/
  | inspected (call : CallId) (live : Bool)
  | launched (call : CallId) (browser : Option BrowserId)
  | launchDisconnected (call : CallId)
  /-- The URL of the page where the browser has done what it was asked for. -/
  | acted (call : CallId) (page : Option JsText)
  | disconnected (browser : BrowserId)

namespace ToolContext

variable (settings : Settings P) (s : ToolContext P)

def started (file : TrustStore.TrustFile) (checkpoints : TrustId → StoredFile) :
    ToolContext P where
  core := System.started file checkpoints
  previews := []
  pendingStarts := 0
  sessions := []
  browsers := []
  calls := fun _ => .idle
  begun := []

def setCall (call : CallId) (phase : Phase) : ToolContext P :=
  { s with calls := Function.update s.calls call phase }

def enter (call : CallId) : Option (ToolContext P) :=
  match s.calls call with
  | .idle => some { s with begun := s.begun ++ [call] }
  | _ => none

def lookup (workspaceId : WorkspaceId) (previewId : PreviewId) : Option PreviewRecord :=
  (s.previews.find? fun record => record.previewId = previewId).filter fun record =>
    record.workspaceId = workspaceId

def deletePreview (previewId : PreviewId) : ToolContext P :=
  { s with previews := s.previews.filter fun record => record.previewId ≠ previewId }

/-- The loop of `#reserveStartSlot`, from the first preview that it has not seen. -/
def reserveStartSlot (call : CallId) (input : PreviewStartInput) (seen : List PreviewId) :
    ToolContext P :=
  if s.previews.length + s.pendingStarts < maxPreviewSessions then
    { s with pendingStarts := s.pendingStarts + 1 }.setCall call (.checkingPort input)
  else
    match s.previews.find? fun record => !seen.contains record.previewId with
    | some record => s.setCall call (.pruning input (record.previewId :: seen) record.previewId
        (isReady s.core.manager record.workspaceId))
    | none => s.setCall call (.settled false)

/-- `start` fails after it has got its slot. -/
def failStart (call : CallId) : ToolContext P :=
  { s with pendingStarts := s.pendingStarts - 1 }.setCall call (.settled false)

def releaseWorkspacePreviews (workspaceId : WorkspaceId) : ToolContext P :=
  { s with previews := s.previews.filter fun record => record.workspaceId ≠ workspaceId }

def deleteSession (workspaceId : WorkspaceId) (previewId : PreviewId) : ToolContext P :=
  { s with sessions := s.sessions.filter fun record => !record.isOf workspaceId previewId }

/-- `releasePreview`, up to where it awaits that the browser is closed. -/
def releaseSession (call : CallId) (workspaceId : WorkspaceId) (previewId : PreviewId)
    (phase : Option BrowserId → Phase) : ToolContext P :=
  match s.sessions.find? (SessionRecord.isOf workspaceId previewId) with
  | some record =>
    (s.deleteSession workspaceId previewId).setCall call (phase (some record.browser))
  | none => s.setCall call (phase none)

def releaseThenReject : Option BrowserId → Phase
  | some browser => .releasingSession browser
  | none => .settled false

def inspectLivePreview (call : CallId) (workspaceId : WorkspaceId) (previewId : PreviewId)
    (request : BrowserRequest) : ToolContext P :=
  match s.lookup workspaceId previewId with
  | none => s.setCall call (.settled false)
  | some record =>
    if isReady s.core.manager workspaceId then s.setCall call (.inspecting request record)
    else s.setCall call (.settled false)

/-- `openPreview`, once the preview is found live. -/
def openLive (call : CallId) (record : PreviewRecord) (parsed : PreviewOrigin)
    (viewport : Option BrowserViewport) : ToolContext P :=
  match s.sessions.find? (SessionRecord.isOf record.workspaceId record.previewId) with
  | some existing =>
    if existing.url ≠ parsed.url ∨ existing.origin ≠ parsed.origin then
      s.releaseSession call record.workspaceId record.previewId releaseThenReject
    else s.setCall call (.settled true)
  | none =>
    if maxBrowserSessions ≤ s.sessions.length then s.setCall call (.settled false)
    else
      match validateViewport viewport with
      | none => s.setCall call (.settled false)
      | some viewport =>
        s.setCall call (.launching ⟨record.workspaceId, record.previewId, parsed.url,
          parsed.origin, viewport, record.sourceState⟩ false)

/-- `#requireLiveSession`, once the preview is found live. -/
def useLive (call : CallId) (parsed : PreviewOrigin) (tool : BrowserTool)
    (session : SessionRecord) : ToolContext P :=
  if parsed.url ≠ session.url ∨ parsed.origin ≠ session.origin then
    s.releaseSession call session.workspaceId session.previewId releaseThenReject
  else s.setCall call (.acting tool session)

def actedOn (call : CallId) (tool : BrowserTool) (session : SessionRecord) (page : JsText) :
    ToolContext P :=
  match tool with
  | .inspect =>
    match parsePreviewOrigin settings page with
    | none => s.setCall call (.settled false)
    | some current =>
      if current.origin ≠ session.origin then
        s.releaseSession call session.workspaceId session.previewId releaseThenReject
      else s.setCall call (.settled true)
  | _ => s.setCall call (.settled true)

def disconnect (browser : Browser) : ToolContext P :=
  { s.deleteSession browser.workspaceId browser.previewId with
    browsers := s.browsers.filter fun other => other.id ≠ browser.id }

def delegate (call : CallId) (event : WorkspaceUntrusting.Event P) (phase : Phase) :
    Option (ToolContext P) :=
  (s.enter call).bind fun s => (s.core.next settings.manager event).map fun core =>
    { s with core }.setCall call phase

/-- The manager is called by `openWorkspace`, `untrustWorkspace` and `closeWorkspace` only. -/
def isToolCall : WorkspaceUntrusting.Event P → Bool
  | .openWorkspace _ _ _ | .untrustWorkspace _ _ | .closeWorkspace _ _ => true
  | _ => false

def answered (call : CallId) : Option (ToolContext P) :=
  match s.calls call with
  | .opening inner =>
    match s.core.manager.calls inner with
    | .opened _ => some (s.setCall call (.settled true))
    | .failed _ | .rejected _ => some (s.setCall call (.settled false))
    | _ => none
  | .untrusting inner =>
    match s.core.untrusts inner with
    | .untrusted _ _ => some (s.setCall call (.settled true))
    | .rejected => some (s.setCall call (.settled false))
    | _ => none
  | .closing workspaceId inner =>
    match s.core.manager.calls inner with
    | .closed _ => some (s.setCall call (.releasing workspaceId
        ((s.sessions.filter fun record => record.workspaceId = workspaceId).map fun record =>
          record.previewId) none))
    | .rejected _ => some (s.setCall call (.settled false))
    | _ => none
  | _ => none

def next : Event P → Option (ToolContext P)
  | .core event =>
    if isToolCall event then none
    else (s.core.next settings.manager event).map fun core => { s with core }
  | .openWorkspace call inner id rootPath =>
    s.delegate settings call (.openWorkspace inner id rootPath) (.opening inner)
  | .untrustWorkspace call inner trustId =>
    s.delegate settings call (.untrustWorkspace inner trustId) (.untrusting inner)
  | .closeWorkspace call inner workspaceId =>
    s.delegate settings call (.closeWorkspace inner workspaceId) (.closing workspaceId inner)
  | .answered call => s.answered call
  | .releaseNext call =>
    match s.calls call with
    | .releasing workspaceId [] none => some (s.setCall call (.releasingPreviews workspaceId))
    | .releasing workspaceId (previewId :: rest) none =>
      some (s.releaseSession call workspaceId previewId (.releasing workspaceId rest))
    | _ => none
  | .releasePreviews call =>
    match s.calls call with
    | .releasingPreviews workspaceId =>
      some ((s.releaseWorkspacePreviews workspaceId).setCall call (.settled true))
    | _ => none
  | .browserClosed call stopped =>
    match (s.calls call).closes with
    | some browser =>
      let browsers :=
        if stopped then s.browsers.filter fun other => other.id ≠ browser else s.browsers
      some ({ s with browsers }.setCall call (s.calls call).browserClosed)
    | none => none
  | .start call input =>
    (s.enter call).map fun s =>
      if validateStartInput settings input then s.reserveStartSlot call input []
      else s.setCall call (.settled false)
  | .pruned call running =>
    match s.calls call with
    | .pruning input seen previewId asked =>
      if asked = true ∧ running = some false then
        some ((s.deletePreview previewId).reserveStartSlot call input seen)
      else some (s.reserveStartSlot call input seen)
    | _ => none
  | .portChecked call inUse previewId =>
    match s.calls call with
    | .checkingPort input =>
      if inUse = some false ∧ isPreviewId previewId = true ∧
          (s.previews.any fun record => record.previewId = previewId) = false ∧
          isReady s.core.manager input.workspaceId = true then
        some (s.setCall call (.resolving input previewId))
      else some (s.failStart call)
    | _ => none
  | .resolved call sourceState =>
    match s.calls call with
    | .resolving input previewId =>
      match sourceState.bind fun value => validateEvidenceSourceStateRef value.1 value.2 with
      | some sourceState =>
        if isReady s.core.manager input.workspaceId then
          some (s.setCall call (.running input previewId sourceState))
        else some (s.failStart call)
      | none => some (s.failStart call)
    | _ => none
  | .started call operationId =>
    match s.calls call, operationId with
    | .running input previewId sourceState, some operationId =>
      let requestPath := input.requestPath.getD (asciiUnits "/")
      let record : PreviewRecord :=
        { previewId, workspaceId := input.workspaceId, operationId, port := input.port
          requestPath, sourceState
          url := asciiUnits ("http://127.0.0.1:" ++ toString input.port) ++ requestPath }
      some ({ s with
        previews := setRecord (fun other => other.previewId = previewId) record s.previews
        pendingStarts := s.pendingStarts - 1 }.setCall call .awaitingReadiness)
    | .running _ _ _, none => some (s.failStart call)
    | _, _ => none
  | .readinessAwaited call fulfilled =>
    match s.calls call with
    | .awaitingReadiness => some (s.setCall call (.settled fulfilled))
    | _ => none
  | .stop call workspaceId previewId =>
    (s.enter call).map fun s =>
      s.releaseSession call workspaceId previewId (.stoppingBrowser workspaceId previewId)
  | .stopPreview call =>
    match s.calls call with
    | .stoppingBrowser workspaceId previewId none =>
      if (s.lookup workspaceId previewId).isSome ∧ isReady s.core.manager workspaceId = true then
        some (s.setCall call (.stopping previewId))
      else some (s.setCall call (.settled false))
    | _ => none
  | .stopped call fulfilled =>
    match s.calls call with
    | .stopping previewId =>
      if fulfilled then some ((s.deletePreview previewId).setCall call (.settled true))
      else some (s.setCall call (.settled false))
    | _ => none
  | .openPreview call workspaceId previewId viewport =>
    (s.enter call).map fun s =>
      s.inspectLivePreview call workspaceId previewId (.openPreview viewport)
  | .useBrowser call tool workspaceId previewId =>
    (s.enter call).map fun s =>
      match s.sessions.find? (SessionRecord.isOf workspaceId previewId) with
      | none => s.setCall call (.settled false)
      | some session => s.inspectLivePreview call workspaceId previewId (.use tool session)
  | .inspected call live =>
    match s.calls call with
    | .inspecting request record =>
      match (if live then parsePreviewOrigin settings record.url else none), request with
      | none, _ => some (s.setCall call (.settled false))
      | some parsed, .openPreview viewport => some (s.openLive call record parsed viewport)
      | some parsed, .use tool session => some (s.useLive call parsed tool session)
    | _ => none
  | .launched call browser =>
    match s.calls call, browser with
    | .launching _ _, none | .launching _ true, some _ => some (s.setCall call (.settled false))
    | .launching draft false, some browser =>
      if s.browsers.any fun other => other.id = browser then none
      else
        let record : SessionRecord := { toSessionDraft := draft, browser }
        some ({ s with
          sessions := setRecord (SessionRecord.isOf draft.workspaceId draft.previewId) record
            s.sessions
          browsers := s.browsers ++ [Browser.mk browser draft.workspaceId draft.previewId] }.setCall
            call (.settled true))
    | _, _ => none
  | .launchDisconnected call =>
    match s.calls call with
    | .launching draft false =>
      some ((s.deleteSession draft.workspaceId draft.previewId).setCall call
        (.launching draft true))
    | _ => none
  | .acted call page =>
    match s.calls call, page with
    | .acting _ _, none => some (s.setCall call (.settled false))
    | .acting tool session, some page => some (s.actedOn settings call tool session page)
    | _, _ => none
  | .disconnected browser =>
    (s.browsers.find? fun other => other.id = browser).map s.disconnect

end ToolContext

end KodeGpt.ToolSessions
