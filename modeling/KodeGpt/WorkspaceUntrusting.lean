import KodeGpt.CheckpointStoreRuns
import KodeGpt.TrustStoreRuns
import KodeGpt.WorkspaceManager

/-!
The workspace manager with the document of trusted workspaces and the store of
checkpoints. Calls of `openWorkspace`, `closeWorkspace`, `trustWorkspace`,
`untrustWorkspace` and `checkpointWorkspace` give up control wherever they wait;
`untrustWorkspace` works on the workspaces that it has found bound at first. Of
`trustWorkspace` it is the call of the trust document that has an effect.
-/

namespace KodeGpt.WorkspaceUntrusting

open CheckpointRecords JsonText TransitionSystem TrustStore WorkspaceContexts WorkspaceManager
open CheckpointStoreRuns (StoreRun StoreEvent)
open JsFrames (JsValue)
open TrustStoreRuns (TrustRun TrustEvent)

abbrev Entries := List TrustedWorkspaceEntry

variable {P : Type}

structure Settings (P : Type) where
  locale : LocaleOrder
  getProfilePreset : ProfileCeiling → P
  resolveProfile : P → P → Option P

/-- `untrusted` is the call that has resolved. `listed` are the entries that it
has found in the document, and `inner` the call of the manager, of the store or
of the document that it waits for. -/
inductive UntrustPhase where
  | idle
  | listing (id : TrustId) (read : Option (Except TrustStoreError Entries))
  | auditing (id : TrustId) (listed : Entries) (bound : List WorkspaceId)
  | closing (id : TrustId) (listed : Entries) (inner : CallId) (bound : List WorkspaceId)
  | purging (id : TrustId) (listed : Entries) (inner : CallId)
  | removing (id : TrustId) (listed : Entries) (inner : CallId)
  | succeeding (id : TrustId) (listed : Entries)
  | failing
  | untrusted (id : TrustId) (listed : Entries)
  | rejected

/-- What `checkpointWorkspace` is asked for. -/
inductive Mutation where
  | upsert (checkpoint capturedSourceState expectedRevision : JsValue)
  | clear (expectedRevision : JsValue)

def Mutation.request : Mutation → Request
  | .upsert checkpoint capturedSourceState expectedRevision =>
    .upsert checkpoint capturedSourceState expectedRevision
  | .clear expectedRevision => .clear expectedRevision

inductive MutationPhase where
  | idle
  | auditing (trustId : TrustId) (mutation : Mutation)
  | storing (trustId : TrustId) (inner : CallId)
  | succeeding
  | failing
  | resolved
  | rejected

/-- `reads` holds what `requireTrusted` has read for a call. `begun` are the
untrusting calls so far, and `known` the trust ids that the document has had or
that such a call has been given. -/
structure System (P : Type) where
  manager : Manager Bytes PersistentFilesystemIdentity P
  reads : CallId → Option (Except TrustStoreError Entries)
  trust : TrustRun
  checkpoints : TrustId → StoreRun
  untrusts : CallId → UntrustPhase
  mutations : CallId → MutationPhase
  begun : List CallId
  known : List TrustId

inductive Event (P : Type) where
  | openWorkspace (call : CallId) (id : WorkspaceId) (rootPath : Option Bytes)
  | closeWorkspace (call : CallId) (id : WorkspaceId)
  | answer (call : CallId) (answer : Answer Bytes PersistentFilesystemIdentity P)
  | requireTrusted (call : CallId) (fails : Bool)
  | trusted (call : CallId)
  | trustWorkspace (call : CallId) (input : TrustInput) (freshId now : Bytes)
  | trustRead (call : CallId) (fails : Bool)
  | trustWrite (call : CallId) (fails : Bool)
  | untrustWorkspace (call : CallId) (id : TrustId)
  | listTrusted (call : CallId) (fails : Bool)
  | untrustListed (call : CallId)
  | untrustAudited (call : CallId) (acknowledged : Bool) (inner : CallId)
  | untrustClosed (call inner : CallId)
  | untrustPurged (call inner : CallId)
  | untrustRemoved (call : CallId)
  | untrustReported (call : CallId) (acknowledged : Bool)
  | checkpointWorkspace (call : CallId) (id : WorkspaceId) (mutation : Mutation)
  | checkpointAudited (call : CallId) (acknowledged : Bool) (inner : CallId)
  | checkpointStored (call : CallId)
  | checkpointReported (call : CallId) (acknowledged : Bool)
  | store (id : TrustId) (event : StoreEvent)

def readTrust (file : TrustFile) (fails : Bool) : Except TrustStoreError Entries :=
  if fails then .error .io else readDocument file

/-- The entry that `requireTrusted` finds among the entries it has read. -/
def trustedBy (entries : Entries) (root : Bytes) (identity : PersistentFilesystemIdentity) :
    Option TrustedWorkspaceEntry :=
  match validateIdentity identity with
  | .error _ => none
  | .ok _ => (entries.find? fun entry => entry.canonicalRoot = root).filter fun entry =>
    entry.identity = identity

def requireTrusted (settings : Settings P) (read : Except TrustStoreError Entries) (root : Bytes)
    (identity : PersistentFilesystemIdentity) : Answer Bytes PersistentFilesystemIdentity P :=
  match read with
  | .error _ => .failure
  | .ok entries =>
    match trustedBy entries root identity with
    | some entry => .trusted entry.id (settings.getProfilePreset entry.profileCeiling)
    | none => .failure

def isTrusting : CallPhase Bytes PersistentFilesystemIdentity P → Bool
  | .opening _ (.trusting _ _) => true
  | _ => false

def isIdle : CallPhase Bytes PersistentFilesystemIdentity P → Bool
  | .idle => true
  | _ => false

def boundTo (id : TrustId) (root : Option Bytes) (state : WorkspaceState Bytes P) : Bool :=
  state.trustId == some id || (root.isSome && state.canonicalRoot == root)

/-- The workspaces that `untrustWorkspace` finds bound. -/
def boundWorkspaces (m : Manager Bytes PersistentFilesystemIdentity P) (id : TrustId)
    (listed : Entries) : List WorkspaceId :=
  let root := (listed.find? fun entry => entry.id = id).map TrustedWorkspaceEntry.canonicalRoot
  m.order.filter fun workspace => (m.workspaces workspace).any (boundTo id root)

def isReady (m : Manager Bytes PersistentFilesystemIdentity P) (workspace : WorkspaceId) : Bool :=
  (m.workspaces workspace).any fun state => state.phase == .ready

namespace System

variable (settings : Settings P) (s : System P)

def started (file : TrustFile) (checkpoints : TrustId → StoredFile) : System P where
  manager := Manager.started
  reads := fun _ => none
  trust := TrustRun.started file
  checkpoints := fun id => StoreRun.started (checkpoints id)
  untrusts := fun _ => .idle
  mutations := fun _ => .idle
  begun := []
  known := match readDocument file with
    | .ok entries => entries.map TrustedWorkspaceEntry.id
    | .error _ => []

def setUntrust (call : CallId) (phase : UntrustPhase) : System P :=
  { s with untrusts := Function.update s.untrusts call phase }

def setMutation (call : CallId) (phase : MutationPhase) : System P :=
  { s with mutations := Function.update s.mutations call phase }

def setRead (call : CallId) (read : Option (Except TrustStoreError Entries)) : System P :=
  { s with reads := Function.update s.reads call read }

def stepStore (id : TrustId) (event : StoreEvent) : Option (System P) :=
  ((s.checkpoints id).next event).map fun run =>
    { s with checkpoints := Function.update s.checkpoints id run }

def stepTrust (event : TrustEvent) : Option (System P) :=
  (s.trust.next settings.locale event).map fun run => { s with trust := run }

def untrustNext (call : CallId) (id : TrustId) (listed : Entries) (inner : CallId) :
    List WorkspaceId → Option (System P)
  | [] =>
    (s.stepStore id (.start inner .purge none)).map fun s =>
      s.setUntrust call (.purging id listed inner)
  | workspace :: bound =>
    if isIdle (s.manager.calls inner) then
      some ({ s with manager := s.manager.closeWorkspace inner workspace }.setUntrust call
        (.closing id listed inner bound))
    else none

def written (call : CallId) (fails : Bool) : List TrustId :=
  match s.trust.calls call with
  | .writing _ _ next .rename => if fails then [] else next.map TrustedWorkspaceEntry.id
  | _ => []

def next : Event P → Option (System P)
  | .openWorkspace call id rootPath =>
    if isIdle (s.manager.calls call) then
      some { s with manager := s.manager.openWorkspace call id rootPath }
    else none
  | .closeWorkspace call id =>
    if isIdle (s.manager.calls call) then
      some { s with manager := s.manager.closeWorkspace call id }
    else none
  | .answer call answer =>
    if isTrusting (s.manager.calls call) then none
    else (s.manager.answered settings.resolveProfile call answer).map fun manager =>
      { s with manager }
  | .requireTrusted call fails =>
    if isTrusting (s.manager.calls call) && (s.reads call).isNone then
      some (s.setRead call (some (readTrust s.trust.file fails)))
    else none
  | .trusted call =>
    match s.manager.calls call, s.reads call with
    | .opening _ (.trusting root identity), some read =>
      (s.manager.answered settings.resolveProfile call
        (requireTrusted settings read root identity)).map fun manager =>
          { s with manager }.setRead call none
    | _, _ => none
  | .trustWorkspace call input freshId now =>
    s.stepTrust settings (.start call (.trust input freshId now))
  | .trustRead call fails => s.stepTrust settings (.read call fails)
  | .trustWrite call fails =>
    (s.stepTrust settings (.write call fails)).map fun after =>
      { after with known := s.known ++ s.written call fails }
  | .untrustWorkspace call id =>
    match s.untrusts call with
    | .idle =>
      some ({ s with begun := s.begun ++ [call], known := s.known ++ [id] }.setUntrust call
        (if id.isEmpty then .rejected else .listing id none))
    | _ => none
  | .listTrusted call fails =>
    match s.untrusts call with
    | .listing id none => some (s.setUntrust call (.listing id (some (readTrust s.trust.file fails))))
    | _ => none
  | .untrustListed call =>
    match s.untrusts call with
    | .listing _ (some (.error _)) => some (s.setUntrust call .rejected)
    | .listing id (some (.ok listed)) =>
      let bound := boundWorkspaces s.manager id listed
      if bound.all (isReady s.manager) then
        some (s.setUntrust call (.auditing id listed bound))
      else some (s.setUntrust call .rejected)
    | _ => none
  | .untrustAudited call acknowledged inner =>
    match s.untrusts call with
    | .auditing id listed bound =>
      if acknowledged then s.untrustNext call id listed inner bound
      else some (s.setUntrust call .rejected)
    | _ => none
  | .untrustClosed call inner =>
    match s.untrusts call with
    | .closing id listed closer bound =>
      match s.manager.calls closer with
      | .closed _ => s.untrustNext call id listed inner bound
      | .rejected _ => some (s.setUntrust call .failing)
      | _ => none
    | _ => none
  | .untrustPurged call inner =>
    match s.untrusts call with
    | .purging id listed purge =>
      match (s.checkpoints id).calls purge with
      | .fulfilled _ _ =>
        (s.stepTrust settings (.start inner (.untrust id))).map fun s =>
          s.setUntrust call (.removing id listed inner)
      | .rejected _ => some (s.setUntrust call .failing)
      | _ => none
    | _ => none
  | .untrustRemoved call =>
    match s.untrusts call with
    | .removing id listed removal =>
      match s.trust.calls removal with
      | .returned _ (.ok _) => some (s.setUntrust call (.succeeding id listed))
      | .returned _ (.error _) => some (s.setUntrust call .failing)
      | _ => none
    | _ => none
  | .untrustReported call acknowledged =>
    match s.untrusts call with
    | .succeeding id listed =>
      some (s.setUntrust call (if acknowledged then .untrusted id listed else .rejected))
    | .failing => some (s.setUntrust call .rejected)
    | _ => none
  | .checkpointWorkspace call id mutation =>
    match s.mutations call, s.manager.workspaces id with
    | .idle, some ⟨.ready, _, _, some trustId, some _, _⟩ =>
      some (s.setMutation call (.auditing trustId mutation))
    | .idle, _ => some (s.setMutation call .rejected)
    | _, _ => none
  | .checkpointAudited call acknowledged inner =>
    match s.mutations call with
    | .auditing trustId mutation =>
      if acknowledged then
        (s.stepStore trustId (.start inner mutation.request none)).map fun s =>
          s.setMutation call (.storing trustId inner)
      else some (s.setMutation call .rejected)
    | _ => none
  | .checkpointStored call =>
    match s.mutations call with
    | .storing trustId inner =>
      match (s.checkpoints trustId).calls inner with
      | .fulfilled _ _ => some (s.setMutation call .succeeding)
      | .rejected _ => some (s.setMutation call .failing)
      | _ => none
    | _ => none
  | .checkpointReported call acknowledged =>
    match s.mutations call with
    | .succeeding => some (s.setMutation call (if acknowledged then .resolved else .rejected))
    | .failing => some (s.setMutation call .rejected)
    | _ => none
  | .store id event =>
    match event with
    | .start _ _ _ => none
    | event => s.stepStore id event

end System

end KodeGpt.WorkspaceUntrusting
