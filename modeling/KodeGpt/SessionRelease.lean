import KodeGpt.ManagerSteps
import KodeGpt.ToolSessions

/-!
Whether the previews and the browser sessions of a tool context outlive their workspaces.
What a workspace leaves behind when it is taken out of the map has to be released by the
call of `workspace.close` that took it out.
-/

namespace KodeGpt.SessionRelease

open ManagerSteps ToolSessions TransitionSystem WorkspaceManager
open WorkspaceUntrusting (System)

variable {P : Type}

def Held (s : ToolContext P) (workspaceId : WorkspaceId) : Prop :=
  (s.core.manager.workspaces workspaceId).isSome = true

/-- No call is in flight. -/
def Quiet (s : ToolContext P) : Prop := ∀ call ∈ s.begun, (s.calls call).isSettled = true

structure NoneOutlives (s : ToolContext P) : Prop where
  previews : ∀ record ∈ s.previews, Held s record.workspaceId
  sessions : ∀ record ∈ s.sessions, Held s record.workspaceId
  browsers : ∀ browser ∈ s.browsers, Held s browser.workspaceId

/-- The call is about to release the previews of a workspace. -/
def Owes (core : System P) (phase : Phase) (workspaceId : WorkspaceId) : Prop :=
  match phase with
  | .closing id inner => id = workspaceId ∧ core.manager.calls inner = .closed workspaceId
  | .releasing id _ _ | .releasingPreviews id => id = workspaceId
  | _ => False

/-- The call is about to release a session. -/
def OwesSession (core : System P) (phase : Phase) (workspaceId : WorkspaceId)
    (previewId : PreviewId) : Prop :=
  match phase with
  | .closing id inner => id = workspaceId ∧ core.manager.calls inner = .closed workspaceId
  | .releasing id rest _ => id = workspaceId ∧ previewId ∈ rest
  | _ => False

def Safe (s : ToolContext P) (workspaceId : WorkspaceId) : Prop :=
  Held s workspaceId ∨ ∃ call, Owes s.core (s.calls call) workspaceId

def SafeSession (s : ToolContext P) (workspaceId : WorkspaceId) (previewId : PreviewId) : Prop :=
  Held s workspaceId ∨ ∃ call, OwesSession s.core (s.calls call) workspaceId previewId

/-- No session is kept for the preview. -/
def Unopened (s : ToolContext P) (workspaceId : WorkspaceId) (previewId : PreviewId) : Prop :=
  ∀ record ∈ s.sessions, record.isOf workspaceId previewId = false

/-- The workspace has no preview and no session. -/
def Clear (s : ToolContext P) (workspaceId : WorkspaceId) : Prop :=
  (∀ record ∈ s.previews, record.workspaceId ≠ workspaceId) ∧
    ∀ record ∈ s.sessions, record.workspaceId ≠ workspaceId

/-- A workspace leaves the map with previews or sessions only by a call of `workspace.close`.
A preview and a session are put down for a workspace that is held or is about to be released,
and a session where none is kept. A browser that is closed stops, and where it goes away by
itself no session of another one is kept for its preview. -/
def Orderly (s : ToolContext P) : Event P → Prop
  | .core event => ∀ workspaceId, takesOut s.core event = some workspaceId →
      (∃ call inner answer, event = .answer inner answer ∧
        s.calls call = .closing workspaceId inner) ∨ Clear s workspaceId
  | .started call (some _) => ∀ input previewId sourceState,
      s.calls call = .running input previewId sourceState → Safe s input.workspaceId
  | .launched call (some _) => ∀ draft, s.calls call = .launching draft false →
      SafeSession s draft.workspaceId draft.previewId ∧
        Unopened s draft.workspaceId draft.previewId
  | .launchDisconnected call => ∀ draft, s.calls call = .launching draft false →
      Unopened s draft.workspaceId draft.previewId
  | .browserClosed call false => ∀ browser ∈ s.browsers, (s.calls call).closes ≠ some browser.id
  | .disconnected id => ∀ browser ∈ s.browsers, browser.id = id → ∀ record ∈ s.sessions,
      record.isOf browser.workspaceId browser.previewId = true → record.browser = id
  | _ => True

structure Inv (s : ToolContext P) : Prop where
  previews : ∀ record ∈ s.previews, Safe s record.workspaceId
  sessions : ∀ record ∈ s.sessions, SafeSession s record.workspaceId record.previewId
  kept : ∀ record ∈ s.sessions,
    s.sessions.find? (SessionRecord.isOf record.workspaceId record.previewId) = some record
  browsers : ∀ browser ∈ s.browsers,
    (∃ record ∈ s.sessions, record.browser = browser.id ∧
      record.isOf browser.workspaceId browser.previewId = true) ∨
    ∃ call, (s.calls call).closes = some browser.id
  closers : ∀ call workspaceId inner, s.calls call = .closing workspaceId inner →
    Follows workspaceId (s.core.manager.calls inner)
  begun : ∀ call, s.calls call ≠ .idle → call ∈ s.begun

section Steps

variable {settings : Settings P} {s t : ToolContext P} {call : CallId} {phase : Phase}
  {workspaceId : WorkspaceId} {previewId : PreviewId}

theorem owes_of_owesSession {core : System P} (h : OwesSession core phase workspaceId previewId) :
    Owes core phase workspaceId := by
  cases phase with
  | closing id inner => exact h
  | releasing id rest browser => exact h.1
  | _ => exact h.elim

theorem isOf_iff {record : SessionRecord} :
    record.isOf workspaceId previewId = true ↔
      record.workspaceId = workspaceId ∧ record.previewId = previewId := by
  simp [SessionRecord.isOf]

theorem isOf_self (record : SessionRecord) :
    record.isOf record.workspaceId record.previewId = true :=
  isOf_iff.mpr ⟨rfl, rfl⟩

theorem Safe.advance (h : Safe s workspaceId) (hcore : t.core = s.core)
    (hcalls : t.calls = Function.update s.calls call phase)
    (howes : Owes s.core (s.calls call) workspaceId → Owes s.core phase workspaceId) :
    Safe t workspaceId := by
  unfold Safe Held
  rw [hcore, hcalls]
  refine h.imp id ?_
  rintro ⟨other, hother⟩
  by_cases heq : other = call
  · subst heq
    exact ⟨other, by simpa using howes hother⟩
  · exact ⟨other, by simpa [heq] using hother⟩

theorem SafeSession.advance (h : SafeSession s workspaceId previewId) (hcore : t.core = s.core)
    (hcalls : t.calls = Function.update s.calls call phase)
    (howes : OwesSession s.core (s.calls call) workspaceId previewId →
      OwesSession s.core phase workspaceId previewId) :
    SafeSession t workspaceId previewId := by
  unfold SafeSession Held
  rw [hcore, hcalls]
  refine h.imp id ?_
  rintro ⟨other, hother⟩
  by_cases heq : other = call
  · subst heq
    exact ⟨other, by simpa using howes hother⟩
  · exact ⟨other, by simpa [heq] using hother⟩

theorem Inv.advance (h : Inv s) (hcore : t.core = s.core)
    (hcalls : t.calls = Function.update s.calls call phase) (hbegun : t.begun = s.begun)
    (hmem : call ∈ s.begun)
    (hclosers : ∀ workspaceId inner, phase = .closing workspaceId inner →
      Follows workspaceId (s.core.manager.calls inner))
    (hpreviews : ∀ record ∈ t.previews, Safe s record.workspaceId ∧
      (Owes s.core (s.calls call) record.workspaceId → Owes s.core phase record.workspaceId))
    (hsessions : ∀ record ∈ t.sessions, SafeSession s record.workspaceId record.previewId ∧
      (OwesSession s.core (s.calls call) record.workspaceId record.previewId →
        OwesSession s.core phase record.workspaceId record.previewId))
    (hkept : ∀ record ∈ t.sessions,
      t.sessions.find? (SessionRecord.isOf record.workspaceId record.previewId) = some record)
    (hbrowsers : ∀ browser ∈ t.browsers,
      (∃ record ∈ t.sessions, record.browser = browser.id ∧
        record.isOf browser.workspaceId browser.previewId = true) ∨
      phase.closes = some browser.id ∨
      ∃ other, other ≠ call ∧ (s.calls other).closes = some browser.id) : Inv t where
  previews := fun record hrecord =>
    (hpreviews record hrecord).1.advance hcore hcalls (hpreviews record hrecord).2
  sessions := fun record hrecord =>
    (hsessions record hrecord).1.advance hcore hcalls (hsessions record hrecord).2
  kept := hkept
  browsers := by
    intro browser hbrowser
    refine (hbrowsers browser hbrowser).imp id ?_
    rw [hcalls]
    rintro (hphase | ⟨other, hother, hcloses⟩)
    · exact ⟨call, by simpa using hphase⟩
    · exact ⟨other, by simpa [hother] using hcloses⟩
  closers := by
    intro other id inner hother
    rw [hcore]
    rw [hcalls, Function.update_apply] at hother
    split at hother
    · exact hclosers id inner hother
    · exact h.closers other id inner hother
  begun := by
    intro other hother
    rw [hbegun]
    rw [hcalls, Function.update_apply] at hother
    split at hother
    · rename_i heq
      exact heq ▸ hmem
    · exact h.begun other hother

/-- A call that is not about to release anything. -/
structure Free (core : System P) (phase : Phase) : Prop where
  owes : ∀ workspaceId, ¬Owes core phase workspaceId
  closes : phase.closes = none

theorem Free.owesSession {core : System P} (h : Free core phase) (workspaceId : WorkspaceId)
    (previewId : PreviewId) : ¬OwesSession core phase workspaceId previewId :=
  fun howes => h.owes workspaceId (owes_of_owesSession howes)

theorem Inv.browserOf (h : Inv s) (hcloses : (s.calls call).closes = none) {browser : Browser}
    (hbrowser : browser ∈ s.browsers) :
    (∃ record ∈ s.sessions, record.browser = browser.id ∧
      record.isOf browser.workspaceId browser.previewId = true) ∨
    ∃ other, other ≠ call ∧ (s.calls other).closes = some browser.id := by
  refine (h.browsers browser hbrowser).imp id ?_
  rintro ⟨other, hother⟩
  refine ⟨other, ?_, hother⟩
  rintro rfl
  rw [hcloses] at hother
  cases hother

theorem Inv.setCall (h : Inv s) (hfree : Free s.core (s.calls call)) (hmem : call ∈ s.begun)
    (hclosers : ∀ workspaceId inner, phase = .closing workspaceId inner →
      Follows workspaceId (s.core.manager.calls inner)) : Inv (s.setCall call phase) := by
  refine h.advance rfl rfl rfl hmem hclosers ?_ ?_ h.kept ?_
  · exact fun record hrecord =>
      ⟨h.previews record hrecord, fun howes => (hfree.owes _ howes).elim⟩
  · exact fun record hrecord =>
      ⟨h.sessions record hrecord, fun howes => (hfree.owesSession _ _ howes).elim⟩
  · exact fun browser hbrowser => (h.browserOf hfree.closes hbrowser).imp id .inr

theorem Inv.setPreviews (h : Inv s) {previews : List PreviewRecord}
    (hpreviews : ∀ record ∈ previews, Safe s record.workspaceId) : Inv { s with previews } :=
  ⟨hpreviews, h.sessions, h.kept, h.browsers, h.closers, h.begun⟩

theorem Inv.setPendingStarts (h : Inv s) (pendingStarts : Nat) : Inv { s with pendingStarts } :=
  ⟨h.previews, h.sessions, h.kept, h.browsers, h.closers, h.begun⟩

theorem Inv.deletePreview (h : Inv s) (previewId : PreviewId) : Inv (s.deletePreview previewId) :=
  h.setPreviews fun record hrecord => h.previews record (List.mem_of_mem_filter hrecord)

theorem Inv.enter (h : Inv s) (henter : s.enter call = some t) :
    Inv t ∧ t.calls call = .idle ∧ call ∈ t.begun ∧ t.core = s.core := by
  unfold ToolContext.enter at henter
  split at henter
  · rename_i hidle
    obtain rfl := Option.some.inj henter
    refine ⟨⟨h.previews, h.sessions, h.kept, h.browsers, h.closers, ?_⟩, hidle, by simp, rfl⟩
    intro other hother
    exact List.mem_append_left _ (h.begun other hother)
  · cases henter

theorem free_of_idle {core : System P} (hphase : phase = .idle) : Free core phase := by
  subst hphase
  exact ⟨fun _ => id, rfl⟩

theorem find?_deleteSession {sessions : List SessionRecord} {record : SessionRecord}
    (hkey : record.isOf workspaceId previewId = false) :
    (sessions.filter fun other => !other.isOf workspaceId previewId).find?
        (SessionRecord.isOf record.workspaceId record.previewId) =
      sessions.find? (SessionRecord.isOf record.workspaceId record.previewId) := by
  rw [List.find?_filter]
  congr 1
  funext other
  cases hother : other.isOf record.workspaceId record.previewId with
  | false => simp
  | true =>
    obtain ⟨hworkspace, hpreview⟩ := isOf_iff.mp hother
    have hsame : other.isOf workspaceId previewId = record.isOf workspaceId previewId := by
      simp only [SessionRecord.isOf, hworkspace, hpreview]
    simp [hsame, hkey]

theorem mem_deleteSession {record : SessionRecord} :
    record ∈ (s.deleteSession workspaceId previewId).sessions ↔
      record ∈ s.sessions ∧ record.isOf workspaceId previewId = false := by
  simp [ToolContext.deleteSession]

theorem Inv.kept_deleteSession (h : Inv s) :
    ∀ record ∈ (s.deleteSession workspaceId previewId).sessions,
      (s.deleteSession workspaceId previewId).sessions.find?
        (SessionRecord.isOf record.workspaceId record.previewId) = some record := by
  intro record hrecord
  obtain ⟨hmem, hkey⟩ := mem_deleteSession.mp hrecord
  exact (find?_deleteSession hkey).trans (h.kept record hmem)

theorem Inv.releaseSession (h : Inv s) (hmem : call ∈ s.begun)
    (hcloses : (s.calls call).closes = none) {after : Option BrowserId → Phase}
    (hafter : ∀ browser, (after browser).closes = browser)
    (hclosers : ∀ browser workspaceId inner, after browser ≠ .closing workspaceId inner)
    (howes : ∀ browser id, Owes s.core (s.calls call) id → Owes s.core (after browser) id)
    (howesSession : ∀ browser (record : SessionRecord), record.isOf workspaceId previewId = false →
      OwesSession s.core (s.calls call) record.workspaceId record.previewId →
        OwesSession s.core (after browser) record.workspaceId record.previewId) :
    Inv (s.releaseSession call workspaceId previewId after) := by
  unfold ToolContext.releaseSession
  split
  · rename_i found hfound
    refine h.advance rfl rfl rfl hmem (fun _ _ heq => absurd heq (hclosers _ _ _)) ?_ ?_
      h.kept_deleteSession ?_
    · exact fun record hrecord => ⟨h.previews record hrecord, howes _ _⟩
    · intro record hrecord
      obtain ⟨hold, hkey⟩ := mem_deleteSession.mp hrecord
      exact ⟨h.sessions record hold, howesSession _ record hkey⟩
    · intro browser hbrowser
      rcases h.browserOf hcloses hbrowser with ⟨record, hrecord, hown, hkey⟩ | hother
      · cases hreleased : record.isOf workspaceId previewId with
        | false =>
          exact .inl ⟨record, mem_deleteSession.mpr ⟨hrecord, hreleased⟩, hown, hkey⟩
        | true =>
          obtain ⟨rfl, rfl⟩ := isOf_iff.mp hreleased
          have hsame := (h.kept record hrecord).symm.trans hfound
          obtain rfl := Option.some.inj hsame
          exact .inr (.inl (by rw [hafter, hown]))
      · exact .inr (.inr hother)
  · rename_i hnone
    have hkey : ∀ record ∈ s.sessions, record.isOf workspaceId previewId = false := by
      simpa using hnone
    refine h.advance rfl rfl rfl hmem (fun _ _ heq => absurd heq (hclosers _ _ _)) ?_ ?_ h.kept ?_
    · exact fun record hrecord => ⟨h.previews record hrecord, howes _ _⟩
    · exact fun record hrecord =>
        ⟨h.sessions record hrecord, howesSession _ record (hkey record hrecord)⟩
    · exact fun browser hbrowser => (h.browserOf hcloses hbrowser).imp id .inr

theorem Inv.releaseFree (h : Inv s) (hmem : call ∈ s.begun) (hfree : Free s.core (s.calls call))
    {after : Option BrowserId → Phase} (hafter : ∀ browser, (after browser).closes = browser)
    (hclosers : ∀ browser workspaceId inner, after browser ≠ .closing workspaceId inner) :
    Inv (s.releaseSession call workspaceId previewId after) :=
  h.releaseSession hmem hfree.closes hafter hclosers (fun _ _ howes => (hfree.owes _ howes).elim)
    fun _ _ _ howes => (hfree.owesSession _ _ howes).elim

theorem Inv.releaseThenReject (h : Inv s) (hmem : call ∈ s.begun)
    (hfree : Free s.core (s.calls call)) :
    Inv (s.releaseSession call workspaceId previewId ToolContext.releaseThenReject) := by
  refine h.releaseFree hmem hfree ?_ ?_
  · intro browser
    cases browser <;> rfl
  · intro browser
    cases browser <;> nofun

theorem Inv.reserveStartSlot (h : Inv s) (hfree : Free s.core (s.calls call))
    (hmem : call ∈ s.begun) (input : PreviewStartInput) (seen : List PreviewId) :
    Inv (s.reserveStartSlot call input seen) := by
  unfold ToolContext.reserveStartSlot
  split
  · exact (h.setPendingStarts _).setCall hfree hmem nofun
  · split
    · exact h.setCall hfree hmem nofun
    · exact h.setCall hfree hmem nofun

theorem Inv.failStart (h : Inv s) (hfree : Free s.core (s.calls call)) (hmem : call ∈ s.begun) :
    Inv (s.failStart call) :=
  (h.setPendingStarts _).setCall hfree hmem nofun

theorem Inv.inspectLivePreview (h : Inv s) (hfree : Free s.core (s.calls call))
    (hmem : call ∈ s.begun) (workspaceId : WorkspaceId) (previewId : PreviewId)
    (request : BrowserRequest) : Inv (s.inspectLivePreview call workspaceId previewId request) := by
  unfold ToolContext.inspectLivePreview
  split
  · exact h.setCall hfree hmem nofun
  · split
    · exact h.setCall hfree hmem nofun
    · exact h.setCall hfree hmem nofun

theorem Inv.coreStep (h : Inv s) {event : WorkspaceUntrusting.Event P} {core : System P}
    (hnext : s.core.next settings.manager event = some core)
    (htakes : ∀ workspaceId, takesOut s.core event = some workspaceId →
      (∃ call inner answer, event = .answer inner answer ∧
        s.calls call = .closing workspaceId inner) ∨ Clear s workspaceId) :
    Inv { s with core } := by
  have hclosed : ∀ {phase : Phase} {workspaceId : WorkspaceId}, Owes s.core phase workspaceId →
      Owes core phase workspaceId := by
    intro phase id howes
    cases phase with
    | closing id inner => exact ⟨howes.1, closed_step hnext howes.2⟩
    | releasing id rest browser => exact howes
    | releasingPreviews id => exact howes
    | _ => exact howes.elim
  have hkept : ∀ {workspaceId : WorkspaceId}, Held s workspaceId → ¬Clear s workspaceId →
      Held { s with core } workspaceId ∨ ∃ call inner,
        s.calls call = .closing workspaceId inner ∧ core.manager.calls inner = .closed workspaceId := by
    intro id hheld hclear
    refine (held_step hnext hheld).imp (fun hkept => hkept) ?_
    intro htaken
    obtain ⟨call, inner, answer, rfl, hcall⟩ := (htakes id htaken).resolve_right hclear
    exact ⟨call, inner, hcall, closed_of_takesOut hnext (h.closers call id inner hcall) htaken⟩
  refine ⟨?_, ?_, h.kept, h.browsers, ?_, h.begun⟩
  · intro record hrecord
    rcases h.previews record hrecord with hheld | ⟨call, howes⟩
    · refine (hkept hheld fun hclear => hclear.1 record hrecord rfl).imp id ?_
      rintro ⟨call, inner, hcall, hdone⟩
      refine ⟨call, ?_⟩
      rw [hcall]
      exact ⟨rfl, hdone⟩
    · exact .inr ⟨call, hclosed howes⟩
  · intro record hrecord
    rcases h.sessions record hrecord with hheld | ⟨call, howes⟩
    · refine (hkept hheld fun hclear => hclear.2 record hrecord rfl).imp id ?_
      rintro ⟨call, inner, hcall, hdone⟩
      refine ⟨call, ?_⟩
      rw [hcall]
      exact ⟨rfl, hdone⟩
    · refine .inr ⟨call, ?_⟩
      cases hphase : s.calls call with
      | closing id inner =>
        rw [hphase] at howes
        exact ⟨howes.1, closed_step hnext howes.2⟩
      | releasing id rest browser =>
        rw [hphase] at howes
        exact howes
      | _ =>
        rw [hphase] at howes
        exact howes.elim
  · exact fun call id inner hcall => follows_step hnext (h.closers call id inner hcall)

theorem Inv.delegate (h : Inv s) {event : WorkspaceUntrusting.Event P}
    (hnext : s.delegate settings call event phase = some t)
    (htakes : takesOut s.core event = none)
    (hclosers : ∀ workspaceId inner, phase = .closing workspaceId inner →
      event = .closeWorkspace inner workspaceId) : Inv t := by
  obtain ⟨entered, henter, hrest⟩ := Option.bind_eq_some_iff.mp hnext
  obtain ⟨hentered, hidle, hmem, hcore⟩ := h.enter henter
  obtain ⟨core, hstep, rfl⟩ := Option.map_eq_some_iff.mp hrest
  have hinv : Inv { entered with core } := by
    refine hentered.coreStep hstep ?_
    intro id htaken
    rw [hcore, htakes] at htaken
    cases htaken
  refine hinv.setCall (free_of_idle hidle) hmem ?_
  intro id inner hphase
  obtain rfl := hclosers id inner hphase
  obtain ⟨-, heq⟩ := Option.ite_none_right_eq_some.mp hstep
  obtain rfl := Option.some.inj heq
  exact follows_closeWorkspace _ inner id

theorem Inv.answered (h : Inv s) (hnext : s.answered call = some t) : Inv t := by
  have hmem : s.calls call ≠ .idle → call ∈ s.begun := h.begun call
  unfold ToolContext.answered at hnext
  split at hnext
  · rename_i inner hcall
    rw [hcall] at hmem
    have hfree : Free s.core (s.calls call) := hcall ▸ ⟨fun _ => id, rfl⟩
    split at hnext
    · obtain rfl := Option.some.inj hnext
      exact h.setCall hfree (hmem nofun) nofun
    · obtain rfl := Option.some.inj hnext
      exact h.setCall hfree (hmem nofun) nofun
    · obtain rfl := Option.some.inj hnext
      exact h.setCall hfree (hmem nofun) nofun
    · cases hnext
  · rename_i inner hcall
    rw [hcall] at hmem
    have hfree : Free s.core (s.calls call) := hcall ▸ ⟨fun _ => id, rfl⟩
    split at hnext
    · obtain rfl := Option.some.inj hnext
      exact h.setCall hfree (hmem nofun) nofun
    · obtain rfl := Option.some.inj hnext
      exact h.setCall hfree (hmem nofun) nofun
    · cases hnext
  · rename_i id inner hcall
    rw [hcall] at hmem
    have hcloses : (s.calls call).closes = none := by rw [hcall]; rfl
    split at hnext
    · obtain rfl := Option.some.inj hnext
      refine h.advance rfl rfl rfl (hmem nofun) nofun ?_ ?_ h.kept ?_
      · intro record hrecord
        refine ⟨h.previews record hrecord, ?_⟩
        rw [hcall]
        exact And.left
      · intro record hrecord
        refine ⟨h.sessions record hrecord, ?_⟩
        rw [hcall]
        rintro ⟨rfl, -⟩
        refine ⟨rfl, List.mem_map.mpr ⟨record, ?_, rfl⟩⟩
        exact List.mem_filter.mpr ⟨hrecord, decide_eq_true rfl⟩
      · exact fun browser hbrowser => (h.browserOf hcloses hbrowser).imp (fun hkept => hkept) .inr
    · rename_i error hrejected
      obtain rfl := Option.some.inj hnext
      refine h.setCall ⟨?_, hcloses⟩ (hmem nofun) nofun
      rw [hcall]
      rintro later ⟨-, hclosed⟩
      rw [hrejected] at hclosed
      cases hclosed
    · cases hnext
  · cases hnext

theorem Inv.openLive (h : Inv s) (hfree : Free s.core (s.calls call)) (hmem : call ∈ s.begun)
    (record : PreviewRecord) (parsed : PreviewOrigin) (viewport : Option BrowserViewport) :
    Inv (s.openLive call record parsed viewport) := by
  unfold ToolContext.openLive
  split
  · split
    · exact h.releaseThenReject hmem hfree
    · exact h.setCall hfree hmem nofun
  · split
    · exact h.setCall hfree hmem nofun
    · split
      · exact h.setCall hfree hmem nofun
      · exact h.setCall hfree hmem nofun

theorem Inv.useLive (h : Inv s) (hfree : Free s.core (s.calls call)) (hmem : call ∈ s.begun)
    (parsed : PreviewOrigin) (tool : BrowserTool) (session : SessionRecord) :
    Inv (s.useLive call parsed tool session) := by
  unfold ToolContext.useLive
  split
  · exact h.releaseThenReject hmem hfree
  · exact h.setCall hfree hmem nofun

theorem Inv.actedOn (h : Inv s) (hfree : Free s.core (s.calls call)) (hmem : call ∈ s.begun)
    (tool : BrowserTool) (session : SessionRecord) (page : JsObjects.JsText) :
    Inv (s.actedOn settings call tool session page) := by
  unfold ToolContext.actedOn
  split
  · split
    · exact h.setCall hfree hmem nofun
    · split
      · exact h.releaseThenReject hmem hfree
      · exact h.setCall hfree hmem nofun
  · exact h.setCall hfree hmem nofun

theorem Inv.disconnect (h : Inv s) {browser : Browser}
    (hown : ∀ record ∈ s.sessions,
      record.isOf browser.workspaceId browser.previewId = true → record.browser = browser.id) :
    Inv (s.disconnect browser) := by
  refine ⟨h.previews, ?_, h.kept_deleteSession, ?_, h.closers, h.begun⟩
  · exact fun record hrecord => h.sessions record (mem_deleteSession.mp hrecord).1
  · intro other hother
    obtain ⟨hold, hne⟩ := List.mem_filter.mp hother
    refine (h.browsers other hold).imp ?_ id
    rintro ⟨record, hrecord, hbrowser, hkey⟩
    refine ⟨record, mem_deleteSession.mpr ⟨hrecord, ?_⟩, hbrowser, hkey⟩
    by_contra hreleased
    rw [Bool.not_eq_false] at hreleased
    exact of_decide_eq_true hne (hbrowser.symm.trans (hown record hrecord hreleased))

theorem mem_setRecord {α : Type} {same : α → Bool} {record other : α} {records : List α}
    (h : other ∈ setRecord same record records) : other = record ∨ other ∈ records := by
  unfold setRecord at h
  split at h
  · obtain ⟨old, hold, rfl⟩ := List.mem_map.mp h
    split
    · exact .inl rfl
    · exact .inr hold
  · rcases List.mem_append.mp h with hold | hnew
    · exact .inr hold
    · exact .inl (List.mem_singleton.mp hnew)

theorem setRecord_unopened {record : SessionRecord}
    (h : Unopened s record.workspaceId record.previewId) :
    setRecord (SessionRecord.isOf record.workspaceId record.previewId) record s.sessions =
      s.sessions ++ [record] := by
  have hnone : s.sessions.any (SessionRecord.isOf record.workspaceId record.previewId) = false := by
    rw [List.any_eq_false]
    intro other hother
    rw [h other hother]
    exact Bool.false_ne_true
  rw [setRecord, hnone, if_neg Bool.false_ne_true]

theorem Inv.launched (h : Inv s) (hmem : call ∈ s.begun) (hfree : Free s.core (s.calls call))
    (record : SessionRecord) (hsafe : SafeSession s record.workspaceId record.previewId)
    (hunopened : Unopened s record.workspaceId record.previewId) (fulfilled : Bool) :
    Inv ({ s with
      sessions := setRecord (SessionRecord.isOf record.workspaceId record.previewId) record s.sessions
      browsers := s.browsers ++
        [Browser.mk record.browser record.workspaceId record.previewId] }.setCall call
          (.settled fulfilled)) := by
  rw [setRecord_unopened hunopened]
  refine h.advance rfl rfl rfl hmem nofun ?_ ?_ ?_ ?_
  · exact fun other hother =>
      ⟨h.previews other hother, fun howes => (hfree.owes _ howes).elim⟩
  · intro other hother
    refine ⟨?_, fun howes => (hfree.owesSession _ _ howes).elim⟩
    rcases List.mem_append.mp hother with hold | hnew
    · exact h.sessions other hold
    · obtain rfl := List.mem_singleton.mp hnew
      exact hsafe
  · intro other hother
    change (s.sessions ++ [record]).find? _ = some other
    rw [List.find?_append]
    rcases List.mem_append.mp hother with hold | hnew
    · rw [h.kept other hold, Option.some_or]
    · obtain rfl := List.mem_singleton.mp hnew
      have hnone : s.sessions.find? (SessionRecord.isOf other.workspaceId other.previewId) = none := by
        rw [List.find?_eq_none]
        intro old hold
        rw [hunopened old hold]
        exact Bool.false_ne_true
      rw [hnone, Option.none_or, List.find?_cons, isOf_self]
  · intro browser hbrowser
    rcases List.mem_append.mp hbrowser with hold | hnew
    · refine (h.browserOf hfree.closes hold).imp ?_ .inr
      rintro ⟨other, hother, hown⟩
      exact ⟨other, List.mem_append_left _ hother, hown⟩
    · obtain rfl := List.mem_singleton.mp hnew
      exact .inl ⟨record, List.mem_append_right _ (List.mem_singleton_self record), rfl,
        isOf_self record⟩

theorem Inv.launchDisconnected (h : Inv s) (hmem : call ∈ s.begun)
    (hfree : Free s.core (s.calls call)) (draft : SessionDraft)
    (hunopened : Unopened s draft.workspaceId draft.previewId) :
    Inv ((s.deleteSession draft.workspaceId draft.previewId).setCall call
      (.launching draft true)) := by
  have hsame : s.deleteSession draft.workspaceId draft.previewId = s := by
    have hfilter : (s.sessions.filter fun record =>
        !record.isOf draft.workspaceId draft.previewId) = s.sessions := by
      rw [List.filter_eq_self]
      intro record hrecord
      rw [hunopened record hrecord]
      rfl
    rw [ToolContext.deleteSession, hfilter]
  rw [hsame]
  exact h.setCall hfree hmem nofun

theorem owes_browserClosed {core : System P} (howes : Owes core phase workspaceId)
    (hcloses : phase.closes ≠ none) : Owes core phase.browserClosed workspaceId := by
  cases phase with
  | releasing id rest browser => exact howes
  | closing id inner => exact absurd rfl hcloses
  | releasingPreviews id => exact absurd rfl hcloses
  | _ => exact howes.elim

theorem owesSession_browserClosed {core : System P}
    (howes : OwesSession core phase workspaceId previewId) (hcloses : phase.closes ≠ none) :
    OwesSession core phase.browserClosed workspaceId previewId := by
  cases phase with
  | releasing id rest browser => exact howes
  | closing id inner => exact absurd rfl hcloses
  | _ => exact howes.elim

theorem Inv.browserClosed (h : Inv s) {closed : BrowserId}
    (hcloses : (s.calls call).closes = some closed) {stopped : Bool}
    (hstops : stopped = false → ∀ browser ∈ s.browsers, (s.calls call).closes ≠ some browser.id) :
    Inv ({ s with
      browsers := if stopped then s.browsers.filter fun other => other.id ≠ closed
        else s.browsers }.setCall call (s.calls call).browserClosed) := by
  have hsome : (s.calls call).closes ≠ none := by
    rw [hcloses]
    exact nofun
  have hidle : s.calls call ≠ .idle := by
    intro heq
    rw [heq] at hsome
    exact hsome rfl
  refine h.advance rfl rfl rfl (h.begun call hidle) ?_ ?_ ?_ h.kept ?_
  · intro id inner heq
    cases hphase : s.calls call <;> rw [hphase] at heq <;> cases heq
  · exact fun record hrecord =>
      ⟨h.previews record hrecord, fun howes => owes_browserClosed howes hsome⟩
  · exact fun record hrecord =>
      ⟨h.sessions record hrecord, fun howes => owesSession_browserClosed howes hsome⟩
  · intro browser hbrowser
    have hopen : browser ∈ s.browsers ∧ browser.id ≠ closed := by
      cases stopped with
      | true =>
        obtain ⟨hold, hne⟩ := List.mem_filter.mp hbrowser
        exact ⟨hold, of_decide_eq_true hne⟩
      | false =>
        refine ⟨hbrowser, ?_⟩
        rintro rfl
        exact hstops rfl browser hbrowser hcloses
    refine (h.browsers browser hopen.1).imp (fun hkept => hkept) ?_
    rintro ⟨other, hother⟩
    refine .inr ⟨other, ?_, hother⟩
    rintro rfl
    exact hopen.2 (Option.some.inj (hother.symm.trans hcloses))

theorem Inv.releaseNext (h : Inv s) (hnext : s.next settings (.releaseNext call) = some t) :
    Inv t := by
  rw [ToolContext.next] at hnext
  split at hnext
  · rename_i id hcall
    obtain rfl := Option.some.inj hnext
    have hmem : call ∈ s.begun := h.begun call (by rw [hcall]; exact nofun)
    have hcloses : (s.calls call).closes = none := by rw [hcall]; rfl
    refine h.advance rfl rfl rfl hmem nofun ?_ ?_ h.kept ?_
    · intro record hrecord
      rw [hcall]
      exact ⟨h.previews record hrecord, fun howes => howes⟩
    · intro record hrecord
      rw [hcall]
      exact ⟨h.sessions record hrecord, fun howes => absurd howes.2 List.not_mem_nil⟩
    · exact fun browser hbrowser => (h.browserOf hcloses hbrowser).imp (fun hkept => hkept) .inr
  · rename_i id previewId rest hcall
    obtain rfl := Option.some.inj hnext
    have hmem : call ∈ s.begun := h.begun call (by rw [hcall]; exact nofun)
    have hcloses : (s.calls call).closes = none := by rw [hcall]; rfl
    refine h.releaseSession hmem hcloses (fun _ => rfl) (fun _ => nofun) ?_ ?_
    · intro browser id'
      rw [hcall]
      exact fun howes => howes
    · intro browser record hkey
      rw [hcall]
      rintro ⟨rfl, hlisted⟩
      refine ⟨rfl, (List.mem_cons.mp hlisted).resolve_left ?_⟩
      intro heq
      rw [isOf_iff.mpr ⟨rfl, heq⟩] at hkey
      cases hkey
  · cases hnext

theorem Inv.releasePreviews (h : Inv s)
    (hnext : s.next settings (.releasePreviews call) = some t) : Inv t := by
  rw [ToolContext.next] at hnext
  split at hnext
  · rename_i id hcall
    obtain rfl := Option.some.inj hnext
    have hmem : call ∈ s.begun := h.begun call (by rw [hcall]; exact nofun)
    have hcloses : (s.calls call).closes = none := by rw [hcall]; rfl
    refine h.advance rfl rfl rfl hmem nofun ?_ ?_ h.kept ?_
    · intro record hrecord
      obtain ⟨hold, hne⟩ := List.mem_filter.mp hrecord
      rw [hcall]
      exact ⟨h.previews record hold, fun howes => absurd howes.symm (of_decide_eq_true hne)⟩
    · intro record hrecord
      rw [hcall]
      exact ⟨h.sessions record hrecord, fun howes => howes.elim⟩
    · exact fun browser hbrowser => (h.browserOf hcloses hbrowser).imp (fun hkept => hkept) .inr
  · cases hnext

theorem Inv.putPreview (h : Inv s) (hmem : call ∈ s.begun) (hfree : Free s.core (s.calls call))
    (record : PreviewRecord) (hsafe : Safe s record.workspaceId) :
    Inv ({ s with
      previews := setRecord (fun other => other.previewId = record.previewId) record s.previews
      pendingStarts := s.pendingStarts - 1 }.setCall call .awaitingReadiness) := by
  have hpreviews : ∀ other ∈
      setRecord (fun other => other.previewId = record.previewId) record s.previews,
        Safe s other.workspaceId := by
    intro other hother
    rcases mem_setRecord hother with rfl | hold
    · exact hsafe
    · exact h.previews other hold
  have hclosers : ∀ id inner, Phase.awaitingReadiness = .closing id inner →
      Follows id (s.core.manager.calls inner) := nofun
  exact ((h.setPreviews hpreviews).setPendingStarts _).setCall hfree hmem hclosers

theorem Inv.started (h : Inv s) {operationId : Option OperationId}
    (hok : Orderly s (.started call operationId))
    (hnext : s.next settings (.started call operationId) = some t) : Inv t := by
  unfold ToolContext.next at hnext
  dsimp only at hnext
  split at hnext
  · rename_i input previewId sourceState operationId hcall
    obtain rfl := Option.some.inj hnext
    have hfree : Free s.core (s.calls call) := hcall ▸ ⟨fun _ => id, rfl⟩
    have hmem : call ∈ s.begun := h.begun call (by rw [hcall]; exact nofun)
    let requestPath := input.requestPath.getD (JsFrames.asciiUnits "/")
    exact h.putPreview hmem hfree ⟨previewId, input.workspaceId, operationId, input.port, requestPath,
      JsFrames.asciiUnits ("http://127.0.0.1:" ++ toString input.port) ++ requestPath, sourceState⟩
      (hok input previewId sourceState hcall)
  · rename_i input previewId sourceState hcall
    obtain rfl := Option.some.inj hnext
    exact h.failStart (hcall ▸ ⟨fun _ => id, rfl⟩) (h.begun call (by rw [hcall]; exact nofun))
  · cases hnext

theorem inv_next {event : Event P} (h : Inv s) (hok : Orderly s event)
    (hnext : s.next settings event = some t) : Inv t := by
  have hmem : ∀ {call phase}, s.calls call = phase → phase ≠ .idle → call ∈ s.begun := by
    rintro call phase rfl hphase
    exact h.begun call hphase
  cases event with
  | core event =>
    obtain ⟨-, heq⟩ := Option.ite_none_left_eq_some.mp hnext
    obtain ⟨core, hstep, rfl⟩ := Option.map_eq_some_iff.mp heq
    exact h.coreStep hstep hok
  | openWorkspace call inner id rootPath => exact h.delegate hnext rfl nofun
  | untrustWorkspace call inner trustId => exact h.delegate hnext rfl nofun
  | closeWorkspace call inner workspaceId =>
    refine h.delegate hnext rfl ?_
    rintro id other ⟨⟩
    rfl
  | answered call => exact h.answered hnext
  | releaseNext call => exact h.releaseNext hnext
  | releasePreviews call => exact h.releasePreviews hnext
  | browserClosed call stopped =>
    rw [ToolContext.next] at hnext
    split at hnext
    · rename_i browser hcloses
      obtain rfl := Option.some.inj hnext
      refine h.browserClosed hcloses ?_
      rintro rfl
      exact hok
    · cases hnext
  | start call input =>
    obtain ⟨entered, henter, rfl⟩ := Option.map_eq_some_iff.mp hnext
    obtain ⟨hentered, hidle, hbegun, -⟩ := h.enter henter
    split
    · exact hentered.reserveStartSlot (free_of_idle hidle) hbegun input []
    · exact hentered.setCall (free_of_idle hidle) hbegun nofun
  | pruned call running =>
    rw [ToolContext.next] at hnext
    split at hnext
    · rename_i input seen previewId asked hcall
      have hfree : Free s.core (s.calls call) := hcall ▸ ⟨fun _ => id, rfl⟩
      have hbegun := hmem hcall nofun
      split at hnext
      · obtain rfl := Option.some.inj hnext
        exact (h.deletePreview previewId).reserveStartSlot hfree hbegun input seen
      · obtain rfl := Option.some.inj hnext
        exact h.reserveStartSlot hfree hbegun input seen
    · cases hnext
  | portChecked call inUse previewId =>
    rw [ToolContext.next] at hnext
    split at hnext
    · rename_i input hcall
      have hfree : Free s.core (s.calls call) := hcall ▸ ⟨fun _ => id, rfl⟩
      have hbegun := hmem hcall nofun
      split at hnext
      · obtain rfl := Option.some.inj hnext
        exact h.setCall hfree hbegun nofun
      · obtain rfl := Option.some.inj hnext
        exact h.failStart hfree hbegun
    · cases hnext
  | resolved call sourceState =>
    rw [ToolContext.next] at hnext
    split at hnext
    · rename_i input previewId hcall
      have hfree : Free s.core (s.calls call) := hcall ▸ ⟨fun _ => id, rfl⟩
      have hbegun := hmem hcall nofun
      split at hnext
      · split at hnext
        · obtain rfl := Option.some.inj hnext
          exact h.setCall hfree hbegun nofun
        · obtain rfl := Option.some.inj hnext
          exact h.failStart hfree hbegun
      · obtain rfl := Option.some.inj hnext
        exact h.failStart hfree hbegun
    · cases hnext
  | started call operationId => exact h.started hok hnext
  | readinessAwaited call fulfilled =>
    rw [ToolContext.next] at hnext
    split at hnext
    · rename_i hcall
      obtain rfl := Option.some.inj hnext
      exact h.setCall (hcall ▸ ⟨fun _ => id, rfl⟩) (hmem hcall nofun) nofun
    · cases hnext
  | stop call workspaceId previewId =>
    obtain ⟨entered, henter, rfl⟩ := Option.map_eq_some_iff.mp hnext
    obtain ⟨hentered, hidle, hbegun, -⟩ := h.enter henter
    exact hentered.releaseFree hbegun (free_of_idle hidle) (fun _ => rfl) (fun _ => nofun)
  | stopPreview call =>
    rw [ToolContext.next] at hnext
    split at hnext
    · rename_i workspaceId previewId hcall
      have hfree : Free s.core (s.calls call) := hcall ▸ ⟨fun _ => id, rfl⟩
      have hbegun := hmem hcall nofun
      split at hnext
      · obtain rfl := Option.some.inj hnext
        exact h.setCall hfree hbegun nofun
      · obtain rfl := Option.some.inj hnext
        exact h.setCall hfree hbegun nofun
    · cases hnext
  | stopped call fulfilled =>
    rw [ToolContext.next] at hnext
    split at hnext
    · rename_i previewId hcall
      have hfree : Free s.core (s.calls call) := hcall ▸ ⟨fun _ => id, rfl⟩
      have hbegun := hmem hcall nofun
      split at hnext
      · obtain rfl := Option.some.inj hnext
        exact (h.deletePreview previewId).setCall hfree hbegun nofun
      · obtain rfl := Option.some.inj hnext
        exact h.setCall hfree hbegun nofun
    · cases hnext
  | openPreview call workspaceId previewId viewport =>
    obtain ⟨entered, henter, rfl⟩ := Option.map_eq_some_iff.mp hnext
    obtain ⟨hentered, hidle, hbegun, -⟩ := h.enter henter
    exact hentered.inspectLivePreview (free_of_idle hidle) hbegun workspaceId previewId _
  | useBrowser call tool workspaceId previewId =>
    obtain ⟨entered, henter, rfl⟩ := Option.map_eq_some_iff.mp hnext
    obtain ⟨hentered, hidle, hbegun, -⟩ := h.enter henter
    split
    · exact hentered.setCall (free_of_idle hidle) hbegun nofun
    · exact hentered.inspectLivePreview (free_of_idle hidle) hbegun workspaceId previewId _
  | inspected call live =>
    rw [ToolContext.next] at hnext
    split at hnext
    · rename_i request record hcall
      have hfree : Free s.core (s.calls call) := hcall ▸ ⟨fun _ => id, rfl⟩
      have hbegun := hmem hcall nofun
      split at hnext
      · obtain rfl := Option.some.inj hnext
        exact h.setCall hfree hbegun nofun
      · obtain rfl := Option.some.inj hnext
        exact h.openLive hfree hbegun record _ _
      · obtain rfl := Option.some.inj hnext
        exact h.useLive hfree hbegun _ _ _
    · cases hnext
  | launched call browser =>
    unfold ToolContext.next at hnext
    dsimp only at hnext
    split at hnext
    · rename_i draft lost hcall
      obtain rfl := Option.some.inj hnext
      exact h.setCall (hcall ▸ ⟨fun _ => id, rfl⟩) (hmem hcall nofun) nofun
    · rename_i draft browser hcall
      obtain rfl := Option.some.inj hnext
      exact h.setCall (hcall ▸ ⟨fun _ => id, rfl⟩) (hmem hcall nofun) nofun
    · rename_i draft browser hcall
      split at hnext
      · cases hnext
      · obtain rfl := Option.some.inj hnext
        obtain ⟨hsafe, hunopened⟩ := hok draft hcall
        exact h.launched (hmem hcall nofun) (hcall ▸ ⟨fun _ => id, rfl⟩)
          { toSessionDraft := draft, browser } hsafe hunopened true
    · cases hnext
  | launchDisconnected call =>
    rw [ToolContext.next] at hnext
    split at hnext
    · rename_i draft hcall
      obtain rfl := Option.some.inj hnext
      exact h.launchDisconnected (hmem hcall nofun) (hcall ▸ ⟨fun _ => id, rfl⟩) draft
        (hok draft hcall)
    · cases hnext
  | acted call page =>
    unfold ToolContext.next at hnext
    dsimp only at hnext
    split at hnext
    · rename_i tool session hcall
      obtain rfl := Option.some.inj hnext
      exact h.setCall (hcall ▸ ⟨fun _ => id, rfl⟩) (hmem hcall nofun) nofun
    · rename_i tool session page hcall
      obtain rfl := Option.some.inj hnext
      exact h.actedOn (hcall ▸ ⟨fun _ => id, rfl⟩) (hmem hcall nofun) tool session page
    · cases hnext
  | disconnected id =>
    obtain ⟨browser, hfound, rfl⟩ := Option.map_eq_some_iff.mp hnext
    have hid := List.find?_some hfound
    obtain rfl := of_decide_eq_true hid
    exact h.disconnect (hok browser (List.mem_of_find?_eq_some hfound) rfl)

theorem inv_started (file : TrustStore.TrustFile) (checkpoints : TrustId → CheckpointRecords.StoredFile) :
    Inv (ToolContext.started file checkpoints : ToolContext P) := by
  refine ⟨?_, ?_, ?_, ?_, nofun, fun _ hcall => absurd rfl hcall⟩
  all_goals
    intro record hrecord
    exact absurd hrecord List.not_mem_nil

theorem settled_not_owes {core : System P} (hsettled : phase.isSettled = true) : Free core phase := by
  cases phase with
  | settled fulfilled => exact ⟨fun _ => id, rfl⟩
  | _ => cases hsettled

theorem Inv.noneOutlives (h : Inv s) (hquiet : Quiet s) : NoneOutlives s := by
  have hfree : ∀ call, Free s.core (s.calls call) := by
    intro call
    by_cases hidle : s.calls call = .idle
    · exact free_of_idle hidle
    · exact settled_not_owes (hquiet call (h.begun call hidle))
  have hsession : ∀ record ∈ s.sessions, Held s record.workspaceId := by
    intro record hrecord
    refine (h.sessions record hrecord).resolve_right ?_
    rintro ⟨call, howes⟩
    exact (hfree call).owesSession _ _ howes
  refine ⟨?_, hsession, ?_⟩
  · intro record hrecord
    refine (h.previews record hrecord).resolve_right ?_
    rintro ⟨call, howes⟩
    exact (hfree call).owes _ howes
  · intro browser hbrowser
    rcases h.browsers browser hbrowser with ⟨record, hrecord, -, hkey⟩ | ⟨call, hcloses⟩
    · rw [← (isOf_iff.mp hkey).1]
      exact hsession record hrecord
    · rw [(hfree call).closes] at hcloses
      cases hcloses

end Steps

/-- In an orderly run nothing outlives its workspace, whenever no call is in flight. -/
theorem noneOutlives_of_orderly (settings : Settings P) (file : TrustStore.TrustFile)
    (checkpoints : TrustId → CheckpointRecords.StoredFile) (events : List (Event P))
    (s : ToolContext P)
    (hrun : exec (ToolContext.next settings) (ToolContext.started file checkpoints) events = some s)
    (hok : AllSteps (ToolContext.next settings) Orderly (ToolContext.started file checkpoints) events)
    (hquiet : Quiet s) : NoneOutlives s := by
  have hstep : ∀ s event t, Inv s → Orderly s event → ToolContext.next settings s event = some t →
      Inv t :=
    fun _ _ _ h hevent hnext => inv_next h hevent hnext
  exact (exec_invariant hstep (inv_started file checkpoints) hok hrun).noneOutlives hquiet

def isOrderly (s : ToolContext P) : Event P → Bool
  | .core event => (takesOut s.core event).all fun workspaceId =>
    (s.previews.all fun record => record.workspaceId ≠ workspaceId) &&
        (s.sessions.all fun record => record.workspaceId ≠ workspaceId) ||
      match event with
      | .answer inner _ => s.begun.any fun call =>
        match s.calls call with
        | .closing id closer => id = workspaceId && closer = inner
        | _ => false
      | _ => false
  | .started call (some _) =>
    match s.calls call with
    | .running input _ _ => (s.core.manager.workspaces input.workspaceId).isSome
    | _ => true
  | .launched call (some _) =>
    match s.calls call with
    | .launching draft false => (s.core.manager.workspaces draft.workspaceId).isSome &&
        s.sessions.all fun record => !record.isOf draft.workspaceId draft.previewId
    | _ => true
  | .launchDisconnected _ | .browserClosed _ false | .disconnected _ => false
  | _ => true

theorem orderly_of_isOrderly (s : ToolContext P) (event : Event P) (h : isOrderly s event = true) :
    Orderly s event := by
  cases event with
  | core event =>
    intro id htaken
    simp only [isOrderly, htaken, Option.all_some, Bool.or_eq_true, Bool.and_eq_true] at h
    rcases h with ⟨hpreviews, hsessions⟩ | hcloser
    · refine .inr ⟨?_, ?_⟩
      · exact fun record hrecord => of_decide_eq_true (List.all_eq_true.mp hpreviews record hrecord)
      · exact fun record hrecord => of_decide_eq_true (List.all_eq_true.mp hsessions record hrecord)
    · split at hcloser
      · rename_i inner answer
        obtain ⟨call, -, hcall⟩ := List.any_eq_true.mp hcloser
        split at hcall
        · rename_i id' closer hphase
          simp only [Bool.and_eq_true, decide_eq_true_eq] at hcall
          obtain ⟨rfl, rfl⟩ := hcall
          exact .inl ⟨call, _, answer, rfl, hphase⟩
        · cases hcall
      · cases hcloser
  | started call operationId =>
    cases operationId with
    | none => trivial
    | some operationId =>
      intro input previewId sourceState hcall
      simp only [isOrderly, hcall] at h
      exact .inl h
  | launched call browser =>
    cases browser with
    | none => trivial
    | some browser =>
      intro draft hcall
      simp only [isOrderly, hcall, Bool.and_eq_true] at h
      refine ⟨.inl h.1, ?_⟩
      intro record hrecord
      have hrecord := List.all_eq_true.mp h.2 record hrecord
      rwa [Bool.not_eq_true'] at hrecord
  | browserClosed call stopped =>
    cases stopped with
    | true => trivial
    | false => cases h
  | launchDisconnected call => cases h
  | disconnected browser => cases h
  | _ => trivial

def someSettings : Settings Unit where
  manager := UntrustedWorkspaces.someSettings
  parseUrl := fun text => some ⟨JsFrames.asciiUnits "http:", JsFrames.asciiUnits "127.0.0.1",
    JsFrames.asciiUnits "3000", [], [], text⟩
  href := id
  normalizedPath := some

def somePreview : PreviewId := JsFrames.asciiUnits "pv_" ++ List.replicate 32 48

def openRun : List (Event Unit) :=
  [.openWorkspace 0 0 "workspace" (some (JsonText.utf8 "/a"))] ++
    (UntrustedWorkspaces.bindOpen ++ UntrustedWorkspaces.endOpen).map .core ++ [.answered 0]

def startRun : List (Event Unit) :=
  [.start 1 ⟨"workspace", JsFrames.asciiUnits "node", 3000, none, none⟩,
    .portChecked 1 (some false) somePreview,
    .resolved 1 (some (List.replicate 40 48, List.replicate 64 48)),
    .started 1 (some "operation"), .readinessAwaited 1 true]

def closeRun : List (Event Unit) :=
  [.openPreview 2 "workspace" somePreview none, .inspected 2 true, .launched 2 (some 0),
    .closeWorkspace 3 1 "workspace", .core (.answer 1 .acknowledged),
    .core (.answer 1 .acknowledged), .core (.answer 1 .acknowledged), .answered 3,
    .releaseNext 3, .browserClosed 3 true, .releaseNext 3, .releasePreviews 3]

def untrustRun : List (Event Unit) :=
  [.untrustWorkspace 2 0 (JsonText.utf8 "trust_0")] ++
    (UntrustedWorkspaces.startUntrust.tail ++ UntrustedWorkspaces.closeBound ++
      UntrustedWorkspaces.endUntrust).map .core ++ [.answered 2]

def isQuiet (s : ToolContext P) : Bool := s.begun.all fun call => (s.calls call).isSettled

theorem closeRun_noneOutlives :
    ∃ s, exec (ToolContext.next someSettings)
        (ToolContext.started UntrustedWorkspaces.someFile fun _ => .missing)
        (openRun ++ startRun ++ closeRun) = some s ∧ NoneOutlives s := by
  have hsome : (exec (ToolContext.next someSettings)
      (ToolContext.started UntrustedWorkspaces.someFile fun _ => .missing)
      (openRun ++ startRun ++ closeRun)).any isQuiet = true := by
    decide +kernel
  have hchecked : AllSteps (ToolContext.next someSettings) (fun s event => isOrderly s event = true)
      (ToolContext.started UntrustedWorkspaces.someFile fun _ => .missing)
      (openRun ++ startRun ++ closeRun) := by
    decide +kernel
  obtain ⟨s, hrun, hquiet⟩ := (Option.any_eq_true _ _).mp hsome
  exact ⟨s, hrun, noneOutlives_of_orderly someSettings UntrustedWorkspaces.someFile _ _ s hrun
    (hchecked.mono orderly_of_isOrderly) (List.all_eq_true.mp hquiet)⟩

/-- The preview of a workspace that is untrusted stays. -/
theorem untrustRun_outlives :
    ¬∀ (P : Type) (settings : Settings P) (file : TrustStore.TrustFile)
      (checkpoints : TrustId → CheckpointRecords.StoredFile) (events : List (Event P))
      (s : ToolContext P),
      exec (ToolContext.next settings) (ToolContext.started file checkpoints) events = some s →
        Quiet s → NoneOutlives s := by
  intro h
  have hsome : (exec (ToolContext.next someSettings)
      (ToolContext.started UntrustedWorkspaces.someFile fun _ => .missing)
      (openRun ++ startRun ++ untrustRun)).any (fun s => isQuiet s && s.previews.any fun record =>
        (s.core.manager.workspaces record.workspaceId).isNone) = true := by
    decide +kernel
  obtain ⟨s, hrun, hends⟩ := (Option.any_eq_true _ _).mp hsome
  rw [Bool.and_eq_true] at hends
  have houtlives := h Unit someSettings UntrustedWorkspaces.someFile _ _ s hrun
    (List.all_eq_true.mp hends.1)
  obtain ⟨record, hrecord, hgone⟩ := List.any_eq_true.mp hends.2
  have hheld := houtlives.previews record hrecord
  rw [Held, ← Option.not_isNone, hgone] at hheld
  cases hheld

end KodeGpt.SessionRelease
