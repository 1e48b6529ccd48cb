import KodeGpt.SessionRelease
import KodeGpt.SlotReservations

/-!
Whether a workspace that is released leaves previews: it does only if a start of it was under
way then and its process is started later.
-/

namespace KodeGpt.ReleasedPreviews

open TransitionSystem WorkspaceManager PreviewSlots SlotReservations
open ToolSessions (Settings PreviewStartInput PreviewRecord maxPreviewSessions)

/-- In every state of the run the slots are within the limit, and the pending starts are the
calls that hold one; and of a workspace that is released there is no preview any more, but for
those of later calls. -/
structure SlotsKept {P : Type} (settings : Settings P) (events : List Event) : Prop where
  counted : ∀ front back s, events = front ++ back → exec (next settings) start front = some s →
    s.previews.length + s.pendingStarts ≤ maxPreviewSessions ∧
      s.pendingStarts = s.begun.countP fun call => (s.calls call).holdsSlot
  released : ∀ front middle back workspaceId t u,
    events = front ++ .releaseWorkspace workspaceId :: (middle ++ back) →
    exec (next settings) start (front ++ [.releaseWorkspace workspaceId]) = some t →
    exec (next settings) t middle = some u →
    ∀ entry ∈ u.previews, entry.record.workspaceId = workspaceId → entry.startedBy ∉ t.begun

/-- When a workspace is released, no start of it is under way whose process is started later. -/
def NoLateStart {P : Type} (settings : Settings P) (events : List Event) : Prop :=
  ∀ front middle back workspaceId call operationId s input,
    events = front ++ .releaseWorkspace workspaceId ::
      (middle ++ .started call (some operationId) :: back) →
    exec (next settings) start front = some s → (s.calls call).input = some input →
    input.workspaceId ≠ workspaceId

section Steps

variable {P : Type} {settings : Settings P} {s t : State} {call : CallId}

theorem reserveStartSlot_previews (call : CallId) (input : PreviewStartInput) (passed : Nat) :
    (s.reserveStartSlot call input passed).previews = s.previews := by
  unfold State.reserveStartSlot
  split
  · rfl
  · split
    · rfl
    · rfl

theorem mem_finishStart {record : PreviewRecord} {entry : Entry}
    (hentry : entry ∈ (s.finishStart call record).previews) :
    entry ∈ s.previews ∨ entry.startedBy = call ∧ entry.record = record := by
  change entry ∈ (s.setPreview call record).previews at hentry
  unfold State.setPreview at hentry
  split at hentry
  · obtain ⟨old, hold, rfl⟩ := List.mem_map.mp hentry
    split
    · exact Or.inr ⟨rfl, rfl⟩
    · exact Or.inl hold
  · obtain hentry | hentry := List.mem_append.mp hentry
    · exact Or.inl hentry
    · rw [List.mem_singleton.mp hentry]
      exact Or.inr ⟨rfl, rfl⟩

theorem exists_finishStart (call : CallId) (record : PreviewRecord) :
    ∃ entry ∈ (s.finishStart call record).previews,
      entry.startedBy = call ∧ entry.record = record := by
  change ∃ entry ∈ (s.setPreview call record).previews, _
  unfold State.setPreview
  split
  · rename_i hany
    obtain ⟨old, hold, hsame⟩ := List.any_eq_true.mp hany
    exact ⟨⟨old.place, call, record⟩,
      List.mem_map.mpr ⟨old, hold, if_pos (of_decide_eq_true hsame)⟩, rfl, rfl⟩
  · exact ⟨⟨s.placed, call, record⟩, List.mem_append_right _ List.mem_cons_self, rfl, rfl⟩

/-- The call puts down a record of the workspace in this step. -/
def PutsDown (s : State) (event : Event) (entry : Entry) : Prop :=
  ∃ operationId input previewId sourceState,
    event = .started entry.startedBy (some operationId) ∧
    s.calls entry.startedBy = .running input previewId sourceState ∧
    entry.record.workspaceId = input.workspaceId

theorem mem_previews_next {event : Event} (hnext : next settings s event = some t) {entry : Entry}
    (hentry : entry ∈ t.previews) : entry ∈ s.previews ∨ PutsDown s event entry := by
  have hdeleted : ∀ {previewId}, entry ∈ (s.deletePreview previewId).previews →
      entry ∈ s.previews := fun hmem => List.mem_of_mem_filter hmem
  cases event with
  | started call operationId =>
    dsimp only [next] at hnext
    split at hnext
    · rename_i input previewId sourceState operationId hcall
      rw [← Option.some.inj hnext] at hentry
      obtain hold | ⟨hcaller, hrecord⟩ := mem_finishStart hentry
      · exact Or.inl hold
      · refine Or.inr ⟨operationId, input, previewId, sourceState, by rw [hcaller],
          by rw [hcaller]; exact hcall, by rw [hrecord]; rfl⟩
    · rw [← Option.some.inj hnext] at hentry
      exact Or.inl hentry
    · cases hnext
  | start call input =>
    obtain ⟨u, henter, hnext⟩ := Option.map_eq_some_iff.mp hnext
    obtain ⟨-, rfl⟩ := enter_eq henter
    left
    split at hnext
    · rw [← hnext, reserveStartSlot_previews] at hentry
      exact hentry
    · rw [← hnext] at hentry
      exact hentry
  | pruned call running =>
    dsimp only [next] at hnext
    left
    split at hnext
    · split at hnext
      · rw [← Option.some.inj hnext, reserveStartSlot_previews] at hentry
        exact hdeleted hentry
      · rw [← Option.some.inj hnext, reserveStartSlot_previews] at hentry
        exact hentry
    · cases hnext
  | portChecked call inUse previewId =>
    dsimp only [next] at hnext
    left
    split at hnext
    · split at hnext
      · rw [← Option.some.inj hnext] at hentry
        exact hentry
      · rw [← Option.some.inj hnext] at hentry
        exact hentry
    · cases hnext
  | resolved call sourceState =>
    dsimp only [next] at hnext
    left
    split at hnext
    · split at hnext
      · rw [← Option.some.inj hnext] at hentry
        exact hentry
      · rw [← Option.some.inj hnext] at hentry
        exact hentry
    · cases hnext
  | inspect call workspaceId previewId =>
    obtain ⟨u, henter, hnext⟩ := Option.map_eq_some_iff.mp hnext
    obtain ⟨-, rfl⟩ := enter_eq henter
    left
    split at hnext
    · rw [← hnext] at hentry
      exact hentry
    · rw [← hnext] at hentry
      exact hentry
  | stop call workspaceId previewId =>
    obtain ⟨u, henter, hnext⟩ := Option.map_eq_some_iff.mp hnext
    obtain ⟨-, rfl⟩ := enter_eq henter
    left
    split at hnext
    · rw [← hnext] at hentry
      exact hentry
    · rw [← hnext] at hentry
      exact hentry
  | status call running =>
    dsimp only [next] at hnext
    left
    split at hnext
    · rw [← Option.some.inj hnext] at hentry
      exact hentry
    · rw [← Option.some.inj hnext] at hentry
      exact hentry
    · rw [← Option.some.inj hnext] at hentry
      exact hentry
    · rw [← Option.some.inj hnext] at hentry
      exact hentry
    · rw [← Option.some.inj hnext] at hentry
      exact hentry
    · rw [← Option.some.inj hnext] at hentry
      exact hdeleted hentry
    · cases hnext
  | answered call fulfilled =>
    dsimp only [next] at hnext
    left
    split at hnext
    · split at hnext
      · rw [← Option.some.inj hnext] at hentry
        exact hdeleted hentry
      · rw [← Option.some.inj hnext] at hentry
        exact hentry
    · rw [← Option.some.inj hnext] at hentry
      exact hentry
    · rw [← Option.some.inj hnext] at hentry
      exact hentry
    · cases hnext
  | releaseWorkspace workspaceId =>
    rw [← Option.some.inj hnext] at hentry
    exact Or.inl (List.mem_of_mem_filter hentry)

theorem inv_exec (h : SlotReservations.Inv s) {events : List Event}
    (hrun : exec (next settings) s events = some t) : SlotReservations.Inv t := by
  have hstep : ∀ s event t, SlotReservations.Inv s →
      (fun (_ : State) (_ : Event) => True) s event → next settings s event = some t →
        SlotReservations.Inv t := fun _ _ _ h _ hnext => inv_next h hnext
  exact exec_invariant hstep h (AllSteps.of_forall (fun _ _ => trivial) s events) hrun

theorem input_exec (h : SlotReservations.Inv s) {events : List Event}
    (hrun : exec (next settings) s events = some t) {other : CallId} (hother : other ∈ s.begun)
    {input : PreviewStartInput}
    (hinput : (t.calls other).input = some input) : (s.calls other).input = some input := by
  induction events generalizing s with
  | nil =>
    obtain rfl : s = t := by simpa using hrun
    exact hinput
  | cons event rest ih =>
    obtain ⟨u, hfirst, hrest⟩ := Option.bind_eq_some_iff.mp hrun
    obtain ⟨hbegun, hback⟩ := input_next h hfirst hother
    exact hback input (ih (inv_next h hfirst) hrest hbegun)

theorem mem_previews_exec {events : List Event} (hrun : exec (next settings) s events = some t)
    {entry : Entry} (hentry : entry ∈ t.previews) :
    entry ∈ s.previews ∨ ∃ front event back u, events = front ++ event :: back ∧
      exec (next settings) s front = some u ∧ PutsDown u event entry := by
  induction events generalizing s with
  | nil =>
    obtain rfl : s = t := by simpa using hrun
    exact Or.inl hentry
  | cons event rest ih =>
    obtain ⟨u, hfirst, hrest⟩ := Option.bind_eq_some_iff.mp hrun
    obtain hold | ⟨front, later, back, v, rfl, hfront, hputs⟩ := ih hrest
    · refine (mem_previews_next hfirst hold).imp_right fun hputs => ?_
      exact ⟨[], event, rest, s, rfl, rfl, hputs⟩
    · refine Or.inr ⟨event :: front, later, back, v, rfl, ?_, hputs⟩
      rw [exec_cons, hfirst]
      exact hfront

end Steps

variable {P : Type}

/-- The slots are kept in every run, and the previews of a released workspace are gone, exactly
if no start of it was under way whose process is started later. -/
theorem slotsKept_iff (settings : Settings P) (events : List Event) (s : State)
    (hrun : exec (next settings) start events = some s) :
    SlotsKept settings events ↔ NoLateStart settings events := by
  constructor
  · rintro hkept front middle back workspaceId call operationId u input rfl hfront hinput rfl
    have hu := inv_exec inv_start hfront
    have hcall : call ∈ u.begun := by
      rw [hu.begun]
      intro hidle
      rw [hidle] at hinput
      cases hinput
    have hreleased : exec (next settings) start (front ++ [.releaseWorkspace input.workspaceId]) =
        some (u.releaseWorkspace input.workspaceId) := by
      rw [exec_append, hfront]
      rfl
    rw [exec_append, hfront] at hrun
    change exec (next settings) (u.releaseWorkspace input.workspaceId) _ = _ at hrun
    rw [exec_append] at hrun
    obtain ⟨v, hmiddle, hrest⟩ := Option.bind_eq_some_iff.mp hrun
    obtain ⟨w, hstarted, -⟩ := Option.bind_eq_some_iff.mp hrest
    have hnew : ∃ entry ∈ w.previews, entry.startedBy = call ∧
        entry.record.workspaceId = input.workspaceId := by
      dsimp only [next] at hstarted
      split at hstarted
      · rename_i later previewId sourceState found hphase heq
        obtain ⟨entry, hentry, hcaller, hrecord⟩ := exists_finishStart (s := v) call
          (State.previewRecord later previewId sourceState found)
        have hrelease : next settings u (.releaseWorkspace input.workspaceId) =
            some (u.releaseWorkspace input.workspaceId) := rfl
        have hsame := input_exec (inv_next hu hrelease) hmiddle hcall
          (show (v.calls call).input = some later by rw [hphase]; rfl)
        obtain rfl : input = later := Option.some.inj (hinput.symm.trans hsame)
        refine ⟨entry, ?_, hcaller, by rw [hrecord]; rfl⟩
        rwa [← Option.some.inj hstarted]
      · rename_i heq
        cases heq
      · cases hstarted
    obtain ⟨entry, hentry, hcaller, hworkspace⟩ := hnew
    have hgone := hkept.released front (middle ++ [.started call (some operationId)]) back
      input.workspaceId _ w (by simp) hreleased
      (by rw [exec_append, hmiddle]; simpa using hstarted) entry hentry hworkspace
    exact hgone (hcaller ▸ hcall)
  · intro hlate
    refine ⟨fun front back u hsplit hfront => ?_, ?_⟩
    · have hu := inv_exec inv_start hfront
      exact ⟨hu.bounded, hu.counted⟩
    · rintro front middle back workspaceId t u rfl hreleased hmiddle entry hentry hworkspace hcaller
      rw [exec_append] at hreleased
      obtain ⟨v, hfront, hlast⟩ := Option.bind_eq_some_iff.mp hreleased
      obtain ⟨w, hrelease, hlast⟩ := Option.bind_eq_some_iff.mp hlast
      obtain rfl : w = t := Option.some.inj hlast
      obtain rfl : v.releaseWorkspace workspaceId = w := Option.some.inj hrelease
      have hv := inv_exec inv_start hfront
      obtain hold | ⟨before, event, after, w, rfl, hbefore, operationId, input, previewId,
        sourceState, rfl, hphase, hsame⟩ := mem_previews_exec hmiddle hentry
      · have hother := (List.mem_filter.mp hold).2
        rw [hworkspace] at hother
        simp at hother
      · have hinput := input_exec (inv_next hv hrelease) hbefore hcaller
          (show (w.calls entry.startedBy).input = some input by rw [hphase]; rfl)
        refine hlate front before (after ++ back) workspaceId entry.startedBy operationId v input
          (by simp) hfront hinput ?_
        rw [← hsame, hworkspace]

def someInput : PreviewStartInput :=
  ⟨"workspace", JsFrames.asciiUnits "node", 3000, none, none⟩

def startRun (call : CallId) : List Event :=
  [.start call someInput, .portChecked call (some false) SessionRelease.somePreview,
    .resolved call (some (List.replicate 40 48, List.replicate 64 48))]

def lateRun : List Event :=
  startRun 0 ++ [.releaseWorkspace "workspace", .started 0 (some "operation")]

def earlyRun : List Event :=
  startRun 0 ++ [.started 0 (some "operation"), .releaseWorkspace "workspace"]

theorem earlyRun_kept :
    SlotsKept SessionRelease.someSettings earlyRun ↔
      NoLateStart SessionRelease.someSettings earlyRun := by
  have hsome : (exec (next SessionRelease.someSettings) start earlyRun).isSome = true := by
    decide +kernel
  obtain ⟨s, hrun⟩ := Option.isSome_iff_exists.mp hsome
  exact slotsKept_iff SessionRelease.someSettings earlyRun s hrun

theorem lateRun_not_kept :
    ¬∀ (P : Type) (settings : Settings P) (events : List Event) (s : State),
      exec (next settings) start events = some s → SlotsKept settings events := by
  intro hall
  have hends : (exec (next SessionRelease.someSettings) start lateRun).any (fun s =>
      s.previews.any fun entry => entry.record.workspaceId = "workspace" && entry.startedBy = 0) =
        true := by
    decide +kernel
  have hbegun : (exec (next SessionRelease.someSettings) start
      (startRun 0 ++ [.releaseWorkspace "workspace"])).any (fun s => s.begun.contains 0) =
        true := by
    decide +kernel
  obtain ⟨u, hrun, hany⟩ := (Option.any_eq_true _ _).mp hends
  obtain ⟨t, hreleased, hmem⟩ := (Option.any_eq_true _ _).mp hbegun
  obtain ⟨entry, hentry, hboth⟩ := List.any_eq_true.mp hany
  obtain ⟨hworkspace, hcaller⟩ := Bool.and_eq_true_iff.mp hboth
  have hlast : exec (next SessionRelease.someSettings) t [.started 0 (some "operation")] =
      some u := by
    have hwhole : lateRun =
        (startRun 0 ++ [.releaseWorkspace "workspace"]) ++ [.started 0 (some "operation")] := rfl
    rw [hwhole, exec_append, hreleased] at hrun
    exact hrun
  have hgone := (hall Unit _ lateRun u hrun).released (startRun 0) _ [] "workspace" t u rfl
    hreleased hlast entry hentry (of_decide_eq_true hworkspace)
  rw [of_decide_eq_true hcaller] at hgone
  exact hgone (List.contains_iff_mem.mp hmem)

end KodeGpt.ReleasedPreviews
