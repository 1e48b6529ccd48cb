import KodeGpt.BrowserSessions
import KodeGpt.SessionRelease

/-!
The browsers that run: within the limit, kept in the map or about to be closed, and none of a
workspace that has been released, in runs in which no launch ends where something has changed
that its checks were about.
-/

namespace KodeGpt.OpenBrowsers

open TransitionSystem WorkspaceManager
open ToolSessions (Settings PreviewId BrowserId Browser BrowserViewport PreviewOrigin
  EvidenceSourceStateRef SessionDraft SessionRecord setRecord maxBrowserSessions)
open BrowserSessions

def IsKept (s : State) (browser : Browser) : Prop :=
  ∃ record ∈ s.sessions, record.browser = browser.id ∧
    record.isOf browser.workspaceId browser.previewId = true

/-- A call has called `driver.close` and awaits the answer. -/
def IsClosing (s : State) (browser : Browser) : Prop :=
  ∃ call, (s.calls call).closes = some browser.id

structure Sound (s : State) : Prop where
  limit : s.browsers.length ≤ maxBrowserSessions
  kept : ∀ browser ∈ s.browsers, IsKept s browser ∨ IsClosing s browser
  released : ∀ call workspaceId opened, s.calls call = .released (some workspaceId) opened →
    ∀ browser ∈ s.browsers, browser.workspaceId = workspaceId → browser.id < opened →
      IsClosing s browser

/-- No session is kept for the preview. -/
def Unopened (s : State) (workspaceId : WorkspaceId) (previewId : PreviewId) : Prop :=
  ∀ record ∈ s.sessions, record.isOf workspaceId previewId = false

/-- A launch ends while fewer browsers run than the limit, no session is kept for its preview and
its workspace is not being released. A browser that goes away has no other session kept for its
preview, and one that is closed stops. -/
def Orderly (s : State) : Event → Prop
  | .launched call true => ∀ draft, s.calls call = .launching draft false →
      Unopened s draft.workspaceId draft.previewId ∧ s.browsers.length < maxBrowserSessions ∧
        ∀ other rest browser, s.calls other ≠ .releasing (some draft.workspaceId) rest browser
  | .launchDisconnected call => ∀ draft, s.calls call = .launching draft false →
      Unopened s draft.workspaceId draft.previewId
  | .browserClosed call false => ∀ browser ∈ s.browsers, (s.calls call).closes ≠ some browser.id
  | .disconnected id => ∀ browser ∈ s.browsers, browser.id = id → ∀ record ∈ s.sessions,
      record.isOf browser.workspaceId browser.previewId = true → record.browser = id
  | _ => True

structure Inv (s : State) : Prop extends Sound s where
  fresh : ∀ browser ∈ s.browsers, browser.id < s.opened
  unique : ∀ record ∈ s.sessions, ∀ other ∈ s.sessions,
    other.isOf record.workspaceId record.previewId = true → other = record
  covers : ∀ call workspaceId rest browser,
    s.calls call = .releasing (some workspaceId) rest browser →
    ∀ record ∈ s.sessions, record.workspaceId = workspaceId →
      (workspaceId, record.previewId) ∈ rest
  past : ∀ call workspaceId opened, s.calls call = .released (some workspaceId) opened →
    opened ≤ s.opened

section Steps

variable {P : Type} {settings : Settings P} {s t : State} {call : CallId} {phase : Phase}

theorem isOf_iff {record : SessionRecord} {workspaceId : WorkspaceId} {previewId : PreviewId} :
    record.isOf workspaceId previewId = true ↔
      record.workspaceId = workspaceId ∧ record.previewId = previewId := by
  simp [SessionRecord.isOf]

theorem inv_start : Inv start where
  limit := Nat.zero_le _
  kept := nofun
  released := nofun
  fresh := nofun
  unique := nofun
  covers := nofun
  past := nofun

/-- A call goes on. Sessions and browsers may be gone afterwards, but no browser that runs is
lost. -/
theorem Inv.advance (h : Inv s) (hcalls : t.calls = Function.update s.calls call phase)
    (hopened : t.opened = s.opened) (hbrowsers : t.browsers.Sublist s.browsers)
    (hsessions : t.sessions ⊆ s.sessions)
    (hkept : ∀ browser ∈ t.browsers, IsKept s browser →
      IsKept t browser ∨ phase.closes = some browser.id)
    (hclosing : ∀ browser ∈ t.browsers, (s.calls call).closes = some browser.id →
      phase.closes = some browser.id)
    (hcovers : ∀ workspaceId rest browser, phase = .releasing (some workspaceId) rest browser →
      ∀ record ∈ t.sessions, record.workspaceId = workspaceId →
        (workspaceId, record.previewId) ∈ rest)
    (hreleased : ∀ workspaceId opened, phase = .released (some workspaceId) opened →
      s.calls call = phase ∨
        (opened ≤ s.opened ∧ ∀ record ∈ t.sessions, record.workspaceId ≠ workspaceId)) : Inv t := by
  have hself : t.calls call = phase := by rw [hcalls, Function.update_self]
  have hother : ∀ {other}, other ≠ call → t.calls other = s.calls other := by
    intro other hne
    rw [hcalls, Function.update_of_ne hne]
  have hstill : ∀ browser ∈ t.browsers, IsClosing s browser → IsClosing t browser := by
    rintro browser hbrowser ⟨other, hcloses⟩
    by_cases hne : other = call
    · subst hne
      exact ⟨other, by rw [hself]; exact hclosing browser hbrowser hcloses⟩
    · exact ⟨other, by rw [hother hne]; exact hcloses⟩
  have hkeeps : ∀ browser ∈ t.browsers, IsKept t browser ∨ IsClosing t browser := by
    intro browser hbrowser
    obtain hold | hold := h.kept browser (hbrowsers.subset hbrowser)
    · refine (hkept browser hbrowser hold).imp_right fun hcloses => ?_
      exact ⟨call, by rw [hself]; exact hcloses⟩
    · exact Or.inr (hstill browser hbrowser hold)
  refine ⟨⟨?_, hkeeps, ?_⟩, ?_, ?_, ?_, ?_⟩
  · exact Nat.le_trans hbrowsers.length_le h.limit
  · intro other workspaceId opened hphase browser hbrowser hworkspace hid
    have hold : s.calls other = .released (some workspaceId) opened → IsClosing t browser :=
      fun hphase => hstill browser hbrowser (h.released other workspaceId opened hphase browser
        (hbrowsers.subset hbrowser) hworkspace hid)
    by_cases hne : other = call
    · subst hne
      have heq := hself.symm.trans hphase
      obtain hsame | ⟨-, hgone⟩ := hreleased workspaceId opened heq
      · exact hold (hsame.trans heq)
      · refine (hkeeps browser hbrowser).resolve_left ?_
        rintro ⟨record, hrecord, -, hof⟩
        exact hgone record hrecord ((isOf_iff.mp hof).1.trans hworkspace)
    · exact hold ((hother hne).symm.trans hphase)
  · intro browser hbrowser
    rw [hopened]
    exact h.fresh browser (hbrowsers.subset hbrowser)
  · intro record hrecord other hmem
    exact h.unique record (hsessions hrecord) other (hsessions hmem)
  · intro other workspaceId rest browser hphase record hrecord
    by_cases hne : other = call
    · subst hne
      exact hcovers workspaceId rest browser (hself.symm.trans hphase) record hrecord
    · rw [hother hne] at hphase
      exact h.covers other workspaceId rest browser hphase record (hsessions hrecord)
  · intro other workspaceId opened hphase
    rw [hopened]
    by_cases hne : other = call
    · subst hne
      have heq := hself.symm.trans hphase
      obtain hsame | ⟨hpast, -⟩ := hreleased workspaceId opened heq
      · exact h.past other workspaceId opened (hsame.trans heq)
      · exact hpast
    · exact h.past other workspaceId opened ((hother hne).symm.trans hphase)

structure IsPlain (phase : Phase) : Prop where
  closes : phase.closes = none
  releasing : ∀ scope rest browser, phase ≠ .releasing scope rest browser
  released : ∀ scope opened, phase ≠ .released scope opened

theorem Inv.setCall (h : Inv s) (hcloses : (s.calls call).closes = none) (hphase : IsPlain phase) :
    Inv (s.setCall call phase) :=
  h.advance rfl rfl (List.Sublist.refl _) (List.Subset.refl _)
    (fun _ _ hkept => Or.inl hkept) (fun _ _ hold => by rw [hcloses] at hold; cases hold)
    (fun _ _ _ heq => absurd heq (hphase.releasing _ _ _))
    (fun _ _ heq => absurd heq (hphase.released _ _))

theorem Inv.releaseSession (h : Inv s) (hcloses : (s.calls call).closes = none)
    (workspaceId : WorkspaceId) (previewId : PreviewId) {next : Option BrowserId → Phase}
    (hnext : ∀ browser, (next browser).closes = browser)
    (hreleased : ∀ browser scope opened, next browser ≠ .released scope opened)
    (hcovers : ∀ browser workspace rest, next browser = .releasing (some workspace) rest browser →
      ∀ record ∈ s.sessions, record.workspaceId = workspace →
        record.isOf workspaceId previewId = true ∨ (workspace, record.previewId) ∈ rest) :
    Inv (s.releaseSession call workspaceId previewId next) := by
  have hclosing : ∀ (browser : Browser) (phase : Phase),
      (s.calls call).closes = some browser.id → phase.closes = some browser.id := by
    intro browser phase hold
    rw [hcloses] at hold
    cases hold
  have hends : ∀ {found workspace rest browser},
      next found = .releasing (some workspace) rest browser → browser = found := by
    intro found workspace rest browser heq
    have hsame := hnext found
    rw [heq] at hsame
    exact hsame
  unfold State.releaseSession
  cases hfind : s.find workspaceId previewId with
  | some record =>
    have hmem : record ∈ s.sessions := List.mem_of_find?_eq_some hfind
    have hof : record.isOf workspaceId previewId = true := List.find?_some hfind
    dsimp only
    refine h.advance rfl rfl (List.Sublist.refl _) List.filter_sublist.subset ?_
      (fun browser _ hold => hclosing browser _ hold) ?_
      (fun _ _ heq => absurd heq (hreleased _ _ _))
    · rintro browser - ⟨kept, hkept, hbrowser, hkey⟩
      by_cases hgone : kept.isOf workspaceId previewId = true
      · have hsame : kept = record := by
          refine h.unique record hmem kept hkept ?_
          obtain ⟨hworkspace, hpreview⟩ := isOf_iff.mp hof
          rw [hworkspace, hpreview]
          exact hgone
        refine Or.inr ?_
        rw [hnext, ← hbrowser, hsame]
      · refine Or.inl ⟨kept, List.mem_filter.mpr ⟨hkept, ?_⟩, hbrowser, hkey⟩
        rw [Bool.eq_false_iff.mpr hgone]
        rfl
    · intro workspace rest browser heq kept hkept hworkspace
      obtain ⟨hkept, hgone⟩ := List.mem_filter.mp hkept
      obtain rfl := hends heq
      refine (hcovers _ workspace rest heq kept hkept hworkspace).resolve_left fun hof => ?_
      rw [hof] at hgone
      cases hgone
  | none =>
    refine h.advance rfl rfl (List.Sublist.refl _) (List.Subset.refl _)
      (fun _ _ hkept => Or.inl hkept) (fun browser _ hold => hclosing browser _ hold) ?_
      (fun _ _ heq => absurd heq (hreleased _ _ _))
    intro workspace rest browser heq kept hkept hworkspace
    obtain rfl := hends heq
    refine (hcovers _ workspace rest heq kept hkept hworkspace).resolve_left ?_
    exact List.find?_eq_none.mp hfind kept hkept

theorem Inv.releaseRest (h : Inv s) (hcloses : (s.calls call).closes = none)
    (scope : Option WorkspaceId) (rest : List (WorkspaceId × PreviewId))
    (hcovers : ∀ workspaceId, scope = some workspaceId → ∀ record ∈ s.sessions,
      record.workspaceId = workspaceId → (workspaceId, record.previewId) ∈ rest) :
    Inv (s.releaseRest call scope rest) := by
  cases rest with
  | nil =>
    refine h.advance rfl rfl (List.Sublist.refl _) (List.Subset.refl _)
      (fun _ _ hkept => Or.inl hkept)
      (fun _ _ hold => by rw [hcloses] at hold; cases hold) nofun ?_
    rintro workspaceId opened ⟨⟩
    exact Or.inr ⟨Nat.le_refl _, fun record hrecord hworkspace =>
      List.not_mem_nil (hcovers workspaceId rfl record hrecord hworkspace)⟩
  | cons key rest =>
    refine h.releaseSession hcloses key.1 key.2 (fun _ => rfl) nofun ?_
    rintro browser workspaceId rest ⟨⟩ record hrecord hworkspace
    obtain heq | hmem := List.mem_cons.mp (hcovers workspaceId rfl record hrecord hworkspace)
    · exact Or.inl (isOf_iff.mpr ⟨hworkspace.trans (congrArg Prod.fst heq),
        congrArg Prod.snd heq⟩)
    · exact Or.inr hmem

theorem thenSettle_closes (fulfilled : Bool) (browser : Option BrowserId) :
    (State.thenSettle fulfilled browser).closes = browser := by
  cases browser <;> rfl

theorem Inv.releaseThenSettle (h : Inv s) (hcloses : (s.calls call).closes = none)
    (workspaceId : WorkspaceId) (previewId : PreviewId) (fulfilled : Bool) :
    Inv (s.releaseSession call workspaceId previewId (State.thenSettle fulfilled)) := by
  refine h.releaseSession hcloses workspaceId previewId (thenSettle_closes fulfilled) ?_ ?_
  · intro browser scope opened heq
    cases browser <;> cases heq
  · intro browser workspace rest heq
    cases browser <;> cases heq

theorem Inv.launch (h : Inv s) {draft : SessionDraft}
    (hcall : s.calls call = .launching draft false)
    (hunopened : Unopened s draft.workspaceId draft.previewId)
    (hlimit : s.browsers.length < maxBrowserSessions)
    (hreleasing : ∀ other rest browser,
      s.calls other ≠ .releasing (some draft.workspaceId) rest browser) :
    Inv (s.launch call draft) := by
  generalize hrecord : ({ toSessionDraft := draft, browser := s.opened } : SessionRecord) = record
  have hnone : s.sessions.any (SessionRecord.isOf draft.workspaceId draft.previewId) = false := by
    rw [List.any_eq_false]
    intro other hother
    rw [hunopened other hother]
    exact Bool.false_ne_true
  have hsessions : (s.launch call draft).sessions = s.sessions ++ [record] := by
    change setRecord _ _ _ = _
    rw [setRecord, hnone, if_neg Bool.false_ne_true, hrecord]
  have hbrowsers : (s.launch call draft).browsers =
      s.browsers ++ [Browser.mk s.opened draft.workspaceId draft.previewId] := rfl
  have hother : ∀ {other phase}, (s.launch call draft).calls other = phase →
      (∀ fulfilled, phase ≠ .settled fulfilled) → s.calls other = phase := by
    intro other phase hphase hsettled
    change Function.update s.calls call (.settled true) other = phase at hphase
    by_cases hne : other = call
    · subst hne
      rw [Function.update_self] at hphase
      exact absurd hphase.symm (hsettled true)
    · rwa [Function.update_of_ne hne] at hphase
  have hstill : ∀ browser, IsClosing s browser → IsClosing (s.launch call draft) browser := by
    rintro browser ⟨other, hcloses⟩
    have hne : other ≠ call := by
      rintro rfl
      rw [hcall] at hcloses
      cases hcloses
    refine ⟨other, ?_⟩
    change (Function.update s.calls call (.settled true) other).closes = _
    rwa [Function.update_of_ne hne]
  have hkey : record.workspaceId = draft.workspaceId ∧ record.previewId = draft.previewId := by
    rw [← hrecord]
    exact ⟨rfl, rfl⟩
  refine ⟨⟨?_, ?_, ?_⟩, ?_, ?_, ?_, ?_⟩
  · rw [hbrowsers, List.length_append, List.length_singleton]
    exact hlimit
  · intro browser hbrowser
    rw [hbrowsers] at hbrowser
    obtain hold | hnew := List.mem_append.mp hbrowser
    · refine (h.kept browser hold).imp ?_ (hstill browser)
      rintro ⟨kept, hkept, hboth⟩
      exact ⟨kept, hsessions ▸ List.mem_append_left _ hkept, hboth⟩
    · rw [List.mem_singleton.mp hnew]
      refine Or.inl ⟨record, hsessions ▸ List.mem_append_right _ List.mem_cons_self, ?_,
        isOf_iff.mpr hkey⟩
      rw [← hrecord]
  · intro other workspaceId opened hphase browser hbrowser hworkspace hid
    have hphase := hother hphase (by simp)
    rw [hbrowsers] at hbrowser
    obtain hold | hnew := List.mem_append.mp hbrowser
    · exact hstill browser (h.released other workspaceId opened hphase browser hold hworkspace hid)
    · rw [List.mem_singleton.mp hnew] at hid
      exact absurd (h.past other workspaceId opened hphase) (Nat.not_le.mpr hid)
  · intro browser hbrowser
    rw [hbrowsers] at hbrowser
    change browser.id < s.opened + 1
    obtain hold | hnew := List.mem_append.mp hbrowser
    · exact Nat.lt_succ_of_lt (h.fresh browser hold)
    · rw [List.mem_singleton.mp hnew]
      exact Nat.lt_succ_self _
  · rw [hsessions]
    intro first hfirst second hsecond hof
    obtain hold | hnew := List.mem_append.mp hfirst
    · obtain hsecond | hsecond := List.mem_append.mp hsecond
      · exact h.unique first hold second hsecond hof
      · obtain rfl := List.mem_singleton.mp hsecond
        obtain ⟨hworkspace, hpreview⟩ := isOf_iff.mp hof
        have hopen := hunopened first hold
        rw [isOf_iff.mpr ⟨hworkspace.symm.trans hkey.1, hpreview.symm.trans hkey.2⟩] at hopen
        cases hopen
    · obtain rfl := List.mem_singleton.mp hnew
      obtain hsecond | hsecond := List.mem_append.mp hsecond
      · have hopen := hunopened second hsecond
        rw [← hkey.1, ← hkey.2, hof] at hopen
        cases hopen
      · exact List.mem_singleton.mp hsecond
  · intro other workspaceId rest browser hphase kept hkept hworkspace
    have hphase := hother hphase (by simp)
    rw [hsessions] at hkept
    obtain hold | hnew := List.mem_append.mp hkept
    · exact h.covers other workspaceId rest browser hphase kept hold hworkspace
    · obtain rfl := List.mem_singleton.mp hnew
      obtain rfl := hkey.1.symm.trans hworkspace
      exact absurd hphase (hreleasing other rest browser)
  · intro other workspaceId opened hphase
    exact Nat.le_succ_of_le (h.past other workspaceId opened (hother hphase (by simp)))

theorem Inv.openLive (h : Inv s) (hcloses : (s.calls call).closes = none)
    (workspaceId : WorkspaceId) (previewId : PreviewId) (viewport : Option BrowserViewport)
    (parsed : PreviewOrigin) (sourceState : EvidenceSourceStateRef) :
    Inv (s.openLive call workspaceId previewId viewport parsed sourceState) := by
  have hsettled : ∀ fulfilled, Inv (s.setCall call (.settled fulfilled)) :=
    fun _ => h.setCall hcloses ⟨rfl, nofun, nofun⟩
  unfold State.openLive
  split
  · split
    · exact h.releaseThenSettle hcloses workspaceId previewId false
    · exact hsettled true
  · split
    · exact hsettled false
    · split
      · exact hsettled false
      · exact h.setCall hcloses ⟨rfl, nofun, nofun⟩

theorem mem_keys {workspaceId : WorkspaceId} {record : SessionRecord}
    (hrecord : record ∈ s.sessions) (hworkspace : record.workspaceId = workspaceId) :
    (workspaceId, record.previewId) ∈ s.keys (some workspaceId) := by
  refine List.mem_map.mpr ⟨record, List.mem_filter.mpr ⟨hrecord, ?_⟩, by rw [hworkspace]⟩
  exact decide_eq_true hworkspace

theorem enter_eq {u : State} (henter : s.enter call u = some t) : s.calls call = .idle ∧ u = t := by
  unfold State.enter at henter
  split at henter
  · rename_i hidle
    exact ⟨hidle, Option.some.inj henter⟩
  · cases henter

theorem inv_next (h : Inv s) {event : Event} (hok : Orderly s event)
    (hnext : next settings s event = some t) : Inv t := by
  cases event with
  | openPreview call workspaceId previewId viewport =>
    obtain ⟨hidle, rfl⟩ := enter_eq hnext
    exact h.setCall (by rw [hidle]; rfl) ⟨rfl, nofun, nofun⟩
  | inspected call status =>
    dsimp only [next] at hnext
    split at hnext
    · rename_i hcall
      have hcloses : (s.calls call).closes = none := by rw [hcall]; rfl
      split at hnext
      · rw [← Option.some.inj hnext]
        exact h.openLive hcloses _ _ _ _ _
      · rw [← Option.some.inj hnext]
        exact h.setCall hcloses ⟨rfl, nofun, nofun⟩
    · cases hnext
  | launched call fulfilled =>
    dsimp only [next] at hnext
    split at hnext
    · rename_i draft hcall
      split at hnext
      · rename_i hfulfilled
        rw [← Option.some.inj hnext]
        subst hfulfilled
        obtain ⟨hunopened, hlimit, hreleasing⟩ := hok draft hcall
        exact h.launch hcall hunopened hlimit hreleasing
      · rw [← Option.some.inj hnext]
        exact h.setCall (by rw [hcall]; rfl) ⟨rfl, nofun, nofun⟩
    · rename_i hcall
      rw [← Option.some.inj hnext]
      exact h.setCall (by rw [hcall]; rfl) ⟨rfl, nofun, nofun⟩
    · cases hnext
  | launchDisconnected call =>
    dsimp only [next] at hnext
    split at hnext
    · rename_i draft hcall
      rw [← Option.some.inj hnext]
      have hsame : (s.deleteSession draft.workspaceId draft.previewId).sessions = s.sessions :=
        List.filter_eq_self.mpr fun record hrecord => by rw [hok draft hcall record hrecord]; rfl
      have hstate : s.deleteSession draft.workspaceId draft.previewId = s := by
        rw [State.deleteSession] at hsame ⊢
        exact congrArg (fun sessions => { s with sessions }) hsame
      rw [hstate]
      exact h.setCall (by rw [hcall]; rfl) ⟨rfl, nofun, nofun⟩
    · cases hnext
  | releasePreview call workspaceId previewId =>
    obtain ⟨hidle, rfl⟩ := enter_eq hnext
    exact h.releaseThenSettle (by rw [hidle]; rfl) workspaceId previewId true
  | releaseWorkspace call workspaceId =>
    obtain ⟨hidle, rfl⟩ := enter_eq hnext
    refine h.releaseRest (by rw [hidle]; rfl) _ _ ?_
    rintro workspaceId ⟨⟩ record hrecord hworkspace
    exact mem_keys hrecord hworkspace
  | close call =>
    obtain ⟨hidle, rfl⟩ := enter_eq hnext
    exact h.releaseRest (by rw [hidle]; rfl) _ _ nofun
  | browserClosed call stopped =>
    dsimp only [next] at hnext
    split at hnext
    · rename_i id hcloses
      have hcovers : ∀ workspaceId rest browser,
          (s.calls call).browserClosed = .releasing (some workspaceId) rest browser →
          ∀ record ∈ s.sessions, record.workspaceId = workspaceId →
            (workspaceId, record.previewId) ∈ rest := by
        intro workspaceId rest browser heq
        cases hcall : s.calls call with
        | releasing scope rest' browser' =>
          rw [hcall] at heq
          cases heq
          exact h.covers call workspaceId rest browser' hcall
        | _ =>
          rw [hcall] at heq
          cases heq
      have hreleased : ∀ workspaceId opened,
          (s.calls call).browserClosed ≠ .released (some workspaceId) opened := by
        intro workspaceId opened heq
        cases hcall : s.calls call with
        | released scope opened =>
          rw [hcall] at hcloses
          cases hcloses
        | _ =>
          rw [hcall] at heq
          cases heq
      rw [← Option.some.inj hnext]
      cases stopped with
      | true =>
        refine h.advance rfl rfl List.filter_sublist (List.Subset.refl _)
          (fun _ _ hkept => Or.inl hkept) ?_ hcovers
          (fun _ _ heq => absurd heq (hreleased _ _))
        intro browser hbrowser hold
        have hid := (List.mem_filter.mp hbrowser).2
        rw [hcloses] at hold
        rw [Option.some.inj hold] at hid
        simp at hid
      | false =>
        exact h.advance rfl rfl (List.Sublist.refl _) (List.Subset.refl _)
          (fun _ _ hkept => Or.inl hkept)
          (fun browser hbrowser hold => absurd hold (hok browser hbrowser)) hcovers
          (fun _ _ heq => absurd heq (hreleased _ _))
    · cases hnext
  | releaseNext call =>
    dsimp only [next] at hnext
    split at hnext
    · rename_i scope rest hcall
      rw [← Option.some.inj hnext]
      refine h.releaseRest (by rw [hcall]; rfl) scope rest ?_
      rintro workspaceId rfl record hrecord hworkspace
      exact h.covers call workspaceId rest none hcall record hrecord hworkspace
    · cases hnext
  | disconnected id =>
    obtain ⟨browser, hfind, rfl⟩ := Option.map_eq_some_iff.mp hnext
    have hmem : browser ∈ s.browsers := List.mem_of_find?_eq_some hfind
    have hid : browser.id = id := by simpa using List.find?_some hfind
    refine h.advance (Function.update_eq_self 0 s.calls).symm rfl List.filter_sublist
      List.filter_sublist.subset ?_ (fun _ _ hold => hold) ?_ (fun _ _ _ => Or.inl rfl)
    · rintro other hother ⟨record, hrecord, hbrowser, hof⟩
      have hne : other.id ≠ browser.id := by simpa using (List.mem_filter.mp hother).2
      refine Or.inl ⟨record, List.mem_filter.mpr ⟨hrecord, ?_⟩, hbrowser, hof⟩
      rw [Bool.not_eq_true', Bool.eq_false_iff]
      intro hsame
      exact hne (hbrowser.symm.trans ((hok browser hmem hid record hrecord hsame).trans hid.symm))
    · intro workspaceId rest other heq record hrecord
      exact h.covers 0 workspaceId rest other heq record (List.mem_of_mem_filter hrecord)

end Steps

/-- In an orderly run the browsers stay within the limit, none that runs is lost, and a workspace
that has been released leaves none. -/
theorem sound_of_orderly {P : Type} (settings : Settings P) (events : List Event) (s : State)
    (hrun : exec (next settings) start events = some s)
    (hok : AllSteps (next settings) Orderly start events) : Sound s := by
  have hstep : ∀ s event t, Inv s → Orderly s event → next settings s event = some t → Inv t :=
    fun _ _ _ h hevent hnext => inv_next h hevent hnext
  exact (exec_invariant hstep inv_start hok hrun).toSound

def someStatus : LiveStatus where
  url := JsFrames.asciiUnits "http://127.0.0.1:3000/"
  sourceState := ⟨⟨List.replicate 40 48, by decide⟩, ⟨List.replicate 64 48, by decide⟩⟩

def someOpen (call : CallId) : Event :=
  .openPreview call "workspace" SessionRelease.somePreview none

def someDraft : SessionDraft :=
  ⟨"workspace", SessionRelease.somePreview, someStatus.url, someStatus.url, ⟨1280, 720⟩,
    someStatus.sourceState⟩

def openRun : List Event := [someOpen 0, .inspected 0 (some someStatus), .launched 0 true]

theorem openRun_sound :
    ∃ s, exec (next SessionRelease.someSettings) start openRun = some s ∧ Sound s := by
  have hinspected : next SessionRelease.someSettings
      (start.setCall 0 (.inspecting "workspace" SessionRelease.somePreview none))
      (.inspected 0 (some someStatus)) = some
        ((start.setCall 0 (.inspecting "workspace" SessionRelease.somePreview none)).setCall 0
          (.launching someDraft false)) := rfl
  have hrun : exec (next SessionRelease.someSettings) start openRun = some
      (((start.setCall 0 (.inspecting "workspace" SessionRelease.somePreview none)).setCall 0
        (.launching someDraft false)).launch 0 someDraft) := by
    rw [openRun, exec_cons]
    change (next SessionRelease.someSettings
      (start.setCall 0 (.inspecting "workspace" SessionRelease.somePreview none))
      (.inspected 0 (some someStatus))).bind (fun t => exec (next SessionRelease.someSettings) t
        [.launched 0 true]) = _
    rw [hinspected]
    rfl
  refine ⟨_, hrun, sound_of_orderly SessionRelease.someSettings openRun _ hrun
    ⟨trivial, fun t ht => ⟨trivial, fun u hu => ⟨fun draft hcall => ?_, fun _ _ => trivial⟩⟩⟩⟩
  obtain rfl := Option.some.inj ht
  obtain rfl := Option.some.inj (hinspected.symm.trans hu)
  refine ⟨nofun, by decide, fun other rest browser hother => ?_⟩
  change Function.update (Function.update (fun _ => Phase.idle) 0 _) 0 _ other = _ at hother
  by_cases hne : other = 0
  · rw [hne, Function.update_self] at hother
    cases hother
  · rw [Function.update_of_ne hne, Function.update_of_ne hne] at hother
    cases hother

def overlappingRun : List Event :=
  (List.range 9).map someOpen ++
    (List.range 9).map (fun call => .inspected call (some someStatus)) ++
    (List.range 9).map fun call => .launched call true

/-- Nine browsers run, and the map has one session. -/
theorem overlappingRun_not_sound :
    ¬∀ (P : Type) (settings : Settings P) (events : List Event) (s : State),
      exec (next settings) start events = some s → Sound s := by
  intro hall
  have hends : (exec (next SessionRelease.someSettings) start overlappingRun).any (fun s =>
      s.browsers.length = 9 && s.sessions.length = 1) = true := by
    decide +kernel
  obtain ⟨s, hrun, hlengths⟩ := (Option.any_eq_true _ _).mp hends
  have hlimit := (hall Unit SessionRelease.someSettings overlappingRun s hrun).limit
  rw [of_decide_eq_true (Bool.and_eq_true_iff.mp hlengths).1] at hlimit
  exact absurd hlimit (by decide)

end KodeGpt.OpenBrowsers
