import KodeGpt.TransitionSystem
import KodeGpt.TrustStore

/-!
Calls of `trust` and `untrust` that run concurrently on one state root, from any
number of stores and processes. A call gives up control wherever it waits; what
it shares with the others is the file alone.
-/

namespace KodeGpt.TrustStoreRuns

open JsonText TransitionSystem TrustStore

abbrev CallId := Nat

/-- What `#write` waits for, in order. -/
inductive WriteStep where
  | mkdir
  | chmodDirectory
  | openTemporary
  | writeFile
  | sync
  | close
  | rename
  | chmodFile
  | openDirectory
  | syncDirectory
  | closeDirectory
  deriving DecidableEq, Repr

namespace WriteStep

def following : WriteStep → Option WriteStep
  | mkdir => some chmodDirectory
  | chmodDirectory => some openTemporary
  | openTemporary => some writeFile
  | writeFile => some sync
  | sync => some close
  | close => some rename
  | rename => some chmodFile
  | chmodFile => some openDirectory
  | openDirectory => some syncDirectory
  | syncDirectory => some closeDirectory
  | closeDirectory => none

def replaced : WriteStep → Bool
  | chmodFile | openDirectory | syncDirectory | closeDirectory => true
  | _ => false

theorem replaced_following {step later : WriteStep} (hstep : step ≠ rename)
    (hlater : step.following = some later) : later.replaced = step.replaced := by
  cases step <;> cases hlater <;> first | rfl | exact absurd rfl hstep

theorem replaced_last {step : WriteStep} (hlast : step.following = none) :
    step.replaced = true := by
  cases step <;> first | rfl | cases hlast

end WriteStep

/-- A call that writes remembers the document it has read; the code has only the
one it makes of it. -/
inductive CallPhase where
  | idle
  | reading (call : TrustCall)
  | writing (call : TrustCall) (seen next : List TrustedWorkspaceEntry) (step : WriteStep)
  | returned (call : TrustCall) (result : Except TrustStoreError Unit)

structure TrustRun where
  file : TrustFile
  calls : CallId → CallPhase

/-- `fails` is what the host answers the call that is waited for. -/
inductive TrustEvent where
  | start (id : CallId) (call : TrustCall)
  | read (id : CallId) (fails : Bool)
  | write (id : CallId) (fails : Bool)

namespace TrustRun

def started (file : TrustFile) : TrustRun := { file := file, calls := fun _ => .idle }

def setPhase (run : TrustRun) (id : CallId) (phase : CallPhase) : TrustRun :=
  { run with calls := Function.update run.calls id phase }

@[simp] theorem setPhase_self (run : TrustRun) (id : CallId) (phase : CallPhase) :
    (run.setPhase id phase).calls id = phase := by
  simp [setPhase]

@[simp] theorem setPhase_of_ne (run : TrustRun) {id other : CallId} (phase : CallPhase)
    (hother : other ≠ id) : (run.setPhase id phase).calls other = run.calls other := by
  simp [setPhase, hother]

def afterStart (call : TrustCall) : CallPhase :=
  match call.validate with
  | .ok _ => .reading call
  | .error error => .returned call (.error error)

def afterRead (locale : LocaleOrder) (file : TrustFile) (fails : Bool) (call : TrustCall) :
    CallPhase :=
  if fails then .returned call (.error .io)
  else
    match readDocument file with
    | .error error => .returned call (.error error)
    | .ok entries =>
      match call.update locale entries with
      | none => .returned call (.ok ())
      | some next => .writing call entries next .mkdir

def afterStep (call : TrustCall) (seen next : List TrustedWorkspaceEntry) (step : WriteStep) :
    CallPhase :=
  match step.following with
  | some later => .writing call seen next later
  | none => .returned call (.ok ())

def next (locale : LocaleOrder) (run : TrustRun) : TrustEvent → Option TrustRun
  | .start id call =>
    match run.calls id with
    | .idle => some (run.setPhase id (afterStart call))
    | _ => none
  | .read id fails =>
    match run.calls id with
    | .reading call => some (run.setPhase id (afterRead locale run.file fails call))
    | _ => none
  | .write id fails =>
    match run.calls id with
    | .writing call seen next step =>
      if fails then some (run.setPhase id (.returned call (.error .io)))
      else if step = .rename then
        some ({ run with file := .value (documentJson next) }.setPhase id
          (afterStep call seen next step))
      else some (run.setPhase id (afterStep call seen next step))
    | _ => none

end TrustRun

/-- A rename finds the document that its call has read, and nothing fails once
it has been made. -/
def Undisturbed (run : TrustRun) : TrustEvent → Prop
  | .write id fails =>
    match run.calls id with
    | .writing _ seen _ step =>
      (step = .rename → fails = false → readDocument run.file = .ok seen) ∧
        (step.replaced = true → fails = false)
    | _ => True
  | _ => True

instance (run : TrustRun) : ∀ event, Decidable (Undisturbed run event)
  | .start .. | .read .. => isTrue trivial
  | .write id fails =>
    match hphase : run.calls id with
    | .writing _ seen _ step =>
      decidable_of_iff ((step = .rename → fails = false → readDocument run.file = .ok seen) ∧
        (step.replaced = true → fails = false)) (by simp only [Undisturbed, hphase])
    | .idle | .reading _ | .returned .. => isTrue (by simp only [Undisturbed, hphase])

def inFlight : CallPhase → Bool
  | .reading _ | .writing .. => true
  | .idle | .returned .. => false

/-- The call is to be found in the document, or has found nothing to do. -/
def Committed (call : TrustCall) : CallPhase → Prop
  | .writing this _ _ step => this = call ∧ step.replaced = true
  | .returned this (.ok _) => this = call
  | _ => False

def Sound (locale : LocaleOrder) : CallPhase → Prop
  | .reading call => call.validate = .ok ()
  | .writing call seen next _ =>
    call.validate = .ok () ∧ (∀ entry ∈ seen, ValidEntry entry) ∧
      call.update locale seen = some next
  | _ => True

abbrev Order := List (CallId × TrustCall)

def applyAll (locale : LocaleOrder) (order : Order) (entries : List TrustedWorkspaceEntry) :
    List TrustedWorkspaceEntry :=
  order.foldl (fun entries call => call.2.apply locale entries) entries

theorem applyAll_concat (locale : LocaleOrder) (order : Order) (id : CallId) (call : TrustCall)
    (entries : List TrustedWorkspaceEntry) :
    applyAll locale (order ++ [(id, call)]) entries =
      call.apply locale (applyAll locale order entries) := by
  simp [applyAll]

/-- The document is what the committed calls make of the first one, in the order
in which they were committed. -/
structure Linear (locale : LocaleOrder) (file : TrustFile) (order : Order) (run : TrustRun) :
    Prop where
  document : readDocument run.file = (readDocument file).map (applyAll locale order)
  distinct : (order.map Prod.fst).Nodup
  committed : ∀ id call, (id, call) ∈ order ↔ Committed call (run.calls id)
  sound : ∀ id, Sound locale (run.calls id)

namespace Linear

variable {locale : LocaleOrder} {file : TrustFile} {order : Order} {run : TrustRun} {id : CallId}
  {phase : CallPhase}

theorem started (locale : LocaleOrder) (file : TrustFile) :
    Linear locale file [] (TrustRun.started file) := by
  refine ⟨?_, List.nodup_nil, ?_, fun _ => trivial⟩
  · rw [TrustRun.started]
    cases readDocument file <;> rfl
  · intro id call
    exact ⟨nofun, False.elim⟩

theorem sound_setPhase (h : Linear locale file order run) (hphase : Sound locale phase) :
    ∀ other, Sound locale ((run.setPhase id phase).calls other) := by
  intro other
  rcases eq_or_ne other id with rfl | hother
  · rw [TrustRun.setPhase_self]
    exact hphase
  · rw [TrustRun.setPhase_of_ne run _ hother]
    exact h.sound other

/-- A step that commits nothing and gives up nothing that was committed. -/
theorem keep (h : Linear locale file order run) (hphase : Sound locale phase)
    (hcommitted : ∀ call, Committed call phase ↔ Committed call (run.calls id)) :
    Linear locale file order (run.setPhase id phase) := by
  refine ⟨h.document, h.distinct, ?_, h.sound_setPhase hphase⟩
  intro other call
  rw [h.committed]
  rcases eq_or_ne other id with rfl | hother
  · rw [TrustRun.setPhase_self, hcommitted]
  · rw [TrustRun.setPhase_of_ne run _ hother]

/-- A step that commits its call to the document as it is. -/
theorem commit (h : Linear locale file order run) (hphase : Sound locale phase) {call : TrustCall}
    (hbefore : ∀ call, ¬Committed call (run.calls id))
    (hafter : ∀ this, Committed this phase ↔ this = call) {entries : List TrustedWorkspaceEntry}
    (hread : readDocument run.file = .ok entries) {replacement : TrustFile}
    (hreplacement : readDocument replacement = .ok (call.apply locale entries)) :
    Linear locale file (order ++ [(id, call)])
      ({ run with file := replacement }.setPhase id phase) := by
  refine ⟨?_, ?_, ?_, h.sound_setPhase hphase⟩
  · have hdocument := h.document
    rw [hread] at hdocument
    cases hfile : readDocument file with
    | error error =>
      rw [hfile] at hdocument
      cases hdocument
    | ok first =>
      rw [hfile] at hdocument
      have hentries : entries = applyAll locale order first := Except.ok.inj hdocument
      show readDocument replacement = .ok (applyAll locale (order ++ [(id, call)]) first)
      rw [hreplacement, applyAll_concat, ← hentries]
  · rw [List.map_append, List.nodup_append]
    refine ⟨h.distinct, List.nodup_singleton _, ?_⟩
    rintro earlier hearlier other hother rfl
    obtain rfl := List.mem_singleton.mp hother
    obtain ⟨⟨_, this⟩, hmem, rfl⟩ := List.mem_map.mp hearlier
    exact hbefore this ((h.committed _ _).mp hmem)
  · intro other this
    rw [List.mem_append, List.mem_singleton, Prod.mk.injEq, h.committed]
    rcases eq_or_ne other id with rfl | hother
    · rw [TrustRun.setPhase_self, hafter]
      simp [hbefore this]
    · rw [TrustRun.setPhase_of_ne _ _ hother]
      simp [hother]

end Linear

theorem linear_start {locale : LocaleOrder} {file : TrustFile} {order : Order} {run : TrustRun}
    (h : Linear locale file order run) {id : CallId} (call : TrustCall)
    (hidle : run.calls id = .idle) :
    Linear locale file order (run.setPhase id (TrustRun.afterStart call)) := by
  rw [TrustRun.afterStart]
  cases hvalid : call.validate with
  | ok _ => exact h.keep hvalid fun _ => by rw [hidle]; rfl
  | error error => exact h.keep trivial fun _ => by rw [hidle]; rfl

theorem linear_read {locale : LocaleOrder} {file : TrustFile} {order : Order} {run : TrustRun}
    (h : Linear locale file order run) {id : CallId} (fails : Bool) {call : TrustCall}
    (hreading : run.calls id = .reading call) :
    ∃ order', Linear locale file order'
      (run.setPhase id (TrustRun.afterRead locale run.file fails call)) := by
  have hvalid : call.validate = .ok () := by
    have hsound := h.sound id
    rwa [hreading] at hsound
  have hbefore : ∀ call, ¬Committed call (run.calls id) := by
    rw [hreading]
    exact fun _ hcommitted => hcommitted
  rw [TrustRun.afterRead]
  split
  · exact ⟨order, h.keep trivial fun _ => by rw [hreading]; rfl⟩
  · cases hread : readDocument run.file with
    | error error => exact ⟨order, h.keep trivial fun _ => by rw [hreading]; rfl⟩
    | ok entries =>
      simp only
      cases hupdate : call.update locale entries with
      | none =>
        have hsame : call.apply locale entries = entries := by
          rw [TrustCall.apply, hupdate]
          rfl
        have hsound : Sound locale (.returned call (.ok ())) := trivial
        have hcommit : Linear locale file (order ++ [(id, call)])
            ({ run with file := run.file }.setPhase id (.returned call (.ok ()))) := by
          refine h.commit hsound hbefore ?_ hread ?_
          · exact fun _ => eq_comm
          · rw [hread, hsame]
        exact ⟨_, hcommit⟩
      | some next =>
        have hsound : Sound locale (.writing call entries next .mkdir) :=
          ⟨hvalid, readDocument_valid hread, hupdate⟩
        refine ⟨order, h.keep hsound ?_⟩
        intro this
        rw [hreading]
        exact ⟨fun hcommitted => (nomatch hcommitted.2), False.elim⟩

theorem linear_write {locale : LocaleOrder} {file : TrustFile} {order : Order} {run run' : TrustRun}
    (h : Linear locale file order run) {id : CallId} {fails : Bool}
    (hundisturbed : Undisturbed run (.write id fails))
    (hnext : run.next locale (.write id fails) = some run') :
    ∃ order', Linear locale file order' run' := by
  rw [TrustRun.next] at hnext
  split at hnext
  · rename_i call seen next step hwriting
    rw [Undisturbed, hwriting] at hundisturbed
    obtain ⟨hseen, hlast⟩ := hundisturbed
    obtain ⟨hvalid, hentries, hupdate⟩ : Sound locale (.writing call seen next step) :=
      hwriting ▸ h.sound id
    have happly : call.apply locale seen = next := by
      rw [TrustCall.apply, hupdate]
      rfl
    split at hnext
    · rename_i hfails
      obtain rfl := Option.some.inj hnext
      refine ⟨order, h.keep trivial ?_⟩
      intro this
      rw [hwriting]
      refine ⟨False.elim, ?_⟩
      rintro ⟨-, hreplaced⟩
      rw [hlast hreplaced] at hfails
      cases hfails
    · rename_i hfails
      split at hnext
      · rename_i hstep
        subst hstep
        obtain rfl := Option.some.inj hnext
        have hsound : Sound locale (.writing call seen next .chmodFile) :=
          ⟨hvalid, hentries, hupdate⟩
        refine ⟨order ++ [(id, call)], h.commit hsound ?_ ?_ (hseen rfl (by simpa using hfails)) ?_⟩
        · rw [hwriting]
          exact fun _ hcommitted => nomatch hcommitted.2
        · exact fun _ => ⟨fun hcommitted => hcommitted.1.symm, fun heq => ⟨heq.symm, rfl⟩⟩
        · rw [happly]
          exact readDocument_documentJson (update_valid hvalid hentries hupdate)
      · rename_i hstep
        obtain rfl := Option.some.inj hnext
        rw [TrustRun.afterStep]
        cases hfollowing : step.following with
        | some later =>
          refine ⟨order, h.keep ⟨hvalid, hentries, hupdate⟩ ?_⟩
          intro this
          rw [hwriting]
          show _ ∧ _ ↔ _ ∧ _
          rw [WriteStep.replaced_following hstep hfollowing]
        | none =>
          refine ⟨order, h.keep trivial ?_⟩
          intro this
          rw [hwriting]
          show _ ↔ _ ∧ _
          rw [WriteStep.replaced_last hfollowing]
          exact (and_iff_left rfl).symm
  · cases hnext

theorem linear_step (locale : LocaleOrder) (file : TrustFile) (run : TrustRun) (event : TrustEvent)
    (run' : TrustRun) (h : ∃ order, Linear locale file order run)
    (hundisturbed : Undisturbed run event) (hnext : run.next locale event = some run') :
    ∃ order, Linear locale file order run' := by
  obtain ⟨order, h⟩ := h
  cases event with
  | start id call =>
    rw [TrustRun.next] at hnext
    split at hnext
    · rename_i hidle
      obtain rfl := Option.some.inj hnext
      exact ⟨order, linear_start h call hidle⟩
    · cases hnext
  | read id fails =>
    rw [TrustRun.next] at hnext
    split at hnext
    · rename_i call hreading
      obtain rfl := Option.some.inj hnext
      exact linear_read h fails hreading
    · cases hnext
  | write id fails => exact linear_write h hundisturbed hnext

/-- While no rename comes between another call's read and its own, and none is
reported as failed, the document is in the end what the successful calls make of
the first one in some order. -/
theorem trustStore_linear {locale : LocaleOrder} {file : TrustFile} {events : List TrustEvent}
    {run : TrustRun}
    (hundisturbed : AllSteps (TrustRun.next locale) Undisturbed (TrustRun.started file) events)
    (hrun : exec (TrustRun.next locale) (TrustRun.started file) events = some run)
    (hover : ∀ id, inFlight (run.calls id) = false) :
    ∃ order : Order, (order.map Prod.fst).Nodup ∧
      (∀ id call, (id, call) ∈ order ↔ run.calls id = .returned call (.ok ())) ∧
      readDocument run.file = (readDocument file).map (applyAll locale order) := by
  have hstart : ∃ order, Linear locale file order (TrustRun.started file) :=
    ⟨[], Linear.started locale file⟩
  obtain ⟨order, h⟩ := exec_invariant (linear_step locale file) hstart hundisturbed hrun
  refine ⟨order, h.distinct, ?_, h.document⟩
  intro id call
  rw [h.committed]
  have hdone := hover id
  cases hphase : run.calls id with
  | idle => exact ⟨False.elim, nofun⟩
  | reading this =>
    rw [hphase] at hdone
    cases hdone
  | writing this seen next step =>
    rw [hphase] at hdone
    cases hdone
  | returned this result =>
    cases result with
    | ok done =>
      show this = call ↔ _
      simp
    | error error =>
      refine ⟨False.elim, ?_⟩
      intro heq
      injection heq with _ hresult
      cases hresult

def alone (id : CallId) (call : TrustCall) : List TrustEvent :=
  [.start id call, .read id false] ++ List.replicate 11 (.write id false)

def byBytes : LocaleOrder := fun left right => left ≤ right

def trustRoot (root freshId : String) : TrustCall :=
  .trust ⟨utf8 root, ⟨8, 1, utf8 "42"⟩, .develop⟩ (utf8 freshId) (utf8 "2026-09-01T00:00:00.000Z")

/-- A second call reads while the first one writes, and fails before its rename;
then the entry of the first is removed. -/
def overlapping : List TrustEvent :=
  [.start 0 (trustRoot "/b" "trust_0"), .start 1 (trustRoot "/a" "trust_1"), .read 0 false,
      .read 1 false] ++ List.replicate 11 (.write 0 false) ++ [.write 1 false, .write 1 true] ++
    alone 2 (.untrust (utf8 "trust_0")) ++ [.start 3 (.untrust (utf8 "trust_9")), .read 3 false]

def TrustEvent.id : TrustEvent → CallId
  | .start id _ | .read id _ | .write id _ => id

theorem next_calls_of_ne {locale : LocaleOrder} {run run' : TrustRun} {event : TrustEvent}
    {id : CallId} (hid : event.id ≠ id) (hnext : run.next locale event = some run') :
    run'.calls id = run.calls id := by
  cases event with
  | start other call =>
    rw [TrustRun.next] at hnext
    split at hnext
    · obtain rfl := Option.some.inj hnext
      exact TrustRun.setPhase_of_ne run _ hid.symm
    · cases hnext
  | read other fails =>
    rw [TrustRun.next] at hnext
    split at hnext
    · obtain rfl := Option.some.inj hnext
      exact TrustRun.setPhase_of_ne run _ hid.symm
    · cases hnext
  | write other fails =>
    rw [TrustRun.next] at hnext
    split at hnext
    · split at hnext
      · obtain rfl := Option.some.inj hnext
        exact TrustRun.setPhase_of_ne run _ hid.symm
      · split at hnext
        · obtain rfl := Option.some.inj hnext
          exact TrustRun.setPhase_of_ne _ _ hid.symm
        · obtain rfl := Option.some.inj hnext
          exact TrustRun.setPhase_of_ne run _ hid.symm
    · cases hnext

theorem exec_calls_of_ne {locale : LocaleOrder} {run run' : TrustRun} {events : List TrustEvent}
    {id : CallId} (hid : ∀ event ∈ events, event.id ≠ id)
    (hrun : exec (TrustRun.next locale) run events = some run') : run'.calls id = run.calls id := by
  have hsteps : AllSteps (TrustRun.next locale) (fun _ event => event.id ≠ id) run events :=
    AllSteps.of_mem (fun event hevent _ => hid event hevent) run
  have hstep : ∀ (now : TrustRun) (event : TrustEvent) (later : TrustRun),
      now.calls id = run.calls id → event.id ≠ id → now.next locale event = some later →
      later.calls id = run.calls id :=
    fun _ _ _ hnow hevent hnext => (next_calls_of_ne hevent hnext).trans hnow
  exact exec_invariant hstep rfl hsteps hrun

theorem overlapping_linear :
    ∃ run, exec (TrustRun.next byBytes) (TrustRun.started .missing) overlapping = some run ∧
      ∃ order : Order, (order.map Prod.fst).Nodup ∧
        (∀ id call, (id, call) ∈ order ↔ run.calls id = .returned call (.ok ())) ∧
        readDocument run.file = .ok (applyAll byBytes order []) := by
  have hsome : (exec (TrustRun.next byBytes) (TrustRun.started .missing) overlapping).isSome =
      true := by decide +kernel
  obtain ⟨run, hrun⟩ := Option.isSome_iff_exists.mp hsome
  have hsteps : AllSteps (TrustRun.next byBytes) Undisturbed (TrustRun.started .missing)
      overlapping := by decide +kernel
  have hover : ∀ id, inFlight (run.calls id) = false := by
    have hstarted : ∀ id < 4, ((exec (TrustRun.next byBytes) (TrustRun.started .missing)
        overlapping).map fun run => inFlight (run.calls id)) = some false := by decide +kernel
    intro id
    by_cases hid : id < 4
    · have hphase := hstarted id hid
      rw [hrun] at hphase
      exact Option.some.inj hphase
    · have hevents : ∀ event ∈ overlapping, event.id < 4 := by decide
      have hne : ∀ event ∈ overlapping, event.id ≠ id := by
        rintro event hevent rfl
        exact hid (hevents event hevent)
      rw [exec_calls_of_ne hne hrun]
      rfl
  exact ⟨run, hrun, trustStore_linear hsteps hrun hover⟩

def bothRead : List TrustEvent :=
  [.start 0 (trustRoot "/b" "trust_0"), .start 1 (trustRoot "/a" "trust_1"), .read 0 false,
      .read 1 false] ++ List.replicate 11 (.write 0 false) ++ List.replicate 11 (.write 1 false)

def succeeded : CallPhase → Option TrustCall
  | .returned call (.ok _) => some call
  | _ => none

/-- Both calls succeed, and the entry of the first is lost: neither order of the
two leaves one entry. -/
theorem bothRead_loses_entry :
    let first := trustRoot "/b" "trust_0"
    let second := trustRoot "/a" "trust_1"
    let document := second.apply byBytes []
    (exec (TrustRun.next byBytes) (TrustRun.started .missing) bothRead).map (fun run =>
        (succeeded (run.calls 0), succeeded (run.calls 1), readDocument run.file)) =
      some (some first, some second, .ok document) ∧
    document ≠ applyAll byBytes [(0, first), (1, second)] [] ∧
    document ≠ applyAll byBytes [(1, second), (0, first)] [] := by
  intro first second document
  have hlost : utf8 "/b" ∉ document.map TrustedWorkspaceEntry.canonicalRoot := by decide +kernel
  refine ⟨by decide +kernel, ?_, ?_⟩
  · intro heq
    apply hlost
    rw [heq]
    exact root_mem_trustEntries_of_mem _ _ _ (root_mem_trustEntries byBytes [] _ _ _)
  · intro heq
    apply hlost
    rw [heq]
    exact root_mem_trustEntries byBytes _ _ _ _

end KodeGpt.TrustStoreRuns
