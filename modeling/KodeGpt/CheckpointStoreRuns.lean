import KodeGpt.CheckpointRecords
import KodeGpt.PromiseChain
import KodeGpt.TransitionSystem

/-!
Calls of `upsert`, `clear` and `purge` that run concurrently on one store, for one
trust id. A call waits for its turn on the chain of the trust id, and gives up
control wherever it waits for the host. What the file becomes is noted down, and
for each call which of these states its caller has observed.
-/

namespace KodeGpt.CheckpointStoreRuns

open JsFrames JsObjects CheckpointRecords PromiseChain TransitionSystem

abbrev CallId := Nat

/-- A call has replaced the record, or removed it. -/
structure Change where
  id : CallId
  replacement : Option ContinuityRecord

def versions (first : Option ContinuityRecord) (log : List Change) :
    List (Option ContinuityRecord) :=
  first :: log.map Change.replacement

def current (first : Option ContinuityRecord) (log : List Change) : Option ContinuityRecord :=
  (log.getLast?.map Change.replacement).getD first

def life (first : Option ContinuityRecord) (log : List Change) : List ContinuityRecord :=
  log.foldl (fun records change =>
    match change.replacement with
    | none => []
    | some record => records ++ [record]) first.toList

/-- The milestones that were there at the start, if nothing has been removed
since. -/
def past (first : Option ContinuityRecord) (log : List Change) : List Milestone :=
  if log.all fun change => change.replacement.isSome then
    (first.map fun record => record.milestones.val).getD []
  else []

/-- What `#writeContinuityUnlocked` waits for, in order. -/
inductive WriteStep where
  | mkdir
  | chmodDirectory
  | openTemporary
  | writeFile
  | sync
  | close
  | rename
  | chmodFile
  | openDirectory
  | syncDirectory
  deriving DecidableEq, Repr

namespace WriteStep

def following : WriteStep → Option WriteStep
  | mkdir => some chmodDirectory
  | chmodDirectory => some openTemporary
  | openTemporary => some writeFile
  | writeFile => some sync
  | sync => some close
  | close => some rename
  | rename => some chmodFile
  | chmodFile => some openDirectory
  | openDirectory => some syncDirectory
  | syncDirectory => none

def replaced : WriteStep → Bool
  | chmodFile | openDirectory | syncDirectory => true
  | _ => false

theorem replaced_following {step later : WriteStep} (hstep : step ≠ rename)
    (hlater : step.following = some later) : later.replaced = step.replaced := by
  cases step <;> cases hlater <;> first | rfl | exact absurd rfl hstep

theorem replaced_last {step : WriteStep} (hlast : step.following = none) :
    step.replaced = true := by
  cases step <;> first | rfl | cases hlast

end WriteStep

inductive RemoveStep where
  | remove
  | openDirectory
  | syncDirectory
  deriving DecidableEq, Repr

/-- `absent` is the error `ENOENT`. -/
inductive Outcome where
  | done
  | absent
  | failed
  deriving DecidableEq, Repr

/-- `observed` is the place of a record among the versions: its caller has read
it there, or has got it from its own upsert. -/
structure Call where
  operation : Operation
  observed : Option Nat

/-- `removed` tells whether there was a file to remove. -/
inductive CallPhase where
  | idle
  | queued (call : Call)
  | reading (call : Call)
  | writing (call : Call) (record : WritableRecord) (step : WriteStep)
  | removing (call : Call) (removed : Bool) (step : RemoveStep)
  | fulfilled (call : Call) (checkpoint : Option Checkpoint)
  | rejected (error : StoreError)

/-- The file, the chain of the trust id and the calls; and for reference the
record at the start and the changes since. -/
structure StoreRun where
  file : StoredFile
  chain : Chain CallId
  calls : CallId → CallPhase
  first : Option ContinuityRecord
  log : List Change

inductive StoreEvent where
  | start (id : CallId) (request : Request) (observed : Option Nat)
  | enter (id : CallId)
  | read (id : CallId) (fails : Bool) (clock : Option Timestamp)
  | write (id : CallId) (fails : Bool)
  | remove (id : CallId) (outcome : Outcome)

def recordIn (file : StoredFile) : Option ContinuityRecord :=
  match readContinuity file with
  | .ok found => found.map Subtype.val
  | .error _ => none

def fits (first : Option ContinuityRecord) (log : List Change) (call : Call) : Bool :=
  match call.observed with
  | none => true
  | some place =>
    match (versions first log)[place]? with
    | some (some record) => call.operation.expected = some record.checkpoint.revision
    | _ => false

def isMissing : StoredFile → Bool
  | .missing => true
  | .text _ _ => false

namespace StoreRun

def started (file : StoredFile) : StoreRun where
  file := file
  chain := Chain.empty
  calls := fun _ => .idle
  first := recordIn file
  log := []

def setPhase (run : StoreRun) (id : CallId) (phase : CallPhase) : StoreRun :=
  { run with calls := Function.update run.calls id phase }

def finish (run : StoreRun) (id : CallId) (phase : CallPhase) : StoreRun :=
  { run with chain := run.chain.release id, calls := Function.update run.calls id phase }

def replace (run : StoreRun) (id : CallId) (file : StoredFile)
    (replacement : Option ContinuityRecord) : StoreRun :=
  { run with file := file, log := run.log ++ [⟨id, replacement⟩] }

def afterRead (file : StoredFile) (clock : Option Timestamp) (call : Call) :
    Except StoreError CallPhase := do
  let found ← readContinuity file
  match call.operation with
  | .upsert body capturedSourceState expected =>
    let record ← upsertRecord found body capturedSourceState expected clock
    let record ← writable record
    return .writing call record .mkdir
  | .clear expected =>
    compareRevision found (some expected)
    return .removing call false .remove
  | .purge => return .removing call false .remove

def afterEnter (call : Call) : CallPhase :=
  match call.operation with
  | .purge => .removing call false .remove
  | _ => .reading call

def isPurge : Operation → Bool
  | .purge => true
  | _ => false

def next (run : StoreRun) : StoreEvent → Option StoreRun
  | .start id request observed =>
    match run.calls id with
    | .idle =>
      match request.validate with
      | .error error => some (run.setPhase id (.rejected error))
      | .ok operation =>
        if fits run.first run.log ⟨operation, observed⟩ then
          some ({ run with chain := run.chain.join id }.setPhase id
            (.queued ⟨operation, observed⟩))
        else none
    | _ => none
  | .enter id =>
    match run.calls id with
    | .queued call =>
      if run.chain.mayEnter id then some (run.setPhase id (afterEnter call)) else none
    | _ => none
  | .read id fails clock =>
    match run.calls id with
    | .reading call =>
      if fails then some (run.finish id (.rejected .io))
      else
        match afterRead run.file clock call with
        | .error error => some (run.finish id (.rejected error))
        | .ok phase => some (run.setPhase id phase)
    | _ => none
  | .write id fails =>
    match run.calls id with
    | .writing call record step =>
      if fails then some (run.finish id (.rejected .io))
      else if step = .rename then
        some ((run.replace id record.file (some record.val)).setPhase id
          (.writing call record .chmodFile))
      else
        match step.following with
        | some later => some (run.setPhase id (.writing call record later))
        | none => some (run.finish id (.fulfilled call (some record.val.checkpoint)))
    | _ => none
  | .remove id outcome =>
    match run.calls id with
    | .removing call _ .remove =>
      if outcome = .failed then some (run.finish id (.rejected .io))
      else if isMissing run.file then
        if isPurge call.operation then
          some (run.setPhase id (.removing call false .openDirectory))
        else some (run.finish id (.rejected .io))
      else
        some ((run.replace id .missing none).setPhase id
          (.removing call true .openDirectory))
    | .removing call removed step =>
      if outcome = .failed ∨ (outcome = .absent ∧ isPurge call.operation = false) then
        some (run.finish id (.rejected .io))
      else if outcome = .done ∧ step = .openDirectory then
        some (run.setPhase id (.removing call removed .syncDirectory))
      else some (run.finish id (.fulfilled call none))
    | _ => none

end StoreRun

/-- A record that is replaced is followed by one with the next revision, whose
milestones end with the replaced one. -/
inductive Lived (first : Option ContinuityRecord) : List Change → Prop
  | start : Lived first []
  | removed {log : List Change} (id : CallId) (h : Lived first log) :
      Lived first (log ++ [⟨id, none⟩])
  | replaced {log : List Change} (id : CallId) (found : Option ReadRecord)
      (record : ContinuityRecord) (h : Lived first log)
      (hfound : found.map Subtype.val = current first log)
      (hrevision : record.checkpoint.revision = nextRevision (current first log))
      (hmilestones : record.milestones =
        newest ((found.map fun record => record.val.milestones.val).getD [] ++
          (found.map compactRecord).toList)) :
      Lived first (log ++ [⟨id, some record⟩])

section History

variable {first : Option ContinuityRecord} {log : List Change}

@[simp] theorem current_append (first : Option ContinuityRecord) (log : List Change)
    (change : Change) : current first (log ++ [change]) = change.replacement := by
  simp [current]

theorem versions_append (first : Option ContinuityRecord) (log : List Change) (change : Change) :
    versions first (log ++ [change]) = versions first log ++ [change.replacement] := by
  simp [versions]

theorem versions_length (first : Option ContinuityRecord) (log : List Change) :
    (versions first log).length = log.length + 1 := by
  simp [versions]

theorem versions_last (first : Option ContinuityRecord) (log : List Change) :
    (versions first log)[log.length]? = some (current first log) := by
  induction log using List.reverseRecOn with
  | nil => rfl
  | append_singleton log change ih =>
    rw [versions_append, current_append, List.length_append, List.length_singleton,
      List.getElem?_append_right (Nat.le_of_eq (versions_length first log)), versions_length, Nat.sub_self]
    rfl

theorem life_append_some (id : CallId) (record : ContinuityRecord) :
    life first (log ++ [⟨id, some record⟩]) = life first log ++ [record] := by
  simp [life]

theorem life_append_none (id : CallId) : life first (log ++ [⟨id, none⟩]) = [] := by
  simp [life]

theorem life_last (first : Option ContinuityRecord) (log : List Change) :
    (life first log).getLast? = current first log := by
  induction log using List.reverseRecOn with
  | nil => cases first <;> rfl
  | append_singleton log change ih =>
    obtain ⟨id, replacement⟩ := change
    cases replacement with
    | none => rw [life_append_none, current_append]; rfl
    | some record => rw [life_append_some, current_append, List.getLast?_append]; rfl

theorem past_append_some (id : CallId) (record : ContinuityRecord) :
    past first (log ++ [⟨id, some record⟩]) = past first log := by
  simp [past]

theorem past_append_none (id : CallId) : past first (log ++ [⟨id, none⟩]) = [] := by
  simp [past]

theorem past_of_current_none (h : current first log = none) : past first log = [] := by
  induction log using List.reverseRecOn with
  | nil =>
    obtain rfl : first = none := h
    rfl
  | append_singleton log change ih =>
    obtain ⟨id, replacement⟩ := change
    rw [current_append] at h
    obtain rfl : replacement = none := h
    exact past_append_none id

theorem Lived.revision_since (h : Lived first log) {place : Nat} {record : ContinuityRecord}
    (hplace : (versions first log)[place]? = some (some record))
    (hkept : ∀ change ∈ log.drop place, change.replacement.isSome = true) :
    ∃ last, current first log = some last ∧
      last.checkpoint.revision = record.checkpoint.revision + (log.length - place) := by
  induction h with
  | start =>
    cases place with
    | zero => exact ⟨record, Option.some.inj hplace, by simp⟩
    | succ place => simp [versions] at hplace
  | @removed log id h ih =>
    rcases Nat.lt_or_ge log.length place with hlast | hearlier
    · have hend : place = log.length + 1 := by
        have hbound := (List.getElem?_eq_some_iff.mp hplace).1
        rw [versions_length, List.length_append, List.length_singleton] at hbound
        omega
      have hlater := versions_last first (log ++ [⟨id, none⟩])
      rw [List.length_append, List.length_singleton, ← hend, hplace, current_append] at hlater
      cases hlater
    · have hchange := hkept ⟨id, none⟩ (by
        rw [List.drop_append_of_le_length hearlier]
        simp)
      cases hchange
  | @replaced log id found later h hfound hrevision hmilestones ih =>
    rcases Nat.lt_or_ge log.length place with hlast | hearlier
    · have hend : place = log.length + 1 := by
        have hbound := (List.getElem?_eq_some_iff.mp hplace).1
        rw [versions_length, List.length_append, List.length_singleton] at hbound
        omega
      have hlater := versions_last first (log ++ [⟨id, some later⟩])
      rw [List.length_append, List.length_singleton, ← hend, hplace] at hlater
      refine ⟨record, (Option.some.inj hlater).symm, ?_⟩
      rw [List.length_append, List.length_singleton, hend, Nat.sub_self, Nat.add_zero]
    · rw [versions_append, List.getElem?_append_left (by rw [versions_length]; omega)] at hplace
      rw [List.drop_append_of_le_length hearlier] at hkept
      obtain ⟨last, hcurrent, hvalue⟩ := ih hplace fun change hchange =>
        hkept change (List.mem_append_left _ hchange)
      refine ⟨later, current_append first log _, ?_⟩
      rw [hrevision, hcurrent, nextRevision, Option.map_some, Option.getD_some, hvalue,
        List.length_append, List.length_singleton]
      omega

/-- The record that is observed is the last one, if it has not been removed since
and the last one has its revision. -/
theorem Lived.place_of_revision (h : Lived first log) {place : Nat}
    {record last : ContinuityRecord} (hplace : (versions first log)[place]? = some (some record))
    (hkept : ∀ change ∈ log.drop place, change.replacement.isSome = true)
    (hcurrent : current first log = some last)
    (hrevision : last.checkpoint.revision = record.checkpoint.revision) : place = log.length := by
  obtain ⟨found, hfound, hvalue⟩ := h.revision_since hplace hkept
  rw [hcurrent] at hfound
  obtain rfl := Option.some.inj hfound
  have hbound := (List.getElem?_eq_some_iff.mp hplace).1
  rw [versions_length] at hbound
  omega

theorem newest_of_le {milestones : List Milestone} (h : milestones.length ≤ maxMilestones) :
    (newest milestones).val = milestones := by
  show milestones.drop (milestones.length - maxMilestones) = milestones
  rw [Nat.sub_eq_zero_of_le h, List.drop_zero]

theorem newest_append (earlier : List Milestone) (last : Milestone) :
    newest ((newest earlier).val ++ [last]) = newest (earlier ++ [last]) := by
  rcases Nat.lt_or_ge maxMilestones earlier.length with hmany | hfew
  · have hlength : (newest earlier).val.length = maxMilestones := by
      rw [newest, List.length_drop]
      omega
    apply Subtype.ext
    show ((newest earlier).val ++ [last]).drop _ = (earlier ++ [last]).drop _
    have hone : ((newest earlier).val ++ [last]).length - maxMilestones = 1 := by
      rw [List.length_append, hlength, List.length_singleton]
      omega
    have hmore : (earlier ++ [last]).length - maxMilestones =
        (earlier.length - maxMilestones) + 1 := by
      rw [List.length_append, List.length_singleton]
      omega
    have hkept : earlier.length - maxMilestones + 1 ≤ earlier.length := by
      have hpos : 0 < maxMilestones := by decide
      omega
    rw [hone, hmore, List.drop_append_of_le_length (by rw [hlength]; decide),
      List.drop_append_of_le_length hkept, newest, List.drop_drop]
  · rw [newest_of_le hfew]

/-- The milestones of a record: those from before the start, then every record
of its life that has been replaced, the newest eight of them in order. -/
def Remembers (first : Option ContinuityRecord) (log : List Change) (record : ContinuityRecord) :
    Prop :=
  ∃ previous : List ReadRecord, life first log = previous.map Subtype.val ++ [record] ∧
    record.milestones = newest (past first log ++ previous.map compactRecord)

theorem Lived.remembers (h : Lived first log) {record : ContinuityRecord}
    (hcurrent : current first log = some record) : Remembers first log record := by
  induction h generalizing record with
  | start =>
    obtain rfl : first = some record := hcurrent
    refine ⟨[], rfl, ?_⟩
    apply Subtype.ext
    rw [List.map_nil, List.append_nil]
    exact (newest_of_le record.milestones.property).symm
  | @removed log id h ih =>
    rw [current_append] at hcurrent
    cases hcurrent
  | @replaced log id found later h hfound hrevision hmilestones ih =>
    rw [current_append] at hcurrent
    obtain rfl := Option.some.inj hcurrent
    cases found with
    | none =>
      have hnone : current first log = none := hfound.symm
      have hlife : life first log = [] := by
        rw [← life_last] at hnone
        exact List.getLast?_eq_none_iff.mp hnone
      refine ⟨[], ?_, ?_⟩
      · rw [life_append_some, hlife]
        rfl
      · rw [hmilestones, past_append_some, past_of_current_none hnone]
        rfl
    | some found =>
      obtain ⟨previous, hlife, hprevious⟩ := ih hfound.symm
      refine ⟨previous ++ [found], ?_, ?_⟩
      · rw [life_append_some, hlife, List.map_append]
        rfl
      · rw [hmilestones, past_append_some, List.map_append, ← List.append_assoc]
        show newest (found.val.milestones.val ++ [compactRecord found]) = _
        rw [hprevious]
        exact newest_append _ _

end History

/-- Nothing fails once the record has been replaced or removed, and a record
that is expected, and found under its revision, has not been removed since it
was observed. -/
def Calm (run : StoreRun) : StoreEvent → Bool
  | .read id fails _ =>
    match run.calls id with
    | .reading call =>
      match call.observed with
      | some place =>
        fails || call.operation.expected !=
            (current run.first run.log).map (fun record => record.checkpoint.revision) ||
          (run.log.drop place).all fun change => change.replacement.isSome
      | none => true
    | _ => true
  | .write id fails =>
    match run.calls id with
    | .writing _ _ step => !(step.replaced && fails)
    | _ => true
  | .remove id outcome =>
    match run.calls id with
    | .removing call removed _ =>
      !removed || outcome = .done || (outcome = .absent && StoreRun.isPurge call.operation)
    | _ => true
  | _ => true

def InLine : CallPhase → Bool
  | .queued _ | .reading _ | .writing .. | .removing .. => true
  | _ => false

/-- It is the call's turn. -/
def Holding : CallPhase → Bool
  | .reading _ | .writing .. | .removing .. => true
  | _ => false

def Absent (log : List Change) (id : CallId) : Prop := ∀ change ∈ log, change.id ≠ id

/-- The last record has the revision that is expected, and is the very one that
the caller has observed. -/
def UpToDate (first : Option ContinuityRecord) (log : List Change) (call : Call) : Prop :=
  (StoreRun.isPurge call.operation = false →
    call.operation.expected =
      (current first log).map fun record => record.checkpoint.revision) ∧
    ∀ place, call.observed = some place → place = log.length

/-- The call has made its change, to a record that was up to date. -/
def Committed (first : Option ContinuityRecord) (log : List Change) (id : CallId) (call : Call)
    (replacement : Option ContinuityRecord) : Prop :=
  ∃ before after, log = before ++ ⟨id, replacement⟩ :: after ∧ UpToDate first before call

/-- The record holds what the call brings. -/
def Brings (operation : Operation) (record : ContinuityRecord) : Prop :=
  match operation with
  | .upsert body capturedSourceState _ =>
    record.checkpoint.body = body ∧ record.capturedSourceState = some capturedSourceState
  | _ => False

/-- The record follows the one that there is. -/
def Follows (found : Option ContinuityRecord) (record : ContinuityRecord) : Prop :=
  record.checkpoint.revision = nextRevision found ∧
    ∃ read : Option ReadRecord, read.map Subtype.val = found ∧
      record.milestones = newest ((read.map fun record => record.val.milestones.val).getD [] ++
        (read.map compactRecord).toList)

def Sound (first : Option ContinuityRecord) (log : List Change) (id : CallId) : CallPhase → Prop
  | .idle => Absent log id
  | .queued call => Absent log id ∧ fits first log call = true
  | .reading call => Absent log id ∧ fits first log call = true ∧ StoreRun.isPurge call.operation = false
  | .writing call record step =>
    Brings call.operation record.val ∧
      if step.replaced then Committed first log id call (some record.val)
      else Absent log id ∧ UpToDate first log call ∧ Follows (current first log) record.val
  | .removing call removed step =>
    ¬ (∃ body state expected, call.operation = .upsert body state expected) ∧
      if removed then step ≠ .remove ∧ Committed first log id call none
      else Absent log id ∧ UpToDate first log call ∧
        (step = .remove ∨ StoreRun.isPurge call.operation = true)
  | .fulfilled call checkpoint =>
    match call.operation with
    | .upsert .. =>
      ∃ record, checkpoint = some record.checkpoint ∧ Brings call.operation record ∧
        Committed first log id call (some record)
    | .clear _ => Committed first log id call none
    | .purge => True
  | .rejected _ => Absent log id

theorem inLine_of_holding {phase : CallPhase} (h : Holding phase = true) : InLine phase = true := by
  cases phase <;> first | rfl | cases h

theorem Committed.append {first : Option ContinuityRecord} {log : List Change} {id : CallId}
    {call : Call} {replacement : Option ContinuityRecord}
    (h : Committed first log id call replacement) (change : Change) :
    Committed first (log ++ [change]) id call replacement := by
  obtain ⟨before, after, hlog, hplace⟩ := h
  refine ⟨before, after ++ [change], ?_, hplace⟩
  rw [hlog, List.append_assoc, List.cons_append]

theorem Absent.append {log : List Change} {id : CallId} (h : Absent log id) {change : Change}
    (hid : change.id ≠ id) : Absent (log ++ [change]) id := by
  intro other hother
  obtain hother | hother := List.mem_append.mp hother
  · exact h other hother
  · obtain rfl := List.mem_singleton.mp hother
    exact hid

theorem fits_append {first : Option ContinuityRecord} {log : List Change} {call : Call}
    (h : fits first log call = true) (change : Change) :
    fits first (log ++ [change]) call = true := by
  unfold fits at h ⊢
  split
  · rfl
  · rename_i place hobserved
    rw [hobserved] at h
    simp only at h
    cases hplace : (versions first log)[place]? with
    | none =>
      rw [hplace] at h
      cases h
    | some found =>
      have hbound := (List.getElem?_eq_some_iff.mp hplace).1
      rw [versions_append, List.getElem?_append_left hbound, hplace]
      rw [hplace] at h
      exact h

/-- A change of another call leaves alone what is known of a call that waits or
has returned. -/
theorem Sound.append {first : Option ContinuityRecord} {log : List Change} {id : CallId}
    {phase : CallPhase} (h : Sound first log id phase) (hholding : Holding phase = false)
    {change : Change} (hid : change.id ≠ id) : Sound first (log ++ [change]) id phase := by
  cases phase with
  | idle => exact Absent.append h hid
  | queued call => exact ⟨h.1.append hid, fits_append h.2 change⟩
  | reading call => cases hholding
  | writing call record step => cases hholding
  | removing call removed step => cases hholding
  | fulfilled call checkpoint =>
    obtain ⟨operation, observed⟩ := call
    cases operation with
    | upsert body state expected =>
      obtain ⟨record, hresult, hbrings, hcommitted⟩ := h
      exact ⟨record, hresult, hbrings, hcommitted.append change⟩
    | clear expected => exact Committed.append h change
    | purge => trivial
  | rejected error => exact Absent.append h hid

/-- The calls that have not returned form a line, and only the first of the line
has its turn. -/
structure Lined (run : StoreRun) (line : List CallId) : Prop where
  ordered : Ordered run.chain line
  inLine : ∀ id, id ∈ line ↔ InLine (run.calls id) = true
  holder : ∀ id, Holding (run.calls id) = true → line.head? = some id
  fresh : ∀ id, run.calls id = .idle → run.chain.released id = false

namespace Lined

variable {run : StoreRun} {line rest : List CallId} {id : CallId} {phase : CallPhase}

theorem started (file : StoredFile) : Lined (StoreRun.started file) [] where
  ordered := Ordered.empty
  inLine := fun id => ⟨fun hmem => absurd hmem List.not_mem_nil, fun hline => by cases hline⟩
  holder := fun id hholding => by cases hholding
  fresh := fun id _ => rfl

theorem head (h : Lined run line) (hholding : Holding (run.calls id) = true) :
    ∃ rest, line = id :: rest := by
  cases line with
  | nil => cases h.holder id hholding
  | cons other rest =>
    obtain rfl := Option.some.inj (h.holder id hholding)
    exact ⟨rest, rfl⟩

theorem advance (h : Lined run line) (hline : InLine phase = InLine (run.calls id))
    (hholding : Holding phase = true → line.head? = some id) (hidle : phase ≠ .idle) :
    Lined (run.setPhase id phase) line where
  ordered := h.ordered
  inLine := by
    refine (Function.forall_update_iff run.calls fun other phase =>
      other ∈ line ↔ InLine phase = true).mpr ⟨?_, fun other _ => h.inLine other⟩
    rw [h.inLine, hline]
  holder := (Function.forall_update_iff run.calls fun other phase =>
    Holding phase = true → line.head? = some other).mpr ⟨hholding, fun other _ => h.holder other⟩
  fresh := (Function.forall_update_iff run.calls fun other phase =>
    phase = .idle → run.chain.released other = false).mpr
      ⟨fun heq => absurd heq hidle, fun other _ => h.fresh other⟩

theorem others_wait (h : Lined run (id :: rest)) {other : CallId} (hother : other ≠ id) :
    Holding (run.calls other) = false := by
  cases hholding : Holding (run.calls other) with
  | false => rfl
  | true => exact absurd (Option.some.inj (h.holder other hholding)).symm hother

theorem finish (h : Lined run (id :: rest)) (hline : InLine phase = false)
    (hidle : phase ≠ .idle) : Lined (run.finish id phase) rest where
  ordered := h.ordered.release
  inLine := by
    refine (Function.forall_update_iff run.calls fun other phase =>
      other ∈ rest ↔ InLine phase = true).mpr ⟨?_, fun other hother => ?_⟩
    · have hid := (List.nodup_cons.mp h.ordered.nodup).1
      rw [hline]
      exact ⟨fun hmem => absurd hmem hid, fun hfalse => by cases hfalse⟩
    · rw [← h.inLine, List.mem_cons, or_iff_right hother]
  holder := by
    refine (Function.forall_update_iff run.calls fun other phase =>
      Holding phase = true → rest.head? = some other).mpr ⟨?_, fun other hother => ?_⟩
    · intro hholding
      rw [inLine_of_holding hholding] at hline
      cases hline
    · intro hholding
      rw [h.others_wait hother] at hholding
      cases hholding
  fresh := by
    refine (Function.forall_update_iff run.calls fun other phase =>
      phase = .idle → (run.chain.release id).released other = false).mpr
        ⟨fun heq => absurd heq hidle, fun other hother => ?_⟩
    intro heq
    exact (Function.update_of_ne hother _ _).trans (h.fresh other heq)

theorem replace (h : Lined run line) (file : StoredFile) (replacement : Option ContinuityRecord) :
    Lined (run.replace id file replacement) line :=
  ⟨h.ordered, h.inLine, h.holder, h.fresh⟩

/-- A call takes its place at the end of the line. -/
theorem join (h : Lined run line) (hid : run.calls id = .idle) (call : Call) :
    Lined ({ run with chain := run.chain.join id }.setPhase id (.queued call)) (line ++ [id]) where
  ordered := by
    apply h.ordered.join _ (h.fresh id hid)
    rw [h.inLine, hid]
    exact Bool.false_ne_true
  inLine := by
    refine (Function.forall_update_iff run.calls fun other phase =>
      other ∈ line ++ [id] ↔ InLine phase = true).mpr ⟨?_, fun other hother => ?_⟩
    · simp [InLine]
    · rw [List.mem_append, List.mem_singleton, h.inLine, or_iff_left hother]
  holder := by
    refine (Function.forall_update_iff run.calls fun other phase =>
      Holding phase = true → (line ++ [id]).head? = some other).mpr
        ⟨fun hholding => (nomatch hholding), fun other _ hholding => ?_⟩
    rw [List.head?_append, h.holder other hholding]
    rfl
  fresh := (Function.forall_update_iff run.calls fun other phase =>
    phase = .idle → run.chain.released other = false).mpr
      ⟨fun heq => (nomatch heq), fun other _ => h.fresh other⟩

end Lined

/-- The file holds the last version, and the history is linear. -/
structure Steady (run : StoreRun) (line : List CallId) : Prop extends Lined run line where
  file : ∀ found, readContinuity run.file = .ok found →
    found.map Subtype.val = current run.first run.log
  lived : Lived run.first run.log
  distinct : (run.log.map Change.id).Nodup
  sound : ∀ id, Sound run.first run.log id (run.calls id)

namespace Steady

variable {run : StoreRun} {line rest : List CallId} {id : CallId} {phase : CallPhase}

theorem started (file : StoredFile) : Steady (StoreRun.started file) [] where
  toLined := Lined.started file
  file := by
    intro found hfound
    show found.map Subtype.val = recordIn file
    have hread : readContinuity file = .ok found := hfound
    rw [recordIn, hread]
  lived := Lived.start
  distinct := List.nodup_nil
  sound := fun id change hchange => absurd hchange List.not_mem_nil

/-- A call goes on, and changes nothing that the others see. -/
theorem advance (h : Steady run line) (hline : InLine phase = InLine (run.calls id))
    (hholding : Holding phase = true → line.head? = some id) (hidle : phase ≠ .idle)
    (hsound : Sound run.first run.log id phase) : Steady (run.setPhase id phase) line where
  toLined := h.toLined.advance hline hholding hidle
  file := h.file
  lived := h.lived
  distinct := h.distinct
  sound := (Function.forall_update_iff run.calls fun other phase =>
    Sound run.first run.log other phase).mpr ⟨hsound, fun other _ => h.sound other⟩

theorem finish (h : Steady run (id :: rest)) (hline : InLine phase = false)
    (hidle : phase ≠ .idle) (hsound : Sound run.first run.log id phase) :
    Steady (run.finish id phase) rest where
  toLined := h.toLined.finish hline hidle
  file := h.file
  lived := h.lived
  distinct := h.distinct
  sound := (Function.forall_update_iff run.calls fun other phase =>
    Sound run.first run.log other phase).mpr ⟨hsound, fun other _ => h.sound other⟩

theorem replace (h : Steady run (id :: rest)) (habsent : Absent run.log id)
    {replacement : Option ContinuityRecord} {file : StoredFile}
    (hline : InLine (run.calls id) = true) (hphase : Holding phase = true)
    (hfile : ∀ found, readContinuity file = .ok found → found.map Subtype.val = replacement)
    (hlived : Lived run.first (run.log ++ [⟨id, replacement⟩]))
    (hsound : Sound run.first (run.log ++ [⟨id, replacement⟩]) id phase) :
    Steady ((run.replace id file replacement).setPhase id phase) (id :: rest) where
  toLined := by
    apply (h.toLined.replace file replacement).advance
    · exact (inLine_of_holding hphase).trans hline.symm
    · exact fun _ => rfl
    · rintro rfl
      cases hphase
  file := by
    intro found hfound
    rw [hfile found hfound]
    exact (current_append run.first run.log ⟨id, replacement⟩).symm
  lived := hlived
  distinct := by
    show ((run.log ++ [Change.mk id replacement]).map Change.id).Nodup
    rw [List.map_append, List.nodup_append]
    refine ⟨h.distinct, List.nodup_singleton _, ?_⟩
    rintro earlier hearlier last hlast rfl
    obtain rfl := List.mem_singleton.mp hlast
    obtain ⟨change, hchange, hid⟩ := List.mem_map.mp hearlier
    exact habsent change hchange hid
  sound := (Function.forall_update_iff run.calls fun other phase =>
    Sound run.first (run.log ++ [Change.mk id replacement]) other phase).mpr
      ⟨hsound, fun other hother => (h.sound other).append (h.others_wait hother) hother.symm⟩

/-- A call takes its place at the end of the line. -/
theorem join (h : Steady run line) (hid : run.calls id = .idle) {call : Call}
    (hfits : fits run.first run.log call = true) :
    Steady ({ run with chain := run.chain.join id }.setPhase id (.queued call)) (line ++ [id]) where
  toLined := h.toLined.join hid call
  file := h.file
  lived := h.lived
  distinct := h.distinct
  sound := by
    refine (Function.forall_update_iff run.calls fun other phase =>
      Sound run.first run.log other phase).mpr ⟨⟨?_, hfits⟩, fun other _ => h.sound other⟩
    have hsound := h.sound id
    rwa [hid] at hsound

end Steady

theorem upToDate_of_compare {first : Option ContinuityRecord} {log : List Change} {call : Call}
    {found : Option ReadRecord} (hlived : Lived first log) (hfits : fits first log call = true)
    (hfound : found.map Subtype.val = current first log)
    (hcompare : compareRevision found call.operation.expected = .ok ())
    (hkept : ∀ place, call.observed = some place →
      call.operation.expected = (current first log).map (fun record => record.checkpoint.revision) →
        ∀ change ∈ log.drop place, change.replacement.isSome = true) : UpToDate first log call := by
  have hexpected := compareRevision_ok hcompare
  have hagree : call.operation.expected =
      (current first log).map (fun record => record.checkpoint.revision) := by
    rw [hexpected, ← hfound, Option.map_map]
    rfl
  refine ⟨fun _ => hagree, ?_⟩
  intro place hobserved
  unfold fits at hfits
  rw [hobserved] at hfits
  simp only at hfits
  split at hfits
  · rename_i record hplace
    have hrevision := of_decide_eq_true hfits
    rw [hagree] at hrevision
    obtain ⟨last, hcurrent, hvalue⟩ := Option.map_eq_some_iff.mp hrevision
    exact hlived.place_of_revision hplace (hkept place hobserved hagree) hcurrent hvalue
  · cases hfits

theorem follows_upsertRecord {first : Option ContinuityRecord} {log : List Change}
    {found : Option ReadRecord} (hfound : found.map Subtype.val = current first log)
    {body : CheckpointBody} {state : SourceState} {expected : Option Nat}
    {clock : Option Timestamp} {record : ContinuityRecord}
    (hrecord : upsertRecord found body state expected clock = .ok record) :
    Follows (current first log) record := by
  obtain ⟨-, hrevision, -, -, hmilestones⟩ := upsertRecord_ok hrecord
  refine ⟨?_, found, hfound, hmilestones⟩
  rw [hrevision, hfound]

theorem afterRead_sound {first : Option ContinuityRecord} {log : List Change} {id : CallId}
    {file : StoredFile} {clock : Option Timestamp} {call : Call} {phase : CallPhase}
    (hlived : Lived first log) (habsent : Absent log id) (hfits : fits first log call = true)
    (hpurge : StoreRun.isPurge call.operation = false)
    (hfile : ∀ found, readContinuity file = .ok found →
      found.map Subtype.val = current first log)
    (hkept : ∀ place, call.observed = some place →
      call.operation.expected = (current first log).map (fun record => record.checkpoint.revision) →
        ∀ change ∈ log.drop place, change.replacement.isSome = true)
    (hphase : StoreRun.afterRead file clock call = .ok phase) :
    Holding phase = true ∧ Sound first log id phase := by
  unfold StoreRun.afterRead at hphase
  cases hread : readContinuity file with
  | error error =>
    rw [hread] at hphase
    cases hphase
  | ok found =>
    have hfound := hfile found hread
    rw [hread] at hphase
    obtain ⟨operation, observed⟩ := call
    cases operation with
    | upsert body state expected =>
      cases hupsert : upsertRecord found body state expected clock with
      | error error =>
        simp only [hupsert, bind, Except.bind] at hphase
        cases hphase
      | ok record =>
        obtain ⟨hcompare, -, hbody, hstate, -⟩ := upsertRecord_ok hupsert
        have hfollows := follows_upsertRecord hfound hupsert
        cases hwritable : writable record with
        | error error =>
          simp only [hupsert, hwritable, bind, Except.bind] at hphase
          cases hphase
        | ok written =>
          have hsame : written.val = record := by
            unfold writable at hwritable
            split at hwritable
            · obtain rfl := Except.ok.inj hwritable
              rfl
            · cases hwritable
          simp only [hupsert, hwritable, bind, Except.bind] at hphase
          obtain rfl := Except.ok.inj hphase
          refine ⟨rfl, ?_, ?_⟩
          · show written.val.checkpoint.body = body ∧ _
            rw [hsame]
            exact ⟨hbody, hstate⟩
          · show Absent log id ∧ _ ∧ Follows (current first log) written.val
            rw [hsame]
            exact ⟨habsent, upToDate_of_compare hlived hfits hfound hcompare hkept, hfollows⟩
    | clear expected =>
      cases hcompare : compareRevision found (some expected) with
      | error error =>
        simp only [hcompare, bind, Except.bind] at hphase
        cases hphase
      | ok _ =>
        simp only [hcompare, bind, Except.bind] at hphase
        obtain rfl := Except.ok.inj hphase
        refine ⟨rfl, ?_, ?_⟩
        · rintro ⟨body, state, revision, heq⟩
          cases heq
        · exact ⟨habsent, upToDate_of_compare hlived hfits hfound hcompare hkept, Or.inl rfl⟩
    | purge => cases hpurge

section Steps

variable {run run' : StoreRun} {line : List CallId} {id : CallId}

theorem steady_start (h : Steady run line) {request : Request} {observed : Option Nat}
    (hnext : run.next (.start id request observed) = some run') : ∃ line', Steady run' line' := by
  rw [StoreRun.next] at hnext
  split at hnext
  · rename_i hidle
    split at hnext
    · obtain rfl := Option.some.inj hnext
      refine ⟨line, h.advance ?_ nofun nofun ?_⟩
      · rw [hidle]
        rfl
      · have hsound := h.sound id
        rwa [hidle] at hsound
    · split at hnext
      · rename_i hfits
        obtain rfl := Option.some.inj hnext
        exact ⟨line ++ [id], h.join hidle hfits⟩
      · cases hnext
  · cases hnext

theorem steady_enter (h : Steady run line) (hnext : run.next (.enter id) = some run') :
    ∃ line', Steady run' line' := by
  rw [StoreRun.next] at hnext
  split at hnext
  · rename_i call hqueued
    split at hnext
    · rename_i henter
      obtain rfl := Option.some.inj hnext
      have hmem : id ∈ line := by
        rw [h.inLine, hqueued]
        rfl
      obtain ⟨rest, rfl⟩ := h.ordered.head_of_mayEnter hmem henter
      obtain ⟨habsent, hfits⟩ : Absent run.log id ∧ fits run.first run.log call = true := by
        have hsound := h.sound id
        rwa [hqueued] at hsound
      refine ⟨id :: rest, h.advance ?_ (fun _ => rfl) ?_ ?_⟩
      · rw [hqueued, StoreRun.afterEnter]
        split <;> rfl
      · rw [StoreRun.afterEnter]
        split <;> exact nofun
      · rw [StoreRun.afterEnter]
        split
        · rename_i hpurge
          have hunobserved : UpToDate run.first run.log call := by
            refine ⟨?_, ?_⟩
            · intro hother
              rw [hpurge] at hother
              cases hother
            · intro place hobserved
              unfold fits at hfits
              rw [hobserved, hpurge] at hfits
              simp only at hfits
              split at hfits <;> cases hfits
          refine ⟨?_, habsent, hunobserved, Or.inl rfl⟩
          rintro ⟨body, state, expected, heq⟩
          rw [hpurge] at heq
          cases heq
        · rename_i hother
          refine ⟨habsent, hfits, ?_⟩
          cases hoperation : call.operation with
          | purge => exact absurd hoperation hother
          | _ => rfl
    · cases hnext
  · cases hnext

theorem steady_read (h : Steady run line) {fails : Bool} {clock : Option Timestamp}
    (hcalm : Calm run (.read id fails clock) = true)
    (hnext : run.next (.read id fails clock) = some run') : ∃ line', Steady run' line' := by
  rw [StoreRun.next] at hnext
  split at hnext
  · rename_i call hreading
    obtain ⟨habsent, hfits, hpurge⟩ : Absent run.log id ∧ fits run.first run.log call = true ∧
        StoreRun.isPurge call.operation = false := by
      have hsound := h.sound id
      rwa [hreading] at hsound
    obtain ⟨rest, rfl⟩ := h.head (by rw [hreading]; rfl)
    split at hnext
    · obtain rfl := Option.some.inj hnext
      exact ⟨rest, h.finish rfl nofun habsent⟩
    · rename_i hfails
      split at hnext
      · obtain rfl := Option.some.inj hnext
        exact ⟨rest, h.finish rfl nofun habsent⟩
      · rename_i phase hphase
        obtain rfl := Option.some.inj hnext
        have hkept : ∀ place, call.observed = some place →
            call.operation.expected =
              (current run.first run.log).map (fun record => record.checkpoint.revision) →
            ∀ change ∈ run.log.drop place, change.replacement.isSome = true := by
          intro place hobserved hexpected
          rw [Calm, hreading] at hcalm
          simp only [hobserved, hexpected, hfails, bne_self_eq_false, Bool.or_false,
            Bool.false_or] at hcalm
          exact List.all_eq_true.mp hcalm
        obtain ⟨hholding, hsound⟩ :=
          afterRead_sound h.lived habsent hfits hpurge h.file hkept hphase
        refine ⟨id :: rest, h.advance ?_ (fun _ => rfl) ?_ hsound⟩
        · rw [inLine_of_holding hholding, hreading]
          rfl
        · rintro rfl
          cases hholding
  · cases hnext

theorem steady_rename (h : Steady run line) {call : Call} {record : WritableRecord}
    (hwriting : run.calls id = .writing call record .rename) :
    Steady ((run.replace id record.file (some record.val)).setPhase id
      (.writing call record .chmodFile)) line := by
  obtain ⟨hbrings, habsent, hplace, hrevision, found, hfound, hmilestones⟩ :
      Sound run.first run.log id (.writing call record .rename) := hwriting ▸ h.sound id
  obtain ⟨rest, rfl⟩ := h.head (by rw [hwriting]; rfl)
  apply h.replace habsent (by rw [hwriting]; rfl) rfl
  · intro read hread
    rw [readContinuity_file] at hread
    split at hread
    · obtain rfl := Except.ok.inj hread
      rfl
    · cases hread
  · exact Lived.replaced id found record.val h.lived hfound hrevision hmilestones
  · exact ⟨hbrings, run.log, [], rfl, hplace⟩

theorem steady_write (h : Steady run line) {fails : Bool}
    (hcalm : Calm run (.write id fails) = true)
    (hnext : run.next (.write id fails) = some run') : ∃ line', Steady run' line' := by
  rw [StoreRun.next] at hnext
  split at hnext
  · rename_i call record step hwriting
    rw [Calm, hwriting] at hcalm
    have hsound := h.sound id
    rw [hwriting] at hsound
    obtain ⟨hbrings, hprogress⟩ := hsound
    split at hnext
    · rename_i hfails
      have hbefore : step.replaced = false := by
        simpa [hfails] using hcalm
      rw [if_neg (by rw [hbefore]; exact Bool.false_ne_true)] at hprogress
      obtain rfl := Option.some.inj hnext
      obtain ⟨rest, rfl⟩ := h.head (by rw [hwriting]; rfl)
      exact ⟨rest, h.finish rfl nofun hprogress.1⟩
    · split at hnext
      · rename_i hstep
        subst hstep
        obtain rfl := Option.some.inj hnext
        exact ⟨line, steady_rename h hwriting⟩
      · rename_i hstep
        split at hnext
        · rename_i later hlater
          obtain rfl := Option.some.inj hnext
          refine ⟨line, h.advance ?_ ?_ nofun ⟨hbrings, ?_⟩⟩
          · rw [hwriting]
            rfl
          · intro _
            exact h.holder id (by rw [hwriting]; rfl)
          · rw [WriteStep.replaced_following hstep hlater]
            exact hprogress
        · rename_i hlast
          rw [if_pos (WriteStep.replaced_last hlast)] at hprogress
          obtain rfl := Option.some.inj hnext
          obtain ⟨rest, rfl⟩ := h.head (by rw [hwriting]; rfl)
          refine ⟨rest, h.finish rfl nofun ?_⟩
          show match call.operation with | .upsert .. => _ | .clear _ => _ | .purge => True
          cases hoperation : call.operation with
          | upsert body state expected => exact ⟨record.val, rfl, hoperation ▸ hbrings, hprogress⟩
          | clear expected =>
            have hnone : Brings (.clear expected) record.val := hoperation ▸ hbrings
            exact hnone.elim
          | purge => trivial
  · cases hnext

theorem steady_unlink (h : Steady run line) {outcome : Outcome} {call : Call} {removed : Bool}
    (hremoving : run.calls id = .removing call removed .remove)
    (hnext : run.next (.remove id outcome) = some run') : ∃ line', Steady run' line' := by
  have hsound := h.sound id
  rw [hremoving] at hsound
  obtain ⟨hupsert, hprogress⟩ := hsound
  obtain ⟨rest, rfl⟩ := h.head (by rw [hremoving]; rfl)
  have hline : InLine (run.calls id) = true := by
    rw [hremoving]
    rfl
  rw [StoreRun.next, hremoving] at hnext
  cases removed with
  | true =>
    obtain ⟨hne, -⟩ : RemoveStep.remove ≠ .remove ∧ _ := hprogress
    exact absurd rfl hne
  | false =>
    obtain ⟨habsent, hplace, -⟩ : Absent run.log id ∧ UpToDate run.first run.log call ∧ _ := hprogress
    simp only at hnext
    split at hnext
    · obtain rfl := Option.some.inj hnext
      exact ⟨rest, h.finish rfl nofun habsent⟩
    · split at hnext
      · split at hnext
        · rename_i hpurge
          obtain rfl := Option.some.inj hnext
          exact ⟨id :: rest, h.advance hline.symm (fun _ => rfl) nofun
            ⟨hupsert, habsent, hplace, Or.inr hpurge⟩⟩
        · obtain rfl := Option.some.inj hnext
          exact ⟨rest, h.finish rfl nofun habsent⟩
      · obtain rfl := Option.some.inj hnext
        refine ⟨id :: rest, h.replace habsent hline rfl ?_ (Lived.removed id h.lived) ?_⟩
        · intro found hfound
          obtain rfl := Except.ok.inj hfound
          rfl
        · exact ⟨hupsert, nofun, run.log, [], rfl, hplace⟩

theorem next_sync {outcome : Outcome} {call : Call} {removed : Bool} {step : RemoveStep}
    (hphase : run.calls id = .removing call removed step) (hstep : step ≠ .remove) :
    run.next (.remove id outcome) =
      if outcome = .failed ∨ (outcome = .absent ∧ StoreRun.isPurge call.operation = false) then
        some (run.finish id (.rejected .io))
      else if outcome = .done ∧ step = .openDirectory then
        some (run.setPhase id (.removing call removed .syncDirectory))
      else some (run.finish id (.fulfilled call none)) := by
  rw [StoreRun.next, hphase]
  cases step with
  | remove => exact absurd rfl hstep
  | openDirectory => rfl
  | syncDirectory => rfl

theorem steady_remove (h : Steady run line) {outcome : Outcome}
    (hcalm : Calm run (.remove id outcome) = true)
    (hnext : run.next (.remove id outcome) = some run') : ∃ line', Steady run' line' := by
  cases hphase : run.calls id with
  | removing call removed step =>
    by_cases hstep : step = .remove
    · subst hstep
      exact steady_unlink h hphase hnext
    · have hsound := h.sound id
      rw [hphase] at hsound
      obtain ⟨hupsert, hprogress⟩ := hsound
      obtain ⟨rest, rfl⟩ := h.head (by rw [hphase]; rfl)
      rw [next_sync hphase hstep] at hnext
      rw [Calm, hphase] at hcalm
      have hpurge : removed = false → StoreRun.isPurge call.operation = true := by
        rintro rfl
        obtain ⟨-, -, hremove | hpurge⟩ :
            Absent run.log id ∧ UpToDate run.first run.log call ∧
              (step = .remove ∨ StoreRun.isPurge call.operation = true) := hprogress
        · exact absurd hremove hstep
        · exact hpurge
      split at hnext
      · rename_i hfails
        have hkept : removed = false := by
          cases removed with
          | false => rfl
          | true =>
            obtain rfl | ⟨rfl, hother⟩ := hfails
            · simp at hcalm
            · simp [hother] at hcalm
        subst hkept
        obtain rfl := Option.some.inj hnext
        exact ⟨rest, h.finish rfl nofun hprogress.1⟩
      · split at hnext
        · obtain rfl := Option.some.inj hnext
          refine ⟨id :: rest, h.advance ?_ (fun _ => rfl) nofun ⟨hupsert, ?_⟩⟩
          · rw [hphase]
            rfl
          · cases removed with
            | true => exact ⟨nofun, hprogress.2⟩
            | false => exact ⟨hprogress.1, hprogress.2.1, Or.inr (hpurge rfl)⟩
        · obtain rfl := Option.some.inj hnext
          refine ⟨rest, h.finish rfl nofun ?_⟩
          show match call.operation with | .upsert .. => _ | .clear _ => _ | .purge => True
          cases hoperation : call.operation with
          | upsert body state expected => exact absurd ⟨body, state, expected, hoperation⟩ hupsert
          | clear expected =>
            cases removed with
            | true => exact hprogress.2
            | false =>
              have hnever := hpurge rfl
              rw [hoperation] at hnever
              cases hnever
          | purge => trivial
  | _ =>
    rw [StoreRun.next, hphase] at hnext
    cases hnext

end Steps

theorem steady_step (run : StoreRun) (event : StoreEvent) (run' : StoreRun)
    (h : ∃ line, Steady run line) (hcalm : Calm run event = true)
    (hnext : run.next event = some run') : ∃ line, Steady run' line := by
  obtain ⟨line, h⟩ := h
  cases event with
  | start id request observed => exact steady_start h hnext
  | enter id => exact steady_enter h hnext
  | read id fails clock => exact steady_read h hcalm hnext
  | write id fails => exact steady_write h hcalm hnext
  | remove id outcome => exact steady_remove h hcalm hnext

/-- The state of a record's history: each change is linked to the one before, a
call that has succeeded has made its change to what its caller has observed, and
one that has been rejected has made none. -/
structure History (run : StoreRun) : Prop where
  revisions : ∀ before id record after, run.log = before ++ ⟨id, some record⟩ :: after →
    record.checkpoint.revision = nextRevision (current run.first before)
  milestones : ∀ before id record after, run.log = before ++ ⟨id, some record⟩ :: after →
    Remembers run.first (before ++ [⟨id, some record⟩]) record
  once : (run.log.map Change.id).Nodup
  upserts : ∀ id body state expected observed result,
    run.calls id = .fulfilled ⟨.upsert body state expected, observed⟩ result →
      ∃ record, result = some record.checkpoint ∧ record.checkpoint.body = body ∧
        record.capturedSourceState = some state ∧
        Committed run.first run.log id ⟨.upsert body state expected, observed⟩ (some record)
  clears : ∀ id expected observed result,
    run.calls id = .fulfilled ⟨.clear expected, observed⟩ result →
      Committed run.first run.log id ⟨.clear expected, observed⟩ none
  rejections : ∀ id error, run.calls id = .rejected error → Absent run.log id
  file : ∀ found, readContinuity run.file = .ok found →
    found.map Subtype.val = current run.first run.log

theorem Lived.front {first : Option ContinuityRecord} {before after : List Change}
    (h : Lived first (before ++ after)) : Lived first before := by
  induction after using List.reverseRecOn with
  | nil => rwa [List.append_nil] at h
  | append_singleton after change ih =>
    apply ih
    rw [← List.append_assoc] at h
    generalize hlog : before ++ after ++ [change] = log at h
    cases h with
    | start => simp at hlog
    | removed id h =>
      obtain ⟨hfront, -⟩ := List.append_inj' hlog rfl
      rwa [hfront]
    | replaced id found record h hfound hrevision hmilestones =>
      obtain ⟨hfront, -⟩ := List.append_inj' hlog rfl
      rwa [hfront]

theorem Lived.revision_of_last {first : Option ContinuityRecord} {before : List Change}
    {id : CallId} {record : ContinuityRecord} (h : Lived first (before ++ [⟨id, some record⟩])) :
    record.checkpoint.revision = nextRevision (current first before) := by
  generalize hlog : before ++ [Change.mk id (some record)] = log at h
  cases h with
  | start => simp at hlog
  | removed other h =>
    obtain ⟨-, hlast⟩ := List.append_inj' hlog rfl
    cases hlast
  | replaced other found later h hfound hrevision hmilestones =>
    obtain ⟨rfl, hlast⟩ := List.append_inj' hlog rfl
    cases hlast
    exact hrevision

/-- While nothing fails after a record has been replaced or removed, and no call
finds under the expected revision another record than its caller has observed
before a removal, the history is linear. -/
theorem checkpointStore_linear {file : StoredFile} {events : List StoreEvent} {run : StoreRun}
    (hcalm : AllSteps StoreRun.next (fun run event => Calm run event = true)
      (StoreRun.started file) events)
    (hrun : exec StoreRun.next (StoreRun.started file) events = some run) : History run := by
  obtain ⟨line, h⟩ := exec_invariant steady_step ⟨[], Steady.started file⟩ hcalm hrun
  have hlast : ∀ before id record after, run.log = before ++ ⟨id, some record⟩ :: after →
      Lived run.first (before ++ [⟨id, some record⟩]) := by
    intro before id record after hlog
    have hwhole : Lived run.first ((before ++ [⟨id, some record⟩]) ++ after) := by
      rw [List.append_assoc, List.singleton_append, ← hlog]
      exact h.lived
    exact hwhole.front
  constructor
  · intro before id record after hlog
    exact (hlast before id record after hlog).revision_of_last
  · intro before id record after hlog
    exact (hlast before id record after hlog).remembers (current_append _ _ _)
  · exact h.distinct
  · intro id body state expected observed result hphase
    obtain ⟨record, hresult, ⟨hbody, hstate⟩, hcommitted⟩ :
        Sound run.first run.log id (.fulfilled ⟨.upsert body state expected, observed⟩ result) :=
      hphase ▸ h.sound id
    exact ⟨record, hresult, hbody, hstate, hcommitted⟩
  · intro id expected observed result hphase
    have hsound := h.sound id
    rwa [hphase] at hsound
  · intro id error hphase
    have hsound := h.sound id
    rwa [hphase] at hsound
  · exact h.file

def activeBody : JsValue :=
  objectOf [(asciiUnits "status", some (.string (asciiUnits "active"))),
    (asciiUnits "nextActions", some (.array [])), (asciiUnits "evidenceRefs", some (.array []))]

def someState : JsValue :=
  objectOf [(asciiUnits "headOid", some (.string (List.replicate 40 97))),
    (asciiUnits "changesFingerprint", some (.string (List.replicate 64 98)))]

def someTime : Timestamp := ⟨asciiUnits "2026-09-01T00:00:00.000Z", by decide⟩

def upserted (id : CallId) (expected : JsValue) (observed : Option Nat) : List StoreEvent :=
  [.start id (.upsert activeBody someState expected) observed, .enter id,
    .read id false (some someTime)] ++ List.replicate 10 (.write id false)

def cleared (id : CallId) (expected : Nat) (observed : Option Nat) : List StoreEvent :=
  [.start id (.clear (naturalNumber expected)) observed, .enter id, .read id false none] ++
    List.replicate 3 (.remove id .done)

def replacedThenPurged : List StoreEvent :=
  upserted 0 .undefined none ++
    [.start 1 (.upsert activeBody someState (naturalNumber 1)) (some 1), .enter 1,
      .start 2 .purge none, .read 1 false (some someTime)] ++
    List.replicate 10 (.write 1 false) ++
    [.enter 2, .remove 2 .done, .remove 2 .done, .remove 2 .done]

/-- A checkpoint is cleared and created again before the one who has observed it
replaces it. -/
def recreated : List StoreEvent :=
  upserted 0 .undefined none ++ cleared 1 1 (some 1) ++ upserted 2 .undefined none ++
    upserted 3 (naturalNumber 1) (some 1)

def chmodFails : List StoreEvent :=
  [.start 0 (.upsert activeBody someState .undefined) none, .enter 0,
    .read 0 false (some someTime)] ++ List.replicate 7 (.write 0 false) ++ [.write 0 true]

theorem replacedThenPurged_linear :
    ∃ run, exec StoreRun.next (StoreRun.started .missing) replacedThenPurged = some run ∧
      History run := by
  have hsome : (exec StoreRun.next (StoreRun.started .missing) replacedThenPurged).isSome =
      true := by decide +kernel
  obtain ⟨run, hrun⟩ := Option.isSome_iff_exists.mp hsome
  have hcalm : AllSteps StoreRun.next (fun run event => Calm run event = true)
      (StoreRun.started .missing) replacedThenPurged := by decide +kernel
  exact ⟨run, hrun, checkpointStore_linear hcalm hrun⟩

def upsertObserved : CallPhase → Option (Option Nat)
  | .fulfilled ⟨.upsert .., observed⟩ _ => some observed
  | _ => none

def isRejected : CallPhase → Bool
  | .rejected _ => true
  | _ => false

theorem upsertObserved_some {phase : CallPhase} {observed : Option Nat}
    (h : upsertObserved phase = some observed) :
    ∃ body state expected result,
      phase = .fulfilled ⟨.upsert body state expected, observed⟩ result := by
  unfold upsertObserved at h
  split at h
  · obtain rfl := Option.some.inj h
    exact ⟨_, _, _, _, rfl⟩
  · cases h

theorem isRejected_eq {phase : CallPhase} (h : isRejected phase = true) :
    ∃ error, phase = .rejected error := by
  cases phase with
  | rejected error => exact ⟨error, rfl⟩
  | _ => cases h

/-- An upsert replaces a checkpoint that its caller has never seen; and an upsert
that has replaced the record is rejected. -/
theorem checkpointStore_not_linear :
    (∃ run, exec StoreRun.next (StoreRun.started .missing) recreated = some run ∧ ¬ History run) ∧
      ∃ run, exec StoreRun.next (StoreRun.started .missing) chmodFails = some run ∧
        ¬ History run := by
  constructor
  · have hrun : (exec StoreRun.next (StoreRun.started .missing) recreated).map (fun run =>
        (upsertObserved (run.calls 3), run.log.map Change.id)) = some (some (some 1), [0, 1, 2, 3]) :=
      by decide +kernel
    obtain ⟨run, hrun, hends⟩ := Option.map_eq_some_iff.mp hrun
    obtain ⟨hupsert, hlog⟩ := Prod.mk.inj hends
    refine ⟨run, hrun, ?_⟩
    intro history
    obtain ⟨body, state, expected, result, hphase⟩ := upsertObserved_some hupsert
    obtain ⟨record, -, -, -, before, after, hsplit, -, hplace⟩ :=
      history.upserts 3 body state expected (some 1) result hphase
    have hone := hplace 1 rfl
    rw [hsplit, List.map_append, List.map_cons] at hlog
    have hfound : [0, 1, 2, 3][before.length]? = some 3 := by
      rw [← hlog, List.getElem?_append_right (Nat.le_of_eq (List.length_map _)), List.length_map,
        Nat.sub_self]
      rfl
    rw [← hone] at hfound
    cases hfound
  · have hrun : (exec StoreRun.next (StoreRun.started .missing) chmodFails).map (fun run =>
        (isRejected (run.calls 0), run.log.map Change.id)) = some (true, [0]) := by decide +kernel
    obtain ⟨run, hrun, hends⟩ := Option.map_eq_some_iff.mp hrun
    obtain ⟨hrejected, hlog⟩ := Prod.mk.inj hends
    refine ⟨run, hrun, ?_⟩
    intro history
    obtain ⟨error, hphase⟩ := isRejected_eq hrejected
    obtain ⟨change, hchange, hid⟩ := List.map_eq_singleton_iff.mp hlog
    exact history.rejections 0 error hphase change (by rw [hchange]; exact List.mem_singleton_self _) hid

end KodeGpt.CheckpointStoreRuns
