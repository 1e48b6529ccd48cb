import Mathlib.Data.Set.Card
import Mathlib.Order.Interval.Finset.Nat
import KodeGpt.AuditSink
import KodeGpt.TransitionSystem

/-!
What the audit files hold after any run of appends and restarts.
-/

namespace KodeGpt.AuditRotation

open AuditRecords AuditSink FallibleActions JsonText RotatedLines TransitionSystem

namespace AuditHost

@[simp] theorem contents_setFile (index : Nat) (file : Option Bytes) (host : AuditHost) :
    (host.setFile index file).contents = Function.update host.contents index (file.getD []) := by
  funext other
  rcases eq_or_ne other index with rfl | hother
  · simp [AuditHost.contents, AuditHost.setFile]
  · simp [AuditHost.contents, AuditHost.setFile, hother]

theorem contents_rename (index : Nat) (host : AuditHost) :
    (host.rename index (index + 1)).contents = move index host.contents := by
  simp [AuditHost.rename, move, AuditHost.contents]

end AuditHost

/-- What every operation keeps: whole lines of the last records, no file beyond
the retained rotations, and `audit.jsonl` in place while it is held open. -/
structure FilesKept (config : AuditSinkConfig) (records : List AuditRecord) (host : AuditHost) :
    Prop where
  keeps : Keeps 10 AuditRecord.text config.retainedRotations host.contents records
  bounded : ∀ index, config.retainedRotations < index → host.files index = none
  held : host.sink.file = true → (host.files 0).isSome

structure Moving (config : AuditSinkConfig) (records : List AuditRecord) (host : AuditHost) :
    Prop extends FilesKept config records host where
  released : host.sink.file = false

section Rotation

variable {config : AuditSinkConfig} {records : List AuditRecord} {host : AuditHost}
  {failing : Failing}

theorem FilesKept.takeFile (h : FilesKept config records host) :
    Moving config records host.takeFile :=
  { keeps := h.keeps, bounded := h.bounded, held := nofun, released := rfl }

theorem FilesKept.poison (h : FilesKept config records host) :
    FilesKept config records host.poison :=
  { keeps := h.keeps, bounded := h.bounded, held := h.held }

theorem FilesKept.addBytesWritten (h : FilesKept config records host) (count : Nat) :
    FilesKept config records (host.addBytesWritten count) :=
  { keeps := h.keeps, bounded := h.bounded, held := h.held }

theorem FilesKept.setSink (h : FilesKept config records host) {sink : AuditState}
    (hheld : sink.file = true → (host.files 0).isSome) :
    FilesKept config records (host.setSink sink) :=
  { keeps := h.keeps, bounded := h.bounded, held := hheld }

theorem FilesKept.holdFile (h : FilesKept config records host) (hfile : (host.files 0).isSome)
    (bytesWritten : Nat) : FilesKept config records (host.holdFile bytesWritten) :=
  { keeps := h.keeps, bounded := h.bounded, held := fun _ => hfile }

theorem FilesKept.createFile (h : FilesKept config records host) :
    FilesKept config records host.createFile := by
  refine ⟨?_, ?_, ?_⟩
  · have hsame : host.createFile.contents = host.contents := by
      simp [AuditHost.createFile]
    rw [hsame]
    exact h.keeps
  · intro index hindex
    have hne : index ≠ 0 := by omega
    simpa [AuditHost.createFile, AuditHost.setFile, hne] using h.bounded index hindex
  · intro _
    simp [AuditHost.createFile, AuditHost.setFile]

theorem FilesKept.writeLine (h : FilesKept config records host) (hfile : host.sink.file = true)
    (record : AuditRecord) :
    FilesKept config (records ++ [record]) (host.writeFile record.line) := by
  obtain ⟨text, htext⟩ := Option.isSome_iff_exists.mp (h.held hfile)
  refine ⟨?_, ?_, ?_⟩
  · have hcontents : (host.writeFile record.line).contents =
        Function.update host.contents 0 (host.contents 0 ++ (record.text ++ [10])) := by
      simp [AuditHost.writeFile, AuditHost.contents, htext, AuditRecord.line]
    rw [hcontents]
    exact h.keeps.append record
  · intro index hindex
    have hne : index ≠ 0 := by omega
    simpa [AuditHost.writeFile, AuditHost.setFile, hne] using h.bounded index hindex
  · intro _
    simp [AuditHost.writeFile, AuditHost.setFile, htext]

theorem FilesKept.writeNothing (h : FilesKept config records host) :
    FilesKept config records (host.writeFile []) := by
  have hsame : host.writeFile [] = host := by
    simp [AuditHost.writeFile, AuditHost.setFile]
  rw [hsame]
  exact h

theorem Moving.removeOldest (h : Moving config records host) :
    Moving config records (host.removeFile config.retainedRotations) := by
  refine ⟨⟨?_, ?_, ?_⟩, h.released⟩
  · rw [AuditHost.removeFile, AuditHost.contents_setFile]
    exact h.keeps.dropOldest
  · intro index hindex
    have hne : index ≠ config.retainedRotations := by omega
    simpa [AuditHost.removeFile, AuditHost.setFile, hne] using h.bounded index hindex
  · intro hfile
    simp [AuditHost.removeFile, AuditHost.setFile, h.released] at hfile

theorem Moving.rename (h : Moving config records host) {index : Nat}
    (hindex : index < config.retainedRotations) (hempty : host.files (index + 1) = none) :
    Moving config records (host.rename index (index + 1)) := by
  refine ⟨⟨?_, ?_, ?_⟩, h.released⟩
  · rw [AuditHost.contents_rename]
    exact h.keeps.move (by simp [AuditHost.contents, hempty]) hindex
  · intro other hother
    have hsource : other ≠ index := by omega
    have htarget : other ≠ index + 1 := by omega
    simpa [AuditHost.rename, AuditHost.setFile, hsource, htarget] using h.bounded other hother
  · intro hfile
    simp [AuditHost.rename, AuditHost.setFile, h.released] at hfile

theorem call_triple {P : AuditHost → Prop} (this : AuditCall) :
    Triple P (call failing this) (fun _ => P) (fun _ => P) :=
  Triple.attempt (fun _ _ => id) (fun _ _ => id)

theorem call_opened (this : AuditCall) :
    Triple (fun host => FilesKept config records host ∧ (host.files 0).isSome)
      (call failing this) (fun _ host => FilesKept config records host ∧ (host.files 0).isSome)
      (fun _ => FilesKept config records) :=
  (call_triple this).conseq (fun _ => id) (fun _ _ => id) fun _ _ h => h.1

theorem openAuditFile_triple :
    Triple (FilesKept config records) (openAuditFile failing)
      (fun _ host => FilesKept config records host ∧ (host.files 0).isSome)
      (fun _ => FilesKept config records) := by
  refine Triple.bind _ (Triple.attempt ?_ ?_) fun _ =>
    Triple.bind _ (call_opened _) fun _ => Triple.bind _ (call_opened _) fun _ => ?_
  · intro _ host h
    exact ⟨h.createFile, by simp [AuditHost.createFile, AuditHost.setFile]⟩
  · intro _ host h
    exact h
  · refine Triple.bindGet fun seen => Triple.pure ?_
    rintro host ⟨-, h⟩
    exact h

/-- The loop of the rotation: before file `index` is moved its target is free,
and afterwards it is free itself. -/
theorem shiftRotated_triple (index : Nat) (hindex : index < config.retainedRotations) :
    Triple (fun host => Moving config records host ∧ host.files (index + 1) = none)
      (shiftRotated failing index)
      (fun _ host => Moving config records host ∧ host.files 1 = none)
      (fun _ => FilesKept config records) := by
  induction index with
  | zero => exact Triple.pure fun _ => id
  | succ index ih =>
    refine Triple.bindGet fun seen => Triple.bind _ (Triple.onlyIf ?_ ?_)
      fun _ => ih (by omega)
    · refine fun _ => Triple.attempt ?_ ?_
      · rintro - host ⟨-, hmoving, hfree⟩
        exact ⟨hmoving.rename hindex hfree, by simp [AuditHost.rename, AuditHost.setFile]⟩
      · rintro - host ⟨-, hmoving, -⟩
        exact hmoving.toFilesKept
    · rintro hnone host ⟨rfl, hmoving, -⟩
      exact ⟨hmoving, by simpa using hnone⟩

theorem removeOldest_triple :
    Triple (Moving config records) (removeOldest config failing)
      (fun _ host => Moving config records host ∧ host.files config.retainedRotations = none)
      (fun _ => FilesKept config records) := by
  refine Triple.bindGet fun seen => Triple.onlyIf (fun _ => Triple.attempt ?_ ?_) ?_
  · rintro - host ⟨-, hmoving⟩
    exact ⟨hmoving.removeOldest, by simp [AuditHost.removeFile, AuditHost.setFile]⟩
  · rintro - host ⟨-, hmoving⟩
    exact hmoving.toFilesKept
  · rintro hnone host ⟨rfl, hmoving⟩
    exact ⟨hmoving, by simpa using hnone⟩

theorem moveFiles_triple :
    Triple (Moving config records) (moveFiles config failing)
      (fun _ => FilesKept config records) (fun _ => FilesKept config records) := by
  refine Triple.ite ?_ ?_
  · intro hretained
    have hshift : Triple
        (fun host => Moving config records host ∧ host.files config.retainedRotations = none)
        (shiftRotated failing (config.retainedRotations - 1))
        (fun _ host => Moving config records host ∧ host.files 1 = none)
        (fun _ => FilesKept config records) := by
      have hloop := @shiftRotated_triple config records failing _ (Nat.sub_one_lt hretained.ne')
      rwa [Nat.sub_add_cancel hretained] at hloop
    refine Triple.bind _ removeOldest_triple fun _ => Triple.bind _ hshift fun _ =>
      Triple.bindGet fun seen => Triple.onlyIf (fun _ => Triple.attempt ?_ ?_) ?_
    · rintro - host ⟨-, hmoving, hfree⟩
      exact (hmoving.rename hretained hfree).toFilesKept
    · rintro - host ⟨-, hmoving, -⟩
      exact hmoving.toFilesKept
    · rintro - host ⟨-, hmoving, -⟩
      exact hmoving.toFilesKept
  · intro hretained
    have hzero : config.retainedRotations = 0 := by omega
    refine Triple.bindGet fun seen => Triple.onlyIf (fun _ => Triple.attempt ?_ ?_) ?_
    · rintro - host ⟨-, hmoving⟩
      have hremoved := hmoving.removeOldest
      rw [hzero] at hremoved
      exact hremoved.toFilesKept
    · rintro - host ⟨-, hmoving⟩
      exact hmoving.toFilesKept
    · rintro - host ⟨-, hmoving⟩
      exact hmoving.toFilesKept

theorem releaseFile_triple :
    Triple (FilesKept config records) (releaseFile failing) (fun _ => Moving config records)
      (fun _ => FilesKept config records) := by
  refine Triple.bindGet fun seen => Triple.onlyIf (fun _ => ?_) ?_
  · refine Triple.bind (fun _ => Moving config records) (Triple.modify ?_) fun _ => ?_
    · rintro host ⟨-, h⟩
      exact h.takeFile
    · exact (call_triple _).conseq (fun _ => id) (fun _ _ => id) fun _ _ h => h.toFilesKept
  · rintro hfile host ⟨rfl, h⟩
    exact { h with released := by simpa using hfile }

theorem rotateLocked_triple :
    Triple (FilesKept config records) (rotateLocked config failing)
      (fun _ => FilesKept config records) (fun _ => FilesKept config records) := by
  refine Triple.bind _ releaseFile_triple fun _ => Triple.bind _ moveFiles_triple fun _ =>
    Triple.bind _ openAuditFile_triple fun bytesWritten =>
      Triple.bind _ (call_opened _) fun _ => Triple.modify ?_
  rintro host ⟨h, hfile⟩
  exact h.holdFile hfile bytesWritten

theorem rotateWhenFull_triple (line : Bytes) :
    Triple (FilesKept config records) (rotateWhenFull config failing line)
      (fun _ => FilesKept config records) (fun _ => FilesKept config records) := by
  refine Triple.bindGet fun seen => Triple.onlyIf (fun _ => ?_) ?_
  · exact rotateLocked_triple.weaken fun _ h => h.2
  · rintro - host ⟨-, h⟩
    exact h

theorem writeLine_triple {record : AuditRecord}
    (hwhole : ∀ written, failing = some (.writeLine written) → written = 0) :
    Triple (FilesKept config records) (writeLine failing record.line)
      (fun _ => FilesKept config (records ++ [record])) (fun _ => FilesKept config records) := by
  refine Triple.bindGet fun seen => Triple.ite (fun hfile => ?_) fun _ => Triple.throw ?_
  · split
    · rename_i written
      obtain rfl := hwhole written rfl
      refine Triple.bind (fun _ => FilesKept config records) (Triple.modify ?_)
        fun _ => Triple.throw fun _ => id
      rintro host ⟨-, h⟩
      exact h.writeNothing
    · apply Triple.modify
      rintro host ⟨rfl, h⟩
      exact h.writeLine hfile record
  · rintro host ⟨-, h⟩
    exact h

/-- An append that fails before the first byte of its line leaves the log as it
was, wherever else it fails. -/
theorem append_triple {record : AuditRecord}
    (hwhole : ∀ written, failing = some (.writeLine written) → written = 0) :
    Triple (FilesKept config records) (append config failing record)
      (fun _ => FilesKept config (records ++ [record])) (fun _ => FilesKept config records) := by
  refine Triple.bindGet fun seen => Triple.ite (fun _ => ?_) fun _ => Triple.throw ?_
  · have hhealthy : Triple (FilesKept config records) (appendHealthy config failing record)
        (fun _ => FilesKept config (records ++ [record])) (fun _ => FilesKept config records) :=
      Triple.bind _ (call_triple _) fun _ => Triple.bind _ (rotateWhenFull_triple _) fun _ =>
        Triple.bind _ (writeLine_triple hwhole) fun _ =>
          Triple.modify fun _ h => h.addBytesWritten _
    refine (hhealthy.onError ?_).weaken fun _ h => h.2
    intro _ host h
    exact h.poison
  · rintro host ⟨-, h⟩
    exact h

theorem initializeFile_triple :
    Triple (FilesKept config records) (initializeFile failing)
      (fun _ host => FilesKept config records host ∧ (host.files 0).isSome)
      (fun _ => FilesKept config records) := by
  exact Triple.bind _ (call_triple _) fun _ => Triple.bind _ openAuditFile_triple fun _ =>
    Triple.bind _ (call_opened _) fun _ => Triple.bind _ (call_opened _) fun _ =>
      Triple.pure fun _ => id

end Rotation

/-- A sink after a run, with the records whose append has returned `Ok`. -/
structure AuditLog where
  host : AuditHost
  appended : List AuditRecord

/-- A failing call, when there is one, is chosen with the event. -/
inductive AuditEvent where
  | append (record : AuditRecord) (failing : Failing)
  | reopen (failing : Failing)

def AuditEvent.isAppend : AuditEvent → Bool
  | .append _ _ => true
  | .reopen _ => false

namespace AuditLog

def opened (failing : Failing) : AuditLog where
  host := openInternal failing
    { files := fun _ => none, sink := { file := false, bytesWritten := 0, healthy := false } }
  appended := []

def step (config : AuditSinkConfig) (log : AuditLog) : AuditEvent → AuditLog
  | .append record failing =>
    match append config failing record log.host with
    | .ok _ host => { host := host, appended := log.appended ++ [record] }
    | .error _ host => { host := host, appended := log.appended }
  | .reopen failing => { host := openInternal failing log.host, appended := log.appended }

def run (config : AuditSinkConfig) (log : AuditLog) (events : List AuditEvent) : AuditLog :=
  events.foldl (step config) log

def accepts (config : AuditSinkConfig) (log : AuditLog) (record : AuditRecord)
    (failing : Failing) : Bool :=
  match append config failing record log.host with
  | .ok _ _ => true
  | .error _ _ => false

def rotatedFiles (log : AuditLog) : Set Nat :=
  {index | 0 < index ∧ (log.host.files index).isSome}

/-- The log reads as complete lines, those of the last accepted records. -/
def ReadsBack (config : AuditSinkConfig) (log : AuditLog) : Prop :=
  ∃ kept, kept <:+ log.appended ∧
    splitLines 10 (log.host.readOldestFirst config) = (kept.map AuditRecord.text, [])

end AuditLog

/-- The write of a healthy sink does not stop after the first byte of its
line. -/
def WholeWrite (log : AuditLog) : AuditEvent → Prop
  | .append _ (some (.writeLine written)) => log.host.sink.healthy = true → written = 0
  | _ => True

/-- Every step of the run from `log` is a whole write. -/
def WholeWrites (config : AuditSinkConfig) (log : AuditLog) (events : List AuditEvent) : Prop :=
  ∀ front event back, events = front ++ event :: back →
    WholeWrite (AuditLog.run config log front) event

section Runs

variable {config : AuditSinkConfig}

theorem openInternal_kept {records : List AuditRecord} {host : AuditHost}
    (h : FilesKept config records host) (failing : Failing) :
    FilesKept config records (openInternal failing host) := by
  have htriple := @initializeFile_triple config records failing
  rw [openInternal]
  split
  · rename_i bytesWritten opened hrun
    obtain ⟨hkept, hfile⟩ := htriple.ok h hrun
    exact hkept.setSink fun _ => hfile
  · rename_i error opened hrun
    exact (htriple.error h hrun).setSink nofun

theorem opened_kept (failing : Failing) :
    FilesKept config (AuditLog.opened failing).appended (AuditLog.opened failing).host := by
  apply openInternal_kept
  exact { keeps := Keeps.empty, bounded := fun _ _ => rfl, held := nofun }

theorem step_kept (log : AuditLog) (event : AuditEvent)
    (h : FilesKept config log.appended log.host) (hwhole : WholeWrite log event) :
    FilesKept config (log.step config event).appended (log.step config event).host := by
  cases event with
  | reopen failing => exact openInternal_kept h failing
  | append record failing =>
    cases hhealthy : log.host.sink.healthy with
    | false =>
      rw [AuditLog.step, append_unhealthy hhealthy]
      exact h
    | true =>
      have hfirst : ∀ written, failing = some (.writeLine written) → written = 0 := by
        rintro written rfl
        exact hwhole hhealthy
      have htriple := @append_triple config log.appended failing record hfirst
      rw [AuditLog.step]
      split
      · rename_i hrun
        exact htriple.ok h hrun
      · rename_i hrun
        exact htriple.error h hrun

theorem run_kept {log : AuditLog} (h : FilesKept config log.appended log.host)
    {events : List AuditEvent} (hwhole : WholeWrites config log events) :
    FilesKept config (log.run config events).appended (log.run config events).host :=
  foldl_invariant_of step_kept h hwhole

theorem FilesKept.reads_back {log : AuditLog} (h : FilesKept config log.appended log.host) :
    log.ReadsBack config :=
  h.keeps.read AuditRecord.text_newline

theorem FilesKept.rotatedFiles_le {log : AuditLog}
    (h : FilesKept config log.appended log.host) :
    log.rotatedFiles.encard ≤ config.retainedRotations := by
  have hsub : log.rotatedFiles ⊆ ↑(Finset.Icc 1 config.retainedRotations) := by
    rintro index ⟨hpositive, hsome⟩
    rw [Finset.coe_Icc]
    refine ⟨hpositive, ?_⟩
    by_contra hbeyond
    rw [h.bounded index (by omega)] at hsome
    cases hsome
  calc
    log.rotatedFiles.encard ≤ (↑(Finset.Icc 1 config.retainedRotations) : Set Nat).encard :=
      Set.encard_le_encard hsub
    _ = config.retainedRotations := by
      rw [Set.encard_coe_eq_coe_finsetCard, Nat.card_Icc, Nat.add_sub_cancel]

theorem run_unhealthy {log : AuditLog} (h : log.host.sink.healthy = false)
    {events : List AuditEvent} (happends : ∀ event ∈ events, event.isAppend = true) :
    (log.run config events).host.sink.healthy = false := by
  have hstep : ∀ (log : AuditLog) (event : AuditEvent), log.host.sink.healthy = false →
      event.isAppend = true → (log.step config event).host.sink.healthy = false := by
    rintro log (⟨record, failing⟩ | failing) hlog hevent
    · rw [AuditLog.step, append_unhealthy hlog]
      exact hlog
    · cases hevent
  refine foldl_invariant_of hstep h ?_
  rintro front event back rfl
  exact happends event (by simp)

/-- The latch: once an append is refused, the same sink accepts no other. -/
theorem not_accepts_of_not_accepts {log : AuditLog} {record : AuditRecord} {failing : Failing}
    (hrefused : log.accepts config record failing = false) {later : List AuditEvent}
    (happends : ∀ event ∈ later, event.isAppend = true) (record' : AuditRecord)
    (failing' : Failing) :
    ((log.step config (.append record failing)).run config later).accepts config record'
      failing' = false := by
  have hstep : (log.step config (.append record failing)).host.sink.healthy = false := by
    rw [AuditLog.accepts] at hrefused
    rw [AuditLog.step]
    cases hrun : append config failing record log.host with
    | ok _ host => simp [hrun] at hrefused
    | error _ host => exact append_error_unhealthy hrun
  rw [AuditLog.accepts, append_unhealthy (run_unhealthy hstep happends)]

theorem wholeWrites_of_mem {events : List AuditEvent}
    (h : ∀ event ∈ events, ∀ log, WholeWrite log event) (log : AuditLog) :
    WholeWrites config log events := by
  rintro front event back rfl
  exact h event (by simp) _

end Runs

/-- While no write stops inside a line, the files read back, after any run of
appends, failures and restarts, as the lines of the last accepted records. -/
theorem auditLog_readsBack (config : AuditSinkConfig) (first : Failing)
    (events : List AuditEvent)
    (hwhole : WholeWrites config (AuditLog.opened first) events) :
    let log := (AuditLog.opened first).run config events
    log.ReadsBack config ∧
      log.rotatedFiles.encard ≤ config.retainedRotations ∧
      ∀ record failing later record' failing',
        log.accepts config record failing = false →
        (∀ event ∈ later, AuditEvent.isAppend event = true) →
        ((log.step config (.append record failing)).run config later).accepts config record'
          failing' = false := by
  intro log
  have hkept : FilesKept config log.appended log.host := run_kept (opened_kept first) hwhole
  refine ⟨hkept.reads_back, hkept.rotatedFiles_le, ?_⟩
  intro record failing later record' failing' hrefused happends
  exact not_accepts_of_not_accepts hrefused happends record' failing'

def sampleRecord : AuditRecord :=
  .decisionRecord 1700000000000 ⟨utf8 "req_1", utf8 "op_1", some (utf8 "kc_1"), .fileRead⟩ .allow
    .requestValidated

def interruptedRotations : List AuditEvent :=
  [.append sampleRecord none, .append sampleRecord none, .append sampleRecord (some (.shift 1)),
    .reopen none, .append sampleRecord (some .renameCurrent), .reopen (some .syncDirectory),
    .reopen none, .append sampleRecord none, .append sampleRecord (some (.writeLine 0))]

theorem interruptedRotations_readsBack :
    ((AuditLog.opened none).run ⟨200, 2⟩ interruptedRotations).ReadsBack ⟨200, 2⟩ := by
  refine (auditLog_readsBack ⟨200, 2⟩ none interruptedRotations ?_).1
  apply wholeWrites_of_mem
  intro event hevent log
  simp only [interruptedRotations, List.mem_cons, List.not_mem_nil, or_false] at hevent
  rcases hevent with rfl | rfl | rfl | rfl | rfl | rfl | rfl | rfl | rfl <;> simp [WholeWrite]

/-- One byte of a line is written before the disk refuses the rest, the runtime
is started again and the next append succeeds. -/
def tornLine : List AuditEvent :=
  [.append sampleRecord (some (.writeLine 1)), .reopen none, .append sampleRecord none]

/-- The accepted record is read as the end of the torn line. -/
theorem accepted_record_glued_to_torn_line :
    let log := (AuditLog.opened none).run defaultAuditSinkConfig tornLine
    log.appended = [sampleRecord] ∧
      splitLines 10 (log.host.readOldestFirst defaultAuditSinkConfig) =
        ([123 :: sampleRecord.text], []) ∧
      ¬log.ReadsBack defaultAuditSinkConfig := by
  intro log
  have happended : log.appended = [sampleRecord] := by decide +kernel
  have hread : splitLines 10 (log.host.readOldestFirst defaultAuditSinkConfig) =
      ([123 :: sampleRecord.text], []) := by decide +kernel
  refine ⟨happended, hread, ?_⟩
  rintro ⟨kept, hkept, hlines⟩
  rw [happended] at hkept
  rw [hread, Prod.mk.injEq] at hlines
  have hone : kept = [sampleRecord] := by
    refine hkept.eq_of_length ?_
    have hlength := congrArg List.length hlines.1
    simpa using hlength.symm
  rw [hone] at hlines
  have htext : (123 :: sampleRecord.text).length = sampleRecord.text.length := by
    rw [List.head_eq_of_cons_eq hlines.1]
  simp at htext

end KodeGpt.AuditRotation
