import KodeGpt.AuditRecords
import KodeGpt.FallibleActions
import KodeGpt.RotatedLines

/-!
The audit sink: append with a health latch, rotation of the files, and the
opening of a sink on the files an earlier process has left. Every call to the
host may fail, a write also after some of its bytes.
-/

namespace KodeGpt.AuditSink

open AuditRecords FallibleActions JsonText RotatedLines

structure AuditSinkConfig where
  rotationBytes : Nat
  retainedRotations : Nat

def defaultAuditSinkConfig : AuditSinkConfig where
  rotationBytes := 10 * 1024 * 1024
  retainedRotations := 5

abbrev AuditError := String

def unavailable : AuditError := "AUDIT_UNAVAILABLE"

/-- `file` tells whether the sink holds an open file; what it holds open is
always `audit.jsonl`. -/
structure AuditState where
  file : Bool
  bytesWritten : Nat
  healthy : Bool

/-- The files of the audit directory beside the sink: number zero is
`audit.jsonl`, number `i` the file `audit.jsonl.i`. -/
structure AuditHost where
  files : Nat → Option Bytes
  sink : AuditState

/-- The calls that can fail. A failing `writeLine` has written that many bytes
of its line; all of them when it is the flush or the sync that fails. -/
inductive AuditCall where
  | encode
  | syncAll
  | removeOldest
  | shift (index : Nat)
  | renameCurrent
  | removeCurrent
  | createDirectory
  | openFile
  | setPermissions
  | metadata
  | syncDirectory
  | writeLine (written : Nat)
  deriving DecidableEq

abbrev Action := EStateM AuditError AuditHost

def maxU64 : Nat := 2 ^ 64 - 1

def saturatingAdd (a b : Nat) : Nat := min (a + b) maxU64

namespace AuditHost

def contents (host : AuditHost) (index : Nat) : Bytes :=
  (host.files index).getD []

def setFile (index : Nat) (file : Option Bytes) (host : AuditHost) : AuditHost :=
  { host with files := Function.update host.files index file }

def removeFile (index : Nat) (host : AuditHost) : AuditHost :=
  host.setFile index none

def rename (source target : Nat) (host : AuditHost) : AuditHost :=
  (host.setFile target (host.files source)).setFile source none

def createFile (host : AuditHost) : AuditHost :=
  host.setFile 0 (some (host.contents 0))

def writeFile (bytes : Bytes) (host : AuditHost) : AuditHost :=
  host.setFile 0 ((host.files 0).map (· ++ bytes))

def setSink (sink : AuditState) (host : AuditHost) : AuditHost :=
  { host with sink := sink }

def poison (host : AuditHost) : AuditHost :=
  { host with sink := { host.sink with healthy := false } }

def takeFile (host : AuditHost) : AuditHost :=
  { host with sink := { host.sink with file := false } }

def holdFile (bytesWritten : Nat) (host : AuditHost) : AuditHost :=
  { host with sink := { host.sink with file := true, bytesWritten := bytesWritten } }

def addBytesWritten (count : Nat) (host : AuditHost) : AuditHost :=
  { host with sink :=
      { host.sink with bytesWritten := saturatingAdd host.sink.bytesWritten count } }

/-- The rotated files from the oldest to the newest, then `audit.jsonl`. -/
def readOldestFirst (config : AuditSinkConfig) (host : AuditHost) : Bytes :=
  stack config.retainedRotations host.contents

end AuditHost

/-- The one call of an operation that fails, if it is reached: the operation
stops there. -/
abbrev Failing := Option AuditCall

def call (failing : Failing) (this : AuditCall) (effect : AuditHost → AuditHost := id) :
    Action Unit :=
  attempt (failing == some this) unavailable effect

def openAuditFile (failing : Failing) : Action Nat := do
  call failing .openFile AuditHost.createFile
  call failing .setPermissions
  call failing .metadata
  let host ← get
  pure (host.contents 0).length

def initializeFile (failing : Failing) : Action Nat := do
  call failing .createDirectory
  let bytesWritten ← openAuditFile failing
  call failing .syncAll
  call failing .syncDirectory
  pure bytesWritten

def openInternal (failing : Failing) (host : AuditHost) : AuditHost :=
  match initializeFile failing host with
  | .ok bytesWritten opened =>
    opened.setSink { file := true, bytesWritten := bytesWritten, healthy := true }
  | .error _ opened => opened.setSink { file := false, bytesWritten := 0, healthy := false }

/-- Rename `audit.jsonl.i` to the next number where it exists, for `i` from
`index` down to one. -/
def shiftRotated (failing : Failing) : Nat → Action Unit
  | 0 => pure ()
  | index + 1 => do
    let host ← get
    onlyIf (host.files (index + 1)).isSome <|
      call failing (.shift (index + 1)) (AuditHost.rename (index + 1) (index + 2))
    shiftRotated failing index

def removeOldest (config : AuditSinkConfig) (failing : Failing) : Action Unit := do
  let host ← get
  onlyIf (host.files config.retainedRotations).isSome <|
    call failing .removeOldest (AuditHost.removeFile config.retainedRotations)

/-- Make room: drop what is beyond the retained rotations and move the others
up by one. -/
def moveFiles (config : AuditSinkConfig) (failing : Failing) : Action Unit := do
  if 0 < config.retainedRotations then
    removeOldest config failing
    shiftRotated failing (config.retainedRotations - 1)
    let host ← get
    onlyIf (host.files 0).isSome <|
      call failing .renameCurrent (AuditHost.rename 0 1)
  else
    let host ← get
    onlyIf (host.files 0).isSome <|
      call failing .removeCurrent (AuditHost.removeFile 0)

def releaseFile (failing : Failing) : Action Unit := do
  let host ← get
  onlyIf host.sink.file do
    modify AuditHost.takeFile
    call failing .syncAll

def rotateLocked (config : AuditSinkConfig) (failing : Failing) : Action Unit := do
  releaseFile failing
  moveFiles config failing
  let bytesWritten ← openAuditFile failing
  call failing .syncDirectory
  modify (AuditHost.holdFile bytesWritten)

/-- Rotate when the file is not empty and the line would take it past the
limit. -/
def rotateWhenFull (config : AuditSinkConfig) (failing : Failing) (line : Bytes) :
    Action Unit := do
  let host ← get
  onlyIf (0 < host.sink.bytesWritten ∧
      config.rotationBytes < saturatingAdd host.sink.bytesWritten line.length) <|
    rotateLocked config failing

/-- `write_all`, `flush` and `sync_data`. -/
def writeLine (failing : Failing) (line : Bytes) : Action Unit := do
  let host ← get
  if host.sink.file then
    match failing with
    | some (.writeLine written) => do
      modify (AuditHost.writeFile (line.take written))
      throw unavailable
    | _ => modify (AuditHost.writeFile line)
  else
    throw unavailable

def appendHealthy (config : AuditSinkConfig) (failing : Failing) (record : AuditRecord) :
    Action Unit := do
  call failing .encode
  rotateWhenFull config failing record.line
  writeLine failing record.line
  modify (AuditHost.addBytesWritten record.line.length)

def append (config : AuditSinkConfig) (failing : Failing) (record : AuditRecord) :
    Action Unit := do
  let host ← get
  if host.sink.healthy then
    onError (appendHealthy config failing record) AuditHost.poison
  else
    throw unavailable

section Latch

variable {config : AuditSinkConfig}

theorem append_unhealthy {host : AuditHost} (h : host.sink.healthy = false)
    (record : AuditRecord) (failing : Failing) :
    append config failing record host = .error unavailable host := by
  rw [append, get_bind_apply, if_neg (by simp [h])]
  rfl

theorem append_error_unhealthy {host after : AuditHost} {record : AuditRecord}
    {failing : Failing} {error : AuditError}
    (hrun : append config failing record host = .error error after) :
    after.sink.healthy = false := by
  have htriple : Triple (fun _ => True) (append config failing record) (fun _ _ => True)
      (fun _ host => host.sink.healthy = false) := by
    refine Triple.bindGet fun seen => Triple.ite (fun _ => ?_) fun hhealthy => Triple.throw ?_
    · have hany : Triple (fun _ => True) (appendHealthy config failing record)
          (fun _ _ => True) (fun _ _ => True) := by
        intro host _
        cases appendHealthy config failing record host <;> trivial
      refine (hany.onError ?_).weaken fun _ _ => trivial
      rintro _ host -
      rfl
    · rintro host ⟨rfl, -⟩
      simpa using hhealthy
  exact htriple.error trivial hrun

end Latch

end KodeGpt.AuditSink
