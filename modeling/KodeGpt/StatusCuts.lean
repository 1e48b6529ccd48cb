import KodeGpt.GitStatus

/-!
A status that is cut anywhere behind the object id of its branch. The paths that are
parsed of it are the first ones of the whole status, each with all that was printed of it.
-/

namespace KodeGpt.StatusCuts

open TextEncodings GitStatus
open JsonText (Bytes)

section Cuts

variable {α : Type} {front left right : List α}

end Cuts

section Parsing

variable {sourceTruncated : Bool} {field : Bytes} {rest : List Bytes} {found : Parsed}

def headerField (header : Header) : Bytes := 35 :: 32 :: header.val

end Parsing

section Cut

variable {found : Parsed} {front : List Bytes}

/-- The parse has gone on over the entries `kept`. -/
structure Extends (found later : Parsed) (kept : List StatusEntry) : Prop where
  headOid : later.headOid = found.headOid
  records : later.records = found.records ++ kept.map StatusEntry.record
  truncated : found.truncated = true → later.truncated = true

theorem Extends.refl (found : Parsed) : Extends found found [] where
  headOid := rfl
  records := by rw [List.map_nil, List.append_nil]
  truncated := id

end Cut

def branchField (report : StatusReport) : Bytes := 35 :: 32 :: (branchOid ++ report.branch.val)

theorem StatusReport.fields_eq (report : StatusReport) : report.fields =
    branchField report :: (report.headers.map headerField ++
      report.entries.flatMap StatusEntry.fields) := rfl

section Reports

variable {report : StatusReport}

def start (sourceTruncated : Bool) : Parsed := ⟨none, [], none, sourceTruncated⟩

end Reports

def someOid : Word := ⟨List.replicate 40 97, by decide⟩

end KodeGpt.StatusCuts
