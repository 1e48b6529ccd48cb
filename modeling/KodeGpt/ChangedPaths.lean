import KodeGpt.CommitObjects
import KodeGpt.FallibleActions
import KodeGpt.KeyedJoins

/-!
The changed paths of a commit: the statuses that one stream of git reports are joined with the
line counts that another one reports.
-/

namespace KodeGpt.ChangedPaths

open ListCuts TextEncodings
open JsonText (Bytes)
open FrameCodec (isDigit decimalValue)
open CommitObjects (GitHistoryError ascii)
open KeyedJoins (keys)

inductive GitChangedPathStatus where
  | added
  | modified
  | deleted
  | typeChanged
  deriving DecidableEq, Repr

structure GitHistoricalChangedPath where
  path : Bytes
  status : GitChangedPathStatus
  insertions : Option Nat
  deletions : Option Nat
  binary : Bool
  deriving DecidableEq

structure GitHistoricalStatSummary where
  filesChanged : Nat
  insertions : Nat
  deletions : Nat
  binaryFiles : Nat
  deriving DecidableEq

structure ChangedPathParseResult where
  paths : List GitHistoricalChangedPath
  summary : GitHistoricalStatSummary
  pathLimitReached : Bool
  deriving DecidableEq

/-- The lines of a path that have been inserted and deleted; a binary file has no lines. -/
structure PathStat where
  insertions : Option Nat
  deletions : Option Nat
  binary : Bool
  deriving DecidableEq

abbrev Statuses := List (Bytes × GitChangedPathStatus)

abbrev Stats := List (Bytes × PathStat)

def maxHistoryPathBytes : Nat := 4096

def pathLimit : Nat := 500

def tab : UInt8 := 9

def nulTokens (input : Bytes) : Except GitHistoryError (List Bytes) :=
  if input.isEmpty then .ok []
  else if input.getLast? ≠ some 0 then .error .gitReadFailed
  else .ok (input.dropLast.splitOn 0)

def isHistoryPath (path : Bytes) : Bool :=
  !path.isEmpty && path.length ≤ maxHistoryPathBytes && path.head? ≠ some 47 &&
    path.head? ≠ some 58 && path.head? ≠ some 45 && path.all (fun byte => 31 < byte && byte ≠ 127) &&
    (path.splitOn 47).all fun component => component ≠ [] && component ≠ [46] && component ≠ [46, 46]

def isGitReportedPath (path : Bytes) : Bool := validUtf8 path && isHistoryPath path

def parseGitReportedPath (path : Bytes) : Except GitHistoryError Bytes :=
  if isGitReportedPath path then .ok path else .error .gitReadFailed

def parseDecimalU64 (value : Bytes) : Except GitHistoryError Nat :=
  if value.isEmpty || !value.all isDigit then .error .gitReadFailed
  else if 2 ^ 64 ≤ decimalValue value then .error .gitReadFailed
  else .ok (decimalValue value)

def readStatus (token : Bytes) : Except GitHistoryError GitChangedPathStatus :=
  if token = ascii "A" then .ok .added
  else if token = ascii "M" then .ok .modified
  else if token = ascii "D" then .ok .deleted
  else if token = ascii "T" then .ok .typeChanged
  else .error .gitReadFailed

def readStatuses : List Bytes → Except GitHistoryError Statuses
  | [] => .ok []
  | [_] => .error .gitReadFailed
  | token :: pathToken :: rest => do
    let status ← readStatus token
    let path ← parseGitReportedPath pathToken
    let later ← readStatuses rest
    .ok ((path, status) :: later)

def readCounts (insertions deletions : Bytes) : Except GitHistoryError PathStat :=
  if insertions = ascii "-" ∧ deletions = ascii "-" then .ok ⟨none, none, true⟩
  else if insertions = ascii "-" ∨ deletions = ascii "-" then .error .gitReadFailed
  else do
    let inserted ← parseDecimalU64 insertions
    let deleted ← parseDecimalU64 deletions
    .ok ⟨some inserted, some deleted, false⟩

def readRecord (record : Bytes) : Except GitHistoryError (Bytes × PathStat) :=
  match cutFirst [tab] record with
  | none => .error .gitReadFailed
  | some (insertions, rest) =>
    match cutFirst [tab] rest with
    | none => .error .gitReadFailed
    | some (deletions, pathBytes) => do
      let path ← parseGitReportedPath pathBytes
      let stat ← readCounts insertions deletions
      .ok (path, stat)

def insertRecord (stats : Stats) (record : Bytes) : Except GitHistoryError Stats := do
  let (path, stat) ← readRecord record
  if path ∈ keys stats then .error .gitReadFailed else .ok (stats ++ [(path, stat)])

def readStats (records : List Bytes) : Except GitHistoryError Stats :=
  records.foldlM insertRecord []

def sumU64 (values : List Nat) : Nat := values.sum % 2 ^ 64

def summarize (stats : Stats) : GitHistoricalStatSummary where
  filesChanged := stats.length
  insertions := sumU64 (stats.filterMap fun entry => entry.2.insertions)
  deletions := sumU64 (stats.filterMap fun entry => entry.2.deletions)
  binaryFiles := (stats.filter fun entry => entry.2.binary).length

def changedPath (path : Bytes) (status : GitChangedPathStatus) (stat : PathStat) :
    GitHistoricalChangedPath :=
  ⟨path, status, stat.insertions, stat.deletions, stat.binary⟩

def takeStats : Statuses → Stats → Except GitHistoryError (List GitHistoricalChangedPath × Stats)
  | [], stats => .ok ([], stats)
  | (path, status) :: rest, stats =>
    match KeyedJoins.remove path stats with
    | none => .error .gitReadFailed
    | some (stat, stats) => do
      let (later, left) ← takeStats rest stats
      .ok (changedPath path status stat :: later, left)

def joinStreams (statuses : Statuses) (stats : Stats) :
    Except GitHistoryError ChangedPathParseResult :=
  if statuses.length ≠ stats.length then .error .gitReadFailed
  else do
    let pathLimitReached := decide (pathLimit < statuses.length)
    let (paths, left) ← takeStats (statuses.take pathLimit) stats
    if !pathLimitReached && !left.isEmpty then .error .gitReadFailed
    else .ok ⟨paths, summarize stats, pathLimitReached⟩

def parseChangedPaths (nameStatus numstat : Bytes) :
    Except GitHistoryError ChangedPathParseResult := do
  let statusTokens ← nulTokens nameStatus
  let statuses ← readStatuses statusTokens
  let records ← nulTokens numstat
  let stats ← readStats records
  joinStreams statuses stats

end KodeGpt.ChangedPaths
