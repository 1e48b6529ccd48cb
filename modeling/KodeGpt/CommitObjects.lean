import KodeGpt.GitStatus
import KodeGpt.ListCuts
import KodeGpt.LossyTexts

/-!
The object of a commit, as the history of a repository reads it: its headers line by line,
the names and times of its identities from the right, and the texts up to their bounds.
-/

namespace KodeGpt.CommitObjects

open ListCuts LossyTexts TextEncodings
open JsonText (Bytes)
open FrameCodec (isDigit decimalValue stripPrefix)
open GitStatus (isObjectId)

inductive GitHistoryError where
  | notAGitRepository
  | revisionInvalid
  | revisionNotFound
  | objectTypeUnsupported
  | pathInvalid
  | outputLimitExceeded
  | timeout
  | gitUnavailable
  | gitReadFailed
  deriving DecidableEq, Repr

def commitObjectMaxBytes : Nat := 64 * 1024

def messageBodyMaxBytes : Nat := 16 * 1024

def authorNameMaxBytes : Nat := 256

def subjectMaxBytes : Nat := 512

def newline : UInt8 := 10

def space : UInt8 := 32

def ascii (text : String) : Bytes := text.toList.map fun character => character.toNat.toUInt8

@[ext]
structure GitCommitSummary where
  oid : Bytes
  shortOid : Bytes
  parents : List Bytes
  authorName : List Char
  authorTime : Int
  committerTime : Int
  subject : List Char
  encodingLossy : Bool
  deriving DecidableEq

@[ext]
structure GitCommitDetail where
  oid : Bytes
  shortOid : Bytes
  parents : List Bytes
  authorName : List Char
  authorTime : Int
  committerTime : Int
  subject : List Char
  body : List Char
  messageTruncated : Bool
  encodingLossy : Bool
  deriving DecidableEq

def isCharBoundary (text : List Char) (index : Nat) : Bool :=
  text.inits.any fun front => byteLength front = index

def floorBoundary (text : List Char) : Nat → Nat
  | 0 => 0
  | index + 1 => if isCharBoundary text (index + 1) then index + 1 else floorBoundary text index

def upTo : List Char → Nat → List Char
  | [], _ => []
  | character :: rest, index =>
    if character.utf8Size ≤ index then character :: upTo rest (index - character.utf8Size) else []

def boundedLossyUtf8 (source : Bytes) (maxBytes : Nat) : List Char × Bool :=
  let converted := fromUtf8Lossy source
  (upTo converted (floorBoundary converted (min (byteLength converted) maxBytes)),
    !validUtf8 source)

def magnitude (digits : Bytes) : Option Nat :=
  if digits.isEmpty || !digits.all isDigit then none else some (decimalValue digits)

/-- `parse::<i64>`. -/
def parseI64 : Bytes → Option Int
  | 45 :: digits => (magnitude digits).bind fun value =>
    if value ≤ 2 ^ 63 then some (-(value : Int)) else none
  | 43 :: digits => (magnitude digits).bind fun value =>
    if value < 2 ^ 63 then some (value : Int) else none
  | digits => (magnitude digits).bind fun value =>
    if value < 2 ^ 63 then some (value : Int) else none

def isTimezone : Bytes → Bool
  | sign :: digits => digits.length = 4 && (sign = 43 || sign = 45) && digits.all isDigit
  | [] => false

def parseIdentity (value : Bytes) : Except GitHistoryError (Bytes × Int) :=
  match cutLast [space] value with
  | none => .error .gitReadFailed
  | some (beforeTimezone, timezone) =>
    if !isTimezone timezone then .error .gitReadFailed
    else
      match cutLast [space] beforeTimezone with
      | none => .error .gitReadFailed
      | some (identity, time) =>
        match parseI64 time, cutLast (ascii " <") identity with
        | some timestamp, some (name, email) =>
          if identity.getLast? ≠ some 62 || email.isEmpty then .error .gitReadFailed
          else if name.isEmpty || email.dropLast.isEmpty then .error .gitReadFailed
          else .ok (name, timestamp)
        | _, _ => .error .gitReadFailed

def validOidBytes (oid : Bytes) : Bool := isObjectId oid

def validFullOid (oid : Bytes) : Bool := isObjectId oid

structure Headers where
  treeSeen : Bool
  parents : List Bytes
  author : Option (Bytes × Int)
  committerTime : Option Int
  continuationAllowed : Bool

namespace Headers

def start : Headers := ⟨false, [], none, none, false⟩

end Headers

def readHeader (headers : Headers) (line : Bytes) : Except GitHistoryError Headers :=
  if line.head? = some space then
    if headers.continuationAllowed then .ok headers else .error .gitReadFailed
  else
    let headers := { headers with continuationAllowed := false }
    match stripPrefix (ascii "tree ") line with
    | some value =>
      if headers.treeSeen || !validOidBytes value then .error .gitReadFailed
      else .ok { headers with treeSeen := true }
    | none =>
      match stripPrefix (ascii "parent ") line with
      | some value =>
        if !validOidBytes value then .error .gitReadFailed
        else .ok { headers with parents := headers.parents ++ [value] }
      | none =>
        match stripPrefix (ascii "author ") line with
        | some value =>
          if headers.author.isSome then .error .gitReadFailed
          else do
            let author ← parseIdentity value
            .ok { headers with author := some author }
        | none =>
          match stripPrefix (ascii "committer ") line with
          | some value =>
            if headers.committerTime.isSome then .error .gitReadFailed
            else do
              let (_, timestamp) ← parseIdentity value
              .ok { headers with committerTime := some timestamp }
          | none =>
            if line.isEmpty || !line.contains space then .error .gitReadFailed
            else .ok { headers with continuationAllowed := true }

def parseCommitObject (oid raw : Bytes) : Except GitHistoryError GitCommitSummary :=
  if !validFullOid oid then .error .gitReadFailed
  else
    match cutFirst [newline, newline] raw with
    | none =>
      if commitObjectMaxBytes < raw.length then .error .outputLimitExceeded
      else .error .gitReadFailed
    | some (header, message) =>
      if commitObjectMaxBytes < header.length + 2 then .error .outputLimitExceeded
      else do
        let headers ← (header.splitOn newline).foldlM readHeader .start
        match headers.author, headers.committerTime, headers.treeSeen with
        | some (authorNameBytes, authorTime), some committerTime, true =>
          let subjectBytes := (message.splitOn newline).headD []
          let (authorName, authorLossy) := boundedLossyUtf8 authorNameBytes authorNameMaxBytes
          let (subject, subjectLossy) := boundedLossyUtf8 subjectBytes subjectMaxBytes
          .ok
            { oid := oid
              shortOid := oid.take 12
              parents := headers.parents
              authorName := authorName
              authorTime := authorTime
              committerTime := committerTime
              subject := subject
              encodingLossy := authorLossy || subjectLossy }
        | _, _, _ => .error .gitReadFailed

def bodyStart (message : Bytes) : Nat :=
  match message.findIdx? (· = newline) with
  | some index => index + 1
  | none => message.length

def parseCommitDetail (oid raw : Bytes) : Except GitHistoryError GitCommitDetail := do
  let summary ← parseCommitObject oid raw
  match cutFirst [newline, newline] raw with
  | none => .error .gitReadFailed
  | some (_, message) =>
    let rest := message.drop (bodyStart message)
    let bodyBytes := if rest.head? = some newline then rest.drop 1 else rest
    let (body, bodyLossy) := boundedLossyUtf8 bodyBytes messageBodyMaxBytes
    .ok
      { oid := summary.oid
        shortOid := summary.shortOid
        parents := summary.parents
        authorName := summary.authorName
        authorTime := summary.authorTime
        committerTime := summary.committerTime
        subject := summary.subject
        body := body
        messageTruncated := messageBodyMaxBytes < bodyBytes.length ||
          messageBodyMaxBytes < byteLength (fromUtf8Lossy bodyBytes)
        encodingLossy := summary.encodingLossy || bodyLossy }

end KodeGpt.CommitObjects
