import KodeGpt.FallibleActions
import KodeGpt.TreeCompleteness

/-!
The search for a text in the files of a tree that does not change meanwhile. The listing
gives the paths as texts, and by its text each file is opened again; what the text opens is
the parameter `resolve`.
-/

namespace KodeGpt.TreeSearch

open TextEncodings TreeCompleteness TreeListing
open FallibleActions (bind_eq_ok_iff)
open JsonText (Bytes)

inductive WorkspaceReadError where
  | limitExceeded
  | invalidPath
  | boundaryUnavailable
  | io
  deriving DecidableEq

inductive SearchTruncationReason where
  | treeLimit
  | fileSizeLimit
  | scanByteLimit
  | matchLimit
  | snippetByteLimit
  deriving DecidableEq

structure SearchMatch where
  path : List Char
  line : Nat
  lineText : List Char
  deriving DecidableEq

def searchMaxMatches : Nat := 500

def searchMaxSnippetBytes : Nat := 256 * 1024

def lines (text : List Char) : List (List Char) :=
  let pieces := text.splitOn '\n'
  (pieces.dropLast.map fun line => if line.getLast? = some '\r' then line.dropLast else line) ++
    match pieces.getLast? with
    | none | some [] => []
    | some last => [last]

structure SearchInput where
  query : List Char
  maxMatches : Nat
  maxSnippetBytes : Nat

def SearchInput.accepted (input : SearchInput) : Bool :=
  !input.query.isEmpty && 0 < input.maxMatches && input.maxMatches ≤ searchMaxMatches &&
    0 < input.maxSnippetBytes && input.maxSnippetBytes ≤ searchMaxSnippetBytes

structure SearchState where
  «matches» : List SearchMatch
  snippetBytes : Nat
  scannedBytes : Nat
  reasons : SearchTruncationReason → Bool

def started (truncated : Bool) : SearchState where
  «matches» := []
  snippetBytes := 0
  scannedBytes := 0
  reasons := fun reason => reason = .treeLimit && truncated

def pathBytes (startText : Bytes) (start path : RelativePath) : Bytes :=
  (path.drop start.length).foldl join startText

variable {input : SearchInput} {path : List Char} {done : List SearchMatch} {s t : SearchState}

/-- The state of a search that has found the given occurrences. -/
structure Exact (input : SearchInput) (s : SearchState) (done : List SearchMatch) : Prop where
  found : s.«matches» = done
  bytes : s.snippetBytes = (done.map fun found => (encodeUtf8 found.lineText).length).sum
  snippets : s.snippetBytes ≤ input.maxSnippetBytes
  length : done.length ≤ input.maxMatches

def Reasoned (s : SearchState) : Prop := ∃ reason, s.reasons reason = true

/-- The search has gone through the occurrences, or has stopped with a reason. -/
inductive Searched (input : SearchInput) (s : SearchState) (done occurring : List SearchMatch) :
    SearchState × Bool → Prop
  | through (t : SearchState) (hexact : Exact input t (done ++ occurring))
      (hkept : Reasoned s → Reasoned t) : Searched input s done occurring (t, true)
  | stopped (t : SearchState) (front : List SearchMatch) (hfront : front <+: occurring)
      (hexact : Exact input t (done ++ front)) (hreason : Reasoned t) :
      Searched input s done occurring (t, false)

theorem Exact.nothing (h : Exact input t done) (hkept : Reasoned s → Reasoned t) :
    Searched input s done [] (t, true) :=
  .through t (by rwa [List.append_nil]) hkept

theorem Exact.stop (h : Exact input t done) (occurring : List SearchMatch) (hreason : Reasoned t) :
    Searched input s done occurring (t, false) :=
  .stopped t [] List.nil_prefix (by rwa [List.append_nil]) hreason

theorem Searched.cons {result : SearchState × Bool} {found : SearchMatch}
    {occurring : List SearchMatch} (h : Searched input s (done ++ [found]) occurring result) :
    Searched input s done (found :: occurring) result := by
  cases h with
  | through u hexact hkept =>
    refine .through u ?_ hkept
    rwa [List.append_assoc] at hexact
  | stopped u front hfront hexact hreason =>
    refine .stopped u (found :: front) (List.cons_prefix_cons.mpr ⟨rfl, hfront⟩) ?_ hreason
    rwa [List.append_assoc] at hexact

section Files

variable {resolve : List Char → Opened} {startText : Bytes} {start : RelativePath}
  {contents : RelativePath → Bytes} {scope : TraversalScope}

/-- The search has ended after some of the occurrences, and after all without a reason. -/
structure Ended (input : SearchInput) (s t : SearchState) (done occurring : List SearchMatch) :
    Prop where
  split : ∃ front, front <+: occurring ∧ Exact input t (done ++ front) ∧
    (front = occurring ∨ Reasoned t)
  kept : Reasoned s → Reasoned t

theorem Ended.after {middle : SearchState} {first rest : List SearchMatch}
    (hexact : Exact input middle (done ++ first)) (hkept : Reasoned s → Reasoned middle)
    (h : Exact input middle (done ++ first) → Ended input middle t (done ++ first) rest) :
    Ended input s t done (first ++ rest) := by
  obtain ⟨⟨front, hfront, hlater, hall⟩, hkeeps⟩ := h hexact
  refine ⟨⟨first ++ front, (List.prefix_append_right_inj first).mpr hfront, ?_, ?_⟩,
    fun hreason => hkeeps (hkept hreason)⟩
  · rwa [← List.append_assoc]
  · refine hall.imp ?_ id
    rintro rfl
    rfl

def reported (startText : Bytes) (start : RelativePath) (entry : RelativePath × Node) :
    ReportedEntry where
  path := fromUtf8Lossy (pathBytes startText start entry.1)
  kind := entry.2.kind
  sizeBytes := none

end Files

def sampleInput : SearchInput where
  query := ['n']
  maxMatches := 5
  maxSnippetBytes := 100

end KodeGpt.TreeSearch
