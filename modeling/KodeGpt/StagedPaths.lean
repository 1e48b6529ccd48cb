import KodeGpt.FilterConfinement

/-!
Staging: the paths that are accepted, the arguments git is given for them, and what
git, which reads them as patterns, changes in the index.
-/

namespace KodeGpt.StagedPaths

open JsonText JsFrames TextEncodings GitConfigs FilterDrivers GitCommands
open JsObjects (JsText)
open FilterConfinement (Repository)

def gitMutationText : Nat := 4096

def gitStagePaths : Nat := 128

def gitMutationPath (value : JsText) : Bool :=
  value ≠ [] && value.length ≤ gitMutationText && value.head? ≠ some 47 && !value.contains 92 &&
    !value.contains 0 && value ≠ asciiUnits "." &&
    (value.splitOn 47).all fun segment =>
      segment ≠ [] && segment ≠ asciiUnits "." && segment ≠ asciiUnits ".."

def acceptsPaths (paths : List Bytes) : Bool :=
  paths ≠ [] && paths.length ≤ gitStagePaths &&
    paths.all fun path => validUtf8 path && gitMutationPath (jsText path)

def Beneath (directory path : Bytes) : Prop := ∃ rest, path = directory ++ slash :: rest

/-- The path is one of the given ones or beneath one. -/
def Covered (paths : List Bytes) (path : Bytes) : Prop :=
  ∃ given ∈ paths, path = given ∨ Beneath given path

theorem Covered.beneath {paths : List Bytes} {path inner : Bytes} (h : Covered paths path)
    (hinner : Beneath path inner) : Covered paths inner := by
  obtain ⟨given, hgiven, rfl | ⟨rest, rfl⟩⟩ := h
  · exact ⟨path, hgiven, Or.inr hinner⟩
  · obtain ⟨last, rfl⟩ := hinner
    refine ⟨given, hgiven, Or.inr ⟨rest ++ slash :: last, ?_⟩⟩
    rw [List.append_assoc, List.cons_append]

def star : UInt8 := 42

def question : UInt8 := 63

def colon : UInt8 := 58

/-- Without anything that a pattern of git could mean. -/
def Plain (path : Bytes) : Prop :=
  path.head? ≠ some colon ∧ star ∉ path ∧ question ∉ path ∧ 91 ∉ path ∧ 92 ∉ path

def literalPathspecs : Bytes := utf8 "--literal-pathspecs"

def addRequest (args : List Bytes) : Option (Bool × List Bytes) :=
  let words := (options args).2
  let literal := words.head? = some literalPathspecs
  match if literal then words.tail else words with
  | subcommand :: separator :: pathspecs =>
    if subcommand = utf8 "add" ∧ separator = utf8 "--" then some (literal, pathspecs) else none
  | _ => none

variable {Held : Type}

/-- What the index holds of every path, and what it would hold of it if it was staged:
what the file holds, or nothing if there is none, or the same as now if git does not
record the path. -/
structure Checkout (Held : Type) where
  index : Bytes → Option Held
  staged : Bytes → Option Held

/-- How git reads its arguments after `add --`. -/
structure Git (Held : Type) where
  selects : Bool → List Bytes → Bytes → Bool
  refuses : Bool → List Bytes → Checkout Held → Prop
  literal : ∀ paths path, selects true paths path = true ↔ Covered paths path
  plain : ∀ paths, (∀ given ∈ paths, Plain given) → ∀ path,
    selects false paths path = true ↔ Covered paths path

section Adding

variable (selected : Bytes → Bool) (checkout : Checkout Held)

/-- Something new of a file is recorded. -/
def Written (path : Bytes) : Prop :=
  selected path = true ∧ checkout.staged path ≠ none ∧ checkout.staged path ≠ checkout.index path

/-- A file of the index stands where a directory is recorded now, or the other way
around. -/
def Displaced (path : Bytes) : Prop :=
  checkout.index path ≠ none ∧
    ∃ other, Written selected checkout other ∧ (Beneath path other ∨ Beneath other path)

/-- What git records of the selected paths, and what it removes for them. -/
structure Added (after : Bytes → Option Held) : Prop where
  displaced : ∀ path, Displaced selected checkout path → after path = none
  recorded : ∀ path, ¬Displaced selected checkout path → selected path = true →
    after path = checkout.staged path
  kept : ∀ path, ¬Displaced selected checkout path → selected path = false →
    after path = checkout.index path

variable {selected checkout}

end Adding

/-- The index after a call. It is left alone when something is refused or fails, and
replaced as a whole when git ends. -/
inductive GitStage (git : Git Held) (repository : Repository)
    (probe : Option Probe) (checkout : Checkout Held) (paths : List Bytes) : (Bytes → Option Held) → Prop
  | unchanged : GitStage git repository probe checkout paths checkout.index
  | added {overrides args : List Bytes} {literal : Bool} {pathspecs : List Bytes}
      {after : Bytes → Option Held} (haccepted : acceptsPaths paths = true)
      (hoverrides : discoverFilterOverrides probe repository.shared = some overrides)
      (hargs : localMutationArgs (.stage paths) overrides = some args)
      (hrequest : addRequest args = some (literal, pathspecs))
      (hgit : ¬git.refuses literal pathspecs checkout)
      (hafter : Added (git.selects literal pathspecs) checkout after) :
      GitStage git repository probe checkout paths after

/-- Only what is given, and what is beneath it, changes. -/
def Exact (git : Git Held) (repository : Repository) (probe : Option Probe)
    (checkout : Checkout Held) (paths : List Bytes) : Prop :=
  ∀ after, GitStage git repository probe checkout paths after →
    ∀ path, after path ≠ checkout.index path → Covered paths path

/-- Git gets to add the paths. -/
def Reaches (git : Git Held) (repository : Repository) (probe : Option Probe)
    (checkout : Checkout Held) (paths : List Bytes) : Prop :=
  acceptsPaths paths = true ∧
    (∃ overrides, discoverFilterOverrides probe repository.shared = some overrides ∧
      (localMutationArgs (.stage paths) overrides).isSome = true) ∧
    ¬git.refuses false paths checkout

def covers (paths : List Bytes) (path : Bytes) : Bool :=
  paths.any fun given => path = given || (given ++ [slash]).isPrefixOf path

end KodeGpt.StagedPaths
