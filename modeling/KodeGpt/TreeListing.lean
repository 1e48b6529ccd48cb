import KodeGpt.JsonText

/-!
The listing of a directory tree that does not change meanwhile. Candidates wait
in path order, and of them only as many are kept as the listing still has room
for and one more. Names are the bytes of their UTF-8 form.
-/

namespace KodeGpt.TreeListing

open JsonText

inductive TreeEntryKind where
  | file
  | directory
  | symlink
  | other
  deriving DecidableEq

inductive Node where
  | directory (size : Nat) (entries : List (Bytes × Node))
  | leaf (kind : TreeEntryKind) (size : Nat)

namespace Node

def kind : Node → TreeEntryKind
  | directory _ _ => .directory
  | leaf kind _ => kind

def size : Node → Nat
  | directory size _ => size
  | leaf _ size => size

end Node

inductive TraversalScope where
  | literal
  | semantic
  deriving DecidableEq

def semanticExcludedDirectories : List Bytes :=
  [".git", ".worktrees", "node_modules", "vendor", "target", "dist", "build", "coverage", "out",
    "__pycache__", ".cache", ".vite", ".turbo", ".next", ".nuxt", ".svelte-kit", ".pytest_cache",
    ".mypy_cache", ".ruff_cache", ".tox", ".venv", "venv", ".VSCodeCounter",
    ".code-review-graph"].map utf8

def includeDirectory : TraversalScope → Bytes → Bool
  | .literal, _ => true
  | .semantic, name => name ∉ semanticExcludedDirectories

/-- The components of a relative path. Paths are compared by components. -/
abbrev RelativePath := List Bytes

structure TreeEntry where
  path : RelativePath
  kind : TreeEntryKind
  sizeBytes : Option Nat

structure TreeResult where
  entries : List TreeEntry
  truncated : Bool

structure TreeOptions where
  maxEntries : Nat
  hardCap : Nat
  includeSizeBytes : Bool
  scope : TraversalScope

abbrev Candidates := List (RelativePath × Node)

/-- A candidate takes its place in the order; one at the same path is
replaced. -/
def insertCandidate (path : RelativePath) (node : Node) : Candidates → Candidates
  | [] => [(path, node)]
  | (first, other) :: rest =>
    if path < first then (path, node) :: (first, other) :: rest
    else if path = first then (path, node) :: rest
    else (first, other) :: insertCandidate path node rest

def enqueueEntry (scope : TraversalScope) (start : RelativePath) (frontierLimit : Nat)
    (pending : Candidates) (entry : Bytes × Node) : Candidates :=
  if entry.2.kind = .directory ∧ includeDirectory scope entry.1 = false then pending
  else
    let pending := insertCandidate (start ++ [entry.1]) entry.2 pending
    if frontierLimit < pending.length then pending.dropLast else pending

def enqueueDirectoryEntries (scope : TraversalScope) (start : RelativePath) (frontierLimit : Nat)
    (entries : List (Bytes × Node)) (pending : Candidates) : Candidates :=
  entries.foldl (enqueueEntry scope start frontierLimit) pending

def treeEntry (options : TreeOptions) (path : RelativePath) (node : Node) : TreeEntry where
  path := path
  kind := node.kind
  sizeBytes := if options.includeSizeBytes then some node.size else none

/-- The entries taken while there is room for `remaining` more, and the candidates
that are left. -/
def treeLoop (options : TreeOptions) : Nat → Candidates → List TreeEntry × Candidates
  | 0, pending => ([], pending)
  | _ + 1, [] => ([], [])
  | remaining + 1, (path, node) :: pending =>
    let pending := match node with
      | .directory _ entries =>
        enqueueDirectoryEntries options.scope path (remaining + 1) entries pending
      | .leaf _ _ => pending
    let later := treeLoop options remaining pending
    (treeEntry options path node :: later.1, later.2)

/-- The listing from an opened directory; there is none when the limit is
refused. -/
def treeBeneathWithOptions (options : TreeOptions) (start : RelativePath)
    (entries : List (Bytes × Node)) : Option TreeResult :=
  if options.maxEntries = 0 ∨ options.hardCap < options.maxEntries then none
  else
    let pending :=
      enqueueDirectoryEntries options.scope start (options.maxEntries + 1) entries []
    let listed := treeLoop options options.maxEntries pending
    some ⟨listed.1, !listed.2.isEmpty⟩

def treeMaxEntries : Nat := 10000

/-- What `file.tree` lists for a capability whose root holds the entries. -/
def fileTree (maxEntries : Nat) (scope : TraversalScope) (start : RelativePath)
    (entries : List (Bytes × Node)) : Option TreeResult :=
  treeBeneathWithOptions ⟨maxEntries, treeMaxEntries, true, scope⟩ start entries

theorem fileTree_entries {maxEntries : Nat} (hpos : 0 < maxEntries)
    (hcap : maxEntries ≤ treeMaxEntries) (scope : TraversalScope) (start : RelativePath)
    (entries : List (Bytes × Node)) :
    ∃ result, fileTree maxEntries scope start entries = some result ∧
      result.entries = (treeLoop ⟨maxEntries, treeMaxEntries, true, scope⟩ maxEntries
        (enqueueDirectoryEntries scope start (maxEntries + 1) entries [])).1 := by
  have hlimits : ¬ (maxEntries = 0 ∨ treeMaxEntries < maxEntries) := by omega
  unfold fileTree treeBeneathWithOptions
  rw [if_neg hlimits]
  exact ⟨_, rfl, rfl⟩

def kindText : TreeEntryKind → String
  | .file => "file"
  | .directory => "directory"
  | .symlink => "symlink"
  | .other => "other"

def pathText (path : RelativePath) : Bytes :=
  (path.intersperse [47]).flatten

def sizeMember (sizeBytes : Option Nat) : List (Bytes × Json) :=
  (sizeBytes.map fun size => (utf8 "sizeBytes", Json.number size)).toList

def TreeEntry.toJson (entry : TreeEntry) : Json :=
  .object ([(utf8 "kind", .string (utf8 (kindText entry.kind))),
    (utf8 "path", .string (pathText entry.path))] ++ sizeMember entry.sizeBytes)

def TreeResult.toJson (result : TreeResult) : Json :=
  .object [(utf8 "entries", .array (result.entries.map TreeEntry.toJson)),
    (utf8 "truncated", .bool result.truncated)]

theorem escapeByte_length_pos (byte : UInt8) : 0 < (escapeByte byte).length := by
  unfold escapeByte
  split_ifs <;> simp

theorem stringText_length (value : Bytes) : value.length ≤ (stringText value).length := by
  have hbody : value.length ≤ (value.flatMap escapeByte).length := by
    induction value with
    | nil => exact Nat.le_refl 0
    | cons byte rest ih =>
      have hpos := escapeByte_length_pos byte
      simp only [List.flatMap_cons, List.length_append, List.length_cons]
      omega
  simp only [stringText, List.length_append, List.length_cons]
  omega

theorem commaSeparated_length (parts : List Bytes) :
    (parts.map List.length).sum ≤ (commaSeparated parts).length := by
  induction parts using commaSeparated.induct with
  | case1 => exact Nat.le_refl 0
  | case2 part => simp [commaSeparated]
  | case3 part rest hrest ih =>
    rw [commaSeparated]
    · simp only [List.map_cons, List.sum_cons, List.length_append, List.length_cons]
      omega
    · exact hrest

theorem length_le_commaSeparated {parts : List Bytes} {part : Bytes} (hmem : part ∈ parts) :
    part.length ≤ (commaSeparated parts).length := by
  have hpart : part.length ≤ (parts.map List.length).sum := by
    induction parts with
    | nil => exact absurd hmem List.not_mem_nil
    | cons first rest ih =>
      simp only [List.map_cons, List.sum_cons]
      obtain rfl | hmem := List.mem_cons.mp hmem
      · exact Nat.le_add_right _ _
      · exact Nat.le_trans (ih hmem) (Nat.le_add_left _ _)
  exact Nat.le_trans hpart (commaSeparated_length parts)

theorem compactMembers_eq (members : List (Bytes × Json)) :
    Json.compactMembers members =
      members.map fun member => stringText member.1 ++ 58 :: member.2.compact := by
  induction members with
  | nil => rfl
  | cons member rest ih =>
    obtain ⟨key, value⟩ := member
    rw [Json.compactMembers, ih, List.map_cons]

theorem compactItems_eq (items : List Json) : Json.compactItems items = items.map Json.compact := by
  induction items with
  | nil => rfl
  | cons item rest ih => rw [Json.compactItems, ih, List.map_cons]

theorem member_length {members : List (Bytes × Json)} {key : Bytes} {value : Json}
    (hmem : (key, value) ∈ members) :
    value.compact.length ≤ (Json.object members).compact.length := by
  have hpart : stringText key ++ 58 :: value.compact ∈ Json.compactMembers members := by
    rw [compactMembers_eq]
    exact List.mem_map_of_mem hmem
  have hlength := length_le_commaSeparated hpart
  simp only [Json.compact, List.length_append, List.length_cons] at hlength ⊢
  omega

theorem items_length (items : List Json) :
    (items.map fun item => item.compact.length).sum ≤ (Json.array items).compact.length := by
  have hlength := commaSeparated_length (Json.compactItems items)
  rw [compactItems_eq, List.map_map] at hlength
  simp only [Json.compact, compactItems_eq, List.length_append, List.length_cons]
  exact Nat.le_trans hlength (by omega)

theorem pathText_length (path : RelativePath) :
    (path.map List.length).sum ≤ (pathText path).length := by
  unfold pathText
  induction path with
  | nil => exact Nat.le_refl 0
  | cons name rest ih =>
    cases rest with
    | nil => simp
    | cons next rest =>
      rw [List.intersperse_cons_cons]
      simp only [List.map_cons, List.sum_cons, List.flatten_cons, List.length_append] at ih ⊢
      omega

theorem TreeEntry.toJson_length (entry : TreeEntry) :
    (entry.path.map List.length).sum ≤ entry.toJson.compact.length := by
  have hmem : (utf8 "path", Json.string (pathText entry.path)) ∈
      [(utf8 "kind", Json.string (utf8 (kindText entry.kind))),
        (utf8 "path", .string (pathText entry.path))] ++ sizeMember entry.sizeBytes := by
    simp
  have hpath := pathText_length entry.path
  have hstring := stringText_length (pathText entry.path)
  have hmember := member_length hmem
  rw [Json.compact] at hmember
  exact Nat.le_trans hpath (Nat.le_trans hstring hmember)

def chain (name : Bytes) : Nat → Node
  | 0 => .directory 0 []
  | depth + 1 => .directory 0 [(name, chain name depth)]

def chainWeight (nameLength : Nat) : Nat → Nat → Nat
  | 0, weight => weight
  | depth + 1, weight => weight + chainWeight nameLength depth (weight + nameLength)

def entriesLength (entries : List TreeEntry) : Nat :=
  (entries.map fun entry => entry.toJson.compact.length).sum

theorem enqueue_alone {scope : TraversalScope} {start : RelativePath} {name : Bytes} {node : Node}
    (hscope : includeDirectory scope name = true) (limit : Nat) :
    enqueueDirectoryEntries scope start (limit + 1) [(name, node)] [] =
      [(start ++ [name], node)] := by
  simp [enqueueDirectoryEntries, enqueueEntry, insertCandidate, hscope]

theorem treeLoop_chain {options : TreeOptions} {name : Bytes}
    (hscope : includeDirectory options.scope name = true) {depth remaining : Nat}
    (hdepth : depth < remaining) (path : RelativePath) :
    chainWeight name.length depth (path.map List.length).sum ≤
      entriesLength (treeLoop options remaining [(path, chain name depth)]).1 := by
  obtain ⟨remaining, rfl⟩ : ∃ less, remaining = less + 1 := ⟨remaining - 1, by omega⟩
  induction depth generalizing remaining path with
  | zero =>
    have hentry := TreeEntry.toJson_length (treeEntry options path (chain name 0))
    simp only [treeLoop, chain, entriesLength, List.map_cons, List.sum_cons]
    exact Nat.le_trans hentry (Nat.le_add_right _ _)
  | succ depth ih =>
    obtain ⟨remaining, rfl⟩ : ∃ less, remaining = less + 1 := ⟨remaining - 1, by omega⟩
    have hentry := TreeEntry.toJson_length (treeEntry options path (chain name (depth + 1)))
    have hlater := ih (path ++ [name]) remaining (by omega)
    have hweight : ((path ++ [name]).map List.length).sum =
        (path.map List.length).sum + name.length := by
      simp
    rw [hweight] at hlater
    simp only [chain, treeLoop, enqueue_alone hscope]
    simp only [entriesLength, List.map_cons, List.sum_cons] at hlater ⊢
    exact Nat.add_le_add hentry hlater

end KodeGpt.TreeListing
