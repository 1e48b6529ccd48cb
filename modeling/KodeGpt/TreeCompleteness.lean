import KodeGpt.TextEncodings
import KodeGpt.TreeListing

/-!
The listing of a tree against the sorted list of all that can be reached in it. Of the
candidates in path order only the front is kept, and what is kept of the front is enough:
it loses nothing that belongs to the result, and shows whether there is more.
-/

namespace KodeGpt.TreeCompleteness

open TextEncodings TreeListing
open JsonText (Bytes)

def includes (scope : TraversalScope) (entry : Bytes × Node) : Bool :=
  entry.2.kind ≠ .directory || includeDirectory scope entry.1

/-- The entries of a directory and all below them. A directory out of the scope is left out
with everything below it, and a leaf has nothing below it. -/
def reachable (scope : TraversalScope) : RelativePath → List (Bytes × Node) → Candidates
  | _, [] => []
  | start, (name, .leaf kind size) :: rest =>
    (if includes scope (name, .leaf kind size) then [(start ++ [name], .leaf kind size)]
      else []) ++ reachable scope start rest
  | start, (name, .directory size entries) :: rest =>
    (if includes scope (name, .directory size entries) then
      (start ++ [name], .directory size entries) :: reachable scope (start ++ [name]) entries
      else []) ++ reachable scope start rest

/-- No two entries of one directory have the same name. -/
inductive DistinctNames : List (Bytes × Node) → Prop
  | nil : DistinctNames []
  | leaf (name : Bytes) (kind : TreeEntryKind) (size : Nat) (rest : List (Bytes × Node))
      (hname : name ∉ rest.map Prod.fst) (hrest : DistinctNames rest) :
      DistinctNames ((name, .leaf kind size) :: rest)
  | directory (name : Bytes) (size : Nat) (entries rest : List (Bytes × Node))
      (hname : name ∉ rest.map Prod.fst) (hentries : DistinctNames entries)
      (hrest : DistinctNames rest) :
      DistinctNames ((name, .directory size entries) :: rest)

def pathOrder (first second : RelativePath × Node) : Prop := first.1 ≤ second.1

instance : DecidableRel pathOrder := fun first second =>
  inferInstanceAs (Decidable (first.1 ≤ second.1))

def completeList (scope : TraversalScope) (start : RelativePath) (entries : List (Bytes × Node)) :
    Candidates :=
  (reachable scope start entries).insertionSort pathOrder

instance : Std.Total pathOrder := ⟨fun first second => List.le_total first.1 second.1⟩

instance : IsTrans (RelativePath × Node) pathOrder := ⟨fun _ _ _ => List.le_trans⟩

variable {scope : TraversalScope}

def below (scope : TraversalScope) (candidate : RelativePath × Node) : Candidates :=
  match candidate.2 with
  | .directory _ entries => reachable scope candidate.1 entries
  | .leaf _ _ => []

def unfolded (scope : TraversalScope) (candidates : Candidates) : Candidates :=
  candidates.flatMap fun candidate => candidate :: below scope candidate

def children (scope : TraversalScope) (start : RelativePath) (entries : List (Bytes × Node)) :
    Candidates :=
  (entries.filter (includes scope)).map fun entry => (start ++ [entry.1], entry.2)

theorem children_cons (start : RelativePath) (entry : Bytes × Node) (rest : List (Bytes × Node)) :
    children scope start (entry :: rest) =
      if includes scope entry then (start ++ [entry.1], entry.2) :: children scope start rest
      else children scope start rest := by
  unfold children
  rw [List.filter_cons]
  split
  · rfl
  · rfl

theorem reachable_eq (start : RelativePath) (entries : List (Bytes × Node)) :
    reachable scope start entries = unfolded scope (children scope start entries) := by
  induction entries with
  | nil => rw [reachable]; rfl
  | cons entry rest ih =>
    obtain ⟨name, node⟩ := entry
    rw [children_cons]
    cases node with
    | leaf kind size =>
      rw [reachable, ih]
      split
      · rfl
      · rfl
    | directory size entries =>
      rw [reachable, ih]
      split
      · rfl
      · rfl

theorem mem_unfolded {candidates : Candidates} {found : RelativePath × Node} :
    found ∈ unfolded scope candidates ↔
      ∃ candidate ∈ candidates, found = candidate ∨ found ∈ below scope candidate := by
  simp [unfolded, List.mem_flatMap]

theorem path_of_mem_reachable {start : RelativePath} {entries : List (Bytes × Node)}
    {found : RelativePath × Node} (h : found ∈ reachable scope start entries) :
    ∃ name ∈ entries.map Prod.fst, ∃ rest, found.1 = start ++ name :: rest := by
  induction start, entries using reachable.induct with
  | case1 start =>
    rw [reachable] at h
    cases h
  | case2 start name kind size rest ih =>
    rw [reachable] at h
    rcases List.mem_append.mp h with hfirst | hrest
    · have heq : found = (start ++ [name], .leaf kind size) := by
        split at hfirst
        · exact List.mem_singleton.mp hfirst
        · cases hfirst
      exact ⟨name, by simp, [], by rw [heq]⟩
    · obtain ⟨other, hother, more, hpath⟩ := ih hrest
      exact ⟨other, List.mem_cons_of_mem _ hother, more, hpath⟩
  | case3 start name size entries rest ihbelow ih =>
    rw [reachable] at h
    rcases List.mem_append.mp h with hfirst | hrest
    · refine ⟨name, by simp, ?_⟩
      split at hfirst
      · rcases List.mem_cons.mp hfirst with rfl | hlower
        · exact ⟨[], rfl⟩
        · obtain ⟨other, -, more, hpath⟩ := ihbelow hlower
          exact ⟨other :: more, by rw [hpath, List.append_assoc]; rfl⟩
      · cases hfirst
    · obtain ⟨other, hother, more, hpath⟩ := ih hrest
      exact ⟨other, List.mem_cons_of_mem _ hother, more, hpath⟩

theorem path_of_mem_below {candidate found : RelativePath × Node}
    (h : found ∈ below scope candidate) : ∃ name rest, found.1 = candidate.1 ++ name :: rest := by
  obtain ⟨path, node⟩ := candidate
  cases node with
  | leaf kind size => cases h
  | directory size entries =>
    obtain ⟨name, -, rest, hpath⟩ := path_of_mem_reachable h
    exact ⟨name, rest, hpath⟩

def paths (candidates : Candidates) : List RelativePath := candidates.map Prod.fst

theorem nodup_append_reachable {start : RelativePath} {name : Bytes} {first : Candidates}
    {rest : List (Bytes × Node)} (hname : name ∉ rest.map Prod.fst)
    (hfirst : ∀ found ∈ first, ∃ more, found.1 = start ++ name :: more)
    (hnodup : (paths first).Nodup) (hrest : (paths (reachable scope start rest)).Nodup) :
    (paths (first ++ reachable scope start rest)).Nodup := by
  rw [paths, List.map_append]
  refine List.Nodup.append hnodup hrest ?_
  intro path hleft hright
  obtain ⟨found, hfound, rfl⟩ := List.mem_map.mp hleft
  obtain ⟨other, hother, heq⟩ := List.mem_map.mp hright
  obtain ⟨more, hmore⟩ := hfirst found hfound
  obtain ⟨later, hlater, tail, htail⟩ := path_of_mem_reachable hother
  rw [hmore, htail] at heq
  have hsame := List.append_cancel_left heq
  rw [List.cons.injEq] at hsame
  exact hname (hsame.1 ▸ hlater)

theorem nodup_reachable {entries : List (Bytes × Node)} (h : DistinctNames entries) :
    ∀ start, (paths (reachable scope start entries)).Nodup := by
  induction h with
  | nil =>
    intro start
    rw [reachable]
    exact List.nodup_nil
  | leaf name kind size rest hname hrest ih =>
    intro start
    rw [reachable]
    refine nodup_append_reachable hname ?_ ?_ (ih start)
    · intro found hfound
      split at hfound
      · rw [List.mem_singleton.mp hfound]
        exact ⟨[], rfl⟩
      · cases hfound
    · split
      · exact List.nodup_singleton _
      · exact List.nodup_nil
  | directory name size entries rest hname hentries hrest ihbelow ih =>
    intro start
    rw [reachable]
    refine nodup_append_reachable hname ?_ ?_ (ih start)
    · intro found hfound
      split at hfound
      · rcases List.mem_cons.mp hfound with rfl | hlower
        · exact ⟨[], rfl⟩
        · obtain ⟨other, -, more, hpath⟩ := path_of_mem_reachable hlower
          exact ⟨other :: more, by rw [hpath, List.append_assoc]; rfl⟩
      · cases hfound
    · split
      · refine List.nodup_cons.mpr ⟨?_, ihbelow (start ++ [name])⟩
        intro hmem
        obtain ⟨found, hfound, heq⟩ := List.mem_map.mp hmem
        obtain ⟨other, -, more, hpath⟩ := path_of_mem_reachable hfound
        rw [hpath] at heq
        simpa using congrArg List.length heq
      · exact List.nodup_nil

def Before (first second : RelativePath × Node) : Prop := first.1 < second.1

def queued (candidates pending : Candidates) : Candidates :=
  candidates.foldl (fun pending candidate => insertCandidate candidate.1 candidate.2 pending) pending

theorem mem_insertCandidate {path : RelativePath} {node : Node} {pending : Candidates}
    {found : RelativePath × Node} (h : found ∈ insertCandidate path node pending) :
    found = (path, node) ∨ found ∈ pending := by
  induction pending with
  | nil => exact .inl (List.mem_singleton.mp h)
  | cons first rest ih =>
    obtain ⟨other, otherNode⟩ := first
    rw [insertCandidate] at h
    split at h
    · exact List.mem_cons.mp h
    · split at h
      · rcases List.mem_cons.mp h with rfl | hrest
        · exact .inl rfl
        · exact .inr (List.mem_cons_of_mem _ hrest)
      · rcases List.mem_cons.mp h with rfl | hrest
        · exact .inr List.mem_cons_self
        · exact (ih hrest).imp id (List.mem_cons_of_mem _)

theorem pairwise_insertCandidate {path : RelativePath} {node : Node} {pending : Candidates}
    (h : pending.Pairwise Before) : (insertCandidate path node pending).Pairwise Before := by
  induction pending with
  | nil => exact List.pairwise_singleton _ _
  | cons first rest ih =>
    obtain ⟨other, otherNode⟩ := first
    obtain ⟨hfirst, hrest⟩ := List.pairwise_cons.mp h
    rw [insertCandidate]
    split
    · rename_i hlt
      refine List.pairwise_cons.mpr ⟨?_, h⟩
      intro found hfound
      rcases List.mem_cons.mp hfound with rfl | hlater
      · exact hlt
      · exact List.lt_trans hlt (hfirst found hlater)
    · split
      · rename_i heq
        subst heq
        exact List.pairwise_cons.mpr ⟨hfirst, hrest⟩
      · rename_i hnot hne
        refine List.pairwise_cons.mpr ⟨?_, ih hrest⟩
        intro found hfound
        rcases mem_insertCandidate hfound with rfl | hlater
        · exact Std.lt_of_le_of_ne (List.not_lt.mp hnot) (Ne.symm hne)
        · exact hfirst found hlater

theorem perm_insertCandidate {path : RelativePath} {node : Node} {pending : Candidates}
    (h : path ∉ paths pending) :
    (insertCandidate path node pending).Perm ((path, node) :: pending) := by
  induction pending with
  | nil => exact .refl _
  | cons first rest ih =>
    obtain ⟨other, otherNode⟩ := first
    obtain ⟨hne, hrest⟩ := not_or.mp (mt List.mem_cons.mpr h)
    rw [insertCandidate]
    split
    · exact .refl _
    · exact ((ih hrest).cons _).trans (.swap _ _ _)

theorem pairwise_queued {candidates pending : Candidates} (h : pending.Pairwise Before) :
    (queued candidates pending).Pairwise Before := by
  induction candidates generalizing pending with
  | nil => exact h
  | cons first rest ih => exact ih (pairwise_insertCandidate h)

theorem perm_queued {candidates pending : Candidates}
    (h : (paths (candidates ++ pending)).Nodup) :
    (queued candidates pending).Perm (candidates ++ pending) := by
  induction candidates generalizing pending with
  | nil => exact .refl _
  | cons first rest ih =>
    obtain ⟨hfirst, hrest⟩ := List.nodup_cons.mp h
    have hpending : first.1 ∉ paths pending := by
      intro hmem
      apply hfirst
      change first.1 ∈ (rest ++ pending).map Prod.fst
      rw [List.map_append]
      exact List.mem_append_right _ hmem
    have hperm : (rest ++ insertCandidate first.1 first.2 pending).Perm
        (first :: (rest ++ pending)) :=
      ((perm_insertCandidate hpending).append_left rest).trans List.perm_middle
    have hnodup : (paths (rest ++ insertCandidate first.1 first.2 pending)).Nodup :=
      (hperm.map Prod.fst).nodup_iff.mpr h
    exact (ih hnodup).trans hperm

def advance (scope : TraversalScope) (candidate : RelativePath × Node) (rest : Candidates) :
    Candidates :=
  match candidate.2 with
  | .directory _ entries => queued (children scope candidate.1 entries) rest
  | .leaf _ _ => rest

/-- The candidates are in path order, and the list has what can be reached from them, in path
order. -/
structure Lists (scope : TraversalScope) (candidates found : Candidates) : Prop where
  sorted : candidates.Pairwise Before
  perm : found.Perm (unfolded scope candidates)
  ordered : found.Pairwise Before

theorem nodup_of_ordered {found : Candidates} (h : found.Pairwise Before) : (paths found).Nodup := by
  refine List.pairwise_map.mpr (h.imp ?_)
  rintro first second hlt heq
  rw [Before, heq] at hlt
  exact List.lt_irrefl _ hlt

theorem sublist_unfolded (candidates : Candidates) : candidates.Sublist (unfolded scope candidates) := by
  induction candidates with
  | nil => exact .slnil
  | cons first rest ih => exact (ih.trans (List.sublist_append_right _ _)).cons_cons first

theorem perm_advance {candidate : RelativePath × Node} {rest : Candidates}
    (h : (paths (below scope candidate ++ unfolded scope rest)).Nodup) :
    (unfolded scope (advance scope candidate rest)).Perm
      (below scope candidate ++ unfolded scope rest) := by
  obtain ⟨path, node⟩ := candidate
  cases node with
  | leaf kind size => exact .refl _
  | directory size entries =>
    have hbelow : below scope (path, .directory size entries) =
        unfolded scope (children scope path entries) := reachable_eq path entries
    have happend : unfolded scope (children scope path entries) ++ unfolded scope rest =
        unfolded scope (children scope path entries ++ rest) := List.flatMap_append.symm
    rw [hbelow, happend] at h ⊢
    have hnodup : (paths (children scope path entries ++ rest)).Nodup :=
      h.sublist ((sublist_unfolded _).map Prod.fst)
    exact (perm_queued hnodup).flatMap_right _

theorem Lists.cons {candidate : RelativePath × Node} {rest found : Candidates}
    (h : Lists scope (candidate :: rest) found) :
    ∃ later, found = candidate :: later ∧ Lists scope (advance scope candidate rest) later := by
  obtain ⟨hfirst, hrest⟩ := List.pairwise_cons.mp h.sorted
  have hperm : found.Perm (candidate :: (below scope candidate ++ unfolded scope rest)) := h.perm
  have hlower : ∀ other ∈ below scope candidate ++ unfolded scope rest,
      candidate.1 ≤ other.1 := by
    intro other hother
    rcases List.mem_append.mp hother with hbelow | hlater
    · obtain ⟨name, more, hpath⟩ := path_of_mem_below hbelow
      rw [hpath]
      exact List.le_append_left
    · obtain ⟨next, hnext, hunder⟩ := mem_unfolded.mp hlater
      have hbefore : candidate.1 ≤ next.1 := List.le_of_lt (hfirst next hnext)
      rcases hunder with rfl | hunder
      · exact hbefore
      · obtain ⟨name, more, hpath⟩ := path_of_mem_below hunder
        rw [hpath]
        exact List.le_trans hbefore List.le_append_left
  cases found with
  | nil => exact absurd hperm.length_eq (by simp)
  | cons head later =>
    obtain ⟨hhead, hlater⟩ := List.pairwise_cons.mp h.ordered
    have heq : head = candidate := by
      have hmem : candidate ∈ head :: later := hperm.mem_iff.mpr List.mem_cons_self
      rcases List.mem_cons.mp hmem with heq | hafter
      · exact heq.symm
      · have hlt : head.1 < candidate.1 := hhead candidate hafter
        rcases List.mem_cons.mp (hperm.mem_iff.mp List.mem_cons_self) with heq | hother
        · exact heq
        · exact absurd (hlower head hother) (List.not_le.mpr hlt)
    subst heq
    have htail : later.Perm (below scope head ++ unfolded scope rest) := hperm.cons_inv
    have hnodup : (paths (below scope head ++ unfolded scope rest)).Nodup :=
      (htail.map Prod.fst).nodup_iff.mp (nodup_of_ordered hlater)
    refine ⟨later, rfl, ?_, htail.trans (perm_advance hnodup).symm, hlater⟩
    obtain ⟨path, node⟩ := head
    cases node with
    | leaf kind size => exact hrest
    | directory size entries => exact pairwise_queued hrest

theorem length_insertCandidate (path : RelativePath) (node : Node) (pending : Candidates) :
    (insertCandidate path node pending).length ≤ pending.length + 1 := by
  induction pending with
  | nil => exact Nat.le_refl _
  | cons first rest ih =>
    obtain ⟨other, otherNode⟩ := first
    rw [insertCandidate]
    split
    · exact Nat.le_refl _
    · split
      · exact Nat.le_succ _
      · exact Nat.succ_le_succ ih

theorem take_insertCandidate (path : RelativePath) (node : Node) (limit : Nat)
    (pending : Candidates) :
    (insertCandidate path node (pending.take limit)).take limit =
      (insertCandidate path node pending).take limit := by
  induction pending generalizing limit with
  | nil => rw [List.take_nil]
  | cons first rest ih =>
    cases limit with
    | zero => rfl
    | succ limit =>
      obtain ⟨other, otherNode⟩ := first
      rw [List.take_succ_cons, insertCandidate, insertCandidate]
      split
      · cases limit with
        | zero => rfl
        | succ limit => simp [List.take_take]
      · split
        · simp [List.take_take]
        · rw [List.take_succ_cons, List.take_succ_cons, ih]

theorem enqueueEntry_take (start : RelativePath) (limit : Nat) (pending : Candidates)
    (entry : Bytes × Node) :
    enqueueEntry scope start limit (pending.take limit) entry =
      (if includes scope entry then insertCandidate (start ++ [entry.1]) entry.2 pending
        else pending).take limit := by
  have hincludes : includes scope entry = false ↔
      entry.2.kind = .directory ∧ includeDirectory scope entry.1 = false := by
    simp [includes]
  unfold enqueueEntry
  cases hincluded : includes scope entry with
  | false =>
    rw [if_pos (hincludes.mp hincluded), if_neg Bool.false_ne_true]
  | true =>
    have hexcluded : ¬(entry.2.kind = .directory ∧ includeDirectory scope entry.1 = false) := by
      rw [← hincludes, hincluded]
      exact nofun
    rw [if_neg hexcluded, if_pos rfl, ← take_insertCandidate]
    have hlength := length_insertCandidate (start ++ [entry.1]) entry.2 (pending.take limit)
    have htaken : (pending.take limit).length ≤ limit := by simp
    dsimp only
    split
    · rw [List.dropLast_eq_take]
      congr 1
      omega
    · rename_i hshort
      rw [List.take_of_length_le (Nat.not_lt.mp hshort)]

theorem enqueueDirectoryEntries_take (start : RelativePath) (limit : Nat)
    (entries : List (Bytes × Node)) (pending : Candidates) :
    enqueueDirectoryEntries scope start limit entries (pending.take limit) =
      (queued (children scope start entries) pending).take limit := by
  induction entries generalizing pending with
  | nil => rfl
  | cons entry rest ih =>
    rw [enqueueDirectoryEntries, List.foldl_cons, enqueueEntry_take, children_cons]
    split
    · exact ih _
    · exact ih _

theorem treeLoop_cons (options : TreeOptions) (remaining : Nat) (first : RelativePath × Node)
    (rest : Candidates) :
    treeLoop options (remaining + 1) (first :: rest.take (remaining + 1)) =
      (treeEntry options first.1 first.2 :: (treeLoop options remaining
        ((advance options.scope first rest).take (remaining + 1))).1,
        (treeLoop options remaining
          ((advance options.scope first rest).take (remaining + 1))).2) := by
  obtain ⟨path, node⟩ := first
  cases node with
  | leaf kind size => rfl
  | directory size entries =>
    simp only [treeLoop, enqueueDirectoryEntries_take]
    rfl

theorem treeLoop_take (options : TreeOptions) (remaining : Nat) {candidates found : Candidates}
    (h : Lists options.scope candidates found) :
    (treeLoop options remaining (candidates.take (remaining + 1))).1 =
        (found.take remaining).map (fun entry => treeEntry options entry.1 entry.2) ∧
      ((treeLoop options remaining (candidates.take (remaining + 1))).2 = [] ↔
        found.length ≤ remaining) := by
  induction remaining generalizing candidates found with
  | zero =>
    refine ⟨rfl, ?_⟩
    cases candidates with
    | nil => simp [treeLoop, h.perm.eq_nil]
    | cons first rest =>
      obtain ⟨later, rfl, -⟩ := h.cons
      simp [treeLoop]
  | succ remaining ih =>
    cases candidates with
    | nil =>
      obtain rfl : found = [] := h.perm.eq_nil
      simp [treeLoop]
    | cons first rest =>
      obtain ⟨later, rfl, hlater⟩ := h.cons
      obtain ⟨hentries, hleft⟩ := ih hlater
      rw [List.take_succ_cons, treeLoop_cons]
      refine ⟨?_, ?_⟩
      · dsimp only
        rw [hentries, List.take_succ_cons, List.map_cons]
      · dsimp only
        rw [hleft, List.length_cons]
        omega

theorem lists_completeList {start : RelativePath} {entries : List (Bytes × Node)}
    (h : DistinctNames entries) :
    Lists scope (queued (children scope start entries) []) (completeList scope start entries) := by
  have hperm : (completeList scope start entries).Perm (reachable scope start entries) :=
    List.perm_insertionSort _ _
  have hnodup := @nodup_reachable scope _ h start
  have hcomplete : (paths (completeList scope start entries)).Nodup :=
    (hperm.map Prod.fst).nodup_iff.mpr hnodup
  have hchildren : (paths (children scope start entries ++ [])).Nodup := by
    rw [List.append_nil]
    rw [reachable_eq] at hnodup
    exact hnodup.sublist ((sublist_unfolded _).map Prod.fst)
  refine ⟨pairwise_queued .nil, ?_, ?_⟩
  · refine hperm.trans ?_
    rw [reachable_eq]
    refine List.Perm.flatMap_right _ ?_
    simpa using (perm_queued hchildren).symm
  · have hsorted : (completeList scope start entries).Pairwise pathOrder :=
      List.pairwise_insertionSort _ _
    have hdistinct := List.pairwise_map.mp hcomplete
    refine (hsorted.and hdistinct).imp ?_
    rintro first second ⟨hle, hne⟩
    exact Std.lt_of_le_of_ne hle hne

/-- The listing is the front of the complete list, and tells whether there is more. -/
theorem treeBeneathWithOptions_complete (options : TreeOptions) (start : RelativePath)
    (entries : List (Bytes × Node)) (hpos : 1 ≤ options.maxEntries)
    (hcap : options.maxEntries ≤ options.hardCap) (hdistinct : DistinctNames entries) :
    treeBeneathWithOptions options start entries = some
      { entries := ((completeList options.scope start entries).take options.maxEntries).map
          fun entry => treeEntry options entry.1 entry.2
        truncated := decide
          (options.maxEntries < (completeList options.scope start entries).length) } := by
  have hlimits : ¬(options.maxEntries = 0 ∨ options.hardCap < options.maxEntries) := by omega
  obtain ⟨hentries, hleft⟩ :=
    treeLoop_take options options.maxEntries (@lists_completeList options.scope start _ hdistinct)
  have hpending := @enqueueDirectoryEntries_take options.scope start
    (options.maxEntries + 1) entries []
  rw [List.take_nil] at hpending
  unfold treeBeneathWithOptions
  rw [if_neg hlimits, hpending]
  dsimp only
  rw [hentries]
  congr 2
  rw [Bool.eq_iff_iff, Bool.not_eq_true', decide_eq_true_iff, ← Nat.not_le, ← hleft,
    ← Bool.not_eq_true, List.isEmpty_iff]

/-- `Path::join`, by a name of a directory. -/
def join (path name : Bytes) : Bytes :=
  if path = [] then name else if path.getLast? = some 47 then path ++ name else path ++ 47 :: name

structure ReportedEntry where
  path : List Char
  kind : TreeEntryKind
  sizeBytes : Option Nat

structure ReportedTree where
  entries : List ReportedEntry
  truncated : Bool

/-- The path of the start directory stands as it was given, and bytes that are no UTF-8 are
replaced. -/
def reportEntry (startText : Bytes) (start : RelativePath) (entry : TreeEntry) : ReportedEntry where
  path := fromUtf8Lossy ((entry.path.drop start.length).foldl join startText)
  kind := entry.kind
  sizeBytes := entry.sizeBytes

def reportTree (startText : Bytes) (start : RelativePath) (tree : TreeResult) : ReportedTree where
  entries := tree.entries.map (reportEntry startText start)
  truncated := tree.truncated

/-- `tree_beneath_with_options` from a directory that has been opened. -/
def treeBeneath (options : TreeOptions) (startText : Bytes) (start : RelativePath)
    (entries : List (Bytes × Node)) : Option ReportedTree :=
  (treeBeneathWithOptions options start entries).map (reportTree startText start)

theorem treeBeneath_complete (options : TreeOptions) (startText : Bytes) (start : RelativePath)
    (entries : List (Bytes × Node)) (hpos : 1 ≤ options.maxEntries)
    (hcap : options.maxEntries ≤ options.hardCap) (hdistinct : DistinctNames entries) :
    treeBeneath options startText start entries = some
      { entries := ((completeList options.scope start entries).take options.maxEntries).map
          fun entry => reportEntry startText start (treeEntry options entry.1 entry.2)
        truncated := decide
          (options.maxEntries < (completeList options.scope start entries).length) } := by
  rw [treeBeneath, treeBeneathWithOptions_complete options start entries hpos hcap hdistinct,
    Option.map_some, reportTree, List.map_map]
  rfl

def sampleEntries : List (Bytes × Node) :=
  [([122], .directory 0 [([97], .leaf .file 1)]), ([97], .leaf .symlink 2),
    ([98], .directory 0 [([255], .leaf .file 3)])]

theorem sampleEntries_distinct : DistinctNames sampleEntries := by
  refine .directory _ _ _ _ (by decide) (.leaf _ _ _ _ (by decide) .nil) ?_
  refine .leaf _ _ _ _ (by decide) ?_
  exact .directory _ _ _ _ (by decide) (.leaf _ _ _ _ (by decide) .nil) .nil

theorem sampleEntries_complete :
    treeBeneath ⟨2, 10, false, .semantic⟩ [] [] sampleEntries = some
      { entries := ((completeList .semantic [] sampleEntries).take 2).map
          fun entry => reportEntry [] [] (treeEntry ⟨2, 10, false, .semantic⟩ entry.1 entry.2)
        truncated := decide (2 < (completeList .semantic [] sampleEntries).length) } :=
  treeBeneath_complete ⟨2, 10, false, .semantic⟩ [] [] sampleEntries (by decide) (by decide)
    sampleEntries_distinct

end KodeGpt.TreeCompleteness
