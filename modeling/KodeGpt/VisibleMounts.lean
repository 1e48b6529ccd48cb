import Mathlib.Data.List.Induction
import KodeGpt.HostRoots

/-!
Which mount of a table shows at a path. The table is in mount order, and a mount
hides every earlier one whose mount point is at or below its own.
-/

namespace KodeGpt.VisibleMounts

open HostRoots

/-- The root directory, followed by names. -/
def Normal (path : HostPath) : Prop :=
  ∃ names : List String, path = .rootDir :: names.map .normal

theorem Normal.ne_nil {path : HostPath} (h : Normal path) : path ≠ [] := by
  obtain ⟨names, rfl⟩ := h
  simp

theorem foldlM_names (names : List String) (normalized : HostPath) :
    (names.map Component.normal).foldlM normalizeComponent normalized =
      .ok (normalized ++ names.map .normal) := by
  induction names generalizing normalized with
  | nil => simp [pure, Except.pure]
  | cons name rest ih =>
    rw [List.map_cons, List.foldlM_cons]
    show (rest.map Component.normal).foldlM normalizeComponent (normalized ++ [.normal name]) = _
    rw [ih, List.append_assoc, List.singleton_append]

theorem normalizeAbsolute_of_normal {path : HostPath} (h : Normal path) :
    normalizeAbsolute path = .ok path := by
  obtain ⟨names, rfl⟩ := h
  show (names.map Component.normal).foldlM normalizeComponent [.rootDir] = _
  rw [foldlM_names, List.singleton_append]

theorem Normal.concat {path : HostPath} (h : Normal path) (name : String) :
    Normal (path ++ [.normal name]) := by
  obtain ⟨names, rfl⟩ := h
  exact ⟨names ++ [name], by simp⟩

theorem Normal.dropLast {path : HostPath} (h : Normal path) (hroot : path ≠ [.rootDir]) :
    Normal path.dropLast := by
  obtain ⟨names, rfl⟩ := h
  cases names with
  | nil => exact absurd rfl hroot
  | cons name rest =>
    refine ⟨(name :: rest).dropLast, ?_⟩
    rw [List.map_dropLast, List.map_cons, List.dropLast_cons_cons]

/-- Whatever normalization accepts it makes normal. -/
theorem normal_of_normalizeAbsolute {path normalized : HostPath}
    (h : normalizeAbsolute path = .ok normalized) : Normal normalized := by
  have hfold : ∀ (rest start : HostPath), Normal start →
      rest.foldlM normalizeComponent start = .ok normalized → Normal normalized := by
    intro rest
    induction rest with
    | nil =>
      intro start hstart hend
      cases hend
      exact hstart
    | cons component rest ih =>
      intro start hstart hend
      rw [List.foldlM_cons] at hend
      cases component with
      | rootDir => exact ih start hstart hend
      | curDir => exact ih start hstart hend
      | normal part => exact ih _ (hstart.concat part) hend
      | parentDir =>
        by_cases hroot : start = [.rootDir]
        · rw [normalizeComponent, if_pos hroot] at hend
          cases hend
        · rw [normalizeComponent, if_neg hroot] at hend
          exact ih _ (hstart.dropLast hroot) hend
  unfold normalizeAbsolute at h
  split at h
  · exact hfold path [.rootDir] ⟨[], rfl⟩ h
  · cases h

theorem Normal.drop {path front : HostPath} (h : Normal path) (hfront : front <+: path)
    (hne : front ≠ []) :
    ∃ names : List String, path.drop front.length = names.map .normal := by
  obtain ⟨names, rfl⟩ := h
  cases front with
  | nil => exact absurd rfl hne
  | cons first rest => exact ⟨names.drop rest.length, by simp⟩

theorem join_names {root : HostPath} (names : List String) (hroot : root ≠ []) :
    join root (names.map .normal) = root ++ names.map .normal := by
  have habsolute : isAbsolute (names.map Component.normal) = false := by
    cases names <;> rfl
  have hempty : root.isEmpty = false := by simpa using hroot
  have hkept : (names.map Component.normal).filter (· ≠ .curDir) = names.map .normal := by
    rw [List.filter_eq_self]
    simp
  rw [join, habsolute, hempty, hkept]
  rfl

section MaxByKey

variable {α : Type*} (key : α → Nat)

theorem maxByKey_concat (items : List α) (item : α) :
    maxByKey key (items ++ [item]) =
      match maxByKey key items with
      | none => some item
      | some current => if key current ≤ key item then some item else some current := by
  rw [maxByKey, List.foldl_append]
  rfl

theorem maxByKey_cons (item : α) (items : List α) :
    maxByKey key (item :: items) =
      match maxByKey key items with
      | none => some item
      | some best => if key item ≤ key best then some best else some item := by
  induction items using List.reverseRecOn with
  | nil => rfl
  | append_singleton items last ih =>
    rw [← List.cons_append, maxByKey_concat, maxByKey_concat, ih]
    cases maxByKey key items with
    | none => rfl
    | some best => grind

/-- The last of the elements with the largest key. -/
def IsLastMax (items : List α) (best : α) : Prop :=
  ∃ front back, items = front ++ best :: back ∧ (∀ item ∈ front, key item ≤ key best) ∧
    ∀ item ∈ back, key item < key best

theorem isLastMax_cons_iff {item best : α} {items : List α} :
    IsLastMax key (item :: items) best ↔
      (best = item ∧ ∀ other ∈ items, key other < key item) ∨
      (IsLastMax key items best ∧ key item ≤ key best) := by
  constructor
  · rintro ⟨front, back, hsplit, hfront, hback⟩
    rcases front with _ | ⟨first, front⟩
    · obtain ⟨rfl, rfl⟩ := List.cons.inj hsplit
      exact .inl ⟨rfl, hback⟩
    · obtain ⟨rfl, rfl⟩ := List.cons.inj hsplit
      refine .inr ⟨⟨front, back, rfl, ?_, hback⟩, hfront item List.mem_cons_self⟩
      exact fun other hother => hfront other (List.mem_cons_of_mem _ hother)
  · rintro (⟨rfl, hless⟩ | ⟨⟨front, back, rfl, hfront, hback⟩, hle⟩)
    · exact ⟨[], items, rfl, nofun, hless⟩
    · refine ⟨item :: front, back, rfl, ?_, hback⟩
      intro other hother
      rcases List.mem_cons.mp hother with rfl | hrest
      · exact hle
      · exact hfront other hrest

theorem IsLastMax.le {items : List α} {best : α} (h : IsLastMax key items best) :
    best ∈ items ∧ ∀ item ∈ items, key item ≤ key best := by
  obtain ⟨front, back, rfl, hfront, hback⟩ := h
  refine ⟨by simp, fun item hitem => ?_⟩
  rcases List.mem_append.mp hitem with hleft | hright
  · exact hfront item hleft
  · rcases List.mem_cons.mp hright with rfl | hlast
    · exact Nat.le_refl _
    · exact Nat.le_of_lt (hback item hlast)

theorem maxByKey_eq_none_iff {items : List α} : maxByKey key items = none ↔ items = [] := by
  cases items with
  | nil => simp [maxByKey]
  | cons item items =>
    rw [maxByKey_cons]
    cases maxByKey key items with
    | none => simp
    | some best =>
      dsimp only
      split <;> simp

theorem maxByKey_eq_some_iff {items : List α} {best : α} :
    maxByKey key items = some best ↔ IsLastMax key items best := by
  induction items generalizing best with
  | nil => simp [maxByKey, IsLastMax]
  | cons item items ih =>
    rw [maxByKey_cons, isLastMax_cons_iff]
    cases hrest : maxByKey key items with
    | none =>
      obtain rfl := (maxByKey_eq_none_iff key).mp hrest
      simp [IsLastMax, eq_comm]
    | some last =>
      have hlast := ih.mp hrest
      rw [← ih, hrest]
      dsimp only
      split
      · rename_i hle
        constructor
        · rintro hbest
          obtain rfl := Option.some.inj hbest
          exact .inr ⟨rfl, hle⟩
        · rintro (⟨rfl, hless⟩ | ⟨hbest, -⟩)
          · exact absurd hle (Nat.not_le.mpr (hless last hlast.le.1))
          · exact hbest
      · rename_i hless
        constructor
        · rintro hbest
          obtain rfl := Option.some.inj hbest
          refine .inl ⟨rfl, fun other hother => ?_⟩
          exact Nat.lt_of_le_of_lt (hlast.le.2 other hother) (Nat.not_le.mp hless)
        · rintro (⟨rfl, -⟩ | ⟨hbest, hle⟩)
          · rfl
          · exact absurd (Option.some.inj hbest ▸ hle) hless

end MaxByKey

def covering (entries : List MountInfoEntry) (path : HostPath) : List MountInfoEntry :=
  entries.filter fun entry => startsWith path entry.mountPoint

def unhidden : List MountInfoEntry → List MountInfoEntry
  | [] => []
  | entry :: later =>
    if later.any fun other => startsWith entry.mountPoint other.mountPoint then unhidden later
    else entry :: unhidden later

def depth (entry : MountInfoEntry) : Nat := entry.mountPoint.length

/-- The mount that shows at the path: of those that nothing hides, the deepest
that covers it. -/
def visibleMount (entries : List MountInfoEntry) (path : HostPath) : Option MountInfoEntry :=
  maxByKey depth (covering (unhidden entries) path)

theorem mem_covering {entries : List MountInfoEntry} {path : HostPath} {entry : MountInfoEntry} :
    entry ∈ covering entries path ↔ entry ∈ entries ∧ entry.mountPoint <+: path := by
  rw [covering, List.mem_filter, startsWith_iff]

theorem covering_cons {entries : List MountInfoEntry} {path : HostPath} {entry : MountInfoEntry} :
    covering (entry :: entries) path =
      if entry.mountPoint <+: path then entry :: covering entries path
      else covering entries path := by
  rw [covering, List.filter_cons, ← covering]
  simp

theorem visibleMount_eq_getLast? (entries : List MountInfoEntry) (path : HostPath) :
    visibleMount entries path = (covering entries path).getLast? := by
  induction entries with
  | nil => rfl
  | cons entry later ih =>
    rw [visibleMount] at ih ⊢
    rw [unhidden, covering_cons]
    split
    · -- What hides the entry covers the path whenever the entry does.
      rename_i hhidden
      rw [ih]
      split
      · rename_i hcovers
        obtain ⟨other, hother, hprefix⟩ := List.any_eq_true.mp hhidden
        have hmem : other ∈ covering later path :=
          mem_covering.mpr ⟨hother, (startsWith_iff.mp hprefix).trans hcovers⟩
        rw [List.getLast?_cons, List.getLast?_eq_some_getLast (List.ne_nil_of_mem hmem)]
        rfl
      · rfl
    · rename_i hshown
      rw [covering_cons]
      split
      · rename_i hcovers
        rw [maxByKey_cons, ih, List.getLast?_cons]
        cases hlast : (covering later path).getLast? with
        | none => rfl
        | some last =>
          -- Both cover the path, and the later one is not above the entry.
          obtain ⟨hlater, hlastCovers⟩ := mem_covering.mp (List.mem_of_getLast? hlast)
          have hnot : ¬last.mountPoint <+: entry.mountPoint := by
            intro hprefix
            exact hshown (List.any_eq_true.mpr ⟨last, hlater, startsWith_iff.mpr hprefix⟩)
          have hbelow : entry.mountPoint <+: last.mountPoint :=
            (List.prefix_or_prefix_of_prefix hcovers hlastCovers).resolve_right hnot
          dsimp only
          rw [if_pos (show depth entry ≤ depth last from hbelow.length_le)]
          rfl
      · exact ih

/-- A table as it is read: mount points are normal, and so are roots, unless the
file system has none that is a path. -/
structure MountTable where
  entries : List MountInfoEntry
  mountPoints : ∀ entry ∈ entries, Normal entry.mountPoint
  roots : ∀ entry ∈ entries, Normal entry.root ∨ isAbsolute entry.root = false

def treeBelow (entry : MountInfoEntry) (path : HostPath) : BackingTreeIdentity :=
  { deviceMajor := entry.deviceMajor, deviceMinor := entry.deviceMinor,
    path := entry.root ++ path.drop entry.mountPoint.length }

/-- The tree shown at the path: that of the visible mount, whose root is a path. -/
def Shows (table : MountTable) (path : HostPath) (tree : BackingTreeIdentity) : Prop :=
  ∃ normalized entry, normalizeAbsolute path = .ok normalized ∧
    visibleMount table.entries normalized = some entry ∧ isAbsolute entry.root = true ∧
    tree = treeBelow entry normalized

/-- Below the mount point of the deeper one, both mounts show the same. -/
def SameTree (visible deepest : MountInfoEntry) : Prop :=
  isAbsolute deepest.root = isAbsolute visible.root ∧
    (isAbsolute visible.root = true →
      deepest.deviceMajor = visible.deviceMajor ∧ deepest.deviceMinor = visible.deviceMinor ∧
        deepest.root = visible.root ++ deepest.mountPoint.drop visible.mountPoint.length)

/-- The deepest of the mounts that cover the path shows there, or what hides it
shows the same. -/
def Unobstructed (table : MountTable) (path : HostPath) : Prop :=
  ∀ normalized visible deepest, normalizeAbsolute path = .ok normalized →
    visibleMount table.entries normalized = some visible →
    IsLastMax depth (covering table.entries normalized) deepest → SameTree visible deepest

theorem normalizeAbsolute_join {entry : MountInfoEntry} {path : HostPath}
    (hroot : Normal entry.root ∨ isAbsolute entry.root = false) (hpath : Normal path)
    (hpoint : Normal entry.mountPoint) (hcovers : entry.mountPoint <+: path) :
    normalizeAbsolute (join entry.root (path.drop entry.mountPoint.length)) =
      if isAbsolute entry.root then .ok (entry.root ++ path.drop entry.mountPoint.length)
      else .error .malformed := by
  obtain ⟨names, hnames⟩ := hpath.drop hcovers hpoint.ne_nil
  rw [hnames]
  have hrelative : isAbsolute (names.map Component.normal) = false := by cases names <;> rfl
  rcases hroot with hroot | hrootless
  · obtain ⟨rootNames, hrootNames⟩ := hroot
    have hwhole : Normal (entry.root ++ names.map .normal) :=
      ⟨rootNames ++ names, by rw [hrootNames]; simp⟩
    have hjoin : join entry.root (names.map .normal) = entry.root ++ names.map .normal :=
      join_names names (by simp [hrootNames])
    rw [hjoin, normalizeAbsolute_of_normal hwhole, if_pos (by rw [hrootNames]; rfl)]
  · rw [if_neg (by simp [hrootless]), normalizeAbsolute, if_neg]
    by_cases hempty : entry.root = []
    · simp [join, hempty, hrelative]
    · rw [join_names names hempty]
      cases hentry : entry.root with
      | nil => exact absurd hentry hempty
      | cons first rest =>
        rw [hentry] at hrootless
        simpa [isAbsolute] using hrootless

theorem backingTreeForPath_eq (table : MountTable) {path normalized : HostPath}
    (hnormal : normalizeAbsolute path = .ok normalized) :
    backingTreeForPath table.entries path =
      match maxByKey depth (covering table.entries normalized) with
      | none => .error .noCoveringMount
      | some entry =>
        if isAbsolute entry.root then .ok (treeBelow entry normalized)
        else .error .malformed := by
  have habsolute : isAbsolute path = true := by
    unfold normalizeAbsolute at hnormal
    split at hnormal
    · assumption
    · cases hnormal
  unfold backingTreeForPath
  rw [habsolute, hnormal]
  show (match maxByKey depth (covering table.entries normalized) with
    | none => _
    | some entry => _) = _
  cases hdeepest : maxByKey depth (covering table.entries normalized) with
  | none => rfl
  | some entry =>
    obtain ⟨hentry, hcovers⟩ :=
      mem_covering.mp ((maxByKey_eq_some_iff depth).mp hdeepest).le.1
    dsimp only
    rw [normalizeAbsolute_join (table.roots entry hentry)
      (normal_of_normalizeAbsolute hnormal) (table.mountPoints entry hentry) hcovers]
    split <;> rfl

theorem backingTreeForPath_of_not_normal {entries : List MountInfoEntry} {path : HostPath}
    {tree : BackingTreeIdentity} (hfound : backingTreeForPath entries path = .ok tree) :
    ∃ normalized, normalizeAbsolute path = .ok normalized := by
  unfold backingTreeForPath at hfound
  cases hnormal : normalizeAbsolute path with
  | ok normalized => exact ⟨normalized, rfl⟩
  | error error =>
    rw [hnormal] at hfound
    cases habsolute : isAbsolute path <;> rw [habsolute] at hfound <;> cases hfound

theorem treeBelow_eq_iff {visible deepest : MountInfoEntry} {path : HostPath}
    (hbelow : visible.mountPoint <+: deepest.mountPoint) (hcovers : deepest.mountPoint <+: path) :
    treeBelow deepest path = treeBelow visible path ↔
      deepest.deviceMajor = visible.deviceMajor ∧ deepest.deviceMinor = visible.deviceMinor ∧
        deepest.root = visible.root ++ deepest.mountPoint.drop visible.mountPoint.length := by
  obtain ⟨middle, hmiddle⟩ := hbelow
  obtain ⟨rest, rfl⟩ := hcovers
  have hdeepest : (deepest.mountPoint ++ rest).drop deepest.mountPoint.length = rest := by simp
  have hvisible : (deepest.mountPoint ++ rest).drop visible.mountPoint.length = middle ++ rest := by
    rw [← hmiddle, List.append_assoc]
    simp
  have hdrop : deepest.mountPoint.drop visible.mountPoint.length = middle := by
    rw [← hmiddle]
    simp
  rw [treeBelow, treeBelow, BackingTreeIdentity.mk.injEq, hdeepest, hvisible, hdrop,
    ← List.append_assoc, List.append_left_inj]

theorem visible_above_deepest {entries : List MountInfoEntry} {path : HostPath}
    {visible deepest : MountInfoEntry} (hvisible : visibleMount entries path = some visible)
    (hdeepest : IsLastMax depth (covering entries path) deepest) :
    visible.mountPoint <+: deepest.mountPoint ∧ deepest.mountPoint <+: path := by
  rw [visibleMount_eq_getLast?] at hvisible
  have hmem := List.mem_of_getLast? hvisible
  have hcovers := (mem_covering.mp hdeepest.le.1).2
  have hle : depth visible ≤ depth deepest := hdeepest.le.2 visible hmem
  exact ⟨List.prefix_of_prefix_length_le (mem_covering.mp hmem).2 hcovers hle, hcovers⟩

theorem sameTree_iff {visible deepest : MountInfoEntry} {path : HostPath}
    (hbelow : visible.mountPoint <+: deepest.mountPoint) (hcovers : deepest.mountPoint <+: path) :
    (∀ tree, (isAbsolute deepest.root = true ∧ treeBelow deepest path = tree ↔
        isAbsolute visible.root = true ∧ tree = treeBelow visible path)) ↔
      SameTree visible deepest := by
  rw [SameTree, ← treeBelow_eq_iff hbelow hcovers]
  constructor
  · intro hall
    have hdeepest := hall (treeBelow deepest path)
    have hvisible := hall (treeBelow visible path)
    refine ⟨Bool.eq_iff_iff.mpr ⟨fun h => (hdeepest.mp ⟨h, rfl⟩).1,
      fun h => (hvisible.mpr ⟨h, rfl⟩).1⟩, fun h => (hvisible.mpr ⟨h, rfl⟩).2⟩
  · rintro ⟨habsolute, hsame⟩ tree
    rw [habsolute]
    refine and_congr_right fun h => ?_
    rw [hsame h, eq_comm]

/-- The tree that is found is the one that shows exactly where nothing deeper is
hidden, or where that makes no difference. -/
theorem finds_shown_iff (table : MountTable) (path : HostPath) :
    (∀ tree, backingTreeForPath table.entries path = .ok tree ↔ Shows table path tree) ↔
      Unobstructed table path := by
  cases hnormal : normalizeAbsolute path with
  | error error =>
    refine iff_of_true (fun tree => ?_) fun normalized _ _ hother => ?_
    · refine iff_of_false (fun hfound => ?_) ?_
      · obtain ⟨normalized, hother⟩ := backingTreeForPath_of_not_normal hfound
        cases hnormal.symm.trans hother
      · rintro ⟨normalized, -, hother, -⟩
        cases hnormal.symm.trans hother
    · cases hnormal.symm.trans hother
  | ok normalized =>
    have hshows : ∀ tree, Shows table path tree ↔ ∃ entry,
        visibleMount table.entries normalized = some entry ∧ isAbsolute entry.root = true ∧
          tree = treeBelow entry normalized := by
      intro tree
      simp [Shows, hnormal]
    have hcondition : Unobstructed table path ↔ ∀ visible deepest,
        visibleMount table.entries normalized = some visible →
        IsLastMax depth (covering table.entries normalized) deepest →
          SameTree visible deepest := by
      refine ⟨fun h visible deepest => h normalized visible deepest hnormal, ?_⟩
      intro h other visible deepest hother
      cases hnormal.symm.trans hother
      exact h visible deepest
    simp only [hshows, hcondition, backingTreeForPath_eq table hnormal]
    cases hdeepest : maxByKey depth (covering table.entries normalized) with
    | none =>
      have hnone := (maxByKey_eq_none_iff depth).mp hdeepest
      have hvisible : visibleMount table.entries normalized = none := by
        rw [visibleMount_eq_getLast?, hnone]
        rfl
      simp [hvisible]
    | some deepest =>
      have hlast := (maxByKey_eq_some_iff depth).mp hdeepest
      cases hvisible : visibleMount table.entries normalized with
      | none =>
        rw [visibleMount_eq_getLast?, List.getLast?_eq_none_iff] at hvisible
        rw [hvisible] at hdeepest
        cases hdeepest
      | some visible =>
        obtain ⟨hbelow, hcovers⟩ := visible_above_deepest hvisible hlast
        have hunique : ∀ other, IsLastMax depth (covering table.entries normalized) other ↔
            deepest = other := by
          intro other
          rw [← maxByKey_eq_some_iff, hdeepest, Option.some.injEq]
        simp only [hunique, Option.some.injEq, exists_eq_left', ite_eq_iff, reduceCtorEq,
          and_false, or_false, Except.ok.injEq]
        rw [sameTree_iff hbelow hcovers]
        refine ⟨?_, fun h => h visible deepest rfl rfl⟩
        rintro h _ _ rfl rfl
        exact h

/-- The same directory of a file system, or one beneath the other. -/
def Nested (left right : BackingTreeIdentity) : Prop :=
  left.deviceMajor = right.deviceMajor ∧ left.deviceMinor = right.deviceMinor ∧
    pathOverlap left.path right.path = true

/-- Of every root the tree that shows is found, so that two roots which show the
same directory, or nested ones, overlap. -/
structure RootsAccounted (table : MountTable) (roots : Set HostPath) : Prop where
  found : ∀ path ∈ roots, ∀ tree,
    backingTreeForPath table.entries path = .ok tree ↔ Shows table path tree
  overlaps : ∀ existing candidate : RootIdentity,
    existing.visible ∈ roots → candidate.visible ∈ roots →
    backingTreeForPath table.entries existing.visible = .ok existing.backing →
    backingTreeForPath table.entries candidate.visible = .ok candidate.backing →
    ∀ left right, Shows table existing.visible left → Shows table candidate.visible right →
      Nested left right → rootsOverlap existing candidate = true

theorem rootsAccounted_iff (table : MountTable) (roots : Set HostPath) :
    RootsAccounted table roots ↔ ∀ path ∈ roots, Unobstructed table path := by
  constructor
  · intro h path hpath
    exact (finds_shown_iff table path).mp (h.found path hpath)
  · intro hall
    have hfound : ∀ path ∈ roots, ∀ tree,
        backingTreeForPath table.entries path = .ok tree ↔ Shows table path tree :=
      fun path hpath => (finds_shown_iff table path).mpr (hall path hpath)
    refine ⟨hfound, ?_⟩
    intro existing candidate hexisting hcandidate hleft hright left right hshown hother hnested
    have hsame : left = existing.backing :=
      Except.ok.inj (((hfound _ hexisting left).mpr hshown).symm.trans hleft)
    have hsameOther : right = candidate.backing :=
      Except.ok.inj (((hfound _ hcandidate right).mpr hother).symm.trans hright)
    subst hsame hsameOther
    exact rootsOverlap_iff.mpr (.inr (.inl hnested))

def absolute (names : List String) : HostPath := .rootDir :: names.map .normal

/-- A directory is bound at `/w/x` before another is bound over `/w`. -/
def coveredMounts : MountTable where
  entries :=
    [⟨8, 1, absolute [], absolute []⟩,
      ⟨8, 1, absolute ["srv", "a"], absolute ["w", "x"]⟩,
      ⟨8, 1, absolute ["data"], absolute ["w"]⟩,
      ⟨8, 1, absolute ["data"], absolute ["other"]⟩]
  mountPoints := by
    intro entry hentry
    simp only [List.mem_cons, List.not_mem_nil, or_false] at hentry
    rcases hentry with rfl | rfl | rfl | rfl <;> exact ⟨_, rfl⟩
  roots := by
    intro entry hentry
    simp only [List.mem_cons, List.not_mem_nil, or_false] at hentry
    rcases hentry with rfl | rfl | rfl | rfl <;> exact .inl ⟨_, rfl⟩

/-- `/w/x` shows `/data/x`, and `/other/x/sub` is beneath it. -/
theorem coveredMounts_not_accounted :
    ¬∀ (table : MountTable) (roots : Set HostPath), RootsAccounted table roots := by
  intro hall
  let existing : RootIdentity :=
    ⟨absolute ["w", "x"], ⟨8, 1, absolute ["srv", "a"]⟩, ⟨8, 1, "11"⟩⟩
  let candidate : RootIdentity :=
    ⟨absolute ["other", "x", "sub"], ⟨8, 1, absolute ["data", "x", "sub"]⟩, ⟨8, 1, "12"⟩⟩
  have hoverlap := (hall coveredMounts Set.univ).overlaps existing candidate trivial trivial
    (by decide) (by decide) ⟨8, 1, absolute ["data", "x"]⟩
    ⟨8, 1, absolute ["data", "x", "sub"]⟩
    ⟨absolute ["w", "x"], ⟨8, 1, absolute ["data"], absolute ["w"]⟩, by decide,
      by decide, rfl, rfl⟩
    ⟨absolute ["other", "x", "sub"], ⟨8, 1, absolute ["data"], absolute ["other"]⟩,
      by decide, by decide, rfl, rfl⟩
    ⟨rfl, rfl, by decide⟩
  have hapart : rootsOverlap existing candidate = false := by decide
  rw [hapart] at hoverlap
  cases hoverlap

end KodeGpt.VisibleMounts
