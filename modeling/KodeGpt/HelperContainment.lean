import KodeGpt.HelperIdentities
import KodeGpt.ListCuts

/-!
Which credential helpers are accepted. The containment in a workspace is decided on the text
of a relative path, which says less than the names of both paths.
-/

namespace KodeGpt.HelperContainment

open JsFrames JsObjects NodePaths HelperIdentities
open JsonText (Bytes)
open FallibleActions (bind_eq_ok_iff map_eq_ok_iff)
open ListCuts (notMem_splitOn)
open PinnedSkills (isSha256)

def IsName (name : JsText) : Prop :=
  name ≠ [] ∧ slash ∉ name ∧ name ≠ dotName ∧ name ≠ dotDotName

theorem foldl_normalizeName {names : List JsText} (hnames : ∀ name ∈ names, IsName name)
    (front : List JsText) : names.foldl normalizeName front = front ++ names := by
  induction names generalizing front with
  | nil => exact (List.append_nil front).symm
  | cons name names ih =>
    obtain ⟨hname, hnames⟩ := List.forall_mem_cons.mp hnames
    have hkeep : normalizeName front name = front ++ [name] := by
      rw [normalizeName, if_neg (not_or.mpr ⟨hname.1, hname.2.2.1⟩), if_neg hname.2.2.2]
    rw [List.foldl_cons, hkeep, ih hnames, List.append_assoc, List.singleton_append]

theorem normalizeName_isName {front : List JsText} {name : JsText}
    (hfront : ∀ other ∈ front, IsName other) (hname : slash ∉ name) :
    ∀ other ∈ normalizeName front name, IsName other := by
  rw [normalizeName]
  split
  · exact hfront
  · rename_i hplain
    obtain ⟨hne, hdot⟩ := not_or.mp hplain
    split
    · exact fun other hother => hfront other ((List.dropLast_sublist front).subset hother)
    · rename_i hdotDot
      exact List.forall_mem_append.mpr
        ⟨hfront, List.forall_mem_singleton.mpr ⟨hne, hname, hdot, hdotDot⟩⟩

theorem foldl_isName {names front : List JsText} (hfront : ∀ name ∈ front, IsName name)
    (hnames : ∀ name ∈ names, slash ∉ name) :
    ∀ name ∈ names.foldl normalizeName front, IsName name := by
  induction names generalizing front with
  | nil => exact hfront
  | cons name names ih =>
    obtain ⟨hname, hnames⟩ := List.forall_mem_cons.mp hnames
    exact ih (normalizeName_isName hfront hname) hnames

def resolvedPath (path : JsText) : RealPath where
  names := resolvedNames path
  valid := foldl_isName (List.forall_mem_nil _) (notMem_splitOn slash path)

theorem splitOn_text (path : RealPath) :
    path.text.splitOn slash = [] :: if path.names = [] then [[]] else path.names := by
  have hslash : ∀ name ∈ path.names, slash ∉ name := fun name hname => (path.valid name hname).2.1
  unfold RealPath.text joinNames
  split
  · rename_i hnames
    rw [hnames]
    rfl
  · rename_i hnames
    have htext : slash :: [slash].intercalate path.names =
        [slash].intercalate ([] :: path.names) := by
      rw [List.intercalate_cons_of_ne_nil hnames]
      rfl
    rw [htext]
    exact List.splitOn_intercalate slash
      (List.forall_mem_cons.mpr ⟨List.not_mem_nil, hslash⟩) (List.cons_ne_nil _ _)

theorem resolvedNames_text (path : RealPath) : resolvedNames path.text = path.names := by
  rw [resolvedNames, splitOn_text, List.foldl_cons]
  split
  · rename_i hnames
    rw [hnames]
    rfl
  · exact foldl_normalizeName path.valid []

theorem resolve_eq_text (path : JsText) : resolve path = (resolvedPath path).text := rfl

theorem resolvedPath_resolve (path : JsText) : resolvedPath (resolve path) = resolvedPath path := by
  have hnames : resolvedNames (resolve path) = resolvedNames path :=
    resolvedNames_text (resolvedPath path)
  unfold resolvedPath
  congr 1

theorem commonNames_append (names rest : List JsText) :
    commonNames names (names ++ rest) = names.length := by
  induction names with
  | nil => cases rest <;> rfl
  | cons name names ih => rw [List.cons_append, commonNames, if_pos rfl, ih, List.length_cons]

theorem commonNames_lt {names others : List JsText} (h : ¬ names <+: others) :
    commonNames names others < names.length := by
  induction names generalizing others with
  | nil => exact absurd List.nil_prefix h
  | cons name names ih =>
    cases others with
    | nil => exact Nat.succ_pos _
    | cons other others =>
      rw [commonNames]
      split
      · rename_i hname
        rw [List.cons_prefix_cons] at h
        exact Nat.succ_lt_succ (ih fun hrest => h ⟨hname, hrest⟩)
      · exact Nat.succ_pos _

theorem joinNames_cons (name : JsText) (rest : List JsText) :
    joinNames (name :: rest) = name ++ if rest = [] then [] else slash :: joinNames rest := by
  unfold joinNames
  split
  · rename_i hrest
    rw [hrest, List.append_nil]
    exact List.intercalate_singleton
  · rename_i hrest
    rw [List.intercalate_cons_of_ne_nil hrest]
    simp

theorem joinNames_ne_nil {name : JsText} (hname : IsName name) (rest : List JsText) :
    joinNames (name :: rest) ≠ [] := by
  rw [joinNames_cons]
  exact List.append_ne_nil_of_left_ne_nil hname.1 _

theorem joinNames_not_isAbsolute {name : JsText} (hname : IsName name) (rest : List JsText) :
    isAbsolute (joinNames (name :: rest)) = false := by
  obtain ⟨unit, more, rfl⟩ := List.exists_cons_of_ne_nil hname.1
  rw [joinNames_cons, isAbsolute, List.cons_append, List.head?_cons]
  refine decide_eq_false fun h => hname.2.1 ?_
  rw [Option.some.inj h]
  exact List.mem_cons_self

theorem dotDotName_prefix_joinNames {name : JsText} (hname : IsName name) (rest : List JsText) :
    dotDotName <+: joinNames (name :: rest) ↔ dotDotName <+: name := by
  rw [joinNames_cons]
  refine ⟨fun h => ?_, fun h => h.trans (List.prefix_append _ _)⟩
  match name with
  | [] => exact absurd rfl hname.1
  | [unit] =>
    obtain ⟨hunit, h⟩ := List.cons_prefix_cons.mp h
    exact absurd (congrArg (fun unit => [unit]) hunit.symm) hname.2.2.1
  | unit :: next :: more =>
    obtain ⟨hunit, h⟩ := List.cons_prefix_cons.mp h
    obtain ⟨hnext, -⟩ := List.cons_prefix_cons.mp h
    rw [← hunit, ← hnext]
    exact ⟨more, rfl⟩

/-- A root is seen above a helper, or as the helper itself, unless the first name below it
begins with two dots. -/
def SeenAbove (root helper : RealPath) : Prop :=
  ∃ rest, helper.names = root.names ++ rest ∧ ∀ name ∈ rest.head?, ¬ dotDotName <+: name

theorem isWithin_text_iff (root candidate : RealPath) :
    isWithin root.text candidate.text = true ↔ SeenAbove root candidate := by
  unfold isWithin relative
  rw [resolvedNames_text, resolvedNames_text]
  dsimp only
  by_cases habove : root.names <+: candidate.names
  · obtain ⟨rest, hrest⟩ := habove
    rw [← hrest, commonNames_append, Nat.sub_self, List.drop_left, List.replicate_zero,
      List.nil_append]
    have hseen : SeenAbove root candidate ↔ ∀ name ∈ rest.head?, ¬ dotDotName <+: name := by
      constructor
      · rintro ⟨other, hother, hhead⟩
        obtain rfl := List.append_cancel_left (hrest.trans hother)
        exact hhead
      · exact fun hhead => ⟨rest, hrest.symm, hhead⟩
    rw [hseen]
    cases rest with
    | nil => exact iff_of_true rfl nofun
    | cons name rest =>
      have hname : IsName name := candidate.valid name
        (hrest ▸ List.mem_append_right _ List.mem_cons_self)
      have hprefix := dotDotName_prefix_joinNames hname rest
      have hne : joinNames (name :: rest) ≠ [] := joinNames_ne_nil hname rest
      rw [decide_eq_false hne, joinNames_not_isAbsolute hname, Bool.false_or, Bool.not_false,
        Bool.and_true, Bool.not_eq_true', ← Bool.not_eq_true, List.isPrefixOf_iff_prefix, hprefix]
      simp
  · have hcommon := commonNames_lt habove
    obtain ⟨more, hmore⟩ := Nat.exists_eq_add_of_lt hcommon
    refine iff_of_false ?_ fun ⟨rest, hrest, _⟩ => habove ⟨rest, hrest.symm⟩
    have hups : root.names.length - commonNames root.names candidate.names = more + 1 := by omega
    rw [hups, List.replicate_succ, List.cons_append, joinNames_cons]
    exact Bool.false_ne_true

section Accepting

variable {sha256 : Bytes → Digest} {host : HelperHost}

def rootPath (realpath : JsText → Option RealPath) (root : JsText) : RealPath :=
  (realpath (resolve root)).getD (resolvedPath root)

theorem canonicalize_resolve (root : JsText) :
    canonicalizeExistingOrLexical host (resolve root) = (rootPath host.realpath root).text := by
  unfold canonicalizeExistingOrLexical rootPath
  cases host.realpath (resolve root) with
  | some canonical => rfl
  | none => rw [resolve_eq_text, resolvedPath_resolve, Option.getD_none]

theorem text_isAbsolute (path : RealPath) : ¬ isAbsolute path.text = false := by
  rw [Bool.not_eq_false]
  rfl

theorem requireOutside_ok_iff {helper : RealPath} {roots : List JsText} :
    requireOutside host helper.text (roots.map resolve) = .ok () ↔
      ∀ root ∈ roots, ¬ SeenAbove (rootPath host.realpath root) helper := by
  induction roots with
  | nil => exact iff_of_true rfl (List.forall_mem_nil _)
  | cons root roots ih =>
    rw [List.map_cons, requireOutside, resolve_eq_text, if_neg (text_isAbsolute _),
      ← resolve_eq_text, canonicalize_resolve, List.forall_mem_cons]
    split
    · rename_i hwithin
      exact iff_of_false nofun fun h => h.1 ((isWithin_text_iff _ _).mp hwithin)
    · rename_i hwithin
      rw [ih]
      exact (and_iff_right fun hseen => hwithin ((isWithin_text_iff _ _).mpr hseen)).symm

theorem absoluteRoots_ok_iff {roots resolved : List JsText} :
    absoluteRoots roots = .ok resolved ↔
      (∀ root ∈ roots, isAbsolute root = true) ∧ resolved = roots.map resolve := by
  induction roots generalizing resolved with
  | nil =>
    rw [absoluteRoots, Except.ok.injEq, List.map_nil]
    exact ⟨fun h => ⟨List.forall_mem_nil _, h.symm⟩, fun h => h.2.symm⟩
  | cons root roots ih =>
    rw [absoluteRoots, List.forall_mem_cons]
    split
    · rename_i hroot
      rw [hroot]
      exact iff_of_false nofun fun h => Bool.false_ne_true h.1.1
    · rename_i hroot
      rw [Bool.not_eq_false] at hroot
      constructor
      · intro h
        obtain ⟨later, hlater, h⟩ := bind_eq_ok_iff.mp h
        obtain ⟨hroots, rfl⟩ := ih.mp hlater
        exact ⟨⟨hroot, hroots⟩, (Except.ok.inj h).symm⟩
      · rintro ⟨⟨-, hroots⟩, rfl⟩
        exact bind_eq_ok_iff.mpr ⟨_, ih.mpr ⟨hroots, rfl⟩, rfl⟩

theorem requireContents_canonicalPath {path expected : JsText} {identity : HelperIdentity}
    (h : requireContents sha256 host path expected = .ok identity) :
    identity.canonicalPath = path := by
  unfold requireContents at h
  split at h
  · cases h
  · split at h
    · cases h
    · rw [← Except.ok.inj h]

theorem resolveHelperIdentity_ok {path expected : JsText} {roots : List JsText}
    {identity : HelperIdentity}
    (h : resolveHelperIdentity sha256 host path expected (roots.map resolve) = .ok identity) :
    isAbsolute path = true ∧ ∃ helper, host.realpath path = some helper ∧
      identity.canonicalPath = helper.text ∧
      ∀ root ∈ roots, ¬ SeenAbove (rootPath host.realpath root) helper := by
  unfold resolveHelperIdentity at h
  split at h
  · cases h
  · rename_i hpath
    split at h
    · cases h
    · split at h
      · cases h
      · rename_i helper hhelper
        rw [if_neg (text_isAbsolute helper)] at h
        obtain ⟨_, houtside, h⟩ := bind_eq_ok_iff.mp h
        obtain ⟨_, -, h⟩ := bind_eq_ok_iff.mp h
        exact ⟨eq_true_of_ne_false hpath, helper, hhelper, requireContents_canonicalPath h,
          requireOutside_ok_iff.mp houtside⟩

end Accepting

def emptyProgram : Files where
  stat := fun _ => some true
  access := fun _ => true
  readFile := fun _ => some []

def manifestOf (digest : Digest) : Manifest where
  adapterId := asciiUnits "test.fixture.read.v1"
  adapterContractVersion := asciiUnits "1"
  implementationDigest := digest.val

variable (sha256 : Bytes → Digest)

theorem emptyProgram_accepted {realpath : JsText → Option RealPath} {path : JsText}
    {roots : List JsText} {helper : RealPath} (hpath : isAbsolute path = true)
    (hroots : ∀ root ∈ roots, isAbsolute root = true) (hhelper : realpath path = some helper)
    (houtside : ∀ root ∈ roots, ¬ SeenAbove (rootPath realpath root) helper) :
    ∃ identity, resolveProviderImplementationIdentity sha256 ⟨emptyProgram, realpath⟩
      (manifestOf (sha256 [])) (.externalHelper path (sha256 []).val) roots = .ok identity := by
  have hdigest : ¬ isSha256 (sha256 []).val = false := by
    rw [Bool.not_eq_false]
    exact (sha256 []).property
  have hresolved : resolveHelperIdentity sha256 ⟨emptyProgram, realpath⟩ path (sha256 []).val
      (roots.map resolve) = .ok ⟨helper.text, (sha256 []).val⟩ := by
    have hcontents : requireContents sha256 ⟨emptyProgram, realpath⟩ helper.text
        (sha256 []).val = .ok ⟨helper.text, (sha256 []).val⟩ := if_neg (not_not.mpr rfl)
    rw [resolveHelperIdentity, if_neg (by rw [hpath]; exact Bool.noConfusion), if_neg hdigest]
    dsimp only
    rw [hhelper]
    dsimp only
    rw [if_neg (text_isAbsolute helper)]
    exact bind_eq_ok_iff.mpr ⟨(), requireOutside_ok_iff.mpr houtside,
      bind_eq_ok_iff.mpr ⟨(), rfl, hcontents⟩⟩
  have hidentity : helperIdentityOf sha256 ⟨emptyProgram, realpath⟩
      (.externalHelper path (sha256 []).val) (roots.map resolve) =
        .ok (some ⟨helper.text, (sha256 []).val⟩) := by
    rw [helperIdentityOf, hresolved]
    rfl
  rw [resolveProviderImplementationIdentity, manifestOf, if_neg hdigest]
  exact ⟨_, bind_eq_ok_iff.mpr ⟨_, absoluteRoots_ok_iff.mpr ⟨hroots, rfl⟩,
    bind_eq_ok_iff.mpr ⟨_, hidentity, rfl⟩⟩⟩

/-- Whatever the files are, an accepted helper is in none of the roots. -/
def AcceptsOutside (realpath : JsText → Option RealPath) (path : JsText) (roots : List JsText) :
    Prop :=
  ∀ files manifest expected identity,
    resolveProviderImplementationIdentity sha256 ⟨files, realpath⟩ manifest
      (.externalHelper path expected) roots = .ok identity →
    ∃ helper, realpath path = some helper ∧
      identity.helperIdentity.map HelperIdentity.canonicalPath = some helper.text ∧
      ∀ root ∈ roots, ∀ canonical, realpath root = some canonical →
        ¬ canonical.names <+: helper.names

/-- A helper is accepted only outside of the roots if any root above it is one that is seen. -/
theorem resolveProviderImplementationIdentity_outside_iff (realpath : JsText → Option RealPath)
    (path : JsText) (roots : List JsText) :
    AcceptsOutside sha256 realpath path roots ↔
      (isAbsolute path = true → (∀ root ∈ roots, isAbsolute root = true) →
        ∀ helper, realpath path = some helper →
          (∃ root ∈ roots, ∃ canonical, realpath root = some canonical ∧
            canonical.names <+: helper.names) →
          ∃ root ∈ roots, SeenAbove (rootPath realpath root) helper) := by
  constructor
  · intro h hpath hroots helper hhelper habove
    by_contra hseen
    have houtside : ∀ root ∈ roots, ¬ SeenAbove (rootPath realpath root) helper :=
      fun root hroot hroot' => hseen ⟨root, hroot, hroot'⟩
    obtain ⟨identity, hidentity⟩ := emptyProgram_accepted sha256 hpath hroots hhelper houtside
    obtain ⟨other, hother, -, hapart⟩ := h _ _ _ _ hidentity
    obtain rfl := Option.some.inj (hhelper.symm.trans hother)
    obtain ⟨root, hroot, canonical, hcanonical, hprefix⟩ := habove
    exact hapart root hroot canonical hcanonical hprefix
  · intro h files manifest expected identity hidentity
    unfold resolveProviderImplementationIdentity at hidentity
    split at hidentity
    · cases hidentity
    · obtain ⟨resolved, hresolved, hidentity⟩ := bind_eq_ok_iff.mp hidentity
      obtain ⟨hroots, rfl⟩ := absoluteRoots_ok_iff.mp hresolved
      obtain ⟨found, hfound, hidentity⟩ := bind_eq_ok_iff.mp hidentity
      obtain rfl := Except.ok.inj hidentity
      obtain ⟨helper', hhelper', hfound⟩ := map_eq_ok_iff.mp hfound
      obtain ⟨hpath, helper, hhelper, htext, houtside⟩ := resolveHelperIdentity_ok hhelper'
      refine ⟨helper, hhelper, ?_, ?_⟩
      · rw [← hfound, Option.map_some, htext]
      · intro root hroot canonical hcanonical hprefix
        obtain ⟨seen, hseen, habove⟩ :=
          h hpath hroots helper hhelper ⟨root, hroot, canonical, hcanonical, hprefix⟩
        exact houtside seen hseen habove

/-- `/work` -/
def work : RealPath where
  names := [asciiUnits "work"]
  valid := by decide

/-- `/work/..tools/helper` -/
def dottedHelper : RealPath where
  names := [asciiUnits "work", asciiUnits "..tools", asciiUnits "helper"]
  valid := by decide

def withoutLinks (path : JsText) : Option RealPath :=
  if path = work.text then some work
  else if path = dottedHelper.text then some dottedHelper
  else none

def emptyProgramDigest (bytes : Bytes) : Digest :=
  if bytes = [] then
    ⟨asciiUnits "e3b0c44298fc1c149afbf4c8996fb92427ae41e4649b934ca495991b7852b855", by decide⟩
  else
    ⟨asciiUnits "74688e0aaf459979f4a8e73066affa6795af0bc51fc6aa7b86f825d26124d48c", by decide⟩

theorem dottedHelper_not_outside :
    ¬ ∀ sha256 realpath path roots, AcceptsOutside sha256 realpath path roots := by
  intro h
  have hseen : ∀ root ∈ [work.text], ¬ SeenAbove (rootPath withoutLinks root) dottedHelper := by
    rintro root hroot ⟨rest, hrest, hhead⟩
    rw [List.mem_singleton.mp hroot] at hrest
    obtain ⟨-, hrest⟩ := List.cons.inj hrest
    obtain rfl : rest = [asciiUnits "..tools", asciiUnits "helper"] := hrest.symm
    exact hhead _ rfl (by decide)
  obtain ⟨identity, hidentity⟩ := emptyProgram_accepted emptyProgramDigest rfl
    (List.forall_mem_singleton.mpr rfl) (rfl : withoutLinks dottedHelper.text = _) hseen
  obtain ⟨helper, hhelper, -, hapart⟩ := h _ _ _ _ _ _ _ _ hidentity
  obtain rfl := Option.some.inj (hhelper.symm.trans rfl)
  exact hapart _ (List.mem_singleton_self _) work rfl (by decide)

end KodeGpt.HelperContainment
