import KodeGpt.LossyTexts
import KodeGpt.TreeCompleteness
import KodeGpt.VerificationRecipes

/-!
The scope of a semantic traversal on both sides. The runtime leaves directories out on its way
down, and the control plane looks at every segment of the path it is told.
-/

namespace KodeGpt.SemanticScopes

open TextEncodings LossyTexts TreeCompleteness
open TreeListing hiding pathText
open JsonText (Bytes)
open JsObjects (JsText)
open JsFrames (stringCharacters)
open NodePaths (slash pathText mem_utf16Units_ascii)
open VerificationRecipes (isSemanticDiscoveryPath)

/-- Bytes are read character by character, and what is no character is passed over. -/
theorem lossy_induction {motive : Bytes → Prop} (nil : motive [])
    (character : ∀ character rest, motive rest → motive (String.utf8EncodeChar character ++ rest))
    (invalid : ∀ bytes, bytes ≠ [] → decodeCharacter bytes = none →
      motive (bytes.drop (invalidLength bytes)) → motive bytes) (bytes : Bytes) : motive bytes := by
  induction hlength : bytes.length using Nat.strong_induction_on generalizing bytes with
  | _ length ih =>
    by_cases hne : bytes = []
    · exact hne ▸ nil
    · cases hdecode : decodeCharacter bytes with
      | none =>
        have hpos := invalidLength_pos bytes
        have hbytes := List.length_pos_iff.mpr hne
        exact invalid bytes hne hdecode (ih _ (by rw [List.length_drop]; omega) _ rfl)
      | some found =>
        obtain ⟨rest, rfl⟩ := decodeCharacter_eq_some_iff.mp hdecode
        have hsize := found.utf8Size_pos
        rw [List.length_append, String.length_utf8EncodeChar] at hlength
        exact character found rest (ih _ (by omega) rest rfl)

theorem invalidLength_slash {front : Bytes} (hne : front ≠ []) (back : Bytes) :
    invalidLength (front ++ 47 :: back) = invalidLength front := by
  have hsecond : ∀ first, isSecondByte first 47 = false := by
    intro first
    unfold isSecondByte isContinuation
    split_ifs <;> simp
  obtain ⟨first, rest, rfl⟩ := List.exists_cons_of_ne_nil hne
  cases rest with
  | nil => simp [invalidLength, hsecond]
  | cons second rest =>
    cases rest with
    | nil => simp [invalidLength, isContinuation]
    | cons third rest => rfl

theorem decodeCharacter_slash {front : Bytes} (hne : front ≠ [])
    (hdecode : decodeCharacter front = none) (back : Bytes) :
    decodeCharacter (front ++ 47 :: back) = none := by
  refine Option.eq_none_iff_forall_ne_some.mpr fun character hsome => ?_
  obtain ⟨rest, hsplit⟩ := decodeCharacter_eq_some_iff.mp hsome
  have hwhole : ∀ later, front ≠ String.utf8EncodeChar character ++ later := by
    intro later hfront
    rw [decodeCharacter_eq_some_iff.mpr ⟨later, hfront⟩] at hdecode
    cases hdecode
  obtain ⟨later, hcharacter, hback⟩ | ⟨later, hfront, -⟩ := List.append_eq_append_iff.mp hsplit
  · cases later with
    | nil => exact hwhole [] (by rw [hcharacter, List.append_nil, List.append_nil])
    | cons byte later =>
      obtain rfl := (List.cons.inj hback).1
      have hmem : (47 : UInt8) ∈ String.utf8EncodeChar character := by simp [hcharacter]
      have hslash := utf8EncodeChar_ascii (by decide) hmem
      rw [hcharacter, List.append_eq_singleton_iff] at hslash
      simp_all
  · exact hwhole later hfront

/-- No replacement character stands for a slash. -/
theorem fromUtf8Lossy_slash (front back : Bytes) :
    fromUtf8Lossy (front ++ 47 :: back) = fromUtf8Lossy front ++ '/' :: fromUtf8Lossy back := by
  induction front using lossy_induction with
  | nil => exact fromUtf8Lossy_character '/' back
  | character character rest ih =>
    rw [List.append_assoc, fromUtf8Lossy_character, fromUtf8Lossy_character, ih, List.cons_append]
  | invalid front hne hdecode ih =>
    rw [fromUtf8Lossy_invalid hne hdecode, fromUtf8Lossy_invalid (by simp)
      (decodeCharacter_slash hne hdecode back), invalidLength_slash hne,
      List.drop_append_of_le_length (invalidLength_le_length hne), ih, List.cons_append]

theorem slash_notMem_fromUtf8Lossy {bytes : Bytes} (h : (47 : UInt8) ∉ bytes) :
    '/' ∉ fromUtf8Lossy bytes := by
  induction bytes using lossy_induction with
  | nil => exact List.not_mem_nil
  | character character rest ih =>
    rw [List.mem_append, not_or] at h
    rw [fromUtf8Lossy_character, List.mem_cons, not_or]
    refine ⟨?_, ih h.2⟩
    rintro rfl
    exact h.1 List.mem_cons_self
  | invalid bytes hne hdecode ih =>
    rw [fromUtf8Lossy_invalid hne hdecode, List.mem_cons, not_or]
    exact ⟨by decide, ih fun hmem => h (List.mem_of_mem_drop hmem)⟩

theorem eq_encodeUtf8 {bytes : Bytes} (h : replacementCharacter ∉ fromUtf8Lossy bytes) :
    bytes = encodeUtf8 (fromUtf8Lossy bytes) := by
  induction bytes using lossy_induction with
  | nil => rfl
  | character character rest ih =>
    rw [fromUtf8Lossy_character, List.mem_cons, not_or] at h
    rw [fromUtf8Lossy_character, encodeUtf8_cons, ← ih h.2]
  | invalid bytes hne hdecode ih =>
    rw [fromUtf8Lossy_invalid hne hdecode] at h
    exact absurd List.mem_cons_self h

theorem slash_notMem_pathText {bytes : Bytes} (h : (47 : UInt8) ∉ bytes) :
    slash ∉ pathText bytes := by
  intro hmem
  obtain ⟨character, hcharacter, hunit⟩ := List.mem_flatMap.mp hmem
  rw [mem_utf16Units_ascii (by decide) hunit] at hcharacter
  exact slash_notMem_fromUtf8Lossy h hcharacter

theorem pathText_slash (front back : Bytes) :
    pathText (front ++ 47 :: back) = pathText front ++ slash :: pathText back := by
  rw [pathText, fromUtf8Lossy_slash, encodeUtf16, List.flatMap_append, List.flatMap_cons]
  rfl

theorem pathText_intercalate (parts : List Bytes) :
    pathText ([47].intercalate parts) = [slash].intercalate (parts.map pathText) := by
  induction parts with
  | nil => rfl
  | cons part rest ih =>
    cases rest with
    | nil => simp
    | cons next rest =>
      rw [List.intercalate_cons_cons, List.append_assoc, List.singleton_append, pathText_slash,
        ih]
      simp [List.intercalate_cons_cons]

theorem splitOn_pathText (bytes : Bytes) :
    (pathText bytes).splitOn slash = (bytes.splitOn 47).map pathText := by
  have hparts := ListCuts.notMem_splitOn 47 bytes
  have hne := List.splitOn_ne_nil 47 bytes
  have hbytes : bytes = [47].intercalate (bytes.splitOn 47) := (List.intercalate_splitOn _).symm
  rw [hbytes]
  generalize bytes.splitOn 47 = parts at *
  rw [pathText_intercalate, List.splitOn_intercalate 47 hparts hne]
  refine List.splitOn_intercalate _ ?_ (by simpa using hne)
  intro text htext
  obtain ⟨part, hpart, rfl⟩ := List.mem_map.mp htext
  exact slash_notMem_pathText (hparts part hpart)

theorem excluded_iff (name : Bytes) :
    pathText name ∈ VerificationRecipes.semanticExcludedDirectories ↔
      name ∈ semanticExcludedDirectories := by
  have hread : ∀ name ∈ semanticExcludedDirectories,
      pathText name ∈ VerificationRecipes.semanticExcludedDirectories := by
    decide +kernel
  have htexts : VerificationRecipes.semanticExcludedDirectories.all (fun text =>
      (stringCharacters text).any fun characters => !(characters.contains replacementCharacter) &&
        semanticExcludedDirectories.contains (encodeUtf8 characters)) = true := by
    decide +kernel
  refine ⟨fun h => ?_, hread name⟩
  have hname := List.all_eq_true.mp htexts _ h
  rw [pathText, stringCharacters_encodeUtf16, Option.any_some, Bool.and_eq_true,
    Bool.not_eq_true'] at hname
  have hplain : replacementCharacter ∉ fromUtf8Lossy name := by simpa using hname.1
  rw [eq_encodeUtf8 hplain]
  simpa using hname.2

theorem isSemantic_pathText (bytes : Bytes) :
    isSemanticDiscoveryPath (pathText bytes) =
      (bytes.splitOn 47).all fun name => decide (name ∉ semanticExcludedDirectories) := by
  rw [isSemanticDiscoveryPath, splitOn_pathText, List.any_map, Bool.eq_iff_iff]
  simp [excluded_iff]

/-- Names of a directory have no slash. -/
def PlainName (name : Bytes) : Prop := (47 : UInt8) ∉ name

theorem isSemantic_join (path : Bytes) {name : Bytes} (hname : PlainName name) :
    isSemanticDiscoveryPath (pathText (join path name)) =
      (isSemanticDiscoveryPath (pathText path) &&
        decide (name ∉ semanticExcludedDirectories)) := by
  have hempty : decide ([] ∉ semanticExcludedDirectories) = true := by decide +kernel
  have hsplit : ∀ front : Bytes, (front ++ 47 :: name).splitOn 47 = front.splitOn 47 ++ [name] :=
    fun front => by
      rw [List.splitOn_append_cons_self, List.splitOn_eq_singleton hname]
  simp only [isSemantic_pathText]
  unfold join
  split
  · rename_i hpath
    rw [hpath, List.splitOn_eq_singleton hname, List.splitOn_nil, List.all_cons, List.all_nil,
      List.all_cons, List.all_nil, hempty, Bool.and_true, Bool.true_and, Bool.true_and]
  · split
    · rename_i hlast
      obtain ⟨front, rfl⟩ := List.getLast?_eq_some_iff.mp hlast
      rw [List.append_assoc, List.singleton_append, hsplit, List.splitOn_append_cons_self,
        List.splitOn_nil, List.all_append, List.all_append, List.all_cons, List.all_nil,
        List.all_cons, List.all_nil, hempty, Bool.and_true, Bool.and_true, Bool.and_true]
    · rw [hsplit, List.all_append, List.all_cons, List.all_nil, Bool.and_true]

theorem isSemantic_joined (path : Bytes) {names : List Bytes}
    (hnames : ∀ name ∈ names, PlainName name) :
    isSemanticDiscoveryPath (pathText (names.foldl join path)) =
      (isSemanticDiscoveryPath (pathText path) &&
        names.all fun name => decide (name ∉ semanticExcludedDirectories)) := by
  induction names generalizing path with
  | nil => rw [List.foldl_nil, List.all_nil, Bool.and_true]
  | cons name names ih =>
    obtain ⟨hname, hnames⟩ := List.forall_mem_cons.mp hnames
    rw [List.foldl_cons, ih _ hnames, isSemantic_join path hname, List.all_cons, Bool.and_assoc]

section Trees

variable {start path : RelativePath} {entries : List (Bytes × Node)}

/-- The names that a semantic traversal tests on the way to what is found: those of the
directories below the start, and its own if it is a directory. -/
def tested (start : RelativePath) (found : RelativePath × Node) : List Bytes :=
  if found.2.kind = .directory then found.1.drop start.length
  else (found.1.drop start.length).dropLast

def isTraversed (start : RelativePath) (found : RelativePath × Node) : Bool :=
  (tested start found).all fun name => decide (name ∉ semanticExcludedDirectories)

theorem isTraversed_entry (start : RelativePath) (name : Bytes) (node : Node) :
    isTraversed start (start ++ [name], node) = includes .semantic (name, node) := by
  by_cases hkind : node.kind = .directory <;>
    simp [isTraversed, tested, includes, includeDirectory, hkind]

theorem isTraversed_below {name : Bytes} {found : RelativePath × Node}
    (hfound : found ∈ reachable .literal (start ++ [name]) entries) :
    isTraversed start found = (decide (name ∉ semanticExcludedDirectories) &&
      isTraversed (start ++ [name]) found) := by
  obtain ⟨other, -, more, hpath⟩ := path_of_mem_reachable hfound
  have hinner : found.1.drop (start ++ [name]).length = other :: more := by
    rw [hpath, List.drop_left]
  have houter : found.1.drop start.length = name :: other :: more := by
    rw [hpath, List.append_assoc, List.drop_left]
    rfl
  rw [isTraversed, isTraversed, tested, tested, hinner, houter]
  split
  · rw [List.all_cons]
  · rw [List.dropLast_cons_cons, List.all_cons]

/-- A semantic traversal reaches what a literal one does, without what is below an excluded
directory. The start itself is not tested. -/
theorem reachable_semantic (start : RelativePath) (entries : List (Bytes × Node)) :
    reachable .semantic start entries =
      (reachable .literal start entries).filter (isTraversed start) := by
  have hall : ∀ entry, includes .literal entry = true := fun entry => by
    simp [includes, includeDirectory]
  induction start, entries using reachable.induct with
  | case1 start => rw [reachable, reachable, List.filter_nil]
  | case2 start name kind size rest ih =>
    rw [reachable, reachable, if_pos (hall _), List.filter_append, ← ih, List.filter_cons,
      isTraversed_entry, List.filter_nil]
  | case3 start name size entries rest ihbelow ih =>
    rw [reachable, reachable, if_pos (hall _), List.filter_append, ← ih, List.filter_cons,
      isTraversed_entry, List.filter_congr fun found hfound => isTraversed_below hfound, ihbelow]
    by_cases hname : name ∈ semanticExcludedDirectories
    · simp [includes, includeDirectory, Node.kind, hname]
    · simp [includes, includeDirectory, Node.kind, hname]

/-- There is a file at the path, on some way down from the start. -/
def FileAt (scope : TraversalScope) (start : RelativePath) (entries : List (Bytes × Node))
    (path : RelativePath) : Prop :=
  ∃ node, (path, node) ∈ reachable scope start entries ∧ node.kind = .file

theorem fileAt_semantic_iff : FileAt .semantic start entries path ↔
    FileAt .literal start entries path ∧ ∀ name ∈ (path.drop start.length).dropLast,
      name ∉ semanticExcludedDirectories := by
  have htraversed : ∀ node : Node, node.kind = .file → (isTraversed start (path, node) = true ↔
      ∀ name ∈ (path.drop start.length).dropLast, name ∉ semanticExcludedDirectories) := by
    intro node hkind
    simp [isTraversed, tested, hkind]
  constructor
  · rintro ⟨node, hnode, hkind⟩
    rw [reachable_semantic, List.mem_filter, htraversed node hkind] at hnode
    exact ⟨⟨node, hnode.1, hkind⟩, hnode.2⟩
  · rintro ⟨⟨node, hnode, hkind⟩, hnames⟩
    refine ⟨node, ?_, hkind⟩
    rw [reachable_semantic, List.mem_filter, htraversed node hkind]
    exact ⟨hnode, hnames⟩

/-- Some semantic listing, with limits as large as it needs, has the file. -/
def Listable (start : RelativePath) (entries : List (Bytes × Node)) (path : RelativePath) : Prop :=
  ∃ options result, options.scope = .semantic ∧
    treeBeneathWithOptions options start entries = some result ∧
      ∃ entry ∈ result.entries, entry.kind = .file ∧ entry.path = path

theorem listable_iff (hdistinct : DistinctNames entries) :
    Listable start entries path ↔ FileAt .semantic start entries path := by
  have hperm : ∀ found, found ∈ completeList .semantic start entries ↔
      found ∈ reachable .semantic start entries :=
    fun found => (List.perm_insertionSort pathOrder _).mem_iff
  constructor
  · rintro ⟨options, result, hscope, hresult, entry, hentry, hkind, rfl⟩
    have hlimits : ¬(options.maxEntries = 0 ∨ options.hardCap < options.maxEntries) := by
      intro hlimits
      rw [treeBeneathWithOptions, if_pos hlimits] at hresult
      cases hresult
    rw [treeBeneathWithOptions_complete options start entries (by omega) (by omega) hdistinct,
      hscope] at hresult
    obtain rfl := Option.some.inj hresult
    obtain ⟨found, hfound, rfl⟩ := List.mem_map.mp hentry
    exact ⟨found.2, (hperm found).mp (List.mem_of_mem_take hfound), hkind⟩
  · rintro ⟨node, hnode, hkind⟩
    have hlisted := (hperm (path, node)).mpr hnode
    obtain ⟨size, hsize⟩ : ∃ size, size = (completeList .semantic start entries).length := ⟨_, rfl⟩
    have hpos : 0 < size := hsize ▸ List.length_pos_of_mem hlisted
    refine ⟨⟨size, size, false, .semantic⟩, _, rfl,
      treeBeneathWithOptions_complete _ start entries hpos (Nat.le_refl _) hdistinct,
      treeEntry ⟨size, size, false, .semantic⟩ path node, ?_, hkind, rfl⟩
    simp only [hsize, List.take_length]
    exact List.mem_map_of_mem hlisted

/-- The path of a listed file, as the control plane gets it. -/
def listedText (startText : Bytes) (start path : RelativePath) : JsText :=
  encodeUtf16 (reportEntry startText start ⟨path, .file, none⟩).path

/-- The files that a semantic listing can have are those whose path is a semantic one, and
none of them is taken out again. -/
structure ScopesAgree (startText : Bytes) (start : RelativePath)
    (entries : List (Bytes × Node)) : Prop where
  exact : ∀ path, Listable start entries path ↔ FileAt .literal start entries path ∧
    isSemanticDiscoveryPath (listedText startText start path) = true
  kept : ∀ path, Listable start entries path →
    isSemanticDiscoveryPath (listedText startText start path) = true

/-- The names on the way down, and that of the file. -/
theorem isSemantic_listedText (startText : Bytes) (start : RelativePath) {names : List Bytes}
    {name : Bytes} (hnames : ∀ other ∈ names ++ [name], PlainName other) :
    isSemanticDiscoveryPath (listedText startText start (start ++ (names ++ [name]))) = true ↔
      isSemanticDiscoveryPath (pathText startText) = true ∧
        (∀ other ∈ names, other ∉ semanticExcludedDirectories) ∧
          name ∉ semanticExcludedDirectories := by
  have htext : listedText startText start (start ++ (names ++ [name])) =
      pathText ((names ++ [name]).foldl join startText) := by
    rw [listedText, reportEntry, List.drop_left]
    rfl
  rw [htext, isSemantic_joined startText hnames]
  simp

theorem scopesAgree_iff (startText : Bytes) (hdistinct : DistinctNames entries)
    (hplain : ∀ found ∈ reachable .literal start entries,
      ∀ name ∈ found.1.drop start.length, PlainName name) :
    ScopesAgree startText start entries ↔ ∀ path, FileAt .semantic start entries path →
      isSemanticDiscoveryPath (pathText startText) = true ∧
        ∀ name ∈ path.getLast?, name ∉ semanticExcludedDirectories := by
  have hread : ∀ path, FileAt .literal start entries path →
      ∃ names name, path = start ++ (names ++ [name]) ∧
        ∀ other ∈ names ++ [name], PlainName other := by
    rintro path ⟨node, hnode, -⟩
    obtain ⟨first, -, rest, hpath⟩ := path_of_mem_reachable hnode
    obtain rfl : path = start ++ first :: rest := hpath
    have hnames := hplain _ hnode
    rw [List.drop_left] at hnames
    have hlast := List.dropLast_concat_getLast (List.cons_ne_nil first rest)
    exact ⟨_, _, by rw [hlast], by rwa [hlast]⟩
  have hsemantic : ∀ path, FileAt .semantic start entries path →
      (isSemanticDiscoveryPath (listedText startText start path) = true ↔
        isSemanticDiscoveryPath (pathText startText) = true ∧
          ∀ name ∈ path.getLast?, name ∉ semanticExcludedDirectories) := by
    intro path hfile
    obtain ⟨hliteral, hinner⟩ := fileAt_semantic_iff.mp hfile
    obtain ⟨names, name, rfl, hnames⟩ := hread path hliteral
    rw [List.drop_left, List.dropLast_concat] at hinner
    rw [isSemantic_listedText startText start hnames, ← List.append_assoc, List.getLast?_concat]
    simpa using fun _ _ => hinner
  constructor
  · intro hagree path hfile
    exact (hsemantic path hfile).mp (hagree.kept path ((listable_iff hdistinct).mpr hfile))
  · intro hall
    have hkept : ∀ path, FileAt .semantic start entries path →
        isSemanticDiscoveryPath (listedText startText start path) = true :=
      fun path hfile => (hsemantic path hfile).mpr (hall path hfile)
    refine ⟨fun path => ?_, fun path hlisted => hkept path ((listable_iff hdistinct).mp hlisted)⟩
    rw [listable_iff hdistinct]
    refine ⟨fun hfile => ⟨(fileAt_semantic_iff.mp hfile).1, hkept path hfile⟩, ?_⟩
    rintro ⟨hfile, htext⟩
    obtain ⟨names, name, rfl, hnames⟩ := hread path hfile
    rw [isSemantic_listedText startText start hnames] at htext
    refine fileAt_semantic_iff.mpr ⟨hfile, ?_⟩
    rw [List.drop_left, List.dropLast_concat]
    exact htext.2.1

/-- The semantic listing is the front of the literal one without what is below an excluded
directory, in the same order. -/
theorem semanticListing_filtered (options : TreeOptions) (start : RelativePath)
    (hscope : options.scope = .semantic) (hpos : 1 ≤ options.maxEntries)
    (hcap : options.maxEntries ≤ options.hardCap) (hdistinct : DistinctNames entries) :
    treeBeneathWithOptions options start entries = some
      { entries := (((completeList .literal start entries).filter (isTraversed start)).take
          options.maxEntries).map fun found => treeEntry options found.1 found.2
        truncated := decide (options.maxEntries <
          ((completeList .literal start entries).filter (isTraversed start)).length) } := by
  have hordered : ∀ scope, (completeList scope start entries).Pairwise Before :=
    fun scope => (lists_completeList hdistinct).ordered
  have hperm : ∀ scope, (completeList scope start entries).Perm (reachable scope start entries) :=
    fun scope => List.perm_insertionSort _ _
  have hlists : completeList .semantic start entries =
      (completeList .literal start entries).filter (isTraversed start) := by
    refine List.Perm.eq_of_pairwise ?_ (hordered .semantic) ((hordered .literal).filter _) ?_
    · rintro first second - - hless hmore
      exact absurd hmore (List.lt_asymm hless)
    · refine (hperm .semantic).trans ?_
      rw [reachable_semantic]
      exact ((hperm .literal).filter _).symm
  rw [treeBeneathWithOptions_complete options start entries hpos hcap hdistinct, hscope, hlists]

theorem sampleEntries_filtered :
    treeBeneathWithOptions ⟨2, 10, false, .semantic⟩ [] sampleEntries = some
      { entries := (((completeList .literal [] sampleEntries).filter (isTraversed [])).take
          2).map fun found => treeEntry ⟨2, 10, false, .semantic⟩ found.1 found.2
        truncated := decide (2 <
          ((completeList .literal [] sampleEntries).filter (isTraversed [])).length) } :=
  semanticListing_filtered ⟨2, 10, false, .semantic⟩ [] rfl (by decide) (by decide)
    sampleEntries_distinct

end Trees

theorem sampleEntries_agree : ScopesAgree [] [] sampleEntries ↔
    ∀ path, FileAt .semantic [] sampleEntries path →
      isSemanticDiscoveryPath (pathText []) = true ∧
        ∀ name ∈ path.getLast?, name ∉ semanticExcludedDirectories :=
  scopesAgree_iff [] sampleEntries_distinct fun found hfound => by
    simp [sampleEntries, reachable, includes, includeDirectory] at hfound
    obtain ⟨rfl, rfl⟩ | ⟨rfl, rfl⟩ | ⟨rfl, rfl⟩ | ⟨rfl, rfl⟩ | ⟨rfl, rfl⟩ := hfound <;>
      simp [PlainName]

end KodeGpt.SemanticScopes
