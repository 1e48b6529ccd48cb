import KodeGpt.FallibleActions
import KodeGpt.FrameCodec
import KodeGpt.ListCuts
import KodeGpt.RotatedLines

/-!
The text of `/proc/self/mountinfo`: how it is parsed, and how the kernel writes it.
Texts, and paths in them, are their bytes.
-/

namespace KodeGpt.MountInfoText

open FallibleActions JsonText RotatedLines
open FrameCodec (isDigit decimalValue decimalValue_digits digits_all digits_length_pos)

structure MountInfoEntry where
  deviceMajor : Nat
  deviceMinor : Nat
  root : Bytes
  mountPoint : Bytes
  deriving DecidableEq

inductive MountInfoError where
  | io
  | malformed
  | noCoveringMount
  deriving DecidableEq

def isAbsolute (path : Bytes) : Bool := path.head? == some 47

def components (path : Bytes) : List Bytes :=
  (path.splitOn 47).filter fun name => name ≠ [] ∧ name ≠ [46]

def pathText : List Bytes → Bytes
  | [] => [47]
  | name :: rest => (name :: rest).flatMap (47 :: ·)

def normalizeComponent (normalized : List Bytes) (component : Bytes) :
    Except MountInfoError (List Bytes) :=
  if component = [46, 46] then
    if normalized = [] then .error .malformed else .ok normalized.dropLast
  else .ok (normalized ++ [component])

def normalizeAbsolute (path : Bytes) : Except MountInfoError Bytes :=
  if !isAbsolute path then .error .malformed
  else do
    let names ← (components path).foldlM normalizeComponent []
    pure (pathText names)

def normalizeRoot (root : Bytes) : Except MountInfoError Bytes :=
  if isAbsolute root then normalizeAbsolute root else .ok root

def lines (text : Bytes) : List Bytes :=
  let pieces := splitLines 10 text
  (pieces.1.map fun line => if line.getLast? = some 13 then line.dropLast else line) ++
    if pieces.2 = [] then [] else [pieces.2]

def isAsciiWhitespace (byte : UInt8) : Bool :=
  byte == 32 || byte == 9 || byte == 10 || byte == 12 || byte == 13

def splitAsciiWhitespace (text : Bytes) : List Bytes :=
  (text.splitOnP isAsciiWhitespace).filter (· ≠ [])

/-- `parse` of an unsigned number below `bound`, which may have a plus sign. -/
def parseUnsigned (bound : Nat) (text : Bytes) : Option Nat :=
  let body := if text.head? = some 43 then text.tail else text
  if body = [] ∨ ¬body.all isDigit ∨ bound ≤ decimalValue body then none
  else some (decimalValue body)

/-- `parse_device`: a colon between two numbers, neither of them empty. -/
def parseDevice (value : Bytes) : Option (Nat × Nat) :=
  match value.splitOn 58 with
  | [major, minor] => do
    let major ← parseUnsigned (2 ^ 32) major
    let minor ← parseUnsigned (2 ^ 32) minor
    pure (major, minor)
  | _ => none

def isOctal (byte : UInt8) : Bool := 48 ≤ byte && byte ≤ 55

def octalValue (first second third : UInt8) : Nat :=
  (first.toNat - 48) * 64 + (second.toNat - 48) * 8 + (third.toNat - 48)

def decodeMountPath : Bytes → Option Bytes
  | [] => some []
  | byte :: rest =>
    if byte ≠ 92 then (decodeMountPath rest).map (byte :: ·)
    else
      match rest with
      | first :: second :: third :: tail =>
        if isOctal first && isOctal second && isOctal third &&
            octalValue first second third < 256 then
          (decodeMountPath tail).map ((octalValue first second third).toUInt8 :: ·)
        else none
      | _ => none

def malformed {α : Type} (value : Option α) : Except MountInfoError α :=
  match value with
  | none => .error .malformed
  | some value => .ok value

/-- The fields of one line: two ids, the device, the root, the mount point, the
options, and any others up to a hyphen, with at least three after it. -/
def parseFields (fields : List Bytes) : Except MountInfoError MountInfoEntry :=
  match fields.findIdx? (· == [45]) with
  | none => .error .malformed
  | some separator =>
    if separator < 6 ∨ fields.length ≤ separator + 3 then .error .malformed
    else match fields with
      | mountId :: parentId :: device :: root :: mountPoint :: _ => do
        let _ ← malformed (parseUnsigned (2 ^ 64) mountId)
        let _ ← malformed (parseUnsigned (2 ^ 64) parentId)
        let (deviceMajor, deviceMinor) ← malformed (parseDevice device)
        let root ← malformed (decodeMountPath root)
        let mountPoint ← malformed (decodeMountPath mountPoint)
        if !isAbsolute mountPoint then .error .malformed
        else do
          let root ← normalizeRoot root
          let mountPoint ← normalizeAbsolute mountPoint
          pure { deviceMajor, deviceMinor, root, mountPoint }
      | _ => .error .malformed

def parseLine (line : Bytes) : Except MountInfoError MountInfoEntry :=
  if line = [] then .error .malformed else parseFields (splitAsciiWhitespace line)

def parseMountinfo (text : Bytes) : Except MountInfoError (List MountInfoEntry) :=
  if text = [] then .error .malformed
  else do
    let entries ← (lines text).mapM parseLine
    if entries = [] then .error .malformed else pure entries

structure IsName (name : Bytes) : Prop where
  nonempty : name ≠ []
  slash : 47 ∉ name
  dot : name ≠ [46]
  dots : name ≠ [46, 46]

structure IsWord (word : Bytes) : Prop where
  nonempty : word ≠ []
  unbroken : ∀ byte ∈ word, isAsciiWhitespace byte = false

/-- A mount, with the names of its root and of its mount point. -/
structure Mount where
  mountId : Nat
  parentId : Nat
  deviceMajor : Nat
  deviceMinor : Nat
  root : List Bytes
  mountPoint : List Bytes
  options : Bytes
  optionalFields : List Bytes
  fileSystem : Bytes
  source : Bytes
  superOptions : Bytes
  ids : mountId < 2 ^ 64 ∧ parentId < 2 ^ 64
  device : deviceMajor < 2 ^ 32 ∧ deviceMinor < 2 ^ 32
  rootNames : ∀ name ∈ root, IsName name
  mountPointNames : ∀ name ∈ mountPoint, IsName name
  words : ∀ word ∈ options :: fileSystem :: source :: superOptions :: optionalFields, IsWord word
  hyphens : ∀ word ∈ options :: optionalFields, word ≠ [45]

def isEscaped (byte : UInt8) : Bool := byte == 32 || byte == 9 || byte == 10 || byte == 92

def octalDigit (value : Nat) : UInt8 := (48 + value % 8).toUInt8

/-- A backslash and three octal digits for a space, a tab, a line feed or a
backslash. -/
def escapeByte (byte : UInt8) : Bytes :=
  if isEscaped byte then
    [92, octalDigit (byte.toNat / 64), octalDigit (byte.toNat / 8), octalDigit byte.toNat]
  else [byte]

def escapePath (path : Bytes) : Bytes := path.flatMap escapeByte

namespace Mount

def fields (mount : Mount) : List Bytes :=
  [digits mount.mountId, digits mount.parentId,
    digits mount.deviceMajor ++ 58 :: digits mount.deviceMinor,
    escapePath (pathText mount.root), escapePath (pathText mount.mountPoint), mount.options] ++
  mount.optionalFields ++ [[45], mount.fileSystem, mount.source, mount.superOptions]

def line (mount : Mount) : Bytes := [32].intercalate mount.fields

def entry (mount : Mount) : MountInfoEntry :=
  { deviceMajor := mount.deviceMajor, deviceMinor := mount.deviceMinor,
    root := pathText mount.root, mountPoint := pathText mount.mountPoint }

end Mount

def mountinfoText (mounts : List Mount) : Bytes := joinLines 10 (mounts.map Mount.line)

def isBreak (byte : UInt8) : Bool := byte == 12 || byte == 13

theorem isEscaped_cases {byte : UInt8} (h : isEscaped byte = true) :
    byte = 32 ∨ byte = 9 ∨ byte = 10 ∨ byte = 92 := by
  simpa [isEscaped, or_assoc] using h

theorem decodeMountPath_escapeByte (byte : UInt8) (rest : Bytes) :
    decodeMountPath (escapeByte byte ++ rest) = (decodeMountPath rest).map (byte :: ·) := by
  cases hescaped : isEscaped byte with
  | true =>
    rcases isEscaped_cases hescaped with rfl | rfl | rfl | rfl <;>
      simp [escapeByte, isEscaped, octalDigit, decodeMountPath, isOctal, octalValue]
  | false =>
    have hplain : byte ≠ 92 := by
      rintro rfl
      cases hescaped
    rw [escapeByte, if_neg (by simp [hescaped]), List.singleton_append]
    conv_lhs => unfold decodeMountPath
    rw [if_pos hplain]

theorem decodeMountPath_escapePath (path : Bytes) :
    decodeMountPath (escapePath path) = some path := by
  induction path with
  | nil => rfl
  | cons byte rest ih =>
    rw [escapePath, List.flatMap_cons, decodeMountPath_escapeByte, ← escapePath, ih]
    rfl

theorem escapePath_append (front back : Bytes) :
    escapePath (front ++ back) = escapePath front ++ escapePath back :=
  List.flatMap_append

theorem escapePath_isWord {path : Bytes} (hpath : path ≠ [])
    (hunbroken : ∀ byte ∈ path, isBreak byte = false) : IsWord (escapePath path) := by
  constructor
  · obtain ⟨first, rest, rfl⟩ := List.exists_cons_of_ne_nil hpath
    rw [escapePath, List.flatMap_cons, escapeByte]
    split <;> simp
  · intro byte hbyte
    obtain ⟨source, hsource, hmem⟩ := List.mem_flatMap.mp hbyte
    have hbreak := hunbroken source hsource
    unfold escapeByte at hmem
    split at hmem
    · rename_i hescaped
      rcases isEscaped_cases hescaped with rfl | rfl | rfl | rfl <;>
        (simp [octalDigit] at hmem; rcases hmem with rfl | rfl | rfl | rfl <;> rfl)
    · rename_i hplain
      obtain rfl := List.mem_singleton.mp hmem
      simp [isAsciiWhitespace, isBreak, isEscaped] at hbreak hplain ⊢
      tauto

theorem splitOn_names (front : Bytes) (hfront : 47 ∉ front) {names : List Bytes}
    (hnames : ∀ name ∈ names, IsName name) :
    (front ++ names.flatMap (47 :: ·)).splitOn 47 = front :: names := by
  induction names generalizing front with
  | nil =>
    rw [List.flatMap_nil, List.append_nil, List.splitOn_eq_splitOnP, List.splitOnP_eq_singleton]
    intro byte hbyte
    simpa using fun h : byte = 47 => hfront (h ▸ hbyte)
  | cons name rest ih =>
    rw [List.flatMap_cons, List.cons_append, List.splitOn_eq_splitOnP,
      List.splitOnP_append_cons_of_forall_mem, ← List.splitOn_eq_splitOnP, ih]
    · exact (hnames name List.mem_cons_self).slash
    · exact fun other hother => hnames other (List.mem_cons_of_mem _ hother)
    · intro byte hbyte
      simpa using fun h : byte = 47 => hfront (h ▸ hbyte)
    · rfl

theorem components_pathText {names : List Bytes} (hnames : ∀ name ∈ names, IsName name) :
    components (pathText names) = names := by
  have hkept : names.filter (fun name => name ≠ [] ∧ name ≠ [46]) = names := by
    rw [List.filter_eq_self]
    intro name hname
    simpa using ⟨(hnames name hname).nonempty, (hnames name hname).dot⟩
  cases names with
  | nil => rfl
  | cons name rest =>
    rw [components, pathText, ← List.nil_append (List.flatMap _ _), splitOn_names [] nofun hnames,
      List.filter_cons_of_neg (by simp), hkept]

theorem isAbsolute_pathText (names : List Bytes) : isAbsolute (pathText names) = true := by
  cases names <;> rfl

theorem foldlM_names {names : List Bytes} (hnames : ∀ name ∈ names, IsName name)
    (normalized : List Bytes) :
    names.foldlM normalizeComponent normalized = .ok (normalized ++ names) := by
  induction names generalizing normalized with
  | nil => simp [pure, Except.pure]
  | cons name rest ih =>
    have hname := (hnames name List.mem_cons_self).dots
    rw [List.foldlM_cons, normalizeComponent, if_neg hname]
    show rest.foldlM normalizeComponent (normalized ++ [name]) = _
    rw [ih fun other hother => hnames other (List.mem_cons_of_mem _ hother)]
    simp

theorem normalizeAbsolute_pathText {names : List Bytes} (hnames : ∀ name ∈ names, IsName name) :
    normalizeAbsolute (pathText names) = .ok (pathText names) := by
  rw [normalizeAbsolute, isAbsolute_pathText, components_pathText hnames, foldlM_names hnames]
  rfl

theorem isWord_of_all {word : Bytes} (hnonempty : word ≠ [])
    (hall : word.all (fun byte => !isAsciiWhitespace byte) = true) : IsWord word where
  nonempty := hnonempty
  unbroken := by
    intro byte hbyte
    simpa using List.all_eq_true.mp hall byte hbyte

theorem splitAsciiWhitespace_cons {word : Bytes} (hword : IsWord word) {byte : UInt8}
    (hbyte : isAsciiWhitespace byte = true) (rest : Bytes) :
    splitAsciiWhitespace (word ++ byte :: rest) = word :: splitAsciiWhitespace rest := by
  rw [splitAsciiWhitespace, List.splitOnP_append_cons_of_forall_mem hword.unbroken byte hbyte,
    List.filter_cons_of_pos (by simpa using hword.nonempty), ← splitAsciiWhitespace]

theorem splitAsciiWhitespace_word {word : Bytes} (hword : IsWord word) :
    splitAsciiWhitespace word = [word] := by
  rw [splitAsciiWhitespace, List.splitOnP_eq_singleton hword.unbroken,
    List.filter_cons_of_pos (by simpa using hword.nonempty), List.filter_nil]

theorem splitAsciiWhitespace_append {words more : List Bytes} (hwords : ∀ word ∈ words, IsWord word)
    (hmore : more ≠ []) :
    splitAsciiWhitespace ([32].intercalate (words ++ more)) =
      words ++ splitAsciiWhitespace ([32].intercalate more) := by
  induction words with
  | nil => rfl
  | cons word rest ih =>
    have hne : rest ++ more ≠ [] := by simp [hmore]
    rw [List.cons_append, List.intercalate_cons_of_ne_nil hne, List.append_assoc,
      List.singleton_append, splitAsciiWhitespace_cons (hwords word List.mem_cons_self) rfl,
      ih fun other hother => hwords other (List.mem_cons_of_mem _ hother), List.cons_append]

theorem splitAsciiWhitespace_words {words : List Bytes} (hwords : ∀ word ∈ words, IsWord word) :
    splitAsciiWhitespace ([32].intercalate words) = words := by
  rcases List.eq_nil_or_concat' words with rfl | ⟨front, last, rfl⟩
  · rfl
  · rw [splitAsciiWhitespace_append
      (fun word hword => hwords word (List.mem_append_left _ hword)) (by simp),
      List.intercalate_singleton, splitAsciiWhitespace_word (hwords last (by simp))]

theorem digit_unbroken {byte : UInt8} (hdigit : isDigit byte = true) :
    isAsciiWhitespace byte = false := by
  have hrange : 48 ≤ byte.toNat := (of_decide_eq_true hdigit).1
  have hne : ∀ other : UInt8, other.toNat < 48 → (byte == other) = false := by
    intro other hother
    rw [beq_eq_false_iff_ne]
    rintro rfl
    omega
  rw [isAsciiWhitespace, hne 32 (by decide), hne 9 (by decide), hne 10 (by decide),
    hne 12 (by decide), hne 13 (by decide)]
  rfl

theorem digits_unbroken (value : Nat) : ∀ byte ∈ digits value, isAsciiWhitespace byte = false :=
  fun byte hbyte => digit_unbroken (List.all_eq_true.mp (digits_all value) byte hbyte)

theorem digits_ne_nil (value : Nat) : digits value ≠ [] :=
  List.ne_nil_of_length_pos (digits_length_pos value)

theorem digits_not_mem {value : Nat} {byte : UInt8} (hbyte : isDigit byte = false) :
    byte ∉ digits value := by
  intro hmem
  have hdigit := List.all_eq_true.mp (digits_all value) byte hmem
  rw [hbyte] at hdigit
  cases hdigit

theorem parseUnsigned_digits {bound value : Nat} (hvalue : value < bound) :
    parseUnsigned bound (digits value) = some value := by
  have hplus : ¬(digits value).head? = some 43 :=
    fun hhead => digits_not_mem (by decide) (List.mem_of_head? hhead)
  have haccepted : ¬(digits value = [] ∨ ¬(digits value).all isDigit ∨ bound ≤ value) := by
    simp [digits_ne_nil, digits_all, hvalue]
  rw [parseUnsigned, if_neg hplus, decimalValue_digits, if_neg haccepted]

theorem parseDevice_digits {major minor : Nat} (hmajor : major < 2 ^ 32)
    (hminor : minor < 2 ^ 32) :
    parseDevice (digits major ++ 58 :: digits minor) = some (major, minor) := by
  have hcolon : ∀ value, ∀ byte ∈ digits value, (byte == (58 : UInt8)) = false := by
    intro value byte hbyte
    rw [beq_eq_false_iff_ne]
    rintro rfl
    exact digits_not_mem (by decide) hbyte
  have hsplit : (digits major ++ 58 :: digits minor).splitOn 58 = [digits major, digits minor] := by
    rw [List.splitOn_eq_splitOnP, List.splitOnP_append_cons_of_forall_mem (hcolon major) 58 rfl,
      List.splitOnP_eq_singleton (hcolon minor)]
  rw [parseDevice, hsplit]
  dsimp only
  rw [parseUnsigned_digits hmajor, parseUnsigned_digits hminor]
  rfl

namespace Mount

variable {mount : Mount}

structure Unbroken (mount : Mount) : Prop where
  root : ∀ byte ∈ pathText mount.root, isBreak byte = false
  mountPoint : ∀ byte ∈ pathText mount.mountPoint, isBreak byte = false

theorem pathText_ne_nil (names : List Bytes) : pathText names ≠ [] := by
  cases names <;> simp [pathText]

def frontFields (mount : Mount) : List Bytes :=
  [digits mount.mountId, digits mount.parentId,
    digits mount.deviceMajor ++ 58 :: digits mount.deviceMinor]

def backFields (mount : Mount) : List Bytes :=
  mount.options :: mount.optionalFields ++
    [[45], mount.fileSystem, mount.source, mount.superOptions]

theorem fields_eq (mount : Mount) :
    mount.fields = mount.frontFields ++ escapePath (pathText mount.root) ::
      escapePath (pathText mount.mountPoint) :: mount.backFields := by
  simp [fields, frontFields, backFields]

theorem frontFields_isWord : ∀ word ∈ mount.frontFields, IsWord word := by
  intro word hword
  simp only [frontFields, List.mem_cons, List.not_mem_nil, or_false] at hword
  rcases hword with rfl | rfl | rfl
  · exact ⟨digits_ne_nil _, digits_unbroken _⟩
  · exact ⟨digits_ne_nil _, digits_unbroken _⟩
  · refine ⟨by simp, fun byte hbyte => ?_⟩
    rcases List.mem_append.mp hbyte with hmajor | hrest
    · exact digits_unbroken _ byte hmajor
    · rcases List.mem_cons.mp hrest with rfl | hminor
      · rfl
      · exact digits_unbroken _ byte hminor

theorem backFields_isWord : ∀ word ∈ mount.backFields, IsWord word := by
  have hhyphen : IsWord [45] := ⟨by simp, by simp [isAsciiWhitespace]⟩
  intro word hword
  have hwords := mount.words
  simp only [backFields, List.mem_append, List.mem_cons, List.not_mem_nil, or_false] at hword
  rcases hword with (rfl | hoptional) | rfl | rfl | rfl | rfl
  · exact hwords _ (by simp)
  · exact hwords _ (by simp [hoptional])
  · exact hhyphen
  · exact hwords _ (by simp)
  · exact hwords _ (by simp)
  · exact hwords _ (by simp)

theorem splitAsciiWhitespace_line (h : mount.Unbroken) :
    splitAsciiWhitespace mount.line = mount.fields := by
  apply splitAsciiWhitespace_words
  intro word hword
  rw [fields_eq] at hword
  rcases List.mem_append.mp hword with hfront | hrest
  · exact frontFields_isWord word hfront
  rcases List.mem_cons.mp hrest with rfl | hrest
  · exact escapePath_isWord (pathText_ne_nil _) h.root
  rcases List.mem_cons.mp hrest with rfl | hback
  · exact escapePath_isWord (pathText_ne_nil _) h.mountPoint
  · exact backFields_isWord word hback

theorem findIdx?_fields (mount : Mount) :
    mount.fields.findIdx? (· == [45]) = some (6 + mount.optionalFields.length) := by
  have hpath : ∀ names, escapePath (pathText names) ≠ [45] := by
    intro names
    cases names <;> simp [pathText, escapePath, escapeByte, isEscaped]
  have hdigits : ∀ value, digits value ≠ [45] := by
    intro value heq
    have hmem : (45 : UInt8) ∈ digits value := by simp [heq]
    exact digits_not_mem (by decide) hmem
  have hdevice : ∀ major minor, digits major ++ 58 :: digits minor ≠ [45] := by
    intro major minor heq
    have hmem : (58 : UInt8) ∈ ([45] : Bytes) := by simp [← heq]
    exact absurd hmem (by decide)
  have hfront : ∀ word ∈ mount.frontFields ++ [escapePath (pathText mount.root),
      escapePath (pathText mount.mountPoint), mount.options] ++ mount.optionalFields,
      (word == [45]) = false := by
    intro word hword
    rw [beq_eq_false_iff_ne]
    have hhyphens := mount.hyphens
    simp only [frontFields, List.mem_append, List.mem_cons, List.not_mem_nil, or_false] at hword
    rcases hword with ((rfl | rfl | rfl) | rfl | rfl | rfl) | hoptional
    · exact hdigits _
    · exact hdigits _
    · exact hdevice _ _
    · exact hpath _
    · exact hpath _
    · exact hhyphens _ (by simp)
    · exact hhyphens _ (by simp [hoptional])
  have hsplit : mount.fields = (mount.frontFields ++ [escapePath (pathText mount.root),
      escapePath (pathText mount.mountPoint), mount.options] ++ mount.optionalFields) ++
        [[45], mount.fileSystem, mount.source, mount.superOptions] := by
    simp [fields, frontFields]
  rw [hsplit, List.findIdx?_append, List.findIdx?_eq_none_iff.mpr hfront]
  simp [List.findIdx?_cons, frontFields]
  omega

theorem parseFields_fields (mount : Mount) : parseFields mount.fields = .ok mount.entry := by
  have hlength : mount.fields.length = 10 + mount.optionalFields.length := by
    simp [fields]
    omega
  unfold parseFields
  rw [findIdx?_fields]
  dsimp only
  rw [if_neg (by omega), fields]
  dsimp only [List.cons_append]
  rw [parseUnsigned_digits mount.ids.1, parseUnsigned_digits mount.ids.2,
    parseDevice_digits mount.device.1 mount.device.2, decodeMountPath_escapePath,
    decodeMountPath_escapePath]
  simp only [malformed, bind, Except.bind, normalizeRoot, isAbsolute_pathText,
    normalizeAbsolute_pathText mount.rootNames, normalizeAbsolute_pathText mount.mountPointNames]
  rfl

theorem parseLine_line (h : mount.Unbroken) : parseLine mount.line = .ok mount.entry := by
  have hne : mount.line ≠ [] := by
    intro hempty
    have hfields := splitAsciiWhitespace_line h
    rw [hempty] at hfields
    exact absurd hfields (by simp [splitAsciiWhitespace, fields])
  rw [parseLine, if_neg hne, splitAsciiWhitespace_line h, parseFields_fields]

end Mount

theorem exists_firstBreak {path : Bytes} (hpath : ∃ byte ∈ path, isBreak byte = true) :
    ∃ front byte back, path = front ++ byte :: back ∧ (∀ other ∈ front, isBreak other = false) ∧
      isBreak byte = true := by
  induction path with
  | nil => simp at hpath
  | cons first rest ih =>
    cases hfirst : isBreak first with
    | true => exact ⟨[], first, rest, rfl, nofun, hfirst⟩
    | false =>
      obtain ⟨byte, hbyte, hbreak⟩ := hpath
      have hrest : byte ∈ rest := by
        rcases List.mem_cons.mp hbyte with rfl | hrest
        · rw [hfirst] at hbreak
          cases hbreak
        · exact hrest
      obtain ⟨front, last, back, rfl, hfront, hlast⟩ := ih ⟨byte, hrest, hbreak⟩
      refine ⟨first :: front, last, back, rfl, ?_, hlast⟩
      simpa [hfirst] using hfront

theorem mem_of_mem_splitOnP {p : UInt8 → Bool} {text piece : Bytes} {byte : UInt8}
    (hpiece : piece ∈ text.splitOnP p) (hbyte : byte ∈ piece) : byte ∈ text := by
  induction text generalizing piece with
  | nil =>
    rw [List.splitOnP_nil, List.mem_singleton] at hpiece
    simp [hpiece] at hbyte
  | cons first rest ih =>
    rw [List.splitOnP_cons_eq_if_modifyHead] at hpiece
    split at hpiece
    · rcases List.mem_cons.mp hpiece with rfl | hrest
      · cases hbyte
      · exact List.mem_cons_of_mem _ (ih hrest hbyte)
    · obtain ⟨head, tail, hsplit⟩ := List.exists_cons_of_ne_nil (List.splitOnP_ne_nil p rest)
      rw [hsplit, List.modifyHead_cons] at hpiece
      rcases List.mem_cons.mp hpiece with rfl | htail
      · rcases List.mem_cons.mp hbyte with rfl | hhead
        · exact List.mem_cons_self
        · exact List.mem_cons_of_mem _ (ih (by simp [hsplit]) hhead)
      · exact List.mem_cons_of_mem _ (ih (by simp [hsplit, htail]) hbyte)

theorem mem_pathText {names : List Bytes} {byte : UInt8} (hbyte : byte ∈ pathText names) :
    byte = 47 ∨ ∃ name ∈ names, byte ∈ name := by
  cases names with
  | nil => exact .inl (List.mem_singleton.mp hbyte)
  | cons name rest =>
    obtain ⟨other, hother, hmem⟩ := List.mem_flatMap.mp hbyte
    rcases List.mem_cons.mp hmem with rfl | hinside
    · exact .inl rfl
    · exact .inr ⟨other, hother, hinside⟩

theorem mem_of_normalizeAbsolute {path normalized : Bytes}
    (h : normalizeAbsolute path = .ok normalized) :
    ∀ byte ∈ normalized, byte = 47 ∨ byte ∈ path := by
  have hfold : ∀ (rest start names : List Bytes), rest.foldlM normalizeComponent start = .ok names →
      ∀ name ∈ names, name ∈ start ∨ name ∈ rest := by
    intro rest
    induction rest with
    | nil =>
      intro start names hend name hname
      cases hend
      exact .inl hname
    | cons component rest ih =>
      intro start names hend name hname
      rw [List.foldlM_cons] at hend
      obtain ⟨next, hnext, hend⟩ := bind_eq_ok_iff.mp hend
      rcases ih next names hend name hname with hstart | hrest
      · unfold normalizeComponent at hnext
        split at hnext
        · split at hnext
          · cases hnext
          · cases hnext
            exact .inl (List.mem_of_mem_dropLast hstart)
        · cases hnext
          rcases List.mem_append.mp hstart with hold | hnew
          · exact .inl hold
          · exact .inr (List.mem_singleton.mp hnew ▸ List.mem_cons_self)
      · exact .inr (List.mem_cons_of_mem _ hrest)
  unfold normalizeAbsolute at h
  split at h
  · cases h
  obtain ⟨names, hnames, h⟩ := bind_eq_ok_iff.mp h
  cases h
  intro byte hbyte
  rcases mem_pathText hbyte with rfl | ⟨name, hname, hinside⟩
  · exact .inl rfl
  · rcases hfold _ _ _ hnames name hname with hnone | hcomponent
    · cases hnone
    · exact .inr (mem_of_mem_splitOnP (List.mem_filter.mp hcomponent).1 hinside)

theorem malformed_eq_ok_iff {α : Type} {value : Option α} {result : α} :
    malformed value = .ok result ↔ value = some result := by
  cases value <;> simp [malformed]

theorem parseFields_ok {fields : List Bytes} {entry : MountInfoEntry}
    (h : parseFields fields = .ok entry) :
    ∃ mountId parentId device root mountPoint rest,
      fields = mountId :: parentId :: device :: root :: mountPoint :: rest ∧
      (∃ path, decodeMountPath root = some path ∧ normalizeRoot path = .ok entry.root) ∧
      ∃ path, decodeMountPath mountPoint = some path ∧
        normalizeAbsolute path = .ok entry.mountPoint := by
  unfold parseFields at h
  split at h
  · cases h
  split at h
  · cases h
  split at h
  · rename_i mountId parentId device root mountPoint rest _ _
    obtain ⟨-, -, h⟩ := bind_eq_ok_iff.mp h
    obtain ⟨-, -, h⟩ := bind_eq_ok_iff.mp h
    obtain ⟨⟨major, minor⟩, -, h⟩ := bind_eq_ok_iff.mp h
    obtain ⟨rootPath, hroot, h⟩ := bind_eq_ok_iff.mp h
    obtain ⟨pointPath, hpoint, h⟩ := bind_eq_ok_iff.mp h
    split at h
    · cases h
    obtain ⟨normalRoot, hnormalRoot, h⟩ := bind_eq_ok_iff.mp h
    obtain ⟨normalPoint, hnormalPoint, h⟩ := bind_eq_ok_iff.mp h
    cases h
    refine ⟨mountId, parentId, device, root, mountPoint, rest, rfl,
      ⟨rootPath, malformed_eq_ok_iff.mp hroot, hnormalRoot⟩,
      pointPath, malformed_eq_ok_iff.mp hpoint, hnormalPoint⟩
  · cases h

theorem parseLine_ok {line : Bytes} {entry : MountInfoEntry} (h : parseLine line = .ok entry) :
    parseFields (splitAsciiWhitespace line) = .ok entry := by
  unfold parseLine at h
  split at h
  · cases h
  · exact h

theorem intercalate_break {front back : Bytes} {byte : UInt8} (more : List Bytes) :
    [32].intercalate ((front ++ byte :: back) :: more) =
      front ++ byte :: [32].intercalate (back :: more) := by
  cases more with
  | nil => simp [List.intercalate_singleton]
  | cons next rest => simp [List.intercalate_cons_cons]

theorem isBreak_isAsciiWhitespace {byte : UInt8} (h : isBreak byte = true) :
    isAsciiWhitespace byte = true ∧ byte ≠ 47 ∧ escapeByte byte = [byte] := by
  have hcases : byte = 12 ∨ byte = 13 := by simpa [isBreak] using h
  rcases hcases with rfl | rfl <;> exact ⟨rfl, by decide, rfl⟩

theorem splitAsciiWhitespace_broken {names : List Bytes} {words more : List Bytes}
    (hwords : ∀ word ∈ words, IsWord word)
    (hbroken : ∃ byte ∈ pathText names, isBreak byte = true) :
    ∃ front others, splitAsciiWhitespace
        ([32].intercalate (words ++ escapePath (pathText names) :: more)) =
      words ++ escapePath front :: others ∧
      isAbsolute front = true ∧ normalizeAbsolute front ≠ .ok (pathText names) := by
  obtain ⟨front, byte, back, hpath, hfront, hbyte⟩ := exists_firstBreak hbroken
  obtain ⟨hspace, hslash, hplain⟩ := isBreak_isAsciiWhitespace hbyte
  have habsolute : isAbsolute front = true := by
    have hwhole := isAbsolute_pathText names
    rw [hpath] at hwhole
    cases front with
    | nil => exact absurd (by simpa [isAbsolute] using hwhole) hslash
    | cons first rest => simpa [isAbsolute] using hwhole
  have hword : IsWord (escapePath front) := by
    refine escapePath_isWord ?_ hfront
    rintro rfl
    cases habsolute
  have hescaped : escapePath (pathText names) = escapePath front ++ byte :: escapePath back := by
    rw [hpath, escapePath_append, escapePath, escapePath, List.flatMap_cons, hplain]
    rfl
  refine ⟨front, splitAsciiWhitespace ([32].intercalate (escapePath back :: more)), ?_,
    habsolute, ?_⟩
  · rw [splitAsciiWhitespace_append hwords (by simp), hescaped, intercalate_break,
      splitAsciiWhitespace_cons hword hspace]
  · intro hnormal
    have hmem : byte ∈ pathText names := by simp [hpath]
    rcases mem_of_normalizeAbsolute hnormal byte hmem with hslash' | hinside
    · exact hslash hslash'
    · rw [hfront byte hinside] at hbyte
      cases hbyte

namespace Mount

variable {mount : Mount}

theorem parseLine_root_broken (hbroken : ∃ byte ∈ pathText mount.root, isBreak byte = true) :
    parseLine mount.line ≠ .ok mount.entry := by
  intro hparse
  have hfields := parseLine_ok hparse
  rw [line, fields_eq] at hfields
  obtain ⟨front, others, hsplit, habsolute, hother⟩ :=
    splitAsciiWhitespace_broken frontFields_isWord hbroken
  rw [hsplit] at hfields
  obtain ⟨_, _, _, root, _, _, hshape, ⟨path, hdecoded, hroot⟩, -⟩ := parseFields_ok hfields
  simp only [frontFields, List.cons_append, List.nil_append, List.cons.injEq] at hshape
  obtain ⟨-, -, -, rfl, -⟩ := hshape
  rw [decodeMountPath_escapePath] at hdecoded
  obtain rfl := Option.some.inj hdecoded
  rw [normalizeRoot, if_pos habsolute] at hroot
  exact hother hroot

theorem parseLine_mountPoint_broken
    (hroot : ∀ byte ∈ pathText mount.root, isBreak byte = false)
    (hbroken : ∃ byte ∈ pathText mount.mountPoint, isBreak byte = true) :
    parseLine mount.line ≠ .ok mount.entry := by
  intro hparse
  have hfields := parseLine_ok hparse
  have hwords : ∀ word ∈ mount.frontFields ++ [escapePath (pathText mount.root)], IsWord word := by
    intro word hword
    rcases List.mem_append.mp hword with hfront | hlast
    · exact frontFields_isWord word hfront
    · rw [List.mem_singleton.mp hlast]
      exact escapePath_isWord (pathText_ne_nil _) hroot
  have hshape : mount.fields = mount.frontFields ++ [escapePath (pathText mount.root)] ++
      escapePath (pathText mount.mountPoint) :: mount.backFields := by
    rw [fields_eq]
    simp
  rw [line, hshape] at hfields
  obtain ⟨front, others, hsplit, -, hother⟩ := splitAsciiWhitespace_broken hwords hbroken
  rw [hsplit] at hfields
  obtain ⟨_, _, _, _, mountPoint, _, hshape, -, path, hdecoded, hpoint⟩ := parseFields_ok hfields
  simp only [frontFields, List.cons_append, List.nil_append, List.cons.injEq] at hshape
  obtain ⟨-, -, -, -, rfl, -⟩ := hshape
  rw [decodeMountPath_escapePath] at hdecoded
  obtain rfl := Option.some.inj hdecoded
  exact hother hpoint

/-- A line is read as it is written exactly when no byte of its paths breaks a
field. -/
theorem parseLine_line_iff (mount : Mount) :
    parseLine mount.line = .ok mount.entry ↔ mount.Unbroken := by
  refine ⟨fun hparse => ?_, parseLine_line⟩
  have hroot : ∀ byte ∈ pathText mount.root, isBreak byte = false := by
    by_contra hbroken
    push Not at hbroken
    exact parseLine_root_broken (by simpa using hbroken) hparse
  refine ⟨hroot, ?_⟩
  by_contra hbroken
  push Not at hbroken
  exact parseLine_mountPoint_broken hroot (by simpa using hbroken) hparse

end Mount

theorem escapePath_newline (path : Bytes) : 10 ∉ escapePath path := by
  intro hmem
  obtain ⟨source, -, hbyte⟩ := List.mem_flatMap.mp hmem
  unfold escapeByte at hbyte
  split at hbyte
  · rename_i hescaped
    rcases isEscaped_cases hescaped with rfl | rfl | rfl | rfl <;> revert hbyte <;> decide
  · rename_i hplain
    obtain rfl := List.mem_singleton.mp hbyte
    exact hplain rfl

theorem intercalate_last (words : List Bytes) (last : Bytes) :
    ∃ front, [32].intercalate (words ++ [last]) = front ++ last := by
  induction words with
  | nil => exact ⟨[], by rw [List.nil_append, List.intercalate_singleton, List.nil_append]⟩
  | cons word rest ih =>
    obtain ⟨front, hfront⟩ := ih
    refine ⟨word ++ [32] ++ front, ?_⟩
    rw [List.cons_append, List.intercalate_cons_of_ne_nil (by simp), hfront]
    simp

theorem IsWord.newline {word : Bytes} (h : IsWord word) : 10 ∉ word :=
  fun hmem => nomatch h.unbroken 10 hmem

namespace Mount

theorem line_newline (mount : Mount) : 10 ∉ mount.line := by
  intro hmem
  rcases ListCuts.mem_intercalate hmem with hspace | ⟨word, hword, hinside⟩
  · cases hspace
  rw [fields_eq] at hword
  rcases List.mem_append.mp hword with hfront | hrest
  · exact (frontFields_isWord word hfront).newline hinside
  rcases List.mem_cons.mp hrest with rfl | hrest
  · exact escapePath_newline _ hinside
  rcases List.mem_cons.mp hrest with rfl | hback
  · exact escapePath_newline _ hinside
  · exact (backFields_isWord word hback).newline hinside

theorem line_getLast? (mount : Mount) : mount.line.getLast? ≠ some 13 := by
  have hlast : IsWord mount.superOptions := mount.words _ (by simp)
  have hsplit : ∃ front, mount.line = front ++ mount.superOptions := by
    have hfields : mount.fields = mount.frontFields ++ [escapePath (pathText mount.root),
        escapePath (pathText mount.mountPoint), mount.options] ++ mount.optionalFields ++
          [[45], mount.fileSystem, mount.source] ++ [mount.superOptions] := by
      simp [fields, frontFields]
    rw [line, hfields]
    exact intercalate_last _ _
  obtain ⟨front, hline⟩ := hsplit
  rw [hline, List.getLast?_append_of_ne_nil _ hlast.nonempty]
  intro heq
  have hspace := hlast.unbroken 13 (List.mem_of_getLast? heq)
  cases hspace

end Mount

theorem lines_mountinfoText (mounts : List Mount) :
    lines (mountinfoText mounts) = mounts.map Mount.line := by
  have hnewlines : ∀ line ∈ mounts.map Mount.line, 10 ∉ line := by
    intro line hline
    obtain ⟨mount, -, rfl⟩ := List.mem_map.mp hline
    exact mount.line_newline
  rw [lines, mountinfoText, splitLines_joinLines hnewlines]
  simp [Mount.line_getLast?]

theorem mapM_parseLine_iff (mounts : List Mount) :
    (mounts.map Mount.line).mapM parseLine = .ok (mounts.map Mount.entry) ↔
      ∀ mount ∈ mounts, mount.Unbroken := by
  induction mounts with
  | nil => simp [pure, Except.pure]
  | cons mount rest ih =>
    rw [List.map_cons, List.mapM_cons, bind_eq_ok_iff, List.forall_mem_cons, ← ih,
      ← Mount.parseLine_line_iff]
    constructor
    · rintro ⟨entry, hentry, hrest⟩
      obtain ⟨entries, hentries, hend⟩ := bind_eq_ok_iff.mp hrest
      obtain ⟨rfl, rfl⟩ := List.cons.inj (Except.ok.inj hend)
      exact ⟨hentry, hentries⟩
    · rintro ⟨hentry, hentries⟩
      exact ⟨mount.entry, hentry, by rw [hentries]; rfl⟩

/-- Parsing gives back the mounts that the kernel wrote exactly when there are
any, and no path has a form feed or a carriage return. -/
theorem parseMountinfo_mountinfoText_iff (mounts : List Mount) :
    parseMountinfo (mountinfoText mounts) = .ok (mounts.map Mount.entry) ↔
      mounts ≠ [] ∧ ∀ mount ∈ mounts, mount.Unbroken := by
  cases mounts with
  | nil => simp [mountinfoText, parseMountinfo]
  | cons mount rest =>
    have htext : mountinfoText (mount :: rest) ≠ [] := by simp [mountinfoText]
    rw [← mapM_parseLine_iff, parseMountinfo, if_neg htext, lines_mountinfoText]
    constructor
    · intro hparse
      refine ⟨by simp, ?_⟩
      obtain ⟨entries, hentries, hend⟩ := bind_eq_ok_iff.mp hparse
      split at hend
      · cases hend
      · rw [hentries]
        exact hend
    · rintro ⟨-, hparse⟩
      rw [hparse]
      rfl

def returnMount : Mount where
  mountId := 36
  parentId := 35
  deviceMajor := 8
  deviceMinor := 1
  root := []
  mountPoint := [[97, 13, 98]]
  options := [114, 119]
  optionalFields := []
  fileSystem := [101, 120, 116, 52]
  source := [110, 111, 110, 101]
  superOptions := [114, 119]
  ids := by decide
  device := by decide
  rootNames := nofun
  mountPointNames := by
    intro name hname
    rw [List.mem_singleton.mp hname]
    constructor <;> decide
  words := by
    intro word hword
    simp only [List.mem_cons, List.not_mem_nil, or_false] at hword
    rcases hword with rfl | rfl | rfl | rfl <;> exact isWord_of_all (by decide) (by decide)
  hyphens := by decide

/-- Its line is read as that of a mount on the directory `/a`. -/
theorem returnMount_not_read :
    ¬∀ mounts : List Mount,
      parseMountinfo (mountinfoText mounts) = .ok (mounts.map Mount.entry) := by
  intro hall
  have hcut : (parseMountinfo (mountinfoText [returnMount])).toOption = some
      [{ deviceMajor := 8, deviceMinor := 1, root := [47], mountPoint := [47, 97] }] := by
    decide
  rw [hall] at hcut
  exact absurd hcut (by decide)

end KodeGpt.MountInfoText
