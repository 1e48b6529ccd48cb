import Mathlib.Data.Bool.AllAny
import KodeGpt.FallibleActions
import KodeGpt.ListCuts
import KodeGpt.NodePaths

/-!
The user unit that is written for a release, and what systemd reads in it: lines, sections and
assignments, the words of a value, and what specifiers and variables stand for.
-/

namespace KodeGpt.UserUnits

open FallibleActions JsObjects
open JsFrames (asciiUnits)
open ListCuts (notMem_splitOn)
open NodePaths (slash)

def newline : UInt16 := 10

def backslash : UInt16 := 92

def percent : UInt16 := 37

def dollar : UInt16 := 36

def isBlank (unit : UInt16) : Bool := unit = 32 || unit = 9 || unit = newline || unit = 13

def continued : List JsText → List JsText
  | line :: next :: rest =>
    if line.getLast? = some backslash then
      continued ((line.dropLast ++ 32 :: next) :: rest)
    else line :: continued (next :: rest)
  | lines => lines
  termination_by lines => lines.length

structure Directive where
  heading : JsText
  name : JsText
  value : JsText
deriving DecidableEq

def directivesIn (heading : JsText) : List JsText → List Directive
  | [] => []
  | line :: rest =>
    if line.head? = some 35 ∨ line.head? = some 59 then directivesIn heading rest
    else if line.head? = some 91 ∧ line.getLast? = some 93 then
      directivesIn line.tail.dropLast rest
    else if 61 ∈ line then
      let name := line.takeWhile (· ≠ 61)
      ⟨heading, name, line.drop (name.length + 1)⟩ :: directivesIn heading rest
    else directivesIn heading rest

theorem continued_eq {lines : List JsText}
    (hlines : ∀ line ∈ lines, line.getLast? ≠ some backslash) : continued lines = lines := by
  induction lines with
  | nil => rw [continued]; exact nofun
  | cons line rest ih =>
    have hrest := ih fun other hother => hlines other (List.mem_cons_of_mem _ hother)
    cases rest with
    | nil => rw [continued]; exact nofun
    | cons next rest => rw [continued, if_neg (hlines line List.mem_cons_self), hrest]

def escapes : List (UInt16 × UInt16) :=
  [(97, 7), (98, 8), (102, 12), (110, 10), (114, 13), (116, 9), (118, 11), (92, 92), (34, 34),
    (39, 39), (115, 32)]

def words (quote : Option UInt16) (word : Option JsText) : JsText → Option (List JsText)
  | [] => if quote = none then some word.toList else none
  | unit :: rest =>
    if unit = backslash then
      match rest with
      | [] => none
      | next :: rest =>
        (escapes.lookup next).bind fun character =>
          words quote (some (word.getD [] ++ [character])) rest
    else if quote = some unit then words none word rest
    else if quote = none ∧ (unit = 34 ∨ unit = 39) then
      words (some unit) (some (word.getD [])) rest
    else if quote = none ∧ isBlank unit then (words none none rest).map (word.toList ++ ·)
    else words quote (some (word.getD [] ++ [unit])) rest

def expandSpecifiers (specifier : UInt16 → JsText) : JsText → JsText
  | [] => []
  | [unit] => [unit]
  | unit :: next :: rest =>
    if unit = percent then
      (if next = percent then [percent] else specifier next) ++ expandSpecifiers specifier rest
    else unit :: expandSpecifiers specifier (next :: rest)

def isNameUnit (unit : UInt16) : Bool :=
  65 ≤ unit && unit ≤ 90 || 97 ≤ unit && unit ≤ 122 || unit = 95 || 48 ≤ unit && unit ≤ 57

/-- What a dollar sign before the text refers to, a variable or the dollar sign, and how much
of the text belongs to it. -/
def reference : JsText → Option (Option JsText × Nat)
  | [] => none
  | unit :: rest =>
    if unit = dollar then some (none, 1)
    else if unit = 123 then
      if 125 ∈ rest then
        let name := rest.takeWhile (· ≠ 125)
        some (some name, name.length + 2)
      else none
    else if isNameUnit unit && !(48 ≤ unit && unit ≤ 57) then
      let name := (unit :: rest).takeWhile isNameUnit
      some (some name, name.length)
    else none

def expand (environment : JsText → JsText) : Nat → JsText → JsText
  | _, [] => []
  | skipped + 1, _ :: rest => expand environment skipped rest
  | 0, unit :: rest =>
    match if unit = dollar then reference rest else none with
    | some (none, length) => dollar :: expand environment length rest
    | some (some name, length) => environment name ++ expand environment length rest
    | none => unit :: expand environment 0 rest

def isLiteral : JsText → Bool
  | [] => true
  | unit :: rest => !(unit = dollar && (reference rest).isSome) && isLiteral rest

theorem expand_of_literal (environment : JsText → JsText) {text : JsText}
    (h : isLiteral text = true) : expand environment 0 text = text := by
  induction text with
  | nil => rfl
  | cons unit rest ih =>
    rw [isLiteral, Bool.and_eq_true] at h
    have hnone : (if unit = dollar then reference rest else none) = none := by
      by_cases hunit : unit = dollar
      · simpa [hunit] using h.1
      · exact if_neg hunit
    rw [expand, hnone, ih h.2]

theorem reference_dollar {rest : JsText} {length : Nat}
    (h : reference rest = some (none, length)) : length = 1 ∧ rest ≠ [] := by
  cases rest with
  | nil => cases h
  | cons unit rest =>
    refine ⟨?_, List.cons_ne_nil _ _⟩
    rw [reference] at h
    split at h
    · cases h
      rfl
    · split at h
      · split at h
        · cases h
        · cases h
      · split at h
        · cases h
        · cases h

/-- Where no variable is set, a reference makes the text shorter. -/
theorem length_expand (text : JsText) (skipped : Nat) :
    (expand (fun _ => []) skipped text).length ≤ text.length - skipped := by
  induction text generalizing skipped with
  | nil => simp [expand]
  | cons unit rest ih =>
    cases skipped with
    | succ skipped => simpa [expand] using ih skipped
    | zero =>
      rw [expand]
      split
      · rename_i length _
        have := ih length
        simp only [List.length_cons]
        omega
      · rename_i length _
        have := ih length
        simp only [List.nil_append, List.length_cons]
        omega
      · simpa using ih 0

theorem isLiteral_of_expand {text : JsText} (h : expand (fun _ => []) 0 text = text) :
    isLiteral text = true := by
  induction text with
  | nil => rfl
  | cons unit rest ih =>
    rw [expand] at h
    split at h
    · rename_i length href
      obtain ⟨rfl, hne⟩ : length = 1 ∧ rest ≠ [] := by
        split at href
        · exact reference_dollar href
        · cases href
      have hlength := congrArg List.length (List.cons.inj h).2
      have := length_expand rest 1
      have := List.length_pos_iff.mpr hne
      omega
    · rename_i length _
      have hlength := congrArg List.length h
      have := length_expand rest length
      simp only [List.nil_append, List.length_cons] at hlength
      omega
    · rename_i hnone
      rw [isLiteral, ih (List.cons.inj h).2, Bool.and_true]
      by_cases hunit : unit = dollar
      · simpa [hunit] using hnone
      · simp [hunit]

structure Reading where
  directives : List (JsText × JsText)
  execStart : Option (List JsText)
  environment : Option (List JsText)
  path : Option (List JsText)
  workingDirectory : Option JsText

def valuesOf (directives : List Directive) (name : String) : List JsText :=
  (directives.filter fun directive =>
    directive.heading = asciiUnits "Service" && directive.name = asciiUnits name).map
      Directive.value

/-- The arguments of the command, what the environment is given, the entries of its PATH, and
the working directory, for any environment and any values of the specifiers. -/
def readUnit (environment : JsText → JsText) (specifier : UInt16 → JsText) (text : JsText) :
    Reading :=
  let directives := directivesIn [] (continued (text.splitOn newline))
  let assignments := (valuesOf directives "Environment").mapM fun value =>
    (words none none value).map (List.map (expandSpecifiers specifier))
  { directives := directives.map fun directive => (directive.heading, directive.name)
    execStart :=
      match valuesOf directives "ExecStart" with
      | [value] => (words none none value).map
          (List.map fun word => expand environment 0 (expandSpecifiers specifier word))
      | _ => none
    environment := assignments.map List.flatten
    path := assignments.bind fun given =>
      ((given.flatten.filter fun assignment =>
        (asciiUnits "PATH=").isPrefixOf assignment).getLast?).map fun assignment =>
          (assignment.drop 5).splitOn 58
    workingDirectory :=
      (valuesOf directives "WorkingDirectory").getLast?.map (expandSpecifiers specifier) }

structure ServiceReleaseRecord where
  releaseId : JsText
  releaseRoot : JsText
  cliPath : JsText
  nodePath : JsText
  zrokPath : JsText
  reservedName : JsText
  port : Nat

/-- `replaceAll`, of one unit. -/
def replaceAll (pattern : UInt16) (replacement text : JsText) : JsText :=
  text.flatMap fun unit => if unit = pattern then replacement else [unit]

/-- `dirname`, of the paths of POSIX. -/
def dirname (path : JsText) : JsText :=
  match (path.tail.reverse.dropWhile (· = slash)).dropWhile (· ≠ slash) with
  | [] => if path.head? = some slash then [slash] else [46]
  | _ :: front =>
    if path.head? = some slash ∧ front = [] then [slash, slash]
    else path.take 1 ++ front.reverse

def isUnsafe (value : JsText) : Bool := value.any fun unit => unit = 0 || unit = 13 || unit = 10

def escaped (text : JsText) : JsText :=
  replaceAll 34 (asciiUnits "\\\"") (replaceAll backslash (asciiUnits "\\\\") text)

def doubled (value : JsText) : JsText := replaceAll percent (asciiUnits "%%") value

def systemdQuote (value : JsText) : Except String JsText :=
  if isUnsafe value then .error "unsafe systemd unit argument"
  else .ok (34 :: escaped (doubled value) ++ [34])

def pathEscapes : List (UInt16 × JsText) :=
  [(backslash, asciiUnits "\\x5c"), (32, asciiUnits "\\x20"), (9, asciiUnits "\\x09"),
    (34, asciiUnits "\\x22"), (39, asciiUnits "\\x27")]

def pathEscaped (value : JsText) : JsText :=
  pathEscapes.foldl (fun value escape => replaceAll escape.1 escape.2 value) value

def systemdPathValue (value : JsText) : Except String JsText :=
  if value.head? ≠ some slash ∨ isUnsafe value then
    .error "unsafe systemd WorkingDirectory path"
  else .ok (pathEscaped (doubled value))

section Render

variable (record : ServiceReleaseRecord) (stateRoot : JsText)

def execArgs : List JsText :=
  [record.nodePath, record.cliPath, asciiUnits "service", asciiUnits "run",
    asciiUnits "--state-root", stateRoot, asciiUnits "--release-id", record.releaseId,
    asciiUnits "--name", record.reservedName, asciiUnits "--port",
    asciiUnits (toString record.port)]

def pathEntries : List JsText :=
  ([dirname record.nodePath, dirname record.zrokPath] ++
    ["/usr/local/bin", "/usr/bin", "/bin"].map asciiUnits).eraseDups

def pathValue : JsText := [58].intercalate (pathEntries record)

def headLines : List JsText :=
  ["[Unit]", "Description=KodeGPT managed local service", "StartLimitIntervalSec=60",
    "StartLimitBurst=5", "", "[Service]", "Type=simple"].map asciiUnits

def tailLines : List JsText :=
  ["Restart=on-failure", "RestartSec=5s", "KillSignal=SIGTERM", "KillMode=mixed",
    "TimeoutStopSec=10s", "", "[Install]", "WantedBy=default.target", ""].map asciiUnits

def unitLines (command directory nodeEnv path : JsText) : List JsText :=
  headLines ++ [asciiUnits "ExecStart=" ++ command, asciiUnits "WorkingDirectory=" ++ directory,
    asciiUnits "Environment=" ++ nodeEnv, asciiUnits "Environment=" ++ path] ++ tailLines

def renderKodegptUserUnit : Except String JsText := do
  let args ← (execArgs record stateRoot).mapM systemdQuote
  let directory ← systemdPathValue record.releaseRoot
  let nodeEnv ← systemdQuote (asciiUnits "NODE_ENV=production")
  let path ← systemdQuote (asciiUnits "PATH=" ++ pathValue record)
  return [newline].intercalate (unitLines ([32].intercalate args) directory nodeEnv path)

def unitDirectives : List (JsText × JsText) :=
  ([("Unit", "Description"), ("Unit", "StartLimitIntervalSec"), ("Unit", "StartLimitBurst"),
    ("Service", "Type"), ("Service", "ExecStart"), ("Service", "WorkingDirectory"),
    ("Service", "Environment"), ("Service", "Environment"), ("Service", "Restart"),
    ("Service", "RestartSec"), ("Service", "KillSignal"), ("Service", "KillMode"),
    ("Service", "TimeoutStopSec"), ("Install", "WantedBy")] : List (String × String)).map
      fun directive => (asciiUnits directive.1, asciiUnits directive.2)

def intended : Reading where
  directives := unitDirectives
  execStart := some (execArgs record stateRoot)
  environment := some [asciiUnits "NODE_ENV=production", asciiUnits "PATH=" ++ pathValue record]
  path := some (pathEntries record)
  workingDirectory := some record.releaseRoot

end Render

theorem replaceAll_cons (pattern : UInt16) (replacement : JsText) (unit : UInt16)
    (rest : JsText) : replaceAll pattern replacement (unit :: rest) =
      (if unit = pattern then replacement else [unit]) ++ replaceAll pattern replacement rest :=
  List.flatMap_cons

theorem replaceAll_append (pattern : UInt16) (replacement front rest : JsText) :
    replaceAll pattern replacement (front ++ rest) =
      replaceAll pattern replacement front ++ replaceAll pattern replacement rest :=
  List.flatMap_append

theorem not_mem_replaceAll {pattern unit : UInt16} {replacement text : JsText}
    (hreplacement : unit ∉ replacement) (htext : unit ∉ text) :
    unit ∉ replaceAll pattern replacement text := by
  intro hmem
  obtain ⟨other, hother, hunit⟩ := List.mem_flatMap.mp hmem
  split at hunit
  · exact hreplacement hunit
  · exact htext (List.mem_singleton.mp hunit ▸ hother)

theorem expandSpecifiers_append (specifier : UInt16 → JsText) {front : JsText} (rest : JsText)
    (h : percent ∉ front) :
    expandSpecifiers specifier (front ++ rest) = front ++ expandSpecifiers specifier rest := by
  induction front with
  | nil => rfl
  | cons unit front ih =>
    obtain ⟨hunit, hfront⟩ := List.ne_and_not_mem_of_not_mem_cons h
    rw [List.cons_append, List.cons_append, ← ih hfront]
    cases front ++ rest with
    | nil => rfl
    | cons next rest => rw [expandSpecifiers, if_neg hunit.symm]

theorem expandSpecifiers_doubled (specifier : UInt16 → JsText) (value : JsText) :
    expandSpecifiers specifier (doubled value) = value := by
  induction value with
  | nil => rfl
  | cons unit rest ih =>
    rw [doubled, replaceAll_cons, ← doubled]
    split
    · rename_i hunit
      rw [hunit]
      exact congrArg (percent :: ·) ih
    · rename_i hunit
      rw [expandSpecifiers_append specifier _ (by simpa using Ne.symm hunit), ih]
      rfl

theorem words_cons (quote : Option UInt16) (word : Option JsText) {unit : UInt16} (rest : JsText)
    (h : unit ≠ backslash) : words quote word (unit :: rest) =
      if quote = some unit then words none word rest
      else if quote = none ∧ (unit = 34 ∨ unit = 39) then
        words (some unit) (some (word.getD [])) rest
      else if quote = none ∧ isBlank unit then (words none none rest).map (word.toList ++ ·)
      else words quote (some (word.getD [] ++ [unit])) rest := by
  rw [words.eq_def]
  exact if_neg h

theorem words_escaped (word text rest : JsText) :
    words (some 34) (some word) (escaped text ++ 34 :: rest) =
      words none (some (word ++ text)) rest := by
  induction text generalizing word with
  | nil =>
    rw [List.append_nil]
    exact words_cons _ _ _ (by decide)
  | cons unit text ih =>
    have hih := ih (word ++ [unit])
    rw [List.append_assoc, List.singleton_append] at hih
    rw [← hih, escaped, replaceAll_cons, replaceAll_append, ← escaped]
    by_cases hslash : unit = backslash
    · subst hslash
      rfl
    · by_cases hquote : unit = 34
      · subst hquote
        rfl
      · have hother : ¬34 = unit := fun h => hquote h.symm
        simp [replaceAll, hslash, hquote, hother, words_cons]

def quoted (value : JsText) : JsText := 34 :: escaped (doubled value) ++ [34]

theorem systemdQuote_ok (value text : JsText) (h : systemdQuote value = .ok text) :
    text = quoted value ∧ newline ∉ value := by
  rw [systemdQuote] at h
  split at h
  · cases h
  · rename_i hsafe
    exact ⟨(Except.ok.inj h).symm, fun hmem => hsafe (List.any_eq_true.mpr ⟨_, hmem, rfl⟩)⟩

theorem words_quoted (value rest : JsText) :
    words none none (quoted value ++ rest) = words none (some (doubled value)) rest := by
  have h := words_escaped [] (doubled value) rest
  rw [List.nil_append] at h
  rw [← h, quoted, List.append_assoc, List.cons_append, words_cons none none _ (by decide)]
  rfl

theorem words_intercalate (values : List JsText) :
    words none none ([32].intercalate (values.map quoted)) = some (values.map doubled) := by
  induction values with
  | nil => rfl
  | cons value rest ih =>
    cases rest with
    | nil =>
      have h := words_quoted value []
      rw [List.append_nil] at h
      rw [List.map_singleton, List.intercalate_singleton, h]
      rfl
    | cons next rest =>
      rw [List.map_cons, List.map_cons, List.intercalate_cons_cons, List.append_assoc,
        words_quoted, List.singleton_append, words_cons _ _ _ (by decide), ← List.map_cons, ih]
      rfl

/-- A line that is one, and does not go on in the next. -/
def Whole (line : JsText) : Prop := newline ∉ line ∧ line.getLast? ≠ some backslash

theorem whole_append (front : JsText) {line : JsText} (hfront : newline ∉ front) (hne : line ≠ [])
    (h : Whole line) : Whole (front ++ line) := by
  refine ⟨by simp [hfront, h.1], ?_⟩
  rw [List.getLast?_append, List.getLast?_eq_some_getLast hne]
  exact fun heq => h.2 ((List.getLast?_eq_some_getLast hne).trans heq)

theorem whole_quoted {value : JsText} (h : newline ∉ value) : Whole (quoted value) := by
  have hescaped : newline ∉ escaped (doubled value) :=
    not_mem_replaceAll (by decide) (not_mem_replaceAll (by decide)
      (not_mem_replaceAll (by decide) h))
  refine ⟨by simpa [quoted, newline] using hescaped, ?_⟩
  rw [quoted, List.getLast?_concat]
  decide

theorem whole_intercalate {values : List JsText} (hne : values ≠ [])
    (h : ∀ value ∈ values, newline ∉ value) : Whole ([32].intercalate (values.map quoted)) := by
  induction values with
  | nil => exact absurd rfl hne
  | cons value rest ih =>
    obtain ⟨hvalue, hrest⟩ := List.forall_mem_cons.mp h
    cases rest with
    | nil => simpa using whole_quoted hvalue
    | cons next rest =>
      rw [List.map_cons, List.map_cons, List.intercalate_cons_cons, ← List.map_cons]
      refine whole_append _ (by simpa [newline] using (whole_quoted hvalue).1) ?_
        (ih (List.cons_ne_nil _ _) hrest)
      cases rest <;> simp [quoted, List.intercalate_cons_cons]

theorem pathEscaped_append (front rest : JsText) :
    pathEscaped (front ++ rest) = pathEscaped front ++ pathEscaped rest := by
  simp only [pathEscaped, pathEscapes, List.foldl, replaceAll_append]

theorem pathEscapes_spec : ∀ escape ∈ pathEscapes.map Prod.snd, escape.length = 4 ∧
    percent ∉ escape ∧ newline ∉ escape ∧ escape.getLast? ≠ some backslash := by
  decide

theorem pathEscaped_singleton (unit : UInt16) :
    unit ∉ pathEscapes.map Prod.fst ∧ pathEscaped [unit] = [unit] ∨
      unit ∈ pathEscapes.map Prod.fst ∧ pathEscaped [unit] ∈ pathEscapes.map Prod.snd := by
  by_cases h : unit ∈ pathEscapes.map Prod.fst
  · have hescaped : ∀ unit ∈ pathEscapes.map Prod.fst,
        pathEscaped [unit] ∈ pathEscapes.map Prod.snd := List.all_iff_forall_prop.mp (by decide)
    exact Or.inr ⟨h, hescaped unit h⟩
  · refine Or.inl ⟨h, ?_⟩
    simp only [pathEscapes, List.map, List.mem_cons, List.not_mem_nil, or_false, not_or] at h
    simp [pathEscaped, pathEscapes, replaceAll, h]

theorem length_pathEscaped (text : JsText) : text.length ≤ (pathEscaped text).length := by
  induction text with
  | nil => exact Nat.zero_le _
  | cons unit rest ih =>
    rw [← List.singleton_append, pathEscaped_append, List.length_append, List.length_append]
    obtain ⟨-, hunit⟩ | ⟨-, hunit⟩ := pathEscaped_singleton unit
    · rw [hunit]
      omega
    · rw [(pathEscapes_spec _ hunit).1, List.length_singleton]
      omega

theorem pathEscaped_eq_iff {text : JsText} :
    pathEscaped text = text ↔ ∀ unit ∈ text, unit ∉ pathEscapes.map Prod.fst := by
  induction text with
  | nil => exact iff_of_true rfl nofun
  | cons unit rest ih =>
    rw [← List.singleton_append, pathEscaped_append, List.singleton_append,
      List.forall_mem_cons, ← ih]
    obtain ⟨hplain, hunit⟩ | ⟨hescaped, hunit⟩ := pathEscaped_singleton unit
    · rw [hunit]
      simp [hplain]
    · refine iff_of_false (fun h => ?_) fun h => h.1 hescaped
      have hlength := congrArg List.length h
      have := length_pathEscaped rest
      have := (pathEscapes_spec _ hunit).1
      simp only [List.length_append, List.length_cons] at hlength
      omega

theorem expandSpecifiers_pathEscaped (specifier : UInt16 → JsText) (value : JsText) :
    expandSpecifiers specifier (pathEscaped (doubled value)) = pathEscaped value := by
  induction value with
  | nil => rfl
  | cons unit rest ih =>
    rw [← List.singleton_append, pathEscaped_append, doubled, replaceAll_append,
      pathEscaped_append, ← doubled, ← doubled]
    by_cases hunit : unit = percent
    · subst hunit
      exact congrArg (percent :: ·) ih
    · have hsame : doubled [unit] = [unit] := by simp [doubled, replaceAll, hunit]
      rw [hsame, expandSpecifiers_append specifier, ih]
      obtain ⟨-, hplain⟩ | ⟨-, hescaped⟩ := pathEscaped_singleton unit
      · rw [hplain]
        exact fun h => hunit (List.mem_singleton.mp h).symm
      · exact (pathEscapes_spec _ hescaped).2.1

theorem whole_pathEscaped {text : JsText} (h : newline ∉ text) : Whole (pathEscaped text) := by
  induction text with
  | nil => exact ⟨List.not_mem_nil, by simp [pathEscaped, pathEscapes, replaceAll]⟩
  | cons unit rest ih =>
    obtain ⟨hunit, hrest⟩ := List.ne_and_not_mem_of_not_mem_cons h
    have hwhole : Whole (pathEscaped [unit]) := by
      obtain ⟨hplain, heq⟩ | ⟨-, hescaped⟩ := pathEscaped_singleton unit
      · rw [heq]
        refine ⟨fun hmem => hunit (List.mem_singleton.mp hmem), fun hlast => hplain ?_⟩
        obtain rfl : unit = backslash := Option.some.inj hlast
        decide
      · exact (pathEscapes_spec _ hescaped).2.2
    rw [← List.singleton_append, pathEscaped_append]
    by_cases hempty : pathEscaped rest = []
    · rwa [hempty, List.append_nil]
    · exact whole_append _ hwhole.1 hempty (ih hrest)

section Faithful

variable {record : ServiceReleaseRecord} {stateRoot unit : JsText}

section Lines

variable {command directory nodeEnv path : JsText}

theorem whole_unitLines (hcommand : Whole command) (hdirectory : Whole directory)
    (hnodeEnv : Whole nodeEnv) (hpath : Whole path) :
    ∀ line ∈ unitLines command directory nodeEnv path, Whole line := by
  have hline : ∀ name ∈ ["ExecStart=", "WorkingDirectory=", "Environment="].map asciiUnits,
      ∀ value, Whole value → Whole (name ++ value) := by
    intro name hname value hvalue
    have hfront : newline ∉ name ∧ name.getLast? ≠ some backslash := by
      revert name
      decide +kernel
    by_cases hne : value = []
    · rwa [hne, List.append_nil]
    · exact whole_append name hfront.1 hne hvalue
  have hfixed : ∀ line ∈ headLines ++ tailLines,
      newline ∉ line ∧ line.getLast? ≠ some backslash := by
    decide +kernel
  intro line hmem
  simp only [unitLines, List.mem_append, List.mem_cons, List.not_mem_nil, or_false] at hmem
  obtain (hhead | rfl | rfl | rfl | rfl) | htail := hmem
  · exact hfixed line (List.mem_append_left _ hhead)
  · exact hline _ (by simp) _ hcommand
  · exact hline _ (by simp) _ hdirectory
  · exact hline _ (by simp) _ hnodeEnv
  · exact hline _ (by simp) _ hpath
  · exact hfixed line (List.mem_append_right _ htail)

theorem valuesOf_command :
    valuesOf (directivesIn [] (unitLines command directory nodeEnv path)) "ExecStart" =
      [command] := rfl

theorem valuesOf_environment :
    valuesOf (directivesIn [] (unitLines command directory nodeEnv path)) "Environment" =
      [nodeEnv, path] := rfl

theorem valuesOf_directory :
    valuesOf (directivesIn [] (unitLines command directory nodeEnv path)) "WorkingDirectory" =
      [directory] := rfl

theorem headings_unitLines : (directivesIn [] (unitLines command directory nodeEnv path)).map
    (fun directive => (directive.heading, directive.name)) = unitDirectives := rfl

/-- The words, the entries and the directory of a unit whose lines are lines. -/
theorem readUnit_unitLines (environment : JsText → JsText) (specifier : UInt16 → JsText)
    (args : List JsText) (root value : JsText)
    (hlines : ∀ line ∈ unitLines ([32].intercalate (args.map quoted)) (pathEscaped (doubled root))
      (quoted (asciiUnits "NODE_ENV=production")) (quoted (asciiUnits "PATH=" ++ value)),
        Whole line) :
    readUnit environment specifier ([newline].intercalate (unitLines
        ([32].intercalate (args.map quoted)) (pathEscaped (doubled root))
        (quoted (asciiUnits "NODE_ENV=production")) (quoted (asciiUnits "PATH=" ++ value)))) =
      ⟨unitDirectives, some (args.map (expand environment 0)),
        some [asciiUnits "NODE_ENV=production", asciiUnits "PATH=" ++ value],
        some (value.splitOn 58), some (pathEscaped root)⟩ := by
  have hquoted (value : JsText) : words none none (quoted value) = some [doubled value] := by
    simpa using words_intercalate [value]
  rw [readUnit, List.splitOn_intercalate newline (fun line hline => (hlines line hline).1)
    (by simp [unitLines, headLines]), continued_eq fun line hline => (hlines line hline).2]
  simp only [valuesOf_command, valuesOf_environment, valuesOf_directory, headings_unitLines,
    words_intercalate, List.mapM_cons, List.mapM_nil, hquoted, List.getLast?_singleton,
    Option.map_some, expandSpecifiers_pathEscaped, List.map_map, Function.comp_def,
    expandSpecifiers_doubled, List.map_cons, List.map_nil]
  rfl

end Lines

/-- The unit, read: its lines, sections and words are the ones that are meant. -/
theorem readUnit_render (h : renderKodegptUserUnit record stateRoot = .ok unit)
    (environment : JsText → JsText) (specifier : UInt16 → JsText) :
    readUnit environment specifier unit =
      { intended record stateRoot with
        execStart := some ((execArgs record stateRoot).map (expand environment 0))
        path := some ((pathValue record).splitOn 58)
        workingDirectory := some (pathEscaped record.releaseRoot) } := by
  obtain ⟨args, hargs, h⟩ := bind_eq_ok_iff.mp h
  obtain ⟨directory, hdirectory, h⟩ := bind_eq_ok_iff.mp h
  obtain ⟨nodeEnv, hnodeEnv, h⟩ := bind_eq_ok_iff.mp h
  obtain ⟨path, hpath, h⟩ := bind_eq_ok_iff.mp h
  obtain rfl := Except.ok.inj h
  obtain rfl := eq_map_of_mapM (fun value text hok => (systemdQuote_ok value text hok).1) hargs
  have hsafe := forall_of_mapM (fun value text hok => (systemdQuote_ok value text hok).2) hargs
  obtain ⟨rfl, hnode⟩ := systemdQuote_ok _ _ hnodeEnv
  obtain ⟨rfl, hentries⟩ := systemdQuote_ok _ _ hpath
  obtain ⟨hroot, rfl⟩ : newline ∉ record.releaseRoot ∧
      pathEscaped (doubled record.releaseRoot) = directory := by
    rw [systemdPathValue] at hdirectory
    split at hdirectory
    · cases hdirectory
    · rename_i hok
      exact ⟨fun hmem => hok (Or.inr (List.any_eq_true.mpr ⟨_, hmem, rfl⟩)),
        Except.ok.inj hdirectory⟩
  have hdirectory := whole_pathEscaped (not_mem_replaceAll (by decide) hroot : newline ∉ doubled _)
  have hcommand := whole_intercalate (List.cons_ne_nil _ _ : execArgs record stateRoot ≠ []) hsafe
  have hlines := whole_unitLines hcommand hdirectory (whole_quoted hnode) (whole_quoted hentries)
  exact readUnit_unitLines environment specifier (execArgs record stateRoot) record.releaseRoot
    (pathValue record) hlines

/-- A unit says what it is to say, for every environment, when no argument refers to a variable
or doubles a dollar sign, no entry of the path has a colon in it, and the root of the release
has nothing that is written as an escape. -/
theorem unit_exact_iff (h : renderKodegptUserUnit record stateRoot = .ok unit) :
    (∀ environment specifier, readUnit environment specifier unit = intended record stateRoot) ↔
      (∀ arg ∈ execArgs record stateRoot, isLiteral arg = true) ∧
        (∀ entry ∈ pathEntries record, 58 ∉ entry) ∧
          ∀ character ∈ record.releaseRoot, character ∉ pathEscapes.map Prod.fst := by
  simp only [readUnit_render h]
  constructor
  · intro hexact
    have hread := hexact (fun _ => []) fun _ => []
    have hargs := Option.some.inj (congrArg Reading.execStart hread)
    have hpath : (pathValue record).splitOn 58 = pathEntries record :=
      Option.some.inj (congrArg Reading.path hread)
    have hroot := Option.some.inj (congrArg Reading.workingDirectory hread)
    refine ⟨fun arg harg => isLiteral_of_expand ?_, ?_, pathEscaped_eq_iff.mp hroot⟩
    · exact List.map_inj_left.mp (hargs.trans (List.map_id _).symm) arg harg
    · rw [← hpath]
      exact notMem_splitOn 58 _
  · rintro ⟨hargs, hentries, hroot⟩ environment specifier
    have hexpand : (execArgs record stateRoot).map (expand environment 0) =
        execArgs record stateRoot :=
      (List.map_congr_left fun arg harg => expand_of_literal environment (hargs arg harg)).trans
        (List.map_id _)
    have hne : pathEntries record ≠ [] := by simp [pathEntries, List.eraseDups_cons]
    rw [hexpand, pathValue, List.splitOn_intercalate 58 hentries hne,
      pathEscaped_eq_iff.mpr hroot]
    rfl

end Faithful

def sampleRecord (reservedName : String) : ServiceReleaseRecord where
  releaseId := asciiUnits "rel_1"
  releaseRoot := asciiUnits "/releases/rel_1"
  cliPath := asciiUnits "/releases/rel_1/bin/kodegpt.mjs"
  nodePath := asciiUnits "/opt/node 24/bin/node"
  zrokPath := asciiUnits "/opt/zrok%dev/bin/zrok2"
  reservedName := asciiUnits reservedName
  port := 43121

theorem sampleUnit_exact : ∃ unit, ∀ environment specifier,
    readUnit environment specifier unit = intended (sampleRecord "public:dev") (asciiUnits "/s") :=
  ⟨_, (unit_exact_iff rfl).mpr ⟨by decide +kernel, by decide +kernel,
    List.all_iff_forall_prop.mp (by decide +kernel)⟩⟩

/-- A name with a dollar sign in it is not the one that the service is given. -/
theorem dollarUnit_not_exact : ¬∀ record stateRoot unit,
    renderKodegptUserUnit record stateRoot = .ok unit → ∀ environment specifier,
      readUnit environment specifier unit = intended record stateRoot := by
  intro h
  have hrendered : ∃ unit, renderKodegptUserUnit (sampleRecord "$dev") (asciiUnits "/s") =
      .ok unit := ⟨_, rfl⟩
  obtain ⟨unit, hunit⟩ := hrendered
  have hread := (readUnit_render hunit _ _).symm.trans (h _ _ _ hunit (fun _ => []) fun _ => [])
  have hargs := Option.some.inj (congrArg Reading.execStart hread)
  revert hargs
  decide +kernel

end KodeGpt.UserUnits
