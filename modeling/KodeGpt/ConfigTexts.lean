import KodeGpt.GitConfigs

/-!
The text of a Git configuration: sections, each with a name and keys with values, read
byte by byte.
-/

namespace KodeGpt.ConfigTexts

open JsonText (Bytes)
open GitConfigs (Config dot)

def newline : UInt8 := 10

def carriageReturn : UInt8 := 13

def space : UInt8 := 32

def quotationMark : UInt8 := 34

def backslash : UInt8 := 92

def isSpace (byte : UInt8) : Bool := byte = 9 || byte = 10 || byte = 13 || byte = 32

def isLetter (byte : UInt8) : Bool := (65 ≤ byte && byte ≤ 90) || (97 ≤ byte && byte ≤ 122)

def isKeyByte (byte : UInt8) : Bool := isLetter byte || (48 ≤ byte && byte ≤ 57) || byte = 45

def lower (byte : UInt8) : UInt8 := if 65 ≤ byte ∧ byte ≤ 90 then byte + 32 else byte

def beginsComment (byte : UInt8) : Bool := byte = 35 || byte = 59

/-- A section; the letters of a subsection keep their case. -/
structure Part where
  name : Bytes
  subsection : Option Bytes
  entries : List (Bytes × Option Bytes)
  deriving DecidableEq

def Part.config (part : Part) : Config :=
  part.entries.map fun entry =>
    ⟨part.name ++ dot :: (part.subsection.elim [] fun subsection => subsection ++ [dot]) ++ entry.1,
      entry.2⟩

/-- Where the reader is. The spaces behind a value count only if something follows them. -/
inductive Mode where
  | between
  | comment
  | name (name : Bytes)
  | gap (name : Bytes)
  | subsection (name subsection : Bytes)
  | subsectionEscape (name subsection : Bytes)
  | closing (name subsection : Bytes)
  | key (key : Bytes)
  | keyEnd (key : Bytes)
  | value (key value spaces : Bytes) (quoted : Bool)
  | valueEscape (key value : Bytes) (quoted : Bool)
  | valueComment (key value : Bytes)
  deriving DecidableEq

/-- The sections so far, the latest first. -/
abbrev State := List Part × Mode

def addEntry (parts : List Part) (key : Bytes) (value : Option Bytes) : Option State :=
  match parts with
  | [] => none
  | part :: earlier =>
    some ({ part with entries := part.entries ++ [(key, value)] } :: earlier, .between)

def afterKey (parts : List Part) (key : Bytes) (byte : UInt8) : Option State :=
  if byte = newline then addEntry parts key none
  else if byte = space ∨ byte = 9 then some (parts, .keyEnd key)
  else if byte = 61 then some (parts, .value key [] [] false)
  else none

def escapedByte (byte : UInt8) : Option UInt8 :=
  if byte = 116 then some 9
  else if byte = 98 then some 8
  else if byte = 110 then some newline
  else if byte = backslash ∨ byte = quotationMark then some byte
  else none

def step : State → UInt8 → Option State
  | (parts, .between), byte =>
    if isSpace byte then some (parts, .between)
    else if beginsComment byte then some (parts, .comment)
    else if byte = 91 then some (parts, .name [])
    else if isLetter byte then some (parts, .key [lower byte])
    else none
  | (parts, .comment), byte => some (parts, if byte = newline then .between else .comment)
  | (parts, .name name), byte =>
    if byte = 93 then some (⟨name, none, []⟩ :: parts, .between)
    else if byte = newline then none
    else if isSpace byte then some (parts, .gap name)
    else if isKeyByte byte ∨ byte = dot then some (parts, .name (name ++ [lower byte]))
    else none
  | (parts, .gap name), byte =>
    if byte = newline then none
    else if isSpace byte then some (parts, .gap name)
    else if byte = quotationMark then some (parts, .subsection name [])
    else none
  | (parts, .subsection name subsection), byte =>
    if byte = newline then none
    else if byte = quotationMark then some (parts, .closing name subsection)
    else if byte = backslash then some (parts, .subsectionEscape name subsection)
    else some (parts, .subsection name (subsection ++ [byte]))
  | (parts, .subsectionEscape name subsection), byte =>
    if byte = newline then none else some (parts, .subsection name (subsection ++ [byte]))
  | (parts, .closing name subsection), byte =>
    if byte = 93 then some (⟨name, some subsection, []⟩ :: parts, .between) else none
  | (parts, .key key), byte =>
    if isKeyByte byte then some (parts, .key (key ++ [lower byte])) else afterKey parts key byte
  | (parts, .keyEnd key), byte => afterKey parts key byte
  | (parts, .value key value spaces quoted), byte =>
    if byte = newline then if quoted then none else addEntry parts key (some value)
    else if isSpace byte ∧ quoted = false then
      some (parts, .value key value (if value = [] then [] else spaces ++ [byte]) false)
    else if beginsComment byte ∧ quoted = false then some (parts, .valueComment key value)
    else if byte = backslash then some (parts, .valueEscape key (value ++ spaces) quoted)
    else if byte = quotationMark then some (parts, .value key (value ++ spaces) [] !quoted)
    else some (parts, .value key (value ++ spaces ++ [byte]) [] quoted)
  | (parts, .valueEscape key value quoted), byte =>
    if byte = newline then some (parts, .value key value [] quoted)
    else (escapedByte byte).map fun escaped => (parts, .value key (value ++ [escaped]) [] quoted)
  | (parts, .valueComment key value), byte =>
    if byte = newline then addEntry parts key (some value)
    else some (parts, .valueComment key value)

def run (state : State) (text : Bytes) : Option State := text.foldlM step state

def normalizeLineEnds : Bytes → Bytes
  | [] => []
  | byte :: rest =>
    if byte = carriageReturn ∧ rest.head? = some newline then normalizeLineEnds rest
    else byte :: normalizeLineEnds rest

def readParts (text : Bytes) : Option (List Part) :=
  match run ([], .between) (normalizeLineEnds text ++ [newline, newline]) with
  | some (parts, .between) => some parts.reverse
  | _ => none

def readConfig (text : Bytes) : Option Config :=
  (readParts text).map fun parts => parts.flatMap Part.config

theorem run_cons (state : State) (byte : UInt8) (text : Bytes) :
    run state (byte :: text) = (step state byte).bind fun next => run next text :=
  rfl

theorem run_append (state : State) (front back : Bytes) :
    run state (front ++ back) = (run state front).bind fun next => run next back :=
  List.foldlM_append

theorem run_of_append {state middle : State} {front : Bytes}
    (hfront : run state front = some middle) (back : Bytes) :
    run state (front ++ back) = run middle back := by
  rw [run_append, hfront]
  rfl

theorem run_of_step {state next : State} {byte : UInt8} (hstep : step state byte = some next)
    (text : Bytes) : run state (byte :: text) = run next text := by
  rw [run_cons, hstep]
  rfl

theorem normalizeLineEnds_eq {text : Bytes} (htext : carriageReturn ∉ text) :
    normalizeLineEnds text = text := by
  induction text with
  | nil => rfl
  | cons byte rest ih =>
    have hbyte : byte ≠ carriageReturn := fun heq => htext (heq ▸ List.mem_cons_self)
    rw [normalizeLineEnds, if_neg fun h => hbyte h.1,
      ih fun hmem => htext (List.mem_cons_of_mem _ hmem)]

def isNamePlain (byte : UInt8) : Bool :=
  byte ≠ newline && byte ≠ quotationMark && byte ≠ backslash

def isValuePlain (byte : UInt8) : Bool :=
  !isSpace byte && !beginsComment byte && byte ≠ quotationMark && byte ≠ backslash

theorem isKeyByte_not_space {byte : UInt8} (hbyte : isKeyByte byte = true) :
    isSpace byte = false ∧ byte ≠ newline ∧ byte ≠ 93 := by
  refine ⟨Bool.eq_false_iff.mpr fun hspace => ?_, ?_, ?_⟩
  · simp only [isSpace, Bool.or_eq_true, decide_eq_true_eq] at hspace
    obtain ((rfl | rfl) | rfl) | rfl := hspace
    · cases hbyte
    · cases hbyte
    · cases hbyte
    · cases hbyte
  · rintro rfl
    cases hbyte
  · rintro rfl
    cases hbyte

variable {parts : List Part}

theorem run_name (name : Bytes) {word : Bytes} (hword : ∀ byte ∈ word, isKeyByte byte = true) :
    run (parts, .name name) word = some (parts, .name (name ++ word.map lower)) := by
  induction word generalizing name with
  | nil => rw [List.map_nil, List.append_nil]; rfl
  | cons byte rest ih =>
    obtain ⟨hbyte, hrest⟩ := List.forall_mem_cons.mp hword
    obtain ⟨hspace, hline, hclose⟩ := isKeyByte_not_space hbyte
    have hstep : step (parts, .name name) byte = some (parts, .name (name ++ [lower byte])) := by
      rw [step, if_neg hclose, if_neg hline, hspace, if_neg Bool.false_ne_true,
        if_pos (Or.inl hbyte)]
    rw [run_of_step hstep, ih _ hrest, List.append_assoc]
    rfl

theorem run_subsection (name subsection : Bytes) {text : Bytes}
    (htext : ∀ byte ∈ text, isNamePlain byte = true) :
    run (parts, .subsection name subsection) text =
      some (parts, .subsection name (subsection ++ text)) := by
  induction text generalizing subsection with
  | nil => rw [List.append_nil]; rfl
  | cons byte rest ih =>
    obtain ⟨hbyte, hrest⟩ := List.forall_mem_cons.mp htext
    simp only [isNamePlain, Bool.and_eq_true, decide_eq_true_eq] at hbyte
    have hstep : step (parts, .subsection name subsection) byte =
        some (parts, .subsection name (subsection ++ [byte])) := by
      rw [step, if_neg hbyte.1.1, if_neg hbyte.1.2, if_neg hbyte.2]
    rw [run_of_step hstep, ih _ hrest, List.append_assoc]
    rfl

theorem run_key (key : Bytes) {word : Bytes} (hword : ∀ byte ∈ word, isKeyByte byte = true) :
    run (parts, .key key) word = some (parts, .key (key ++ word.map lower)) := by
  induction word generalizing key with
  | nil => rw [List.map_nil, List.append_nil]; rfl
  | cons byte rest ih =>
    obtain ⟨hbyte, hrest⟩ := List.forall_mem_cons.mp hword
    have hstep : step (parts, .key key) byte = some (parts, .key (key ++ [lower byte])) := by
      rw [step, if_pos hbyte]
    rw [run_of_step hstep, ih _ hrest, List.append_assoc]
    rfl

theorem step_value {byte : UInt8} (hbyte : isValuePlain byte = true) (key value spaces : Bytes) :
    step (parts, .value key value spaces false) byte =
      some (parts, .value key (value ++ spaces ++ [byte]) [] false) := by
  simp only [isValuePlain, Bool.and_eq_true, Bool.not_eq_true', decide_eq_true_eq] at hbyte
  obtain ⟨⟨⟨hspace, hcomment⟩, hquote⟩, hbackslash⟩ := hbyte
  have hline : byte ≠ newline := by
    rintro rfl
    cases hspace
  rw [step, if_neg hline, hspace, if_neg fun h => Bool.false_ne_true h.1, hcomment,
    if_neg fun h => Bool.false_ne_true h.1, if_neg hbackslash, if_neg hquote]

theorem run_value_word (key value spaces : Bytes) {word : Bytes} (hne : word ≠ [])
    (hword : ∀ byte ∈ word, isValuePlain byte = true) :
    run (parts, .value key value spaces false) word =
      some (parts, .value key (value ++ spaces ++ word) [] false) := by
  induction word generalizing value spaces with
  | nil => exact absurd rfl hne
  | cons byte rest ih =>
    obtain ⟨hbyte, hrest⟩ := List.forall_mem_cons.mp hword
    rw [run_of_step (step_value hbyte key value spaces)]
    by_cases hend : rest = []
    · rw [hend]
      rfl
    · rw [ih _ [] hend hrest, List.append_nil, List.append_assoc]
      rfl

/-- A word of a value, which stands for itself. -/
def IsWord (word : Bytes) : Prop := word ≠ [] ∧ ∀ byte ∈ word, isValuePlain byte = true

def lineText (key : Bytes) (words : List Bytes) : Bytes :=
  9 :: (key ++ [space, 61] ++ words.flatMap (space :: ·) ++ [newline])

theorem run_words (key value : Bytes) (hvalue : value ≠ []) {words : List Bytes}
    (hwords : ∀ word ∈ words, IsWord word) :
    run (parts, .value key value [] false) (words.flatMap (space :: ·)) =
      some (parts, .value key (value ++ words.flatMap (space :: ·)) [] false) := by
  induction words generalizing value with
  | nil => rw [List.flatMap_nil, List.append_nil]; rfl
  | cons word rest ih =>
    obtain ⟨⟨hne, hword⟩, hrest⟩ := List.forall_mem_cons.mp hwords
    have hstep : step (parts, .value key value [] false) space =
        some (parts, .value key value [space] false) := by
      rw [step, if_neg (by decide), if_pos (by decide), if_neg hvalue]
      rfl
    rw [List.flatMap_cons, List.cons_append, run_of_step hstep,
      run_of_append (run_value_word key value [space] hne hword), ih _ ?_ hrest]
    · rw [List.append_assoc, List.append_assoc]
      rfl
    · exact List.append_ne_nil_of_right_ne_nil _ hne

theorem run_value (key : Bytes) {words : List Bytes} (hwords : ∀ word ∈ words, IsWord word) :
    run (parts, .value key [] [] false) (words.flatMap (space :: ·)) =
      some (parts, .value key ([space].intercalate words) [] false) := by
  cases words with
  | nil => rfl
  | cons word rest =>
    obtain ⟨⟨hne, hword⟩, hrest⟩ := List.forall_mem_cons.mp hwords
    have hstep : step (parts, .value key [] [] false) space =
        some (parts, .value key [] [] false) := rfl
    have hjoin : [space].intercalate (word :: rest) = word ++ rest.flatMap (space :: ·) := by
      clear hwords hrest hword hne
      induction rest generalizing word with
      | nil => simp
      | cons next rest ih =>
        rw [List.intercalate_cons_cons, ih, List.flatMap_cons, List.append_assoc]
        rfl
    rw [List.flatMap_cons, List.cons_append, run_of_step hstep,
      run_of_append (run_value_word key [] [] hne hword), List.append_nil, List.nil_append,
      run_words key word hne hrest, hjoin]

theorem run_line (part : Part) {key : Bytes} (hkey : key.head?.any isLetter = true)
    (hbytes : ∀ byte ∈ key, isKeyByte byte = true) {words : List Bytes}
    (hwords : ∀ word ∈ words, IsWord word) :
    run (part :: parts, .between) (lineText key words) =
      some ({ part with entries :=
        part.entries ++ [(key.map lower, some ([space].intercalate words))] } :: parts,
        .between) := by
  cases key with
  | nil => cases hkey
  | cons first rest =>
    obtain ⟨hfirst, hrest⟩ := List.forall_mem_cons.mp hbytes
    have hspace := (isKeyByte_not_space hfirst).1
    have hbegin : step (part :: parts, .between) first =
        some (part :: parts, .key [lower first]) := by
      have hcomment : beginsComment first = false := by
        refine Bool.eq_false_iff.mpr fun hcomment => ?_
        simp only [beginsComment, Bool.or_eq_true, decide_eq_true_eq] at hcomment
        obtain rfl | rfl := hcomment
        · cases hfirst
        · cases hfirst
      have hbracket : first ≠ 91 := by
        rintro rfl
        cases hfirst
      have hletter : isLetter first = true := hkey
      rw [step, hspace, if_neg Bool.false_ne_true, hcomment, if_neg Bool.false_ne_true,
        if_neg hbracket, if_pos hletter]
    have htab : step (part :: parts, .between) 9 = some (part :: parts, .between) := rfl
    have hblank : step (part :: parts, .key ((first :: rest).map lower)) space =
        some (part :: parts, .keyEnd ((first :: rest).map lower)) := rfl
    have hequals : step (part :: parts, .keyEnd ((first :: rest).map lower)) 61 =
        some (part :: parts, .value ((first :: rest).map lower) [] [] false) := rfl
    rw [lineText, run_of_step htab, List.append_assoc, List.append_assoc, List.cons_append,
      run_of_step hbegin, run_of_append (run_key _ hrest), List.cons_append, List.cons_append]
    change run (part :: parts, .key ((first :: rest).map lower)) _ = _
    rw [run_of_step hblank, List.cons_append, run_of_step hequals, List.nil_append,
      run_of_append (run_value _ hwords)]
    rfl

/-- A key that stands for itself, and the words of its value. -/
structure Line where
  key : Bytes
  words : List Bytes
  letter : key.head?.any isLetter = true
  plain : ∀ byte ∈ key, isKeyByte byte = true
  word : ∀ word ∈ words, IsWord word

def Line.text (line : Line) : Bytes := lineText line.key line.words

def Line.entry (line : Line) : Bytes × Option Bytes :=
  (line.key.map lower, some ([space].intercalate line.words))

def headerText (name subsection : Bytes) : Bytes :=
  91 :: (name ++ [space, quotationMark] ++ subsection ++ [quotationMark, 93, newline])

theorem run_header {name subsection : Bytes} (hname : ∀ byte ∈ name, isKeyByte byte = true)
    (hsubsection : ∀ byte ∈ subsection, isNamePlain byte = true) :
    run (parts, .between) (headerText name subsection) =
      some (⟨name.map lower, some subsection, []⟩ :: parts, .between) := by
  have hopen : step (parts, .between) 91 = some (parts, .name []) := rfl
  have hblank : step (parts, .name (name.map lower)) space =
      some (parts, .gap (name.map lower)) := rfl
  have hquote : step (parts, .gap (name.map lower)) quotationMark =
      some (parts, .subsection (name.map lower) []) := rfl
  rw [headerText, run_of_step hopen, List.append_assoc, List.append_assoc,
    run_of_append (run_name [] hname), List.nil_append, List.cons_append, List.cons_append,
    run_of_step hblank, run_of_step hquote, List.nil_append,
    run_of_append (run_subsection _ [] hsubsection), List.nil_append]
  rfl

theorem run_lines (part : Part) (lines : List Line) :
    run (part :: parts, .between) (lines.flatMap Line.text) =
      some ({ part with entries := part.entries ++ lines.map Line.entry } :: parts, .between) := by
  induction lines generalizing part with
  | nil => rw [List.map_nil, List.append_nil]; rfl
  | cons line rest ih =>
    rw [List.flatMap_cons, Line.text,
      run_of_append (run_line part line.letter line.plain line.word), ih, List.append_assoc]
    rfl

theorem carriageReturn_notMem_lines (lines : List Line) :
    carriageReturn ∉ lines.flatMap Line.text := by
  intro hmem
  obtain ⟨line, -, hmem⟩ := List.mem_flatMap.mp hmem
  have hkey : carriageReturn ∉ line.key := fun hmem => nomatch line.plain _ hmem
  have hwords : carriageReturn ∉ line.words.flatMap (space :: ·) := by
    intro hmem
    obtain ⟨word, hword, hmem⟩ := List.mem_flatMap.mp hmem
    obtain heq | hmem := List.mem_cons.mp hmem
    · cases heq
    · cases (line.word word hword).2 _ hmem
  simp only [Line.text, lineText, List.mem_cons, List.mem_append, hkey, hwords, false_or,
    List.not_mem_nil, or_false] at hmem
  obtain hmem | (hmem | hmem) | hmem := hmem
  · cases hmem
  · cases hmem
  · cases hmem
  · cases hmem

theorem readParts_render {name subsection : Bytes} (hname : ∀ byte ∈ name, isKeyByte byte = true)
    (hsubsection : ∀ byte ∈ subsection, isNamePlain byte = true)
    (hreturn : carriageReturn ∉ subsection) (lines : List Line) :
    readParts (headerText name subsection ++ lines.flatMap Line.text) =
      some [⟨name.map lower, some subsection, lines.map Line.entry⟩] := by
  have hheader : carriageReturn ∉ headerText name subsection := by
    have hnone : carriageReturn ∉ name := fun hmem => nomatch hname _ hmem
    simp only [headerText, List.mem_cons, List.mem_append, hnone, hreturn, List.not_mem_nil,
      false_or, or_false]
    decide
  have hnormal := normalizeLineEnds_eq fun hmem =>
    (List.mem_append.mp hmem).elim hheader (carriageReturn_notMem_lines lines)
  rw [readParts, hnormal, List.append_assoc, run_of_append (run_header hname hsubsection),
    run_of_append (run_lines _ lines)]
  rfl

end KodeGpt.ConfigTexts
