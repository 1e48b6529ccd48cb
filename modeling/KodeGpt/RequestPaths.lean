import KodeGpt.CompiledRequests

/-!
The path of a compiled request, as the template and the values of its placeholders give it.
-/

namespace KodeGpt.RequestPaths

open FallibleActions JsFrames JsObjects NodePaths PercentTexts UrlReferences CompiledRequests

def textOf (parameters : Members) (name : JsText) : JsText :=
  match parameterValue parameters name with
  | some (.string value) => value
  | _ => []

/-- The segment is the template's: its own units stand there, and in the place of a
placeholder a text that is decoded to the value. -/
inductive Fits (parameters : Members) : List Piece → JsText → Prop
  | nil : Fits parameters [] []
  | unit {value : UInt16} {rest : List Piece} {segment : JsText}
      (h : Fits parameters rest segment) : Fits parameters (.unit value :: rest) (value :: segment)
  | parameter {name written : JsText} {rest : List Piece} {segment : JsText}
      (hvalue : decodedBytes written = pathBytes (textOf parameters name))
      (h : Fits parameters rest segment) :
      Fits parameters (.parameter name :: rest) (written ++ segment)

def templateSegments (template : JsText) : List (List Piece) :=
  (pieces template).splitOn (.unit slash)

def fill (parameters : Members) : Piece → JsText
  | .unit value => [value]
  | .parameter name => (encodeURIComponent (textOf parameters name)).getD []

def filled (parameters : Members) (pieces : List Piece) : JsText :=
  pieces.flatMap (fill parameters)

def partly (parameters : Members) (done : List JsText) : Piece → JsText
  | .unit value => [value]
  | .parameter name => if name ∈ done then fill parameters (.parameter name) else placeholder name

/-- No unit of the template is a brace. -/
def Braceless (pieces : List Piece) : Prop :=
  ∀ value, Piece.unit value ∈ pieces → value ≠ openBrace ∧ value ≠ closeBrace

theorem placeholderName_eq {text name : JsText} (h : placeholderName text = some name) :
    (∃ rest, text = placeholder name ++ rest) ∧ ∀ unit ∈ name, isKeyUnit unit = true := by
  cases text with
  | nil => exact nomatch h
  | cons first rest =>
    rw [placeholderName] at h
    split at h
    case isTrue hmatch =>
      obtain rfl := Option.some.inj h
      obtain ⟨rfl, -, hclose⟩ := hmatch
      refine ⟨?_, fun unit hunit => List.mem_takeWhile_imp hunit⟩
      have hdrop : rest.drop (rest.takeWhile isKeyUnit).length = rest.dropWhile isKeyUnit := by
        have hsplit := List.takeWhile_append_dropWhile (p := isKeyUnit) (l := rest)
        calc rest.drop (rest.takeWhile isKeyUnit).length
            = (rest.takeWhile isKeyUnit ++ rest.dropWhile isKeyUnit).drop
                (rest.takeWhile isKeyUnit).length := by rw [hsplit]
          _ = rest.dropWhile isKeyUnit := List.drop_left
      rw [hdrop] at hclose
      obtain ⟨later, hlater⟩ := List.head?_eq_some_iff.mp hclose
      refine ⟨later, ?_⟩
      show openBrace :: rest = openBrace :: (rest.takeWhile isKeyUnit ++ [closeBrace] ++ later)
      rw [List.append_assoc, List.singleton_append, ← hlater, List.takeWhile_append_dropWhile]
    case isFalse => exact nomatch h

theorem templatePieces_skip (front rest : JsText) :
    templatePieces front.length (front ++ rest) = templatePieces 0 rest := by
  induction front with
  | nil => rfl
  | cons first front ih => rw [List.length_cons, List.cons_append, templatePieces, ih]

theorem pieces_text (parameters : Members) (template : JsText) :
    (pieces template).flatMap (partly parameters []) = template ∧
      ∀ name, Piece.parameter name ∈ pieces template → ∀ unit ∈ name, isKeyUnit unit = true := by
  induction hlength : template.length using Nat.strong_induction_on generalizing template with
  | _ length ih =>
    subst hlength
    cases template with
    | nil => exact ⟨rfl, nofun⟩
    | cons first rest =>
      rw [pieces, templatePieces]
      cases hname : placeholderName (first :: rest) with
      | none =>
        obtain ⟨htext, hnames⟩ := ih rest.length (Nat.lt_succ_self _) rest rfl
        refine ⟨?_, ?_⟩
        · exact congrArg (first :: ·) htext
        · intro name hmem
          obtain hmem | hmem := List.mem_cons.mp hmem
          · cases hmem
          · exact hnames name hmem
      | some name =>
        obtain ⟨⟨later, hlater⟩, hunits⟩ := placeholderName_eq hname
        have hrest : rest = (name ++ [closeBrace]) ++ later := by
          rw [placeholder] at hlater
          exact (List.cons.inj hlater).2
        have hskip : templatePieces (name.length + 1) rest = pieces later := by
          have h := templatePieces_skip (name ++ [closeBrace]) later
          rw [List.length_append, List.length_singleton, ← hrest] at h
          exact h
        have hshort : later.length < (first :: rest).length := by
          rw [hrest, List.length_cons, List.length_append]
          omega
        obtain ⟨htext, hnames⟩ := ih later.length hshort later rfl
        dsimp only
        rw [hskip]
        refine ⟨?_, ?_⟩
        · rw [List.flatMap_cons, htext, hlater]
          rfl
        · intro other hmem
          obtain hmem | hmem := List.mem_cons.mp hmem
          · cases hmem
            exact hunits
          · exact hnames other hmem

theorem isKeyUnit_ne {unit : UInt16} (h : isKeyUnit unit = true) :
    unit ≠ openBrace ∧ unit ≠ closeBrace := by
  refine ⟨?_, ?_⟩
  · rintro rfl
    exact absurd h (by decide)
  · rintro rfl
    exact absurd h (by decide)

theorem encoded_ne {value encoded : JsText} (h : encodeURIComponent value = some encoded)
    {mark : UInt16} (hmark : isEncodedUnit isUriPlain mark = false) : mark ∉ encoded := by
  obtain ⟨text, -, rfl⟩ := Option.map_eq_some_iff.mp h
  intro hmem
  rw [mem_percentEncode plainSet_uri hmem] at hmark
  exact Bool.false_ne_true hmark.symm

theorem fill_ne (parameters : Members) (name : JsText) {mark : UInt16}
    (hmark : isEncodedUnit isUriPlain mark = false) : mark ∉ fill parameters (.parameter name) := by
  rw [fill]
  cases h : encodeURIComponent (textOf parameters name) with
  | none => exact List.not_mem_nil
  | some encoded => exact encoded_ne h hmark

theorem replaceAll_skip (pattern replacement front rest : JsText) :
    replaceAll pattern replacement front.length (front ++ rest) =
      replaceAll pattern replacement 0 rest := by
  induction front with
  | nil => rfl
  | cons first front ih => rw [List.length_cons, List.cons_append, replaceAll, ih]

theorem replaceAll_front {name replacement front : JsText} (hfront : openBrace ∉ front)
    (rest : JsText) :
    replaceAll (placeholder name) replacement 0 (front ++ rest) =
      front ++ replaceAll (placeholder name) replacement 0 rest := by
  induction front with
  | nil => rfl
  | cons first front ih =>
    have hfirst : openBrace ≠ first := fun h => hfront (h ▸ List.mem_cons_self)
    have hprefix : (placeholder name).isPrefixOf (first :: (front ++ rest)) = false := by
      rw [placeholder, List.cons_append, List.isPrefixOf, beq_false_of_ne hfirst]
      rfl
    rw [List.cons_append, List.cons_append, replaceAll, hprefix, if_neg Bool.false_ne_true,
      ih fun h => hfront (List.mem_cons_of_mem _ h)]

theorem replaceAll_placeholder (name replacement rest : JsText) :
    replaceAll (placeholder name) replacement 0 (placeholder name ++ rest) =
      replacement ++ replaceAll (placeholder name) replacement 0 rest := by
  have hprefix : (placeholder name).isPrefixOf (placeholder name ++ rest) = true :=
    List.isPrefixOf_iff_prefix.mpr (List.prefix_append _ _)
  have hcons : placeholder name = openBrace :: (name ++ [closeBrace]) := rfl
  have hlength : (placeholder name).length - 1 = (name ++ [closeBrace]).length := by
    rw [hcons, List.length_cons]
    rfl
  have hskip := replaceAll_skip (placeholder name) replacement (name ++ [closeBrace]) rest
  conv_lhs =>
    rw [hcons, List.cons_append, replaceAll, ← hcons]
  have hprefix' : (placeholder name).isPrefixOf (openBrace :: (name ++ [closeBrace] ++ rest)) =
      true := hprefix
  rw [if_pos hprefix', hlength, hskip]

theorem placeholder_injective {name other rest : JsText} (hname : closeBrace ∉ name)
    (hother : closeBrace ∉ other)
    (h : (placeholder name).isPrefixOf (placeholder other ++ rest) = true) : name = other := by
  obtain ⟨later, hlater⟩ := List.isPrefixOf_iff_prefix.mp h
  rw [placeholder, placeholder] at hlater
  have htail : name ++ ([closeBrace] ++ later) = other ++ ([closeBrace] ++ rest) := by
    simpa using hlater
  have htake : ∀ (front back : JsText), closeBrace ∉ front →
      (front ++ ([closeBrace] ++ back)).takeWhile (· ≠ closeBrace) = front := by
    intro front back hfront
    have hpasses : ∀ unit ∈ front, decide (unit ≠ closeBrace) = true := by
      intro unit hunit
      exact decide_eq_true fun heq => hfront (heq ▸ hunit)
    rw [List.takeWhile_append_of_pos hpasses, List.singleton_append,
      List.takeWhile_cons_of_neg (by simp), List.append_nil]
  rw [← htake name later hname, htail]
  exact htake other rest hother

theorem replaceAll_other {name other replacement : JsText} (hne : name ≠ other)
    (hname : closeBrace ∉ name) (hother : closeBrace ∉ other) (hopen : openBrace ∉ other)
    (rest : JsText) :
    replaceAll (placeholder name) replacement 0 (placeholder other ++ rest) =
      placeholder other ++ replaceAll (placeholder name) replacement 0 rest := by
  have hprefix : (placeholder name).isPrefixOf (placeholder other ++ rest) = false := by
    rw [Bool.eq_false_iff]
    exact fun h => hne (placeholder_injective hname hother h)
  have hcons : placeholder other = openBrace :: (other ++ [closeBrace]) := rfl
  have hback : openBrace ∉ other ++ [closeBrace] := by
    rw [List.mem_append, List.mem_singleton]
    rintro (h | h)
    · exact hopen h
    · exact absurd h (by decide)
  rw [hcons, List.cons_append] at hprefix
  rw [hcons, List.cons_append, replaceAll, hprefix, if_neg Bool.false_ne_true,
    replaceAll_front hback, List.cons_append]

theorem replaceAll_partly {parameters : Members} {done : List JsText} {name : JsText}
    {pieces : List Piece} (hpieces : Braceless pieces)
    (hnames : ∀ other, Piece.parameter other ∈ pieces → ∀ unit ∈ other, isKeyUnit unit = true)
    (hname : closeBrace ∉ name) :
    replaceAll (placeholder name) (fill parameters (.parameter name)) 0
        (pieces.flatMap (partly parameters done)) =
      pieces.flatMap (partly parameters (name :: done)) := by
  induction pieces with
  | nil => rfl
  | cons piece rest ih =>
    have hrest := ih (fun value hvalue => hpieces value (List.mem_cons_of_mem _ hvalue))
      fun other hother => hnames other (List.mem_cons_of_mem _ hother)
    rw [List.flatMap_cons, List.flatMap_cons, ← hrest]
    cases piece with
    | unit value =>
      refine replaceAll_front (fun h => ?_) _
      exact (hpieces value List.mem_cons_self).1 (List.mem_singleton.mp h).symm
    | parameter other =>
      have hother := hnames other List.mem_cons_self
      have hopen : openBrace ∉ other := fun h => (isKeyUnit_ne (hother _ h)).1 rfl
      have hclose : closeBrace ∉ other := fun h => (isKeyUnit_ne (hother _ h)).2 rfl
      by_cases hdone : other ∈ done
      · have hlater : other ∈ name :: done := List.mem_cons_of_mem _ hdone
        rw [partly, if_pos hdone, partly, if_pos hlater]
        exact replaceAll_front (fill_ne parameters other (by decide)) _
      · rw [partly, if_neg hdone]
        by_cases heq : other = name
        · subst heq
          rw [partly, if_pos List.mem_cons_self]
          exact replaceAll_placeholder _ _ _
        · have hnot : other ∉ name :: done := by
            rw [List.mem_cons]
            rintro (h | h)
            · exact heq h
            · exact hdone h
          rw [partly, if_neg hnot]
          exact replaceAll_other (Ne.symm heq) hname hclose hopen _

/-- The placeholder has a value, which has an encoding. -/
def HasText (parameters : Members) (name : JsText) : Prop :=
  ∃ value encoded, parameterValue parameters name = some (.string value) ∧
    isSafeParameter value = true ∧ encodeURIComponent value = some encoded

theorem HasText.fill {parameters : Members} {name : JsText} (h : HasText parameters name) :
    encodeURIComponent (textOf parameters name) = some (fill parameters (.parameter name)) := by
  obtain ⟨value, encoded, hvalue, -, hencoded⟩ := h
  have htext : textOf parameters name = value := by rw [textOf, hvalue]
  rw [RequestPaths.fill, htext, hencoded]
  rfl

theorem substituteParameter_ok {parameters : Members} {output name replaced : JsText}
    (h : substituteParameter parameters output name = .ok replaced) :
    HasText parameters name ∧
      replaced = replaceAll (placeholder name) (fill parameters (.parameter name)) 0 output := by
  rw [substituteParameter] at h
  split at h
  · cases h
  · rename_i value hvalue
    split at h
    · cases h
    · rename_i hsafe
      split at h
      · cases h
      · rename_i encoded hencoded
        have hhas : HasText parameters name :=
          ⟨value, encoded, hvalue, by simpa using hsafe, hencoded⟩
        refine ⟨hhas, ?_⟩
        have hfill : fill parameters (.parameter name) = encoded := by
          have htext := hhas.fill
          rw [textOf, hvalue] at htext
          exact Option.some.inj (htext.symm.trans hencoded)
        rw [hfill]
        exact (Except.ok.inj h).symm
  · cases h

theorem foldlM_substituteParameter {parameters : Members} {names : List JsText}
    {output replaced : JsText}
    (h : names.foldlM (substituteParameter parameters) output = .ok replaced) :
    ∀ name ∈ names, HasText parameters name := by
  induction names generalizing output with
  | nil => exact nofun
  | cons name rest ih =>
    rw [List.foldlM_cons] at h
    obtain ⟨middle, hmiddle, hrest⟩ := bind_eq_ok_iff.mp h
    exact List.forall_mem_cons.mpr ⟨(substituteParameter_ok hmiddle).1, ih hrest⟩

theorem foldlM_partly {parameters : Members} {pieces : List Piece} (hpieces : Braceless pieces)
    (hnames : ∀ other, Piece.parameter other ∈ pieces → ∀ unit ∈ other, isKeyUnit unit = true)
    {names done : List JsText} {replaced : JsText} (hclose : ∀ name ∈ names, closeBrace ∉ name)
    (h : names.foldlM (substituteParameter parameters) (pieces.flatMap (partly parameters done)) =
      .ok replaced) :
    ∃ all, (∀ name, name ∈ all ↔ name ∈ names ∨ name ∈ done) ∧
      replaced = pieces.flatMap (partly parameters all) := by
  induction names generalizing done with
  | nil => exact ⟨done, fun name => by simp, (Except.ok.inj h).symm⟩
  | cons name rest ih =>
    obtain ⟨hname, hrest⟩ := List.forall_mem_cons.mp hclose
    rw [List.foldlM_cons] at h
    obtain ⟨middle, hmiddle, hlater⟩ := bind_eq_ok_iff.mp h
    rw [(substituteParameter_ok hmiddle).2, replaceAll_partly hpieces hnames hname] at hlater
    obtain ⟨all, hall, hreplaced⟩ := ih hrest hlater
    refine ⟨all, fun other => ?_, hreplaced⟩
    rw [hall, List.mem_cons, List.mem_cons]
    constructor
    · rintro (h | h | h)
      · exact .inl (.inr h)
      · exact .inl (.inl h)
      · exact .inr h
    · rintro ((h | h) | h)
      · exact .inr (.inl h)
      · exact .inl h
      · exact .inr (.inr h)

end KodeGpt.RequestPaths
