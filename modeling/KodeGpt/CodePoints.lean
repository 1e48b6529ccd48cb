import KodeGpt.JsonSizes

/-!
The characters of a string, each as its one or two code units: a part of the
characters is the characters of its text, and lengths add up over them.
-/

namespace KodeGpt.CodePoints

open JsFrames JsObjects JsonDocuments
open JsonSizes (escapedLength escapedLength_pair escapedLength_unit escapedLength_last)

/-- The pieces are the characters of the text that they make up. -/
def AreCodePoints (pieces : List JsText) : Prop := codePoints pieces.flatten = pieces

theorem codePoints_areCodePoints (text : JsText) : AreCodePoints (codePoints text) := by
  rw [AreCodePoints, codePoints_flatten]

theorem codePoints_pair {high low : UInt16} (hpair : IsHighSurrogate high ∧ IsLowSurrogate low)
    (rest : JsText) : codePoints (high :: low :: rest) = [high, low] :: codePoints rest := by
  rw [codePoints, if_pos hpair]

theorem codePoints_unit {high low : UInt16} (hpair : ¬ (IsHighSurrogate high ∧ IsLowSurrogate low))
    (rest : JsText) : codePoints (high :: low :: rest) = [high] :: codePoints (low :: rest) := by
  rw [codePoints, if_neg hpair]

theorem codePoints_head (code : UInt16) (rest : JsText) :
    ∃ tail pieces, codePoints (code :: rest) = (code :: tail) :: pieces := by
  cases rest with
  | nil => exact ⟨[], [], rfl⟩
  | cons low rest =>
    by_cases hpair : IsHighSurrogate code ∧ IsLowSurrogate low
    · exact ⟨_, _, codePoints_pair hpair rest⟩
    · exact ⟨_, _, codePoints_unit hpair rest⟩

theorem take_areCodePoints (text : JsText) (count : Nat) :
    AreCodePoints ((codePoints text).take count) := by
  unfold AreCodePoints
  induction text using units_induction generalizing count with
  | nil => rw [codePoints, List.take_nil]; rfl
  | last code =>
    cases count with
    | zero => rfl
    | succ count => simp [codePoints]
  | pair high low rest hpair ih =>
    cases count with
    | zero => rfl
    | succ count =>
      rw [codePoints_pair hpair, List.take_succ_cons, List.flatten_cons]
      exact (codePoints_pair hpair _).trans (congrArg _ (ih count))
  | unit high low rest hpair ih =>
    cases count with
    | zero => rfl
    | succ count =>
      rw [codePoints_unit hpair, List.take_succ_cons, List.flatten_cons]
      cases count with
      | zero => rfl
      | succ count =>
        have hrest := ih (count + 1)
        obtain ⟨tail, pieces, hpieces⟩ := codePoints_head low rest
        rw [hpieces, List.take_succ_cons, List.flatten_cons] at hrest ⊢
        exact (codePoints_unit hpair _).trans (congrArg _ hrest)

theorem drop_areCodePoints (text : JsText) (count : Nat) :
    AreCodePoints ((codePoints text).drop count) := by
  induction text using units_induction generalizing count with
  | nil => rw [codePoints, List.drop_nil]; rfl
  | last code => cases count <;> simp [codePoints, AreCodePoints]
  | pair high low rest hpair ih =>
    cases count with
    | zero => exact codePoints_areCodePoints _
    | succ count => rw [codePoints_pair hpair, List.drop_succ_cons]; exact ih count
  | unit high low rest hpair ih =>
    cases count with
    | zero => exact codePoints_areCodePoints _
    | succ count => rw [codePoints_unit hpair, List.drop_succ_cons]; exact ih count

theorem AreCodePoints.take {pieces : List JsText} (hpieces : AreCodePoints pieces) (count : Nat) :
    AreCodePoints (pieces.take count) := by
  rw [← hpieces]
  exact take_areCodePoints _ count

theorem AreCodePoints.drop {pieces : List JsText} (hpieces : AreCodePoints pieces) (count : Nat) :
    AreCodePoints (pieces.drop count) := by
  rw [← hpieces]
  exact drop_areCodePoints _ count

theorem length_codePoints_le (text : JsText) : (codePoints text).length ≤ text.length := by
  induction text using units_induction with
  | nil => exact Nat.le_refl _
  | last code => exact Nat.le_refl _
  | pair high low rest hpair ih =>
    rw [codePoints_pair hpair, List.length_cons, List.length_cons, List.length_cons]
    omega
  | unit high low rest hpair ih =>
    rw [codePoints_unit hpair, List.length_cons, List.length_cons]
    omega

theorem codePoints_eq_map {text : JsText} (htext : ∀ code ∈ text, ¬ IsHighSurrogate code) :
    codePoints text = text.map fun code => [code] := by
  induction text using units_induction with
  | nil => rfl
  | last code => rfl
  | pair high low rest hpair ih => exact absurd hpair.1 (htext high List.mem_cons_self)
  | unit high low rest hpair ih =>
    rw [codePoints_unit hpair, ih fun code hcode => htext code (List.mem_cons_of_mem _ hcode)]
    rfl

/-- A length that adds up over the characters of a text. -/
structure AddsUp (measure : JsText → Nat) : Prop where
  nil : measure [] = 0
  pair : ∀ high low rest, IsHighSurrogate high ∧ IsLowSurrogate low →
    measure (high :: low :: rest) = measure [high, low] + measure rest
  unit : ∀ high low rest, ¬ (IsHighSurrogate high ∧ IsLowSurrogate low) →
    measure (high :: low :: rest) = measure [high] + measure (low :: rest)

theorem AddsUp.sum {measure : JsText → Nat} (hmeasure : AddsUp measure) (text : JsText) :
    measure text = ((codePoints text).map measure).sum := by
  induction text using units_induction with
  | nil => exact hmeasure.nil
  | last code => simp [codePoints]
  | pair high low rest hpair ih =>
    rw [codePoints_pair hpair, List.map_cons, List.sum_cons, hmeasure.pair high low rest hpair,
      ih]
  | unit high low rest hpair ih =>
    rw [codePoints_unit hpair, List.map_cons, List.sum_cons, hmeasure.unit high low rest hpair,
      ih]

theorem AddsUp.flatten {measure : JsText → Nat} (hmeasure : AddsUp measure)
    {pieces : List JsText} (hpieces : AreCodePoints pieces) :
    measure pieces.flatten = (pieces.map measure).sum := by
  rw [hmeasure.sum, hpieces]

theorem take_eq_append {α : Type} (items : List α) {less more : Nat} (hle : less ≤ more) :
    items.take more = items.take less ++ (items.take more).drop less := by
  conv_lhs => rw [← List.take_append_drop less (items.take more)]
  rw [List.take_take, Nat.min_eq_left hle]

theorem AddsUp.take_le {measure : JsText → Nat} (hmeasure : AddsUp measure) {pieces : List JsText}
    (hpieces : AreCodePoints pieces) {less more : Nat} (hle : less ≤ more) :
    measure (pieces.take less).flatten ≤ measure (pieces.take more).flatten := by
  rw [hmeasure.flatten (hpieces.take less), hmeasure.flatten (hpieces.take more),
    take_eq_append pieces hle, List.map_append, List.sum_append]
  exact Nat.le_add_right _ _

theorem utf8Length_addsUp : AddsUp utf8Length where
  nil := rfl
  pair high low rest hpair := by
    rw [utf8Length, if_pos hpair, utf8Length, if_pos hpair]
    rfl
  unit high low rest hpair := by
    simp only [utf8Length, if_neg hpair]

theorem utf8Length_pos {text : JsText} (hne : text ≠ []) : 0 < utf8Length text := by
  have hunit : ∀ code, 0 < unitBytes code := JsonSizes.unitBytes_pos
  cases text with
  | nil => exact absurd rfl hne
  | cons high rest =>
    cases rest with
    | nil => exact hunit high
    | cons low rest =>
      rw [utf8Length]
      split
      · omega
      · have hhigh := hunit high
        omega

theorem eq_nil_of_utf8Length {text : JsText} (hlength : utf8Length text = 0) : text = [] := by
  by_contra hne
  have hpos := utf8Length_pos hne
  omega

end KodeGpt.CodePoints
