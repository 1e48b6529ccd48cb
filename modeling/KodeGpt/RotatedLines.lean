import Mathlib.Data.List.Infix

/-!
A log of lines that is kept in numbered segments. Segment zero is the newest
and grows at its end; a rotation moves every segment to the next number and
drops the oldest.
-/

namespace KodeGpt.RotatedLines

universe u v

section Lines

variable {α : Type u}

def joinLines (separator : α) (lines : List (List α)) : List α :=
  lines.flatMap (· ++ [separator])

@[simp] theorem joinLines_nil (separator : α) : joinLines separator [] = [] := rfl

@[simp] theorem joinLines_cons (separator : α) (line : List α) (lines : List (List α)) :
    joinLines separator (line :: lines) = line ++ separator :: joinLines separator lines := by
  simp [joinLines]

@[simp] theorem joinLines_append (separator : α) (front back : List (List α)) :
    joinLines separator (front ++ back) =
      joinLines separator front ++ joinLines separator back := by
  simp [joinLines]

variable [DecidableEq α]

def splitLines (separator : α) : List α → List (List α) × List α
  | [] => ([], [])
  | symbol :: rest =>
    if symbol = separator then
      ([] :: (splitLines separator rest).1, (splitLines separator rest).2)
    else
      match splitLines separator rest with
      | ([], unfinished) => ([], symbol :: unfinished)
      | (line :: lines, unfinished) => ((symbol :: line) :: lines, unfinished)

theorem splitLines_line {separator : α} {line : List α} (hline : separator ∉ line)
    (rest : List α) :
    splitLines separator (line ++ separator :: rest) =
      (line :: (splitLines separator rest).1, (splitLines separator rest).2) := by
  induction line with
  | nil => simp [splitLines]
  | cons symbol line ih =>
    rw [List.mem_cons, not_or] at hline
    rw [List.cons_append, splitLines, if_neg (Ne.symm hline.1), ih hline.2]

theorem splitLines_joinLines {separator : α} {lines : List (List α)}
    (hlines : ∀ line ∈ lines, separator ∉ line) :
    splitLines separator (joinLines separator lines) = (lines, []) := by
  induction lines with
  | nil => rfl
  | cons line lines ih =>
    rw [joinLines_cons, splitLines_line (hlines line List.mem_cons_self),
      ih fun later hlater => hlines later (List.mem_cons_of_mem _ hlater)]

end Lines

section Segments

variable {α : Type u} {β : Type v}

/-- The segments from number `oldest` down to zero, one after the other. -/
def stack : Nat → (Nat → List α) → List α
  | 0, segment => segment 0
  | oldest + 1, segment => segment (oldest + 1) ++ stack oldest segment

def move (index : Nat) (segment : Nat → List α) : Nat → List α :=
  Function.update (Function.update segment (index + 1) (segment index)) index []

theorem stack_congr {oldest : Nat} {segment other : Nat → List α}
    (h : ∀ index ≤ oldest, segment index = other index) :
    stack oldest segment = stack oldest other := by
  induction oldest with
  | zero => exact h 0 le_rfl
  | succ oldest ih =>
    rw [stack, stack, h _ le_rfl, ih fun index hindex => h index (by omega)]

theorem stack_append (oldest : Nat) (segment : Nat → List α) (added : List α) :
    stack oldest (Function.update segment 0 (segment 0 ++ added)) =
      stack oldest segment ++ added := by
  induction oldest with
  | zero => simp [stack]
  | succ oldest ih =>
    rw [stack, stack, ih, Function.update_of_ne (by omega), List.append_assoc]

/-- A segment may move onto an empty one: the order does not change. -/
theorem stack_move {index : Nat} {segment : Nat → List α} (hempty : segment (index + 1) = [])
    {oldest : Nat} (hindex : index < oldest) :
    stack oldest (move index segment) = stack oldest segment := by
  induction oldest with
  | zero => omega
  | succ oldest ih =>
    rcases Nat.lt_or_ge index oldest with hlt | hge
    · have hother : move index segment (oldest + 1) = segment (oldest + 1) := by
        rw [move, Function.update_of_ne (by omega), Function.update_of_ne (by omega)]
      rw [stack, stack, hother, ih hlt]
    · obtain rfl : index = oldest := by omega
      cases index with
      | zero => simp [stack, move, hempty]
      | succ index =>
        have hrest : stack index (move (index + 1) segment) = stack index segment := by
          apply stack_congr
          intro lower hlower
          rw [move, Function.update_of_ne (by omega), Function.update_of_ne (by omega)]
        rw [stack, stack, stack, stack, hrest, hempty]
        simp [move]

theorem stack_dropOldest (oldest : Nat) (segment : Nat → List α) :
    stack oldest (Function.update segment oldest []) <:+ stack oldest segment := by
  cases oldest with
  | zero => simp [stack]
  | succ oldest =>
    have hrest : stack oldest (Function.update segment (oldest + 1) []) =
        stack oldest segment := by
      apply stack_congr
      intro lower hlower
      rw [Function.update_of_ne (by omega)]
    rw [stack, stack, hrest, Function.update_self, List.nil_append]
    exact List.suffix_append _ _

theorem stack_flatMap (oldest : Nat) (segment : Nat → List α) (f : α → List β) :
    stack oldest (fun index => (segment index).flatMap f) = (stack oldest segment).flatMap f := by
  induction oldest with
  | zero => rfl
  | succ oldest ih => rw [stack, stack, ih, List.flatMap_append]

end Segments

section Log

variable {α : Type u} {ρ : Type v} {separator : α} {line : ρ → List α} {oldest : Nat}
  {contents : Nat → List α} {records : List ρ}

/-- The segments hold whole lines, and together the last of the records, in
order. -/
def Keeps (separator : α) (line : ρ → List α) (oldest : Nat) (contents : Nat → List α)
    (records : List ρ) : Prop :=
  ∃ segment : Nat → List ρ,
    (∀ index, contents index = joinLines separator ((segment index).map line)) ∧
      stack oldest segment <:+ records

namespace Keeps

theorem empty : Keeps separator line oldest (fun _ => []) records := by
  refine ⟨fun _ => [], fun _ => rfl, ?_⟩
  have hnil : stack oldest (fun _ => ([] : List ρ)) = [] := by
    induction oldest with
    | zero => rfl
    | succ oldest ih => rw [stack, ih]; rfl
  rw [hnil]
  exact List.nil_suffix

theorem append (h : Keeps separator line oldest contents records) (record : ρ) :
    Keeps separator line oldest
      (Function.update contents 0 (contents 0 ++ (line record ++ [separator])))
      (records ++ [record]) := by
  obtain ⟨segment, hcontents, hsuffix⟩ := h
  refine ⟨Function.update segment 0 (segment 0 ++ [record]), ?_, ?_⟩
  · intro index
    rcases eq_or_ne index 0 with rfl | hindex
    · simp [hcontents]
    · simp [hcontents, hindex]
  · rw [stack_append]
    obtain ⟨dropped, rfl⟩ := hsuffix
    exact ⟨dropped, by rw [List.append_assoc]⟩

theorem segment_empty {segment : Nat → List ρ} {index : Nat}
    (hcontents : contents index = joinLines separator ((segment index).map line))
    (hempty : contents index = []) : segment index = [] := by
  rw [hempty] at hcontents
  cases hsegment : segment index with
  | nil => rfl
  | cons record rest => simp [hsegment] at hcontents

theorem move (h : Keeps separator line oldest contents records) {index : Nat}
    (hempty : contents (index + 1) = []) (hindex : index < oldest) :
    Keeps separator line oldest (RotatedLines.move index contents) records := by
  obtain ⟨segment, hcontents, hsuffix⟩ := h
  refine ⟨RotatedLines.move index segment, ?_, ?_⟩
  · intro other
    rcases eq_or_ne other index with rfl | hother
    · simp [RotatedLines.move]
    · rcases eq_or_ne other (index + 1) with rfl | hnext
      · simp [RotatedLines.move, hcontents]
      · simp [RotatedLines.move, hother, hnext, hcontents]
  · rw [stack_move (segment_empty (hcontents _) hempty) hindex]
    exact hsuffix

theorem dropOldest (h : Keeps separator line oldest contents records) :
    Keeps separator line oldest (Function.update contents oldest []) records := by
  obtain ⟨segment, hcontents, hsuffix⟩ := h
  refine ⟨Function.update segment oldest [], ?_, (stack_dropOldest _ _).trans hsuffix⟩
  intro index
  rcases eq_or_ne index oldest with rfl | hindex
  · simp
  · simp [hcontents, hindex]

variable [DecidableEq α]

/-- What is read from the oldest segment to the newest are complete lines, those
of the last records. -/
theorem read (h : Keeps separator line oldest contents records)
    (hline : ∀ record, separator ∉ line record) :
    ∃ kept, kept <:+ records ∧
      splitLines separator (stack oldest contents) = (kept.map line, []) := by
  obtain ⟨segment, hcontents, hsuffix⟩ := h
  refine ⟨stack oldest segment, hsuffix, ?_⟩
  have hall : contents = fun index =>
      (segment index).flatMap fun record => line record ++ [separator] := by
    funext index
    rw [hcontents, joinLines, List.flatMap_map]
  have hstack : stack oldest contents =
      joinLines separator ((stack oldest segment).map line) := by
    rw [hall, stack_flatMap, joinLines, List.flatMap_map]
  rw [hstack]
  apply splitLines_joinLines
  intro text htext
  obtain ⟨record, -, rfl⟩ := List.mem_map.mp htext
  exact hline record

end Keeps

end Log

end KodeGpt.RotatedLines
