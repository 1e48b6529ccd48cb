import Mathlib.Data.List.Basic

/-!
The lines of a text, each with the symbol that ends it. Only the last line may be
without its ending. Which lists of lines are those of a text is seen from the lines
alone.
-/

namespace KodeGpt.TerminatedLines

universe u

variable {α : Type u}

/-- A line with its ending. -/
def Ended (ending : α) (line : List α) : Prop :=
  ∃ body, ending ∉ body ∧ line = body ++ [ending]

def AllEnded (ending : α) (lines : List (List α)) : Prop :=
  ∀ line ∈ lines, Ended ending line

inductive Lines (ending : α) : List (List α) → Prop
  | nil : Lines ending []
  | unended {line : List α} (hne : line ≠ []) (hline : ending ∉ line) : Lines ending [line]
  | cons {line : List α} {rest : List (List α)} (hline : Ended ending line)
      (h : Lines ending rest) : Lines ending (line :: rest)

section Lists

variable {ending : α} {front back lines : List (List α)} {line : List α}

theorem Ended.ne_nil (h : Ended ending line) : line ≠ [] := by
  obtain ⟨body, -, rfl⟩ := h
  exact List.append_ne_nil_of_right_ne_nil _ (List.cons_ne_nil _ _)

theorem Ended.mem (h : Ended ending line) : ending ∈ line := by
  obtain ⟨body, -, rfl⟩ := h
  exact List.mem_append_right _ (List.mem_singleton_self _)

theorem AllEnded.nil : AllEnded ending [] := nofun

theorem allEnded_append :
    AllEnded ending (front ++ back) ↔ AllEnded ending front ∧ AllEnded ending back :=
  List.forall_mem_append

theorem Lines.ended_or (h : Lines ending (line :: lines)) :
    Ended ending line ∨ (lines = [] ∧ line ≠ [] ∧ ending ∉ line) := by
  cases h with
  | unended hne hline => exact .inr ⟨rfl, hne, hline⟩
  | cons hline h => exact .inl hline

theorem Lines.tail (h : Lines ending (line :: lines)) : Lines ending lines := by
  cases h with
  | unended hne hline => exact .nil
  | cons hline h => exact h

theorem Lines.ended_of_ne_nil (h : Lines ending (line :: lines)) (hne : lines ≠ []) :
    Ended ending line :=
  h.ended_or.resolve_right fun hlast => hne hlast.1

theorem AllEnded.isLines (h : AllEnded ending lines) : Lines ending lines := by
  induction lines with
  | nil => exact .nil
  | cons line lines ih =>
    obtain ⟨hline, hlines⟩ := List.forall_mem_cons.mp h
    exact .cons hline (ih hlines)

theorem lines_append_iff (hfront : AllEnded ending front) :
    Lines ending (front ++ back) ↔ Lines ending back := by
  induction front with
  | nil => exact Iff.rfl
  | cons line front ih =>
    obtain ⟨hline, hfront⟩ := List.forall_mem_cons.mp hfront
    rw [List.cons_append]
    exact ⟨fun h => (ih hfront).mp h.tail, fun h => .cons hline ((ih hfront).mpr h)⟩

theorem Lines.front_ended (h : Lines ending (front ++ back)) (hne : back ≠ []) :
    AllEnded ending front := by
  induction front with
  | nil => exact .nil
  | cons line front ih =>
    rw [List.cons_append] at h
    exact List.forall_mem_cons.mpr
      ⟨h.ended_of_ne_nil (List.append_ne_nil_of_right_ne_nil _ hne), ih h.tail⟩

theorem Lines.of_append_right (h : Lines ending (front ++ back)) : Lines ending back := by
  by_cases hne : back = []
  · rw [hne]
    exact .nil
  · exact (lines_append_iff (h.front_ended hne)).mp h

theorem Lines.of_append_left (h : Lines ending (front ++ back)) : Lines ending front := by
  by_cases hne : back = []
  · rwa [hne, List.append_nil] at h
  · exact (h.front_ended hne).isLines

theorem Lines.sublist (h : Lines ending lines) (hsub : List.Sublist front lines) :
    Lines ending front := by
  induction hsub with
  | slnil => exact .nil
  | cons line hsub ih => exact ih h.tail
  | @cons_cons front lines line hsub ih =>
    rcases h.ended_or with hline | ⟨rfl, hne, hline⟩
    · exact .cons hline (ih h.tail)
    · rw [List.sublist_nil.mp hsub]
      exact .unended hne hline

theorem getLast?_ended (hline : Ended ending line) (rest : List α) :
    (line ++ rest).getLast? = if rest = [] then some ending else rest.getLast? := by
  obtain ⟨body, -, rfl⟩ := hline
  rw [List.getLast?_append]
  split
  · rename_i hempty
    simp [hempty]
  · rename_i hne
    rw [List.getLast?_eq_some_getLast hne]
    rfl

/-- All lines are ended when the text is, or there is no text. -/
theorem Lines.allEnded_iff (h : Lines ending lines) :
    AllEnded ending lines ↔ lines.flatten = [] ∨ lines.flatten.getLast? = some ending := by
  induction h with
  | nil => exact iff_of_true .nil (.inl rfl)
  | @unended line hne hline =>
    rw [List.flatten_singleton]
    refine iff_of_false (fun hall => ?_) ?_
    · exact hline (hall line (List.mem_singleton_self _)).mem
    · rintro (hempty | hlast)
      · exact hne hempty
      · exact hline (List.mem_of_getLast? hlast)
  | @cons line rest hline h ih =>
    have hrest : AllEnded ending (line :: rest) ↔ AllEnded ending rest :=
      ⟨fun hall => (List.forall_mem_cons.mp hall).2, fun hall => List.forall_mem_cons.mpr ⟨hline, hall⟩⟩
    rw [hrest, ih, List.flatten_cons, getLast?_ended hline]
    have hne : line ++ rest.flatten ≠ [] := List.append_ne_nil_of_left_ne_nil hline.ne_nil _
    by_cases hempty : rest.flatten = [] <;> simp [hempty, hline.ne_nil]

end Lists

section Splitting

variable [DecidableEq α] {ending : α} {lines : List (List α)}

/-- The lines of what follows; `line` is the line so far. -/
def linesFrom (ending : α) (line : List α) : List α → List (List α)
  | [] => if line = [] then [] else [line]
  | symbol :: rest =>
    if symbol = ending then (line ++ [symbol]) :: linesFrom ending [] rest
    else linesFrom ending (line ++ [symbol]) rest

def linesOf (ending : α) (text : List α) : List (List α) := linesFrom ending [] text

theorem linesFrom_body {body : List α} (hbody : ending ∉ body) (line rest : List α) :
    linesFrom ending line (body ++ rest) = linesFrom ending (line ++ body) rest := by
  induction body generalizing line with
  | nil => rw [List.nil_append, List.append_nil]
  | cons symbol body ih =>
    obtain ⟨hsymbol, hrest⟩ := not_or.mp (List.mem_cons.not.mp hbody)
    rw [List.cons_append, linesFrom, if_neg (Ne.symm hsymbol), ih hrest, List.append_assoc,
      List.singleton_append]

theorem linesOf_ended {line : List α} (hline : Ended ending line) (rest : List α) :
    linesOf ending (line ++ rest) = line :: linesOf ending rest := by
  obtain ⟨body, hbody, rfl⟩ := hline
  rw [linesOf, List.append_assoc, linesFrom_body hbody, List.nil_append, List.singleton_append,
    linesFrom, if_pos rfl, linesOf]

theorem Lines.linesOf_flatten (h : Lines ending lines) : linesOf ending lines.flatten = lines := by
  induction h with
  | nil => rfl
  | @unended line hne hline =>
    have hbody := linesFrom_body hline [] []
    rw [List.flatten_singleton, linesOf, ← List.append_nil line, hbody, List.nil_append,
      List.append_nil, linesFrom, if_neg hne]
  | cons hline h ih => rw [List.flatten_cons, linesOf_ended hline, ih]

theorem lines_linesFrom {line : List α} (hline : ending ∉ line) (text : List α) :
    Lines ending (linesFrom ending line text) := by
  induction text generalizing line with
  | nil =>
    rw [linesFrom]
    split
    · exact .nil
    · rename_i hne
      exact .unended hne hline
  | cons symbol rest ih =>
    rw [linesFrom]
    split
    · rename_i hsymbol
      rw [hsymbol]
      exact .cons ⟨line, hline, rfl⟩ (ih List.not_mem_nil)
    · rename_i hsymbol
      apply ih
      rw [List.mem_append, List.mem_singleton, not_or]
      exact ⟨hline, Ne.symm hsymbol⟩

theorem lines_linesOf (text : List α) : Lines ending (linesOf ending text) :=
  lines_linesFrom List.not_mem_nil text

theorem flatten_linesFrom (line text : List α) :
    (linesFrom ending line text).flatten = line ++ text := by
  induction text generalizing line with
  | nil =>
    rw [linesFrom]
    split
    · rename_i hempty
      rw [hempty]
      rfl
    · rw [List.flatten_singleton, List.append_nil]
  | cons symbol rest ih =>
    rw [linesFrom]
    split
    · rw [List.flatten_cons, ih, List.nil_append, List.append_assoc, List.singleton_append]
    · rw [ih, List.append_assoc, List.singleton_append]

@[simp] theorem flatten_linesOf (text : List α) : (linesOf ending text).flatten = text :=
  flatten_linesFrom [] text

/-- The lines of a text, and no others, are read back. -/
theorem linesOf_flatten_iff : linesOf ending lines.flatten = lines ↔ Lines ending lines :=
  ⟨fun h => h ▸ lines_linesOf lines.flatten, Lines.linesOf_flatten⟩

end Splitting

end KodeGpt.TerminatedLines
