import Mathlib.Data.List.Basic

/-!
A list is cut at an occurrence of a pattern, the first one or the last one. A cut is where
it should be when nothing behind it, or nothing before it, is an occurrence.
-/

namespace KodeGpt.ListCuts

universe u

variable {α : Type u} [DecidableEq α]

def cutFirst (pattern : List α) : List α → Option (List α × List α)
  | [] => if pattern = [] then some ([], []) else none
  | symbol :: rest =>
    if pattern.isPrefixOf (symbol :: rest) then some ([], (symbol :: rest).drop pattern.length)
    else (cutFirst pattern rest).map fun cut => (symbol :: cut.1, cut.2)

def cutLast (pattern : List α) : List α → Option (List α × List α)
  | [] => if pattern = [] then some ([], []) else none
  | symbol :: rest =>
    match cutLast pattern rest with
    | some cut => some (symbol :: cut.1, cut.2)
    | none =>
      if pattern.isPrefixOf (symbol :: rest) then
        some ([], (symbol :: rest).drop pattern.length)
      else none

section Cuts

variable {pattern front back text : List α} {symbol first second : α}

theorem cutLast_eq_none (hpattern : pattern ≠ []) (h : ¬ pattern <:+: text) :
    cutLast pattern text = none := by
  induction text with
  | nil => rw [cutLast, if_neg hpattern]
  | cons symbol rest ih =>
    rw [List.infix_cons_iff, not_or] at h
    have hno : ¬ pattern.isPrefixOf (symbol :: rest) = true :=
      fun hoccurs => h.1 (List.isPrefixOf_iff_prefix.mp hoccurs)
    rw [cutLast, ih h.2]
    dsimp only
    rw [if_neg hno]

theorem cutLast_append {later : List α} (front : List α)
    (h : ¬ (symbol :: later) <:+: later ++ back) :
    cutLast (symbol :: later) (front ++ symbol :: (later ++ back)) = some (front, back) := by
  induction front with
  | nil =>
    have hnone := cutLast_eq_none (List.cons_ne_nil symbol later) h
    have hoccurs : (symbol :: later).isPrefixOf (symbol :: (later ++ back)) = true :=
      List.isPrefixOf_iff_prefix.mpr (List.prefix_append (symbol :: later) back)
    rw [List.nil_append, cutLast, hnone]
    dsimp only
    rw [if_pos hoccurs, List.length_cons, List.drop_succ_cons, List.drop_left]
  | cons other front ih => rw [List.cons_append, cutLast, ih]

theorem cutLast_symbol (front : List α) (h : symbol ∉ back) :
    cutLast [symbol] (front ++ symbol :: back) = some (front, back) :=
  cutLast_append front fun hoccurs => h (hoccurs.mem (List.mem_singleton_self symbol))

theorem eq_of_cutLast (h : cutLast pattern text = some (front, back)) :
    text = front ++ (pattern ++ back) := by
  induction text generalizing front with
  | nil =>
    rw [cutLast] at h
    split at h
    · rename_i hpattern
      obtain ⟨rfl, rfl⟩ := Prod.mk.inj (Option.some.inj h)
      rw [hpattern]
      rfl
    · cases h
  | cons symbol rest ih =>
    rw [cutLast] at h
    split at h
    · rename_i cut hcut
      obtain ⟨rfl, rfl⟩ := Prod.mk.inj (Option.some.inj h)
      rw [List.cons_append, ← ih hcut]
    · split at h
      · rename_i hoccurs
        obtain ⟨rfl, rfl⟩ := Prod.mk.inj (Option.some.inj h)
        exact (List.prefix_iff_eq_append.mp (List.isPrefixOf_iff_prefix.mp hoccurs)).symm
      · cases h

omit [DecidableEq α] in
theorem not_infix_of_notMem (h : second ∉ text) : ¬ [first, second] <:+: symbol :: text := by
  rw [List.infix_cons_iff, not_or]
  constructor
  · intro hoccurs
    exact h ((List.cons_prefix_cons.mp hoccurs).2.mem (List.mem_singleton_self second))
  · intro hoccurs
    exact h (hoccurs.mem (List.mem_cons_of_mem _ (List.mem_singleton_self second)))

theorem cutLast_pair (front : List α) (h : second ∉ back) :
    cutLast [first, second] (front ++ first :: second :: back) = some (front, back) :=
  cutLast_append front (not_infix_of_notMem h)

/-- At a symbol a list is cut where it first occurs. -/
theorem cutFirst_symbol_iff {symbol : α} :
    cutFirst [symbol] text = some (front, back) ↔
      text = front ++ symbol :: back ∧ symbol ∉ front := by
  induction text generalizing front with
  | nil =>
    refine iff_of_false (fun h => ?_) (fun h => ?_)
    · rw [cutFirst, if_neg (List.cons_ne_nil _ _)] at h
      cases h
    · exact absurd h.1.symm (List.append_ne_nil_of_right_ne_nil _ (List.cons_ne_nil _ _))
  | cons other rest ih =>
    rw [cutFirst]
    by_cases hother : other = symbol
    · have hoccurs : [symbol].isPrefixOf (other :: rest) = true :=
        List.isPrefixOf_iff_prefix.mpr (List.cons_prefix_cons.mpr
          ⟨hother.symm, List.nil_prefix⟩)
      rw [if_pos hoccurs, hother]
      cases front with
      | nil => simp [eq_comm]
      | cons first front => simp +contextual [eq_comm]
    · have hno : ¬ [symbol].isPrefixOf (other :: rest) = true := fun hoccurs =>
        hother (List.cons_prefix_cons.mp (List.isPrefixOf_iff_prefix.mp hoccurs)).1.symm
      rw [if_neg hno]
      cases front with
      | nil =>
        refine iff_of_false (fun h => ?_) (fun h => hother (List.cons.inj h.1).1)
        obtain ⟨cut, -, hcut⟩ := Option.map_eq_some_iff.mp h
        cases (Prod.mk.inj hcut).1
      | cons first front =>
        rw [List.cons_append, List.cons.injEq, List.mem_cons, not_or, Option.map_eq_some_iff]
        constructor
        · rintro ⟨⟨front', back'⟩, hcut, hpair⟩
          obtain ⟨hfront, rfl⟩ := Prod.mk.inj hpair
          obtain ⟨rfl, rfl⟩ := List.cons.inj hfront
          obtain ⟨hrest, hnotMem⟩ := ih.mp hcut
          exact ⟨⟨rfl, hrest⟩, Ne.symm hother, hnotMem⟩
        · rintro ⟨⟨rfl, hrest⟩, -, hnotMem⟩
          exact ⟨(front, back), ih.mpr ⟨hrest, hnotMem⟩, rfl⟩

theorem not_isPrefixOf_pair {ending : α} (h : symbol ≠ ending ∨ text.head? ≠ some ending) :
    ¬ [ending, ending].isPrefixOf (symbol :: text) = true := by
  intro hoccurs
  obtain ⟨hsymbol, hrest⟩ := List.cons_prefix_cons.mp (List.isPrefixOf_iff_prefix.mp hoccurs)
  obtain ⟨later, rfl⟩ := hrest
  exact h.elim (absurd hsymbol.symm) (absurd rfl)

theorem cutFirst_body {body : List α} {ending : α} (hbody : ending ∉ body) (rest : List α) :
    cutFirst [ending, ending] (body ++ rest) =
      (cutFirst [ending, ending] rest).map fun cut => (body ++ cut.1, cut.2) := by
  induction body with
  | nil => cases hrest : cutFirst [ending, ending] rest <;> simp [hrest]
  | cons symbol body ih =>
    obtain ⟨hsymbol, hbody⟩ := not_or.mp (List.mem_cons.not.mp hbody)
    rw [List.cons_append, cutFirst, if_neg (not_isPrefixOf_pair (.inl (Ne.symm hsymbol))),
      ih hbody, Option.map_map]
    rfl

theorem cutFirst_lines {lines : List (List α)} {ending : α} (hlines : lines ≠ [])
    (hline : ∀ line ∈ lines, line ≠ [] ∧ ending ∉ line) (back : List α) :
    cutFirst [ending, ending] (lines.flatMap (· ++ [ending]) ++ ending :: back) =
      some ([ending].intercalate lines, back) := by
  induction lines with
  | nil => exact absurd rfl hlines
  | cons line rest ih =>
    obtain ⟨⟨-, hending⟩, hrest⟩ := List.forall_mem_cons.mp hline
    rw [List.flatMap_cons, List.append_assoc, List.append_assoc, cutFirst_body hending]
    cases rest with
    | nil =>
      rw [List.flatMap_nil, List.nil_append, List.singleton_append, cutFirst, if_pos]
      · simp [List.intercalate]
      · exact List.isPrefixOf_iff_prefix.mpr ⟨back, rfl⟩
    | cons next rest =>
      obtain ⟨⟨hne, hnext⟩, -⟩ := List.forall_mem_cons.mp hrest
      obtain ⟨symbol, body, rfl⟩ := List.exists_cons_of_ne_nil hne
      have hsymbol : symbol ≠ ending := by
        rintro rfl
        exact hnext List.mem_cons_self
      have hempty : ¬ [ending, ending].isPrefixOf (ending ::
          (((symbol :: body) :: rest).flatMap (· ++ [ending]) ++ ending :: back)) = true :=
        not_isPrefixOf_pair (.inr fun hhead => hsymbol (Option.some.inj hhead))
      rw [List.singleton_append, cutFirst, if_neg hempty, ih (List.cons_ne_nil _ _) hrest]
      simp [List.intercalate]

omit [DecidableEq α] in
/-- Fields with their endings are what the fields are with the ending between them, and one
more ending. -/
theorem flatMap_eq_intercalate {fields : List (List α)} (ending : α) (h : fields ≠ []) :
    fields.flatMap (· ++ [ending]) = [ending].intercalate fields ++ [ending] := by
  induction fields with
  | nil => exact absurd rfl h
  | cons field rest ih =>
    cases rest with
    | nil => simp [List.intercalate]
    | cons next rest =>
      rw [List.flatMap_cons, ih (List.cons_ne_nil _ _)]
      simp [List.intercalate]

theorem notMem_splitOn (separator : α) (text : List α) :
    ∀ field ∈ text.splitOn separator, separator ∉ field := by
  induction text with
  | nil =>
    rw [List.splitOn_nil]
    exact List.forall_mem_singleton.mpr List.not_mem_nil
  | cons symbol rest ih =>
    rw [List.splitOn_cons_eq_if_modifyHead]
    split
    · exact List.forall_mem_cons.mpr ⟨List.not_mem_nil, ih⟩
    · rename_i hsymbol
      have hne : separator ≠ symbol := fun heq => hsymbol (beq_iff_eq.mpr heq.symm)
      cases hrest : rest.splitOn separator with
      | nil => exact absurd hrest (List.splitOn_ne_nil _ _)
      | cons field fields =>
        rw [hrest] at ih
        obtain ⟨hfield, hfields⟩ := List.forall_mem_cons.mp ih
        exact List.forall_mem_cons.mpr
          ⟨List.not_mem_cons_of_ne_of_not_mem hne hfield, hfields⟩

theorem splitOn_append_of_notMem {separator : α} {front : List α} (hfront : separator ∉ front)
    (back : List α) :
    (front ++ back).splitOn separator = (back.splitOn separator).modifyHead (front ++ ·) := by
  induction front with
  | nil =>
    rw [List.nil_append]
    cases back.splitOn separator with
    | nil => rfl
    | cons field fields => rfl
  | cons symbol front ih =>
    have hsymbol : (symbol == separator) = false :=
      beq_false_of_ne fun heq => hfront (heq ▸ List.mem_cons_self)
    rw [List.cons_append, List.splitOn_cons_eq_if_modifyHead, hsymbol, if_neg Bool.false_ne_true,
      ih fun h => hfront (List.mem_cons_of_mem _ h), List.modifyHead_modifyHead]
    rfl

theorem mem_intercalate {β : Type u} {element separator : β} {parts : List (List β)}
    (h : element ∈ [separator].intercalate parts) :
    element = separator ∨ ∃ part ∈ parts, element ∈ part := by
  induction parts with
  | nil => cases h
  | cons part rest ih =>
    cases rest with
    | nil =>
      rw [List.intercalate_singleton] at h
      exact .inr ⟨part, List.mem_cons_self, h⟩
    | cons next later =>
      rw [List.intercalate_cons_cons, List.mem_append, List.mem_append,
        List.mem_singleton] at h
      obtain (hpart | hseparator) | hrest := h
      · exact .inr ⟨part, List.mem_cons_self, hpart⟩
      · exact .inl hseparator
      · obtain hseparator | ⟨found, hfound, hinside⟩ := ih hrest
        · exact .inl hseparator
        · exact .inr ⟨found, List.mem_cons_of_mem _ hfound, hinside⟩

theorem mem_intercalate_of_mem {β : Type u} {element separator : β} {part : List β}
    {parts : List (List β)} (hpart : part ∈ parts) (helement : element ∈ part) :
    element ∈ [separator].intercalate parts := by
  induction parts with
  | nil => cases hpart
  | cons first rest ih =>
    cases rest with
    | nil =>
      rw [List.intercalate_singleton]
      exact List.mem_singleton.mp hpart ▸ helement
    | cons next later =>
      rw [List.intercalate_cons_cons]
      obtain rfl | hlater := List.mem_cons.mp hpart
      · exact List.mem_append_left _ (List.mem_append_left _ helement)
      · exact List.mem_append_right _ (ih hlater)

theorem mem_of_mem_splitOn {separator element : α} {field text : List α}
    (hfield : field ∈ text.splitOn separator) (helement : element ∈ field) : element ∈ text := by
  have h : element ∈ [separator].intercalate (text.splitOn separator) :=
    mem_intercalate_of_mem hfield helement
  rwa [List.intercalate_splitOn] at h

theorem map_intercalate {β γ : Type u} (f : β → γ) (separator : β) (parts : List (List β)) :
    ([separator].intercalate parts).map f = [f separator].intercalate (parts.map (List.map f)) := by
  induction parts with
  | nil => rfl
  | cons part rest ih =>
    cases rest with
    | nil => simp
    | cons next later =>
      rw [List.intercalate_cons_cons, List.map_append, List.map_append, ih]
      simp

end Cuts

end KodeGpt.ListCuts
