import Mathlib.Data.List.Range

/-!
Arrays that a loop fills from the front, and lists of rows of one length.
-/

namespace KodeGpt.FilledArrays

universe u

variable {α : Type u}

/-- The array has its final length, and its final values below `count`. -/
structure FilledTo (values : List α) (count : Nat) (done : List α) : Prop where
  length_eq : done.length = values.length
  agrees : ∀ index < count, done[index]? = values[index]?

namespace FilledTo

variable {values done : List α} {count : Nat} {value : α}

theorem start (hlength : done.length = values.length) : FilledTo values 0 done :=
  ⟨hlength, fun _ hindex => absurd hindex (Nat.not_lt_zero _)⟩

theorem set (h : FilledTo values count done) (hvalue : values[count]? = some value) :
    FilledTo values (count + 1) (done.set count value) := by
  obtain ⟨hcount, -⟩ := List.getElem?_eq_some_iff.mp hvalue
  refine ⟨by rw [List.length_set, h.length_eq], fun index hindex => ?_⟩
  obtain hlt | rfl := Nat.lt_succ_iff_lt_or_eq.mp hindex
  · rw [List.getElem?_set_ne (Nat.ne_of_gt hlt), h.agrees index hlt]
  · rw [List.getElem?_set_self (h.length_eq ▸ hcount), hvalue]

theorem eq (h : FilledTo values values.length done) : done = values := by
  refine List.ext_getElem? fun index => ?_
  by_cases hindex : index < values.length
  · exact h.agrees index hindex
  · rw [List.getElem?_eq_none (Nat.le_of_not_lt hindex),
      List.getElem?_eq_none (h.length_eq ▸ Nat.le_of_not_lt hindex)]

end FilledTo

section Rows

variable {row : Nat → List α} {width count : Nat}

theorem length_flatMap_range (hwidth : ∀ index < count, (row index).length = width) :
    ((List.range count).flatMap row).length = count * width := by
  induction count with
  | zero => rw [List.range_zero, List.flatMap_nil, List.length_nil, Nat.zero_mul]
  | succ count ih =>
    rw [List.range_succ, List.flatMap_append, List.flatMap_singleton, List.length_append,
      ih fun index hindex => hwidth index (Nat.lt_succ_of_lt hindex),
      hwidth count (Nat.lt_succ_self count), Nat.succ_mul]

theorem getElem?_flatMap_range (hwidth : ∀ index < count, (row index).length = width)
    {index column : Nat} (hindex : index < count) (hcolumn : column < width) :
    ((List.range count).flatMap row)[index * width + column]? = (row index)[column]? := by
  induction count with
  | zero => exact absurd hindex (Nat.not_lt_zero index)
  | succ count ih =>
    have hbefore : ∀ index < count, (row index).length = width :=
      fun index hindex => hwidth index (Nat.lt_succ_of_lt hindex)
    have hlength := length_flatMap_range hbefore
    rw [List.range_succ, List.flatMap_append, List.flatMap_singleton]
    obtain hlt | rfl := Nat.lt_succ_iff_lt_or_eq.mp hindex
    · have hinside : index * width + column < count * width := calc
        index * width + column < index * width + width := Nat.add_lt_add_left hcolumn _
        _ = (index + 1) * width := (Nat.succ_mul index width).symm
        _ ≤ count * width := Nat.mul_le_mul_right width hlt
      rw [List.getElem?_append_left (hlength ▸ hinside)]
      exact ih hbefore hlt
    · rw [List.getElem?_append_right (hlength ▸ Nat.le_add_right _ _), hlength,
        Nat.add_sub_cancel_left]

end Rows

end KodeGpt.FilledArrays
