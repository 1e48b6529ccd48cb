import Mathlib.Data.List.AList

/-!
Finite families of values under unique keys: properties of every value, and
relations which no two values under different keys may have.
-/

namespace KodeGpt.KeyedFamily

universe u v

variable {κ : Type u} {α : Type v} [DecidableEq κ]

abbrev Family (κ : Type u) (α : Type v) := AList (fun _ : κ => α)

/-- Some value of the family satisfies `p`. -/
def anyValue (p : α → Bool) (family : Family κ α) : Bool :=
  family.entries.any fun entry => p entry.2

theorem anyValue_iff {p : α → Bool} {family : Family κ α} :
    anyValue p family = true ↔ ∃ key value, family.lookup key = some value ∧ p value = true := by
  simp only [anyValue, List.any_eq_true]
  constructor
  · rintro ⟨⟨key, value⟩, hmem, hp⟩
    exact ⟨key, value, AList.mem_lookup_iff.mpr hmem, hp⟩
  · rintro ⟨key, value, hlookup, hp⟩
    exact ⟨⟨key, value⟩, AList.mem_lookup_iff.mp hlookup, hp⟩

theorem anyValue_eq_false_iff {p : α → Bool} {family : Family κ α} :
    anyValue p family = false ↔ ∀ key value, family.lookup key = some value → p value = false := by
  rw [← Bool.not_eq_true, anyValue_iff]
  simp

/-- Every value of the family satisfies `P`. -/
def AllValues (P : α → Prop) (family : Family κ α) : Prop :=
  ∀ ⦃key value⦄, family.lookup key = some value → P value

/-- No two values under different keys are related. -/
def Apart (R : α → α → Prop) (family : Family κ α) : Prop :=
  ∀ ⦃key key' value value'⦄, family.lookup key = some value →
    family.lookup key' = some value' → key ≠ key' → ¬ R value value'

theorem lookup_insert_eq_some {family : Family κ α} {key key' : κ} {value value' : α}
    (h : (family.insert key value).lookup key' = some value') :
    (key' = key ∧ value' = value) ∨ (key' ≠ key ∧ family.lookup key' = some value') := by
  by_cases hkey : key' = key
  · subst hkey
    rw [AList.lookup_insert] at h
    exact .inl ⟨rfl, (Option.some.inj h).symm⟩
  · rw [AList.lookup_insert_ne hkey] at h
    exact .inr ⟨hkey, h⟩

theorem lookup_erase_eq_some {family : Family κ α} {key key' : κ} {value : α}
    (h : (family.erase key).lookup key' = some value) :
    key' ≠ key ∧ family.lookup key' = some value := by
  by_cases hkey : key' = key
  · subst hkey
    simp at h
  · exact ⟨hkey, by rwa [AList.lookup_erase_ne hkey] at h⟩

theorem update_eq_some {table : κ → Option α} {key key' : κ} {value value' : α}
    (h : Function.update table key (some value) key' = some value') :
    (key' = key ∧ value' = value) ∨ (key' ≠ key ∧ table key' = some value') := by
  by_cases hkey : key' = key
  · subst hkey
    rw [Function.update_self] at h
    exact .inl ⟨rfl, (Option.some.inj h).symm⟩
  · rw [Function.update_of_ne hkey] at h
    exact .inr ⟨hkey, h⟩

theorem forall_update {table : κ → Option α} {P : κ → α → Prop} {key : κ} {value : α}
    (hvalue : P key value) (h : ∀ key value, table key = some value → P key value) :
    ∀ key' value', Function.update table key (some value) key' = some value' → P key' value' := by
  intro key' value' hlookup
  obtain ⟨rfl, rfl⟩ | ⟨-, hold⟩ := update_eq_some hlookup
  · exact hvalue
  · exact h key' value' hold

section AllValues

variable {P : α → Prop} {family : Family κ α}

theorem AllValues.empty : AllValues P (∅ : Family κ α) := by
  intro key value h
  simp at h

theorem AllValues.insert (h : AllValues P family) {key : κ} {value : α} (hvalue : P value) :
    AllValues P (family.insert key value) := by
  intro key' value' hlookup
  rcases lookup_insert_eq_some hlookup with ⟨-, rfl⟩ | ⟨-, hold⟩
  · exact hvalue
  · exact h hold

theorem AllValues.erase (h : AllValues P family) (key : κ) : AllValues P (family.erase key) :=
  fun _ _ hlookup => h (lookup_erase_eq_some hlookup).2

end AllValues

section Apart

variable {R : α → α → Prop} {family : Family κ α}

theorem Apart.empty : Apart R (∅ : Family κ α) := by
  intro key key' value value' h
  simp at h

/-- A value unrelated to all others may take its key, whether the key is new
or held a value before. -/
theorem Apart.insert (hsymm : ∀ x y, R x y → R y x) (h : Apart R family) {key : κ} {value : α}
    (hvalue : ∀ key' value', key' ≠ key → family.lookup key' = some value' → ¬ R value' value) :
    Apart R (family.insert key value) := by
  intro left right x y hx hy hne
  rcases lookup_insert_eq_some hx with ⟨rfl, rfl⟩ | ⟨hleft, hxold⟩
  · rcases lookup_insert_eq_some hy with ⟨rfl, -⟩ | ⟨hright, hyold⟩
    · exact absurd rfl hne
    · exact fun hR => hvalue _ _ hright hyold (hsymm _ _ hR)
  · rcases lookup_insert_eq_some hy with ⟨rfl, rfl⟩ | ⟨hright, hyold⟩
    · exact hvalue _ _ hleft hxold
    · exact h hxold hyold hne

theorem Apart.update (hsymm : ∀ x y, R x y → R y x) (h : Apart R family) {key : κ}
    {old new : α} (hold : family.lookup key = some old) (hsame : ∀ x, R x new → R x old) :
    Apart R (family.insert key new) :=
  h.insert hsymm fun _ _ hne hlookup hR => h hlookup hold hne (hsame _ hR)

theorem Apart.erase (h : Apart R family) (key : κ) : Apart R (family.erase key) :=
  fun _ _ _ _ hx hy => h (lookup_erase_eq_some hx).2 (lookup_erase_eq_some hy).2

end Apart

end KodeGpt.KeyedFamily
