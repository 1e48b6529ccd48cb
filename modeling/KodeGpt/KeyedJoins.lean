import Mathlib.Data.List.Perm.Subperm

/-!
Rows are joined with a table by their keys: each row takes its entry out of the table. What
can be joined, and what is left of the table, is seen from the keys.
-/

namespace KodeGpt.KeyedJoins

universe u

variable {κ α β : Type u}

def keys (rows : List (κ × α)) : List κ := rows.map Prod.fst

variable [DecidableEq κ]

def remove (key : κ) (table : List (κ × β)) : Option (β × List (κ × β)) :=
  (table.lookup key).map fun value => (value, table.filter fun entry => entry.1 ≠ key)

def join : List (κ × α) → List (κ × β) → Option (List (κ × α × β) × List (κ × β))
  | [], table => some ([], table)
  | (key, row) :: rest, table => do
    let (value, table) ← remove key table
    let (joined, left) ← join rest table
    some ((key, row, value) :: joined, left)

/-- Each row is joined with the entry of its key, and the other entries are left. -/
structure Joined (rows : List (κ × α)) (table : List (κ × β)) (joined : List (κ × α × β))
    (left : List (κ × β)) : Prop where
  same : joined.map (fun entry => (entry.1, entry.2.1)) = rows
  entries : ∀ entry ∈ joined, (entry.1, entry.2.2) ∈ table
  distinct : (keys rows).Nodup
  others : left = table.filter fun entry => entry.1 ∉ keys rows

section Joins

variable {rows : List (κ × α)} {table : List (κ × β)} {joined : List (κ × α × β)}
  {left : List (κ × β)} {key : κ} {value : β}

theorem mem_of_lookup (h : table.lookup key = some value) : (key, value) ∈ table := by
  induction table with
  | nil => cases h
  | cons entry table ih =>
    obtain ⟨other, found⟩ := entry
    rw [List.lookup_cons] at h
    split at h
    · rename_i heq
      obtain rfl := eq_of_beq heq
      obtain rfl := Option.some.inj h
      exact List.mem_cons_self
    · exact List.mem_cons_of_mem _ (ih h)

theorem lookup_isSome_iff : (table.lookup key).isSome = true ↔ key ∈ keys table := by
  induction table with
  | nil => exact iff_of_false Bool.false_ne_true List.not_mem_nil
  | cons entry table ih =>
    obtain ⟨other, found⟩ := entry
    rw [List.lookup_cons, keys, List.map_cons, List.mem_cons]
    by_cases heq : key = other
    · simp [heq]
    · simp only [beq_eq_false_iff_ne.mpr heq, heq, false_or]
      exact ih

theorem mem_keys_filter {other : κ} :
    other ∈ keys (table.filter fun entry => entry.1 ≠ key) ↔ other ∈ keys table ∧ other ≠ key := by
  simp only [keys, List.mem_map, List.mem_filter, decide_eq_true_eq, Prod.exists,
    exists_and_right, exists_eq_right]

theorem join_spec (h : join rows table = some (joined, left)) : Joined rows table joined left := by
  induction rows generalizing table joined with
  | nil =>
    obtain ⟨rfl, rfl⟩ := Prod.mk.inj (Option.some.inj h)
    exact ⟨rfl, nofun, List.nodup_nil, by simp [keys]⟩
  | cons entry rows ih =>
    obtain ⟨key, row⟩ := entry
    rw [join] at h
    obtain ⟨⟨value, smaller⟩, hremove, h⟩ := Option.bind_eq_some_iff.mp h
    obtain ⟨⟨rest, others⟩, hrest, h⟩ := Option.bind_eq_some_iff.mp h
    obtain ⟨rfl, rfl⟩ := Prod.mk.inj (Option.some.inj h)
    obtain ⟨found, hfound, hpair⟩ := Option.map_eq_some_iff.mp hremove
    obtain ⟨rfl, rfl⟩ := Prod.mk.inj hpair
    have hjoined := ih hrest
    have hkey : key ∉ keys rows := by
      intro hmem
      obtain ⟨entry, hentry, rfl⟩ := List.mem_map.mp hmem
      rw [← hjoined.same] at hentry
      obtain ⟨later, hlater, rfl⟩ := List.mem_map.mp hentry
      have hother := (List.mem_filter.mp (hjoined.entries later hlater)).2
      exact absurd rfl (of_decide_eq_true hother)
    refine ⟨?_, ?_, List.nodup_cons.mpr ⟨hkey, hjoined.distinct⟩, ?_⟩
    · rw [List.map_cons, hjoined.same]
    · refine List.forall_mem_cons.mpr ⟨mem_of_lookup hfound, fun later hlater => ?_⟩
      exact (List.mem_filter.mp (hjoined.entries later hlater)).1
    · rw [hjoined.others, List.filter_filter]
      refine List.filter_congr fun later _ => ?_
      have hcons : keys ((key, row) :: rows) = key :: keys rows := rfl
      rw [← Bool.decide_and, decide_eq_decide, hcons, List.mem_cons, not_or]
      exact and_comm

theorem exists_join (hdistinct : (keys rows).Nodup) (hkeys : ∀ key ∈ keys rows, key ∈ keys table) :
    ∃ joined left, join rows table = some (joined, left) := by
  induction rows generalizing table with
  | nil => exact ⟨[], table, rfl⟩
  | cons entry rows ih =>
    obtain ⟨key, row⟩ := entry
    obtain ⟨hkey, hdistinct⟩ := List.nodup_cons.mp hdistinct
    obtain ⟨hfirst, hrest⟩ := List.forall_mem_cons.mp hkeys
    obtain ⟨value, hvalue⟩ := Option.isSome_iff_exists.mp (lookup_isSome_iff.mpr hfirst)
    obtain ⟨joined, left, hjoin⟩ := @ih (table.filter fun entry => entry.1 ≠ key) hdistinct
      fun other hother => mem_keys_filter.mpr
        ⟨hrest other hother, fun heq => hkey (heq ▸ hother)⟩
    have hremove : remove key table =
        some (value, table.filter fun entry => entry.1 ≠ key) := by
      rw [remove, hvalue]
      rfl
    refine ⟨(key, row, value) :: joined, left, ?_⟩
    rw [join, hremove]
    exact Option.bind_eq_some_iff.mpr ⟨_, rfl, Option.bind_eq_some_iff.mpr ⟨_, hjoin, rfl⟩⟩

omit [DecidableEq κ] in
theorem keys_subset_of_length (hdistinct : (keys rows).Nodup)
    (hkeys : ∀ key ∈ keys rows, key ∈ keys table) (hlength : rows.length = table.length) :
    ∀ key ∈ keys table, key ∈ keys rows := by
  have hsubperm := List.subperm_of_subset hdistinct hkeys
  have hperm := hsubperm.perm_of_length_le (Nat.le_of_eq (by
    rw [keys, keys, List.length_map, List.length_map, hlength]))
  exact fun key hkey => hperm.mem_iff.mpr hkey

theorem Joined.left_eq_nil (h : Joined rows table joined left)
    (hkeys : ∀ key ∈ keys rows, key ∈ keys table) (hlength : rows.length = table.length) :
    left = [] := by
  rw [h.others, List.filter_eq_nil_iff]
  intro entry hentry hleft
  exact of_decide_eq_true hleft (keys_subset_of_length h.distinct hkeys hlength entry.1
    (List.mem_map_of_mem hentry))

theorem Joined.keys_mem (h : Joined rows table joined left) :
    ∀ key ∈ keys rows, key ∈ keys table := by
  intro key hkey
  rw [← h.same, keys, List.map_map] at hkey
  obtain ⟨entry, hentry, rfl⟩ := List.mem_map.mp hkey
  exact List.mem_map_of_mem (h.entries entry hentry)

end Joins

end KodeGpt.KeyedJoins
