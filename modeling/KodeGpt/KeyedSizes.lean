import Mathlib.Algebra.Order.BigOperators.Group.List
import Mathlib.Algebra.Order.Ring.Nat
import Mathlib.Data.List.Nodup

/-!
Sized items under distinct keys, some of which are held: the items that are free,
and what they amount to as items come, grow and go.
-/

namespace KodeGpt.KeyedSizes

universe u v

variable {κ : Type u} {α : Type v} [DecidableEq κ] {key : α → κ} {size : α → Nat}

def freeItems (key : α → κ) (held : List κ) (items : List α) : List α :=
  items.filter fun item => !held.contains (key item)

def freeSize (key : α → κ) (size : α → Nat) (held : List κ) (items : List α) : Nat :=
  ((freeItems key held items).map size).sum

def without (key : α → κ) (gone : κ) (items : List α) : List α :=
  items.filter fun item => key item ≠ gone

/-- A key is held for one item. -/
def HeldWithin (key : α → κ) (size : α → Nat) (cap : Nat) (held : List κ) (items : List α) : Prop :=
  ∀ name ∈ held, ∃ item ∈ items, key item = name ∧ size item ≤ cap

section Lists

variable {held : List κ} {items : List α}

theorem mem_freeItems {item : α} :
    item ∈ freeItems key held items ↔ item ∈ items ∧ key item ∉ held := by
  simp [freeItems]

theorem mem_without {item : α} {gone : κ} :
    item ∈ without key gone items ↔ item ∈ items ∧ key item ≠ gone := by
  simp [without]

theorem without_nodup (gone : κ) (hkeys : (items.map key).Nodup) :
    ((without key gone items).map key).Nodup :=
  hkeys.sublist (List.filter_sublist.map key)

theorem freeItems_nodup (hkeys : (items.map key).Nodup) :
    ((freeItems key held items).map key).Nodup :=
  hkeys.sublist (List.filter_sublist.map key)

theorem freeItems_without (gone : κ) :
    freeItems key held (without key gone items) = without key gone (freeItems key held items) :=
  List.filter_comm _ _ _

theorem without_eq_self {gone : κ} (hgone : ∀ item ∈ items, key item ≠ gone) :
    without key gone items = items := by
  rw [without, List.filter_eq_self]
  intro item hitem
  simpa using hgone item hitem

theorem without_append_cons {front back : List α} {item : α}
    (hkeys : ((front ++ item :: back).map key).Nodup) :
    without key (key item) (front ++ item :: back) = front ++ back := by
  rw [List.map_append, List.map_cons, List.nodup_middle, List.nodup_cons, ← List.map_append,
    List.mem_map] at hkeys
  have hrest : without key (key item) (front ++ back) = front ++ back := by
    apply without_eq_self
    intro other hother hkey
    exact hkeys.1 ⟨other, hother, hkey⟩
  rw [without, List.filter_append] at hrest ⊢
  rw [List.filter_cons_of_neg (by simp)]
  exact hrest

theorem sum_without {item : α} (hkeys : (items.map key).Nodup) (hitem : item ∈ items) :
    ((without key (key item) items).map size).sum + size item = (items.map size).sum := by
  induction items with
  | nil => cases hitem
  | cons first rest ih =>
    rw [List.map_cons, List.nodup_cons, List.mem_map] at hkeys
    rcases List.mem_cons.mp hitem with rfl | hrest
    · have hself : without key (key item) rest = rest := by
        apply without_eq_self
        intro other hother hkey
        exact hkeys.1 ⟨other, hother, hkey⟩
      have hhead : without key (key item) (item :: rest) = without key (key item) rest := by
        simp [without]
      rw [hhead, hself, List.map_cons, List.sum_cons, Nat.add_comm]
    · have hfirst : key first ≠ key item := fun hkey => hkeys.1 ⟨item, hrest, hkey.symm⟩
      have hhead : without key (key item) (first :: rest) =
          first :: without key (key item) rest := by
        simp [without, hfirst]
      rw [hhead, List.map_cons, List.sum_cons, List.map_cons, List.sum_cons, ← ih hkeys.2 hrest,
        Nat.add_assoc]

theorem freeSize_without {item : α} (hkeys : (items.map key).Nodup) (hitem : item ∈ items)
    (hfree : key item ∉ held) :
    freeSize key size held (without key (key item) items) + size item =
      freeSize key size held items := by
  rw [freeSize, freeItems_without]
  exact sum_without (freeItems_nodup hkeys) (mem_freeItems.mpr ⟨hitem, hfree⟩)

theorem freeSize_mono {held' : List κ} {items' : List α} (hheld : held ⊆ held')
    (hitems : items'.Sublist items) :
    freeSize key size held' items' ≤ freeSize key size held items := by
  apply List.Sublist.sum_le_sum _ (fun _ _ => Nat.zero_le _)
  apply List.Sublist.map
  have hfewer : (freeItems key held' items').Sublist (freeItems key held items') := by
    apply List.monotone_filter_right
    intro item hitem
    simp only [Bool.not_eq_true', List.contains_eq_mem, decide_eq_false_iff_not] at hitem ⊢
    exact fun hmem => hitem (hheld hmem)
  exact hfewer.trans (hitems.filter _)

theorem freeSize_concat (item : α) :
    freeSize key size held (items ++ [item]) ≤ freeSize key size held items + size item := by
  by_cases hheld : key item ∈ held
  · simp [freeSize, freeItems, List.filter_append, hheld]
  · simp [freeSize, freeItems, List.filter_append, hheld]

theorem freeSize_map {change : α → α} (hkey : ∀ item, key (change item) = key item)
    (hfree : ∀ item, key item ∉ held → change item = item) :
    freeSize key size held (items.map change) = freeSize key size held items := by
  have hmap : freeItems key held (items.map change) = (freeItems key held items).map change := by
    rw [freeItems, List.filter_map]
    simp only [freeItems, Function.comp_def, hkey]
  have hself : (freeItems key held items).map change = freeItems key held items := by
    rw [List.map_congr_left fun item hitem => hfree item (mem_freeItems.mp hitem).2, List.map_id']
  rw [freeSize, hmap, hself, freeSize]

theorem freeSize_release {item : α} (hkeys : (items.map key).Nodup) (hitem : item ∈ items) :
    freeSize key size (held.filter (· ≠ key item)) items ≤
      freeSize key size held items + size item := by
  have hfree : freeItems key held (without key (key item) items) =
      freeItems key (held.filter (· ≠ key item)) (without key (key item) items) := by
    apply List.filter_congr
    intro other hother
    have hne := (mem_without.mp hother).2
    simp [hne]
  have hnot : key item ∉ held.filter (· ≠ key item) := by simp
  calc
    freeSize key size (held.filter (· ≠ key item)) items =
        freeSize key size (held.filter (· ≠ key item)) (without key (key item) items) +
          size item := (freeSize_without hkeys hitem hnot).symm
    _ = freeSize key size held (without key (key item) items) + size item := by
        rw [freeSize, ← hfree, ← freeSize]
    _ ≤ freeSize key size held items + size item := by
        apply Nat.add_le_add_right
        exact freeSize_mono (fun _ => id) List.filter_sublist

theorem length_release {name : κ} (hnodup : held.Nodup) (hname : name ∈ held) :
    (held.filter (· ≠ name)).length + 1 = held.length := by
  have herase : held.erase name = held.filter (· ≠ name) := by
    rw [hnodup.erase_eq_filter]
    apply List.filter_congr
    intro other _
    by_cases hother : other = name <;> simp [hother]
  have hpositive := List.length_pos_of_mem hname
  rw [← herase, List.length_erase_of_mem hname]
  omega

theorem freeSize_release_all {cap : Nat} (hkeys : (items.map key).Nodup) (hnodup : held.Nodup)
    (hheld : HeldWithin key size cap held items) :
    freeSize key size [] items ≤ freeSize key size held items + cap * held.length := by
  induction held with
  | nil => simp
  | cons name rest ih =>
    obtain ⟨item, hitem, rfl, hsize⟩ := hheld name List.mem_cons_self
    rw [List.nodup_cons] at hnodup
    have hrest : (key item :: rest).filter (· ≠ key item) = rest := by
      rw [List.filter_cons_of_neg (by simp), List.filter_eq_self]
      intro other hother
      have hne : other ≠ key item := fun heq => hnodup.1 (heq ▸ hother)
      simpa using hne
    have hlater := ih hnodup.2 fun other hother => hheld other (List.mem_cons_of_mem _ hother)
    have hfirst := @freeSize_release κ α _ key size (key item :: rest) items item hkeys hitem
    rw [hrest] at hfirst
    rw [List.length_cons, Nat.mul_add]
    omega

end Lists

end KodeGpt.KeyedSizes
