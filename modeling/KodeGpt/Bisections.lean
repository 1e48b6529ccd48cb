import Mathlib.Order.Basic

/-!
Binary search for the largest count whose trial is good, where fewer is good
whenever more is: one search that narrows two bounds to the count, and one that
keeps the best trial it has seen.
-/

namespace KodeGpt.Bisections

/-- Fewer is good whenever more is. -/
def DownwardClosed (good : Nat → Bool) : Prop :=
  ∀ less more, less ≤ more → good more = true → good less = true

/-- The largest count up to `bound` that is good. -/
structure IsLargest (good : Nat → Bool) (bound count : Nat) : Prop where
  bounded : count ≤ bound
  isGood : good count = true
  largest : ∀ other, other ≤ bound → good other = true → other ≤ count

/-- The middle is rounded up, so that `low` moves whenever it is good. -/
def narrow (good : Nat → Bool) (low high : Nat) : Nat :=
  if low < high then
    if good ((low + high + 1) / 2) then narrow good ((low + high + 1) / 2) high
    else narrow good low ((low + high + 1) / 2 - 1)
  else low
termination_by high - low

theorem narrow_isLargest {good : Nat → Bool} (hclosed : DownwardClosed good) {bound low high : Nat}
    (hlow : good low = true) (hbounds : low ≤ high) (hbound : high ≤ bound)
    (hhigh : ∀ other, other ≤ bound → good other = true → other ≤ high) :
    IsLargest good bound (narrow good low high) := by
  induction low, high using narrow.induct good with
  | case1 low high hlt hgood ih =>
    rw [narrow, if_pos hlt, if_pos hgood]
    exact ih hgood (by omega) hbound hhigh
  | case2 low high hlt hbad ih =>
    rw [narrow, if_pos hlt, if_neg hbad]
    refine ih hlow (by omega) (by omega) fun other hother hgood => ?_
    by_contra habove
    exact hbad (hclosed _ other (by omega) hgood)
  | case3 low high hle =>
    rw [narrow, if_neg hle]
    obtain rfl : low = high := by omega
    exact ⟨hbound, hlow, hhigh⟩

section Best

variable {α : Type}

/-- The search runs over the counts from `low` to below `stop`. -/
def searchBest (trial : Nat → α) (good : α → Bool) (low stop : Nat) (best : α) : α :=
  if low < stop then
    if good (trial ((low + stop - 1) / 2)) then
      searchBest trial good ((low + stop - 1) / 2 + 1) stop (trial ((low + stop - 1) / 2))
    else searchBest trial good low ((low + stop - 1) / 2) best
  else best
termination_by stop - low

end Best

end KodeGpt.Bisections
