import Mathlib.Data.List.Nodup

/-!
Calls that wait for an outcome under a key. A ledger keeps every call that was
made and the calls that still wait; it is tracked when the two agree, and the
operations keep it so.
-/

namespace KodeGpt.PendingCalls

universe u v

structure Call (κ : Type u) (ω : Type v) where
  key : κ
  outcomes : List ω

structure Ledger (κ : Type u) (ω : Type v) where
  pending : List (κ × Nat)
  calls : List (Call κ ω)

variable {κ : Type u} {ω : Type v}

def Call.give (outcome : ω) (call : Call κ ω) : Call κ ω :=
  { call with outcomes := call.outcomes ++ [outcome] }

namespace Ledger

def empty : Ledger κ ω := ⟨[], []⟩

def start (key : κ) (ledger : Ledger κ ω) : Ledger κ ω :=
  ⟨ledger.pending ++ [(key, ledger.calls.length)], ledger.calls ++ [⟨key, []⟩]⟩

def refuse (key : κ) (outcome : ω) (ledger : Ledger κ ω) : Ledger κ ω :=
  ⟨ledger.pending, ledger.calls ++ [⟨key, [outcome]⟩]⟩

def settleAll (outcome : ω) (ledger : Ledger κ ω) : Ledger κ ω :=
  ⟨[], ledger.pending.foldl (fun calls entry => calls.modify entry.2 (Call.give outcome))
    ledger.calls⟩

section Keyed

variable [DecidableEq κ]

def find (key : κ) (ledger : Ledger κ ω) : Option Nat :=
  (ledger.pending.find? fun entry => entry.1 = key).map Prod.snd

def settle (key : κ) (index : Nat) (outcome : ω) (ledger : Ledger κ ω) : Ledger κ ω :=
  ⟨ledger.pending.filter fun entry => entry.1 ≠ key,
    ledger.calls.modify index (Call.give outcome)⟩

theorem mem_of_find {key : κ} {index : Nat} {ledger : Ledger κ ω}
    (hfind : ledger.find key = some index) : (key, index) ∈ ledger.pending := by
  obtain ⟨entry, hentry, rfl⟩ := Option.map_eq_some_iff.mp hfind
  have hkey : entry.1 = key := by simpa using List.find?_some hentry
  rw [← hkey]
  exact List.mem_of_find?_eq_some hentry

theorem notMem_of_find {key : κ} {ledger : Ledger κ ω} (hfind : ledger.find key = none) :
    key ∉ ledger.pending.map Prod.fst := by
  intro hmem
  obtain ⟨entry, hentry, rfl⟩ := List.mem_map.mp hmem
  have hnone := List.find?_eq_none.mp (Option.map_eq_none_iff.mp hfind) entry hentry
  simp at hnone

end Keyed

/-- The waiting calls are the calls without an outcome, each under its own key,
and no call has more than one. -/
structure Tracked (ledger : Ledger κ ω) : Prop where
  keys : (ledger.pending.map Prod.fst).Nodup
  entry : ∀ key index, (key, index) ∈ ledger.pending →
    ledger.calls[index]? = some ⟨key, []⟩
  waits : ∀ (index : Nat) call, ledger.calls[index]? = some call → call.outcomes = [] →
    (call.key, index) ∈ ledger.pending
  once : ∀ (index : Nat) call, ledger.calls[index]? = some call → call.outcomes.length ≤ 1

/-- Every outcome was given for a reason. -/
def Sourced (reason : κ → ω → Prop) (ledger : Ledger κ ω) : Prop :=
  ∀ (index : Nat) call, ledger.calls[index]? = some call →
    ∀ outcome ∈ call.outcomes, reason call.key outcome

/-- No call is lost and no outcome is taken back. -/
def Extends (earlier later : Ledger κ ω) : Prop :=
  ∀ (index : Nat) call, earlier.calls[index]? = some call →
    ∃ more, later.calls[index]? = some ⟨call.key, call.outcomes ++ more⟩

theorem getElem?_give (calls : List (Call κ ω)) (place index : Nat) (outcome : ω) :
    (calls.modify place (Call.give outcome))[index]? =
      if place = index then calls[index]?.map (Call.give outcome) else calls[index]? := by
  rw [List.getElem?_modify]
  split <;> simp

theorem getElem?_concat {calls : List (Call κ ω)} {last call : Call κ ω} {index : Nat}
    (hcall : (calls ++ [last])[index]? = some call) :
    calls[index]? = some call ∨ (index = calls.length ∧ call = last) := by
  by_cases hlt : index < calls.length
  · rw [List.getElem?_append_left hlt] at hcall
    exact Or.inl hcall
  · rw [List.getElem?_append_right (Nat.le_of_not_lt hlt)] at hcall
    have hzero : index - calls.length = 0 := by
      by_contra hne
      obtain ⟨less, hless⟩ := Nat.exists_eq_succ_of_ne_zero hne
      rw [hless] at hcall
      cases hcall
    rw [hzero] at hcall
    exact Or.inr ⟨by omega, (Option.some.inj hcall).symm⟩

theorem getElem?_concat_of {calls : List (Call κ ω)} {call : Call κ ω} {index : Nat}
    (hcall : calls[index]? = some call) (last : Call κ ω) :
    (calls ++ [last])[index]? = some call := by
  obtain ⟨hlt, -⟩ := List.getElem?_eq_some_iff.mp hcall
  rw [List.getElem?_append_left hlt, hcall]

namespace Tracked

variable {ledger : Ledger κ ω}

theorem empty : Tracked (Ledger.empty : Ledger κ ω) where
  keys := List.nodup_nil
  entry := fun _ _ hmem => absurd hmem List.not_mem_nil
  waits := by
    intro index call hcall
    simp [Ledger.empty] at hcall
  once := by
    intro index call hcall
    simp [Ledger.empty] at hcall

theorem start (h : Tracked ledger) {key : κ} (hkey : key ∉ ledger.pending.map Prod.fst) :
    Tracked (ledger.start key) where
  keys := by
    rw [Ledger.start, List.map_append, List.nodup_append]
    refine ⟨h.keys, by simp, ?_⟩
    rintro first hfirst second hsecond rfl
    obtain rfl : first = key := by simpa using hsecond
    exact hkey hfirst
  entry := by
    intro later index hmem
    obtain hmem | hmem := List.mem_append.mp hmem
    · exact getElem?_concat_of (h.entry later index hmem) _
    · obtain ⟨rfl, rfl⟩ := Prod.mk.inj (List.mem_singleton.mp hmem)
      simp [Ledger.start]
  waits := by
    intro index call hcall hnone
    obtain hcall | ⟨rfl, rfl⟩ := getElem?_concat hcall
    · exact List.mem_append_left _ (h.waits index call hcall hnone)
    · exact List.mem_append_right _ List.mem_cons_self
  once := by
    intro index call hcall
    obtain hcall | ⟨rfl, rfl⟩ := getElem?_concat hcall
    · exact h.once index call hcall
    · exact Nat.zero_le 1

theorem refuse (h : Tracked ledger) (key : κ) (outcome : ω) :
    Tracked (ledger.refuse key outcome) where
  keys := h.keys
  entry := fun later index hmem => getElem?_concat_of (h.entry later index hmem) _
  waits := by
    intro index call hcall hnone
    obtain hcall | ⟨rfl, rfl⟩ := getElem?_concat hcall
    · exact h.waits index call hcall hnone
    · cases hnone
  once := by
    intro index call hcall
    obtain hcall | ⟨rfl, rfl⟩ := getElem?_concat hcall
    · exact h.once index call hcall
    · exact Nat.le_refl 1

theorem index_unique (h : Tracked ledger) {key : κ} {first second : Nat}
    (hfirst : (key, first) ∈ ledger.pending) (hsecond : (key, second) ∈ ledger.pending) :
    first = second := by
  have heq := List.inj_on_of_nodup_map h.keys hfirst hsecond rfl
  exact (Prod.mk.inj heq).2

theorem settle [DecidableEq κ] (h : Tracked ledger) {key : κ} {place : Nat}
    (hplace : (key, place) ∈ ledger.pending) (outcome : ω) :
    Tracked (ledger.settle key place outcome) where
  keys := h.keys.sublist ((List.filter_sublist).map _)
  entry := by
    intro later index hmem
    obtain ⟨hmem, hlater⟩ := List.mem_filter.mp hmem
    have hne : place ≠ index := by
      rintro rfl
      have hcall := h.entry key place hplace
      rw [h.entry later place hmem] at hcall
      have hkey := congrArg Call.key (Option.some.inj hcall)
      simp at hlater
      exact hlater hkey
    rw [Ledger.settle, getElem?_give, if_neg hne]
    exact h.entry later index hmem
  waits := by
    intro index call hcall hnone
    rw [Ledger.settle, getElem?_give] at hcall
    split at hcall
    · obtain ⟨earlier, -, rfl⟩ := Option.map_eq_some_iff.mp hcall
      simp [Call.give] at hnone
    · next hne =>
        have hwaits := h.waits index call hcall hnone
        refine List.mem_filter.mpr ⟨hwaits, ?_⟩
        rw [decide_eq_true_eq]
        intro hkey
        change call.key = key at hkey
        rw [hkey] at hwaits
        exact hne (h.index_unique hplace hwaits)
  once := by
    intro index call hcall
    rw [Ledger.settle, getElem?_give] at hcall
    split at hcall
    · next heq =>
        rw [← heq, h.entry key place hplace] at hcall
        obtain rfl := Option.some.inj hcall
        exact Nat.le_refl 1
    · exact h.once index call hcall

theorem settleAll [DecidableEq κ] (h : Tracked ledger) (outcome : ω) :
    Tracked (ledger.settleAll outcome) := by
  obtain ⟨pending, calls⟩ := ledger
  induction pending generalizing calls with
  | nil => exact h
  | cons first rest ih =>
    have hplace : (first.1, first.2) ∈ first :: rest := List.mem_cons_self
    have hfirst := h.settle hplace outcome
    have hrest : (first :: rest).filter (fun entry => entry.1 ≠ first.1) = rest := by
      have hkeys := (List.nodup_cons.mp h.keys).1
      rw [List.filter_cons_of_neg (by simp), List.filter_eq_self]
      intro entry hentry
      rw [decide_eq_true_eq]
      intro heq
      exact hkeys (heq ▸ List.mem_map_of_mem hentry)
    rw [Ledger.settle, hrest] at hfirst
    exact ih _ hfirst

/-- When nothing waits, each call has its one outcome. -/
theorem settled (h : Tracked ledger) (hnone : ledger.pending = []) :
    ∀ call ∈ ledger.calls, call.outcomes.length = 1 := by
  intro call hmem
  obtain ⟨index, hcall⟩ := List.mem_iff_getElem?.mp hmem
  have honce := h.once index call hcall
  have hsome : call.outcomes ≠ [] := by
    intro hempty
    have hwaits := h.waits index call hcall hempty
    rw [hnone] at hwaits
    exact absurd hwaits List.not_mem_nil
  have hpos := List.length_pos_iff.mpr hsome
  omega

end Tracked

namespace Sourced

variable {reason : κ → ω → Prop} {ledger : Ledger κ ω}

theorem start (h : Sourced reason ledger) (key : κ) : Sourced reason (ledger.start key) := by
  intro index call hcall
  obtain hcall | ⟨rfl, rfl⟩ := getElem?_concat hcall
  · exact h index call hcall
  · exact fun outcome hmem => absurd hmem List.not_mem_nil

theorem refuse (h : Sourced reason ledger) {key : κ} {outcome : ω} (hreason : reason key outcome) :
    Sourced reason (ledger.refuse key outcome) := by
  intro index call hcall
  obtain hcall | ⟨rfl, rfl⟩ := getElem?_concat hcall
  · exact h index call hcall
  · intro given hmem
    obtain rfl := List.mem_singleton.mp hmem
    exact hreason

theorem give {calls : List (Call κ ω)} {pending later : List (κ × Nat)} {place : Nat}
    {outcome : ω} (h : Sourced reason ⟨pending, calls⟩)
    (hreason : ∀ call, calls[place]? = some call → reason call.key outcome) :
    Sourced reason ⟨later, calls.modify place (Call.give outcome)⟩ := by
  intro index call hcall given hmem
  change (calls.modify place (Call.give outcome))[index]? = some call at hcall
  rw [getElem?_give] at hcall
  split at hcall
  · next heq =>
      obtain ⟨earlier, hearlier, rfl⟩ := Option.map_eq_some_iff.mp hcall
      obtain hmem | hmem := List.mem_append.mp hmem
      · exact h index earlier hearlier given hmem
      · obtain rfl := List.mem_singleton.mp hmem
        exact hreason earlier (heq ▸ hearlier)
  · exact h index call hcall given hmem

theorem settleAll (h : Sourced reason ledger) {outcome : ω} (hreason : ∀ key, reason key outcome) :
    Sourced reason (ledger.settleAll outcome) := by
  obtain ⟨pending, calls⟩ := ledger
  induction pending generalizing calls with
  | nil => exact h
  | cons first rest ih => exact ih _ (h.give fun call _ => hreason call.key)

end Sourced

namespace Extends

theorem refl (ledger : Ledger κ ω) : Extends ledger ledger := by
  intro index call hcall
  exact ⟨[], by rw [List.append_nil]; exact hcall⟩

theorem trans {first second third : Ledger κ ω} (hfirst : Extends first second)
    (hsecond : Extends second third) : Extends first third := by
  intro index call hcall
  obtain ⟨more, hmore⟩ := hfirst index call hcall
  obtain ⟨most, hmost⟩ := hsecond index _ hmore
  exact ⟨more ++ most, by rw [hmost, List.append_assoc]⟩

theorem start (ledger : Ledger κ ω) (key : κ) : Extends ledger (ledger.start key) := by
  intro index call hcall
  exact ⟨[], by rw [List.append_nil]; exact getElem?_concat_of hcall _⟩

theorem refuse (ledger : Ledger κ ω) (key : κ) (outcome : ω) :
    Extends ledger (ledger.refuse key outcome) := by
  intro index call hcall
  exact ⟨[], by rw [List.append_nil]; exact getElem?_concat_of hcall _⟩

theorem give (calls : List (Call κ ω)) (pending later : List (κ × Nat)) (place : Nat)
    (outcome : ω) :
    Extends ⟨pending, calls⟩ ⟨later, calls.modify place (Call.give outcome)⟩ := by
  intro index call hcall
  change calls[index]? = some call at hcall
  change ∃ more, (calls.modify place (Call.give outcome))[index]? = _
  rw [getElem?_give, hcall]
  split
  · exact ⟨[outcome], rfl⟩
  · exact ⟨[], by rw [List.append_nil]⟩

theorem settleAll (ledger : Ledger κ ω) (outcome : ω) :
    Extends ledger (ledger.settleAll outcome) := by
  obtain ⟨pending, calls⟩ := ledger
  induction pending generalizing calls with
  | nil => exact refl _
  | cons first rest ih => exact (give calls _ rest first.2 outcome).trans (ih _)

end Extends

theorem Extends.keeps {earlier later : Ledger κ ω} (hextends : Extends earlier later)
    (hlater : Tracked later) {index : Nat} {call : Call κ ω}
    (hcall : earlier.calls[index]? = some call) (hsettled : call.outcomes ≠ []) :
    later.calls[index]? = some call := by
  obtain ⟨more, hmore⟩ := hextends index call hcall
  have honce := hlater.once index _ hmore
  have hpos := List.length_pos_iff.mpr hsettled
  have hnone : more = [] := by
    apply List.length_eq_zero_iff.mp
    simp only [List.length_append] at honce
    omega
  rw [hmore, hnone, List.append_nil]

end Ledger

end KodeGpt.PendingCalls
