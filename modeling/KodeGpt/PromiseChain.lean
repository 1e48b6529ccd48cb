import Mathlib.Data.List.Nodup

/-!
Operations that wait for one another along a chain of promises. An operation
takes the tail of the chain as its predecessor and becomes the tail; it may
begin once its predecessor is released, and at its own release it takes itself
off the tail if it still is the tail. The operations that are not released form
a line, and only the first of the line may begin.
-/

namespace KodeGpt.PromiseChain

universe u

variable {ι : Type u}

structure Chain (ι : Type u) where
  tail : Option ι
  previous : ι → Option ι
  released : ι → Bool

namespace Chain

def empty : Chain ι := ⟨none, fun _ => none, fun _ => false⟩

def mayEnter (id : ι) (chain : Chain ι) : Bool :=
  match chain.previous id with
  | none => true
  | some earlier => chain.released earlier

variable [DecidableEq ι]

def join (id : ι) (chain : Chain ι) : Chain ι :=
  { chain with
    tail := some id
    previous := Function.update chain.previous id chain.tail }

def release (id : ι) (chain : Chain ι) : Chain ι :=
  { chain with
    tail := if chain.tail = some id then none else chain.tail
    released := Function.update chain.released id true }

end Chain

/-- The line of the operations that are not released, each behind its
predecessor. -/
structure Ordered (chain : Chain ι) (line : List ι) : Prop where
  nodup : line.Nodup
  tail : chain.tail = line.getLast?
  waiting : ∀ id ∈ line, chain.released id = false
  linked : ∀ before earlier later after, line = before ++ earlier :: later :: after →
    chain.previous later = some earlier

namespace Ordered

variable {chain : Chain ι} {line rest : List ι} {id : ι}

theorem empty : Ordered (Chain.empty : Chain ι) [] where
  nodup := List.nodup_nil
  tail := rfl
  waiting := fun _ hmem => absurd hmem List.not_mem_nil
  linked := by
    intro before earlier later after hline
    simp at hline

theorem head_of_mayEnter (h : Ordered chain line) (hmem : id ∈ line)
    (henter : chain.mayEnter id = true) : ∃ rest, line = id :: rest := by
  obtain ⟨before, after, hline⟩ := List.append_of_mem hmem
  obtain rfl | ⟨front, earlier, rfl⟩ := List.eq_nil_or_concat before
  · exact ⟨after, hline⟩
  · have hprevious : chain.previous id = some earlier := by
      apply h.linked front earlier id after
      rw [hline]
      simp
    have hwaiting := h.waiting earlier (by simp [hline])
    rw [Chain.mayEnter, hprevious] at henter
    exact absurd henter (by simp [hwaiting])

variable [DecidableEq ι]

theorem join (h : Ordered chain line) (hid : id ∉ line) (hreleased : chain.released id = false) :
    Ordered (chain.join id) (line ++ [id]) where
  nodup := by
    rw [List.nodup_append]
    refine ⟨h.nodup, List.nodup_singleton id, ?_⟩
    rintro earlier hearlier later hlater rfl
    obtain rfl := List.mem_singleton.mp hlater
    exact hid hearlier
  tail := by
    simp [Chain.join]
  waiting := by
    intro other hmem
    obtain hmem | hmem := List.mem_append.mp hmem
    · exact h.waiting other hmem
    · obtain rfl := List.mem_singleton.mp hmem
      exact hreleased
  linked := by
    intro before earlier later after hline
    obtain rfl | ⟨middle, last, rfl⟩ := List.eq_nil_or_concat after
    · have hsplit : line ++ [id] = (before ++ [earlier]) ++ [later] := by
        rw [hline]
        simp
      obtain ⟨hfront, hlast⟩ := List.append_inj' hsplit rfl
      obtain rfl := (List.cons.inj hlast).1
      simp [Chain.join, h.tail, hfront]
    · have hsplit : line ++ [id] = (before ++ earlier :: later :: middle) ++ [last] := by
        rw [hline]
        simp
      obtain ⟨hfront, -⟩ := List.append_inj' hsplit rfl
      have hne : later ≠ id := by
        rintro rfl
        exact hid (by simp [hfront])
      exact (Function.update_of_ne hne _ _).trans (h.linked before earlier later middle hfront)

theorem release (h : Ordered chain (id :: rest)) : Ordered (chain.release id) rest where
  nodup := (List.nodup_cons.mp h.nodup).2
  tail := by
    have hid := (List.nodup_cons.mp h.nodup).1
    cases rest with
    | nil => simp [Chain.release, h.tail]
    | cons next later =>
      have hne : (next :: later).getLast? ≠ some id := by
        intro hlast
        exact hid (List.mem_of_getLast? hlast)
      have htail : chain.tail = (next :: later).getLast? := by
        rw [h.tail, List.getLast?_cons_cons]
      rw [Chain.release, htail]
      exact if_neg hne
  waiting := by
    intro other hmem
    have hne : other ≠ id := by
      rintro rfl
      exact (List.nodup_cons.mp h.nodup).1 hmem
    exact (Function.update_of_ne hne _ _).trans (h.waiting other (List.mem_cons_of_mem _ hmem))
  linked := by
    intro before earlier later after hline
    apply h.linked (id :: before) earlier later after
    rw [hline, List.cons_append]

end Ordered

end KodeGpt.PromiseChain
