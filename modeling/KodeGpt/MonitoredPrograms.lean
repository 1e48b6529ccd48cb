import Mathlib.Logic.Basic

/-!
Programs as trees of calls to their surroundings, and monitors that watch the
calls. A program that respects a monitor makes only calls which the monitor
allows, whatever the possible answers are.
-/

namespace KodeGpt.MonitoredPrograms

/-- A program that returns a value, or makes a call and goes on with its
answer. -/
inductive Program (Op : Type) (Answer : Op → Type) (α : Type) where
  | done (value : α)
  | call (op : Op) (next : Answer op → Program Op Answer α)

namespace Program

variable {Op Op' : Type} {Answer : Op → Type} {Answer' : Op' → Type} {α β : Type}

protected def bind (program : Program Op Answer α) (rest : α → Program Op Answer β) :
    Program Op Answer β :=
  match program with
  | .done value => rest value
  | .call op next => .call op fun answer => (next answer).bind rest

instance : Monad (Program Op Answer) where
  pure := .done
  bind := Program.bind

def perform (op : Op) : Program Op Answer (Answer op) :=
  .call op .done

def expand (handler : (op : Op) → Program Op' Answer' (Answer op)) :
    Program Op Answer α → Program Op' Answer' α
  | .done value => .done value
  | .call op next => (handler op).bind fun answer => (next answer).expand handler

end Program

/-- A monitor follows the calls of one program. Which answers are possible may
depend on what it has seen. -/
structure Monitor (Op : Type) (Answer : Op → Type) where
  State : Type
  allowed : State → Op → Prop
  possible : State → (op : Op) → Answer op → Prop
  after : State → (op : Op) → Answer op → State

section Rules

variable {Op Op' : Type} {Answer : Op → Type} {Answer' : Op' → Type} {α β : Type}
  {M : Monitor Op Answer} {N : Monitor Op' Answer'}

/-- From the monitor's state on, every call the program makes is allowed, and it
returns in a state of `post`. -/
def Respects (M : Monitor Op Answer) (s : M.State) (program : Program Op Answer α)
    (post : α → M.State → Prop) : Prop :=
  match program with
  | .done value => post value s
  | .call op next =>
    M.allowed s op ∧
      ∀ answer, M.possible s op answer → Respects M (M.after s op answer) (next answer) post

namespace Respects

theorem done {s : M.State} {value : α} {post : α → M.State → Prop} (h : post value s) :
    Respects M s (pure value) post := h

theorem bind {program : Program Op Answer α} {rest : α → Program Op Answer β}
    {middle : α → M.State → Prop} {post : β → M.State → Prop} {s : M.State}
    (h : Respects M s program middle)
    (hrest : ∀ value t, middle value t → Respects M t (rest value) post) :
    Respects M s (program >>= rest) post := by
  induction program generalizing s with
  | done value => exact hrest value s h
  | call op next ih =>
    refine ⟨h.1, ?_⟩
    intro answer hpossible
    exact ih answer (h.2 answer hpossible)

theorem ite {condition : Prop} [Decidable condition] {yes no : Program Op Answer α}
    {post : α → M.State → Prop} {s : M.State} (hyes : Respects M s yes post)
    (hno : Respects M s no post) : Respects M s (if condition then yes else no) post := by
  by_cases hcondition : condition
  · rw [if_pos hcondition]
    exact hyes
  · rw [if_neg hcondition]
    exact hno

theorem conseq {program : Program Op Answer α} {post post' : α → M.State → Prop} {s : M.State}
    (h : Respects M s program post) (hpost : ∀ value t, post value t → post' value t) :
    Respects M s program post' := by
  induction program generalizing s with
  | done value => exact hpost value s h
  | call op next ih =>
    refine ⟨h.1, ?_⟩
    intro answer hpossible
    exact ih answer (h.2 answer hpossible)

/-- What every handler keeps, the expanded program keeps. -/
theorem expand {handler : (op : Op) → Program Op' Answer' (Answer op)} {I : N.State → Prop}
    (hhandler : ∀ op s, I s → Respects N s (handler op) fun _ => I)
    (program : Program Op Answer α) {s : N.State} (hs : I s) :
    Respects N s (program.expand handler) fun _ => I := by
  induction program generalizing s with
  | done value => exact hs
  | call op next ih => exact bind (hhandler op s hs) fun answer t ht => ih answer ht

end Respects

end Rules

end KodeGpt.MonitoredPrograms
