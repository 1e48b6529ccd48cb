import Mathlib.Data.List.Forall2

/-!
Actions that fail part-way and keep what they have done, with the rules of their
pre- and postconditions. A postcondition has one part for the value an action
returns and one for the error it stops with.
-/

namespace KodeGpt.FallibleActions

variable {σ ε α β : Type}

theorem bind_eq_ok_iff {action : Except ε α} {next : α → Except ε β} {value : β} :
    action >>= next = .ok value ↔ ∃ middle, action = .ok middle ∧ next middle = .ok value := by
  cases action <;> simp [bind, Except.bind]

theorem map_eq_ok_iff {f : α → β} {action : Except ε α} {value : β} :
    action.map f = .ok value ↔ ∃ found, action = .ok found ∧ f found = value := by
  cases action <;> simp [Except.map]

section Lists

variable {f : α → Except ε β} {items : List α}

theorem forall₂_of_mapM {values : List β} (h : items.mapM f = .ok values) :
    List.Forall₂ (fun item value => f item = .ok value) items values := by
  induction items generalizing values with
  | nil =>
    obtain rfl := Except.ok.inj h
    exact .nil
  | cons item rest ih =>
    rw [List.mapM_cons] at h
    obtain ⟨value, hvalue, h⟩ := (bind_eq_ok_iff).mp h
    obtain ⟨later, hlater, h⟩ := (bind_eq_ok_iff).mp h
    obtain rfl := Except.ok.inj h
    exact .cons hvalue (ih hlater)

theorem forall_of_mapM {P : α → Prop} (hf : ∀ item value, f item = .ok value → P item)
    {values : List β} (h : items.mapM f = .ok values) : ∀ item ∈ items, P item := by
  have hall := forall₂_of_mapM h
  clear h
  induction hall with
  | nil => exact List.forall_mem_nil _
  | cons hvalue _ ih => exact List.forall_mem_cons.mpr ⟨hf _ _ hvalue, ih⟩

theorem eq_map_of_mapM {g : α → β} (hf : ∀ item value, f item = .ok value → value = g item)
    {values : List β} (h : items.mapM f = .ok values) : values = items.map g := by
  have hall := forall₂_of_mapM h
  clear h
  induction hall with
  | nil => rfl
  | cons hvalue _ ih => rw [List.map_cons, ih, hf _ _ hvalue]

theorem exists_of_mapM {values : List β} (h : items.mapM f = .ok values) {item : α}
    (hitem : item ∈ items) : ∃ value ∈ values, f item = .ok value := by
  have hall := forall₂_of_mapM h
  clear h
  induction hall with
  | nil => cases hitem
  | cons hvalue _ ih =>
    obtain rfl | hrest := List.mem_cons.mp hitem
    · exact ⟨_, List.mem_cons_self, hvalue⟩
    · obtain ⟨value, hmem, hvalue⟩ := ih hrest
      exact ⟨value, List.mem_cons_of_mem _ hmem, hvalue⟩

theorem mapM_of_forall (h : ∀ item ∈ items, ∃ value, f item = .ok value) :
    ∃ values, items.mapM f = .ok values := by
  induction items with
  | nil => exact ⟨[], rfl⟩
  | cons item rest ih =>
    obtain ⟨⟨value, hvalue⟩, hrest⟩ := List.forall_mem_cons.mp h
    obtain ⟨later, hlater⟩ := ih hrest
    refine ⟨value :: later, ?_⟩
    rw [List.mapM_cons]
    exact (bind_eq_ok_iff).mpr ⟨value, hvalue, (bind_eq_ok_iff).mpr ⟨later, hlater, rfl⟩⟩

/-- Every item has a value that is accepted, or the whole list fails. -/
theorem mapM_all_iff {accepts : β → Bool} :
    (∃ values, items.mapM f = .ok values ∧ values.all accepts = true) ↔
      ∀ item ∈ items, ∃ value, f item = .ok value ∧ accepts value = true := by
  induction items with
  | nil => exact iff_of_true ⟨[], rfl, rfl⟩ (List.forall_mem_nil _)
  | cons item rest ih =>
    rw [List.forall_mem_cons, ← ih, List.mapM_cons]
    constructor
    · rintro ⟨values, hok, hall⟩
      obtain ⟨value, hvalue, hok⟩ := (bind_eq_ok_iff).mp hok
      obtain ⟨later, hlater, hok⟩ := (bind_eq_ok_iff).mp hok
      obtain rfl := Except.ok.inj hok
      obtain ⟨haccepts, hall⟩ := Bool.and_eq_true_iff.mp hall
      exact ⟨⟨value, hvalue, haccepts⟩, later, hlater, hall⟩
    · rintro ⟨⟨value, hvalue, haccepts⟩, later, hlater, hall⟩
      refine ⟨value :: later, (bind_eq_ok_iff).mpr ⟨value, hvalue,
        (bind_eq_ok_iff).mpr ⟨later, hlater, rfl⟩⟩, ?_⟩
      rw [List.all_cons, haccepts, hall]
      rfl

theorem forall_of_forM {check : α → Except ε Unit} {value : Unit}
    (h : items.forM check = .ok value) : ∀ item ∈ items, check item = .ok () := by
  induction items with
  | nil => exact nofun
  | cons item rest ih =>
    rw [List.forM_eq_forM, List.forM_cons] at h
    obtain ⟨_, hitem, hrest⟩ := (bind_eq_ok_iff).mp h
    exact List.forall_mem_cons.mpr ⟨hitem, ih hrest⟩

end Lists

theorem foldlM_range_ok {P : Nat → σ → Prop} {step : σ → Nat → Except ε σ} {count : Nat} {s : σ}
    (hstep : ∀ index < count, ∀ s, P index s → ∃ t, step s index = .ok t ∧ P (index + 1) t)
    (hstart : P 0 s) : ∃ t, (List.range count).foldlM step s = .ok t ∧ P count t := by
  induction count with
  | zero => exact ⟨s, rfl, hstart⟩
  | succ count ih =>
    obtain ⟨t, hfold, ht⟩ := ih fun index hindex => hstep index (Nat.lt_succ_of_lt hindex)
    obtain ⟨u, hlast, hu⟩ := hstep count (Nat.lt_succ_self count) t ht
    refine ⟨u, ?_, hu⟩
    rw [List.range_succ, List.foldlM_append, hfold]
    exact (bind_pure _).trans hlast

/-- From every state of `pre` the action returns in a state of `post`, or stops
in a state of `err`. -/
def Triple (pre : σ → Prop) (action : EStateM ε σ α) (post : α → σ → Prop)
    (err : ε → σ → Prop) : Prop :=
  ∀ s, pre s →
    match action s with
    | .ok value t => post value t
    | .error error t => err error t

def attempt (fails : Bool) (error : ε) (effect : σ → σ) : EStateM ε σ Unit :=
  if fails then throw error else modify effect

def onlyIf (condition : Prop) [Decidable condition] (action : EStateM ε σ Unit) :
    EStateM ε σ Unit :=
  if condition then action else pure ()

/-- Run the action; when it stops, make one last change and stop with the same
error. -/
def onError (action : EStateM ε σ α) (change : σ → σ) : EStateM ε σ α :=
  tryCatch action fun error => do
    modify change
    throw error

theorem get_bind_apply {next : σ → EStateM ε σ β} (s : σ) : (get >>= next) s = next s s := rfl

theorem observing_apply (action : EStateM ε σ α) (s : σ) :
    observing action s =
      match action s with
      | .ok value t => .ok (.ok value) t
      | .error e t => .ok (.error e) t := by
  show EStateM.tryCatch (EStateM.bind action _) _ s = _
  rw [EStateM.tryCatch, EStateM.bind]
  cases action s <;> rfl

def finalState : EStateM.Result ε σ α → σ
  | .ok _ s => s
  | .error _ s => s

namespace Triple

variable {pre pre' : σ → Prop} {post post' : α → σ → Prop} {err err' : ε → σ → Prop}

theorem ok {action : EStateM ε σ α} (h : Triple pre action post err) {s t : σ} {value : α}
    (hs : pre s) (hrun : action s = .ok value t) : post value t := by
  have hend := h s hs
  rw [hrun] at hend
  exact hend

theorem error {action : EStateM ε σ α} (h : Triple pre action post err) {s t : σ} {e : ε}
    (hs : pre s) (hrun : action s = .error e t) : err e t := by
  have hend := h s hs
  rw [hrun] at hend
  exact hend

theorem final {I : σ → Prop} {action : EStateM ε σ α}
    (h : Triple pre action (fun _ => I) (fun _ => I)) {s : σ} (hs : pre s) :
    I (finalState (action s)) := by
  have hend := h s hs
  cases hrun : action s with
  | ok value t =>
    rw [hrun] at hend
    exact hend
  | error e t =>
    rw [hrun] at hend
    exact hend

theorem conseq {action : EStateM ε σ α} (h : Triple pre action post err)
    (hpre : ∀ s, pre' s → pre s) (hpost : ∀ value s, post value s → post' value s)
    (herr : ∀ e s, err e s → err' e s) : Triple pre' action post' err' := by
  intro s hs
  have hend := h s (hpre s hs)
  cases hrun : action s with
  | ok value t =>
    rw [hrun] at hend
    exact hpost value t hend
  | error e t =>
    rw [hrun] at hend
    exact herr e t hend

theorem weaken {action : EStateM ε σ α} (h : Triple pre action post err)
    (hpre : ∀ s, pre' s → pre s) : Triple pre' action post err :=
  h.conseq hpre (fun _ _ => id) (fun _ _ => id)

theorem pure {value : α} (h : ∀ s, pre s → post value s) :
    Triple pre (Pure.pure value : EStateM ε σ α) post err := by
  intro s hs
  exact h s hs

theorem throw {e : ε} (h : ∀ s, pre s → err e s) :
    Triple pre (throwThe ε e : EStateM ε σ α) post err := by
  intro s hs
  exact h s hs

theorem bind (middle : α → σ → Prop) {last : β → σ → Prop} {action : EStateM ε σ α}
    {next : α → EStateM ε σ β} (h : Triple pre action middle err)
    (hnext : ∀ value, Triple (middle value) (next value) last err) :
    Triple pre (action >>= next) last err := by
  intro s hs
  have hend := h s hs
  show match EStateM.bind action next s with
    | .ok value t => last value t
    | .error e t => err e t
  rw [EStateM.bind]
  cases hrun : action s with
  | ok value t =>
    rw [hrun] at hend
    exact hnext value t hend
  | error e t =>
    rw [hrun] at hend
    exact hend

/-- What a precondition says of other things than the state is known. -/
theorem assume {P : Prop} {action : EStateM ε σ α} (h : P → Triple pre action post err) :
    Triple (fun s => P ∧ pre s) action post err :=
  fun s hs => h hs.1 s hs.2

theorem choose {choices : β → σ → Prop} {action : EStateM ε σ α}
    (h : ∀ value, Triple (choices value) action post err) :
    Triple (fun s => ∃ value, choices value s) action post err :=
  fun s hs => h hs.choose s hs.choose_spec

/-- What follows a reading of the state knows the state it has read. -/
theorem bindGet {last : β → σ → Prop} {next : σ → EStateM ε σ β}
    (hnext : ∀ seen, Triple (fun s => s = seen ∧ pre s) (next seen) last err) :
    Triple pre (get >>= next) last err := by
  intro s hs
  exact hnext s s ⟨rfl, hs⟩

theorem modify {change : σ → σ} {post : Unit → σ → Prop} (h : ∀ s, pre s → post () (change s)) :
    Triple pre (modifyGet fun s => ((), change s) : EStateM ε σ Unit) post err := by
  intro s hs
  exact h s hs

theorem ite {condition : Prop} [Decidable condition] {yes no : EStateM ε σ α}
    (hyes : condition → Triple pre yes post err) (hno : ¬condition → Triple pre no post err) :
    Triple pre (if condition then yes else no) post err := by
  by_cases hcondition : condition
  · rw [if_pos hcondition]
    exact hyes hcondition
  · rw [if_neg hcondition]
    exact hno hcondition

theorem onlyIf {condition : Prop} [Decidable condition] {action : EStateM ε σ Unit}
    {post : Unit → σ → Prop} (hyes : condition → Triple pre action post err)
    (hno : ¬condition → ∀ s, pre s → post () s) :
    Triple pre (FallibleActions.onlyIf condition action) post err :=
  Triple.ite hyes fun hcondition => Triple.pure (hno hcondition)

theorem attempt {fails : Bool} {e : ε} {effect : σ → σ} {post : Unit → σ → Prop}
    (hdone : fails = false → ∀ s, pre s → post () (effect s))
    (hfailed : fails = true → ∀ s, pre s → err e s) :
    Triple pre (FallibleActions.attempt fails e effect) post err := by
  refine Triple.ite ?_ ?_
  · intro hfails
    exact Triple.throw (hfailed hfails)
  · intro hfails
    exact Triple.modify (hdone (by simpa using hfails))

/-- What follows a call knows that it has not failed. -/
theorem bindAttempt (middle : σ → Prop) {last : β → σ → Prop} {fails : Bool} {e : ε}
    {effect : σ → σ} {next : Unit → EStateM ε σ β} (heffect : ∀ s, pre s → middle (effect s))
    (hnext : fails = false → Triple middle (next ()) last err)
    (hfailed : fails = true → ∀ s, pre s → err e s) :
    Triple pre (FallibleActions.attempt fails e effect >>= next) last err := by
  cases fails with
  | false =>
    refine Triple.bind (fun _ => middle) (Triple.attempt (fun _ => heffect) ?_) fun _ => hnext rfl
    exact fun hfails => nomatch hfails
  | true =>
    refine Triple.bind (fun _ _ => False) (Triple.attempt ?_ hfailed) fun _ s h => h.elim
    exact fun hfails => nomatch hfails

theorem onError {action : EStateM ε σ α} {change : σ → σ} {failed : ε → σ → Prop}
    (h : Triple pre action post failed) (hchange : ∀ e s, failed e s → err e (change s)) :
    Triple pre (FallibleActions.onError action change) post err := by
  intro s hs
  have hend := h s hs
  show match EStateM.tryCatch action _ s with
    | .ok value t => post value t
    | .error e t => err e t
  rw [EStateM.tryCatch]
  cases hrun : action s with
  | ok value t =>
    rw [hrun] at hend
    exact hend
  | error e t =>
    rw [hrun] at hend
    exact hchange e t hend

/-- An outcome that is observed has the part of the postcondition that belongs
to it. -/
theorem observe {action : EStateM ε σ α} (h : Triple pre action post err) :
    Triple pre (observing action)
      (fun result s => match result with
        | .ok value => post value s
        | .error e => err e s) err' := by
  intro s hs
  have hend := h s hs
  rw [observing_apply]
  cases hrun : action s with
  | ok value t =>
    rw [hrun] at hend
    exact hend
  | error e t =>
    rw [hrun] at hend
    exact hend

theorem ofExcept {result : Except ε α} (hok : ∀ value s, result = .ok value → pre s → post value s)
    (herr : ∀ e s, result = .error e → pre s → err e s) :
    Triple pre (MonadExcept.ofExcept result : EStateM ε σ α) post err := by
  cases result with
  | ok value => exact Triple.pure fun s hs => hok value s rfl hs
  | error e => exact Triple.throw fun s hs => herr e s rfl hs

end Triple

end KodeGpt.FallibleActions
