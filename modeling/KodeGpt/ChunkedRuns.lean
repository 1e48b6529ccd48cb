import Mathlib.Data.List.Basic

/-!
A machine that takes one item at a time, gives out values and may fail. When
its input comes in chunks and a chunk's values are handed out together, a
failure within the chunk takes the values of the chunk with it.
-/

namespace KodeGpt.ChunkedRuns

variable {State Item Output Failure : Type} (step : State → Item → Except Failure (List Output × State))

def run : State → List Item → List Output × Except Failure State
  | state, [] => ([], .ok state)
  | state, item :: rest =>
    match step state item with
    | .error failure => ([], .error failure)
    | .ok (outputs, next) => (outputs ++ (run next rest).1, (run next rest).2)

def runChunk (state : State) (chunk : List Item) : Except Failure (List Output × State) :=
  (run step state chunk).2.map fun next => ((run step state chunk).1, next)

def runChunks : State → List (List Item) → List Output × Except Failure State
  | state, [] => ([], .ok state)
  | state, chunk :: rest =>
    match runChunk step state chunk with
    | .error failure => ([], .error failure)
    | .ok (outputs, next) => (outputs ++ (runChunks next rest).1, (runChunks next rest).2)

/-- A chunk gives something out and then fails. -/
def LosesOutput (state : State) (chunks : List (List Item)) : Prop :=
  ∃ before chunk after next failure, chunks = before ++ chunk :: after ∧
    (run step state before.flatten).2 = .ok next ∧
      (run step next chunk).2 = .error failure ∧ (run step next chunk).1 ≠ []

variable {step}

theorem run_append (state : State) (front rest : List Item) :
    run step state (front ++ rest) =
      match (run step state front).2 with
      | .error failure => ((run step state front).1, .error failure)
      | .ok next => ((run step state front).1 ++ (run step next rest).1, (run step next rest).2) := by
  induction front generalizing state with
  | nil => rfl
  | cons item front ih =>
    rw [List.cons_append, run, run]
    cases step state item with
    | error failure => rfl
    | ok result =>
      simp only [ih]
      cases (run step result.2 front).2 with
      | error failure => rfl
      | ok next => simp only [List.append_assoc]

theorem run_append_ok {state next : State} {front : List Item}
    (hfront : (run step state front).2 = .ok next) (rest : List Item) :
    run step state (front ++ rest) =
      ((run step state front).1 ++ (run step next rest).1, (run step next rest).2) := by
  rw [run_append, hfront]

theorem run_append_error {state : State} {failure : Failure} {front : List Item}
    (hfront : (run step state front).2 = .error failure) (rest : List Item) :
    run step state (front ++ rest) = ((run step state front).1, .error failure) := by
  rw [run_append, hfront]

theorem runChunk_ok {state next : State} {chunk : List Item}
    (hchunk : (run step state chunk).2 = .ok next) :
    runChunk step state chunk = .ok ((run step state chunk).1, next) := by
  rw [runChunk, hchunk]
  rfl

theorem runChunk_error {state : State} {failure : Failure} {chunk : List Item}
    (hchunk : (run step state chunk).2 = .error failure) :
    runChunk step state chunk = .error failure := by
  rw [runChunk, hchunk]
  rfl

theorem runChunks_snd (state : State) (chunks : List (List Item)) :
    (runChunks step state chunks).2 = (run step state chunks.flatten).2 := by
  induction chunks generalizing state with
  | nil => rfl
  | cons chunk rest ih =>
    rw [runChunks, List.flatten_cons]
    cases hchunk : (run step state chunk).2 with
    | error failure => rw [runChunk_error hchunk, run_append_error hchunk]
    | ok next =>
      rw [runChunk_ok hchunk, run_append_ok hchunk]
      exact ih next

theorem runChunks_singletons (state : State) (items : List Item) :
    runChunks step state (items.map fun item => [item]) = run step state items := by
  induction items generalizing state with
  | nil => rfl
  | cons item rest ih =>
    rw [List.map_cons, runChunks, run, runChunk, run]
    cases step state item with
    | error failure => rfl
    | ok result =>
      simp only [run, Except.map, List.append_nil, ih]

theorem losesOutput_cons_error {state : State} {failure : Failure} {chunk : List Item}
    (hchunk : (run step state chunk).2 = .error failure) (rest : List (List Item)) :
    LosesOutput step state (chunk :: rest) ↔ (run step state chunk).1 ≠ [] := by
  constructor
  · rintro ⟨before, last, after, next, failed, hsplit, hbefore, hlast, hlost⟩
    cases before with
    | nil =>
      obtain ⟨rfl, -⟩ := List.cons.inj hsplit
      obtain rfl := Except.ok.inj hbefore
      exact hlost
    | cons first before =>
      obtain ⟨rfl, -⟩ := List.cons.inj hsplit
      rw [List.flatten_cons, run_append_error hchunk] at hbefore
      cases hbefore
  · intro hlost
    exact ⟨[], chunk, rest, state, failure, rfl, rfl, hchunk, hlost⟩

theorem losesOutput_cons_ok {state next : State} {chunk : List Item}
    (hchunk : (run step state chunk).2 = .ok next) (rest : List (List Item)) :
    LosesOutput step state (chunk :: rest) ↔ LosesOutput step next rest := by
  constructor
  · rintro ⟨before, last, after, other, failed, hsplit, hbefore, hlast, hlost⟩
    cases before with
    | nil =>
      obtain ⟨rfl, -⟩ := List.cons.inj hsplit
      obtain rfl := Except.ok.inj hbefore
      rw [hchunk] at hlast
      cases hlast
    | cons first before =>
      obtain ⟨rfl, hrest⟩ := List.cons.inj hsplit
      rw [List.flatten_cons, run_append_ok hchunk] at hbefore
      exact ⟨before, last, after, other, failed, hrest, hbefore, hlast, hlost⟩
  · rintro ⟨before, last, after, other, failed, hsplit, hbefore, hlast, hlost⟩
    refine ⟨chunk :: before, last, after, other, failed, by rw [hsplit]; rfl, ?_, hlast, hlost⟩
    rw [List.flatten_cons, run_append_ok hchunk]
    exact hbefore

/-- The chunks give out what the items give out one by one, exactly when no chunk
gives something out and then fails. -/
theorem runChunks_fst_iff (state : State) (chunks : List (List Item)) :
    (runChunks step state chunks).1 = (run step state chunks.flatten).1 ↔
      ¬ LosesOutput step state chunks := by
  induction chunks generalizing state with
  | nil =>
    refine ⟨fun _ => ?_, fun _ => rfl⟩
    rintro ⟨before, chunk, after, -, -, hsplit, -⟩
    simp at hsplit
  | cons chunk rest ih =>
    rw [runChunks, List.flatten_cons]
    cases hchunk : (run step state chunk).2 with
    | error failure =>
      rw [runChunk_error hchunk, run_append_error hchunk, losesOutput_cons_error hchunk,
        Decidable.not_not, eq_comm]
    | ok next =>
      rw [runChunk_ok hchunk, run_append_ok hchunk, losesOutput_cons_ok hchunk, ← ih next]
      exact List.append_right_inj _

end KodeGpt.ChunkedRuns
