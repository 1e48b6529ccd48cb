import KodeGpt.PreviewSlots

/-!
The slots of the preview manager: they are never more than the limit, and each start gives
its slot back once.
-/

namespace KodeGpt.SlotReservations

open WorkspaceManager
open ToolSessions (Settings PreviewId PreviewStartInput PreviewRecord
  EvidenceSourceStateRef maxPreviewSessions validateStartInput)
open PreviewSlots

theorem countP_of_agree {α : Type} {p q : α → Bool} {a : α} (hagree : ∀ b, b ≠ a → q b = p b)
    {list : List α} (hnodup : list.Nodup) (ha : a ∈ list) :
    list.countP q + (p a).toNat = list.countP p + (q a).toNat := by
  induction list with
  | nil => cases ha
  | cons b rest ih =>
    obtain ⟨hb, hrest⟩ := List.nodup_cons.mp hnodup
    rw [List.countP_cons, List.countP_cons]
    by_cases hab : b = a
    · subst hab
      have hsame : rest.countP q = rest.countP p := by
        refine List.countP_congr fun c hc => ?_
        rw [hagree c fun heq => hb (heq ▸ hc)]
      rw [hsame]
      cases p b <;> cases q b <;> rfl
    · have hmem : a ∈ rest := (List.mem_cons.mp ha).resolve_left (Ne.symm hab)
      have hih := ih hrest hmem
      rw [hagree b hab]
      omega

structure Inv (s : State) : Prop where
  begun : ∀ call, call ∈ s.begun ↔ s.calls call ≠ .idle
  nodup : s.begun.Nodup
  bounded : s.previews.length + s.pendingStarts ≤ maxPreviewSessions
  counted : s.pendingStarts = s.begun.countP fun call => (s.calls call).holdsSlot

/-- A call is begun or goes on, to a phase with the same input. -/
structure Moves (s : State) (call : CallId) (phase : Phase) (t : State) : Prop where
  calls : t.calls = Function.update s.calls call phase
  busy : phase ≠ .idle
  begun : t.begun = s.begun ∧ s.calls call ≠ .idle ∨
    t.begun = s.begun ++ [call] ∧ s.calls call = .idle
  bounded : s.previews.length + s.pendingStarts ≤ maxPreviewSessions →
    t.previews.length + t.pendingStarts ≤ maxPreviewSessions
  pending : t.pendingStarts + (s.calls call).holdsSlot.toNat =
    s.pendingStarts + phase.holdsSlot.toNat
  input : ∀ input, phase.input = some input →
    s.calls call = .idle ∨ (s.calls call).input = some input

section Steps

variable {P : Type} {settings : Settings P} {s t : State} {call : CallId} {phase : Phase}

theorem inv_start : Inv start where
  begun := fun _ => iff_of_false List.not_mem_nil fun h => h rfl
  nodup := List.nodup_nil
  bounded := Nat.zero_le _
  counted := rfl

theorem Moves.inv (hmoves : Moves s call phase t) (h : Inv s) : Inv t := by
  have hagree : ∀ other, other ≠ call →
      (t.calls other).holdsSlot = (s.calls other).holdsSlot := by
    intro other hother
    rw [hmoves.calls, Function.update_of_ne hother]
  have hself : t.calls call = phase := by rw [hmoves.calls, Function.update_self]
  have hbegun : ∀ other, other ∈ t.begun ↔ t.calls other ≠ .idle := by
    intro other
    by_cases hother : other = call
    · subst hother
      rw [hself]
      refine iff_of_true ?_ hmoves.busy
      obtain ⟨hsame, hbusy⟩ | ⟨hnew, -⟩ := hmoves.begun
      · rw [hsame]
        exact (h.begun other).mpr hbusy
      · rw [hnew]
        exact List.mem_append_right _ List.mem_cons_self
    · rw [hmoves.calls, Function.update_of_ne hother, ← h.begun other]
      obtain ⟨hsame, -⟩ | ⟨hnew, -⟩ := hmoves.begun
      · rw [hsame]
      · rw [hnew, List.mem_append, List.mem_singleton, or_iff_left hother]
  have hnodup : t.begun.Nodup := by
    obtain ⟨hsame, -⟩ | ⟨hnew, hidle⟩ := hmoves.begun
    · exact hsame ▸ h.nodup
    · rw [hnew]
      have hnot : call ∉ s.begun := fun hmem => (h.begun call).mp hmem hidle
      exact List.nodup_append.mpr ⟨h.nodup, List.nodup_singleton _, by
        rintro other hother later hlater rfl
        exact hnot (List.mem_singleton.mp hlater ▸ hother)⟩
  refine ⟨hbegun, hnodup, hmoves.bounded h.bounded, ?_⟩
  have hcount := countP_of_agree hagree hnodup ((hbegun call).mpr (hself ▸ hmoves.busy))
  rw [hself] at hcount
  have hold : t.begun.countP (fun other => (s.calls other).holdsSlot) = s.pendingStarts := by
    rw [h.counted]
    obtain ⟨hsame, -⟩ | ⟨hnew, hidle⟩ := hmoves.begun
    · rw [hsame]
    · rw [hnew, List.countP_append, List.countP_singleton, hidle]
      rfl
  have hpending := hmoves.pending
  omega

theorem Inv.pending_pos (h : Inv s) (hholds : (s.calls call).holdsSlot = true) :
    0 < s.pendingStarts := by
  have hmem : call ∈ s.begun := by
    rw [h.begun]
    intro hidle
    rw [hidle] at hholds
    cases hholds
  rw [h.counted]
  exact List.countP_pos_iff.mpr ⟨call, hmem, hholds⟩

theorem Moves.of_setCall {u : State} (hbusy : s.calls call ≠ .idle) (hphase : phase ≠ .idle)
    (hcalls : u.calls = s.calls) (hbegun : u.begun = s.begun)
    (hlength : u.previews.length ≤ s.previews.length) (hpending : u.pendingStarts = s.pendingStarts)
    (hholds : phase.holdsSlot = (s.calls call).holdsSlot)
    (hinput : ∀ input, phase.input = some input → (s.calls call).input = some input) :
    Moves s call phase (u.setCall call phase) where
  calls := by
    rw [← hcalls]
    rfl
  busy := hphase
  begun := Or.inl ⟨hbegun, hbusy⟩
  bounded := fun hbounded => by
    change u.previews.length + u.pendingStarts ≤ _
    omega
  pending := by
    rw [hholds]
    exact congrArg (· + _) hpending
  input := fun input hphase => Or.inr (hinput input hphase)

theorem Moves.of_answer {old : Phase} (u : State) (hcall : s.calls call = old) (hbusy : old ≠ .idle)
    (hold : old.holdsSlot = false) (hphase : phase ≠ .idle) (hholds : phase.holdsSlot = false)
    (hinput : phase.input = none) (hcalls : u.calls = s.calls) (hbegun : u.begun = s.begun)
    (hlength : u.previews.length ≤ s.previews.length)
    (hpending : u.pendingStarts = s.pendingStarts) :
    Moves s call phase (u.setCall call phase) := by
  subst hcall
  refine Moves.of_setCall hbusy hphase hcalls hbegun hlength hpending (hholds.trans hold.symm) ?_
  intro input hsome
  rw [hinput] at hsome
  cases hsome

theorem Moves.of_failStart (h : Inv s) (hholds : (s.calls call).holdsSlot = true) :
    Moves s call (.settled false) (s.failStart call) where
  calls := rfl
  busy := nofun
  begun := Or.inl ⟨rfl, fun hidle => by rw [hidle] at hholds; cases hholds⟩
  bounded := fun hbounded => by
    change s.previews.length + (s.pendingStarts - 1) ≤ _
    omega
  pending := by
    have hpos := h.pending_pos hholds
    rw [hholds]
    change s.pendingStarts - 1 + 1 = s.pendingStarts + 0
    omega
  input := nofun

/-- Where `#reserveStartSlot` goes on, for a state that differs from the one before in previews
that are gone. -/
theorem reserveStartSlot_moves (s u : State) {input : PreviewStartInput}
    (hcalls : u.calls = s.calls)
    (hbegun : u.begun = s.begun ∧ s.calls call ≠ .idle ∨
      u.begun = s.begun ++ [call] ∧ s.calls call = .idle)
    (hlength : u.previews.length ≤ s.previews.length) (hpending : u.pendingStarts = s.pendingStarts)
    (hholds : (s.calls call).holdsSlot = false)
    (hinput : s.calls call = .idle ∨ (s.calls call).input = some input) (passed : Nat) :
    ∃ phase, Moves s call phase (u.reserveStartSlot call input passed) := by
  have hset : ∀ phase, Function.update u.calls call phase = Function.update s.calls call phase :=
    fun phase => by rw [hcalls]
  have hkeep : ∀ other, some input = some other →
      s.calls call = .idle ∨ (s.calls call).input = some other := by
    rintro other heq
    obtain rfl := Option.some.inj heq
    exact hinput
  unfold State.reserveStartSlot
  split
  · rename_i hroom
    refine ⟨.checkingPort input, hset _, nofun, hbegun, fun _ => hroom, ?_, hkeep⟩
    change u.pendingStarts + 1 + _ = _
    rw [hholds, hpending]
    rfl
  · split
    · rename_i entry _
      refine ⟨.pruning input (entry.place + 1) entry.record.previewId, hset _, nofun, hbegun,
        ?_, ?_, hkeep⟩
      · intro hbounded
        change u.previews.length + u.pendingStarts ≤ _
        omega
      · change u.pendingStarts + _ = _
        rw [hholds, hpending]
        rfl
    · refine ⟨.settled false, hset _, nofun, hbegun, ?_, ?_, nofun⟩
      · intro hbounded
        change u.previews.length + u.pendingStarts ≤ _
        omega
      · change u.pendingStarts + _ = _
        rw [hholds, hpending]
        rfl

theorem length_setPreview_le (s : State) (call : CallId) (record : PreviewRecord) :
    (s.setPreview call record).previews.length ≤ s.previews.length + 1 := by
  unfold State.setPreview
  split
  · change (s.previews.map _).length ≤ _
    rw [List.length_map]
    omega
  · change (s.previews ++ [_]).length ≤ _
    rw [List.length_append, List.length_singleton]

theorem setPreview_same (s : State) (call : CallId) (record : PreviewRecord) :
    (s.setPreview call record).calls = s.calls ∧ (s.setPreview call record).begun = s.begun ∧
      (s.setPreview call record).pendingStarts = s.pendingStarts := by
  unfold State.setPreview
  split
  · exact ⟨rfl, rfl, rfl⟩
  · exact ⟨rfl, rfl, rfl⟩

theorem finishStart_moves (h : Inv s) {input : PreviewStartInput} {previewId : PreviewId}
    {sourceState : EvidenceSourceStateRef}
    (hcall : s.calls call = .running input previewId sourceState) (record : PreviewRecord) :
    Moves s call .awaitingReadiness (s.finishStart call record) where
  calls := by
    have hsame := (setPreview_same s call record).1
    change Function.update (s.setPreview call record).calls call .awaitingReadiness = _
    rw [hsame]
  busy := nofun
  begun := Or.inl ⟨(setPreview_same s call record).2.1, by rw [hcall]; nofun⟩
  bounded := fun hbounded => by
    have hpos := h.pending_pos (show (s.calls call).holdsSlot = true by rw [hcall]; rfl)
    have hlength := length_setPreview_le s call record
    change (s.setPreview call record).previews.length + (s.pendingStarts - 1) ≤ _
    omega
  pending := by
    have hpos := h.pending_pos (show (s.calls call).holdsSlot = true by rw [hcall]; rfl)
    rw [hcall]
    change s.pendingStarts - 1 + 1 = s.pendingStarts + 0
    omega
  input := nofun

theorem length_deletePreview_le (previewId : PreviewId) :
    (s.deletePreview previewId).previews.length ≤ s.previews.length :=
  List.length_filter_le _ _

theorem enter_eq {u : State} (henter : s.enter call = some u) :
    s.calls call = .idle ∧ u = { s with begun := s.begun ++ [call] } := by
  unfold State.enter at henter
  split at henter
  · rename_i hidle
    exact ⟨hidle, (Option.some.inj henter).symm⟩
  · cases henter

theorem Moves.of_enter (hidle : s.calls call = .idle) (hphase : phase ≠ .idle)
    (hholds : phase.holdsSlot = false) :
    Moves s call phase ({ s with begun := s.begun ++ [call] }.setCall call phase) where
  calls := rfl
  busy := hphase
  begun := Or.inr ⟨rfl, hidle⟩
  bounded := id
  pending := by
    rw [hidle, hholds]
    rfl
  input := fun _ _ => Or.inl hidle

theorem moves_of_next (h : Inv s) {event : Event} (hnext : next settings s event = some t) :
    (∃ workspaceId, event = .releaseWorkspace workspaceId ∧ t = s.releaseWorkspace workspaceId) ∨
      ∃ call phase, Moves s call phase t := by
  cases event with
  | releaseWorkspace workspaceId => exact Or.inl ⟨workspaceId, rfl, (Option.some.inj hnext).symm⟩
  | start call input =>
    obtain ⟨u, henter, hnext⟩ := Option.map_eq_some_iff.mp hnext
    obtain ⟨hidle, rfl⟩ := enter_eq henter
    right
    split at hnext
    · rw [← hnext]
      exact ⟨call, reserveStartSlot_moves s { s with begun := s.begun ++ [call] } rfl
        (Or.inr ⟨rfl, hidle⟩) (Nat.le_refl _) rfl (by rw [hidle]; rfl) (Or.inl hidle) 0⟩
    · rw [← hnext]
      exact ⟨call, _, Moves.of_enter hidle nofun rfl⟩
  | pruned call running =>
    dsimp only [next] at hnext
    split at hnext
    · rename_i input passed previewId hcall
      have hbusy : s.calls call ≠ .idle := by rw [hcall]; nofun
      right
      split at hnext
      · rw [← Option.some.inj hnext]
        exact ⟨call, reserveStartSlot_moves s (s.deletePreview previewId) rfl
          (Or.inl ⟨rfl, hbusy⟩) (length_deletePreview_le previewId) rfl (by rw [hcall]; rfl)
          (Or.inr (by rw [hcall]; rfl)) passed⟩
      · rw [← Option.some.inj hnext]
        exact ⟨call, reserveStartSlot_moves s _ rfl (Or.inl ⟨rfl, hbusy⟩) (Nat.le_refl _) rfl
          (by rw [hcall]; rfl) (Or.inr (by rw [hcall]; rfl)) passed⟩
    · cases hnext
  | portChecked call inUse previewId =>
    dsimp only [next] at hnext
    split at hnext
    · rename_i input hcall
      have hbusy : s.calls call ≠ .idle := by rw [hcall]; nofun
      right
      split at hnext
      · rw [← Option.some.inj hnext]
        exact ⟨call, _, Moves.of_setCall hbusy nofun rfl rfl (Nat.le_refl _) rfl
          (by rw [hcall]; rfl) fun _ hinput => by rw [hcall]; exact hinput⟩
      · rw [← Option.some.inj hnext]
        exact ⟨call, _, Moves.of_failStart h (by rw [hcall]; rfl)⟩
    · cases hnext
  | resolved call sourceState =>
    dsimp only [next] at hnext
    split at hnext
    · rename_i input previewId hcall
      have hbusy : s.calls call ≠ .idle := by rw [hcall]; nofun
      right
      split at hnext
      · rw [← Option.some.inj hnext]
        exact ⟨call, _, Moves.of_setCall hbusy nofun rfl rfl (Nat.le_refl _) rfl
          (by rw [hcall]; rfl) fun _ hinput => by rw [hcall]; exact hinput⟩
      · rw [← Option.some.inj hnext]
        exact ⟨call, _, Moves.of_failStart h (by rw [hcall]; rfl)⟩
    · cases hnext
  | started call operationId =>
    dsimp only [next] at hnext
    right
    split at hnext
    · rename_i hcall
      rw [← Option.some.inj hnext]
      exact ⟨call, _, finishStart_moves h hcall _⟩
    · rename_i hcall
      rw [← Option.some.inj hnext]
      exact ⟨call, _, Moves.of_failStart h (by rw [hcall]; rfl)⟩
    · cases hnext
  | inspect call workspaceId previewId =>
    obtain ⟨u, henter, hnext⟩ := Option.map_eq_some_iff.mp hnext
    obtain ⟨hidle, rfl⟩ := enter_eq henter
    right
    split at hnext
    · rw [← hnext]
      exact ⟨call, _, Moves.of_enter hidle nofun rfl⟩
    · rw [← hnext]
      exact ⟨call, _, Moves.of_enter hidle nofun rfl⟩
  | stop call workspaceId previewId =>
    obtain ⟨u, henter, hnext⟩ := Option.map_eq_some_iff.mp hnext
    obtain ⟨hidle, rfl⟩ := enter_eq henter
    right
    split at hnext
    · rw [← hnext]
      exact ⟨call, _, Moves.of_enter hidle nofun rfl⟩
    · rw [← hnext]
      exact ⟨call, _, Moves.of_enter hidle nofun rfl⟩
  | status call running =>
    dsimp only [next] at hnext
    right
    split at hnext
    · rename_i hcall
      rw [← Option.some.inj hnext]
      exact ⟨call, _, Moves.of_answer _ hcall nofun rfl nofun rfl rfl rfl rfl (Nat.le_refl _) rfl⟩
    · rename_i hcall
      rw [← Option.some.inj hnext]
      exact ⟨call, _, Moves.of_answer _ hcall nofun rfl nofun rfl rfl rfl rfl (Nat.le_refl _) rfl⟩
    · rename_i hcall
      rw [← Option.some.inj hnext]
      exact ⟨call, _, Moves.of_answer _ hcall nofun rfl nofun rfl rfl rfl rfl (Nat.le_refl _) rfl⟩
    · rename_i hcall
      rw [← Option.some.inj hnext]
      exact ⟨call, _, Moves.of_answer _ hcall nofun rfl nofun rfl rfl rfl rfl (Nat.le_refl _) rfl⟩
    · rename_i hcall
      rw [← Option.some.inj hnext]
      exact ⟨call, _, Moves.of_answer _ hcall nofun rfl nofun rfl rfl rfl rfl (Nat.le_refl _) rfl⟩
    · rename_i record hcall
      rw [← Option.some.inj hnext]
      exact ⟨call, _, Moves.of_answer _ hcall nofun rfl nofun rfl rfl rfl rfl
        (length_deletePreview_le record.previewId) rfl⟩
    · cases hnext
  | answered call fulfilled =>
    dsimp only [next] at hnext
    right
    split at hnext
    · rename_i record hcall
      split at hnext
      · rw [← Option.some.inj hnext]
        exact ⟨call, _, Moves.of_answer _ hcall nofun rfl nofun rfl rfl rfl rfl
          (length_deletePreview_le record.previewId) rfl⟩
      · rw [← Option.some.inj hnext]
        exact ⟨call, _, Moves.of_answer _ hcall nofun rfl nofun rfl rfl rfl rfl (Nat.le_refl _)
          rfl⟩
    · rename_i hcall
      rw [← Option.some.inj hnext]
      exact ⟨call, _, Moves.of_answer _ hcall nofun rfl nofun rfl rfl rfl rfl (Nat.le_refl _) rfl⟩
    · rename_i hcall
      rw [← Option.some.inj hnext]
      exact ⟨call, _, Moves.of_answer _ hcall nofun rfl nofun rfl rfl rfl rfl (Nat.le_refl _) rfl⟩
    · cases hnext

theorem inv_next (h : Inv s) {event : Event} (hnext : next settings s event = some t) : Inv t := by
  obtain ⟨workspaceId, -, rfl⟩ | ⟨call, phase, hmoves⟩ := moves_of_next h hnext
  · refine ⟨h.begun, h.nodup, ?_, h.counted⟩
    have hlength : (s.releaseWorkspace workspaceId).previews.length ≤ s.previews.length :=
      List.length_filter_le _ _
    have hbounded := h.bounded
    change (s.releaseWorkspace workspaceId).previews.length + s.pendingStarts ≤ _
    omega
  · exact hmoves.inv h

/-- A start that has begun had its input before the step. -/
theorem input_next (h : Inv s) {event : Event} (hnext : next settings s event = some t)
    {other : CallId} (hother : other ∈ s.begun) :
    other ∈ t.begun ∧
      ∀ input, (t.calls other).input = some input → (s.calls other).input = some input := by
  obtain ⟨workspaceId, -, rfl⟩ | ⟨call, phase, hmoves⟩ := moves_of_next h hnext
  · exact ⟨hother, fun _ hinput => hinput⟩
  · constructor
    · obtain ⟨hsame, -⟩ | ⟨hnew, -⟩ := hmoves.begun
      · rwa [hsame]
      · rw [hnew]
        exact List.mem_append_left _ hother
    · intro input hinput
      rw [hmoves.calls] at hinput
      by_cases hcall : other = call
      · subst hcall
        rw [Function.update_self] at hinput
        exact (hmoves.input input hinput).resolve_left ((h.begun other).mp hother)
      · rwa [Function.update_of_ne hcall] at hinput

end Steps

end KodeGpt.SlotReservations
