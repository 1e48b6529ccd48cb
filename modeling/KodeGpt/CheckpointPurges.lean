import KodeGpt.CheckpointStoreRuns
import KodeGpt.FallibleActions

/-!
What a purge leaves behind: the record of the trust id is gone once it returns,
if no upsert of that id takes its place in the line after it.
-/

namespace KodeGpt.CheckpointPurges

open CheckpointRecords CheckpointStoreRuns
open CheckpointStoreRuns.StoreRun (afterEnter afterRead)
open FallibleActions (bind_eq_ok_iff)

def isUpsert : Operation → Bool
  | .upsert _ _ _ => true
  | _ => false

def upserting : CallPhase → Bool
  | .queued call | .reading call => isUpsert call.operation
  | .writing _ _ _ => true
  | _ => false

/-- Everything that a step can do to the calls and to the file. -/
inductive Move (run : StoreRun) : StoreRun → Prop
  | refuse (id : CallId) (error : StoreError) (hidle : run.calls id = .idle) :
      Move run (run.setPhase id (.rejected error))
  | join (id : CallId) (call : Call) (hidle : run.calls id = .idle) :
      Move run ({ run with chain := run.chain.join id }.setPhase id (.queued call))
  | enter (id : CallId) (call : Call) (hqueued : run.calls id = .queued call)
      (henter : run.chain.mayEnter id = true) : Move run (run.setPhase id (afterEnter call))
  | advance (id : CallId) (phase : CallPhase) (hturn : Holding (run.calls id) = true)
      (hphase : Holding phase = true)
      (hupsert : upserting (run.calls id) = false → upserting phase = false)
      (hremove : ∀ call removed, run.calls id = .removing call removed .remove →
        isMissing run.file = true) :
      Move run (run.setPhase id phase)
  | finish (id : CallId) (phase : CallPhase) (hturn : Holding (run.calls id) = true)
      (hphase : InLine phase = false) (hidle : phase ≠ .idle)
      (hremove : ∀ call removed, run.calls id = .removing call removed .remove →
        ∃ error, phase = .rejected error) :
      Move run (run.finish id phase)
  | replace (id : CallId) (call : Call) (record : WritableRecord)
      (hwriting : run.calls id = .writing call record .rename) :
      Move run ((run.replace id record.file (some record.val)).setPhase id
        (.writing call record .chmodFile))
  | remove (id : CallId) (call : Call) (removed : Bool)
      (hremoving : run.calls id = .removing call removed .remove) :
      Move run ((run.replace id .missing none).setPhase id (.removing call true .openDirectory))

section Moves

variable {run run' : StoreRun} {id : CallId}

theorem afterRead_turn {call : Call} {file : StoredFile} {clock : Option Timestamp}
    {phase : CallPhase} (h : afterRead file clock call = .ok phase) :
    Holding phase = true ∧ (isUpsert call.operation = false → upserting phase = false) := by
  unfold afterRead at h
  obtain ⟨found, -, h⟩ := bind_eq_ok_iff.mp h
  split at h
  · rename_i body captured expected hoperation
    obtain ⟨record, -, h⟩ := bind_eq_ok_iff.mp h
    obtain ⟨written, -, h⟩ := bind_eq_ok_iff.mp h
    obtain rfl := Except.ok.inj h
    refine ⟨rfl, ?_⟩
    rw [hoperation]
    exact nofun
  · obtain ⟨-, -, h⟩ := bind_eq_ok_iff.mp h
    obtain rfl := Except.ok.inj h
    exact ⟨rfl, fun _ => rfl⟩
  · obtain rfl := Except.ok.inj h
    exact ⟨rfl, fun _ => rfl⟩

theorem next_move {event : StoreEvent} (h : run.next event = some run') : Move run run' := by
  cases event with
  | start id request observed =>
    rw [StoreRun.next] at h
    split at h
    · rename_i hidle
      split at h
      · obtain rfl := Option.some.inj h
        exact .refuse id _ hidle
      · split at h
        · obtain rfl := Option.some.inj h
          exact .join id _ hidle
        · cases h
    · cases h
  | enter id =>
    rw [StoreRun.next] at h
    split at h
    · rename_i call hqueued
      split at h
      · rename_i henter
        obtain rfl := Option.some.inj h
        exact .enter id call hqueued henter
      · cases h
    · cases h
  | read id fails clock =>
    rw [StoreRun.next] at h
    split at h
    · rename_i call hreading
      have hturn : Holding (run.calls id) = true := by
        rw [hreading]
        rfl
      have hother : ∀ call removed, run.calls id ≠ .removing call removed .remove := by
        rw [hreading]
        simp
      split at h
      · obtain rfl := Option.some.inj h
        exact .finish id _ hturn rfl (by simp) fun _ _ hremoving => absurd hremoving (hother _ _)
      · split at h
        · obtain rfl := Option.some.inj h
          exact .finish id _ hturn rfl (by simp) fun _ _ hremoving => absurd hremoving (hother _ _)
        · rename_i phase hread
          obtain rfl := Option.some.inj h
          obtain ⟨hphase, hupsert⟩ := afterRead_turn hread
          refine .advance id phase hturn hphase ?_ fun _ _ hremoving =>
            absurd hremoving (hother _ _)
          rw [hreading]
          exact hupsert
    · cases h
  | write id fails =>
    rw [StoreRun.next] at h
    split at h
    · rename_i call record step hwriting
      have hturn : Holding (run.calls id) = true := by
        rw [hwriting]
        rfl
      have hother : ∀ call removed, run.calls id ≠ .removing call removed .remove := by
        rw [hwriting]
        simp
      split at h
      · obtain rfl := Option.some.inj h
        exact .finish id _ hturn rfl (by simp) fun _ _ hremoving => absurd hremoving (hother _ _)
      · split at h
        · rename_i hrename
          subst hrename
          obtain rfl := Option.some.inj h
          exact .replace id call record hwriting
        · split at h
          · rename_i later _
            obtain rfl := Option.some.inj h
            refine .advance id _ hturn rfl ?_ fun _ _ hremoving => absurd hremoving (hother _ _)
            rw [hwriting]
            rintro ⟨⟩
          · obtain rfl := Option.some.inj h
            exact .finish id _ hturn rfl (by simp) fun _ _ hremoving => absurd hremoving (hother _ _)
    · cases h
  | remove id outcome =>
    rw [StoreRun.next] at h
    split at h
    · rename_i call removed hremoving
      have hturn : Holding (run.calls id) = true := by
        rw [hremoving]
        rfl
      split at h
      · obtain rfl := Option.some.inj h
        exact .finish id _ hturn rfl (by simp) fun _ _ _ => ⟨_, rfl⟩
      · split at h
        · rename_i hmissing
          split at h
          · obtain rfl := Option.some.inj h
            exact .advance id _ hturn rfl (fun _ => rfl) fun _ _ _ => hmissing
          · obtain rfl := Option.some.inj h
            exact .finish id _ hturn rfl (by simp) fun _ _ _ => ⟨_, rfl⟩
        · obtain rfl := Option.some.inj h
          exact .remove id call removed hremoving
    · rename_i call removed step hstep hremoving
      have hturn : Holding (run.calls id) = true := by
        rw [hremoving]
        rfl
      have hother : ∀ call removed, run.calls id ≠ .removing call removed .remove := by
        intro call' removed' heq
        rw [hremoving] at heq
        exact hstep (CallPhase.removing.inj heq).2.2
      split at h
      · obtain rfl := Option.some.inj h
        exact .finish id _ hturn rfl (by simp) fun _ _ heq => absurd heq (hother _ _)
      · split at h
        · obtain rfl := Option.some.inj h
          exact .advance id _ hturn rfl (fun _ => rfl) fun _ _ heq => absurd heq (hother _ _)
        · obtain rfl := Option.some.inj h
          exact .finish id _ hturn rfl (by simp) fun _ _ heq => absurd heq (hother _ _)
    · cases h

theorem afterEnter_turn (call : Call) :
    Holding (afterEnter call) = true ∧ upserting (afterEnter call) = isUpsert call.operation := by
  unfold afterEnter
  split
  · rename_i hpurge
    rw [hpurge]
    exact ⟨rfl, rfl⟩
  · exact ⟨rfl, rfl⟩

theorem Move.lined {line : List CallId} (hmove : Move run run') (h : Lined run line) :
    ∃ line', Lined run' line' := by
  cases hmove with
  | refuse id error hidle =>
    refine ⟨line, h.advance ?_ nofun nofun⟩
    rw [hidle]
    rfl
  | join id call hidle => exact ⟨line ++ [id], h.join hidle call⟩
  | enter id call hqueued henter =>
    have hturn := (afterEnter_turn call).1
    have hmem : id ∈ line := by
      rw [h.inLine, hqueued]
      rfl
    obtain ⟨rest, rfl⟩ := h.ordered.head_of_mayEnter hmem henter
    refine ⟨id :: rest, h.advance ?_ (fun _ => rfl) ?_⟩
    · rw [hqueued, inLine_of_holding hturn]
      rfl
    · intro hidle
      rw [hidle] at hturn
      cases hturn
  | advance id phase hturn hphase hupsert hremove =>
    obtain ⟨rest, rfl⟩ := h.head hturn
    refine ⟨id :: rest, h.advance ?_ (fun _ => rfl) ?_⟩
    · rw [inLine_of_holding hphase, inLine_of_holding hturn]
    · rintro rfl
      cases hphase
  | finish id phase hturn hphase hidle hremove =>
    obtain ⟨rest, rfl⟩ := h.head hturn
    exact ⟨rest, h.finish hphase hidle⟩
  | replace id call record hwriting =>
    refine ⟨line, (h.replace _ _).advance ?_ (fun _ => h.holder id ?_) nofun⟩
    · show _ = InLine (run.calls id)
      rw [hwriting]
      rfl
    · rw [hwriting]
      rfl
  | remove id call removed hremoving =>
    refine ⟨line, (h.replace _ _).advance ?_ (fun _ => h.holder id ?_) nofun⟩
    · show _ = InLine (run.calls id)
      rw [hremoving]
      rfl
    · rw [hremoving]
      rfl

end Moves

/-- There is no record, and no call that will write one. -/
structure Emptied (run : StoreRun) : Prop where
  missing : isMissing run.file = true
  quiet : ∀ id, upserting (run.calls id) = false

/-- The purge has its place in the line, and no upsert is behind it. -/
structure Waiting (run : StoreRun) (purge : CallId) (line : List CallId) : Prop where
  phase : ∃ call, call.operation = .purge ∧ (run.calls purge = .queued call ∨
    ∃ removed, run.calls purge = .removing call removed .remove)
  quiet : ∃ before after, line = before ++ purge :: after ∧
    ∀ id ∈ after, upserting (run.calls id) = false

/-- What is known of a purge from its start on. -/
def Cleared (run : StoreRun) (purge : CallId) (line : List CallId) : Prop :=
  Waiting run purge line ∨ Emptied run ∨ ∃ error, run.calls purge = .rejected error

section Purge

variable {run run' : StoreRun} {id purge : CallId} {line : List CallId} {phase : CallPhase}

theorem not_upserting_of_inLine (h : InLine phase = false) : upserting phase = false := by
  cases phase <;> first | rfl | cases h

theorem upserting_setPhase (h : ∀ other, upserting (run.calls other) = false)
    (hphase : upserting phase = false) (other : CallId) :
    upserting ((run.setPhase id phase).calls other) = false :=
  (Function.forall_update_iff run.calls fun _ phase => upserting phase = false).mpr
    ⟨hphase, fun other _ => h other⟩ other

theorem Emptied.move (h : Emptied run) (hmove : Move run run')
    (hjoin : ∀ id call, run.calls id = .idle → run'.calls id = .queued call →
      isUpsert call.operation = false) : Emptied run' := by
  cases hmove with
  | refuse id error hidle => exact ⟨h.missing, upserting_setPhase h.quiet rfl⟩
  | join id call hidle =>
    refine ⟨h.missing, upserting_setPhase h.quiet ?_⟩
    exact hjoin id call hidle (Function.update_self ..)
  | enter id call hqueued henter =>
    refine ⟨h.missing, upserting_setPhase h.quiet ?_⟩
    have hquiet := h.quiet id
    rw [hqueued] at hquiet
    exact (afterEnter_turn call).2.trans hquiet
  | advance id phase hturn hphase hupsert hremove =>
    exact ⟨h.missing, upserting_setPhase h.quiet (hupsert (h.quiet id))⟩
  | finish id phase hturn hphase hidle hremove =>
    exact ⟨h.missing, upserting_setPhase h.quiet (not_upserting_of_inLine hphase)⟩
  | replace id call record hwriting =>
    have hquiet := h.quiet id
    rw [hwriting] at hquiet
    cases hquiet
  | remove id call removed hremoving => exact ⟨rfl, upserting_setPhase h.quiet rfl⟩

theorem setPhase_of_ne {other : CallId} (hother : other ≠ id) :
    (run.setPhase id phase).calls other = run.calls other :=
  Function.update_of_ne hother ..

theorem setPhase_self : (run.setPhase id phase).calls id = phase :=
  Function.update_self ..

theorem Move.rejected (hmove : Move run run') {error : StoreError}
    (h : run.calls purge = .rejected error) : run'.calls purge = .rejected error := by
  have hne : ∀ id, Holding (run.calls id) = true → purge ≠ id := by
    rintro id hturn rfl
    rw [h] at hturn
    cases hturn
  cases hmove with
  | refuse id refused hidle =>
    have hid : purge ≠ id := by
      rintro rfl
      rw [h] at hidle
      cases hidle
    exact (setPhase_of_ne hid).trans h
  | join id call hidle =>
    have hid : purge ≠ id := by
      rintro rfl
      rw [h] at hidle
      cases hidle
    exact (setPhase_of_ne hid).trans h
  | enter id call hqueued henter =>
    have hid : purge ≠ id := by
      rintro rfl
      rw [h] at hqueued
      cases hqueued
    exact (setPhase_of_ne hid).trans h
  | advance id phase hturn => exact (setPhase_of_ne (hne id hturn)).trans h
  | finish id phase hturn => exact (setPhase_of_ne (hne id hturn)).trans h
  | replace id call record hwriting =>
    exact (setPhase_of_ne (hne id (by rw [hwriting]; rfl))).trans h
  | remove id call removed hremoving =>
    exact (setPhase_of_ne (hne id (by rw [hremoving]; rfl))).trans h

theorem Waiting.quiet_at_head (h : Waiting run purge line) (hlined : Lined run line)
    {rest : List CallId} (hline : line = purge :: rest) (other : CallId) :
    upserting (run.calls other) = false := by
  obtain ⟨call, hpurge, hphase⟩ := h.phase
  obtain ⟨before, after, hsplit, hquiet⟩ := h.quiet
  have hnodup := hlined.ordered.nodup
  obtain rfl : before = [] := by
    cases before with
    | nil => rfl
    | cons first before =>
      rw [hline, List.cons_append] at hsplit
      obtain ⟨rfl, hrest⟩ := List.cons.inj hsplit
      rw [hline, hrest] at hnodup
      exact absurd (by simp) (List.nodup_cons.mp hnodup).1
  by_cases hother : other = purge
  · subst hother
    obtain hphase | ⟨removed, hphase⟩ := hphase
    · rw [hphase, upserting, hpurge]
      rfl
    · rw [hphase]
      rfl
  · by_cases hmem : other ∈ line
    · rw [hsplit, List.nil_append, List.mem_cons] at hmem
      exact hquiet other (hmem.resolve_left hother)
    · apply not_upserting_of_inLine
      rw [hlined.inLine, Bool.not_eq_true] at hmem
      exact hmem

theorem Waiting.setPhase (h : Waiting run purge line) (hother : purge ≠ id)
    (hphase : upserting (run.calls id) = false → upserting phase = false) :
    Waiting (run.setPhase id phase) purge line where
  phase := by
    obtain ⟨call, hpurge, hcalls⟩ := h.phase
    refine ⟨call, hpurge, ?_⟩
    rw [setPhase_of_ne hother]
    exact hcalls
  quiet := by
    obtain ⟨before, after, hsplit, hquiet⟩ := h.quiet
    refine ⟨before, after, hsplit, ?_⟩
    intro other hmem
    by_cases hsame : other = id
    · subst hsame
      rw [setPhase_self]
      exact hphase (hquiet other hmem)
    · rw [setPhase_of_ne hsame]
      exact hquiet other hmem

theorem Waiting.line_append (h : Waiting run purge line) (hphase : upserting (run.calls id) = false) :
    Waiting run purge (line ++ [id]) where
  phase := h.phase
  quiet := by
    obtain ⟨before, after, rfl, hquiet⟩ := h.quiet
    refine ⟨before, after ++ [id], by simp, ?_⟩
    intro other hmem
    obtain hmem | hmem := List.mem_append.mp hmem
    · exact hquiet other hmem
    · rw [List.mem_singleton.mp hmem]
      exact hphase

theorem Waiting.line_tail {rest : List CallId} (h : Waiting run purge (id :: rest))
    (hother : purge ≠ id) : Waiting run purge rest where
  phase := h.phase
  quiet := by
    obtain ⟨before, after, hsplit, hquiet⟩ := h.quiet
    cases before with
    | nil => exact absurd (List.cons.inj hsplit).1.symm hother
    | cons first before => exact ⟨before, after, (List.cons.inj hsplit).2, hquiet⟩

/-- The step lemma. -/
theorem Waiting.move (h : Waiting run purge line) (hlined : Lined run line)
    (hmove : Move run run')
    (hjoin : ∀ id call, run.calls id = .idle → run'.calls id = .queued call →
      isUpsert call.operation = false) :
    ∃ line', Lined run' line' ∧ Cleared run' purge line' := by
  obtain ⟨call, hpurge, hcalls⟩ := h.phase
  have hidle : run.calls purge ≠ .idle := by
    intro hidle
    rw [hidle] at hcalls
    obtain hcalls | ⟨removed, hcalls⟩ := hcalls <;> cases hcalls
  cases hmove with
  | refuse id error hid =>
    have hother : purge ≠ id := by
      rintro rfl
      exact hidle hid
    refine ⟨line, hlined.advance ?_ (by rintro ⟨⟩) (by simp), Or.inl (h.setPhase hother fun _ => rfl)⟩
    rw [hid]
    rfl
  | join id joined hid =>
    have hother : purge ≠ id := by
      rintro rfl
      exact hidle hid
    have hquiet : upserting (.queued joined) = false := hjoin id joined hid setPhase_self
    have hjoined : Waiting { run with chain := run.chain.join id } purge line :=
      ⟨h.phase, h.quiet⟩
    refine ⟨line ++ [id], hlined.join hid joined, Or.inl ?_⟩
    apply (hjoined.setPhase hother fun _ => hquiet).line_append
    rw [setPhase_self]
    exact hquiet
  | enter id entering hqueued henter =>
    obtain ⟨hturn, hupsert⟩ := afterEnter_turn entering
    have hmem : id ∈ line := by
      rw [hlined.inLine, hqueued]
      rfl
    obtain ⟨rest, rfl⟩ := hlined.ordered.head_of_mayEnter hmem henter
    refine ⟨id :: rest, hlined.advance ?_ (fun _ => rfl) ?_, ?_⟩
    · rw [hqueued, inLine_of_holding hturn]
      rfl
    · intro hidle
      rw [hidle] at hturn
      cases hturn
    · by_cases hother : purge = id
      · subst hother
        have hentering : entering.operation = .purge := by
          obtain hcalls | ⟨removed, hcalls⟩ := hcalls
          · rw [hqueued] at hcalls
            rw [CallPhase.queued.inj hcalls]
            exact hpurge
          · rw [hqueued] at hcalls
            cases hcalls
        have hphase : afterEnter entering = .removing entering false .remove := by
          rw [afterEnter, hentering]
        refine Or.inl ⟨⟨entering, hentering, Or.inr ⟨false, ?_⟩⟩, [], rest, rfl, ?_⟩
        · rw [setPhase_self, hphase]
        · intro other _
          apply upserting_setPhase (h.quiet_at_head hlined rfl)
          rw [hphase]
          rfl
      · refine Or.inl (h.setPhase hother fun hquiet => ?_)
        rw [hqueued] at hquiet
        exact hupsert.trans hquiet
  | advance id phase hturn hphase hupsert hremove =>
    obtain ⟨rest, rfl⟩ := hlined.head hturn
    refine ⟨id :: rest, hlined.advance ?_ (fun _ => rfl) ?_, ?_⟩
    · rw [inLine_of_holding hphase, inLine_of_holding hturn]
    · rintro rfl
      cases hphase
    · by_cases hother : purge = id
      · subst hother
        have hquiet := h.quiet_at_head hlined rfl
        obtain hcalls | ⟨removed, hcalls⟩ := hcalls
        · rw [hcalls] at hturn
          cases hturn
        · exact Or.inr (Or.inl ⟨hremove call removed hcalls,
            upserting_setPhase hquiet (hupsert (hquiet purge))⟩)
      · exact Or.inl (h.setPhase hother hupsert)
  | finish id phase hturn hphase hdone hremove =>
    obtain ⟨rest, rfl⟩ := hlined.head hturn
    refine ⟨rest, hlined.finish hphase hdone, ?_⟩
    by_cases hother : purge = id
    · subst hother
      obtain hcalls | ⟨removed, hcalls⟩ := hcalls
      · rw [hcalls] at hturn
        cases hturn
      · obtain ⟨error, rfl⟩ := hremove call removed hcalls
        exact Or.inr (Or.inr ⟨error, setPhase_self⟩)
    · have htail : Waiting { run with chain := run.chain.release id } purge rest :=
        ⟨(h.line_tail hother).phase, (h.line_tail hother).quiet⟩
      exact Or.inl (htail.setPhase hother fun _ => not_upserting_of_inLine hphase)
  | replace id writer record hwriting =>
    have hturn : Holding (run.calls id) = true := by
      rw [hwriting]
      rfl
    have hother : purge ≠ id := by
      rintro rfl
      rw [hwriting] at hcalls
      obtain hcalls | ⟨removed, hcalls⟩ := hcalls <;> cases hcalls
    have hreplaced : Waiting (run.replace id record.file (some record.val)) purge line :=
      ⟨h.phase, h.quiet⟩
    refine ⟨line, (hlined.replace _ _).advance ?_ (fun _ => hlined.holder id hturn) (by simp),
      Or.inl (hreplaced.setPhase hother fun hquiet => ?_)⟩
    · exact (inLine_of_holding hturn).symm
    · replace hquiet : upserting (run.calls id) = false := hquiet
      rw [hwriting] at hquiet
      cases hquiet
  | remove id remover removed hremoving =>
    have hturn : Holding (run.calls id) = true := by
      rw [hremoving]
      rfl
    have hlined' : Lined ((run.replace id .missing none).setPhase id
        (.removing remover true .openDirectory)) line :=
      (hlined.replace _ _).advance (inLine_of_holding hturn).symm
        (fun _ => hlined.holder id hturn) (by simp)
    refine ⟨line, hlined', ?_⟩
    by_cases hother : purge = id
    · subst hother
      obtain ⟨rest, hline⟩ := hlined.head hturn
      exact Or.inr (Or.inl ⟨rfl, upserting_setPhase (h.quiet_at_head hlined hline) rfl⟩)
    · have hreplaced : Waiting (run.replace id .missing none) purge line := ⟨h.phase, h.quiet⟩
      exact Or.inl (hreplaced.setPhase hother fun _ => rfl)

theorem Cleared.move (h : Cleared run purge line) (hlined : Lined run line)
    (hmove : Move run run')
    (hjoin : ∀ id call, run.calls id = .idle → run'.calls id = .queued call →
      isUpsert call.operation = false) :
    ∃ line', Lined run' line' ∧ Cleared run' purge line' := by
  obtain hwaiting | hemptied | ⟨error, hrejected⟩ := h
  · exact hwaiting.move hlined hmove hjoin
  · obtain ⟨line', hlined'⟩ := hmove.lined hlined
    exact ⟨line', hlined', Or.inr (Or.inl (hemptied.move hmove hjoin))⟩
  · obtain ⟨line', hlined'⟩ := hmove.lined hlined
    exact ⟨line', hlined', Or.inr (Or.inr ⟨error, hmove.rejected hrejected⟩)⟩

theorem Cleared.emptied (h : Cleared run purge line) {call : Call}
    {checkpoint : Option Checkpoint} (hcall : run.calls purge = .fulfilled call checkpoint) :
    Emptied run := by
  obtain ⟨⟨other, -, hphase⟩, -⟩ | hemptied | ⟨error, hrejected⟩ := h
  · rw [hcall] at hphase
    obtain hphase | ⟨removed, hphase⟩ := hphase <;> cases hphase
  · exact hemptied
  · rw [hcall] at hrejected
    cases hrejected

theorem next_idle {event : StoreEvent}
    (hstart : ∀ id request observed, event ≠ .start id request observed)
    (hnext : run.next event = some run') (hidle : run.calls id = .idle) :
    run'.calls id = .idle := by
  have hset : ∀ other phase, run.calls other ≠ .idle →
      (run.setPhase other phase).calls id = .idle := by
    intro other phase hother
    have hne : id ≠ other := by
      rintro rfl
      exact hother hidle
    rwa [setPhase_of_ne hne]
  have hfinish : ∀ other phase, run.calls other ≠ .idle →
      (run.finish other phase).calls id = .idle := hset
  have hreplace : ∀ other file replacement phase, run.calls other ≠ .idle →
      ((run.replace other file replacement).setPhase other phase).calls id = .idle :=
    fun other _ _ phase => hset other phase
  cases event with
  | start other request observed => exact absurd rfl (hstart other request observed)
  | enter other => grind [StoreRun.next]
  | read other fails clock => grind [StoreRun.next]
  | write other fails => grind [StoreRun.next]
  | remove other outcome => grind [StoreRun.next]

theorem start_cleared (hlined : Lined run line)
    (hnext : run.next (.start purge .purge none) = some run') :
    ∃ line', Lined run' line' ∧ Cleared run' purge line' := by
  rw [StoreRun.next] at hnext
  split at hnext
  · rename_i hidle
    obtain rfl := Option.some.inj hnext
    refine ⟨line ++ [purge], hlined.join hidle _, Or.inl ⟨⟨_, rfl, Or.inl setPhase_self⟩, ?_⟩⟩
    exact ⟨line, [], rfl, by simp⟩
  · cases hnext

end Purge

end KodeGpt.CheckpointPurges
