import KodeGpt.ConcurrentMutations

/-!
What an edit, an update or a deletion replaces or removes: the contents that it
has decided on, as long as the other writer keeps off the file from the reading
on which the decision rests until the rename or the removal.
-/

namespace KodeGpt.LostWrites

open ConcurrentMutations HostRoots JsonText TransitionSystem
open FileMutations (Entry WorkspaceWriteError)

def openedParent : Phase → Option Nat
  | .openTarget round | .statOpened round _ | .readTarget round _ _ | .statTarget round _ _ =>
    round.parent
  | .statDestination parent _ | .revalidate parent _ _ _ | .changeMode parent _ _ _
  | .syncMode parent _ _ | .rename parent _ _ | .unlinkTarget parent _ | .unlinkTemp parent _ _ =>
    some parent
  | .openTemp draft _ | .tempMode draft _ | .write draft _ _ | .syncFile draft _ =>
    some draft.parent
  | .openParent _ | .syncDirectory _ | .returned _ => none

/-- The directory of the target: the opened one, or the one that its path leads
to. -/
def directoryOf (files : Files) (target : Target) (parent : Option Nat) : Option Nat :=
  match parent with
  | some parent => some parent
  | none => (files.parents target.parentPath).toOption

def fileIn (files : Files) (entry : Entry) : Option (Inode × Bytes) :=
  (files.entries entry).map fun inode => (inode, (files.inodes inode).contents)

def located (files : Files) (target : Target) (parent : Option Nat) : Option (Inode × Bytes) :=
  (directoryOf files target parent).bind fun directory =>
    fileIn files (directory, target.leafName)

def decidesOn (operation : Operation) : Round → Bool
  | .first _ =>
    match operation with
    | .update _ _ => false
    | _ => true
  | _ => true

def isEditing : Purpose → Bool
  | .editing _ _ => true
  | .updating => false

/-- The operation has opened the file for the reading on which it decides, and has
not replaced or removed it yet. -/
def deciding (operation : Operation) : Phase → Bool
  | .statOpened round _ | .readTarget round _ _ | .statTarget round _ _ =>
    decidesOn operation round
  | .openParent text => text.isSome
  | .openTemp draft _ | .tempMode draft _ | .write draft _ _ | .syncFile draft _ =>
    isEditing draft.purpose
  | .statDestination _ _ | .revalidate _ _ _ _ | .changeMode _ _ _ _ | .syncMode _ _ _
  | .rename _ _ _ | .unlinkTarget _ _ => true
  | .openTarget _ | .syncDirectory _ | .unlinkTemp _ _ _ | .returned _ => false

/-- While the operation decides, a step of the other writer changes neither what
the target names nor the contents of that file. -/
def Calm (s : System) : Event → Bool
  | .call _ => true
  | .other step =>
    !deciding s.operation s.phase ||
      decide (located (s.files.after step) s.target (openedParent s.phase) =
        located s.files s.target (openedParent s.phase))

section Invariant

variable (sha256Hex : Bytes → String) (operation : Operation)

/-- The target holds a text that the operation accepts. -/
def Holds (here : Option (Inode × Bytes)) (text : Bytes) : Prop :=
  accepts sha256Hex operation text = true ∧ ∃ inode, here = some (inode, text)

/-- The file of the target is not the temporary one. -/
def Apart (here : Option (Inode × Bytes)) (temp : Temp) : Prop :=
  ∀ contents, here ≠ some (temp.inode, contents)

def Replaced (replaced : Option Bytes) (text : Bytes) : Prop :=
  accepts sha256Hex operation text = true ∧ replaced = some text

def Sound (replaced : Option Bytes) (here : Option (Inode × Bytes)) : Phase → Prop
  | .statOpened round inode => decidesOn operation round = true →
      ∃ contents, here = some (inode, contents)
  | .readTarget round inode got => decidesOn operation round = true →
      ∃ contents, here = some (inode, contents) ∧ got <+: contents
  | .statTarget round inode text => accepts sha256Hex operation text = true ∧
      (decidesOn operation round = true → here = some (inode, text))
  | .openParent text => ∀ known, text = some known → Holds sha256Hex operation here known
  | .openTemp draft _ => ∀ text created, draft.purpose = .editing text created →
      Holds sha256Hex operation here text
  | .tempMode draft temp | .write draft temp _ | .syncFile draft temp =>
    ∀ text created, draft.purpose = .editing text created →
      Holds sha256Hex operation here text ∧ Apart here temp
  | .statDestination _ text | .revalidate _ _ text _ | .changeMode _ _ text _
  | .syncMode _ _ text | .rename _ _ text | .unlinkTarget _ text =>
    Holds sha256Hex operation here text
  | .syncDirectory text | .returned (.ok (text, _)) => Replaced sha256Hex operation replaced text
  | .openTarget _ | .unlinkTemp _ _ _ | .returned (.error _) => True

end Invariant

def Joint (sha256Hex : Bytes → String) (s : System) : Prop :=
  Sound sha256Hex s.operation s.replaced
    (located s.files s.target (openedParent s.phase)) s.phase

section Located

variable {files : Files} {target : Target} {parent : Option Nat} {inode : Inode}

theorem located_some (files : Files) (target : Target) (parent : Nat) :
    located files target (some parent) = fileIn files (parent, target.leafName) := rfl

theorem located_none {directory : Nat} (h : files.parents target.parentPath = .ok directory) :
    located files target none = fileIn files (directory, target.leafName) := by
  rw [located, directoryOf, h]
  rfl

theorem fileIn_congr {files' : Files} {entry : Entry}
    (hentry : files'.entries entry = files.entries entry)
    (hcontents : ∀ inode contents, fileIn files entry = some (inode, contents) →
      (files'.inodes inode).contents = (files.inodes inode).contents) :
    fileIn files' entry = fileIn files entry := by
  rw [fileIn, hentry]
  cases hfound : files.entries entry with
  | none => rw [fileIn, hfound, Option.map_none, Option.map_none]
  | some inode =>
    rw [fileIn, hfound] at hcontents
    rw [fileIn, hfound, Option.map_some, Option.map_some, hcontents inode _ rfl]

theorem located_congr {files' : Files} (hparents : files'.parents = files.parents)
    (hentries : ∀ directory, files'.entries (directory, target.leafName) =
      files.entries (directory, target.leafName))
    (hcontents : ∀ inode contents, located files target parent = some (inode, contents) →
      (files'.inodes inode).contents = (files.inodes inode).contents) :
    located files' target parent = located files target parent := by
  have hdirectory : directoryOf files' target parent = directoryOf files target parent := by
    unfold directoryOf
    rw [hparents]
  rw [located, hdirectory]
  cases hfound : directoryOf files target parent with
  | none => rw [located, hfound, Option.bind_none, Option.bind_none]
  | some directory =>
    rw [located, hfound] at hcontents
    rw [located, hfound]
    exact fileIn_congr (hentries directory) hcontents

@[simp] theorem located_setMode (mode : Nat) :
    located (files.setMode inode mode) target parent = located files target parent := by
  refine located_congr rfl (fun _ => rfl) ?_
  intro other _ _
  show (Function.update files.inodes inode _ other).contents = _
  by_cases hother : other = inode
  · subst hother
    rw [Function.update_self]
  · rw [Function.update_of_ne hother]

theorem located_append {more : Bytes}
    (happart : ∀ contents, located files target parent ≠ some (inode, contents)) :
    located (files.append inode more) target parent = located files target parent := by
  refine located_congr rfl (fun _ => rfl) ?_
  intro other contents hlocated
  show (Function.update files.inodes inode _ other).contents = _
  have hother : other ≠ inode := by
    rintro rfl
    exact happart contents hlocated
  rw [Function.update_of_ne hother]

theorem fileIn_bounded {entry : Entry} {contents : Bytes}
    (h : fileIn files entry = some (inode, contents)) : inode < files.born := by
  obtain ⟨other, hentry, heq⟩ := Option.map_eq_some_iff.mp h
  obtain ⟨rfl, -⟩ := Prod.mk.inj heq
  exact files.bounded _ _ hentry

theorem located_openTemp {directory : Nat} {name : String} {contents : Bytes} (file : File)
    (h : located files target (some directory) = some (inode, contents))
    (hfree : files.entries (directory, name) = none) :
    located ((files.link (directory, name) files.born).store files.born file) target
      (some directory) = located files target (some directory) := by
  rw [located_some] at h
  have hname : (directory, target.leafName) ≠ (directory, name) := by
    intro heq
    rw [heq, fileIn, hfree] at h
    cases h
  refine fileIn_congr (Function.update_of_ne hname ..) ?_
  intro other contents' hother
  have hinode : other ≠ files.born := Nat.ne_of_lt (fileIn_bounded hother)
  show (Function.update files.inodes files.born file other).contents = _
  rw [Function.update_of_ne hinode]

end Located

section Steps

variable {sha256Hex : Bytes → String} {s : System}

theorem Joint.at (h : Joint sha256Hex s) {phase : Phase} (hphase : s.phase = phase) :
    Sound sha256Hex s.operation s.replaced (located s.files s.target (openedParent phase)) phase := by
  rw [← hphase]
  exact h

theorem joint_go {phase : Phase}
    (h : Sound sha256Hex s.operation s.replaced (located s.files s.target (openedParent phase))
      phase) : Joint sha256Hex (s.go phase) := h

theorem joint_fails (round : Round) (error : WorkspaceWriteError) :
    Joint sha256Hex (s.go (round.fails error)) := by
  cases round <;> trivial

/-- A phase in which nothing is decided holds of any target. -/
theorem sound_of_not_deciding {operation : Operation} {replaced : Option Bytes}
    {here here' : Option (Inode × Bytes)} {phase : Phase}
    (hdeciding : deciding operation phase = false)
    (h : Sound sha256Hex operation replaced here phase) :
    Sound sha256Hex operation replaced here' phase := by
  cases phase with
  | statOpened round inode =>
    intro hdecides
    rw [deciding, hdecides] at hdeciding
    cases hdeciding
  | readTarget round inode got =>
    intro hdecides
    rw [deciding, hdecides] at hdeciding
    cases hdeciding
  | statTarget round inode text =>
    refine ⟨h.1, fun hdecides => ?_⟩
    rw [deciding, hdecides] at hdeciding
    cases hdeciding
  | openParent text =>
    rintro known rfl
    cases hdeciding
  | openTemp draft left =>
    intro text created hpurpose
    rw [deciding, hpurpose] at hdeciding
    cases hdeciding
  | tempMode draft temp =>
    intro text created hpurpose
    rw [deciding, hpurpose] at hdeciding
    cases hdeciding
  | write draft temp rest =>
    intro text created hpurpose
    rw [deciding, hpurpose] at hdeciding
    cases hdeciding
  | syncFile draft temp =>
    intro text created hpurpose
    rw [deciding, hpurpose] at hdeciding
    cases hdeciding
  | statDestination | revalidate | changeMode | syncMode | rename | unlinkTarget => cases hdeciding
  | openTarget | unlinkTemp | syncDirectory => exact h
  | returned result =>
    cases result with
    | ok result => exact h
    | error error => trivial

theorem entryOf_eq {round : Round} {entry : Entry} (h : s.entryOf round = .ok entry) :
    located s.files s.target round.parent = fileIn s.files entry := by
  unfold System.entryOf at h
  cases hparent : round.parent with
  | some parent =>
    rw [hparent] at h
    obtain rfl := Except.ok.inj h
    rfl
  | none =>
    rw [hparent] at h
    cases hfound : s.files.parents s.target.parentPath with
    | error error =>
      rw [hfound] at h
      cases h
    | ok parent =>
      rw [hfound] at h
      obtain rfl := Except.ok.inj h
      exact located_none hfound

theorem joint_openTarget (round : Round) (circumstances : Circumstances) :
    Joint sha256Hex (s.openTarget round circumstances) := by
  unfold System.openTarget
  split
  · exact joint_fails ..
  · exact joint_fails ..
  · rename_i entry _ hentry
    split
    · exact joint_fails ..
    · rename_i inode hinode
      split
      · exact joint_fails ..
      · apply joint_go
        intro _
        refine ⟨(s.files.inodes inode).contents, ?_⟩
        show located s.files s.target round.parent = _
        rw [entryOf_eq hentry, fileIn, hinode]
        rfl

theorem Joint.statOpened (h : Joint sha256Hex s) {round : Round} {inode : Inode}
    (hphase : s.phase = .statOpened round inode) (circumstances : Circumstances) :
    Joint sha256Hex (s.statOpened round inode circumstances) := by
  unfold System.statOpened
  split
  · exact joint_fails ..
  · split
    · apply joint_go
      intro hdecides
      obtain ⟨contents, hhere⟩ := h.at hphase hdecides
      exact ⟨contents, hhere, List.nil_prefix⟩
    · exact joint_fails ..

theorem joint_afterRead (round : Round) (inode : Inode) {text : Bytes}
    (h : decidesOn s.operation round = true →
      located s.files s.target round.parent = some (inode, text)) :
    Joint sha256Hex (s.go (s.afterRead sha256Hex round inode text)) := by
  unfold System.afterRead
  split
  · split
    · split
      · rename_i haccepts
        apply joint_go
        rintro known heq
        obtain rfl := Option.some.inj heq
        exact ⟨haccepts, inode, h rfl⟩
      · trivial
    · split
      · rename_i haccepts
        exact joint_go ⟨haccepts, h⟩
      · exact joint_fails ..
  · exact joint_fails ..

theorem Joint.readTarget (h : Joint sha256Hex s) {round : Round} {inode : Inode} {got : Bytes}
    (hphase : s.phase = .readTarget round inode got) (circumstances : Circumstances) :
    Joint sha256Hex (s.readTarget sha256Hex round inode got circumstances) := by
  have hread : decidesOn s.operation round = true →
      located s.files s.target round.parent = some (inode, (s.files.inodes inode).contents) ∧
        got <+: (s.files.inodes inode).contents := by
    intro hdecides
    obtain ⟨contents, hhere, hprefix⟩ := h.at hphase hdecides
    have hcontents : contents = (s.files.inodes inode).contents := by
      obtain ⟨directory, -, hfile⟩ := Option.bind_eq_some_iff.mp hhere
      obtain ⟨other, -, heq⟩ := Option.map_eq_some_iff.mp hfile
      obtain ⟨rfl, rfl⟩ := Prod.mk.inj heq
      rfl
    rw [← hcontents]
    exact ⟨hhere, hprefix⟩
  unfold System.readTarget
  split
  · exact joint_fails ..
  · split
    · rename_i hend
      apply joint_afterRead
      intro hdecides
      obtain ⟨hhere, hprefix⟩ := hread hdecides
      rw [hhere, ← hprefix.eq_of_length_le (List.drop_eq_nil_iff.mp hend)]
    · rename_i more hmore
      apply joint_go
      intro hdecides
      obtain ⟨hhere, hprefix⟩ := hread hdecides
      refine ⟨_, hhere, ?_⟩
      obtain ⟨rest, hrest⟩ := hprefix
      rw [← hrest, List.drop_left] at *
      exact (List.prefix_append_right_inj got).mpr (List.take_prefix ..)

theorem Joint.statTarget (h : Joint sha256Hex s) {round : Round} {inode : Inode} {text : Bytes}
    (hphase : s.phase = .statTarget round inode text) (circumstances : Circumstances) :
    Joint sha256Hex (s.statTarget round inode text circumstances) := by
  obtain ⟨haccepts, hhere⟩ := h.at hphase
  unfold System.statTarget
  split
  · exact joint_fails ..
  · exact joint_fails ..
  · split
    · exact joint_fails ..
    · split
      · exact joint_fails ..
      · apply joint_go
        unfold System.afterVerify
        split
        · exact ⟨haccepts, inode, hhere rfl⟩
        · intro text created hpurpose
          cases hpurpose
        · rename_i hupdate
          refine ⟨haccepts, inode, hhere ?_⟩
          cases hoperation : s.operation with
          | update expectedSha256 contents =>
            exact absurd hoperation (hupdate expectedSha256 contents)
          | edit | delete => rfl
        · rintro known heq
          obtain rfl := Option.some.inj heq
          exact ⟨haccepts, inode, hhere rfl⟩

theorem Joint.openParent (h : Joint sha256Hex s) {text : Option Bytes}
    (hphase : s.phase = .openParent text) (circumstances : Circumstances) :
    Joint sha256Hex (s.openParent text circumstances) := by
  have hheld := h.at hphase
  unfold System.openParent
  split
  · trivial
  · trivial
  · rename_i parent _ hparent
    cases text with
    | none => trivial
    | some text =>
      have hholds : Holds sha256Hex s.operation (located s.files s.target none) text :=
        hheld text rfl
      rw [located_none hparent] at hholds
      exact joint_go hholds

theorem Joint.statDestination (h : Joint sha256Hex s) {parent : Nat} {text : Bytes}
    (hphase : s.phase = .statDestination parent text) (circumstances : Circumstances) :
    Joint sha256Hex (s.statDestination parent text circumstances) := by
  have hholds := h.at hphase
  have hdraft : ∀ created mode contents left,
      Joint sha256Hex (s.go (.openTemp ⟨parent, .editing text created, mode, contents⟩ left)) := by
    intro created mode contents left
    apply joint_go
    intro known created' heq
    obtain ⟨rfl, -⟩ := Purpose.editing.inj heq
    exact hholds
  unfold System.statDestination
  split
  · trivial
  · split
    · exact hdraft _ _ _ _
    · trivial
  · exact hdraft _ _ _ _

theorem Joint.openTemp (h : Joint sha256Hex s) {draft : Draft} {left : Nat}
    (hphase : s.phase = .openTemp draft left) (circumstances : Circumstances) :
    Joint sha256Hex (s.openTemp draft left circumstances) := by
  have hholds := h.at hphase
  unfold System.openTemp
  split
  · trivial
  · trivial
  · dsimp only
    split
    · trivial
    · exact joint_go hholds
    · rename_i hfree
      intro text created hpurpose
      obtain ⟨haccepts, inode, hhere⟩ := hholds text created hpurpose
      show Holds sha256Hex s.operation (located _ s.target (some draft.parent)) text ∧
        Apart (located _ s.target (some draft.parent)) _
      rw [located_openTemp System.emptyFile hhere hfree]
      refine ⟨⟨haccepts, inode, hhere⟩, ?_⟩
      intro contents hsame
      have hinode := hhere.symm.trans hsame
      obtain ⟨rfl, -⟩ := Prod.mk.inj (Option.some.inj hinode)
      exact Nat.lt_irrefl _ (fileIn_bounded hhere)

theorem sound_afterWrite {operation : Operation} {replaced : Option Bytes}
    {here : Option (Inode × Bytes)} {draft : Draft} {temp : Temp} (rest : Bytes)
    (h : Sound sha256Hex operation replaced here (.syncFile draft temp)) :
    Sound sha256Hex operation replaced here (System.afterWrite draft temp rest) := by
  cases rest <;> exact h

theorem openedParent_afterWrite (draft : Draft) (temp : Temp) (rest : Bytes) :
    openedParent (System.afterWrite draft temp rest) = some draft.parent := by
  cases rest <;> rfl

theorem Joint.tempMode (h : Joint sha256Hex s) {draft : Draft} {temp : Temp}
    (hphase : s.phase = .tempMode draft temp) (circumstances : Circumstances) :
    Joint sha256Hex (s.tempMode draft temp circumstances) := by
  have hholds := h.at hphase
  unfold System.tempMode
  split
  · trivial
  · unfold Joint
    dsimp only
    rw [openedParent_afterWrite, located_setMode]
    exact sound_afterWrite _ hholds

theorem Joint.write (h : Joint sha256Hex s) {draft : Draft} {temp : Temp} {rest : Bytes}
    (hphase : s.phase = .write draft temp rest) (circumstances : Circumstances) :
    Joint sha256Hex (s.write draft temp rest circumstances) := by
  have hholds := h.at hphase
  unfold System.write
  split
  · trivial
  · unfold Joint
    dsimp only
    rw [openedParent_afterWrite]
    apply sound_afterWrite
    intro text created hpurpose
    have hheld : Holds sha256Hex s.operation
        (located s.files s.target (some draft.parent)) text ∧
          Apart (located s.files s.target (some draft.parent)) temp :=
      hholds text created hpurpose
    rw [located_append hheld.2]
    exact hheld

theorem Joint.syncFile (h : Joint sha256Hex s) {draft : Draft} {temp : Temp}
    (hphase : s.phase = .syncFile draft temp) (circumstances : Circumstances) :
    Joint sha256Hex (s.syncFile draft temp circumstances) := by
  have hholds := h.at hphase
  unfold System.syncFile
  split
  · trivial
  · rename_i text created _ hpurpose
    exact joint_go (hholds text created hpurpose).1
  · trivial

theorem Joint.revalidate (h : Joint sha256Hex s) {parent : Nat} {temp : Temp} {text : Bytes}
    {created : Bool} (hphase : s.phase = .revalidate parent temp text created)
    (circumstances : Circumstances) :
    Joint sha256Hex (s.revalidate parent temp text created circumstances) := by
  have hholds := h.at hphase
  unfold System.revalidate
  split
  · trivial
  · split
    · trivial
    · exact joint_go hholds
  · split
    · exact joint_go hholds
    · trivial

theorem Joint.changeMode (h : Joint sha256Hex s) {parent : Nat} {temp : Temp} {text : Bytes}
    {mode : Nat} (hphase : s.phase = .changeMode parent temp text mode)
    (circumstances : Circumstances) :
    Joint sha256Hex (s.changeMode parent temp text mode circumstances) := by
  have hholds := h.at hphase
  unfold System.changeMode
  split
  · trivial
  · show Holds sha256Hex s.operation (located (s.files.setMode temp.inode mode) s.target _) text
    rw [located_setMode]
    exact hholds

theorem Joint.syncMode (h : Joint sha256Hex s) {parent : Nat} {temp : Temp} {text : Bytes}
    (hphase : s.phase = .syncMode parent temp text) (circumstances : Circumstances) :
    Joint sha256Hex (s.syncMode parent temp text circumstances) := by
  have hholds := h.at hphase
  unfold System.syncMode
  split
  · trivial
  · exact joint_go hholds

theorem contentsAt_of_holds {parent : Nat} {text : Bytes}
    (h : Holds sha256Hex s.operation (located s.files s.target (some parent)) text) :
    Replaced sha256Hex s.operation (s.contentsAt parent) text := by
  obtain ⟨haccepts, inode, hhere⟩ := h
  refine ⟨haccepts, ?_⟩
  obtain ⟨other, hentry, heq⟩ := Option.map_eq_some_iff.mp hhere
  obtain ⟨rfl, rfl⟩ := Prod.mk.inj heq
  show ((s.files.entries (parent, s.target.leafName)).map s.files.inodes).map File.contents = _
  rw [hentry]
  rfl

theorem Joint.rename (h : Joint sha256Hex s) {parent : Nat} {temp : Temp} {text : Bytes}
    (hphase : s.phase = .rename parent temp text) (circumstances : Circumstances) :
    Joint sha256Hex (s.rename parent temp text circumstances) := by
  have hholds := h.at hphase
  unfold System.rename
  split
  · trivial
  · trivial
  · split
    · trivial
    · exact contentsAt_of_holds hholds

theorem Joint.unlinkTarget (h : Joint sha256Hex s) {parent : Nat} {text : Bytes}
    (hphase : s.phase = .unlinkTarget parent text) (circumstances : Circumstances) :
    Joint sha256Hex (s.unlinkTarget parent text circumstances) := by
  have hholds := h.at hphase
  unfold System.unlinkTarget
  split
  · trivial
  · trivial
  · split
    · trivial
    · exact contentsAt_of_holds hholds

theorem Joint.syncDirectory (h : Joint sha256Hex s) {text : Bytes}
    (hphase : s.phase = .syncDirectory text) (circumstances : Circumstances) :
    Joint sha256Hex (s.syncDirectory sha256Hex text circumstances) := by
  have hreplaced := h.at hphase
  unfold System.syncDirectory
  split
  · trivial
  · exact joint_go hreplaced

theorem Joint.unlinkTemp {parent : Nat} {temp : Temp} {error : WorkspaceWriteError}
    (circumstances : Circumstances) :
    Joint sha256Hex (s.unlinkTemp parent temp error circumstances) := by
  unfold System.unlinkTemp
  split <;> trivial

theorem Joint.step (h : Joint sha256Hex s) {circumstances : Circumstances} {t : System}
    (hstep : s.step sha256Hex circumstances = some t) : Joint sha256Hex t := by
  unfold System.step at hstep
  split at hstep
  case h_18 => cases hstep
  all_goals
    rename_i hphase
    obtain rfl := Option.some.inj hstep
  · exact joint_openTarget ..
  · exact h.statOpened hphase circumstances
  · exact h.readTarget hphase circumstances
  · exact h.statTarget hphase circumstances
  · exact h.openParent hphase circumstances
  · exact h.statDestination hphase circumstances
  · exact h.openTemp hphase circumstances
  · exact h.tempMode hphase circumstances
  · exact h.write hphase circumstances
  · exact h.syncFile hphase circumstances
  · exact h.revalidate hphase circumstances
  · exact h.changeMode hphase circumstances
  · exact h.syncMode hphase circumstances
  · exact h.rename hphase circumstances
  · exact h.unlinkTarget hphase circumstances
  · exact h.syncDirectory hphase circumstances
  · exact Joint.unlinkTemp circumstances

/-- The step lemma. -/
theorem joint_next (s : System) (event : Event) (t : System) (h : Joint sha256Hex s)
    (hcalm : Calm s event = true) (hnext : s.next sha256Hex event = some t) :
    Joint sha256Hex t := by
  cases event with
  | call circumstances => exact h.step hnext
  | other step =>
    obtain rfl := Option.some.inj hnext
    show Sound sha256Hex s.operation s.replaced
      (located (s.files.after step) s.target (openedParent s.phase)) s.phase
    rw [Calm, Bool.or_eq_true, Bool.not_eq_true', decide_eq_true_iff] at hcalm
    obtain hcalm | hsame := hcalm
    · exact sound_of_not_deciding hcalm h
    · rw [hsame]
      exact h

end Steps

theorem joint_started {sha256Hex : Bytes → String} {files : Files} {path : HostPath}
    {operation : Operation} {s : System} (h : started files path operation = .ok s) :
    Joint sha256Hex s := by
  have hmap : ∀ phase, Sound sha256Hex operation none none phase →
      deciding operation phase = false → (splitPath path).map (fun target =>
        (⟨files, target, operation, phase, none⟩ : System)) = .ok s → Joint sha256Hex s := by
    intro phase hsound hdeciding hmap
    cases htarget : splitPath path with
    | error error =>
      rw [htarget] at hmap
      cases hmap
    | ok target =>
      rw [htarget] at hmap
      obtain rfl := Except.ok.inj hmap
      exact sound_of_not_deciding hdeciding hsound
  cases operation with
  | edit oldText newText expectedReplacements =>
    rw [started] at h
    split at h
    · cases h
    · exact hmap (.openTarget .edit) trivial rfl h
  | update expectedSha256 contents => exact hmap (.openParent none) nofun rfl h
  | delete expectedSha256 => exact hmap (.openParent none) nofun rfl h

/-- The operation has not reported success, or what it has replaced or removed is
the text that it has decided on. -/
def NothingLost (sha256Hex : Bytes → String) (s : System) : Prop :=
  ∀ text outcome, s.phase = .returned (.ok (text, outcome)) →
    Replaced sha256Hex s.operation s.replaced text

theorem nothing_lost (sha256Hex : Bytes → String) (files : Files) (path : HostPath)
    (operation : Operation) (events : List Event) (first s : System)
    (hfirst : started files path operation = .ok first)
    (hrun : exec (System.next sha256Hex) first events = some s)
    (hcalm : AllSteps (System.next sha256Hex) (fun s event => Calm s event = true) first events) :
    NothingLost sha256Hex s := by
  have hjoint : Joint sha256Hex s := exec_invariant joint_next (joint_started hfirst) hcalm hrun
  intro text outcome hphase
  exact hjoint.at hphase

/-- One file with the text `x`, in the directory 1. -/
def oneFile : Files where
  parents := fun _ => .ok 1
  entries := fun entry => if entry = (1, "a") then some 7 else none
  inodes := fun inode =>
    if inode = 7 then ⟨.regularFile, utf8 "x", 0o644⟩ else ⟨.regularFile, [], 0o644⟩
  born := 8
  bounded := by
    intro entry inode hentry
    split at hentry
    · obtain rfl := Option.some.inj hentry
      decide
    · cases hentry

def smoothly : Event := .call ⟨none, 0, some (Vector.replicate 16 0)⟩

def someEdit : Operation := .edit (utf8 "x") (utf8 "y") 1

def firstState : System := ⟨oneFile, ⟨[.curDir], "a"⟩, someEdit, .openTarget .edit, none⟩

theorem started_someEdit : started oneFile [.normal "a"] someEdit = .ok firstState := by
  have hold : (utf8 "x").isEmpty = false := by decide +kernel
  rw [someEdit, started, hold]
  rfl

def readEvents : List Event := List.replicate 4 smoothly

def replaceEvents : List Event := List.replicate 9 smoothly

def someDigest (_ : Bytes) : String := ""

def succeededOn (s : System) : Option Bytes :=
  match s.phase with
  | .returned (.ok (text, _)) => some text
  | _ => none

/-- The other writer writes to another file meanwhile. -/
theorem nothing_lost_beside :
    ∃ first s, started oneFile [.normal "a"] someEdit = .ok first ∧
      exec (System.next someDigest) first
        (readEvents ++ .other (.write 5 (utf8 "z")) :: replaceEvents) = some s ∧
      succeededOn s = some (utf8 "x") ∧ NothingLost someDigest s := by
  have hsome : (exec (System.next someDigest) firstState
      (readEvents ++ .other (.write 5 (utf8 "z")) :: replaceEvents)).any
        (fun s => decide (succeededOn s = some (utf8 "x"))) = true := by
    decide +kernel
  have hcalm : AllSteps (System.next someDigest) (fun s event => Calm s event = true)
      firstState (readEvents ++ .other (.write 5 (utf8 "z")) :: replaceEvents) := by
    decide +kernel
  obtain ⟨s, hrun, hsucceeded⟩ := (Option.any_eq_true _ _).mp hsome
  exact ⟨firstState, s, started_someEdit, hrun, of_decide_eq_true hsucceeded,
    nothing_lost someDigest oneFile [.normal "a"] someEdit _ _ s started_someEdit hrun hcalm⟩

/-- The other writer appends to the file once the edit has read it: the edit
succeeds, and what was appended is gone. -/
theorem appended_lost :
    ∃ first s, started oneFile [.normal "a"] someEdit = .ok first ∧
      exec (System.next someDigest) first
        (readEvents ++ .other (.write 7 (utf8 "xz")) :: replaceEvents) = some s ∧
      ¬ NothingLost someDigest s := by
  have hsome : (exec (System.next someDigest) firstState
      (readEvents ++ .other (.write 7 (utf8 "xz")) :: replaceEvents)).any
        (fun s => decide (succeededOn s = some (utf8 "x")) &&
          decide (s.replaced = some (utf8 "xz"))) = true := by
    decide +kernel
  obtain ⟨s, hrun, hends⟩ := (Option.any_eq_true _ _).mp hsome
  rw [Bool.and_eq_true, decide_eq_true_iff, decide_eq_true_iff] at hends
  refine ⟨firstState, s, started_someEdit, hrun, ?_⟩
  intro hnothing
  have hphase : ∃ outcome, s.phase = .returned (.ok (utf8 "x", outcome)) := by
    have hsucceeded := hends.1
    unfold succeededOn at hsucceeded
    split at hsucceeded
    · rename_i text outcome hphase
      obtain rfl := Option.some.inj hsucceeded
      exact ⟨outcome, hphase⟩
    · cases hsucceeded
  obtain ⟨outcome, hphase⟩ := hphase
  have hreplaced := (hnothing _ _ hphase).2
  rw [hends.2] at hreplaced
  revert hreplaced
  decide +kernel

end KodeGpt.LostWrites
