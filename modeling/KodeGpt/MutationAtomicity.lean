import KodeGpt.FileMutations
import KodeGpt.TransitionSystem

/-!
What a file mutation leaves behind, wherever one of its system calls fails: no
entry but its target is changed, and the target holds at every moment what it
held before or all of what the mutation is to put there.
-/

namespace KodeGpt.MutationAtomicity

open FallibleActions FileMutations HostRoots JsonText TransitionSystem

def promisedMode : Option Node → Nat
  | some node => permissionBits node
  | none => ownerOnly

def Replaced (contents : Bytes) (previous now : Option Node) : Prop :=
  ∃ node, now = some node ∧ node.fileType = .regularFile ∧ node.contents = contents ∧
    node.mode = promisedMode previous

/-- The present tree is in `now`, and every moment has been in `allowed`. -/
structure Seen (allowed now : Tree → Prop) (files : FileSystem) : Prop where
  tree : now files.tree
  moments : ∀ moment ∈ files.moments, allowed moment

section Calls

variable {system : System} {allowed now : Tree → Prop}

theorem Seen.imp {now' : Tree → Prop} {files : FileSystem} (h : Seen allowed now files)
    (himp : ∀ tree, now tree → now' tree) : Seen allowed now' files :=
  ⟨himp _ h.tree, h.moments⟩

theorem Seen.change {now' : Tree → Prop} {effect : Tree → Tree} {files : FileSystem}
    (h : Seen allowed now files)
    (heffect : ∀ tree, now tree → allowed (effect tree) ∧ now' (effect tree)) :
    Seen allowed now' (files.change effect) := by
  obtain ⟨hallowed, hnow⟩ := heffect _ h.tree
  refine ⟨hnow, ?_⟩
  intro moment hmoment
  rcases List.mem_append.mp hmoment with hold | hnew
  · exact h.moments moment hold
  · rw [List.mem_singleton.mp hnew]
    exact hallowed

theorem check_triple (call : Call) :
    Triple (Seen allowed now) (system.check call) (fun _ => Seen allowed now)
      (fun _ => Seen allowed now) :=
  Triple.attempt (fun _ _ => id) fun _ _ => id

theorem change_triple {now' : Tree → Prop} {effect : Tree → Tree} (call : Call)
    (heffect : ∀ tree, now tree → allowed (effect tree) ∧ now' (effect tree)) :
    Triple (Seen allowed now) (system.change call effect) (fun _ => Seen allowed now')
      (fun _ => Seen allowed now) :=
  Triple.attempt (fun _ _ h => h.change heffect) fun _ _ => id

theorem onlyIf_throw_triple {condition : Prop} [Decidable condition] (error : WorkspaceWriteError) :
    Triple (Seen allowed now) (onlyIf condition (throw error) : Action Unit)
      (fun _ => Seen allowed now) (fun _ => Seen allowed now) :=
  Triple.onlyIf (fun _ => Triple.throw fun _ => id) fun _ _ => id

/-- What an answer about an entry says of what is there. -/
def Answers : Except Errno Node → Option Node → Prop
  | .ok node, held => held = some node
  | .error .noent, held => held = none
  | .error _, _ => True

theorem statat_triple (call : Call) (entry : Entry) :
    Triple (Seen allowed now) (system.statat call entry)
      (fun answer => Seen allowed fun tree => now tree ∧ Answers answer (tree entry))
      (fun _ => Seen allowed now) := by
  refine Triple.bindGet fun seen => Triple.ite (fun _ => Triple.pure ?_) fun _ => ?_
  · rintro files ⟨-, h⟩
    exact h.imp fun _ hnow => ⟨hnow, trivial⟩
  · cases hheld : seen.tree entry with
    | some node =>
      refine Triple.pure ?_
      rintro files ⟨rfl, h⟩
      exact ⟨⟨h.tree, hheld⟩, h.moments⟩
    | none =>
      refine Triple.pure ?_
      rintro files ⟨rfl, h⟩
      exact ⟨⟨h.tree, hheld⟩, h.moments⟩

theorem openat_triple (call : Call) (entry : Entry) :
    Triple (Seen allowed now) (system.openat call entry) (fun _ => Seen allowed now)
      (fun _ => Seen allowed now) := by
  refine Triple.bindGet fun seen => Triple.ite (fun _ => Triple.pure fun _ h => h.2) fun _ => ?_
  cases seen.tree entry with
  | some node => exact Triple.pure fun _ h => h.2
  | none => exact Triple.pure fun _ h => h.2

end Calls

/-- Of all entries only the temporary one is new, and it holds `node`. -/
structure Staged (before : Tree) (target temp : Entry) (node : Node) (tree : Tree) : Prop where
  apart : temp ≠ target
  fresh : before temp = none
  tree : tree = Function.update before temp (some node)

/-- Only the target is changed. -/
def Settled (before : Tree) (target : Entry) (tree : Tree) : Prop :=
  ∀ entry, entry ≠ target → tree entry = before entry

namespace Staged

variable {before tree : Tree} {target temp : Entry} {node : Node}

theorem target_eq (h : Staged before target temp node tree) : tree target = before target := by
  rw [h.tree, Function.update_of_ne h.apart.symm]

theorem temp_eq (h : Staged before target temp node tree) : tree temp = some node := by
  rw [h.tree, Function.update_self]

theorem change (h : Staged before target temp node tree) (node' : Node) :
    Staged before target temp node' (Function.update tree temp (some node')) :=
  ⟨h.apart, h.fresh, by rw [h.tree, Function.update_idem]⟩

theorem remove (h : Staged before target temp node tree) : remove temp tree = before := by
  rw [FileMutations.remove, h.tree, Function.update_idem, ← h.fresh, Function.update_eq_self]

/-- The rename takes the name away and puts the file in the place of the target. -/
theorem rename (h : Staged before target temp node tree) :
    renameTo temp target tree = Function.update before target (some node) := by
  rw [renameTo, if_neg h.apart, h.temp_eq, h.tree, FileMutations.remove,
    Function.update_comm h.apart, Function.update_idem, Function.update_comm h.apart.symm,
    ← h.fresh, Function.update_eq_self]

end Staged

section Temp

variable {system : System} {before : Tree} {target : Entry} {allowed : Tree → Prop}

/-- The calls of `create_random_temp` for the directory of the target: the new
file can be given its mode, and no random name is that of the target. -/
structure MakesTemp (system : System) (target : Entry) : Prop where
  tempMode : system.fault .tempMode = none
  names : ∀ left random, system.random left = some random → (target.1, tempName random) ≠ target

/-- An empty file of this mode. -/
def Empty (mode : Nat) (node : Node) : Prop :=
  node.fileType = .regularFile ∧ node.contents = [] ∧ node.mode = mode

theorem openExclusive_triple (hkeeps : ∀ tree, tree target = before target → allowed tree)
    (call : Call) {temp : Entry} (hapart : temp ≠ target) :
    Triple (Seen allowed (· = before)) (system.openExclusive call temp)
      (fun answer files => match answer with
        | .ok () => Seen allowed (Staged before target temp system.emptyFile) files
        | .error _ => Seen allowed (· = before) files)
      (fun _ => Seen allowed (· = before)) := by
  refine Triple.bindGet fun seen => Triple.ite (fun _ => Triple.pure fun _ h => h.2) fun _ => ?_
  refine Triple.ite (fun _ => Triple.pure fun _ h => h.2) fun hfree => ?_
  refine Triple.bind (fun _ => Seen allowed (Staged before target temp system.emptyFile))
    (Triple.modify ?_) fun _ => Triple.pure fun _ => id
  rintro files ⟨rfl, h⟩
  have hfresh : files.tree temp = none := by simpa using hfree
  apply h.change
  rintro tree rfl
  have hstaged : Staged tree target temp system.emptyFile
      (Function.update tree temp (some system.emptyFile)) :=
    ⟨hapart, h.tree ▸ hfresh, rfl⟩
  exact ⟨hkeeps _ hstaged.target_eq, hstaged⟩

theorem createRandomTemp_triple (hkeeps : ∀ tree, tree target = before target → allowed tree)
    (hmakes : MakesTemp system target) (mode left : Nat) :
    Triple (Seen allowed (· = before)) (createRandomTemp system target.1 mode left)
      (fun temp => Seen allowed fun tree =>
        ∃ node, Empty mode node ∧ Staged before target temp node tree)
      (fun _ => Seen allowed (· = before)) := by
  induction left with
  | zero => exact Triple.throw fun _ => id
  | succ left ih =>
    rw [createRandomTemp]
    cases hrandom : system.random left with
    | none => exact Triple.throw fun _ => id
    | some random =>
      have hapart := hmakes.names left random hrandom
      refine Triple.bind _ (openExclusive_triple hkeeps _ hapart) fun answer => ?_
      cases answer with
      | error error =>
        cases error with
        | exist => exact ih
        | _ => exact Triple.throw fun _ => id
      | ok opened =>
        refine Triple.bind (fun _ => Seen allowed fun tree => ∃ node, Empty mode node ∧
          Staged before target (target.1, tempName random) node tree)
          (Triple.attempt ?_ ?_) fun _ => Triple.pure fun _ => id
        · rintro - files h
          apply h.change
          intro tree hstaged
          have hchanged := hstaged.change { system.emptyFile with mode := mode }
          rw [setMode, hstaged.temp_eq]
          exact ⟨hkeeps _ hchanged.target_eq, _, ⟨rfl, rfl, rfl⟩, hchanged⟩
        · intro hfails
          rw [System.fails, hmakes.tempMode] at hfails
          cases hfails

theorem writeAll_triple (hkeeps : ∀ tree, tree target = before target → allowed tree)
    {temp : Entry} (contents : Bytes) (offset : Nat) (node : Node) :
    Triple (Seen allowed (Staged before target temp node)) (writeAll system temp contents offset)
      (fun _ => Seen allowed
        (Staged before target temp { node with contents := node.contents ++ contents }))
      (fun _ => Seen allowed fun tree => ∃ node, Staged before target temp node tree) := by
  induction contents generalizing node offset with
  | nil =>
    refine Triple.pure ?_
    intro files h
    rw [List.append_nil]
    exact h
  | cons byte rest ih =>
    have hwrite : Triple (Seen allowed (Staged before target temp node))
        (system.change (.write offset) (append temp byte))
        (fun _ => Seen allowed
          (Staged before target temp { node with contents := node.contents ++ [byte] }))
        (fun _ => Seen allowed fun tree => ∃ node, Staged before target temp node tree) := by
      refine Triple.attempt ?_ fun _ _ h => h.imp fun _ hstaged => ⟨node, hstaged⟩
      rintro - files h
      apply h.change
      intro tree hstaged
      have hchanged := hstaged.change { node with contents := node.contents ++ [byte] }
      rw [append, hstaged.temp_eq]
      exact ⟨hkeeps _ hchanged.target_eq, hchanged⟩
    refine Triple.bind _ hwrite fun _ => ?_
    have hrest := ih (offset + 1) { node with contents := node.contents ++ [byte] }
    rwa [List.append_assoc, List.singleton_append] at hrest

theorem unlinkTemp_seen (hkeeps : ∀ tree, tree target = before target → allowed tree)
    (hunlink : system.fault .unlinkTemp = none) {temp : Entry} {files : FileSystem}
    (h : Seen allowed (fun tree => ∃ node, Staged before target temp node tree) files) :
    Seen allowed (· = before) (unlinkTemp system temp files) := by
  have hfails : system.fails .unlinkTemp = false := by rw [System.fails, hunlink]; rfl
  rw [unlinkTemp, hfails]
  apply h.change
  rintro tree ⟨node, hstaged⟩
  rw [hstaged.remove]
  exact ⟨hkeeps _ rfl, rfl⟩

end Temp

section Mutations

variable {system : System} {before : Tree} {target temp : Entry} {allowed : Tree → Prop}
  {node : Node}

theorem rename_triple (hnew : ∀ tree, tree target = some node → allowed tree) :
    Triple (Seen allowed (Staged before target temp node))
      (system.change .rename (renameTo temp target))
      (fun _ => Seen allowed (Settled before target))
      (fun _ => Seen allowed fun tree => ∃ node, Staged before target temp node tree) := by
  refine Triple.attempt ?_ fun _ _ h => h.imp fun _ hstaged => ⟨node, hstaged⟩
  rintro - files h
  apply h.change
  intro tree hstaged
  rw [hstaged.rename]
  refine ⟨hnew _ (Function.update_self target _ before), ?_⟩
  intro entry hentry
  exact Function.update_of_ne hentry _ _

theorem renameat_triple (hnew : ∀ tree, tree target = some node → allowed tree) :
    Triple (Seen allowed (Staged before target temp node)) (renameat system temp target)
      (fun _ => Seen allowed (Settled before target))
      (fun _ => Seen allowed fun tree => ∃ node, Staged before target temp node tree) := by
  have hrefused : ∀ error files, Seen allowed (Staged before target temp node) files →
      (fun (_ : WorkspaceWriteError) => Seen allowed fun tree =>
        ∃ node, Staged before target temp node tree) error files :=
    fun _ _ h => h.imp fun _ hstaged => ⟨node, hstaged⟩
  refine Triple.bindGet fun seen => ?_
  refine Triple.bind _ ((onlyIf_throw_triple _).conseq (fun _ h => h.2) (fun _ _ => id) hrefused)
    fun _ => ?_
  exact Triple.bind _ ((onlyIf_throw_triple _).conseq (fun _ => id) (fun _ _ => id) hrefused)
    fun _ => rename_triple hnew

/-- A rename that is not to replace takes place only where there was nothing. -/
theorem renameatNoReplace_triple
    (hnew : before target = none → ∀ tree, tree target = some node → allowed tree) :
    Triple (Seen allowed (Staged before target temp node)) (renameatNoReplace system temp target)
      (fun _ => Seen allowed (Settled before target))
      (fun _ => Seen allowed fun tree => ∃ node, Staged before target temp node tree) := by
  refine Triple.bindGet fun seen => ?_
  refine Triple.bind (fun _ files => files = seen ∧ Seen allowed (Staged before target temp node) files)
    (Triple.onlyIf (fun _ => Triple.throw ?_) fun _ _ => id) fun _ => ?_
  · rintro files ⟨-, h⟩
    exact h.imp fun _ hstaged => ⟨node, hstaged⟩
  refine Triple.bind (fun _ files => seen.tree target = none ∧ files = seen ∧
    Seen allowed (Staged before target temp node) files)
    (Triple.onlyIf (fun _ => Triple.throw ?_) ?_) fun _ => ?_
  · rintro files ⟨-, h⟩
    exact h.imp fun _ hstaged => ⟨node, hstaged⟩
  · intro hfree files h
    exact ⟨not_not.mp hfree, h⟩
  · rintro files ⟨hfree, rfl, h⟩
    have hnone : before target = none := by rw [← h.tree.target_eq, hfree]
    exact rename_triple (hnew hnone) files h

theorem destinationMode_triple {now : Tree → Prop} :
    Triple (Seen allowed now) (destinationMode system target)
      (fun answer => Seen allowed fun tree => now tree ∧ answer.2 = promisedMode (tree target))
      (fun _ => Seen allowed now) := by
  refine Triple.bind _ (statat_triple _ _) fun answer => ?_
  cases answer with
  | ok stat =>
    refine Triple.ite (fun _ => Triple.pure ?_) fun _ => Triple.throw ?_
    · intro files h
      refine h.imp ?_
      rintro tree ⟨hnow, hheld⟩
      exact ⟨hnow, by rw [hheld]; rfl⟩
    · exact fun _ h => h.imp fun _ => And.left
  | error error =>
    cases error with
    | noent =>
      refine Triple.pure ?_
      intro files h
      refine h.imp ?_
      rintro tree ⟨hnow, hheld⟩
      exact ⟨hnow, by rw [hheld]; rfl⟩
    | _ => exact Triple.throw fun _ h => h.imp fun _ => And.left

theorem revalidateDestination_triple {now : Tree → Prop} (created : Bool) :
    Triple (Seen allowed now) (revalidateDestination system target created)
      (fun _ => Seen allowed now) (fun _ => Seen allowed now) := by
  have hand : ∀ {answer} files, Seen allowed (fun tree => now tree ∧ Answers answer (tree target))
      files → Seen allowed now files := fun _ h => h.imp fun _ => And.left
  refine Triple.bind _ (statat_triple _ _) fun answer => ?_
  cases answer with
  | ok stat => exact (onlyIf_throw_triple _).weaken hand
  | error error =>
    cases error with
    | noent => exact (onlyIf_throw_triple _).weaken hand
    | _ => exact Triple.throw hand

theorem verifyPatchTarget_triple (sha256Hex : Bytes → String) {now : Tree → Prop} (round : Nat)
    (expectedSha256 : String) :
    Triple (Seen allowed now) (verifyPatchTarget sha256Hex system round target expectedSha256)
      (fun mode => Seen allowed fun tree => now tree ∧ mode = promisedMode (tree target))
      (fun _ => Seen allowed now) := by
  refine Triple.bind _ (openat_triple _ _) fun answer => ?_
  cases answer with
  | error error => cases error <;> exact Triple.throw fun _ => id
  | ok opened =>
    refine Triple.bind _ (check_triple _) fun _ => ?_
    refine Triple.bind _ (onlyIf_throw_triple _) fun _ => ?_
    refine Triple.bind _ (check_triple _) fun _ => ?_
    refine Triple.bind _ (onlyIf_throw_triple _) fun _ => ?_
    refine Triple.bind _ (onlyIf_throw_triple _) fun _ => ?_
    refine Triple.bind _ (statat_triple _ _) fun answer => ?_
    cases answer with
    | error error => cases error <;> exact Triple.throw fun _ h => h.imp fun _ => And.left
    | ok current =>
      refine Triple.bind _ ((onlyIf_throw_triple _).conseq (fun _ => id) (fun _ _ => id)
        fun _ _ h => h.imp fun _ => And.left) fun _ => Triple.pure ?_
      intro files h
      refine h.imp ?_
      rintro tree ⟨hnow, hheld⟩
      exact ⟨hnow, by rw [hheld]; rfl⟩

theorem Seen.settled {files : FileSystem} (h : Seen allowed (· = before) files) :
    Seen allowed (Settled before target) files :=
  h.imp fun _ htree entry _ => congrFun htree entry

/-- The part that the three ways through a temporary file share: what comes
between its creation and the rename may stop anywhere. -/
theorem throughTemp_triple {α : Type}
    (hkeeps : ∀ tree, tree target = before target → allowed tree)
    (hmakes : MakesTemp system target) (hunlink : system.fault .unlinkTemp = none) {mode : Nat}
    {body : Entry → Action Unit} {result : α}
    (hbody : ∀ temp node, Empty mode node → Triple (Seen allowed (Staged before target temp node))
      (body temp) (fun _ => Seen allowed (Settled before target))
      (fun _ => Seen allowed fun tree => ∃ node, Staged before target temp node tree)) :
    Triple (Seen allowed (· = before))
      (do
        let temp ← createRandomTemp system target.1 mode 16
        onError (body temp) (unlinkTemp system temp)
        system.check .syncDirectory
        pure result)
      (fun _ => Seen allowed (Settled before target))
      (fun _ => Seen allowed (Settled before target)) := by
  refine Triple.bind _ ((createRandomTemp_triple hkeeps hmakes mode 16).conseq (fun _ => id)
    (fun _ _ => id) fun _ _ h => h.settled) fun temp => ?_
  have hcleaned : Triple (Seen allowed fun tree => ∃ node, Empty mode node ∧
      Staged before target temp node tree) (onError (body temp) (unlinkTemp system temp))
      (fun _ => Seen allowed (Settled before target))
      (fun _ => Seen allowed (Settled before target)) := by
    rintro files ⟨⟨node, hempty, hstaged⟩, hmoments⟩
    refine (hbody temp node hempty).onError ?_ files ⟨hstaged, hmoments⟩
    intro _ files h
    exact (unlinkTemp_seen hkeeps hunlink h).settled
  exact Triple.bind _ hcleaned fun _ => Triple.bind _ (check_triple _) fun _ =>
    Triple.pure fun _ => id

theorem writeTemp_triple (hkeeps : ∀ tree, tree target = before target → allowed tree)
    (contents : Bytes) (node : Node) {next : Action Unit}
    (hnext : Triple (Seen allowed (Staged before target temp
        { node with contents := node.contents ++ contents })) next
      (fun _ => Seen allowed (Settled before target))
      (fun _ => Seen allowed fun tree => ∃ node, Staged before target temp node tree)) :
    Triple (Seen allowed (Staged before target temp node))
      (do
        writeAll system temp contents 0
        system.check .syncFile
        next)
      (fun _ => Seen allowed (Settled before target))
      (fun _ => Seen allowed fun tree => ∃ node, Staged before target temp node tree) := by
  refine Triple.bind _ (writeAll_triple hkeeps contents 0 node) fun _ => ?_
  exact Triple.bind _ ((check_triple _).conseq (fun _ => id) (fun _ _ => id)
    fun _ _ h => h.imp fun _ hstaged => ⟨_, hstaged⟩) fun _ => hnext

theorem writeFile_triple
    (hkeeps : ∀ tree, tree target = before target → allowed tree) {contents : Bytes}
    (hnew : ∀ tree, Replaced contents (before target) (tree target) → allowed tree)
    (hmakes : MakesTemp system target) (hunlink : system.fault .unlinkTemp = none) {path : HostPath}
    (hparent : openParentBeneath system path = .ok target) :
    Triple (Seen allowed (· = before)) (writeFileAtomicBeneath system path contents)
      (fun _ => Seen allowed (Settled before target))
      (fun _ => Seen allowed (Settled before target)) := by
  rw [writeFileAtomicBeneath, withParent, hparent]
  refine Triple.bind _ (destinationMode_triple.conseq (fun _ => id) (fun _ _ => id)
    fun _ _ h => h.settled) ?_
  rintro ⟨created, mode⟩ files ⟨⟨htree, hmode⟩, hmoments⟩
  rw [htree] at hmode
  refine throughTemp_triple hkeeps hmakes hunlink ?_ files ⟨htree, hmoments⟩
  rintro temp node ⟨hregular, hnil, hset⟩
  apply writeTemp_triple hkeeps contents node
  refine Triple.bind _ ((revalidateDestination_triple created).conseq (fun _ => id) (fun _ _ => id)
    fun _ _ h => h.imp fun _ hstaged => ⟨_, hstaged⟩) fun _ => renameat_triple ?_
  intro tree htarget
  exact hnew tree ⟨_, htarget, hregular, by rw [hnil]; rfl, hset.trans hmode⟩

theorem commitPatchCreate_triple (sha256Hex : Bytes → String)
    (hkeeps : ∀ tree, tree target = before target → allowed tree) {contents : Bytes}
    (hnew : ∀ tree, Replaced contents (before target) (tree target) → allowed tree)
    (hmakes : MakesTemp system target) (hunlink : system.fault .unlinkTemp = none) {path : HostPath}
    (hparent : openParentBeneath system path = .ok target) :
    Triple (Seen allowed (· = before)) (commitPatchCreate sha256Hex system path contents)
      (fun _ => Seen allowed (Settled before target))
      (fun _ => Seen allowed (Settled before target)) := by
  rw [commitPatchCreate, withParent, hparent]
  refine throughTemp_triple hkeeps hmakes hunlink ?_
  rintro temp node ⟨hregular, hnil, hset⟩
  apply writeTemp_triple hkeeps contents node
  apply renameatNoReplace_triple
  intro hnone tree htarget
  exact hnew tree ⟨_, htarget, hregular, by rw [hnil]; rfl, by rw [hnone]; exact hset⟩

theorem commitPatchUpdate_triple (sha256Hex : Bytes → String)
    (hkeeps : ∀ tree, tree target = before target → allowed tree) {contents : Bytes}
    (hnew : ∀ tree, Replaced contents (before target) (tree target) → allowed tree)
    (hmakes : MakesTemp system target) (hunlink : system.fault .unlinkTemp = none) {path : HostPath}
    (hparent : openParentBeneath system path = .ok target) (expectedSha256 : String) :
    Triple (Seen allowed (· = before))
      (commitPatchUpdate sha256Hex system path expectedSha256 contents)
      (fun _ => Seen allowed (Settled before target))
      (fun _ => Seen allowed (Settled before target)) := by
  rw [commitPatchUpdate, withParent, hparent]
  refine Triple.bind _ ((verifyPatchTarget_triple sha256Hex 0 expectedSha256).conseq (fun _ => id)
    (fun _ _ h => h.imp fun _ => And.left) fun _ _ h => h.settled) fun _ => ?_
  refine throughTemp_triple hkeeps hmakes hunlink ?_
  rintro temp node ⟨hregular, hnil, -⟩
  apply writeTemp_triple hkeeps contents node
  have hstopped : ∀ (error : WorkspaceWriteError) {node'} files,
      Seen allowed (Staged before target temp node') files →
      Seen allowed (fun tree => ∃ node, Staged before target temp node tree) files :=
    fun _ _ _ h => h.imp fun _ hstaged => ⟨_, hstaged⟩
  refine Triple.bind _ ((verifyPatchTarget_triple sha256Hex 1 expectedSha256).conseq (fun _ => id)
    (fun _ _ => id) fun error files => hstopped error files) fun mode => ?_
  rintro files ⟨⟨hstaged, hmode⟩, hmoments⟩
  rw [hstaged.target_eq] at hmode
  have hchange : Triple (Seen allowed (Staged before target temp
        { node with contents := node.contents ++ contents }))
      (system.change .changeMode (setMode temp mode))
      (fun _ => Seen allowed (Staged before target temp
        { node with contents := node.contents ++ contents, mode := mode }))
      (fun _ => Seen allowed fun tree => ∃ node, Staged before target temp node tree) := by
    refine (change_triple _ ?_).conseq (fun _ => id) (fun _ _ => id)
      fun error files => hstopped error files
    intro tree hstaged
    have hchanged := hstaged.change { node with contents := node.contents ++ contents, mode := mode }
    rw [setMode, hstaged.temp_eq]
    exact ⟨hkeeps _ hchanged.target_eq, hchanged⟩
  refine Triple.bind _ hchange (fun _ => Triple.bind _ ((check_triple _).conseq (fun _ => id)
    (fun _ _ => id) fun error files => hstopped error files) fun _ => renameat_triple ?_) files
    ⟨hstaged, hmoments⟩
  intro tree htarget
  exact hnew tree ⟨_, htarget, hregular, by rw [hnil]; rfl, hmode⟩

theorem commitPatchDelete_triple (sha256Hex : Bytes → String)
    (hkeeps : ∀ tree, tree target = before target → allowed tree)
    (hnew : ∀ tree, tree target = none → allowed tree) {path : HostPath}
    (hparent : openParentBeneath system path = .ok target) (expectedSha256 : String) :
    Triple (Seen allowed (· = before)) (commitPatchDelete sha256Hex system path expectedSha256)
      (fun _ => Seen allowed (Settled before target))
      (fun _ => Seen allowed (Settled before target)) := by
  rw [commitPatchDelete, withParent, hparent]
  refine Triple.bind _ ((verifyPatchTarget_triple sha256Hex 0 expectedSha256).conseq (fun _ => id)
    (fun _ _ h => h.imp fun _ => And.left) fun _ _ h => h.settled) fun _ => ?_
  have hunlink : Triple (Seen allowed (· = before)) (FileMutations.unlinkTarget system target)
      (fun _ => Seen allowed (Settled before target))
      (fun _ => Seen allowed (Settled before target)) := by
    refine Triple.bindGet fun seen => ?_
    refine Triple.bind _ ((onlyIf_throw_triple _).conseq (fun _ h => h.2) (fun _ _ => id)
      fun _ _ h => h.settled) fun _ => ?_
    refine Triple.bind _ ((onlyIf_throw_triple _).conseq (fun _ => id) (fun _ _ => id)
      fun _ _ h => h.settled) fun _ => Triple.attempt ?_ fun _ _ h => h.settled
    rintro - files h
    apply h.change
    rintro tree rfl
    refine ⟨hnew _ (by rw [FileMutations.remove, Function.update_self]), ?_⟩
    intro entry hentry
    exact Function.update_of_ne hentry _ _
  exact Triple.bind _ hunlink fun _ => Triple.bind _ (check_triple _) fun _ =>
    Triple.pure fun _ => id

end Mutations

inductive Mutation where
  | write (path : HostPath) (contents : Bytes)
  | patch (path : HostPath) (action : PatchFileAction) (expectedSha256 : Option String)
      (content : Option Bytes)

namespace Mutation

def path : Mutation → HostPath
  | write path _ => path
  | patch path _ _ _ => path

/-- What the mutation makes of the target when it is carried out. -/
def Completes (previous now : Option Node) : Mutation → Prop
  | write _ contents => Replaced contents previous now
  | patch _ .delete _ _ => now = none
  | patch _ _ _ content => ∃ contents, content = some contents ∧ Replaced contents previous now

end Mutation

structure Attempt where
  mutation : Mutation
  system : System

namespace Attempt

def target (this : Attempt) : Option Entry :=
  (openParentBeneath this.system this.mutation.path).toOption

def perform (sha256Hex : Bytes → String) (this : Attempt) (files : FileSystem) : FileSystem :=
  match this.mutation with
  | .write path contents => finalState (writeFileAtomicBeneath this.system path contents files)
  | .patch path action expectedSha256 content =>
    finalState (commitPatchFileBeneath sha256Hex this.system path action expectedSha256 content
      files)

def step (sha256Hex : Bytes → String) (tree : Tree) (this : Attempt) : Tree :=
  (this.perform sha256Hex (FileSystem.start tree)).tree

/-- The clean-up can unlink its file, and the file that is created can be given
its mode under a name that is not the target's. -/
structure CleansUp (this : Attempt) : Prop where
  unlinkTemp : this.system.fault .unlinkTemp = none
  tempMode : this.system.fault .tempMode = none
  names : ∀ left random entry, this.system.random left = some random →
    this.target = some entry → tempName random ≠ entry.2

/-- What `previous` and all that follows it until the mutation returns are like:
nothing is left over, and the target is as it was or complete. -/
structure Atomic (this : Attempt) (previous : Tree) (after : FileSystem) : Prop where
  others : ∀ entry, this.target ≠ some entry → after.tree entry = previous entry
  target : ∀ entry, this.target = some entry → ∀ moment ∈ after.moments,
    moment entry = previous entry ∨ this.mutation.Completes (previous entry) (moment entry)

theorem CleansUp.makesTemp {this : Attempt} (h : this.CleansUp) {target : Entry}
    (htarget : this.target = some target) : MakesTemp this.system target := by
  refine ⟨h.tempMode, ?_⟩
  intro left random hrandom heq
  apply h.names left random target hrandom htarget
  rw [← heq]

theorem tempName_ne {name : String} (hname : ¬tempPrefix.toList <+: name.toList)
    (random : Vector UInt8 16) : tempName random ≠ name := by
  rintro rfl
  apply hname
  rw [tempName, String.toList_append]
  exact List.prefix_append _ _

theorem perform_unopened (sha256Hex : Bytes → String) {this : Attempt} (files : FileSystem)
    (htarget : this.target = none) : this.perform sha256Hex files = files := by
  rcases this with ⟨mutation, system⟩
  cases hparent : openParentBeneath system mutation.path with
  | ok target => simp [Attempt.target, hparent, Except.toOption] at htarget
  | error error =>
    cases mutation with
    | write path contents =>
      simp only [Mutation.path] at hparent
      simp only [perform, writeFileAtomicBeneath, withParent, hparent]
      rfl
    | patch path action expectedSha256 content =>
      simp only [Mutation.path] at hparent
      simp only [perform, commitPatchFileBeneath, commitPatchCreate, commitPatchUpdate,
        commitPatchDelete, withParent, hparent]
      split
      · rfl
      · split <;> rfl
      · split <;> rfl
      · rfl

theorem parent_of_target {this : Attempt} {target : Entry} (htarget : this.target = some target) :
    openParentBeneath this.system this.mutation.path = .ok target := by
  rw [Attempt.target] at htarget
  cases hparent : openParentBeneath this.system this.mutation.path with
  | ok opened =>
    rw [hparent] at htarget
    exact congrArg _ (Option.some.inj htarget)
  | error error =>
    rw [hparent] at htarget
    cases htarget

/-- What the moments of a mutation for this target are to be. -/
def Whole (this : Attempt) (before : Tree) (target : Entry) (moment : Tree) : Prop :=
  moment target = before target ∨ this.mutation.Completes (before target) (moment target)

theorem patch_triple (sha256Hex : Bytes → String) {system : System} {path : HostPath}
    {action : PatchFileAction} {expectedSha256 : Option String} {content : Option Bytes}
    {before : Tree} {target : Entry} {allowed : Tree → Prop}
    (hparent : openParentBeneath system path = .ok target) (hmakes : MakesTemp system target)
    (hunlink : system.fault .unlinkTemp = none)
    (hallowed : ∀ tree, tree target = before target ∨
      (Mutation.patch path action expectedSha256 content).Completes (before target) (tree target) →
        allowed tree) :
    Triple (Seen allowed (· = before))
      (commitPatchFileBeneath sha256Hex system path action expectedSha256 content)
      (fun _ => Seen allowed (Settled before target))
      (fun _ => Seen allowed (Settled before target)) := by
  have hkeeps : ∀ tree, tree target = before target → allowed tree :=
    fun tree htree => hallowed tree (.inl htree)
  have hrefused : Triple (Seen allowed (· = before))
      (throw .preconditionFailed : Action PatchFileCommitResult)
      (fun _ => Seen allowed (Settled before target))
      (fun _ => Seen allowed (Settled before target)) := Triple.throw fun _ h => h.settled
  unfold commitPatchFileBeneath
  split
  · refine commitPatchCreate_triple sha256Hex hkeeps ?_ hmakes hunlink hparent
    exact fun tree hreplaced => hallowed tree (.inr ⟨_, rfl, hreplaced⟩)
  · refine Triple.ite (fun _ => ?_) fun _ => hrefused
    refine commitPatchUpdate_triple sha256Hex hkeeps ?_ hmakes hunlink hparent _
    exact fun tree hreplaced => hallowed tree (.inr ⟨_, rfl, hreplaced⟩)
  · refine Triple.ite (fun _ => ?_) fun _ => hrefused
    refine commitPatchDelete_triple sha256Hex hkeeps ?_ hparent _
    exact fun tree hnone => hallowed tree (.inr hnone)
  · exact hrefused

theorem perform_seen (sha256Hex : Bytes → String) {this : Attempt} (h : this.CleansUp)
    {before : Tree} {target : Entry} (htarget : this.target = some target) {files : FileSystem}
    (hfiles : Seen (this.Whole before target) (· = before) files) :
    Seen (this.Whole before target) (Settled before target) (this.perform sha256Hex files) := by
  have hparent := parent_of_target htarget
  have hmakes := h.makesTemp htarget
  have hunlink := h.unlinkTemp
  rcases this with ⟨mutation, system⟩
  cases mutation with
  | write path contents =>
    refine (writeFile_triple ?_ ?_ hmakes hunlink hparent).final hfiles
    · exact fun _ htree => .inl htree
    · exact fun _ hreplaced => .inr hreplaced
  | patch path action expectedSha256 content =>
    exact (patch_triple sha256Hex hparent hmakes hunlink fun _ => id).final hfiles

theorem perform_atomic (sha256Hex : Bytes → String) {this : Attempt} (h : this.CleansUp)
    (tree : Tree) : this.Atomic tree (this.perform sha256Hex (FileSystem.start tree)) := by
  cases htarget : this.target with
  | none =>
    rw [perform_unopened sha256Hex _ htarget]
    refine ⟨fun _ _ => rfl, ?_⟩
    intro entry hentry
    rw [htarget] at hentry
    cases hentry
  | some target =>
    have hstart : Seen (this.Whole tree target) (· = tree) (FileSystem.start tree) := by
      refine ⟨rfl, ?_⟩
      intro moment hmoment
      rw [List.mem_singleton.mp hmoment]
      exact .inl rfl
    have hseen := perform_seen sha256Hex h htarget hstart
    refine ⟨?_, ?_⟩
    · intro entry hentry
      apply hseen.tree
      intro heq
      exact hentry (by rw [htarget, heq])
    · intro entry hentry moment hmoment
      obtain rfl : target = entry := Option.some.inj (htarget.symm.trans hentry)
      exact hseen.moments moment hmoment

end Attempt

/-- While every mutation can give its temporary file its mode, a run of them
fails nowhere with more than its targets changed, and none of these is ever seen
in part. -/
theorem mutations_atomic (sha256Hex : Bytes → String) (tree : Tree) {run : List Attempt}
    (hrun : ∀ this ∈ run, this.CleansUp) :
    (∀ front this back, run = front ++ this :: back →
      let previous := front.foldl (Attempt.step sha256Hex) tree
      this.Atomic previous (this.perform sha256Hex (FileSystem.start previous))) ∧
    ∀ entry, (∀ this ∈ run, this.target ≠ some entry) →
      run.foldl (Attempt.step sha256Hex) tree entry = tree entry := by
  constructor
  · rintro front this back rfl previous
    exact Attempt.perform_atomic sha256Hex (hrun this (by simp)) previous
  · intro entry hentry
    have hstep : ∀ (now : Tree) (this : Attempt), now entry = tree entry →
        this.CleansUp ∧ this.target ≠ some entry →
        Attempt.step sha256Hex now this entry = tree entry := by
      intro now this hnow hthis
      rw [← hnow]
      exact (Attempt.perform_atomic sha256Hex hthis.1 now).others entry hthis.2
    refine foldl_invariant_of (I := fun now : Tree => now entry = tree entry) hstep rfl ?_
    rintro front this back rfl
    exact ⟨hrun this (by simp), hentry this (by simp)⟩

/-- A host on which every call succeeds but those in `failing`. -/
def hostFailing (failing : List (Call × Nat)) : System where
  openParent := fun _ => .ok 3
  fault := fun call => failing.lookup call
  random := fun left => some (Vector.replicate 16 left.toUInt8)
  createdMode := ownerOnly
  createdIdentity := 100 + failing.length

def noDigest (_ : Bytes) : String := String.ofList (List.replicate 64 '0')

def script : Node :=
  { fileType := .regularFile, contents := utf8 "old", mode := 0o100754, identity := 7 }

def sampleTree : Tree := fun entry => if entry = (3, "run.sh") then some script else none

def writeScript (failing : List (Call × Nat)) : Attempt where
  mutation := .write [.normal "run.sh"] (utf8 "new")
  system := hostFailing failing

def patchScript (action : PatchFileAction) (content : Option Bytes) (failing : List (Call × Nat)) :
    Attempt where
  mutation := .patch [.normal "run.sh"] action
    (if action = .create then none else some (noDigest [])) content
  system := hostFailing failing

/-- A disk that fills up, a rename that fails, a directory that cannot be
synced, and each of the three commits. -/
def sampleRun : List Attempt :=
  [writeScript [(.write 1, 28)], writeScript [(.rename, 5)], writeScript [(.syncDirectory, 5)],
    patchScript .create (some (utf8 "new")) [], patchScript .update (some (utf8 "next")) [],
    patchScript .update (some (utf8 "next")) [(.changeMode, 1)], patchScript .delete none []]

theorem sampleRun_atomic :
    (writeScript [(.rename, 5)]).Atomic
        (Attempt.step noDigest sampleTree (writeScript [(.write 1, 28)]))
        ((writeScript [(.rename, 5)]).perform noDigest
          (FileSystem.start (Attempt.step noDigest sampleTree (writeScript [(.write 1, 28)])))) ∧
      sampleRun.foldl (Attempt.step noDigest) sampleTree
        (3, tempName (Vector.replicate 16 15)) = none := by
  have hcleansUp : ∀ this ∈ sampleRun, this.CleansUp := by
    have hcalls : ∀ this ∈ sampleRun, this.system.fault .unlinkTemp = none ∧
        this.system.fault .tempMode = none ∧ this.target = some (3, "run.sh") := by decide
    intro this hthis
    obtain ⟨hunlink, hmode, htarget⟩ := hcalls this hthis
    refine ⟨hunlink, hmode, ?_⟩
    intro left random entry _ hentry
    obtain rfl : (3, "run.sh") = entry := Option.some.inj (htarget.symm.trans hentry)
    exact Attempt.tempName_ne (by decide) random
  have hrun := mutations_atomic noDigest sampleTree hcleansUp
  refine ⟨hrun.1 [writeScript [(.write 1, 28)]] _ _ rfl, ?_⟩
  rw [hrun.2 (3, tempName (Vector.replicate 16 15)) (by decide)]
  decide

/-- The new file cannot be given its mode, and nobody removes it: the write has
failed, and the directory has an entry more. -/
theorem unset_mode_leaves_temp :
    let attempt := writeScript [(.tempMode, 1)]
    let after := attempt.perform noDigest (FileSystem.start sampleTree)
    let leftOver : Entry := (3, tempName (Vector.replicate 16 15))
    attempt.system.fault .unlinkTemp = none ∧ attempt.target ≠ some leftOver ∧
      tempPrefix.toList <+: leftOver.2.toList ∧ sampleTree leftOver = none ∧
      after.tree leftOver = some attempt.system.emptyFile ∧ ¬attempt.Atomic sampleTree after := by
  intro attempt after leftOver
  have hother : attempt.target ≠ some leftOver := by decide
  have hbefore : sampleTree leftOver = none := by decide
  have hafter : after.tree leftOver = some attempt.system.emptyFile := by decide
  refine ⟨by decide, hother, by decide, hbefore, hafter, ?_⟩
  intro hatomic
  have hsame := hatomic.others leftOver hother
  rw [hafter, hbefore] at hsame
  cases hsame

end KodeGpt.MutationAtomicity
