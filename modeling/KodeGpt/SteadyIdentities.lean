import KodeGpt.IdentityInspections

/-!
A path may go, grow or become something else between its two inspections and while it is
hashed. Which of these changes the runtime notices, and what is true of its records when it
has noticed none.
-/

namespace KodeGpt.SteadyIdentities

open GitStatus IdentityInspections
open GitCheckpoints hiding attachCurrentIdentities
open JsonText (Bytes)

/-- What a record that needs an identity is to carry. -/
def Identified (record : CheckpointRecord) : Prop :=
  ∃ identity, record.currentIdentity = some identity ∧ identity.present = true ∧
    canBeHashed identity.kind = true ∧ identity.sha256.isSome = true

/-- When nothing is said to be left out every record is identified; and hashing is bounded. -/
structure Accounted (progress : Progress) : Prop where
  identified : progress.failure = none → progress.truncated = false →
    ∀ record ∈ progress.records, recordNeedsCurrentIdentity record = true → Identified record
  hashed : progress.hashed ≤ checkpointMaxHashedBytes + pathIdentityMaxHashBytes

def readBytes : List (Except Errno Bytes) → Bytes
  | .ok (byte :: chunk) :: rest => (byte :: chunk) ++ readBytes rest
  | _ => []

/-- The path has not gone, and has not become something else than a file or a link. -/
structure StillThere (answers : Answers) : Prop where
  found : answers.opened ≠ .error .notFound
  kind : ∀ stat, answers.opened = .ok (.ok stat) → 0 ≤ stat.size →
    canBeHashed (some stat.kind) = true

/-- A file that may be hashed does not grow over the limit while it is read, and the target of
a link is not longer than the link was when it was opened. -/
structure Counted (answers : Answers) : Prop where
  file : ∀ stat later, answers.opened = .ok (.ok stat) → stat.kind = .file →
    answers.reopened = .ok (.ok later) → later.size.toNat ≤ pathIdentityMaxHashBytes →
      (readBytes answers.reads).length ≤ pathIdentityMaxHashBytes
  symlink : ∀ stat target, answers.opened = .ok (.ok stat) → stat.kind = .symlink →
    answers.target = .ok target → target.length ≤ pathIdentityMaxHashBytes →
      target.length ≤ stat.size.toNat

section Inspected

variable {sha256Hex : Bytes → Bytes} {answers : Answers} {identity : PathIdentityResult}
  {inspection : Inspection}

theorem saturatingAdd_eq {a b bound : Nat} (hbound : bound < maxU64)
    (h : saturatingAdd a b ≤ bound) : saturatingAdd a b = a + b := by
  rw [saturatingAdd] at h ⊢
  omega

/-- No more than the limit is hashed; and an identity without a hash says so. -/
structure Hashes (inspection : Inspection) : Prop where
  length : inspection.hashed.length ≤ pathIdentityMaxHashBytes
  whole : ∀ identity, inspection.outcome = .ok identity → identity.hashTruncated = false →
    identity.present = true ∧ canBeHashed identity.kind = true ∧ identity.sha256.isSome = true

/-- What has been hashed is no more than the size of an identity that has its hash. -/
def Counts (inspection : Inspection) : Prop :=
  ∀ identity, inspection.outcome = .ok identity → inspection.hashed.length ≤
    if identity.hashTruncated then 0 else identity.sizeBytes.getD 0

theorem hashes_unhashed {outcome : Except PathIdentityError PathIdentityResult}
    (h : ∀ identity, outcome = .ok identity → identity.hashTruncated = true) :
    Hashes ⟨outcome, []⟩ where
  length := Nat.zero_le _
  whole identity hidentity hwhole := by
    rw [h identity hidentity] at hwhole
    cases hwhole

theorem counts_unhashed (outcome : Except PathIdentityError PathIdentityResult) :
    Counts ⟨outcome, []⟩ :=
  fun _ _ => Nat.zero_le _

theorem hashes_error (error : PathIdentityError) {hashed : Bytes}
    (hhashed : hashed.length ≤ pathIdentityMaxHashBytes) : Hashes ⟨.error error, hashed⟩ :=
  ⟨hhashed, nofun⟩

theorem hashes_read {reads : List (Except Errno Bytes)} {hasher : Bytes}
    (hhasher : hasher.length ≤ pathIdentityMaxHashBytes) :
    Hashes (hashReads sha256Hex hasher hasher.length reads) := by
  have hend : Hashes ⟨.ok ⟨true, some .file, some hasher.length, some (sha256Hex hasher), false⟩,
      hasher⟩ := by
    refine ⟨hhasher, ?_⟩
    rintro _ ⟨⟩ -
    exact ⟨rfl, rfl, rfl⟩
  induction reads generalizing hasher with
  | nil => exact hend
  | cons read rest ih =>
    match read with
    | .error error => exact hashes_error _ hhasher
    | .ok [] => exact hend
    | .ok (byte :: chunk) =>
      rw [hashReads_chunk]
      split
      · refine ⟨hhasher, ?_⟩
        rintro _ ⟨⟩ ⟨⟩
      · rename_i hroom
        have hsum := saturatingAdd_eq maxHashBytes_lt (Nat.not_lt.mp hroom)
        rw [hsum] at hroom ⊢
        rw [← List.length_append] at hroom ⊢
        have hhasher' := Nat.not_lt.mp hroom
        refine ih hhasher' ⟨hhasher', ?_⟩
        rintro _ ⟨⟩ -
        exact ⟨rfl, rfl, rfl⟩

theorem counts_read {reads : List (Except Errno Bytes)} {hasher : Bytes}
    (hreads : (hasher ++ readBytes reads).length ≤ pathIdentityMaxHashBytes) :
    Counts (hashReads sha256Hex hasher hasher.length reads) := by
  have hend : Counts ⟨.ok ⟨true, some .file, some hasher.length, some (sha256Hex hasher), false⟩,
      hasher⟩ := by
    rintro _ ⟨⟩
    exact Nat.le_refl _
  induction reads generalizing hasher with
  | nil => exact hend
  | cons read rest ih =>
    match read with
    | .error error => exact nofun
    | .ok [] => exact hend
    | .ok (byte :: chunk) =>
      have hnext : ((hasher ++ byte :: chunk) ++ readBytes rest).length ≤
          pathIdentityMaxHashBytes := by
        rwa [List.append_assoc]
      have hsum : saturatingAdd hasher.length (byte :: chunk).length =
          (hasher ++ byte :: chunk).length := by
        have hlimit := maxHashBytes_lt
        rw [List.length_append] at hnext
        rw [List.length_append] at hnext ⊢
        rw [saturatingAdd]
        omega
      have hroom : (hasher ++ byte :: chunk).length ≤ pathIdentityMaxHashBytes := by
        rw [List.length_append] at hnext
        omega
      rw [hashReads_chunk, hsum, if_neg (Nat.not_lt.mpr hroom)]
      refine ih hnext ?_
      rintro _ ⟨⟩
      exact Nat.le_refl _

theorem hashes_regularFile : Hashes (hashRegularFile sha256Hex answers) := by
  rw [hashRegularFile]
  split
  · exact hashes_error _ (Nat.zero_le _)
  · exact hashes_error _ (Nat.zero_le _)
  · split
    · exact hashes_error _ (Nat.zero_le _)
    · split
      · exact hashes_error _ (Nat.zero_le _)
      · split
        · refine hashes_unhashed ?_
          rintro _ ⟨⟩
          rfl
        · exact @hashes_read sha256Hex answers.reads [] (Nat.zero_le _)

theorem counts_regularFile (hreads : ∀ later, answers.reopened = .ok (.ok later) →
    later.size.toNat ≤ pathIdentityMaxHashBytes →
      (readBytes answers.reads).length ≤ pathIdentityMaxHashBytes) :
    Counts (hashRegularFile sha256Hex answers) := by
  rw [hashRegularFile]
  split
  · exact counts_unhashed _
  · exact counts_unhashed _
  · rename_i later hreopened
    split
    · exact counts_unhashed _
    · split
      · exact counts_unhashed _
      · split
        · exact counts_unhashed _
        · rename_i hsize
          exact @counts_read sha256Hex answers.reads []
            (hreads later hreopened (Nat.not_lt.mp hsize))

theorem hashes_symlink (sizeBytes : Nat) : Hashes (hashSymlink sha256Hex answers sizeBytes) := by
  rw [hashSymlink]
  split
  · exact hashes_error _ (Nat.zero_le _)
  · exact hashes_error _ (Nat.zero_le _)
  · split
    · refine hashes_unhashed ?_
      rintro _ ⟨⟩
      rfl
    · rename_i hlength
      refine ⟨Nat.not_lt.mp hlength, ?_⟩
      rintro _ ⟨⟩ -
      exact ⟨rfl, rfl, rfl⟩

theorem counts_symlink {sizeBytes : Nat} (htarget : ∀ target, answers.target = .ok target →
    target.length ≤ pathIdentityMaxHashBytes → target.length ≤ sizeBytes) :
    Counts (hashSymlink sha256Hex answers sizeBytes) := by
  rw [hashSymlink]
  split
  · exact counts_unhashed _
  · exact counts_unhashed _
  · rename_i target _ hanswer
    split
    · exact counts_unhashed _
    · rename_i hlength
      rintro _ ⟨⟩
      exact htarget target hanswer (Nat.not_lt.mp hlength)

theorem pathIdentityBeneath_length (answers : Answers) :
    (pathIdentityBeneath sha256Hex answers true).hashed.length ≤ pathIdentityMaxHashBytes := by
  rw [pathIdentityBeneath]
  split
  · exact Nat.zero_le _
  · exact Nat.zero_le _
  · exact Nat.zero_le _
  · split
    · exact Nat.zero_le _
    · split
      · exact Nat.zero_le _
      · split
        · exact hashes_regularFile.length
        · exact (hashes_symlink _).length
        · exact Nat.zero_le _

theorem pathIdentityBeneath_whole (h : StillThere answers)
    (houtcome : (pathIdentityBeneath sha256Hex answers true).outcome = .ok identity)
    (hwhole : identity.hashTruncated = false) : identity.present = true ∧
      canBeHashed identity.kind = true ∧ identity.sha256.isSome = true := by
  rw [pathIdentityBeneath] at houtcome
  split at houtcome
  · exact absurd ‹_› h.found
  · cases houtcome
  · cases houtcome
  · rename_i stat hopened
    split at houtcome
    · cases houtcome
    · rename_i hsize
      have hkind := h.kind stat hopened (Int.not_lt.mp hsize)
      split at houtcome
      · contradiction
      · split at houtcome
        · exact hashes_regularFile.whole identity houtcome hwhole
        · exact (hashes_symlink _).whole identity houtcome hwhole
        · rename_i hfile hsymlink
          rw [canBeHashed, Bool.or_eq_true, decide_eq_true_eq, decide_eq_true_eq] at hkind
          rcases hkind with hkind | hkind
          · exact absurd (Option.some.inj hkind) hfile
          · exact absurd (Option.some.inj hkind) hsymlink

theorem pathIdentityBeneath_counts (h : Counted answers) :
    Counts (pathIdentityBeneath sha256Hex answers true) := by
  rw [pathIdentityBeneath]
  split
  · exact counts_unhashed _
  · exact counts_unhashed _
  · exact counts_unhashed _
  · rename_i stat hopened
    split
    · exact counts_unhashed _
    · split
      · exact counts_unhashed _
      · split
        · rename_i hkind
          exact counts_regularFile fun later => h.file stat later hopened hkind
        · rename_i hkind
          exact counts_symlink fun target => h.symlink stat target hopened hkind
        · exact counts_unhashed _

end Inspected

section Runs

variable (sha256Hex : Bytes → Bytes)

/-- The record is inspected a second time, to be hashed. -/
structure Reinspected (progress : Progress) (visit : Visit) : Prop where
  going : progress.failure = none
  needs : recordNeedsCurrentIdentity visit.record = true
  metadata : ∃ metadata, (pathIdentityBeneath sha256Hex visit.before false).outcome = .ok metadata ∧
    metadata.present = true ∧ canBeHashed metadata.kind = true ∧
      saturatingAdd progress.hashedBytes (metadata.sizeBytes.getD 0) ≤ checkpointMaxHashedBytes

/-- Between the inspections, and while it is hashed, the path does not change in a way that
goes unnoticed. -/
def Steady (progress : Progress) (visit : Visit) : Prop :=
  Reinspected sha256Hex progress visit → StillThere visit.after ∧ Counted visit.after

def SteadyRun : Progress → List Visit → Prop
  | _, [] => True
  | progress, visit :: rest =>
    Steady sha256Hex progress visit ∧
      SteadyRun (attachCurrentIdentity sha256Hex progress visit) rest

/-- The invariant of a steady run. -/
structure Kept (progress : Progress) : Prop extends Accounted progress where
  counted : progress.failure = none → progress.hashed ≤ progress.hashedBytes

variable {sha256Hex} {progress : Progress} {visit : Visit}

theorem attachCurrentIdentity_cases (progress : Progress) (visit : Visit) :
    (attachCurrentIdentity sha256Hex progress visit = progress) ∨
    (recordNeedsCurrentIdentity visit.record = false ∧
      attachCurrentIdentity sha256Hex progress visit = progress.keep visit.record) ∨
    (attachCurrentIdentity sha256Hex progress visit = progress.fail) ∨
    (∃ identity, attachCurrentIdentity sha256Hex progress visit =
      progress.attach visit.record identity true) ∨
    (Reinspected sha256Hex progress visit ∧
      attachCurrentIdentity sha256Hex progress visit = attachHashed sha256Hex progress visit) := by
  rw [attachCurrentIdentity]
  split
  · exact .inl rfl
  · rename_i hgoing
    split
    · rename_i hneeds
      exact .inr (.inl ⟨by simpa using hneeds, rfl⟩)
    · rename_i hneeds
      split
      · exact .inr (.inr (.inl rfl))
      · rename_i metadata hmetadata
        split
        · exact .inr (.inr (.inr (.inl ⟨_, rfl⟩)))
        · rename_i hpresent
          split
          · exact .inr (.inr (.inr (.inl ⟨_, rfl⟩)))
          · rename_i hkind
            split
            · exact .inr (.inr (.inr (.inl ⟨_, rfl⟩)))
            · rename_i hroom
              refine .inr (.inr (.inr (.inr ⟨⟨?_, ?_, metadata, hmetadata, ?_, ?_,
                Nat.not_lt.mp hroom⟩, rfl⟩)))
              · simpa using hgoing
              · simpa using hneeds
              · simpa using hpresent
              · simpa using hkind

theorem Kept.start : Kept Progress.start where
  identified _ _ := List.forall_mem_nil _
  hashed := Nat.zero_le _
  counted _ := Nat.le_refl _

theorem Kept.keep (h : Kept progress) {record : CheckpointRecord}
    (hneeds : recordNeedsCurrentIdentity record = false) : Kept (progress.keep record) where
  identified hfailure htruncated := by
    refine List.forall_mem_append.mpr ⟨h.identified hfailure htruncated,
      List.forall_mem_singleton.mpr fun hneeded => ?_⟩
    rw [hneeds] at hneeded
    cases hneeded
  hashed := h.hashed
  counted := h.counted

theorem Kept.fail (h : Kept progress) : Kept progress.fail where
  identified := nofun
  hashed := h.hashed
  counted := nofun

theorem Kept.attach (h : Kept progress) (record : CheckpointRecord)
    (identity : PathIdentityResult) : Kept (progress.attach record identity true) where
  identified _ htruncated := by
    rw [Progress.attach, Bool.or_true] at htruncated
    cases htruncated
  hashed := h.hashed
  counted := h.counted

theorem Kept.hashed_le (h : Kept progress) (hagain : Reinspected sha256Hex progress visit) :
    progress.hashed ≤ checkpointMaxHashedBytes := by
  obtain ⟨metadata, -, -, -, hroom⟩ := hagain.metadata
  have hbound : checkpointMaxHashedBytes < maxU64 := by decide
  rw [saturatingAdd_eq hbound hroom] at hroom
  exact Nat.le_trans (h.counted hagain.going) (by omega)

theorem Kept.attachHashed (h : Kept progress) (hagain : Reinspected sha256Hex progress visit)
    (hsteady : Steady sha256Hex progress visit) :
    Kept (attachHashed sha256Hex progress visit) := by
  obtain ⟨hthere, hcounted⟩ := hsteady hagain
  have hlength := @pathIdentityBeneath_length sha256Hex visit.after
  have hcounts := @pathIdentityBeneath_counts sha256Hex _ hcounted
  have hbudget := h.hashed_le hagain
  have htotal := h.counted hagain.going
  have hlater : Kept { progress with
      hashed := progress.hashed + (pathIdentityBeneath sha256Hex visit.after true).hashed.length
      failure := some .checkpointIdentityUnavailable } :=
    ⟨⟨nofun, Nat.add_le_add hbudget hlength⟩, nofun⟩
  rw [IdentityInspections.attachHashed]
  dsimp only
  split
  · exact hlater
  · rename_i identity houtcome
    have hcount := hcounts identity houtcome
    split
    · rename_i hcut
      rw [if_pos hcut] at hcount
      refine ⟨⟨?_, Nat.add_le_add hbudget hlength⟩, fun _ => Nat.add_le_add htotal hcount⟩
      intro _ htruncated
      rw [Progress.attach, Bool.or_true] at htruncated
      cases htruncated
    · rename_i hwhole
      have hidentified :=
        pathIdentityBeneath_whole hthere houtcome (Bool.eq_false_iff.mpr hwhole)
      rw [if_neg hwhole] at hcount
      refine ⟨⟨?_, Nat.add_le_add hbudget hlength⟩, fun _ => ?_⟩
      · intro _ htruncated
        rw [Progress.attach, Bool.or_false] at htruncated
        exact List.forall_mem_append.mpr ⟨h.identified hagain.going htruncated,
          List.forall_mem_singleton.mpr fun _ => ⟨identity, rfl, hidentified⟩⟩
      · have hmax : checkpointMaxHashedBytes + pathIdentityMaxHashBytes ≤ maxU64 := by decide
        show progress.hashed + _ ≤ saturatingAdd progress.hashedBytes _
        rw [saturatingAdd]
        omega

theorem Kept.attachCurrentIdentity (h : Kept progress)
    (hsteady : Steady sha256Hex progress visit) :
    Kept (attachCurrentIdentity sha256Hex progress visit) := by
  rcases @attachCurrentIdentity_cases sha256Hex progress visit with
    heq | ⟨hneeds, heq⟩ | heq | ⟨identity, heq⟩ | ⟨hagain, heq⟩
  · rwa [heq]
  · rw [heq]
    exact h.keep hneeds
  · rw [heq]
    exact h.fail
  · rw [heq]
    exact h.attach visit.record identity
  · rw [heq]
    exact h.attachHashed hagain hsteady

theorem Kept.run {visits front : List Visit} (h : Kept progress)
    (hsteady : SteadyRun sha256Hex progress visits) (hfront : front <+: visits) :
    Kept (front.foldl (IdentityInspections.attachCurrentIdentity sha256Hex) progress) := by
  induction front generalizing progress visits with
  | nil => exact h
  | cons visit front ih =>
    obtain ⟨back, rfl⟩ := hfront
    obtain ⟨hvisit, hrest⟩ := hsteady
    exact ih (h.attachCurrentIdentity hvisit) hrest (List.prefix_append front back)

/-- In every run in which no path goes or grows unnoticed between its two inspections, after
every record of it: unless something is said to be left out each record that needs an identity
is identified, and what has been hashed is bounded. -/
theorem steadyRun_accounted {visits : List Visit}
    (hsteady : SteadyRun sha256Hex Progress.start visits) :
    ∀ front, front <+: visits → Accounted (attachCurrentIdentities sha256Hex front) :=
  fun _ hfront => (Kept.start.run hsteady hfront).toAccounted

end Runs

def found (size : Nat) : Except OpenatBoundaryError (Except Errno Stat) :=
  .ok (.ok ⟨.file, size⟩)

def oneByte : Answers := ⟨found 1, found 1, [.ok [120]], .ok (), .error 22⟩

def gone : Answers := ⟨.error .notFound, .error .notFound, [], .error .notFound, .error 2⟩

def newFile : CheckpointRecord := untrackedRecord [97]

/-- The new file is removed after its size has been taken. -/
theorem goneFile_not_accounted : ¬ ∀ (sha256Hex : Bytes → Bytes) (visits : List Visit),
    Accounted (attachCurrentIdentities sha256Hex visits) := by
  intro h
  obtain ⟨identity, hidentity, hpresent, -⟩ :=
    (h id [⟨newFile, oneByte, gone⟩]).identified rfl rfl _ List.mem_cons_self rfl
  cases hidentity
  cases hpresent

theorem oneByte_accounted :
    Accounted (attachCurrentIdentities id [⟨newFile, oneByte, oneByte⟩]) := by
  have hsteady : SteadyRun id .start [⟨newFile, oneByte, oneByte⟩] := by
    refine ⟨fun _ => ⟨⟨nofun, ?_⟩, ?_, ?_⟩, trivial⟩
    · rintro stat ⟨⟩ -
      rfl
    · rintro stat later ⟨⟩ - ⟨⟩ -
      decide
    · rintro stat target - - ⟨⟩
  exact steadyRun_accounted hsteady _ List.prefix_rfl

end KodeGpt.SteadyIdentities
