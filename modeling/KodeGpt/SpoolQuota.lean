import KodeGpt.KeyedSizes
import KodeGpt.RawSpool
import KodeGpt.TransitionSystem

/-!
The aggregate quota of the raw spool, over any run of its operations: what the
completed artifacts amount to, with the full cap reserved for each active one.
-/

namespace KodeGpt.SpoolQuota

open FallibleActions JsonText KeyedSizes RawSpool RawSpool.RawSpoolStore RpcResponses
open TransitionSystem

def completedBytes (store : RawSpoolStore) : Nat :=
  freeSize SpoolEntry.name SpoolEntry.length store.activeArtifacts store.directory

def reserved (store : RawSpoolStore) : Nat :=
  completedBytes store + rawSpoolSourceCapBytes * store.activeArtifacts.length

/-- The directory holds artifacts only, under distinct names, and the file of an
active one is within the cap; what is reserved is within `limit`. -/
structure StoredWithin (limit : Nat) (store : RawSpoolStore) : Prop where
  names : (store.directory.map SpoolEntry.name).Nodup
  artifacts : ∀ entry ∈ store.directory,
    validateArtifactId entry.name = .ok () ∧ entry.regular = true
  writers : store.activeArtifacts = store.writers.map RawSpoolWriter.artifactId
  distinct : store.activeArtifacts.Nodup
  held : HeldWithin SpoolEntry.name SpoolEntry.length rawSpoolSourceCapBytes
    store.activeArtifacts store.directory
  bounded : reserved store ≤ limit

namespace StoredWithin

variable {limit : Nat} {store : RawSpoolStore}

theorem weaken {limit' : Nat} (h : StoredWithin limit store) (hle : limit ≤ limit') :
    StoredWithin limit' store :=
  { h with bounded := h.bounded.trans hle }

theorem active_hasEntry (h : StoredWithin limit store) {name : Bytes}
    (hactive : name ∈ store.activeArtifacts) : store.hasEntry name = true := by
  obtain ⟨entry, hentry, rfl, -⟩ := h.held name hactive
  rw [hasEntry, List.any_eq_true]
  exact ⟨entry, hentry, by simp⟩

/-- Taking an entry out keeps what is stored, whether or not there was one. -/
theorem removeEntry (h : StoredWithin limit store) {name : Bytes}
    (hname : name ∉ store.activeArtifacts) : StoredWithin limit (store.removeEntry name) := by
  refine ⟨without_nodup name h.names, ?_, h.writers, h.distinct, ?_, ?_⟩
  · intro entry hentry
    exact h.artifacts entry (mem_without.mp hentry).1
  · intro active hactive
    obtain ⟨entry, hentry, hkey, hlength⟩ := h.held active hactive
    have hne : entry.name ≠ name := by
      rw [hkey]
      exact fun heq => hname (heq ▸ hactive)
    exact ⟨entry, mem_without.mpr ⟨hentry, hne⟩, hkey, hlength⟩
  · refine le_trans ?_ h.bounded
    exact Nat.add_le_add_right (freeSize_mono (fun _ => id) List.filter_sublist) _

theorem reserved_removeEntry (h : StoredWithin limit store) {entry : SpoolEntry}
    (hentry : entry ∈ freeItems SpoolEntry.name store.activeArtifacts store.directory) :
    reserved (store.removeEntry entry.name) + entry.length = reserved store := by
  obtain ⟨hmem, hfree⟩ := mem_freeItems.mp hentry
  have hsize : completedBytes (store.removeEntry entry.name) + entry.length =
      completedBytes store := freeSize_without h.names hmem hfree
  rw [reserved, reserved, ← hsize]
  show _ + rawSpoolSourceCapBytes * store.activeArtifacts.length + _ = _
  omega

theorem countSequence (h : StoredWithin limit store) : StoredWithin limit store.countSequence :=
  ⟨h.names, h.artifacts, h.writers, h.distinct, h.held, h.bounded⟩

theorem addEntry (h : StoredWithin limit store) {name : Bytes} (modified : Nat)
    (hvalid : validateArtifactId name = .ok ()) (hfresh : store.hasEntry name = false) :
    StoredWithin limit (store.addEntry name modified) := by
  rw [hasEntry, List.any_eq_false] at hfresh
  refine ⟨?_, ?_, h.writers, h.distinct, ?_, ?_⟩
  · rw [RawSpoolStore.addEntry, List.map_append, List.nodup_append]
    refine ⟨h.names, List.nodup_singleton _, ?_⟩
    rintro taken htaken other hother rfl
    obtain ⟨entry, hentry, rfl⟩ := List.mem_map.mp htaken
    obtain rfl := List.mem_singleton.mp hother
    exact hfresh entry hentry (by simp)
  · intro entry hentry
    rcases List.mem_append.mp hentry with hold | hnew
    · exact h.artifacts entry hold
    · rw [List.mem_singleton.mp hnew]
      exact ⟨hvalid, rfl⟩
  · intro active hactive
    obtain ⟨entry, hentry, hkey, hlength⟩ := h.held active hactive
    exact ⟨entry, List.mem_append_left _ hentry, hkey, hlength⟩
  · refine le_trans ?_ h.bounded
    exact Nat.add_le_add_right (freeSize_concat _) _

end StoredWithin

/-- Between two entries of the scan: what is completed has been collected or is
still to be met. -/
structure Scanning (active : List Bytes) (rest completed : List SpoolEntry) (bytes : Nat)
    (store : RawSpoolStore) : Prop where
  stored : StoredWithin artifactAggregateCapBytes store
  snapshot : store.activeArtifacts = active
  free : freeItems SpoolEntry.name active store.directory =
    completed ++ freeItems SpoolEntry.name active rest
  bytes : bytes = (completed.map SpoolEntry.length).sum

namespace Scanning

variable {active : List Bytes} {entry : SpoolEntry} {rest completed : List SpoolEntry}
  {bytes : Nat} {store : RawSpoolStore}

theorem free_cons (hname : entry.name ∉ active) :
    freeItems SpoolEntry.name active (entry :: rest) =
      entry :: freeItems SpoolEntry.name active rest := by
  rw [freeItems, List.filter_cons_of_pos (by simpa using hname), freeItems]

theorem mem_free (h : Scanning active (entry :: rest) completed bytes store)
    (hname : entry.name ∉ active) :
    entry ∈ freeItems SpoolEntry.name store.activeArtifacts store.directory := by
  rw [h.snapshot, h.free, free_cons hname]
  simp

theorem skip (h : Scanning active (entry :: rest) completed bytes store)
    (hname : entry.name ∈ active) : Scanning active rest completed bytes store := by
  refine ⟨h.stored, h.snapshot, ?_, h.bytes⟩
  rw [h.free, freeItems, List.filter_cons_of_neg (by simpa using hname), freeItems]

/-- The scan passes over nothing that is completed: every file is an artifact. -/
theorem pass (h : Scanning active (entry :: rest) completed bytes store)
    (hentry : ¬(validateArtifactId entry.name = .ok () ∧ entry.regular = true)) :
    Scanning active rest completed bytes store := by
  apply h.skip
  by_contra hname
  exact hentry (h.stored.artifacts entry (mem_freeItems.mp (h.mem_free hname)).1)

theorem expire (h : Scanning active (entry :: rest) completed bytes store)
    (hname : entry.name ∉ active) :
    Scanning active rest completed bytes (store.removeEntry entry.name) := by
  have hkeys : ((freeItems SpoolEntry.name active store.directory).map SpoolEntry.name).Nodup :=
    freeItems_nodup h.stored.names
  rw [h.free, free_cons hname] at hkeys
  refine ⟨h.stored.removeEntry (h.snapshot ▸ hname), h.snapshot, ?_, h.bytes⟩
  calc
    freeItems SpoolEntry.name active (without SpoolEntry.name entry.name store.directory) =
        without SpoolEntry.name entry.name
          (completed ++ entry :: freeItems SpoolEntry.name active rest) := by
      rw [freeItems_without, h.free, free_cons hname]
    _ = completed ++ freeItems SpoolEntry.name active rest := without_append_cons hkeys

theorem collect (h : Scanning active (entry :: rest) completed bytes store)
    (hname : entry.name ∉ active) :
    Scanning active rest (completed ++ [entry]) (saturatingAdd bytes entry.length) store := by
  have hsum : completedBytes store = (completed.map SpoolEntry.length).sum + (entry.length +
      ((freeItems SpoolEntry.name active rest).map SpoolEntry.length).sum) := by
    rw [completedBytes, freeSize, h.snapshot, h.free, free_cons hname]
    simp
  have hbounded := h.stored.bounded
  rw [reserved, hsum] at hbounded
  have hcap : artifactAggregateCapBytes ≤ maxU64 := by decide
  refine ⟨h.stored, h.snapshot, ?_, ?_⟩
  · rw [h.free, free_cons hname, List.append_assoc, List.singleton_append]
  · rw [saturatingAdd, Nat.min_eq_left (by rw [h.bytes]; omega), h.bytes]
    simp

end Scanning

theorem scanEntries_triple (failing : Failing) (active : List Bytes) (now : Nat)
    (rest completed : List SpoolEntry) (bytes : Nat) :
    Triple (Scanning active rest completed bytes)
      (scanEntries failing active now rest completed bytes)
      (fun collected => Scanning active [] collected.1 collected.2)
      (fun _ => StoredWithin artifactAggregateCapBytes) := by
  induction rest generalizing completed bytes with
  | nil => exact Triple.pure fun _ => id
  | cons entry rest ih =>
    have hpass : ¬(validateArtifactId entry.name = .ok () ∧ entry.regular = true) →
        Triple (Scanning active (entry :: rest) completed bytes)
          (scanEntries failing active now rest completed bytes)
          (fun collected => Scanning active [] collected.1 collected.2)
          (fun _ => StoredWithin artifactAggregateCapBytes) :=
      fun hentry => (ih completed bytes).weaken fun _ h => h.pass hentry
    have hread : ∀ this, Triple (Scanning active (entry :: rest) completed bytes)
        (call failing this .io) (fun _ => Scanning active (entry :: rest) completed bytes)
        (fun _ => StoredWithin artifactAggregateCapBytes) :=
      fun _ => Triple.attempt (fun _ _ => id) fun _ _ h => h.stored
    refine Triple.bind _ (hread _) fun _ => Triple.ite (fun hvalid => ?_) fun hinvalid => ?_
    · refine Triple.bind _ (hread _) fun _ => Triple.ite (fun hregular => ?_) fun hirregular => ?_
      · refine Triple.ite (fun hactive => ?_) fun hinactive => ?_
        · exact (ih completed bytes).weaken fun _ h => h.skip (by simpa using hactive)
        · have hname : entry.name ∉ active := by simpa using hinactive
          refine Triple.ite (fun _ => ?_) fun _ => ?_
          · refine Triple.bind (fun _ => Scanning active rest completed bytes)
              (Triple.attempt ?_ ?_) fun _ => ih completed bytes
            · exact fun _ _ h => h.expire hname
            · exact fun _ _ h => h.stored
          · exact (ih _ _).weaken fun _ h => h.collect hname
      · exact hpass fun hentry => hirregular hentry.2
    · exact hpass fun hentry => hinvalid (by rw [hentry.1]; rfl)

/-- What is left to evict is in the directory, and the projection is what is
reserved. -/
structure Evicting (remaining : List SpoolEntry) (projected : Nat) (store : RawSpoolStore) :
    Prop where
  stored : StoredWithin artifactAggregateCapBytes store
  names : (remaining.map SpoolEntry.name).Nodup
  free : ∀ entry ∈ remaining,
    entry ∈ freeItems SpoolEntry.name store.activeArtifacts store.directory
  projected : projected = reserved store

theorem Evicting.evict {entry : SpoolEntry} {rest : List SpoolEntry} {projected : Nat}
    {store : RawSpoolStore} (h : Evicting (entry :: rest) projected store) :
    Evicting rest (projected - entry.length) (store.removeEntry entry.name) := by
  have hentry := h.free entry List.mem_cons_self
  have hnames := h.names
  rw [List.map_cons, List.nodup_cons, List.mem_map] at hnames
  refine ⟨h.stored.removeEntry (mem_freeItems.mp hentry).2, hnames.2, ?_, ?_⟩
  · intro other hother
    have hfree := mem_freeItems.mp (h.free other (List.mem_cons_of_mem _ hother))
    have hne : other.name ≠ entry.name := fun heq => hnames.1 ⟨other, hother, heq⟩
    exact mem_freeItems.mpr ⟨mem_without.mpr ⟨hfree.1, hne⟩, hfree.2⟩
  · have hreserved := h.stored.reserved_removeEntry hentry
    have hprojected := h.projected
    omega

theorem evict_triple (failing : Failing) (remaining : List SpoolEntry) (projected : Nat) :
    Triple (Evicting remaining projected) (evict failing remaining projected)
      (fun projected store => StoredWithin artifactAggregateCapBytes store ∧
        projected = reserved store)
      (fun _ => StoredWithin artifactAggregateCapBytes) := by
  induction remaining generalizing projected with
  | nil => exact Triple.pure fun _ h => ⟨h.stored, h.projected⟩
  | cons entry rest ih =>
    refine Triple.ite (fun _ => Triple.pure fun _ h => ⟨h.stored, h.projected⟩) fun _ => ?_
    refine Triple.bind (fun _ => Evicting rest (projected - entry.length))
      (Triple.attempt ?_ ?_) fun _ => ih _
    · exact fun _ _ h => h.evict
    · exact fun _ _ h => h.stored

theorem Scanning.toEvicting {active : List Bytes} {completed : List SpoolEntry} {bytes : Nat}
    {store : RawSpoolStore} (h : Scanning active [] completed bytes store) :
    Evicting (completed.mergeSort olderOrSame)
      (saturatingAdd bytes (saturatingMul active.length rawSpoolSourceCapBytes)) store := by
  have hfree : freeItems SpoolEntry.name store.activeArtifacts store.directory = completed := by
    rw [h.snapshot, h.free]
    simp [freeItems]
  have hsorted : (completed.mergeSort olderOrSame).Perm completed :=
    List.mergeSort_perm completed olderOrSame
  refine ⟨h.stored, ?_, ?_, ?_⟩
  · rw [(hsorted.map SpoolEntry.name).nodup_iff, ← hfree]
    exact freeItems_nodup h.stored.names
  · intro entry hentry
    rw [hfree]
    exact hsorted.mem_iff.mp hentry
  · have hbytes : bytes = completedBytes store := by
      rw [h.bytes, completedBytes, freeSize, hfree]
    have hbounded := h.stored.bounded
    have hcap : artifactAggregateCapBytes ≤ maxU64 := by decide
    rw [reserved, ← hbytes, h.snapshot, Nat.mul_comm] at hbounded
    rw [reserved, ← hbytes, h.snapshot, Nat.mul_comm rawSpoolSourceCapBytes, saturatingMul,
      saturatingAdd]
    omega

theorem enforceRetentionInner_triple (failing : Failing) (now : Nat) :
    Triple (StoredWithin artifactAggregateCapBytes) (enforceRetentionInner failing now)
      (fun _ => StoredWithin targetBeforeNew)
      (fun _ => StoredWithin artifactAggregateCapBytes) := by
  refine Triple.bindGet fun seen => ?_
  refine Triple.bind (fun _ => Scanning seen.activeArtifacts seen.directory [] 0)
    (Triple.attempt ?_ ?_) fun _ => ?_
  · rintro - store ⟨rfl, h⟩
    exact ⟨h, rfl, rfl, rfl⟩
  · rintro - store ⟨-, h⟩
    exact h
  · refine Triple.bind _ (scanEntries_triple failing _ now _ _ _) fun collected => ?_
    refine Triple.bind _ ((evict_triple failing _ _).weaken fun _ h => h.toEvicting)
      fun projected => ?_
    refine Triple.onlyIf (fun _ => Triple.throw fun _ h => h.1) ?_
    rintro hwithin store ⟨h, rfl⟩
    exact { h with bounded := Nat.not_lt.mp hwithin }

theorem call_triple {failing : Failing} {pre : RawSpoolStore → Prop} (this : SpoolCall)
    (error : RawSpoolError) {err : RawSpoolError → RawSpoolStore → Prop}
    (herr : ∀ store, pre store → err error store) :
    Triple pre (call failing this error) (fun _ => pre) err :=
  Triple.attempt (fun _ _ => id) fun _ => herr

theorem enforceRetention_triple (failing : Failing) (now : Nat) :
    Triple (StoredWithin artifactAggregateCapBytes) (enforceRetention failing now)
      (fun _ => StoredWithin targetBeforeNew)
      (fun _ => StoredWithin artifactAggregateCapBytes) := by
  have htarget : targetBeforeNew ≤ artifactAggregateCapBytes := by decide
  refine Triple.bind _ (call_triple _ _ fun _ => id) fun _ => ?_
  refine Triple.bind _ (enforceRetentionInner_triple failing now).observe fun result => ?_
  refine Triple.bind _ (call_triple _ _ ?_) fun _ => Triple.ofExcept ?_ ?_
  · rintro store h
    cases result with
    | ok => exact h.weaken htarget
    | error => exact h
  · rintro value store rfl h
    exact h
  · rintro error store rfl h
    exact h

/-- A file without bytes has been made for the artifact, which is not active. -/
structure Made (limit : Nat) (artifactId : Bytes) (store : RawSpoolStore) : Prop where
  stored : StoredWithin limit store
  fresh : artifactId ∉ store.activeArtifacts
  entry : ∃ entry ∈ store.directory, entry.name = artifactId ∧ entry.length = 0

theorem createFile_triple (limit : Nat) (failing : Failing) (clock : Nat → Nat) (left : Nat) :
    Triple (StoredWithin limit) (createFile failing clock left) (Made limit)
      (fun _ => StoredWithin limit) := by
  induction left with
  | zero => exact Triple.throw fun _ => id
  | succ left ih =>
    refine Triple.bindGet fun seen => ?_
    let artifactId := nextArtifactId (clock left) seen.nextSequence
    have hcounted : Triple (fun store => store = seen ∧ StoredWithin limit store)
        (modify RawSpoolStore.countSequence : Action Unit)
        (fun _ store => StoredWithin limit store ∧ store.hasEntry artifactId =
          seen.hasEntry artifactId) (fun _ => StoredWithin limit) := by
      apply Triple.modify
      rintro store ⟨rfl, h⟩
      exact ⟨h.countSequence, rfl⟩
    refine Triple.bind _ hcounted fun _ => Triple.bind _ (call_triple _ _ fun _ h => h.1) fun _ =>
      Triple.ite (fun _ => ih.weaken fun _ h => h.1) fun hfresh => ?_
    refine Triple.bind (fun _ => Made limit artifactId) (Triple.modify ?_) fun _ =>
      Triple.bind _ (call_triple _ _ fun _ h => h.stored) fun _ => Triple.pure fun _ => id
    rintro store ⟨h, hentry⟩
    rw [hentry.symm, Bool.not_eq_true] at hfresh
    refine ⟨h.addEntry _ (nextArtifactId_valid _ _) hfresh, ?_, ?_⟩
    · intro hactive
      rw [h.active_hasEntry hactive] at hfresh
      cases hfresh
    · exact ⟨_, List.mem_append_right _ (List.mem_singleton_self _), rfl, rfl⟩

theorem createAudited_triple (limit : Nat) (failing : Failing) (clock : Nat → Nat) :
    Triple (StoredWithin limit) (createAudited failing clock) (Made limit)
      (fun _ => StoredWithin limit) := by
  refine Triple.bind _ (createFile_triple limit failing clock 8).observe fun result => ?_
  cases result with
  | ok artifactId => exact Triple.pure fun _ => id
  | error error =>
    exact Triple.bind _ (call_triple _ _ fun _ => id) fun _ => Triple.throw fun _ => id

namespace Made

variable {limit : Nat} {artifactId : Bytes} {store : RawSpoolStore}

theorem activate_eq (h : Made limit artifactId store) :
    (store.activate artifactId).activeArtifacts = artifactId :: store.activeArtifacts :=
  List.insert_of_not_mem h.fresh

theorem deactivate_activate (h : Made limit artifactId store) :
    (store.activate artifactId).deactivate artifactId = store := by
  have hactive : ((store.activate artifactId).activeArtifacts.filter fun active =>
      active ≠ artifactId) = store.activeArtifacts := by
    rw [h.activate_eq, List.filter_cons_of_neg (by simp), List.filter_eq_self]
    intro active hactive
    have hne : active ≠ artifactId := fun heq => h.fresh (heq ▸ hactive)
    simpa using hne
  rw [deactivate, hactive]
  rfl

theorem giveUp (h : Made limit artifactId store) (failing : Failing) :
    StoredWithin limit (RawSpool.giveUp failing artifactId (store.activate artifactId)) := by
  rw [RawSpool.giveUp, h.deactivate_activate]
  split
  · exact h.stored
  · exact h.stored.removeEntry h.fresh

/-- The reservation of the new writer is what the target has left room for. -/
theorem issue (h : Made targetBeforeNew artifactId store) (executionId : Bytes)
    {writer : RawSpoolWriter} (hwriter : writer.artifactId = artifactId) :
    StoredWithin artifactAggregateCapBytes
      ((store.activate artifactId).issue executionId writer) := by
  refine ⟨h.stored.names, h.stored.artifacts, ?_, ?_, ?_, ?_⟩
  · show (store.activate artifactId).activeArtifacts = writer.artifactId :: _
    rw [h.activate_eq, hwriter, h.stored.writers]
    rfl
  · show (store.activate artifactId).activeArtifacts.Nodup
    rw [h.activate_eq]
    exact List.nodup_cons.mpr ⟨h.fresh, h.stored.distinct⟩
  · intro name hname
    replace hname : name ∈ (store.activate artifactId).activeArtifacts := hname
    rw [h.activate_eq] at hname
    rcases List.mem_cons.mp hname with rfl | hold
    · obtain ⟨entry, hentry, hkey, hlength⟩ := h.entry
      exact ⟨entry, hentry, hkey, by rw [hlength]; exact Nat.zero_le _⟩
    · exact h.stored.held name hold
  · have hbounded := h.stored.bounded
    have hfree : freeSize SpoolEntry.name SpoolEntry.length (artifactId :: store.activeArtifacts)
        store.directory ≤ completedBytes store :=
      freeSize_mono (fun _ => List.mem_cons_of_mem _) (List.Sublist.refl _)
    have hroom : targetBeforeNew + rawSpoolSourceCapBytes ≤ artifactAggregateCapBytes := by decide
    show freeSize SpoolEntry.name SpoolEntry.length (store.activate artifactId).activeArtifacts
      store.directory + rawSpoolSourceCapBytes * (store.activate artifactId).activeArtifacts.length
      ≤ artifactAggregateCapBytes
    rw [h.activate_eq, List.length_cons, Nat.mul_add]
    rw [reserved] at hbounded
    omega

end Made

theorem create_triple (request : CreateCall) :
    Triple (StoredWithin artifactAggregateCapBytes) (create request)
      (fun _ => StoredWithin artifactAggregateCapBytes)
      (fun _ => StoredWithin artifactAggregateCapBytes) := by
  have htarget : targetBeforeNew ≤ artifactAggregateCapBytes := by decide
  refine Triple.bind _ (Triple.ofExcept (fun _ _ _ => id) fun _ _ _ => id) fun _ => ?_
  refine Triple.bind _ (Triple.ofExcept (fun _ _ _ => id) fun _ _ _ => id) fun _ => ?_
  refine Triple.bind _ (enforceRetention_triple request.failing request.now) fun _ => ?_
  refine Triple.bindGet fun seen => ?_
  refine Triple.bind (fun _ => StoredWithin targetBeforeNew) (Triple.onlyIf ?_ ?_) fun _ => ?_
  · exact fun _ => Triple.throw fun _ h => h.2.weaken htarget
  · exact fun _ _ h => h.2
  refine Triple.bind _ (call_triple _ _ fun _ h => h.weaken htarget) fun _ => ?_
  refine Triple.bind _ ((createAudited_triple _ _ _).conseq (fun _ => id) (fun _ _ => id)
    fun _ _ h => h.weaken htarget) fun artifactId => ?_
  let Activated (store : RawSpoolStore) : Prop :=
    ∃ before, Made targetBeforeNew artifactId before ∧ store = before.activate artifactId
  refine Triple.bind (fun _ => Activated) (Triple.modify ?_) fun _ => ?_
  · exact fun store h => ⟨store, h, rfl⟩
  have hrecorded : Triple Activated (call request.failing .createOutcome .auditUnavailable)
      (fun _ => Activated) (fun _ => Activated) := call_triple _ _ fun _ => id
  refine Triple.bind (fun _ => Activated) (hrecorded.onError ?_) fun _ => ?_
  · rintro - store ⟨before, h, rfl⟩
    exact (h.giveUp _).weaken htarget
  refine Triple.bind (fun _ => StoredWithin artifactAggregateCapBytes) (Triple.modify ?_)
    fun _ => Triple.pure fun _ => id
  rintro store ⟨before, h, rfl⟩
  exact h.issue _ rfl

namespace StoredWithin

variable {limit : Nat} {store : RawSpoolStore}

theorem changeWriter (h : StoredWithin limit store) (artifactId : Bytes)
    {change : RawSpoolWriter → RawSpoolWriter}
    (hchange : ∀ writer, (change writer).artifactId = writer.artifactId) :
    StoredWithin limit (store.changeWriter artifactId change) := by
  refine ⟨h.names, h.artifacts, ?_, h.distinct, h.held, h.bounded⟩
  show store.activeArtifacts = (store.writers.map _).map RawSpoolWriter.artifactId
  rw [h.writers, List.map_map]
  apply List.map_congr_left
  intro writer _
  rw [Function.comp_apply]
  split
  · exact (hchange writer).symm
  · rfl

/-- The file of an active artifact grows inside its reservation. -/
theorem growFile (h : StoredWithin limit store) {artifactId : Bytes} {count : Nat} (now : Nat)
    (hactive : artifactId ∈ store.activeArtifacts)
    (hfits : ∀ entry ∈ store.directory, entry.name = artifactId →
      entry.length + count ≤ rawSpoolSourceCapBytes) :
    StoredWithin limit (store.growFile artifactId count now) := by
  let grow (entry : SpoolEntry) : SpoolEntry :=
    if entry.name = artifactId then
      { entry with length := entry.length + count, modified := now }
    else entry
  have hname : ∀ entry, (grow entry).name = entry.name := by
    intro entry
    by_cases hentry : entry.name = artifactId <;> simp [grow, hentry]
  have hregular : ∀ entry, (grow entry).regular = entry.regular := by
    intro entry
    by_cases hentry : entry.name = artifactId <;> simp [grow, hentry]
  refine ⟨?_, ?_, h.writers, h.distinct, ?_, ?_⟩
  · show ((store.directory.map grow).map SpoolEntry.name).Nodup
    have hnames : (store.directory.map grow).map SpoolEntry.name =
        store.directory.map SpoolEntry.name := by
      rw [List.map_map]
      exact List.map_congr_left fun entry _ => hname entry
    rw [hnames]
    exact h.names
  · intro entry hentry
    obtain ⟨old, hold, rfl⟩ := List.mem_map.mp hentry
    show validateArtifactId (grow old).name = .ok () ∧ (grow old).regular = true
    rw [hname, hregular]
    exact h.artifacts old hold
  · intro name hheld
    obtain ⟨entry, hentry, hkey, hlength⟩ := h.held name hheld
    refine ⟨grow entry, List.mem_map_of_mem hentry, (hname entry).trans hkey, ?_⟩
    by_cases hsame : entry.name = artifactId
    · simpa [grow, hsame] using hfits entry hentry hsame
    · simpa [grow, hsame] using hlength
  · refine le_trans (le_of_eq ?_) h.bounded
    apply congrArg (· + rawSpoolSourceCapBytes * store.activeArtifacts.length)
    refine freeSize_map hname ?_
    intro entry hfree
    have hne : entry.name ≠ artifactId := fun heq => hfree (heq ▸ hactive)
    simp [hne]

/-- A reservation that ends leaves a file that is no longer than it was. -/
theorem dropWriter (h : StoredWithin limit store) {artifactId : Bytes}
    (hactive : artifactId ∈ store.activeArtifacts) :
    StoredWithin limit (store.dropWriter artifactId) := by
  refine ⟨h.names, h.artifacts, ?_, h.distinct.filter _, ?_, ?_⟩
  · show store.activeArtifacts.filter _ = (store.writers.filter _).map RawSpoolWriter.artifactId
    rw [h.writers, List.filter_map]
    rfl
  · intro name hname
    exact h.held name (List.mem_of_mem_filter hname)
  · obtain ⟨entry, hentry, rfl, hlength⟩ := h.held artifactId hactive
    have hfreed : completedBytes (store.dropWriter entry.name) ≤
        completedBytes store + entry.length := freeSize_release h.names hentry
    have hcount : (store.dropWriter entry.name).activeArtifacts.length + 1 =
        store.activeArtifacts.length := length_release h.distinct hactive
    have hbounded := h.bounded
    rw [reserved, ← hcount, Nat.mul_add] at hbounded
    rw [reserved]
    omega

theorem reopen (h : StoredWithin limit store) : StoredWithin limit (RawSpool.reopen store) := by
  refine ⟨h.names, h.artifacts, rfl, List.nodup_nil, nofun, ?_⟩
  exact (freeSize_release_all h.names h.distinct h.held).trans h.bounded

end StoredWithin

theorem writtenBytes_le (accepted : Nat) (stopsAfter : StopsAfter) :
    writtenBytes accepted stopsAfter ≤ accepted := by
  cases stopsAfter with
  | none => exact le_refl accepted
  | some written =>
    rw [writtenBytes]
    split <;> omega

/-- What the writer takes of the source has room in its file. -/
def Fits (writer : RawSpoolWriter) (source : Nat) (store : RawSpoolStore) : Prop :=
  ∀ entry ∈ store.directory, entry.name = writer.artifactId →
    entry.length + min (rawSpoolSourceCapBytes - writer.bytesWritten) source ≤
      rawSpoolSourceCapBytes

instance (writer : RawSpoolWriter) (source : Nat) (store : RawSpoolStore) :
    Decidable (Fits writer source store) :=
  inferInstanceAs (Decidable (∀ _ ∈ _, _ → _))

theorem writeSource_triple (writer : RawSpoolWriter) (source : Nat) (stopsAfter : StopsAfter)
    (now : Nat) :
    Triple (fun store => StoredWithin artifactAggregateCapBytes store ∧
        writer.artifactId ∈ store.activeArtifacts ∧ Fits writer source store)
      (writeSource writer source stopsAfter now)
      (fun _ => StoredWithin artifactAggregateCapBytes)
      (fun _ => StoredWithin artifactAggregateCapBytes) := by
  refine Triple.bind (fun _ store => StoredWithin artifactAggregateCapBytes store ∧
    writer.artifactId ∈ store.activeArtifacts ∧ Fits writer source store)
    (Triple.onlyIf (fun _ => Triple.modify ?_) fun _ _ => id) fun _ => ?_
  · rintro store ⟨h, hactive, hfits⟩
    exact ⟨h.changeWriter _ fun _ => rfl, hactive, hfits⟩
  refine Triple.ite (fun _ => Triple.pure fun _ h => h.1) fun _ => ?_
  refine Triple.bind (fun _ => StoredWithin artifactAggregateCapBytes) (Triple.modify ?_)
    fun _ => ?_
  · rintro store ⟨h, hactive, hfits⟩
    refine h.growFile now hactive ?_
    intro entry hentry hname
    have hroom := hfits entry hentry hname
    have hwritten := writtenBytes_le (writer.accepted source) stopsAfter
    rw [RawSpoolWriter.accepted] at hwritten
    exact (Nat.add_le_add_left hwritten _).trans hroom
  refine Triple.bind (fun _ => StoredWithin artifactAggregateCapBytes)
    (Triple.onlyIf (fun _ => Triple.throw fun _ => id) fun _ _ => id) fun _ => ?_
  exact Triple.bind (fun _ => StoredWithin artifactAggregateCapBytes)
    (Triple.modify fun store h => h.changeWriter _ fun _ => rfl) fun _ => Triple.pure fun _ => id

inductive SpoolEvent where
  | create (request : CreateCall)
  | writeSource (artifactId : Bytes) (source : Nat) (stopsAfter : StopsAfter) (now : Nat)
  | finish (artifactId : Bytes) (syncFails : Bool)
  | drop (artifactId : Bytes)
  | reopen

def opened : RawSpoolStore :=
  { directory := [], activeArtifacts := [], issuedExecutions := [], writers := [],
    nextSequence := 1 }

/-- The next state, whether or not the operation succeeds. An operation of a
writer needs one that has not been dropped. -/
def next (store : RawSpoolStore) : SpoolEvent → Option RawSpoolStore
  | .create request => some (finalState (create request store))
  | .writeSource artifactId source stopsAfter now =>
    (store.writer? artifactId).map fun writer =>
      finalState (writeSource writer source stopsAfter now store)
  | .finish artifactId syncFails =>
    (store.writer? artifactId).map fun writer => finalState (finish writer syncFails store)
  | .drop artifactId =>
    (store.writer? artifactId).map fun writer => store.dropWriter writer.artifactId
  | .reopen => some (reopen store)

/-- A `write_source` is given no more than its file has room for. -/
def WriteFits (store : RawSpoolStore) : SpoolEvent → Prop
  | .writeSource artifactId source _ _ =>
    ∀ writer ∈ store.writer? artifactId, Fits writer source store
  | _ => True

instance (store : RawSpoolStore) : ∀ event, Decidable (WriteFits store event)
  | .writeSource .. => inferInstanceAs (Decidable (∀ _ ∈ _, _))
  | .create _ | .finish .. | .drop _ | .reopen => isTrue trivial

theorem writer_active {limit : Nat} {store : RawSpoolStore} (h : StoredWithin limit store)
    {artifactId : Bytes} {writer : RawSpoolWriter} (hwriter : store.writer? artifactId = some writer) :
    writer.artifactId ∈ store.activeArtifacts := by
  rw [h.writers]
  exact List.mem_map_of_mem (List.mem_of_find?_eq_some hwriter)

theorem next_stored (store : RawSpoolStore) (event : SpoolEvent) (store' : RawSpoolStore)
    (h : StoredWithin artifactAggregateCapBytes store) (hfits : WriteFits store event)
    (hnext : next store event = some store') : StoredWithin artifactAggregateCapBytes store' := by
  cases event with
  | create request =>
    obtain rfl := Option.some.inj hnext
    exact (create_triple request).final h
  | writeSource artifactId source stopsAfter now =>
    obtain ⟨writer, hwriter, rfl⟩ := Option.map_eq_some_iff.mp hnext
    exact (writeSource_triple writer source stopsAfter now).final
      ⟨h, writer_active h hwriter, hfits writer hwriter⟩
  | finish artifactId syncFails =>
    obtain ⟨writer, hwriter, rfl⟩ := Option.map_eq_some_iff.mp hnext
    have hdropped := h.dropWriter (writer_active h hwriter)
    cases syncFails with
    | false => exact hdropped
    | true => exact hdropped
  | drop artifactId =>
    obtain ⟨writer, hwriter, rfl⟩ := Option.map_eq_some_iff.mp hnext
    exact h.dropWriter (writer_active h hwriter)
  | reopen =>
    obtain rfl := Option.some.inj hnext
    exact h.reopen

theorem opened_stored : StoredWithin artifactAggregateCapBytes opened :=
  ⟨List.nodup_nil, nofun, rfl, List.nodup_nil, nofun, Nat.zero_le _⟩

/-- While no writer is given more than its file has room for, the quota holds
after every operation of any number of processes in turn. -/
theorem spool_withinQuota {events : List SpoolEvent} {store : RawSpoolStore}
    (hfits : AllSteps next WriteFits opened events) (hrun : exec next opened events = some store) :
    reserved store ≤ artifactAggregateCapBytes :=
  (exec_invariant next_stored opened_stored hfits hrun).bounded

def createAt (failing : Failing) (time : Nat) : SpoolEvent :=
  .create
    { executionId := utf8 "ex_" ++ hexText time
      mediaType := utf8 "text/plain"
      now := time
      clock := fun _ => time
      failing := failing }

/-- A write that fails part-way and is tried again with less, an eviction that
fails, and a restart with a writer still open. -/
def shortRetry : List SpoolEvent :=
  [createAt (fun _ => false) 1,
    .writeSource (nextArtifactId 1 1) 1000 (some 400) 2,
    .writeSource (nextArtifactId 1 1) 600 none 3,
    .drop (nextArtifactId 1 1),
    createAt (fun this => this == .removeFile (nextArtifactId 1 1)) (artifactTtl + 3),
    createAt (fun _ => false) (artifactTtl + 3),
    .writeSource (nextArtifactId (artifactTtl + 3) 2) rawSpoolSourceCapBytes none (artifactTtl + 4),
    .reopen,
    createAt (fun _ => false) (artifactTtl + 5),
    .finish (nextArtifactId (artifactTtl + 5) 1) true]

theorem shortRetry_withinQuota :
    ∃ store, exec next opened shortRetry = some store ∧
      reserved store ≤ artifactAggregateCapBytes := by
  have hsome : (exec next opened shortRetry).isSome = true := by decide +kernel
  obtain ⟨store, hrun⟩ := Option.isSome_iff_exists.mp hsome
  have hfits : AllSteps next WriteFits opened shortRetry := by decide +kernel
  exact ⟨store, hrun, spool_withinQuota hfits hrun⟩

/-- Sixteen writers hold the whole quota; one of them is used again after a
write that stopped one byte before its end. -/
def retriedWrite : List SpoolEvent :=
  (List.range 16).map (createAt fun _ => false) ++
    [.writeSource (nextArtifactId 0 1) rawSpoolSourceCapBytes (some (rawSpoolSourceCapBytes - 1)) 16,
      .writeSource (nextArtifactId 0 1) rawSpoolSourceCapBytes none 17]

/-- Its file has nearly twice the cap, and the drop completes it. -/
theorem retriedWrite_exceeds_quota :
    (exec next opened retriedWrite).map reserved = some artifactAggregateCapBytes ∧
      (exec next opened (retriedWrite ++ [.drop (nextArtifactId 0 1)])).map reserved =
        some (artifactAggregateCapBytes + rawSpoolSourceCapBytes - 1) := by
  decide +kernel

end KodeGpt.SpoolQuota
