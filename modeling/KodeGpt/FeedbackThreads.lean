import KodeGpt.JsonText

/-!
The review comments of a pull request, grouped into threads. A thread is found by the comment that
it replies to, and takes its place in the code over from that comment, wherever it comes in the list.
-/

namespace KodeGpt.FeedbackThreads

inductive Side where
  | left
  | right

structure ThreadPosition where
  path : JsonText.Bytes
  line : Option Nat
  originalLine : Option Nat
  startLine : Option Nat
  originalStartLine : Option Nat
  side : Option Side
  startSide : Option Side

/-- `Body` is what a comment has besides. -/
structure FeedbackComment (Body : Type) extends ThreadPosition where
  commentId : Nat
  inReplyToId : Option Nat
  body : Body

structure FeedbackThread (Body : Type) extends ThreadPosition where
  rootCommentId : Nat
  comments : List (FeedbackComment Body)

variable {Body : Type}

def FeedbackComment.rootCommentId (comment : FeedbackComment Body) : Nat :=
  comment.inReplyToId.getD comment.commentId

def FeedbackThread.push (thread : FeedbackThread Body) (comment : FeedbackComment Body) :
    FeedbackThread Body where
  toThreadPosition :=
    if comment.commentId = thread.rootCommentId then comment.toThreadPosition
    else thread.toThreadPosition
  rootCommentId := thread.rootCommentId
  comments := thread.comments ++ [comment]

def FeedbackComment.update (comment : FeedbackComment Body) (thread : FeedbackThread Body) :
    FeedbackThread Body :=
  if thread.rootCommentId = comment.rootCommentId then thread.push comment else thread

/-- The threads are in the order of insertion into the map. -/
def addComment (threads : List (FeedbackThread Body)) (comment : FeedbackComment Body) :
    List (FeedbackThread Body) :=
  if threads.any fun thread => thread.rootCommentId = comment.rootCommentId then
    threads.map comment.update
  else
    threads ++ [FeedbackThread.push ⟨comment.toThreadPosition, comment.rootCommentId, []⟩ comment]

def rootOrder (left right : FeedbackThread Body) : Prop :=
  left.rootCommentId ≤ right.rootCommentId

instance : DecidableRel (@rootOrder Body) := fun _ _ => inferInstanceAs (Decidable (_ ≤ _))

instance : Std.Total (@rootOrder Body) := ⟨fun _ _ => Nat.le_total _ _⟩

instance : IsTrans (FeedbackThread Body) rootOrder := ⟨fun _ _ _ => Nat.le_trans⟩

def groupFeedbackThreads (comments : List (FeedbackComment Body)) : List (FeedbackThread Body) :=
  (comments.foldl addComment []).insertionSort rootOrder

/-- A thread has the comments of its root, and is where the last of them that is the root itself
says; if none is, where the first one says. -/
structure IsThread (comments : List (FeedbackComment Body)) (thread : FeedbackThread Body) :
    Prop where
  comments : thread.comments =
    comments.filter fun comment => comment.rootCommentId = thread.rootCommentId
  position : some thread.toThreadPosition =
    ((thread.comments.filter fun comment => comment.commentId = thread.rootCommentId).getLast?.or
      thread.comments.head?).map FeedbackComment.toThreadPosition

structure Grouped (comments : List (FeedbackComment Body)) (threads : List (FeedbackThread Body)) :
    Prop where
  distinct : (threads.map FeedbackThread.rootCommentId).Nodup
  roots : ∀ root, root ∈ threads.map FeedbackThread.rootCommentId ↔
    root ∈ comments.map FeedbackComment.rootCommentId
  threads : ∀ thread ∈ threads, IsThread comments thread

section Steps

variable {comments : List (FeedbackComment Body)} {threads : List (FeedbackThread Body)}
  {comment : FeedbackComment Body} {thread : FeedbackThread Body}

theorem IsThread.push (h : IsThread comments thread)
    (hroot : thread.rootCommentId = comment.rootCommentId) :
    IsThread (comments ++ [comment]) (thread.push comment) where
  comments := by
    rw [List.filter_append, List.filter_singleton, FeedbackThread.push, ← h.comments]
    simp [hroot]
  position := by
    have hposition := h.position
    have hne : thread.comments ≠ [] := by
      intro hnil
      rw [hnil] at hposition
      cases hposition
    obtain ⟨first, rest, hcomments⟩ := List.exists_cons_of_ne_nil hne
    rw [FeedbackThread.push]
    dsimp only
    rw [List.filter_append, List.filter_singleton]
    by_cases hself : comment.commentId = thread.rootCommentId
    · simp [hself]
    · simpa [hself, hcomments] using hposition

theorem IsThread.other (h : IsThread comments thread)
    (hroot : thread.rootCommentId ≠ comment.rootCommentId) :
    IsThread (comments ++ [comment]) thread where
  comments := by
    rw [List.filter_append, List.filter_singleton, ← h.comments]
    simp [hroot.symm]
  position := h.position

/-- The step lemma. -/
theorem Grouped.addComment (h : Grouped comments threads) :
    Grouped (comments ++ [comment]) (addComment threads comment) := by
  rw [FeedbackThreads.addComment]
  split
  · rename_i hany
    obtain ⟨found, hfound, hroot⟩ := List.any_eq_true.mp hany
    have hroots : (threads.map comment.update).map FeedbackThread.rootCommentId =
        threads.map FeedbackThread.rootCommentId := by
      rw [List.map_map]
      refine List.map_congr_left fun thread _ => ?_
      rw [Function.comp, FeedbackComment.update]
      split <;> rfl
    refine ⟨hroots ▸ h.distinct, fun root => ?_, ?_⟩
    · have hmem := (h.roots comment.rootCommentId).mp
        (List.mem_map.mpr ⟨found, hfound, of_decide_eq_true hroot⟩)
      rw [hroots, h.roots, List.map_append, List.mem_append, List.map_singleton,
        List.mem_singleton]
      exact ⟨Or.inl, fun hor => hor.elim id fun heq => heq ▸ hmem⟩
    · intro thread hthread
      obtain ⟨before, hbefore, rfl⟩ := List.mem_map.mp hthread
      rw [FeedbackComment.update]
      split
      · rename_i hsame
        exact (h.threads before hbefore).push hsame
      · rename_i hother
        exact (h.threads before hbefore).other hother
  · rename_i hnone
    have hfresh : comment.rootCommentId ∉ threads.map FeedbackThread.rootCommentId := by
      simpa using hnone
    have hnil : comments.filter (fun other => other.rootCommentId = comment.rootCommentId) = [] := by
      rw [h.roots] at hfresh
      simpa [List.filter_eq_nil_iff] using hfresh
    refine ⟨?_, fun root => ?_, ?_⟩
    · rw [List.map_append]
      refine List.nodup_append.mpr ⟨h.distinct, List.nodup_singleton _, ?_⟩
      rintro root hroot _ hself rfl
      obtain rfl : root = comment.rootCommentId := List.mem_singleton.mp hself
      exact hfresh hroot
    · rw [List.map_append, List.mem_append, h.roots, List.map_append, List.mem_append]
      rfl
    · intro thread hthread
      obtain hold | hnew := List.mem_append.mp hthread
      · refine (h.threads thread hold).other fun hroot => hfresh ?_
        exact List.mem_map.mpr ⟨thread, hold, hroot⟩
      · obtain rfl := List.mem_singleton.mp hnew
        constructor
        · simp [FeedbackThread.push, List.filter_append, hnil]
        · by_cases hself : comment.commentId = comment.rootCommentId <;>
            simp [FeedbackThread.push, hself]

theorem grouped_foldl (comments : List (FeedbackComment Body)) :
    Grouped comments (comments.foldl FeedbackThreads.addComment []) := by
  induction comments using List.reverseRecOn with
  | nil => exact ⟨List.nodup_nil, fun _ => Iff.rfl, nofun⟩
  | append_singleton comments comment ih =>
    rw [List.foldl_append]
    exact ih.addComment

end Steps

/-- Every comment is in one thread, the one of its root, in the order of the list; the threads
are in the order of their roots. -/
theorem groupFeedbackThreads_grouped (comments : List (FeedbackComment Body)) :
    Grouped comments (groupFeedbackThreads comments) ∧
      (groupFeedbackThreads comments).Pairwise fun left right =>
        left.rootCommentId < right.rootCommentId := by
  have h := grouped_foldl comments
  have hperm : (groupFeedbackThreads comments).Perm (comments.foldl addComment []) :=
    List.perm_insertionSort _ _
  have hroots := hperm.map FeedbackThread.rootCommentId
  have hdistinct := hroots.nodup_iff.mpr h.distinct
  refine ⟨⟨hdistinct, fun root => hroots.mem_iff.trans (h.roots root),
    fun thread hthread => h.threads thread (hperm.mem_iff.mp hthread)⟩, ?_⟩
  have hsorted : (groupFeedbackThreads comments).Pairwise rootOrder :=
    List.pairwise_insertionSort _ _
  exact (hsorted.and (List.pairwise_map.mp hdistinct)).imp fun hboth =>
    Nat.lt_of_le_of_ne hboth.1 hboth.2

end KodeGpt.FeedbackThreads
