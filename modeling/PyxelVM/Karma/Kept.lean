/-
  PyxelVM.Karma.Kept — what moving between clusters leaves of the scores.

  `Kept f m m'`: the function `f` of a score is for every node as before, and so is the
  event log. Leaving a cluster, entering one and touching a membership keep whatever does
  not look at the memberships (`Blind`); suspending and evicting keep what does not look
  at their marks either.
-/

import PyxelVM.Karma.Clusters

namespace PyxelVM.Karma

open PyxelVM.Lib

variable {α : Type} {f : KarmaScore → α} {m m' : Memory} {now : Rat}

structure Kept (f : KarmaScore → α) (m m' : Memory) : Prop where
  score : ∀ n, f (m'.scoreOf n) = f (m.scoreOf n)
  eventLog : m'.eventLog = m.eventLog

/-- The function does not look at the memberships. -/
def Blind (f : KarmaScore → α) : Prop := ∀ sc memberships, f { sc with clusterMemberships := memberships } = f sc

theorem Kept.refl (m : Memory) : Kept f m m := ⟨fun _ => rfl, rfl⟩

theorem Kept.trans {a b c : Memory} (h : Kept f a b) (k : Kept f b c) : Kept f a c :=
  ⟨fun n => (k.score n).trans (h.score n), k.eventLog.trans h.eventLog⟩

theorem kept_setScore (m : Memory) (n : String) {d : KarmaScore} (h : f d = f (m.scoreOf n)) : Kept f m (m.setScore n d) := by
  refine ⟨?_, rfl⟩
  intro k
  rw [scoreOf_setScore]
  split
  · rename_i e
    rw [e, h]
  · rfl

theorem Reads.kept (h : Reads now m m') (hf : ∀ sc, f (sc.isSuspended now).2 = f sc) : Kept f m m' :=
  ⟨h.of_score f hf, h.eventLog⟩

theorem kept_getScore (m : Memory) (n : String) : Kept f m (m.getScore n) :=
  ⟨fun k => by rw [scoreOf_getScore], (reads_getScore m n : Reads 0 _ _).eventLog⟩

/-! ## Memberships -/

theorem kept_leaveCluster (hf : Blind f) (s : System) (n c : String) (now : Rat) :
    Kept f s.memory (s.leaveCluster n c now).2.memory := by
  have h := kept_setScore s.memory n (hf (s.memory.scoreOf n) ((s.memory.scoreOf n).clusterMemberships.erase c))
  simp only [System.leaveCluster]
  split
  · exact .refl _
  · split
    · exact ⟨h.score, h.eventLog⟩
    · exact .refl _

theorem kept_leaveAll (hf : Blind f) (s : System) (n : String) (cs : List String) (now : Rat) :
    Kept f s.memory (s.leaveAll n cs now).memory := by
  induction cs generalizing s with
  | nil => exact .refl _
  | cons c cs ih => exact (kept_leaveCluster hf s n c now).trans (ih _)

theorem kept_addMember (hf : Blind f) (s : System) (n c : String) (now : Rat) :
    Kept f s.memory (s.addMember n c now).memory := by
  have h := kept_setScore s.memory n
    (hf (s.memory.scoreOf n) ((s.memory.scoreOf n).clusterMemberships.set c ⟨c, now, now, 0, 0⟩))
  exact ⟨h.score, h.eventLog⟩

theorem kept_enter (hf : Blind f) (s : System) (n c : String) (now : Rat) : Kept f s.memory (s.enter n c now).memory := by
  simp only [System.enter]
  split
  · exact kept_getScore s.memory n
  · exact (kept_getScore s.memory n).trans (kept_addMember hf { s with memory := s.memory.getScore n } n c now)

theorem kept_touchMembership (hf : Blind f) (s : System) (n c : String) (done : Bool) (now : Rat) :
    Kept f s.memory (s.touchMembership n c done now).memory := kept_setScore s.memory n (hf _ _)

/-! ## Suspension and eviction -/

theorem kept_suspendNode (hf : ∀ sc, f { sc with suspensionStatus := true, suspensionTime := some now } = f sc) (s : System)
    (n : String) : Kept f s.memory (s.suspendNode n now).memory := by
  have h := kept_setScore s.memory n (hf (s.memory.scoreOf n))
  unfold System.suspendNode
  split
  · exact .refl _
  · exact ⟨h.score, h.eventLog⟩

theorem kept_markEviction (hf : Blind f) (hmark : ∀ sc, f { sc with evictionPending := true } = f sc) (s : System) (n : String)
    (now : Rat) : Kept f s.memory (s.markEviction n now).memory := by
  have h := kept_setScore s.memory n (hmark (s.memory.scoreOf n))
  have hmarked : Kept f s.memory (s.marked n).memory := ⟨h.score, h.eventLog⟩
  rw [markEviction_eq]
  split
  · exact .refl _
  · exact hmarked.trans (kept_leaveAll hf _ _ _ _)

end PyxelVM.Karma
