/-
  PyxelVM.Security.ReplayGuard — `ReplayGuard` (`security/replay_guard.py`).

  `check` keeps every nonce it has accepted, of any node, and for each node the last
  sequence number. A refused call changes neither (`refused_unchanged`), so over a run the
  two tables are the history of what was accepted (`Tracks`), whatever the clock does.

  `accepts_once`: no nonce is accepted twice, and the numbers of a node only grow.
-/

import Mathlib.Data.List.Induction
import PyxelVM.Lib.PyJson
import PyxelVM.Lib.Trace

namespace PyxelVM.Security

open PyxelVM.Lib

structure ReplayGuard where
  windowSeconds : Int := 300
  nonces : Dict String Int := .empty
  sequences : Dict String Int := .empty

/-- A call of `check`, with what the clock reads. -/
structure Check where
  nodeId : String
  nonce : String
  sequence : Int
  timestamp : Int
  time : Rat
  deriving DecidableEq

namespace ReplayGuard

/-- The last number of a node. -/
def previous (g : ReplayGuard) (nodeId : String) : Int := g.sequences.getD nodeId (-1)

def check (g : ReplayGuard) (c : Check) : Bool × ReplayGuard :=
  let now := truncate c.time
  if g.windowSeconds < (now - c.timestamp).natAbs then (false, g)
  else if g.nonces.has c.nonce then (false, g)
  else if c.sequence ≤ g.previous c.nodeId then (false, g)
  else (true, { g with
    nonces := g.nonces.set c.nonce c.timestamp
    sequences := g.sequences.set c.nodeId c.sequence })

def after (g : ReplayGuard) (calls : List Check) : ReplayGuard := Trace.final check g calls

/-- The calls that return True. -/
def accepted (g : ReplayGuard) (calls : List Check) : List Check :=
  Trace.seen check (fun c answer => if answer then [c] else []) g calls

/-- The sequence numbers of a node. -/
def numbersOf (nodeId : String) (calls : List Check) : List Int :=
  (calls.filter fun c => c.nodeId = nodeId).map (·.sequence)

/-! ## One call -/

variable {g : ReplayGuard} {c : Check} {past : List Check}

theorem check_cases (g : ReplayGuard) (c : Check) :
    g.check c = (false, g) ∨ g.nonces.has c.nonce = false ∧ g.previous c.nodeId < c.sequence ∧
      g.check c = (true, { g with
        nonces := g.nonces.set c.nonce c.timestamp
        sequences := g.sequences.set c.nodeId c.sequence }) := by
  simp only [check]
  split
  · exact .inl rfl
  split
  · exact .inl rfl
  split
  · exact .inl rfl
  · rename_i hnonce hsequence
    exact .inr ⟨by simpa using hnonce, by omega, rfl⟩

theorem refused_unchanged (h : (g.check c).1 = false) : (g.check c).2 = g := by
  rcases check_cases g c with he | ⟨-, -, he⟩
  · rw [he]
  · rw [he] at h
    cases h

theorem previous_set (g : ReplayGuard) (nonces : Dict String Int) (k n : String) (q : Int) :
    ({ g with nonces, sequences := g.sequences.set k q } : ReplayGuard).previous n = if n = k then q else g.previous n := by
  simp only [previous, Dict.getD, Dict.get?_set]
  split
  · rfl
  · rfl

/-! ## A run -/

/-- The tables are those of the accepted calls, which are in order. -/
structure Tracks (g : ReplayGuard) (past : List Check) : Prop where
  nonces : ∀ c ∈ past, g.nonces.has c.nonce = true
  sequences : ∀ c ∈ past, 0 ≤ c.sequence ∧ c.sequence ≤ g.previous c.nodeId
  floor : ∀ nodeId, -1 ≤ g.previous nodeId
  once : (past.map (·.nonce)).Nodup
  grows : past.Pairwise fun a b => a.nodeId = b.nodeId → a.sequence < b.sequence

/-- The next accepted call has a new nonce, and a number above its node's last one. -/
theorem Tracks.accept (h : Tracks g past) (hnonce : g.nonces.has c.nonce = false) (hsequence : g.previous c.nodeId < c.sequence) :
    Tracks { g with nonces := g.nonces.set c.nonce c.timestamp, sequences := g.sequences.set c.nodeId c.sequence }
      (past ++ [c]) := by
  have hnew : ∀ b ∈ past, b.nonce ≠ c.nonce := by
    intro b hb e
    have hknown := h.nonces b hb
    rw [e, hnonce] at hknown
    cases hknown
  have hfloor := h.floor c.nodeId
  constructor
  · intro b hb
    rcases List.mem_append.mp hb with hb | hb
    · exact (Dict.has_set_of_ne _ (hnew b hb) _).trans (h.nonces b hb)
    · obtain rfl := List.mem_singleton.mp hb
      exact Dict.has_set_self _ _ _
  · intro b hb
    rw [previous_set]
    rcases List.mem_append.mp hb with hb | hb
    · have hb' := h.sequences b hb
      split
      · rename_i e
        rw [e] at hb'
        omega
      · exact hb'
    · obtain rfl := List.mem_singleton.mp hb
      rw [if_pos rfl]
      omega
  · intro k
    rw [previous_set]
    split
    · omega
    · exact h.floor k
  · rw [List.map_append]
    refine List.nodup_append'.mpr ⟨h.once, List.nodup_singleton _, List.disjoint_singleton.mpr ?_⟩
    intro hmem
    obtain ⟨b, hb, e⟩ := List.mem_map.mp hmem
    exact hnew b hb e
  · refine List.pairwise_append.mpr ⟨h.grows, List.pairwise_singleton _ _, ?_⟩
    intro b hb c' hc' e
    obtain rfl := List.mem_singleton.mp hc'
    have hb' := h.sequences b hb
    rw [e] at hb'
    omega

theorem after_concat (g : ReplayGuard) (calls : List Check) (c : Check) :
    g.after (calls ++ [c]) = ((g.after calls).check c).2 := Trace.final_concat g calls c

theorem accepted_concat (g : ReplayGuard) (calls : List Check) (c : Check) :
    g.accepted (calls ++ [c]) = g.accepted calls ++ if ((g.after calls).check c).1 then [c] else [] :=
  Trace.seen_concat g calls c

theorem tracks_after (windowSeconds : Int) (calls : List Check) :
    Tracks (after { windowSeconds } calls) (accepted { windowSeconds } calls) := by
  induction calls using List.reverseRecOn with
  | nil => exact ⟨nofun, nofun, fun _ => le_refl (-1 : Int), .nil, .nil⟩
  | append_singleton calls c ih =>
    rw [after_concat, accepted_concat]
    rcases check_cases (after { windowSeconds } calls) c with he | ⟨hnonce, hsequence, he⟩
    · rw [he, if_neg Bool.false_ne_true, List.append_nil]
      exact ih
    · rw [he, if_pos rfl]
      exact ih.accept hnonce hsequence

/-- No nonce is accepted twice, the accepted numbers of a node start at zero or above and only grow, and a refused call
    changes nothing. -/
theorem accepts_once (windowSeconds : Int) (calls : List Check) :
    ((accepted { windowSeconds } calls).map (·.nonce)).Nodup ∧
      (∀ nodeId, (numbersOf nodeId (accepted { windowSeconds } calls)).Pairwise (· < ·) ∧
        ∀ q ∈ numbersOf nodeId (accepted { windowSeconds } calls), 0 ≤ q) ∧
      ∀ (g : ReplayGuard) (c : Check), (g.check c).1 = false → (g.check c).2 = g := by
  have h := tracks_after windowSeconds calls
  refine ⟨h.once, fun nodeId => ⟨?_, ?_⟩, fun _ _ h => refused_unchanged h⟩
  · rw [numbersOf, List.pairwise_map]
    refine (h.grows.filter _).imp_of_mem ?_
    intro a b ha hb hab
    have ha' := (List.mem_filter.mp ha).2
    have hb' := (List.mem_filter.mp hb).2
    simp only [decide_eq_true_eq] at ha' hb'
    exact hab (ha'.trans hb'.symm)
  · intro q hq
    obtain ⟨c, hc, rfl⟩ := List.mem_map.mp hq
    exact (h.sequences c (List.mem_filter.mp hc).1).1

end ReplayGuard

end PyxelVM.Security
