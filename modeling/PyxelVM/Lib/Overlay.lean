/-
  PyxelVM.Lib.Overlay — writes one after another into one picture.

  A picture has a value at every site, a `Patch` at the sites it covers. `overlay` puts
  patches over a picture one after another; at each site the last that covers it shows
  (`overlay_apply`). `all_kept_iff`: every patch shows whole exactly when no two have
  different values at a site both cover.
-/

import Mathlib.Data.List.Basic

namespace PyxelVM.Lib

abbrev Patch (ι β : Type) := ι → Option β

variable {ι β : Type} {w : Patch ι β} {ws : List (Patch ι β)} {p : ι} {b : β}

def Patch.put (w : Patch ι β) (picture : ι → β) : ι → β := fun p => (w p).getD (picture p)

def overlay (picture : ι → β) (ws : List (Patch ι β)) : ι → β := ws.foldl (fun pic w => w.put pic) picture

/-- What the last of the patches that covers the site has there. -/
def last : List (Patch ι β) → Patch ι β
  | [], _ => none
  | w :: ws, p => (last ws p).or (w p)

/-- No different values at a site both cover. -/
def Patch.Agree (w w' : Patch ι β) : Prop := ∀ p b b', w p = some b → w' p = some b' → b = b'

theorem overlay_apply (picture : ι → β) (ws : List (Patch ι β)) (p : ι) :
    overlay picture ws p = (last ws p).getD (picture p) := by
  induction ws generalizing picture with
  | nil => rfl
  | cons w ws ih =>
    rw [show overlay picture (w :: ws) = overlay (w.put picture) ws from rfl, ih, last, Patch.put]
    cases last ws p <;> rfl

/-- The last that covers is one of them. -/
theorem last_mem (h : last ws p = some b) : ∃ w ∈ ws, w p = some b := by
  induction ws with
  | nil => cases h
  | cons w ws ih =>
    rw [last] at h
    rcases Option.or_eq_some_iff.mp h with h | ⟨-, h⟩
    · obtain ⟨w', hw', hb⟩ := ih h
      exact ⟨w', List.mem_cons_of_mem w hw', hb⟩
    · exact ⟨w, List.mem_cons_self .., h⟩

theorem last_ne_none (hw : w ∈ ws) (h : w p = some b) : last ws p ≠ none := by
  induction ws with
  | nil => cases hw
  | cons w' ws ih =>
    rw [last, ne_eq, Option.or_eq_none_iff]
    rcases List.mem_cons.mp hw with rfl | hw
    · rw [h]
      exact fun hn => nomatch hn.2
    · exact fun hn => ih hw hn.1

/-- A patch that covers the site, when none of the later ones disagrees with it. -/
theorem all_kept_iff : (∀ w ∈ ws, ∀ p b, w p = some b → last ws p = some b) ↔ ws.Pairwise Patch.Agree := by
  induction ws with
  | nil => simp
  | cons w ws ih =>
    rw [List.pairwise_cons, ← ih]
    constructor
    · intro h
      have htail : ∀ w' ∈ ws, ∀ p b, w' p = some b → last ws p = some b := by
        intro w' hw' p b hb
        have hl := h w' (List.mem_cons_of_mem w hw') p b hb
        rw [last] at hl
        rcases Option.or_eq_some_iff.mp hl with hl | ⟨hn, -⟩
        · exact hl
        · exact absurd hn (last_ne_none hw' hb)
      refine ⟨?_, htail⟩
      intro w' hw' p b b' hb hb'
      have hl := h w (List.mem_cons_self ..) p b hb
      rw [last, htail w' hw' p b' hb'] at hl
      exact (Option.some.inj hl).symm
    · rintro ⟨hw, hws⟩ w' hw' p b hb
      rw [last]
      rcases List.mem_cons.mp hw' with rfl | hw'
      · cases hl : last ws p with
        | none => exact hb
        | some b' =>
          obtain ⟨w'', hw'', hb'⟩ := last_mem hl
          rw [hw w'' hw'' p b b' hb hb']
          rfl
      · rw [hws w' hw' p b hb]
        rfl

end PyxelVM.Lib
