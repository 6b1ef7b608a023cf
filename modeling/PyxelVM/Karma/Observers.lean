/-
  PyxelVM.Karma.Observers — asking a score in any order.

  `is_suspended`, `mass` and `can_participate` are asked of a node at one clock reading. What
  they do to the memory is a `Reads`, so neither `is_suspended` nor `can_participate` ever
  answers differently for what was asked before (`asked_alike`). `mass` looks at
  `suspension_status` first, which says suspended until somebody has asked `is_suspended`.

  - `stale_mass`: a suspension that is over holds the mass at zero until then.
  - `steady_iff`: all three answer alike in every order, and mass is withheld of exactly
    the suspended, unless the suspension is over and nobody has asked.
-/

import PyxelVM.Karma.Suspension

namespace PyxelVM.Karma

open PyxelVM.Lib

/-! ## Asking -/

inductive Query where
  | isSuspended
  | mass
  | canParticipate
  deriving DecidableEq

inductive Answer where
  | suspended (b : Bool)
  | mass (x : Rat)
  | participation (can : Bool) (status : Status)
  deriving DecidableEq

/-- What `mass` asks: `suspension_status or is_suspended`. -/
def KarmaScore.massWithheld (sc : KarmaScore) (now : Rat) : Bool := sc.suspensionStatus || (sc.isSuspended now).1

/-- `mass`, and the score it leaves. -/
def KarmaScore.readMass (sc : KarmaScore) (now : Rat) : Rat × KarmaScore :=
  let sc' := if sc.suspensionStatus then sc else (sc.isSuspended now).2
  if sc.massWithheld now then (0, sc')
  else (sc'.level.massMultiplier * sc'.totalExperience * max (1 / 10) (sc'.karma / 100), sc')

/-- One question about the node, of the score `get_score` gives. -/
def Memory.ask (nodeId : String) (now : Rat) (m : Memory) : Query → Answer × Memory
  | .isSuspended =>
    let m := m.getScore nodeId
    let r := (m.scoreOf nodeId).isSuspended now
    (.suspended r.1, m.setScore nodeId r.2)
  | .mass =>
    let m := m.getScore nodeId
    let r := (m.scoreOf nodeId).readMass now
    (.mass r.1, m.setScore nodeId r.2)
  | .canParticipate =>
    let r := m.canParticipate nodeId now
    (.participation r.1.1 r.1.2, r.2)

/-- The memory after the questions. -/
def Memory.asked (m : Memory) (nodeId : String) (now : Rat) (past : List Query) : Memory :=
  Trace.final (Memory.ask nodeId now) m past

/-- Every question is answered as if asked first, and mass is withheld of exactly the suspended. -/
structure Steady (m : Memory) (nodeId : String) (now : Rat) : Prop where
  answers : ∀ past q, ((m.asked nodeId now past).ask nodeId now q).1 = (m.ask nodeId now q).1
  withheld : (m.scoreOf nodeId).massWithheld now = true ↔ ((m.scoreOf nodeId).isSuspended now).1 = true

/-- The suspension is over, but has not been lifted. -/
def KarmaScore.Expired (sc : KarmaScore) (now : Rat) : Prop :=
  sc.suspensionStatus = true ∧ ∃ since, sc.suspensionTime = some since ∧ suspensionDuration < now - since

/-! ## What asking leaves -/

variable {now : Rat} {sc : KarmaScore}

theorem readMass_eq (sc : KarmaScore) (now : Rat) : sc.readMass now = (sc.mass, sc) := by
  unfold KarmaScore.readMass KarmaScore.massWithheld KarmaScore.mass KarmaScore.isSuspended
  cases sc.suspensionStatus <;> rfl

theorem isSuspended_expired (h : sc.Expired now) : (sc.isSuspended now).1 = false := by
  rcases isSuspended_cases sc now with ⟨hnot, -⟩ | ⟨-, since, -, -, he⟩
  · exact absurd h hnot
  · rw [he]

/-- Nothing is lifted but what is over. -/
theorem isSuspended_kept (h : ¬sc.Expired now) : (sc.isSuspended now).2 = sc ∧ (sc.isSuspended now).1 = sc.suspensionStatus := by
  rcases isSuspended_cases sc now with ⟨-, he⟩ | ⟨hs, since, ht, hover, -⟩
  · rw [he]
    exact ⟨rfl, rfl⟩
  · exact absurd ⟨hs, since, ht, hover⟩ h

theorem reads_ask (m : Memory) (n : String) (q : Query) : Reads now m (m.ask n now q).2 := by
  cases q with
  | isSuspended => exact reads_isSuspended m n
  | mass =>
    simp only [Memory.ask, readMass_eq]
    exact (reads_getScore m n).trans (reads_setScore_self _ n)
  | canParticipate => exact reads_canParticipate m n

theorem reads_asked (m : Memory) (n : String) (past : List Query) : Reads now m (m.asked n now past) := by
  unfold Memory.asked
  induction past generalizing m with
  | nil => exact .refl m
  | cons q past ih => exact (reads_ask m n q).trans (ih _)

theorem ask_mass (m : Memory) (n : String) : (m.ask n now .mass).1 = .mass (m.scoreOf n).mass := by
  simp only [Memory.ask, readMass_eq, scoreOf_getScore]

/-- Whether it is suspended and whether it may participate does not depend on what was asked before. -/
theorem asked_alike (m : Memory) (n : String) (past : List Query) {q : Query} (hq : q ≠ .mass) :
    ((m.asked n now past).ask n now q).1 = (m.ask n now q).1 := by
  have hreports : SameReports (fun _ => ()) now m (m.asked n now past) := (reads_asked m n past : Reads now _ _).reports (le_refl now)
  have hreport := hreports.report n
  cases q with
  | isSuspended =>
    have hs := congrArg Report.suspended hreport
    simp only [Memory.report] at hs
    simp only [Memory.ask, scoreOf_getScore, hs]
  | mass => exact absurd rfl hq
  | canParticipate =>
    have hp := congrArg Report.participation hreport
    simp only [Memory.report] at hp
    simp only [Memory.ask, hp]

/-! ## Every order -/

/-- The three questions are answered alike in every order, and mass is withheld of exactly the suspended, if and only if
    there is no suspension that is over and has not been lifted. -/
theorem steady_iff (m : Memory) (n : String) (now : Rat) : Steady m n now ↔ ¬(m.scoreOf n).Expired now := by
  constructor
  · intro h hexpired
    have hwithheld : (m.scoreOf n).massWithheld now = true := by rw [KarmaScore.massWithheld, hexpired.1, Bool.true_or]
    rw [h.withheld, isSuspended_expired hexpired] at hwithheld
    exact Bool.false_ne_true hwithheld
  · intro h
    obtain ⟨hkept, hstatus⟩ := isSuspended_kept h
    refine ⟨?_, ?_⟩
    · intro past q
      by_cases hq : q = .mass
      · have hscore : (m.asked n now past).scoreOf n = m.scoreOf n := by
          rcases (reads_asked m n past : Reads now _ _).score n with e | e
          · exact e
          · rw [e, hkept]
        rw [hq, ask_mass, ask_mass, hscore]
      · exact asked_alike m n past hq
    · rw [KarmaScore.massWithheld, hstatus, Bool.or_self]

/-- A node suspended at 3 is not suspended a day later, when its mass is still withheld. -/
theorem stale_mass : ¬∀ (m : Memory) (n : String) (now : Rat), Steady m n now := by
  intro h
  have hwithheld := (h (reached [.reportEvent "node" .authFailure "" "minor" 0,
    .reportEvent "node" .validContribution "" "minor" 1, .reportEvent "node" .authFailure "" "minor" 2,
    .reportEvent "node" .authFailure "" "severe" 3]).memory "node" 86404).withheld
  exact absurd hwithheld (by decide +kernel)

end PyxelVM.Karma
