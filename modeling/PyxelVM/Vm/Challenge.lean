/-
  PyxelVM.Vm.Challenge — `FrequencyChallenge` (`zdx_parallel_vm.py`).

  The challenge frame is a base frame with one row overwritten by cells of R =
  `secret_freq`, which is 100 to 200: an R that `MAP` gives to no opcode. So the row
  that is to be verified never runs a VERIFY_FREQ, nor anything else.

  - `visit_row`: a turn on such a row is a turn on a row of NOPs.
  - `challenge_never_verified`: a machine executes the challenge frame, and every chain
    through it, as it does the base frame with that row blanked; in strict mode, if a
    thread has that row, it raises ValueError in the first column.
-/

import PyxelVM.Lib.Post
import PyxelVM.Vm.Visits

namespace PyxelVM.Vm

open Function (update)
open PyxelVM.Lib

/-- Row `row` overwritten. -/
def Raster.withRow (img : Raster) (row : Nat) (cells : Nat → Pixel) : Raster :=
  { img with px := fun y x => if y = row then cells x else img.px y x }

inductive ChallengeRaised where
  | noFile (path : String)
  | noImage (path : String)
  /-- `IndexError: image index out of range`. -/
  | imageIndex
  deriving DecidableEq, Repr

structure FrequencyChallenge where
  keyRow : Int := 7

namespace FrequencyChallenge

variable (c : FrequencyChallenge)

/-- The row of `pixels[x, key_row]`: a negative one counts from below. -/
def row (height : Nat) : Int := if c.keyRow < 0 then c.keyRow + height else c.keyRow

/-- A thread comes to a cell of the row. -/
def Scheduled (n : Nat) (img : Raster) : Prop := c.keyRow < img.height ∧ (c.row img.height).toNat < n ∧ 0 < img.width

/-- The frame with that row of NOPs. -/
def blanked (img : Raster) : Raster :=
  if c.keyRow < img.height then img.withRow (c.row img.height).toNat fun _ => .nop else img

def cells (secretFreq : UInt8) (x : Nat) : Pixel := ⟨secretFreq, 0, UInt8.ofNat (x % 255)⟩

/-- The loop over the columns, if there is one. -/
def stamped (secretFreq : UInt8) (img : Raster) : Except ChallengeRaised Raster :=
  if c.keyRow < img.height then
    if c.row img.height < 0 ∧ 0 < img.width then .error .imageIndex
    else .ok (img.withRow (c.row img.height).toNat (cells secretFreq))
  else .ok img

/-- With the number `random.randint(100, 200)` came to, which is also what it returns. -/
def generateChallengeFrame (secretFreq : UInt8) (files : String → File) (basePath : String) :
    Except ChallengeRaised (String → File) :=
  match files basePath with
  | .missing => .error (.noFile basePath)
  | .notImage => .error (.noImage basePath)
  | .image img => (c.stamped secretFreq img).map fun frame => update files "challenge_frame.png" (.image frame)

end FrequencyChallenge

/-! ## A row without opcodes -/

variable {n : Nat} {cfg : Config} {img img' : Raster}

theorem visit_row {row : Nat} {cells : Nat → Pixel} (hidle : ∀ x < img.width, cfg.opcode (cells x).r = none)
    (hnop : cfg.opcode Pixel.nop.r = none) (h : cfg.strictMode = true → row < n → img.width = 0) (y : Fin n) (f : Frame n) :
    visit cfg (img.withRow row cells) y f = visit cfg (img.withRow row fun _ => .nop) y f := by
  have hd : ∀ (p : Pixel) (c : Core), cfg.opcode p.r = none → cfg.strictMode = false →
      ∀ (frame : Raster) (y : Nat), dispatch cfg frame y f.x p c = .done c := by
    intro p c hop hs frame y
    simp [dispatch, hop, hs]
  by_cases hy : (y : Nat) = row
  · unfold visit
    simp only [Raster.get?, Raster.withRow, hy]
    split
    · rfl
    split
    · rfl
    by_cases hin : row < img.height ∧ f.x < img.width
    · have hs : cfg.strictMode = false := by
        cases hs : cfg.strictMode with
        | false => rfl
        | true =>
          have := h hs (hy ▸ y.isLt)
          omega
      simp only [if_pos hin, if_true, hd (cells f.x) _ (hidle f.x hin.2) hs, hd .nop _ hnop hs]
    · simp only [if_neg hin]
  · have hget : ∀ x, (img.withRow row cells).get? y x = (img.withRow row fun _ => .nop).get? y x := by
      intro x
      simp only [Raster.get?, Raster.withRow, if_neg hy]
    have hmirror : dispatch cfg (img.withRow row cells) y f.x = dispatch cfg (img.withRow row fun _ => .nop) y f.x := by
      funext p c
      unfold dispatch
      rw [hget]
      rfl
    unfold visit
    rw [hget, hmirror]
    rfl

/-- Frames with the same turns run alike. -/
theorem runFrame_of_visit (h : ∀ (y : Fin n) f, visit cfg img y f = visit cfg img' y f) (hw : img.width = img'.width)
    (path : String) (m : Machine n) : runFrame cfg path img m = runFrame cfg path img' m := by
  have hc : (column cfg img : Frame n → _) = column cfg img' := by
    funext f
    unfold column
    rw [forEach_congr fun y _ f => h y f]
  unfold runFrame
  rw [hc, hw]

/-- Files that run alike and are missing alike make the same chains. -/
theorem executeTexture_of_single {files files' : String → File} (hm : ∀ path, files path = .missing ↔ files' path = .missing)
    (h : ∀ path (m : Machine n), executeSingle cfg files path m = executeSingle cfg files' path m) (path : String)
    (m : Machine n) : executeTexture cfg files path m = executeTexture cfg files' path m := by
  have hfollow : ∀ k path (m : Machine n), follow cfg files k path m = follow cfg files' k path m := by
    intro k
    induction k with
    | zero => exact fun _ _ => rfl
    | succ k ih =>
      intro path m
      simp only [follow, h path m]
      congr 1
      funext s
      cases s.nextFrame with
      | none => rfl
      | some next =>
        have hnext := hm next
        simp only [ih]
        cases hf : files next with
        | missing => rw [hnext.mp hf]
        | notImage | image img =>
          cases hf' : files' next with
          | missing => rw [hnext.mpr hf'] at hf; cases hf
          | notImage | image img => rfl
  rw [executeTexture, executeTexture, hfollow]

/-! ## In strict mode -/

theorem visit_others (y : Fin n) (f : Frame n) {z : Fin n} (hz : z ≠ y) :
    (visit cfg img y f).state.x = f.x ∧ (visit cfg img y f).state.halted z = f.halted z ∧
      (visit cfg img y f).state.skipNext z = f.skipNext z := by
  unfold visit
  split
  · exact ⟨rfl, rfl, rfl⟩
  split
  · exact ⟨rfl, rfl, Function.update_of_ne hz _ _⟩
  split
  · exact ⟨rfl, rfl, rfl⟩
  · rw [Outcome.state_map]
    exact ⟨rfl, Function.update_of_ne hz _ _, Function.update_of_ne hz _ _⟩

/-- A turn in the frame raises, if it does, what strict mode refuses. -/
theorem visit_raises (y : Fin n) {f : Frame n} (hx : f.x < img.width) :
    (visit cfg img y f).Ends (fun _ => True) fun e _ => e.kind = .valueError := by
  unfold visit
  split
  · trivial
  rename_i hstill
  have hy : y < img.height := Nat.lt_of_not_le fun h => hstill (.inl h)
  split
  · trivial
  have hends := dispatch_ends cfg hy hx (img.px y f.x) ((f.tick y).core y)
  simp only [get?_inside hy hx]
  cases hd : dispatch cfg img y f.x (img.px y f.x) ((f.tick y).core y) with
  | done c => trivial
  | raised e c =>
    rw [hd] at hends
    exact hends.2.1

/-- A thread with an unknown opcode in the first column. -/
theorem column_refused (hs : cfg.strictMode = true) {row : Fin n} (hrow : row < img.height) (hw : 0 < img.width)
    (hbad : Bad cfg (img.px row 0)) {f : Frame n} (hx : f.x = 0) (hh : f.halted row = false) (hk : f.skipNext row = false) :
    (column cfg img f).Ends (fun _ => False) fun e _ => e.kind = .valueError := by
  refine Outcome.Ends.bind (P := fun _ => False) ?_ fun _ h => h.elim
  let I (j : Nat) (s : Frame n) : Prop := j ≤ row ∧ s.x = 0 ∧ s.halted row = false ∧ s.skipNext row = false
  refine (forEach_ends (List.finRange n) (I := I) (s := { f with clock := f.x, jumpTo := none }) ?_ ⟨Nat.zero_le _, hx, hh, hk⟩).imp (fun s h => ?_) fun _ _ h => h
  · intro j y hj s hI
    have hyj : (y : Nat) = j := by
      obtain ⟨hlt, rfl⟩ := List.getElem?_eq_some_iff.mp hj
      simp
    have hraise := @visit_raises n cfg img y s (show s.x < img.width by rw [hI.2.1]; exact hw)
    by_cases hy : y = row
    · subst hy
      have hends := dispatch_ends cfg hrow hw (img.px y 0) ((s.tick y).core y)
      have hv : visit cfg img y s = (dispatch cfg img y 0 (img.px y 0) ((s.tick y).core y)).map ((s.tick y).withCore y) := by
        rw [visit, if_neg (by simp [hI.2.2.1, hrow]), if_neg (by simp [hI.2.2.2]), hI.2.1, get?_inside hrow hw]
      rw [hv] at hraise ⊢
      cases hd : dispatch cfg img y 0 (img.px y 0) ((s.tick y).core y) with
      | done d =>
        rw [hd] at hends
        exact absurd ⟨hs, hbad⟩ hends
      | raised e d =>
        rw [hd] at hraise
        exact hraise
    · obtain ⟨hsx, hsh, hsk⟩ := @visit_others n cfg img y s row fun e => hy e.symm
      have hne : (y : Nat) ≠ row := fun e => hy (Fin.ext e)
      have hle := hI.1
      cases hv : visit cfg img y s with
      | done t =>
        rw [hv] at hsx hsh hsk
        exact ⟨by omega, hsx.trans hI.2.1, hsh.trans hI.2.2.1, hsk.trans hI.2.2.2⟩
      | raised e t =>
        rw [hv] at hraise
        exact hraise
  · have hlen := h.1
    rw [List.length_finRange] at hlen
    have := row.isLt
    omega

theorem executeTexture_refused (hs : cfg.strictMode = true) {row : Fin n} (hrow : row < img.height) (hw : 0 < img.width)
    (hbad : Bad cfg (img.px row 0)) {files : String → File} {path : String} (hf : files path = .image img) (m : Machine n) :
    ∃ e m', executeTexture cfg files path m = .raised e m' ∧ e.kind = .valueError := by
  obtain ⟨k, hk⟩ := Nat.exists_eq_add_of_le' cfg.maxColSteps_pos
  obtain ⟨l, hl⟩ := Nat.exists_eq_add_of_le' cfg.maxChain_pos
  have hcol := column_refused hs hrow hw hbad (f := m.enter) rfl rfl rfl
  rw [executeTexture, hl, follow, executeSingle, hf]
  simp only [runFrame, hk, repeatWhile]
  rw [if_pos (decide_eq_true (show m.enter.x < img.width from hw))]
  cases hc : column cfg img m.enter with
  | done f =>
    rw [hc] at hcol
    exact hcol.elim
  | raised e f =>
    rw [hc] at hcol
    exact ⟨e, _, rfl, hcol⟩

/-! ## The challenge frame -/

/-- `MAP` has no R from 100 to 200. -/
theorem map_free (hmap : cfg.opmap = map) {r : UInt8} (hlo : 100 ≤ r.toNat) (hhi : r.toNat ≤ 200) : cfg.opcode r = none := by
  have hfree : ∀ k < 201, 100 ≤ k → map.rev.get? (k : Nat) = none := by decide +kernel
  rw [Config.opcode, hmap, hfree r.toNat (by omega) hlo]
  rfl

theorem generate_ok {c : FrequencyChallenge} {secretFreq : UInt8} {files files' : String → File} {basePath : String}
    {base : Raster} (hbase : files basePath = .image base) (h : c.generateChallengeFrame secretFreq files basePath = .ok files') :
    ∃ frame, c.stamped secretFreq base = .ok frame ∧ files' = update files "challenge_frame.png" (.image frame) := by
  rw [FrequencyChallenge.generateChallengeFrame, hbase] at h
  obtain ⟨frame, hframe, rfl⟩ := except_map_ok h
  exact ⟨frame, hframe, rfl⟩

/-- The challenge is never verified. With the default map, whatever the base frame,
    the row and the secret: a machine runs any chain of frames over the files with the
    challenge frame as over those with the base frame in its place, that row blanked; only
    a strict machine with a thread on the row raises ValueError instead, whatever its
    state. -/
theorem challenge_never_verified (cfg : Config) (hmap : cfg.opmap = map) (c : FrequencyChallenge) {secretFreq : UInt8}
    (hlo : 100 ≤ secretFreq.toNat) (hhi : secretFreq.toNat ≤ 200) {files files' : String → File} {basePath : String}
    {base : Raster} (hbase : files basePath = .image base)
    (hgen : c.generateChallengeFrame secretFreq files basePath = .ok files') (n : Nat) :
    ((cfg.strictMode = true → ¬c.Scheduled n base) → ∀ (path : String) (m : Machine n), executeTexture cfg files' path m =
        executeTexture cfg (update files "challenge_frame.png" (.image (c.blanked base))) path m) ∧
      (cfg.strictMode = true → c.Scheduled n base → ∀ m : Machine n, ∃ e m',
        executeTexture cfg files' "challenge_frame.png" m = .raised e m' ∧ e.kind = .valueError) := by
  obtain ⟨frame, hframe, rfl⟩ := generate_ok hbase hgen
  have hidle : cfg.opcode secretFreq = none := map_free hmap hlo hhi
  have hnop : cfg.opcode Pixel.nop.r = none := by
    have hzero : map.rev.get? 0 = none := by decide +kernel
    rw [Config.opcode, hmap]
    exact congrArg (Option.bind · Opcode.ofName?) hzero
  refine ⟨fun hs path m => ?_, fun hs hrow m => ?_⟩
  · refine executeTexture_of_single (fun p => ?_) (fun p m => ?_) path m
    · by_cases hp : p = "challenge_frame.png"
      · simp [hp]
      · simp [Function.update_of_ne hp]
    · by_cases hp : p = "challenge_frame.png"
      · rw [executeSingle, executeSingle, hp, Function.update_self, Function.update_self]
        rw [FrequencyChallenge.stamped] at hframe
        rw [FrequencyChallenge.blanked]
        split at hframe
        · rename_i hin
          rw [if_pos hin]
          split at hframe
          · cases hframe
          · cases hframe
            have hrow : cfg.strictMode = true → (c.row base.height).toNat < n → base.width = 0 := by
              intro hstrict hlt
              by_contra hw
              exact hs hstrict ⟨hin, hlt, Nat.pos_of_ne_zero hw⟩
            have hidle' : ∀ x < base.width, cfg.opcode (FrequencyChallenge.cells secretFreq x).r = none := fun _ _ => hidle
            have hturn := visit_row hidle' hnop hrow
            exact runFrame_of_visit hturn rfl _ m
        · cases hframe
          rw [if_neg ‹_›]
      · rw [executeSingle, executeSingle, Function.update_of_ne hp, Function.update_of_ne hp]
  · obtain ⟨hin, hlt, hw⟩ := hrow
    rw [FrequencyChallenge.stamped, if_pos hin] at hframe
    split at hframe
    · cases hframe
    rename_i hneg
    cases hframe
    have hheight : (c.row base.height).toNat <
        (base.withRow (c.row base.height).toNat (FrequencyChallenge.cells secretFreq)).height := by
      show _ < base.height
      have hnonneg : 0 ≤ c.row base.height := by
        by_contra hlt0
        exact hneg ⟨by omega, hw⟩
      rw [FrequencyChallenge.row] at hnonneg ⊢
      split at hnonneg <;> omega
    have hbad : Bad cfg ((base.withRow (c.row base.height).toNat (FrequencyChallenge.cells secretFreq)).px
        (c.row base.height).toNat 0) := by
      refine .inl ?_
      simp only [Raster.withRow, if_true, FrequencyChallenge.cells]
      exact ⟨hidle, by omega⟩
    exact @executeTexture_refused n cfg _ hs ⟨_, hlt⟩ hheight hw hbad _ _ (Function.update_self ..) m

/-- A cell that verifies itself, alone in its frame. -/
def verified : Raster := ⟨1, 1, fun _ _ => ⟨50, 0, 0⟩⟩

/-- Challenged on its row, it is not verified any more; a strict machine refuses it. -/
theorem challenge_never_verified_once :
    ∃ files', (FrequencyChallenge.mk 0).generateChallengeFrame 150 (fun _ => .image verified) "base.png" = .ok files' ∧
      (∃ m', executeTexture {} files' "challenge_frame.png" ({} : Machine 1) = .done m' ∧ (m'.registers 0).a = 0) ∧
      ∃ e m', executeTexture { strictMode := true } files' "challenge_frame.png" ({} : Machine 1) = .raised e m' := by
  refine ⟨_, rfl, ?_, ?_⟩
  · obtain ⟨hlenient, -⟩ := @challenge_never_verified {} rfl (.mk 0) 150 (by decide) (by decide) (fun _ => .image verified) _ "base.png"
      verified rfl rfl 1
    rw [hlenient (by simp)]
    exact ⟨_, rfl, rfl⟩
  · obtain ⟨-, hstrict⟩ := @challenge_never_verified { strictMode := true } rfl (.mk 0) 150 (by decide) (by decide)
      (fun _ => .image verified) _ "base.png" verified rfl rfl 1
    obtain ⟨e, m', he, -⟩ := hstrict rfl ⟨by decide, by decide, by decide⟩ {}
    exact ⟨e, m', he⟩

end PyxelVM.Vm
