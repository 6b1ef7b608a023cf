/-
  PyxelVM.Vm.Confined — what one thread can do to the others.

  A row acts on the other threads by a STORE_MEM of a slot, a JMP into the frame and a
  SAVE_STATE of a registered index, and in strict mode by a cell that is refused. A cell
  that does none of these is `Confined`: it can read all there is, but what it does
  stays in the registers and flags of its own thread.

  - `visit_hidden`: a turn of a thread on confined cells shows nothing to the others.
  - `runFrame_hidden`, `follow_hidden`: so a frame, and a chain of frames, come out the
    same for the others whatever the rows of such threads hold.
  - `confined_unseen`: so does a series of `execute_texture` calls on one machine, those
    that raise included.
-/

import PyxelVM.Lib.Trace
import PyxelVM.Vm.Visits

namespace PyxelVM.Vm

open Function (update)
open PyxelVM.Lib
open PyxelVM.Lib.Outcome

variable {n : Nat} {cfg : Config} {hidden : Fin n → Prop} {img img' : Raster}

/-- The cell, in a frame of that width, changes nothing but its own thread. -/
structure Pixel.Confined (cfg : Config) (width : Nat) (p : Pixel) : Prop where
  store : cfg.opcode p.r = some .storeMem → slot? p.g = none
  jump : cfg.opcode p.r = some .jmp → width ≤ p.g.toNat
  save : cfg.opcode p.r = some .saveState → cfg.frameRegistry.get? p.g.toNat = none
  allowed : cfg.strictMode = true → ¬Bad cfg p

instance (width : Nat) (p : Pixel) : Decidable (p.Confined cfg width) :=
  decidable_of_iff ((cfg.opcode p.r = some .storeMem → slot? p.g = none) ∧ (cfg.opcode p.r = some .jmp → width ≤ p.g.toNat) ∧
      (cfg.opcode p.r = some .saveState → cfg.frameRegistry.get? p.g.toNat = none) ∧ (cfg.strictMode = true → ¬Bad cfg p))
    ⟨fun ⟨h₁, h₂, h₃, h₄⟩ => ⟨h₁, h₂, h₃, h₄⟩, fun ⟨h₁, h₂, h₃, h₄⟩ => ⟨h₁, h₂, h₃, h₄⟩⟩

/-- The images agree on the rows of the threads that are seen; those of the hidden ones are confined. -/
structure AgreeBut (cfg : Config) (hidden : Fin n → Prop) (img img' : Raster) : Prop where
  width : img.width = img'.width
  rows : ∀ y : Fin n, ¬hidden y → (img.height ≤ y ↔ img'.height ≤ y)
  px : ∀ y : Fin n, ¬hidden y → y < img.height → ∀ x < img.width, img.px y x = img'.px y x
  confined : ∀ y : Fin n, hidden y → y < img.height → ∀ x < img.width, (img.px y x).Confined cfg img.width
  confined' : ∀ y : Fin n, hidden y → y < img'.height → ∀ x < img'.width, (img'.px y x).Confined cfg img'.width

/-- All but the registers of hidden threads. -/
structure Machine.SameBut (hidden : Fin n → Prop) (m m' : Machine n) : Prop where
  registers : ∀ y, ¬hidden y → m.registers y = m'.registers y
  shared : m.shared = m'.shared
  clock : m.clock = m'.clock
  nextFrame : m.nextFrame = m'.nextFrame
  savedShared : m.savedShared = m'.savedShared

/-- All but the registers and flags of hidden threads. -/
structure Frame.SameBut (hidden : Fin n → Prop) (f g : Frame n) : Prop extends
    Machine.SameBut hidden f.toMachine g.toMachine where
  halted : ∀ y, ¬hidden y → f.halted y = g.halted y
  skipNext : ∀ y, ¬hidden y → f.skipNext y = g.skipNext y
  jumpTo : f.jumpTo = g.jumpTo
  x : f.x = g.x

theorem Machine.SameBut.refl (m : Machine n) : Machine.SameBut hidden m m := ⟨fun _ _ => rfl, rfl, rfl, rfl, rfl⟩

theorem Frame.SameBut.refl (f : Frame n) : Frame.SameBut hidden f f :=
  ⟨.refl f.toMachine, fun _ _ => rfl, fun _ _ => rfl, rfl, rfl⟩

theorem Frame.SameBut.symm {f g : Frame n} (h : f.SameBut hidden g) : g.SameBut hidden f :=
  ⟨⟨fun y hy => (h.registers y hy).symm, h.shared.symm, h.clock.symm, h.nextFrame.symm, h.savedShared.symm⟩,
    fun y hy => (h.halted y hy).symm, fun y hy => (h.skipNext y hy).symm, h.jumpTo.symm, h.x.symm⟩

theorem Frame.SameBut.trans {f g k : Frame n} (h : f.SameBut hidden g) (h' : g.SameBut hidden k) : f.SameBut hidden k :=
  ⟨⟨fun y hy => (h.registers y hy).trans (h'.registers y hy), h.shared.trans h'.shared, h.clock.trans h'.clock,
      h.nextFrame.trans h'.nextFrame, h.savedShared.trans h'.savedShared⟩,
    fun y hy => (h.halted y hy).trans (h'.halted y hy), fun y hy => (h.skipNext y hy).trans (h'.skipNext y hy),
    h.jumpTo.trans h'.jumpTo, h.x.trans h'.x⟩

/-! ## One turn -/

theorem dispatch_shared {p : Pixel} (h : cfg.opcode p.r = some .storeMem → slot? p.g = none) (y x : Nat) (c : Core) :
    (dispatch cfg img y x p c).state.shared = c.shared := by
  unfold dispatch
  cases hop : cfg.opcode p.r with
  | none =>
    simp only
    repeat' split
    all_goals rfl
  | some op =>
    cases op with
    | storeMem =>
      simp only [h hop]
      split <;> rfl
    | _ =>
      simp only
      repeat' split
      all_goals rfl

/-- A confined cell does not raise, and leaves what the threads share. -/
theorem dispatch_confined {p : Pixel} {y x : Nat} (hp : p.Confined cfg img.width) (hy : y < img.height) (hx : x < img.width)
    (c : Core) : ∃ d, dispatch cfg img y x p c = .done d ∧ d.shared = c.shared ∧ d.nextFrame = c.nextFrame ∧
      d.jumpTo = c.jumpTo := by
  have hshared := @dispatch_shared cfg img p hp.store y x c
  have hflags := dispatch_flags cfg img y x p c
  have hends := dispatch_ends cfg hy hx p c
  cases hd : dispatch cfg img y x p c with
  | raised e d =>
    rw [hd] at hends
    exact absurd hends.2.2.2 (hp.allowed hends.2.2.1)
  | done d =>
    rw [hd] at hshared hflags
    refine ⟨d, rfl, hshared, ?_, ?_⟩
    · refine hflags.nextFrame.trans ?_
      split
      · rename_i hop
        rw [hp.save hop, Option.none_or]
      · rfl
    · refine hflags.jumpTo.trans ?_
      rw [if_neg fun hj => Nat.not_lt.mpr (hp.jump hj.1) hj.2, Option.or_none]

/-- And only such a cell does, whatever state it is executed in. -/
theorem confined_iff {p : Pixel} {y x : Nat} (hy : y < img.height) (hx : x < img.width) :
    p.Confined cfg img.width ↔ ∀ c : Core, ∃ d, dispatch cfg img y x p c = .done d ∧ d.shared = c.shared ∧
      d.nextFrame = c.nextFrame ∧ d.jumpTo = c.jumpTo := by
  refine ⟨fun hp => dispatch_confined hp hy hx, fun h => ?_⟩
  -- a state in which each effect would show
  obtain ⟨d, hd, hshared, hnext, hjump⟩ := h ⟨{ a := 1 }, fun _ => 0, none, false, false, none⟩
  have hflags := dispatch_flags cfg img y x p ⟨{ a := 1 }, fun _ => 0, none, false, false, none⟩
  have hends := dispatch_ends cfg hy hx p ⟨{ a := 1 }, fun _ => 0, none, false, false, none⟩
  rw [hd] at hflags hends
  refine ⟨fun hop => ?_, fun hop => ?_, fun hop => ?_, fun hs hbad => hends ⟨hs, hbad⟩⟩
  · cases hslot : slot? p.g with
    | none => rfl
    | some s =>
      simp only [dispatch, hop, hslot] at hd
      cases hd
      have hone := congrFun hshared s
      simp at hone
  · have hto := hflags.jumpTo.symm.trans hjump
    simpa [hop] using hto
  · have hto := hflags.nextFrame.symm.trans hnext
    simpa [hop] using hto

theorem visit_hidden {y : Fin n} (hy : hidden y) {f : Frame n} (hx : f.x < img.width)
    (hp : y < img.height → (img.px y f.x).Confined cfg img.width) :
    ∃ f', visit cfg img y f = .done f' ∧ f'.SameBut hidden f := by
  have hother : ∀ z, ¬hidden z → z ≠ y := fun z hz e => hz (e ▸ hy)
  unfold visit
  split
  · exact ⟨f, rfl, .refl f⟩
  rename_i hstill
  have hrow : y < img.height := Nat.lt_of_not_le fun h => hstill (.inl h)
  split
  · exact ⟨_, rfl, .refl f.toMachine, fun _ _ => rfl, fun z hz => Function.update_of_ne (hother z hz) _ _, rfl, rfl⟩
  rw [get?_inside hrow hx]
  obtain ⟨d, hd, hshared, hnext, hjump⟩ := dispatch_confined (hp hrow) hrow hx ((f.tick y).core y)
  simp only [hd, Outcome.map_done]
  refine ⟨_, rfl, ⟨fun z hz => ?_, hshared, rfl, hnext, rfl⟩, fun z hz => ?_, fun z hz => ?_, hjump, rfl⟩
  all_goals simp [Frame.withCore, Frame.tick, hother z hz]

/-- The images agree on row `y`. -/
structure AgreeRow (img img' : Raster) (y : Nat) : Prop where
  row : img.height ≤ y ↔ img'.height ≤ y
  px : y < img.height → ∀ x < img.width, img.px y x = img'.px y x

theorem AgreeBut.seen (h : AgreeBut cfg hidden img img') (y : Fin n) (hy : ¬hidden y) : AgreeRow img img' y :=
  ⟨h.rows y hy, h.px y hy⟩

theorem visit_seen (hw : img.width = img'.width) {y : Fin n} (h : AgreeRow img img' y) (hy : ¬hidden y) {f g : Frame n}
    (hx : f.x < img.width) (hfg : f.SameBut hidden g) :
    Alike (Frame.SameBut hidden) (visit cfg img y f) (visit cfg img' y g) := by
  have hget : ∀ x < img.width, img.get? y x = img'.get? y x := by
    intro x hlt
    rcases Nat.lt_or_ge y img.height with hin | hout
    · have hin' : y < img'.height := Nat.lt_of_not_le fun h' => Nat.not_le.mpr hin (h.row.mpr h')
      rw [get?_inside hin hlt, get?_inside hin' (hw ▸ hlt), h.px hin x hlt]
    · have hout' := h.row.mp hout
      rw [Raster.get?, Raster.get?, if_neg (by omega), if_neg (by omega)]
  have hmirror : dispatch cfg img y f.x = dispatch cfg img' y f.x := by
    funext p c
    unfold dispatch
    rw [← hw, hget (img.width - 1 - f.x) (by omega)]
  unfold visit
  rw [← hfg.halted y hy, ← hfg.skipNext y hy, ← hfg.x, ← hget f.x hx]
  simp only [h.row]
  split
  · exact .done hfg
  split
  · exact .done ⟨⟨hfg.registers, hfg.shared, hfg.clock, hfg.nextFrame, hfg.savedShared⟩, hfg.halted,
      fun z hz => by simp only [Function.update_apply, hfg.skipNext z hz], hfg.jumpTo, rfl⟩
  have htick : (f.tick y).SameBut hidden (g.tick y) :=
    ⟨⟨fun z hz => by simp only [Frame.tick, Function.update_apply, hfg.registers y hy, hfg.registers z hz, hfg.x],
      hfg.shared, hfg.clock, hfg.nextFrame, hfg.savedShared⟩, hfg.halted, hfg.skipNext, hfg.jumpTo, hfg.x⟩
  split
  · exact .raised _ htick
  rename_i p _
  have hcore : (f.tick y).core y = (g.tick y).core y := by
    simp only [Frame.core, htick.registers y hy, htick.shared, htick.nextFrame, htick.halted y hy, htick.skipNext y hy,
      htick.jumpTo]
  rw [hcore, hmirror]
  have hwith : ∀ c : Core, ((f.tick y).withCore y c).SameBut hidden ((g.tick y).withCore y c) := by
    intro c
    refine ⟨⟨fun z hz => ?_, rfl, htick.clock, rfl, htick.savedShared⟩, fun z hz => ?_, fun z hz => ?_, rfl, htick.x⟩
    · simp only [Frame.withCore, Function.update_apply, htick.registers z hz]
    · simp only [Frame.withCore, Function.update_apply, htick.halted z hz]
    · simp only [Frame.withCore, Function.update_apply, htick.skipNext z hz]
  cases dispatch cfg img' y f.x p ((g.tick y).core y) with
  | done c => exact .done (hwith c)
  | raised e c => exact .raised e (hwith c)

theorem visit_x (y : Fin n) (f : Frame n) : (visit cfg img y f).state.x = f.x := by
  unfold visit
  split
  · rfl
  split
  · rfl
  split
  · rfl
  · rw [Outcome.state_map]
    rfl

/-! ## Frames and chains -/

/-- For one column it takes no more than that the cells of the hidden threads at this column are confined. -/
theorem column_hidden (hw : img.width = img'.width) (hseen : ∀ y : Fin n, ¬hidden y → AgreeRow img img' y) {f g : Frame n}
    (hx : f.x < img.width) (hconf : ∀ y : Fin n, hidden y → y < img.height → (img.px y f.x).Confined cfg img.width)
    (hconf' : ∀ y : Fin n, hidden y → y < img'.height → (img'.px y f.x).Confined cfg img'.width) (hfg : f.SameBut hidden g) :
    Alike (Frame.SameBut hidden) (column cfg img f) (column cfg img' g) := by
  have hturn : ∀ y ∈ List.finRange n, ∀ s t : Frame n, s.SameBut hidden t ∧ s.x = f.x →
      Alike (fun s t => s.SameBut hidden t ∧ s.x = f.x) (visit cfg img y s) (visit cfg img' y t) := by
    rintro y - s t ⟨hst, hs⟩
    refine Alike.and_left ?_ ((visit_x y s).trans hs)
    by_cases hy : hidden y
    · have ht : t.x = f.x := hst.x.symm.trans hs
      obtain ⟨s', hs', hsame⟩ := visit_hidden hy (hs ▸ hx) fun hin => hs ▸ hconf y hy hin
      obtain ⟨t', ht', hsame'⟩ := visit_hidden hy (by omega) fun hin => ht ▸ hconf' y hy hin
      rw [hs', ht']
      exact .done ((hsame.trans hst).trans hsame'.symm)
    · exact visit_seen hw (hseen y hy) hy (hs ▸ hx) hst
  have hstart : Frame.SameBut hidden { f with clock := f.x, jumpTo := none } { g with clock := g.x, jumpTo := none } :=
    ⟨⟨hfg.registers, hfg.shared, hfg.x, hfg.nextFrame, hfg.savedShared⟩, hfg.halted, hfg.skipNext, rfl, hfg.x⟩
  refine (forEach_lockstep _ hturn ⟨hstart, rfl⟩).bind_mono (fun _ _ h => h.1) fun s t hst => .done ?_
  obtain ⟨hst, -⟩ := hst
  refine ⟨⟨hst.registers, hst.shared, hst.clock, hst.nextFrame, hst.savedShared⟩, hst.halted, hst.skipNext, hst.jumpTo, ?_⟩
  simp only [Frame.advance, hst.jumpTo, hst.x]

theorem runFrame_hidden (h : AgreeBut cfg hidden img img') (path : String) {m m' : Machine n} (hm : m.SameBut hidden m') :
    Alike (Machine.SameBut hidden) (runFrame cfg path img m) (runFrame cfg path img' m') := by
  have henter : m.enter.SameBut hidden m'.enter :=
    ⟨⟨hm.registers, hm.shared, hm.clock, rfl, hm.savedShared⟩, fun _ _ => rfl, fun _ _ => rfl, rfl, rfl⟩
  have hloop : Alike (Frame.SameBut hidden)
      (repeatWhile (fun f : Frame n => decide (f.x < img.width)) (column cfg img) cfg.maxColSteps m.enter)
      (repeatWhile (fun f : Frame n => decide (f.x < img'.width)) (column cfg img') cfg.maxColSteps m'.enter) := by
    refine repeatWhile_lockstep (fun s t hst => ?_) (fun s t hst hs => ?_) _ henter
    · simp only [hst.x, h.width]
    · have hx := of_decide_eq_true hs
      exact column_hidden h.width h.seen hx (fun y hy hin => h.confined y hy hin _ hx)
        (fun y hy hin => h.confined' y hy hin _ (h.width ▸ hx)) hst
  refine (hloop.bind fun s t hst => ?_).map fun s t hst => hst.toSameBut
  rw [hst.x, h.width]
  split
  · exact .raised _ hst
  · exact .done hst

/-- Both missing, both no image, or images that agree but for confined rows of hidden threads. -/
inductive AgreeFile (cfg : Config) (hidden : Fin n → Prop) : File → File → Prop where
  | missing : AgreeFile cfg hidden .missing .missing
  | notImage : AgreeFile cfg hidden .notImage .notImage
  | image {img img' : Raster} (h : AgreeBut cfg hidden img img') : AgreeFile cfg hidden (.image img) (.image img')

variable {files files' : String → File}

theorem executeSingle_hidden {path : String} (h : AgreeFile cfg hidden (files path) (files' path)) {m m' : Machine n}
    (hm : m.SameBut hidden m') : Alike (Machine.SameBut hidden) (executeSingle cfg files path m)
      (executeSingle cfg files' path m') := by
  unfold executeSingle
  generalize files path = f at h
  generalize files' path = f' at h
  cases h with
  | missing => exact .raised _ hm
  | notImage => exact .raised _ hm
  | image h => exact runFrame_hidden h path hm

theorem follow_hidden (h : ∀ path, AgreeFile cfg hidden (files path) (files' path)) (k : Nat) (path : String)
    {m m' : Machine n} (hm : m.SameBut hidden m') :
    Alike (Machine.SameBut hidden) (follow cfg files k path m) (follow cfg files' k path m') := by
  induction k generalizing path m m' with
  | zero => exact .raised _ hm
  | succ k ih =>
    refine (executeSingle_hidden (h path) hm).bind fun s t hst => ?_
    rw [← hst.nextFrame]
    cases s.nextFrame with
    | none => exact .done hst
    | some next =>
      have hnext := h next
      simp only
      generalize files next = f at hnext
      generalize files' next = f' at hnext
      cases hnext with
      | missing => exact .raised _ hst
      | notImage => exact ih next hst
      | image => exact ih next hst

theorem executeTexture_hidden (h : ∀ path, AgreeFile cfg hidden (files path) (files' path)) (path : String)
    {m m' : Machine n} (hm : m.SameBut hidden m') :
    Alike (Machine.SameBut hidden) (executeTexture cfg files path m) (executeTexture cfg files' path m') := by
  refine (follow_hidden h cfg.maxChain path hm).bind fun s t hst => .done ?_
  split
  · exact ⟨hst.registers, hst.shared, hst.clock, hst.nextFrame, congrArg some hst.shared⟩
  · exact hst

/-! ## A machine over its life -/

/-- `execute_texture` called on two machines, each with its own files. -/
structure TwoCalls where
  files : String → File
  files' : String → File
  path : String

/-- A row of confined cells is not seen by the others. For two machines with the same
    configuration, and any series of `execute_texture` calls on frames that agree but for
    rows of hidden threads whose cells are confined: call by call they raise the same
    exception or none, and they are left with the same registers of the other threads,
    slots, clock, next frame and shared file, whatever the hidden rows hold. -/
theorem confined_unseen (cfg : Config) (hidden : Fin n → Prop) {m m' : Machine n} (hm : m.SameBut hidden m')
    {calls : List TwoCalls} (h : ∀ c ∈ calls, ∀ path, AgreeFile cfg hidden (c.files path) (c.files' path)) :
    let step (m : Machine n) (c : TwoCalls) := (executeTexture cfg c.files c.path m).split
    let step' (m : Machine n) (c : TwoCalls) := (executeTexture cfg c.files' c.path m).split
    (Trace.log step m calls).map (·.2) = (Trace.log step' m' calls).map (·.2) ∧
      (Trace.final step m calls).SameBut hidden (Trace.final step' m' calls) := by
  intro step step'
  induction calls generalizing m m' with
  | nil => exact ⟨rfl, hm⟩
  | cons c calls ih =>
    obtain ⟨he, hs⟩ := (executeTexture_hidden (h c List.mem_cons_self) c.path hm).split
    obtain ⟨hl, hf⟩ := ih hs fun d hd => h d (List.mem_cons_of_mem c hd)
    refine ⟨?_, hf⟩
    rw [Trace.log_cons, Trace.log_cons, List.map_cons, List.map_cons, hl]
    exact congrArg (· :: _) he

/-- The first row stores 9 in M0 and halts; the second holds `below` and then halts. -/
def aboveReader (below : Pixel) : Raster :=
  ⟨3, 2, fun y x => if x = 2 then ⟨255, 0, 0⟩ else if y = 1 then below else if x = 0 then ⟨10, 0, 9⟩ else ⟨41, 0, 0⟩⟩

/-- A second row that loads M0 and one that does nothing. -/
theorem confined_unseen_reader :
    let calls : List TwoCalls := [⟨fun _ => .image (aboveReader ⟨40, 0, 0⟩), fun _ => .image (aboveReader .nop), "frame.png"⟩]
    let step (m : Machine 2) (c : TwoCalls) := (executeTexture {} c.files c.path m).split
    let step' (m : Machine 2) (c : TwoCalls) := (executeTexture {} c.files' c.path m).split
    (Trace.final step {} calls).registers 0 = (Trace.final step' {} calls).registers 0 := by
  have hsame : AgreeBut {} (fun y : Fin 2 => y = 1) (aboveReader ⟨40, 0, 0⟩) (aboveReader .nop) := by
    refine ⟨rfl, fun _ _ => .rfl, fun y hy _ x _ => ?_, by decide +kernel, by decide +kernel⟩
    have hy : y = 0 := by omega
    simp [aboveReader, hy]
  exact (confined_unseen {} (fun y => y = 1) (.refl {}) (by
    intro c hc path
    rw [List.mem_singleton.mp hc]
    exact .image hsame)).2.registers 0 (by decide)

end PyxelVM.Vm
