import Handheld.Proofs.Board.Requests
import Handheld.Proofs.Console.StepsUntil

namespace Handheld

namespace Exec

variable {s : Circuit Observed}

theorem pending_of_quiet (h : s.bus.board.Quiet) :
    ∃ sources, pending s = .ok sources s ∧ sources.isEmpty = true :=
  ⟨_, pending_eq s, Board.quiet_iff_isEmpty.mp h⟩

theorem idle_of_quiet (h : s.bus.board.Quiet) : idle s = .ok 1 (costing 1 s) := by
  obtain ⟨sources, hpending, hempty⟩ := pending_of_quiet h
  refine idle_eq_ok_iff.mpr ⟨sources, s, hpending, rfl, ?_⟩
  rw [woken, if_pos hempty]

theorem dispatch_of_quiet (h : s.bus.board.Quiet) : dispatch s = .ok false s := by
  rw [dispatch_eq_ok_false_iff]
  obtain ⟨sources, hpending, hempty⟩ := pending_of_quiet h
  cases hime : s.cpu.regs.ime with
  | false => exact .inl ⟨rfl, rfl⟩
  | true => exact .inr ⟨rfl, sources, hpending, Interrupts.isEmpty_iff.mp hempty .vblank⟩

end Exec

namespace Console

variable {c d : Console} {n : Nat} {x : Finale}

theorem stepsPerFrame_eq : 4 * stepsPerFrame = Raster.cyclesPerFrame := by
  decide

/-- A frame is the steps until it is finished, and these are not too many. -/
theorem stepFrame_stepsUntil (hc : c.Reachable) :
    ∃ n ≤ stepsPerFrame, ∃ x, StepsUntil (Finished (c.frames + 1)) c n c.stepFrame.console x ∧
      c.stepFrame.result = x.result := by
  obtain ⟨t, ht⟩ := hc.inStep
  have hframes : Raster.cyclesPerFrame * c.frames ≤ t + 4560 :=
    (finished_iff ht).mp (Nat.le_refl c.frames)
  have hfuel : Raster.cyclesPerFrame * (c.frames + 1) ≤ t + 4560 + 4 * stepsPerFrame := by
    rw [stepsPerFrame_eq, Nat.mul_succ]
    exact Nat.add_le_add_right hframes _
  obtain ⟨n, hn, d, x, hsteps⟩ := exists_stepsUntil ht hfuel
  have hframe : c.stepFrame.console = d ∧ c.stepFrame.result = x.result :=
    hsteps.stepWhile (Nat.le_refl c.frames) hn
  obtain ⟨rfl, hresult⟩ := hframe
  exact ⟨n, hn, x, hsteps, hresult⟩

/-- Where the steps until a frame is finished end as they should, the display has just begun
    v-blank. -/
theorem StepsUntil.frame_begins (h : StepsUntil (Finished (c.frames + 1)) c n d .done)
    (hc : c.Reachable) :
    d.frames = c.frames + 1 ∧ d.board.lcd.raster.mode = .vBlank ∧
      d.board.lcd.raster.line = Raster.vblankLine ∧ d.board.lcd.raster.clock < 32 := by
  have hgoal : ¬ c.Finished (c.frames + 1) := Nat.not_succ_le_self c.frames
  have hdone : d.Finished (c.frames + 1) := h.ends
  have hframes : d.frames = c.frames + 1 := Nat.le_antisymm (h.frames_le_goal hgoal hc) hdone
  obtain ⟨t, ht⟩ := hc.inStep
  obtain ⟨m, -, hinStep, hbound⟩ := h.time hgoal ht
  -- The cycles since the frame was due.
  obtain ⟨late, hlate⟩ := Nat.exists_eq_add_of_le ((finished_iff hinStep).mp hdone)
  have hshort : late < 32 := by omega
  obtain ⟨hmode, hline, hclock⟩ := hinStep.vblank_begins hlate (by omega)
  exact ⟨hframes, hmode, hline, hclock ▸ hshort⟩

/-- The processor is parked, and no interrupt is enabled that would end this. -/
structure Parked (c : Console) : Prop where
  halted : c.cpu.halted = true
  running : c.cpu.stopped = false
  disabled : c.board.enabled = 0

theorem began_board (c : Console) :
    (Exec.began c.circuit).bus.board = c.board.beginStep c.cpu.regs.pc :=
  Observed.board_beginStep c.cpu.regs.pc ⟨c.board, #[]⟩

/-- The state after the idle cycle of a parked processor, which finds nothing pending. -/
def idled (c : Console) : Circuit Observed :=
  Exec.costing 1 (Exec.began c.circuit)

theorem work_of_quiet (hhalted : c.cpu.halted = true) (h : c.board.Quiet) :
    Exec.work c.circuit = .ok 1 c.idled := by
  have hbegan : (Exec.began c.circuit).bus.board.Quiet := by
    rw [began_board]
    exact h
  rw [Exec.work_of_halted hhalted]
  exact Exec.idle_of_quiet hbegan

/-- A step spends an idle cycle if nothing calls the processor before or after it. -/
theorem step_eq_of_quiet (hhalted : c.cpu.halted = true) (hrunning : c.cpu.stopped = false)
    (hbefore : c.board.Quiet) (hafter : (Exec.elapsed 1 c.idled).bus.board.Quiet) :
    Exec.step c.circuit = .ok 1 (Exec.elapsed 1 c.idled) :=
  (Exec.step_eq_ok_iff (s := c.circuit) hrunning).mpr ⟨1, _, 0, work_of_quiet hhalted hbefore,
    Exec.finishStep_eq_ok_iff.mpr (.inr (.inl ⟨hrunning, Exec.dispatch_of_quiet hafter, rfl⟩)), rfl⟩

theorem Parked.work (h : c.Parked) : Exec.work c.circuit = .ok 1 c.idled :=
  work_of_quiet h.halted (Board.quiet_of_disabled h.disabled)

theorem Parked.idled_disabled (h : c.Parked) : (Exec.elapsed 1 c.idled).bus.board.enabled = 0 := by
  change (Exec.began c.circuit).bus.board.enabled = 0
  rw [began_board]
  exact h.disabled

theorem Parked.dispatch (h : c.Parked) :
    Exec.dispatch (Exec.elapsed 1 c.idled) = .ok false (Exec.elapsed 1 c.idled) :=
  Exec.dispatch_of_quiet (Board.quiet_of_disabled h.idled_disabled)

/-- A parked processor spends an idle cycle. -/
theorem Parked.step_eq (h : c.Parked) :
    Exec.step c.circuit = .ok 1 (Exec.elapsed 1 c.idled) :=
  step_eq_of_quiet h.halted h.running (Board.quiet_of_disabled h.disabled)
    (Board.quiet_of_disabled h.idled_disabled)

/-- It stays parked. -/
theorem Parked.step (h : c.Parked) : c.step.result = .ok 1 ∧ c.step.console.Parked := by
  rw [step_of_ok h.step_eq]
  exact ⟨rfl, h.halted, h.running, h.idled_disabled⟩

/-- What is waited for comes about while the processor is parked. -/
theorem StepsUntil.of_parked {done : Console → Prop} (h : StepsUntil done c n d x)
    (hc : c.Parked) : x = .done ∧ d.Parked := by
  induction h with
  | done => exact ⟨rfl, hc⟩
  | stopped _ hstopped =>
    rw [hc.running] at hstopped
    cases hstopped
  | failed _ _ herror =>
    rw [hc.step.1] at herror
    cases herror
  | step _ _ _ _ ih => exact ih hc.step.2

/-- So does what is waited for from the step that parks it. -/
theorem StepsUntil.of_parking {done : Console → Prop} (h : StepsUntil done c n d x)
    (hrunning : c.cpu.stopped = false) (hok : c.step.result.toOption.isSome = true)
    (hparked : c.step.console.Parked) : x = .done := by
  cases h with
  | done => rfl
  | stopped _ hstopped =>
    rw [hrunning] at hstopped
    cases hstopped
  | failed _ _ herror =>
    rw [herror] at hok
    cases hok
  | step _ _ _ hrest => exact (hrest.of_parked hparked).1

/-- What taking a frame comes to. -/
structure TakesFrame (c : Console) : Prop where
  /-- It comes to an end, as the steps until one more frame is finished do. -/
  ends : ∃ n ≤ 17556, ∃ x, StepsUntil (Finished (c.frames + 1)) c n c.stepFrame.console x ∧
    c.stepFrame.result = x.result
  finished : c.stepFrame.result = .ok () → c.stepFrame.console.cpu.stopped = false →
    c.stepFrame.console.frames = c.frames + 1 ∧
      c.stepFrame.console.board.lcd.raster.mode = .vBlank ∧
      c.stepFrame.console.board.lcd.raster.line = 144 ∧
      c.stepFrame.console.board.lcd.raster.clock < 32
  frames : c.frames ≤ c.stepFrame.console.frames ∧ c.stepFrame.console.frames ≤ c.frames + 1
  stopped : c.cpu.stopped = true → c.stepFrame = ⟨c, .ok (), #[]⟩

/-- A frame takes at most 17556 steps, whatever the program and whatever the host has done. It
    finishes exactly one frame, and ends less than 32 clock cycles into v-blank, unless the
    processor stops or a step fails. -/
theorem takes_frame (hc : c.Reachable) : c.TakesFrame := by
  obtain ⟨n, hn, x, hsteps, hresult⟩ := stepFrame_stepsUntil hc
  have hgoal : ¬ c.Finished (c.frames + 1) := Nat.not_succ_le_self c.frames
  refine ⟨⟨n, hn, x, hsteps, hresult⟩, fun hok hrunning => ?_,
    ⟨hsteps.frames_le, hsteps.frames_le_goal hgoal hc⟩, fun hstopped => ?_⟩
  · cases x with
    | done => exact hsteps.frame_begins hc
    | stopped =>
      obtain ⟨-, hstopped⟩ := hsteps.ends
      rw [hstopped] at hrunning
      cases hrunning
    | failed e =>
      rw [hresult] at hok
      cases hok
  · exact stepWhile_of_stopped hstopped _ _ _

/-- A console whose boot program has parked the processor. -/
def parked : Console :=
  (play [.step] (new { bootImage := some #[0x76] })).1

theorem parked_reachable : parked.Reachable :=
  ⟨_, _, rfl⟩

theorem parked_parked : parked.Parked := by
  have hstate :
      parked.cpu.halted = true ∧ parked.cpu.stopped = false ∧ parked.board.enabled = 0 := by
    decide +kernel
  exact ⟨hstate.1, hstate.2.1, hstate.2.2⟩

/-- It idles from frame to frame. -/
theorem takes_frame_parked :
    parked.Reachable ∧ parked.TakesFrame ∧ parked.stepFrame.result = .ok () ∧
      parked.stepFrame.console.frames = parked.frames + 1 := by
  have htakes : parked.TakesFrame := takes_frame parked_reachable
  obtain ⟨n, -, x, hsteps, hresult⟩ := htakes.ends
  obtain ⟨rfl, hparked⟩ := hsteps.of_parked parked_parked
  exact ⟨parked_reachable, htakes, hresult, (htakes.finished hresult hparked.running).1⟩

end Console

end Handheld
