import Handheld.Proofs.Console.Display
import Handheld.Proofs.Cpu.Account

namespace Handheld

namespace Raster

/-- A frame is finished. -/
def Finish.isFrame : Finish → Bool
  | .scanline _ _ => false
  | .frame _ _ => true

/-- The frames in a list of what is finished. -/
def framesIn (finished : List Finish) : Nat :=
  finished.countP Finish.isFrame

variable {r : Raster}

theorem framesIn_append (xs ys : List Finish) : framesIn (xs ++ ys) = framesIn xs + framesIn ys :=
  List.countP_append

theorem next_frames (r : Raster) :
    r.next.1.frames = r.frames + framesIn (r.next.2.toList.map Signal.finish) := by
  unfold next
  split
  · rfl
  · rfl
  · split <;> rfl
  · split <;> rfl

theorem settle_frames (r : Raster) :
    r.settle.1.frames = r.frames + framesIn (r.settle.2.map Signal.finish) := by
  induction r using Raster.settle.induct with
  | case1 r hle turn ih =>
    have hnext := next_frames r.spend
    have hspend : r.spend.frames = r.frames := rfl
    rw [settle, dif_pos hle, List.map_append, framesIn_append]
    change r.spend.next.1.settle.1.frames = _
    rw [ih, hnext, hspend, Nat.add_assoc]
  | case2 r hlt =>
    rw [settle, dif_neg hlt]
    rfl

/-- The display counts a frame for each that it finishes. -/
theorem advance_frames (n : Nat) (r : Raster) :
    (r.advance n).1.frames = r.frames + framesIn ((r.advance n).2.map Signal.finish) :=
  settle_frames { r with clock := r.clock + n }

theorem Signal.finish_isFrame (signal : Signal) : signal.finish.isFrame = signal.isFrame := by
  cases signal <;> rfl

theorem framesIn_finish_pos_iff {signals : List Signal} :
    0 < framesIn (signals.map Signal.finish) ↔ signals.any (·.isFrame) = true := by
  rw [framesIn, List.countP_map, List.countP_pos_iff, List.any_eq_true]
  simp only [Function.comp_apply, Signal.finish_isFrame]

end Raster

/-- The event is a finished frame. -/
def Event.isFrame : Event → Bool
  | .frame _ => true
  | _ => false

/-- The frames that a renderer is given in some events. -/
def framesIn (events : Array Event) : Nat :=
  events.toList.countP Event.isFrame

theorem framesIn_append (xs ys : Array Event) :
    framesIn (xs ++ ys) = framesIn xs + framesIn ys := by
  simp [framesIn]

/-- They can be counted among the pictures. -/
theorem framesIn_eq (events : Array Event) :
    framesIn events = Raster.framesIn ((pictures events).map Picture.finish) := by
  have hevent (e : Event) :
      e.isFrame = (e.picture?.map (Raster.Finish.isFrame ∘ Picture.finish)).getD false := by
    cases e <;> rfl
  unfold framesIn Raster.framesIn pictures
  rw [List.countP_map, List.countP_filterMap]
  exact List.countP_congr fun e _ => by rw [hevent]

namespace Console

variable {c : Console} {t : Nat}

/-- Since the display had finished `k` frames it has counted a frame for each that is among the
    pictures. -/
theorem counted_lasting (k : Nat) : Lasting fun _ o =>
    o.board.lcd.raster.frames = k + Raster.framesIn ((pictures o.events).map Picture.finish) := by
  refine Lasting.ofDisplay (P := fun _ r ps =>
    r.frames = k + Raster.framesIn (ps.map Picture.finish)) fun _ n o h => ?_
  have hraster : (o.tick n).board.lcd.raster = (o.board.lcd.raster.advance (4 * n)).1 := rfl
  rw [hraster, Raster.advance_frames, h, Observed.finish_tick, Raster.framesIn_append,
    Nat.add_assoc]

/-- A step gives the renderer the frames that it finishes. -/
theorem step_frames (c : Console) : c.step.console.frames = c.frames + framesIn c.step.events := by
  have hcounted := (counted_lasting c.frames).step (c := c) rfl
  rw [framesIn_eq]
  exact hcounted

theorem frames_le_step (c : Console) : c.frames ≤ c.step.console.frames := by
  rw [step_frames]
  exact Nat.le_add_right _ _

/-- Since clock cycle `t`, at which the processor's clock was at `k`, the display has kept step with
    the processor. -/
theorem keptStep_lasting (k t : Nat) : Lasting fun cpu o =>
    ∃ n, cpu.clockCycles = k + 4 * n ∧ o.board.lcd.raster.InStep (t + 4 * n) := by
  refine Lasting.ofDisplay (P := fun clock r _ =>
    ∃ n, clock = k + 4 * n ∧ r.InStep (t + 4 * n)) fun clock n o h => ?_
  obtain ⟨m, hclock, hinStep⟩ := h
  have hadvanced := (hinStep.advance (4 * n)).1
  have htime : t + 4 * m + 4 * n = t + 4 * (m + n) := by omega
  rw [htime] at hadvanced
  exact ⟨m + n, by omega, hadvanced⟩

/-- What a step adds to the processor's clock. -/
theorem step_clock (c : Console) :
    ∃ n ≤ 8, c.step.console.cpu.clockCycles = c.cpu.clockCycles + 4 * n ∧
      (c.cpu.stopped = false → ∀ m, c.step.result = .ok m → 0 < n) := by
  cases hstopped : c.cpu.stopped with
  | true =>
    rw [step_of_stopped hstopped]
    exact ⟨0, by decide, rfl, nofun⟩
  | false =>
    cases hstep : Exec.step c.circuit with
    | ok n s =>
      have hsettles := Exec.settles_of_step_eq_ok hstopped hstep
      rw [step_of_ok hstep]
      exact ⟨n, hsettles.bounds.2, hsettles.clockCycles, fun _ _ _ => hsettles.bounds.1⟩
    | error e s =>
      rw [step_of_error hstep]
      -- A step that fails has taken no time, or the time of its work alone.
      obtain ⟨hcounters, -⟩ | ⟨-, n, u, -, -, -, hwork, hcounters, -⟩ :=
        Exec.fails_of_step_eq_error hstopped hstep
      · exact ⟨0, by decide, hcounters.2, nofun⟩
      · have hcost := (Exec.work_cost hwork).2.1
        exact ⟨n, by omega, hcounters.2, nofun⟩

/-- A step takes at most eight machine cycles, and some time if it is that of a running processor
    and succeeds. The display keeps step with it. -/
theorem step_time (h : c.board.lcd.raster.InStep t) :
    ∃ n ≤ 8, c.step.console.cpu.clockCycles = c.cpu.clockCycles + 4 * n ∧
      c.step.console.board.lcd.raster.InStep (t + 4 * n) ∧
      (c.cpu.stopped = false → ∀ m, c.step.result = .ok m → 0 < n) := by
  obtain ⟨n, hle, hclock, hpos⟩ := step_clock c
  obtain ⟨m, hclock', hinStep⟩ :=
    (keptStep_lasting c.cpu.clockCycles t).step (c := c) ⟨0, rfl, h⟩
  have hsame : m = n := by omega
  rw [hsame] at hinStep
  exact ⟨n, hle, hclock, hinStep, hpos⟩

/-- The display of a reachable console stands where it would at some time. That need not be the time
    on the processor's clock, which the host may have set. -/
theorem Reachable.inStep (h : c.Reachable) : ∃ t, c.board.lcd.raster.InStep t := by
  have hlasting : Lasting fun _ o => ∃ t, o.board.lcd.raster.InStep t := by
    refine Lasting.ofDisplay (P := fun _ r _ => ∃ t, r.InStep t) fun _ n o h => ?_
    obtain ⟨t, hinStep⟩ := h
    exact ⟨t + 4 * n, (hinStep.advance (4 * n)).1⟩
  obtain ⟨config, ops, rfl⟩ := h
  refine play_induction (P := fun c _ => ∃ t, c.board.lcd.raster.InStep t)
    (fun op _ c _ h => ?_) ⟨0, Raster.powerOn_inStep⟩
  by_cases hrestarts : op.Restarts
  · cases op with
    | reset => exact ⟨0, Raster.powerOn_inStep⟩
    | load cartridge => exact ⟨0, Raster.powerOn_inStep⟩
    | _ => exact hrestarts.elim
  · exact hlasting.perform_board (P := fun b => ∃ t, b.lcd.raster.InStep t) hrestarts h

end Console

end Handheld
