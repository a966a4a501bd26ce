import Handheld.Proofs.Console.Operation
import Handheld.Proofs.Lcd.Raster

namespace Handheld

/-- What a renderer learns from a picture, apart from the registers and the memories. -/
def Picture.finish : Picture → Raster.Finish
  | .scanline view => .scanline view.line view.mode
  | .frame view => .frame view.line view.mode

namespace Observed

/-- The events of signals give the renderer just what the signals say. -/
theorem finish_signalEvents (lcd : Lcd) (signals : List Raster.Signal) :
    ((signals.flatMap (signalEvents lcd)).filterMap Event.picture?).map Picture.finish =
      signals.map Raster.Signal.finish := by
  induction signals with
  | nil => rfl
  | cons signal signals ih =>
    rw [List.flatMap_cons, List.filterMap_append, List.map_append, ih]
    cases signal <;> rfl

/-- The overflows of the timer are no pictures. -/
theorem pictures_timeEvents (b : Board) (passed : Board.Passed) :
    pictures (timeEvents b passed).toArray =
      pictures (passed.signals.flatMap (signalEvents b.lcd)).toArray := by
  have hoverflows (n : Nat) (e : Notice) :
      (List.replicate n (Event.notice e)).filterMap Event.picture? = [] := by
    rw [List.filterMap_replicate]
    rfl
  rw [pictures, timeEvents, List.filterMap_append, hoverflows]
  rfl

theorem finish_timeEvents (b : Board) (passed : Board.Passed) :
    (pictures (timeEvents b passed).toArray).map Picture.finish =
      passed.signals.map Raster.Signal.finish := by
  rw [pictures_timeEvents]
  exact finish_signalEvents b.lcd passed.signals

/-- The passing of time gives the renderer what the display finishes meanwhile. -/
theorem finish_tick (n : Nat) (o : Observed) :
    (pictures (o.tick n).events).map Picture.finish =
      (pictures o.events).map Picture.finish ++
        (o.board.lcd.raster.advance (4 * n)).2.map Raster.Signal.finish := by
  have hevents : (o.tick n).events =
      o.events ++ (timeEvents (o.board.advance n).1 (o.board.advance n).2).toArray := rfl
  rw [hevents, pictures_append, List.map_append, finish_timeEvents]
  rfl

end Observed

namespace Console

open Raster (Finish)

/-- The display is in step with the processor, and the renderer has been given what is due by then:
    first `given`, then the pictures `ps`. -/
def Rendered (given : List Finish) (cpu : Cpu) (b : Board) (ps : List Picture) : Prop :=
  b.lcd.raster.InStep cpu.clockCycles ∧
    given ++ ps.map Picture.finish = Raster.dueAfter 0 cpu.clockCycles

section Rendered

variable {given : List Finish} {cpu cpu' : Cpu} {b b' : Board} {ps : List Picture}

theorem Rendered.congr (h : Rendered given cpu b ps) (hclock : cpu'.clockCycles = cpu.clockCycles)
    (hraster : b'.lcd.raster = b.lcd.raster) : Rendered given cpu' b' ps := by
  unfold Rendered at *
  rw [hclock, hraster]
  exact h

theorem rendered_append (qs : List Picture) :
    Rendered given cpu b (ps ++ qs) ↔ Rendered (given ++ ps.map Picture.finish) cpu b qs := by
  unfold Rendered
  rw [List.map_append, List.append_assoc]

theorem Rendered.tick {o : Observed} (h : Rendered given cpu o.board (pictures o.events))
    (n : Nat) :
    Rendered given (cpu.advanceClock n) (o.tick n).board (pictures (o.tick n).events) := by
  obtain ⟨hinStep, hgiven⟩ := h
  obtain ⟨hadvanced, hfinished⟩ := hinStep.advance (4 * n)
  refine ⟨hadvanced, ?_⟩
  rw [Observed.finish_tick, ← List.append_assoc, hgiven, hfinished, Cpu.clockCycles_advanceClock,
    Raster.dueAfter_add, Nat.zero_add]

end Rendered

/-- What the passing of time keeps of the clock cycles, the display's timing and the pictures lasts:
    nothing else has a part in these. -/
theorem Lasting.ofDisplay {P : Nat → Raster → List Picture → Prop}
    (htick : ∀ k n (o : Observed), P k o.board.lcd.raster (pictures o.events) →
      P (k + 4 * n) (o.tick n).board.lcd.raster (pictures (o.tick n).events)) :
    Lasting fun cpu o => P cpu.clockCycles o.board.lcd.raster (pictures o.events) where
  cpu := by
    refine ⟨fun _ _ _ h => h, fun cpu o f hf h => ?_⟩
    rw [(hf.counters cpu).2]
    exact h
  bus cpu := by
    refine Observed.stable (P := fun b ps => P cpu.clockCycles b.lcd.raster ps)
      fun ps addr v b hb => ?_
    simp only [(Board.after_write8_change addr v b).raster]
    exact hb
  begin cpu o h := by
    change P cpu.clockCycles (o.beginStep cpu.regs.pc).board.lcd.raster
      (pictures (o.beginStep cpu.regs.pc).events)
    rw [Observed.board_beginStep, Observed.pictures_beginStep]
    exact h
  tick n s h := htick s.cpu.clockCycles n s.bus h
  button _ _ _ _ h := h

/-- Nothing but a restart or a change of the clock by hand gets the display out of step. -/
theorem rendered_lasting (given : List Finish) :
    Lasting fun cpu o => Rendered given cpu o.board (pictures o.events) := by
  refine Lasting.ofDisplay (P := fun k r ps =>
    r.InStep k ∧ given ++ ps.map Picture.finish = Raster.dueAfter 0 k) fun k n o h => ?_
  have hrendered : Rendered given { clockCycles := k } o.board (pictures o.events) := h
  exact hrendered.tick n

/-- Changes of the processor by hand leave its count of clock cycles alone. -/
def Operation.KeepsClockCycles (op : Operation) : Prop :=
  op.AdjustsBy fun f => ∀ cpu, (f cpu).clockCycles = cpu.clockCycles

variable {c : Console} {op : Operation} {ops : List Operation}

theorem powerOn_rendered (c : Console) : Rendered [] c.powerOn.cpu c.powerOn.board [] := by
  have hraster : c.powerOn.board.lcd.raster = {} := rfl
  unfold Rendered
  rw [(counters_powerOn c).2, hraster]
  exact ⟨Raster.powerOn_inStep, rfl⟩

theorem Rendered.perform {given : List Finish} (h : Rendered given c.cpu c.board [])
    (hrestarts : ¬ op.Restarts) (hclock : op.KeepsClockCycles) :
    Rendered given (op.perform c).1.cpu (op.perform c).1.board (pictures (op.perform c).2) := by
  refine (rendered_lasting given).perform hrestarts (hclock.mono fun f hf => ?_) h
  exact fun cpu _ h => h.congr (hf cpu) rfl

/-- Whatever the host does, the display is in step with the processor's clock: its place in the
    frame and the number of its frames are those of the clock. -/
theorem inStep_of_play (c : Console) (hops : ∀ op ∈ ops, op.KeepsClockCycles) :
    (play ops c.powerOn).1.board.lcd.raster.InStep (play ops c.powerOn).1.cpu.clockCycles := by
  refine play_induction (P := fun c _ => c.board.lcd.raster.InStep c.cpu.clockCycles)
    (fun op hop c _ h => ?_) (powerOn_rendered c).1
  by_cases hrestarts : op.Restarts
  · cases op with
    | reset => exact (powerOn_rendered c).1
    | load cartridge => exact (powerOn_rendered (c.insert cartridge)).1
    | _ => exact hrestarts.elim
  · have hrendered : Rendered (Raster.dueAfter 0 c.cpu.clockCycles) c.cpu c.board [] :=
      ⟨h, List.append_nil _⟩
    exact (hrendered.perform hrestarts (hops op hop)).1

/-- A host that steps, writes, presses a button and stops the processor. -/
def meddling : List Operation :=
  [.step, .write8 Interrupts.enableAddr 1, .step, .setButton .start true, .adjustCpu Cpu.stop,
    .step]

theorem meddling_keepsClockCycles : ∀ op ∈ meddling, ¬ op.Restarts ∧ op.KeepsClockCycles := by
  simp [meddling, Operation.Restarts, Operation.KeepsClockCycles, Operation.AdjustsBy, Cpu.stop]

theorem inStep_after_meddling :
    (∀ op ∈ meddling, op.KeepsClockCycles) ∧
      (play meddling (new {}).powerOn).1.board.lcd.raster.InStep
        (play meddling (new {}).powerOn).1.cpu.clockCycles :=
  have hops op hop := (meddling_keepsClockCycles op hop).2
  ⟨hops, inStep_of_play (new {}) hops⟩

/-- What the renderer has been given since power-on is what was due by then. -/
theorem rendered_of_play (c : Console) (hops : ∀ op ∈ ops, ¬ op.Restarts ∧ op.KeepsClockCycles) :
    Rendered [] (play ops c.powerOn).1.cpu (play ops c.powerOn).1.board
      (pictures (play ops c.powerOn).2) := by
  refine play_induction (P := fun c events => Rendered [] c.cpu c.board (pictures events))
    (fun op hop c events h => ?_) (powerOn_rendered c)
  obtain ⟨hrestarts, hclock⟩ := hops op hop
  rw [← List.append_nil (pictures events), rendered_append] at h
  rw [pictures_append, rendered_append]
  exact h.perform hrestarts hclock

/-- From power-on, the renderer is given each visible line 252 clock cycles after it began and each
    frame as line 144 begins, in order of time and nothing else. -/
theorem onSchedule_of_play (c : Console) (hops : ∀ op ∈ ops, ¬ op.Restarts ∧ op.KeepsClockCycles) :
    Raster.OnSchedule (play ops c.powerOn).1.cpu.clockCycles
      ((pictures (play ops c.powerOn).2).map Picture.finish) := by
  have hgiven := (rendered_of_play c hops).2
  rw [List.nil_append] at hgiven
  rw [hgiven]
  exact Raster.dueAfter_onSchedule _

theorem onSchedule_after_meddling :
    (∀ op ∈ meddling, ¬ op.Restarts ∧ op.KeepsClockCycles) ∧
      Raster.OnSchedule (play meddling (new {}).powerOn).1.cpu.clockCycles
        ((pictures (play meddling (new {}).powerOn).2).map Picture.finish) :=
  ⟨meddling_keepsClockCycles, onSchedule_of_play (new {}) meddling_keepsClockCycles⟩

end Console

end Handheld
