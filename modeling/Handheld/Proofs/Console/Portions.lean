import Handheld.Proofs.Checked
import Handheld.Proofs.Console.Pace

namespace Handheld

namespace Observed

/-- What a signal gives rise to does not depend on the display's timing. -/
theorem signalEvents_withRaster (lcd : Lcd) (raster : Raster) :
    signalEvents { lcd with raster } = signalEvents lcd := by
  funext signal
  cases signal <;> rfl

/-- The frames among the events are those among the signals. -/
theorem framesIn_signalEvents (lcd : Lcd) (signals : List Raster.Signal) :
    framesIn (signals.flatMap (signalEvents lcd)).toArray =
      Raster.framesIn (signals.map Raster.Signal.finish) := by
  rw [framesIn_eq, pictures, finish_signalEvents]

end Observed

namespace Lcd

/-- Lets clock cycles pass for a display and the register `IF`, in which the display requests its
    interrupt when it finishes a frame. The events are what the renderer and the log are given. -/
def pass (cycles : Nat) (p : Lcd × Interrupts) : (Lcd × Interrupts) × Array Event :=
  let (lcd, signals) := p.1.advance cycles
  ((lcd, { p.2 with vblank := p.2.vblank || signals.any (·.isFrame) }),
    (signals.flatMap (Observed.signalEvents lcd)).toArray)

theorem pass_add (m n : Nat) (p : Lcd × Interrupts) :
    pass (m + n) p = ((pass n (pass m p).1).1, (pass m p).2 ++ (pass n (pass m p).1).2) := by
  unfold pass Lcd.advance
  simp only [Raster.advance_add, Observed.signalEvents_withRaster, List.any_append, Bool.or_assoc,
    List.flatMap_append, List.append_toArray]

/-- What becomes of a display and of `IF` in `n` clock cycles. -/
structure Passes (n : Nat) (p : Lcd × Interrupts) (q : (Lcd × Interrupts) × Array Event) :
    Prop where
  /-- The loop stops after at most one turn for every 80 cycles, and its turns give the events. It
      makes no difference that cycles are counted in 32 bits, if they fit in. -/
  turns : ∃ k ≤ (p.1.raster.clock + n) / 80, ∃ signals,
    Raster.Turns k { p.1.raster with clock := p.1.raster.clock + n } q.1.1.raster signals ∧
      q.2 = (signals.flatMap (Observed.signalEvents p.1)).toArray ∧
      (p.1.raster.clock + n < 2 ^ 32 → p.1.raster.advance? n = some (q.1.1.raster, signals))
  settled : q.1.1.raster.Settled
  frames : q.1.1.raster.frames = p.1.raster.frames + framesIn q.2
  /-- Of `IF` only the display's own bit may be set, and is if a frame is finished. -/
  requested : q.1.2 = { p.2 with vblank := p.2.vblank || decide (0 < framesIn q.2) }
  regs : q.1.1.regs = p.1.regs
  vram : q.1.1.vram = p.1.vram
  oam : q.1.1.oam = p.1.oam

theorem pass_passes {p : Lcd × Interrupts} (h : p.1.raster.Settled) (n : Nat) :
    Passes n p (pass n p) := by
  have hframes : framesIn (pass n p).2 =
      Raster.framesIn ((p.1.raster.advance n).2.map Raster.Signal.finish) :=
    Observed.framesIn_signalEvents _ _
  obtain ⟨k, hk, hturns⟩ := Raster.settle_turns { p.1.raster with clock := p.1.raster.clock + n }
  refine ⟨⟨k, hk, _, hturns, ?_, fun hclock => h.advance?_eq hclock⟩, h.advance n, ?_, ?_, rfl, rfl,
    rfl⟩
  · rw [← Observed.signalEvents_withRaster p.1]
    rfl
  · rw [hframes, ← Raster.advance_frames]
    rfl
  · simp only [hframes, Raster.framesIn_finish_pos_iff, Bool.decide_eq_true]
    rfl

/-- On the bus the display passes the time as it would on its own. The timer adds its request, and
    notices of no interest to the renderer. -/
theorem tick_display (n : Nat) (o : Observed) :
    (o.tick n).board.lcd = (pass (4 * n) (o.board.lcd, o.board.requested)).1.1 ∧
      (∃ timer, (o.tick n).board.requested =
        { (pass (4 * n) (o.board.lcd, o.board.requested)).1.2 with timer }) ∧
      pictures (o.tick n).events =
        pictures o.events ++ pictures (pass (4 * n) (o.board.lcd, o.board.requested)).2 := by
  refine ⟨rfl, ⟨_, rfl⟩, ?_⟩
  have hevents : (o.tick n).events =
      o.events ++ (Observed.timeEvents (o.board.advance n).1 (o.board.advance n).2).toArray := rfl
  rw [hevents, pictures_append, Observed.pictures_timeEvents]
  rfl

/-- However clock cycles are portioned out, what becomes of the display and of `IF`, and what the
    renderer is given, is a matter of their sum alone; so it is for the display of a board. -/
theorem portions_agree {l : Lcd} (h : l.raster.Settled) (i : Interrupts) :
    (∀ a b, pass (a + b) (l, i) =
      ((pass b (pass a (l, i)).1).1, (pass a (l, i)).2 ++ (pass b (pass a (l, i)).1).2)) ∧
    (∀ n, Passes n (l, i) (pass n (l, i))) ∧
    ∀ o : Observed, o.board.lcd = l → o.board.requested = i → ∀ n,
      (o.tick n).board.lcd = (pass (4 * n) (l, i)).1.1 ∧
      (∃ timer, (o.tick n).board.requested = { (pass (4 * n) (l, i)).1.2 with timer }) ∧
      pictures (o.tick n).events = pictures o.events ++ pictures (pass (4 * n) (l, i)).2 := by
  refine ⟨fun a b => pass_add a b (l, i), pass_passes h, ?_⟩
  rintro o rfl rfl n
  exact tick_display n o

/-- A display four clock cycles before its eighth frame is finished. -/
def nearlyDone : Lcd :=
  { raster := { mode := .hBlank, clock := 200, line := 143, frames := 7 } }

theorem portions_agree_nearlyDone :
    nearlyDone.raster.Settled ∧
      pass (3 + 70225) (nearlyDone, { joypad := true }) =
        ((pass 70225 (pass 3 (nearlyDone, { joypad := true })).1).1,
          (pass 3 (nearlyDone, { joypad := true })).2 ++
            (pass 70225 (pass 3 (nearlyDone, { joypad := true })).1).2) ∧
      Passes 4 (nearlyDone, { joypad := true }) (pass 4 (nearlyDone, { joypad := true })) ∧
      (pass 4 (nearlyDone, { joypad := true })).1.2 = { vblank := true, joypad := true } := by
  have hsettled : nearlyDone.raster.Settled := ⟨⟨nofun, fun _ => by decide⟩, by decide⟩
  obtain ⟨hsplit, hpasses, -⟩ := portions_agree hsettled { joypad := true }
  exact ⟨hsettled, hsplit 3 70225, hpasses 4, by decide +kernel⟩

end Lcd

end Handheld
