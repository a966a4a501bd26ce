import Handheld.Board.Basic

namespace Handheld

/-- What came of a stretch of time. -/
structure Board.Passed where
  /-- Overflows of the timer's counter. -/
  overflows : Nat
  /-- What the display finished, in order. -/
  signals : List Raster.Signal
  deriving DecidableEq, Repr, Inhabited

/-- The signal ends a frame. -/
def Raster.Signal.isFrame : Raster.Signal → Bool
  | .scanline _ => false
  | .frame _ => true

namespace Board

/-- Lets machine cycles pass: the timer first, then the display, which runs on clock cycles. Each
    requests its interrupt when it has cause. -/
def advance (cycles : Nat) (b : Board) : Board × Passed :=
  let (timer, overflows) := b.timer.advance cycles
  let (lcd, signals) := b.lcd.advance (4 * cycles)
  let requested :=
    { b.requested with
      timer := b.requested.timer || 0 < overflows
      vblank := b.requested.vblank || signals.any (·.isFrame) }
  ({ b with timer, lcd, requested }, ⟨overflows, signals⟩)

end Board

end Handheld
