namespace Handheld

/-- What the display is doing, numbered as its status register reports it. -/
inductive Lcd.Mode
  | hBlank | vBlank | oamScan | pixelTransfer
  deriving DecidableEq, Repr, Inhabited

namespace Lcd.Mode

def number : Mode → UInt8
  | .hBlank => 0
  | .vBlank => 1
  | .oamScan => 2
  | .pixelTransfer => 3

/-- Clock cycles until the display leaves the mode or, in v-blank, the line. -/
def budget : Mode → Nat
  | .oamScan => 80
  | .pixelTransfer => 172
  | .hBlank => 204
  | .vBlank => 456

def text : Mode → String
  | .hBlank => "HBlank"
  | .vBlank => "VBlank"
  | .oamScan => "OamScan"
  | .pixelTransfer => "PixelTransfer"

theorem budget_pos (m : Mode) : 0 < m.budget := by
  cases m <;> decide

end Lcd.Mode

/-- How far the display has got. -/
structure Raster where
  mode : Lcd.Mode := .oamScan
  /-- Clock cycles spent in the mode. -/
  clock : Nat := 0
  line : Nat := 0
  /-- Frames finished since power-on. -/
  frames : Nat := 0
  deriving DecidableEq, Repr, Inhabited

namespace Raster

/-- The first line of v-blank. -/
def vblankLine : Nat := 144

/-- The last line of a frame. -/
def lastLine : Nat := 153

/-- Clock cycles of a frame. -/
def cyclesPerFrame : Nat := 456 * (lastLine + 1)

/-- What the display has finished. -/
inductive Signal
  /-- All pixels of a line are out. -/
  | scanline (line : Nat)
  /-- The last visible line is done, and with it the frame of this number. -/
  | frame (number : Nat)
  deriving DecidableEq, Repr, Inhabited

/-- What follows when the mode has used up its budget. -/
def next (r : Raster) : Raster × Option Signal :=
  match r.mode with
  | .oamScan => ({ r with mode := .pixelTransfer }, none)
  | .pixelTransfer => ({ r with mode := .hBlank }, some (.scanline r.line))
  | .hBlank =>
    if r.line + 1 = vblankLine then
      ({ r with mode := .vBlank, line := r.line + 1, frames := r.frames + 1 },
        some (.frame (r.frames + 1)))
    else ({ r with mode := .oamScan, line := r.line + 1 }, none)
  | .vBlank =>
    if r.line = lastLine then ({ r with mode := .oamScan, line := 0 }, none)
    else ({ r with line := r.line + 1 }, none)

/-- Takes the mode's budget off the clock. -/
def spend (r : Raster) : Raster :=
  { r with clock := r.clock - r.mode.budget }

theorem next_clock (r : Raster) : r.next.1.clock = r.clock := by
  unfold next
  split
  · rfl
  · rfl
  · split <;> rfl
  · split <;> rfl

/-- Moves on until the clock is within the mode's budget; the signals come in order of time. -/
def settle (r : Raster) : Raster × List Signal :=
  if _ : r.mode.budget ≤ r.clock then
    let turn := r.spend.next
    let rest := settle turn.1
    (rest.1, turn.2.toList ++ rest.2)
  else (r, [])
termination_by r.clock
decreasing_by
  have := r.mode.budget_pos
  simp only [next_clock, spend]
  omega

/-- Lets clock cycles pass. Any number of modes may end; what is left over counts for the next. -/
def advance (cycles : Nat) (r : Raster) : Raster × List Signal :=
  { r with clock := r.clock + cycles }.settle

end Raster

end Handheld
