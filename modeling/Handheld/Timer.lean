namespace Handheld

/-- The timer's registers and the fractions of their next increments. -/
structure Timer where
  /-- The divider `DIV`, one more every sixteen ticks. -/
  div : UInt8 := 0
  /-- The counter `TIMA`. -/
  tima : UInt8 := 0
  /-- The value `TMA` that the counter restarts from after an overflow. -/
  tma : UInt8 := 0
  /-- The control register `TAC`, of which three bits exist. -/
  tac : UInt8 := 0
  /-- Machine cycles since the latest tick. -/
  subTicks : Nat := 0
  /-- Ticks since the counter's latest increment. -/
  sinceTima : Nat := 0
  /-- Ticks since the divider's latest increment. -/
  sinceDiv : Nat := 0
  deriving DecidableEq, Repr, Inhabited

namespace Timer

/-- Machine cycles in a tick. -/
def cyclesPerTick : Nat := 4

/-- Ticks between two increments of the divider. -/
def divPeriod : Nat := 16

/-- The counter runs. -/
def enabled (t : Timer) : Bool :=
  t.tac &&& 0x04 != 0

/-- Ticks between two increments of the counter. -/
def timaPeriod (t : Timer) : Nat :=
  match (t.tac &&& 0x03).toNat with
  | 0 => 64
  | 1 => 1
  | 2 => 4
  | _ => 16

/-- Writing the divider clears it, whatever is written. -/
def clearDiv (t : Timer) : Timer :=
  { t with div := 0 }

/-- Writes the control register; bits 3 to 7 are dropped. -/
def setTac (t : Timer) (v : UInt8) : Timer :=
  { t with tac := v &&& 0x07 }

/-- One tick of the divider. -/
def advanceDiv (t : Timer) : Timer :=
  if t.sinceDiv + 1 = divPeriod then { t with sinceDiv := 0, div := t.div + 1 }
  else { t with sinceDiv := t.sinceDiv + 1 }

/-- Increments the counter and tells whether it overflowed. -/
def incrementTima (t : Timer) : Timer × Bool :=
  if t.tima = 0xFF then ({ t with tima := t.tma }, true)
  else ({ t with tima := t.tima + 1 }, false)

/-- One tick of the counter, and whether it overflowed. -/
def advanceTima (t : Timer) : Timer × Bool :=
  if !t.enabled then (t, false)
  else if t.timaPeriod ≤ t.sinceTima + 1 then { t with sinceTima := 0 }.incrementTima
  else ({ t with sinceTima := t.sinceTima + 1 }, false)

/-- The given number of ticks, with the number of overflows. -/
def ticks : Nat → Timer → Timer × Nat
  | 0, t => (t, 0)
  | n + 1, t =>
    let (t, overflowed) := t.advanceDiv.advanceTima
    let (t, overflows) := ticks n t
    (t, overflowed.toNat + overflows)

/-- Lets machine cycles pass. The result tells how often the counter overflowed. -/
def advance (cycles : Nat) (t : Timer) : Timer × Nat :=
  let total := t.subTicks + cycles
  ticks (total / cyclesPerTick) { t with subTicks := total % cyclesPerTick }

end Timer

end Handheld
