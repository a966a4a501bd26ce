namespace Handheld

/-- A set of interrupt sources. -/
structure Interrupts where
  vblank : Bool := false
  lcdStat : Bool := false
  timer : Bool := false
  serial : Bool := false
  joypad : Bool := false
  deriving DecidableEq, Repr, Inhabited

namespace Interrupts

/-- Address of the request register `IF`. -/
def requestAddr : UInt16 := 0xFF0F

/-- Address of the enable register `IE`. -/
def enableAddr : UInt16 := 0xFFFF

/-- Where the v-blank service routine starts. -/
def vblankVector : UInt16 := 0x0040

/-- Machine cycles that entering a service routine takes. -/
def entryCycles : Nat := 3

/-- The sources whose bits are set in `b`; bits 5 to 7 name none. -/
def ofByte (b : UInt8) : Interrupts where
  vblank := b &&& 0x01 != 0
  lcdStat := b &&& 0x02 != 0
  timer := b &&& 0x04 != 0
  serial := b &&& 0x08 != 0
  joypad := b &&& 0x10 != 0

/-- One bit per source, from v-blank in bit 0 to the joypad in bit 4. -/
def toByte (s : Interrupts) : UInt8 :=
  (if s.vblank then 0x01 else 0) ||| (if s.lcdStat then 0x02 else 0) |||
    (if s.timer then 0x04 else 0) ||| (if s.serial then 0x08 else 0) |||
    (if s.joypad then 0x10 else 0)

/-- No source at all. -/
def isEmpty (s : Interrupts) : Bool :=
  !(s.vblank || s.lcdStat || s.timer || s.serial || s.joypad)

/-- Every source. -/
def all : Interrupts := ⟨true, true, true, true, true⟩

@[simp]
theorem ofByte_toByte (s : Interrupts) : ofByte s.toByte = s := by
  rcases s with ⟨_ | _, _ | _, _ | _, _ | _, _ | _⟩ <;> rfl

end Interrupts

end Handheld
