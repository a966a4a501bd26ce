import Handheld.Lcd.View
import Handheld.Memory.Bank

namespace Handheld

/-- The registers that programs set. -/
structure Lcd.Registers where
  lcdc : UInt8 := 0
  /-- The interrupt choices of the status register, bits 3 to 6. -/
  statSelect : UInt8 := 0
  scy : UInt8 := 0
  scx : UInt8 := 0
  lyc : UInt8 := 0
  bgp : UInt8 := 0
  obp0 : UInt8 := 0
  obp1 : UInt8 := 0
  wy : UInt8 := 0
  wx : UInt8 := 0
  deriving DecidableEq, Repr, Inhabited

/-- The display controller. -/
structure Lcd where
  raster : Raster := {}
  regs : Lcd.Registers := {}
  vram : MemoryBank := .zeroed "vram" 0x2000 0x8000
  oam : MemoryBank := .zeroed "oam" 0xA0 0xFE00
  deriving DecidableEq, Repr, Inhabited

namespace Lcd

/-- The power-on state. Both memories are cleared. -/
def reset (l : Lcd) : Lcd where
  vram := l.vram.clear
  oam := l.oam.clear

/-- The line register `LY`. -/
def ly (l : Lcd) : UInt8 :=
  UInt8.ofNat l.raster.line

/-- The status register: bit 7 is set, bits 3 to 6 are the choices written, bit 2 tells that the
    line is the one asked for in `LYC`, and bits 0 and 1 give the mode. -/
def stat (l : Lcd) : UInt8 :=
  0x80 ||| l.regs.statSelect ||| (if l.ly = l.regs.lyc then 0x04 else 0) ||| l.raster.mode.number

/-- The registers and memories together with a mode and a line. -/
def viewAt (l : Lcd) (mode : Mode) (line : Nat) : View where
  line := line
  mode := mode
  lcdc := l.regs.lcdc
  scx := l.regs.scx
  scy := l.regs.scy
  wx := l.regs.wx
  wy := l.regs.wy
  bgp := l.regs.bgp
  obp0 := l.regs.obp0
  obp1 := l.regs.obp1
  vram := l.vram.data
  oam := l.oam.data

/-- The display as it was when a signal was given. -/
def viewOf (l : Lcd) : Raster.Signal → View
  | .scanline line => l.viewAt .hBlank line
  | .frame _ => l.viewAt .vBlank Raster.vblankLine

/-- Lets clock cycles pass. Only the timing changes. -/
def advance (cycles : Nat) (l : Lcd) : Lcd × List Raster.Signal :=
  let (raster, signals) := l.raster.advance cycles
  ({ l with raster }, signals)

end Lcd

end Handheld
