import Handheld.Lcd.Raster

namespace Handheld

/-- A snapshot of the display. -/
structure View where
  line : Nat := 0
  mode : Lcd.Mode := .hBlank
  lcdc : UInt8 := 0
  scx : UInt8 := 0
  scy : UInt8 := 0
  wx : UInt8 := 0
  wy : UInt8 := 0
  bgp : UInt8 := 0
  obp0 : UInt8 := 0
  obp1 : UInt8 := 0
  /-- Video memory, from address `0x8000` on. -/
  vram : Array UInt8 := #[]
  /-- Object memory, from address `0xFE00` on. -/
  oam : Array UInt8 := #[]
  deriving DecidableEq, Repr, Inhabited

namespace View

/-- The display is on. -/
def lcdEnabled (v : View) : Bool :=
  v.lcdc &&& 0x80 != 0

/-- The background is shown. -/
def backgroundEnabled (v : View) : Bool :=
  v.lcdc &&& 0x01 != 0

/-- Where the background's tile map starts. -/
def tileMap (v : View) : UInt16 :=
  if v.lcdc &&& 0x08 != 0 then 0x9C00 else 0x9800

/-- Where the tile data start. From `0x8800` on, tiles have signed numbers. -/
def tileData (v : View) : UInt16 :=
  if v.lcdc &&& 0x10 != 0 then 0x8000 else 0x8800

/-- The byte of video memory at an absolute address, zero outside of it. -/
def vramByte (v : View) (addr : UInt16) : UInt8 :=
  if addr < 0x8000 then 0 else (v.vram[addr.toNat - 0x8000]?).getD 0

end View

end Handheld
