import Handheld.Board.Basic

namespace Handheld.Board

/-- The value of a register of the input/output page. -/
def readRegister (b : Board) : IoRegister → UInt8
  | .joypad => b.joypad.read
  | .div => b.timer.div
  | .tima => b.timer.tima
  | .tma => b.timer.tma
  | .tac => b.timer.tac
  | .interruptRequest => b.requested.toByte
  | .lcdc => b.lcd.regs.lcdc
  | .stat => b.lcd.stat
  | .scy => b.lcd.regs.scy
  | .scx => b.lcd.regs.scx
  | .ly => b.lcd.ly
  | .lyc => b.lcd.regs.lyc
  | .dma => b.dmaPage
  | .bgp => b.lcd.regs.bgp
  | .obp0 => b.lcd.regs.obp0
  | .obp1 => b.lcd.regs.obp1
  | .wy => b.lcd.regs.wy
  | .wx => b.lcd.regs.wx
  | .unmapped => 0

/-- Where in external memory an address of its window lies, if external memory answers. -/
def externalOffset? (b : Board) (addr : UInt16) : Option Nat :=
  if b.mapper.ramEnabled then some (b.mapper.ramOffset + addr.toNat % 0x2000) else none

/-- The byte at an address, as the processor reads it. -/
def read8 (b : Board) (addr : UInt16) : Except Fault UInt8 :=
  match Region.of addr with
  | .romFixed =>
    if b.overlay && addr < 0x100 then b.boot.read8 addr.toNat else b.rom.read8 addr.toNat
  | .romBanked => b.rom.read8 (b.mapper.romOffset + addr.toNat % 0x4000)
  | .videoRam => b.lcd.vram.read8 addr.toNat
  | .externalRam =>
    match b.externalOffset? addr with
    | some offset => b.externalRam.read8 offset
    | none => .ok 0xFF
  | .workRam => b.workRam.read8 addr.toNat
  | .echo => b.workRam.read8 (addr.toNat - 0x2000)
  | .oam => b.lcd.oam.read8 addr.toNat
  | .unusable => .ok 0
  | .io => .ok (b.readRegister (.of addr))
  | .zeroPage => b.zeroPage.read8 addr.toNat
  | .interruptEnable => .ok b.enabled

/-- The bytes that a transfer from a page would bring into object memory. -/
def readPage (b : Board) (page : UInt8) : Except Fault (Array UInt8) :=
  (Array.range oamSize).mapM fun i => b.read8 (Word.pageStart page + UInt16.ofNat i)

/-- Copies the start of a page into object memory, all at once or not at all. -/
def transfer (page : UInt8) : Access Board Unit := fun b =>
  match b.readPage page with
  | .ok bytes =>
    .ok () { b with lcd := { b.lcd with oam := b.lcd.oam.load bytes }, dmaPage := page }
  | .error e => .error e b

/-- Changes the display's registers. -/
@[inline]
def modifyLcd (b : Board) (f : Lcd.Registers → Lcd.Registers) : Board :=
  { b with lcd := { b.lcd with regs := f b.lcd.regs } }

/-- A write to a register that starts no transfer. The line register and the live bits of the
    status register ignore it. -/
def setRegister (b : Board) (reg : IoRegister) (v : UInt8) : Board :=
  match reg with
  | .joypad => { b with joypad := b.joypad.write v }
  | .div => { b with timer := b.timer.clearDiv }
  | .tima => { b with timer := { b.timer with tima := v } }
  | .tma => { b with timer := { b.timer with tma := v } }
  | .tac => { b with timer := b.timer.setTac v }
  | .interruptRequest => { b with requested := .ofByte v }
  | .lcdc => b.modifyLcd fun r => { r with lcdc := v }
  | .stat => b.modifyLcd fun r => { r with statSelect := v &&& 0x78 }
  | .scy => b.modifyLcd fun r => { r with scy := v }
  | .scx => b.modifyLcd fun r => { r with scx := v }
  | .lyc => b.modifyLcd fun r => { r with lyc := v }
  | .bgp => b.modifyLcd fun r => { r with bgp := v }
  | .obp0 => b.modifyLcd fun r => { r with obp0 := v }
  | .obp1 => b.modifyLcd fun r => { r with obp1 := v }
  | .wy => b.modifyLcd fun r => { r with wy := v }
  | .wx => b.modifyLcd fun r => { r with wx := v }
  | .ly | .dma | .unmapped => b

/-- Writes a register of the input/output page; the transfer register starts a transfer. -/
def writeRegister (reg : IoRegister) (v : UInt8) : Access Board Unit :=
  match reg with
  | .dma => transfer v
  | _ => fun b => .ok () (b.setRegister reg v)

/-- Writes into video memory. -/
@[inline]
def onVideoRam : Access MemoryBank Unit → Access Board Unit :=
  Access.zoom (fun b => b.lcd.vram) fun m b => { b with lcd := { b.lcd with vram := m } }

/-- Writes into object memory. -/
@[inline]
def onOam : Access MemoryBank Unit → Access Board Unit :=
  Access.zoom (fun b => b.lcd.oam) fun m b => { b with lcd := { b.lcd with oam := m } }

/-- Writes into external memory. -/
@[inline]
def onExternalRam : Access MemoryBank Unit → Access Board Unit :=
  Access.zoom (fun b => b.externalRam) fun m b => { b with externalRam := m }

/-- Writes into work memory. -/
@[inline]
def onWorkRam : Access MemoryBank Unit → Access Board Unit :=
  Access.zoom (fun b => b.workRam) fun m b => { b with workRam := m }

/-- Writes into the zero page. -/
@[inline]
def onZeroPage : Access MemoryBank Unit → Access Board Unit :=
  Access.zoom (fun b => b.zeroPage) fun m b => { b with zeroPage := m }

/-- Writes a byte at an address, as the processor does. -/
def write8 (addr : UInt16) (v : UInt8) : Access Board Unit :=
  match Region.of addr with
  | .romFixed | .romBanked => fun b => .ok () { b with mapper := b.mapper.control addr v }
  | .videoRam => onVideoRam (MemoryBank.write8 addr.toNat v)
  | .externalRam => fun b =>
    match b.externalOffset? addr with
    | some offset => onExternalRam (MemoryBank.write8 offset v) b
    | none => .ok () b
  | .workRam => onWorkRam (MemoryBank.write8 addr.toNat v)
  | .echo => onWorkRam (MemoryBank.write8 (addr.toNat - 0x2000) v)
  | .oam => onOam (MemoryBank.write8 addr.toNat v)
  | .unusable => fun b => .ok () b
  | .io => writeRegister (.of addr) v
  | .zeroPage => onZeroPage (MemoryBank.write8 addr.toNat v)
  | .interruptEnable => fun b => .ok () { b with enabled := v }

/-- Fails as a write would. Only two kinds of write can: into a window of external memory, and
    one that starts a transfer from a page that cannot be read. -/
def checkWrite (b : Board) (addr : UInt16) (v : UInt8) : Except Fault Unit :=
  match Region.of addr with
  | .externalRam =>
    match b.externalOffset? addr with
    | some offset => b.externalRam.check offset
    | none => .ok ()
  | .io =>
    match IoRegister.of addr with
    | .dma => (b.readPage v).map fun _ => ()
    | _ => .ok ()
  | _ => .ok ()

/-- Writes a word, low byte first. The high byte's write is tried out before anything is written,
    so that a refused word leaves no half behind. -/
def write16 (addr : UInt16) (w : UInt16) : Access Board Unit := do
  Access.observe fun b => b.checkWrite (addr + 1) (Word.hi w)
  write8 addr (Word.lo w)
  write8 (addr + 1) (Word.hi w)

end Handheld.Board
