import Handheld.Board.Region
import Handheld.Cartridge.Mapper
import Handheld.Interrupts
import Handheld.Joypad
import Handheld.Lcd.Basic
import Handheld.Timer

namespace Handheld

/-- How a console is set up. -/
structure Config where
  /-- The boot program. What is missing of its 256 bytes reads as zero, what is over is ignored. -/
  bootImage : Option (Array UInt8) := none
  /-- Start in the cartridge, as if the boot program had run. -/
  skipBoot : Bool := false
  /-- Report every instruction. -/
  trace : Bool := false
  deriving DecidableEq, Repr, Inhabited

/-- The devices that the processor reaches through its bus. -/
structure Board where
  boot : MemoryBank
  /-- The boot program covers the first page after a reset. -/
  bootsFirst : Bool
  /-- The boot program covers the first page now. -/
  overlay : Bool
  rom : MemoryBank
  mapper : Mapper
  externalRam : MemoryBank
  workRam : MemoryBank
  zeroPage : MemoryBank
  lcd : Lcd
  timer : Timer
  joypad : Joypad
  /-- The register `IE`, all of whose bits can be written and read. -/
  enabled : UInt8
  /-- The register `IF`. -/
  requested : Interrupts
  /-- The page of the latest transfer to object memory. -/
  dmaPage : UInt8
  deriving DecidableEq, Repr, Inhabited

namespace Board

/-- The bytes of the boot program that can be mapped. -/
def bootSize : Nat := 0x100

/-- The size of a bank of the cartridge's program. -/
def romBankSize : Nat := 0x4000

/-- The bytes of object memory, and of a transfer to it. -/
def oamSize : Nat := 0xA0

/-- A board without a cartridge. -/
def new (config : Config) : Board where
  boot := (MemoryBank.zeroed "boot" bootSize 0).load (config.bootImage.getD #[])
  bootsFirst := !config.skipBoot
  overlay := !config.skipBoot
  rom := .zeroed "rom" (2 * romBankSize) 0
  mapper := .romOnly
  externalRam := .zeroed "eram" 0x8000 0
  workRam := .zeroed "wram" 0x2000 0xC000
  zeroPage := .zeroed "zram" 0x7F 0xFF80
  lcd := {}
  timer := {}
  joypad := {}
  enabled := 0
  requested := {}
  dmaPage := 0

/-- The bytes that an image of `n` bytes takes up: whole banks, and at least two. -/
def romSize (n : Nat) : Nat :=
  max ((n + romBankSize - 1) / romBankSize * romBankSize) (2 * romBankSize)

/-- Maps a cartridge. Its controller starts afresh and external memory is cleared. -/
def insert (b : Board) (c : Cartridge) : Board :=
  { b with
    rom := .holding "rom" c.image (romSize c.image.size) 0
    mapper := .ofScheme c.scheme
    externalRam := b.externalRam.clear }

/-- The power-on state for a cartridge with the given scheme. The program itself is kept. -/
def reset (b : Board) (scheme : Cartridge.Scheme) : Board :=
  { b with
    overlay := b.bootsFirst
    mapper := .ofScheme scheme
    externalRam := b.externalRam.clear
    workRam := b.workRam.clear
    zeroPage := b.zeroPage.clear
    lcd := b.lcd.reset
    timer := {}
    joypad := {}
    enabled := 0
    requested := {}
    dmaPage := 0 }

/-- The processor begins a step at `pc`: the boot program gives way, for good, when the step
    begins at the cartridge's entry. -/
def beginStep (pc : UInt16) (b : Board) : Board :=
  { b with overlay := b.overlay && pc != 0x0100 }

/-- Presses or releases a button. A press requests the joypad's interrupt. -/
def setButton (b : Board) (button : Button) (pressed : Bool) : Board :=
  { b with
    joypad := b.joypad.set button pressed
    requested := { b.requested with joypad := b.requested.joypad || pressed } }

end Board

end Handheld
