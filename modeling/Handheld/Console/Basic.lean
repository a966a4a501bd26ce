import Handheld.Board.Observed
import Handheld.Cpu.Step

namespace Handheld

/-- A complete machine. -/
structure Console where
  cpu : Cpu
  board : Board
  cartridge : Option Cartridge
  config : Config

/-- What an operation on a console comes to. -/
structure Reply (α : Type) where
  console : Console
  result : Except Fault α
  /-- What happened meanwhile, oldest first. -/
  events : Array Event := #[]

/-- The warnings that a configuration deserves. -/
def Config.warnings (config : Config) : Array Event :=
  match config.bootImage with
  | some image =>
    if Board.bootSize < image.size then #[.notice (.console (.bootImageTooLong image.size))]
    else #[]
  | none => #[]

namespace Console

/-- The scheme of the inserted cartridge; without one nothing switches banks. -/
def scheme (c : Console) : Cartridge.Scheme :=
  match c.cartridge with
  | some cartridge => cartridge.scheme
  | none => .romOnly

/-- Brings every part to its power-on state. The cartridge stays in. -/
def powerOn (c : Console) : Console :=
  let cpu := { c.cpu.reset with trace := c.config.trace }
  { c with
    cpu := if c.config.skipBoot then cpu.afterBoot else cpu
    board := c.board.reset c.scheme }

/-- A machine without a cartridge, switched on. -/
def new (config : Config) : Console :=
  powerOn { cpu := {}, board := .new config, cartridge := none, config }

/-- Makes a machine and says what is odd about its configuration. -/
def switchOn (config : Config) : Reply Unit :=
  ⟨new config, .ok (), config.warnings⟩

/-- Resets the machine. -/
def reset (c : Console) : Reply Unit :=
  ⟨c.powerOn, .ok (), #[.notice (.console .reset)]⟩

/-- The machine with a cartridge put in, before it is reset. -/
def insert (c : Console) (cartridge : Cartridge) : Console :=
  { c with board := c.board.insert cartridge, cartridge := some cartridge }

/-- Puts in a cartridge and resets the machine. -/
def load (c : Console) (cartridge : Cartridge) : Reply Unit :=
  ⟨(c.insert cartridge).powerOn, .ok (),
    #[.notice (.console (.ofCartridge cartridge)), .notice (.console .reset)]⟩

/-- Runs an operation of the processor and the board. -/
@[inline]
def exec {α : Type} (c : Console) (act : Exec Observed α) : Reply α :=
  match act ⟨c.cpu, ⟨c.board, #[]⟩⟩ with
  | .ok a s => ⟨{ c with cpu := s.cpu, board := s.bus.board }, .ok a, s.bus.events⟩
  | .error e s => ⟨{ c with cpu := s.cpu, board := s.bus.board }, .error e, s.bus.events⟩

/-- One step: an instruction or idle cycle, the time it takes and an interrupt that may follow. A
    fault stops the processor for good. -/
def step (c : Console) : Reply Nat :=
  let r := c.exec Exec.step
  match r.result with
  | .ok _ => r
  | .error _ => { r with console := { r.console with cpu := r.console.cpu.stop } }

/-- Reads a byte as the processor would. -/
def read8 (c : Console) (addr : UInt16) : Reply UInt8 :=
  c.exec (Exec.read8 addr)

/-- Writes a byte as the processor would. -/
def write8 (c : Console) (addr : UInt16) (v : UInt8) : Reply Unit :=
  c.exec (Exec.write8 addr v)

/-- Presses or releases a button. -/
def setButton (c : Console) (button : Button) (pressed : Bool) : Console :=
  { c with board := c.board.setButton button pressed }

/-- Raises the processor's stop flag. -/
def stop (c : Console) : Console :=
  { c with cpu := c.cpu.stop }

/-- Frames finished since power-on. -/
def frames (c : Console) : Nat :=
  c.board.lcd.raster.frames

end Console

end Handheld
