import Handheld.Board.Basic
import Handheld.Board.Notice
import Handheld.Cpu.Notice
import Handheld.Text.Quoted

namespace Handheld

/-- An occurrence that the console as a whole reports. -/
inductive Console.Notice
  /-- The boot image has this many bytes, too many to be mapped. -/
  | bootImageTooLong (size : Nat)
  | inserted (size : Nat) (typeCode : UInt8) (scheme : Cartridge.Scheme) (title : String)
  | reset
  | runStart (pc : UInt16)
  | runCancelled (frames : Nat)
  | runStopped (pc : UInt16) (frames : Nat)
  | runFailed (fault : Fault)
  deriving DecidableEq, Repr, Inhabited

namespace Console.Notice

/-- The report of what cartridge was found. -/
def ofCartridge (c : Cartridge) : Console.Notice :=
  .inserted c.image.size c.typeCode c.scheme c.title

def level : Console.Notice → Log.Level
  | .bootImageTooLong _ => .warn
  | _ => .info

def message : Console.Notice → String
  | .bootImageTooLong size =>
    s!"Boot image is {size} bytes, only the first {Board.bootSize} are mapped"
  | .inserted size typeCode scheme title =>
    s!"Cartridge: {size} bytes, type 0x{Hex.byte typeCode} ({scheme.text}), " ++
      s!"title {Quoted.encode title}"
  | .reset => "Machine reset"
  | .runStart pc => s!"Run loop start at PC=0x{Hex.word pc}"
  | .runCancelled frames => s!"Run loop exit: cancelled after {frames} frames"
  | .runStopped pc frames =>
    s!"Run loop exit: CPU stopped at PC=0x{Hex.word pc} after {frames} frames"
  | .runFailed fault => s!"Run loop exit: {fault.message}"

/-- The log record of a notice. -/
def record (n : Console.Notice) : Log.Record :=
  ⟨n.level, .machine, n.message⟩

end Console.Notice

/-- An occurrence that some part of the console reports. -/
inductive Notice
  | cpu (n : Cpu.Notice)
  | board (n : Board.Notice)
  | console (n : Console.Notice)
  deriving DecidableEq, Repr, Inhabited

/-- The log record of a notice. -/
def Notice.record : Notice → Log.Record
  | .cpu n => n.record
  | .board n => n.record
  | .console n => n.record

/-- What a console lets the outside know. -/
inductive Event
  | notice (n : Notice)
  /-- A line of the picture is finished. -/
  | scanline (view : View)
  /-- A frame is finished. -/
  | frame (view : View)
  deriving DecidableEq, Repr, Inhabited

end Handheld
