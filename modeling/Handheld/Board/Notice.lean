import Handheld.Cartridge.Mapper
import Handheld.Fault

namespace Handheld

/-- An occurrence that the board reports. -/
inductive Board.Notice
  /-- An access was refused by the bank that should have answered. -/
  | refused (fault : Fault)
  | mapper (n : Mbc1.Notice)
  /-- Object memory was filled from the page that starts here. -/
  | transfer (source : UInt16)
  /-- The counter overflowed and restarted from this value. -/
  | timerOverflow (restart : UInt8)
  /-- The frame of this number was finished. -/
  | vblank (frame : Nat)
  | leftBootProgram
  deriving DecidableEq, Repr, Inhabited

namespace Board.Notice

def level : Board.Notice → Log.Level
  | .refused _ => .error
  | .mapper _ => .debug
  | .transfer _ | .timerOverflow _ | .vblank _ => .trace
  | .leftBootProgram => .info

def message : Board.Notice → String
  | .refused fault => fault.message
  | .mapper n => n.message
  | .transfer source => s!"MMU: OAM DMA from 0x{Hex.word source}"
  | .timerOverflow restart => s!"Timer: TIMA overflow, reload 0x{Hex.byte restart}"
  | .vblank frame => s!"GPU: v-blank, frame {frame}"
  | .leftBootProgram => "MMU: leaving boot overlay"

/-- The log record of a notice. -/
def record (n : Board.Notice) : Log.Record :=
  ⟨n.level, .machine, n.message⟩

end Board.Notice

end Handheld
