import Handheld.Cpu.Decode
import Handheld.Log.Level
import Handheld.Text.Hex

namespace Handheld

/-- An occurrence that the processor reports. -/
inductive Cpu.Notice
  /-- The opcode fetched from `pc` is about to be executed. -/
  | executing (pc : UInt16) (opcode : UInt8)
  /-- The opcode fetched from `pc` is undefined; `regs` are the registers after the fetch. -/
  | illegalOpcode (pc : UInt16) (opcode : UInt8) (regs : Registers)
  /-- A stop instruction at `pc` was executed. -/
  | stop (pc : UInt16)
  /-- The v-blank routine was entered while `pc` was next. -/
  | interruptEntry (pc : UInt16)
  deriving DecidableEq, Repr, Inhabited

namespace Cpu.Notice

def level : Cpu.Notice → Log.Level
  | .executing .. => .trace
  | .illegalOpcode .. => .error
  | .stop _ => .info
  | .interruptEntry _ => .trace

def message : Cpu.Notice → String
  | .executing pc opcode =>
    s!"{Hex.word pc}: {Hex.byte opcode} {(Opcode.decode opcode).text}"
  | .illegalOpcode pc opcode regs =>
    s!"CPU stopped: illegal opcode 0x{Hex.byte opcode} at PC=0x{Hex.word pc} " ++
      s!"(SP=0x{Hex.word regs.sp} AF=0x{Hex.word (regs.getWord .af)} " ++
      s!"BC=0x{Hex.word (regs.getWord .bc)} DE=0x{Hex.word (regs.getWord .de)} " ++
      s!"HL=0x{Hex.word (regs.getWord .hl)})"
  | .stop pc => s!"CPU: STOP at PC=0x{Hex.word pc}"
  | .interruptEntry pc => s!"CPU: v-blank interrupt entry from PC=0x{Hex.word pc}"

/-- The log record of a notice. -/
def record (n : Cpu.Notice) : Log.Record :=
  ⟨n.level, .cpu, n.message⟩

end Cpu.Notice

end Handheld
