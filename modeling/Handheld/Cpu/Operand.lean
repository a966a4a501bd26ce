import Handheld.Cpu.Circuit

namespace Handheld.Exec

variable {β : Type} [Bus β]

/-- Reads the byte at the program counter and moves past it. A failed read moves nothing. -/
@[specialize]
def fetch8 : Exec β UInt8 := do
  let v ← read8 (← regs).pc
  modifyRegs fun r => { r with pc := r.pc + 1 }
  return v

/-- Reads the word at the program counter, low byte first, and moves past it. -/
@[specialize]
def fetch16 : Exec β UInt16 := do
  let lo ← fetch8
  let hi ← fetch8
  return Word.ofBytes hi lo

@[specialize]
def readSlot : Slot → Exec β UInt8
  | .reg r => return (← regs).get r
  | .atHl => do read8 (← regs).hl

@[specialize]
def writeSlot (s : Slot) (v : UInt8) : Exec β Unit :=
  match s with
  | .reg r => modifyRegs (·.set r v)
  | .atHl => do write8 (← regs).hl v

@[specialize]
def readOperand : Operand → Exec β UInt8
  | .slot s => readSlot s
  | .imm => fetch8

/-- The address a pointer means. `HL` moves, if it is to move, before the address is used. -/
@[specialize]
def address : Pointer → Exec β UInt16
  | .bc => return (← regs).getWord .bc
  | .de => return (← regs).getWord .de
  | .hlInc => do
    let hl := (← regs).hl
    modifyRegs (·.setWord .hl (hl + 1))
    return hl
  | .hlDec => do
    let hl := (← regs).hl
    modifyRegs (·.setWord .hl (hl - 1))
    return hl
  | .highImm => return Word.highPage (← fetch8)
  | .highC => return Word.highPage (← regs).c
  | .absolute => fetch16

/-- Stores a word below the stack pointer, which moves there once the word is stored. -/
@[specialize]
def pushWord (w : UInt16) : Exec β Unit := do
  let sp := (← regs).sp - 2
  onBus (Bus.write16 sp w)
  modifyRegs fun r => { r with sp }

/-- Takes the word at the stack pointer, which moves up once the word is read. -/
@[specialize]
def popWord : Exec β UInt16 := do
  let w ← onBus (Bus.read16 (← regs).sp)
  modifyRegs fun r => { r with sp := r.sp + 2 }
  return w

end Handheld.Exec

namespace Handheld

/-- A branch with this condition is taken when the flags are `f`. -/
def Cond.holds (cond : Cond) (f : Flags) : Bool :=
  match cond with
  | .always => true
  | .nz => !f.zero
  | .z => f.zero
  | .nc => !f.carry
  | .c => f.carry

end Handheld
