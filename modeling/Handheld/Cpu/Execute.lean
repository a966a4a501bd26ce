import Handheld.Cpu.Alu
import Handheld.Cpu.Operand

namespace Handheld

open Exec

variable {β : Type} [Bus β]

namespace Exec

/-- Replaces the byte in a slot by a function of it and the flags, which are set before the byte
    is written back. -/
@[specialize]
def updateSlot (s : Slot) (f : UInt8 → Flags → UInt8 × Flags) : Exec β Unit := do
  let v ← readSlot s
  let (result, flags) := f v (← regs).f
  modifyRegs fun r => { r with f := flags }
  writeSlot s result

/-- Continues at `target`. -/
@[inline]
def jumpTo (target : UInt16) : Exec β Unit :=
  modifyRegs fun r => { r with pc := target }

/-- Pushes the address of the next instruction and continues at `target`. -/
@[specialize]
def callTo (target : UInt16) : Exec β Unit := do
  pushWord (← regs).pc
  jumpTo target

/-- Continues at the address on the stack. -/
@[specialize]
def returnToCaller : Exec β Unit := do
  let target ← popWord
  jumpTo target

/-- Takes an action if the flags meet a condition, and tells whether they do. -/
@[inline]
def whenHolds (cond : Cond) (act : Exec β Unit) : Exec β Bool := do
  if cond.holds (← regs).f then
    act
    return true
  else
    return false

end Exec

/-- Executes an instruction. -/
@[specialize]
def Instr.execute : Instr → Exec β Unit
  | .nop => pure ()
  | .stop => do
    -- The instruction is two bytes long; the second is skipped unread.
    modifyCpu fun cpu =>
      { cpu with regs := { cpu.regs with pc := cpu.regs.pc + 1 }, stopped := true }
    report (.stop ((← regs).pc - 2))
  | .halt => modifyCpu fun cpu => { cpu with halted := true }
  | .di => modifyRegs fun r => { r with ime := false }
  | .ei => modifyRegs fun r => { r with ime := true }
  | .ld dst src => do
    writeSlot dst (← readOperand src)
  | .ldWord dst => do
    let w ← fetch16
    modifyRegs (·.setWord dst w)
  | .storeA dst => do
    let addr ← address dst
    write8 addr (← regs).a
  | .loadA src => do
    let v ← read8 (← address src)
    modifyRegs fun r => { r with a := v }
  | .storeSp => do
    let addr ← fetch16
    onBus (Bus.write16 addr (← regs).sp)
  | .ldSpHl => modifyRegs fun r => { r with sp := r.hl }
  | .ldHlSpOffset => do
    let e ← fetch8
    modifyRegs fun r =>
      let (w, f) := Alu.addOffset r.sp e
      { r.setWord .hl w with f }
  | .addSpOffset => do
    let e ← fetch8
    modifyRegs fun r =>
      let (w, f) := Alu.addOffset r.sp e
      { r with sp := w, f }
  | .alu op src => do
    let v ← readOperand src
    modifyRegs fun r => r.setAccumulator (Alu.apply op r.a r.f v)
  | .inc s => updateSlot s Alu.inc
  | .dec s => updateSlot s Alu.dec
  | .incWord reg => modifyRegs fun r => r.setWord reg (r.getWord reg + 1)
  | .decWord reg => modifyRegs fun r => r.setWord reg (r.getWord reg - 1)
  | .addHl reg =>
    modifyRegs fun r =>
      let (w, f) := Alu.addWord r.hl (r.getWord reg) r.f
      { r.setWord .hl w with f }
  | .rotateA s =>
    modifyRegs fun r =>
      let (v, f) := Alu.shift s r.a r.f
      r.setAccumulator (v, { f with zero := false })
  | .daa => modifyRegs fun r => r.setAccumulator (Alu.daa r.a r.f)
  | .cpl =>
    modifyRegs fun r =>
      r.setAccumulator (~~~r.a, { r.f with subtract := true, halfCarry := true })
  | .scf =>
    modifyRegs fun r =>
      { r with f := { r.f with subtract := false, halfCarry := false, carry := true } }
  | .ccf =>
    modifyRegs fun r =>
      { r with f := { r.f with subtract := false, halfCarry := false, carry := !r.f.carry } }
  | .jpHl => modifyRegs fun r => { r with pc := r.hl }
  | .reti => do
    returnToCaller
    modifyCpu Cpu.leaveInterrupt
  | .rst vector => callTo vector
  | .push reg => do
    pushWord ((← regs).getWord reg)
  | .pop reg => do
    let w ← popWord
    modifyRegs (·.setWord reg w)

/-- Executes a branch and tells whether it was taken. What an untaken branch names is fetched all
    the same. -/
@[specialize]
def Branch.execute : Branch → Exec β Bool
  | .jp cond => do
    let target ← fetch16
    whenHolds cond (jumpTo target)
  | .jr cond => do
    let e ← fetch8
    whenHolds cond (jumpTo ((← regs).pc + Word.signExtend e))
  | .call cond => do
    let target ← fetch16
    whenHolds cond (callTo target)
  | .ret cond => whenHolds cond returnToCaller

/-- Executes an extended instruction. -/
@[specialize]
def Extended.execute (i : Extended) : Exec β Unit :=
  match i.op with
  | .shift s => updateSlot i.target (Alu.shift s)
  | .bit n => do
    let v ← readSlot i.target
    modifyRegs fun r => { r with f := Alu.testBit n v r.f }
  | .res n => updateSlot i.target fun v f => (v &&& ~~~Alu.mask n, f)
  | .set n => updateSlot i.target fun v f => (v ||| Alu.mask n, f)

end Handheld
