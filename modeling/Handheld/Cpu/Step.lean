import Handheld.Cpu.Execute
import Handheld.Cpu.Interrupt

namespace Handheld.Exec

variable {β : Type} [Bus β]

/-- Notes the cost of what just ran. -/
@[inline]
def setCost (cycles : Nat) : Exec β Unit :=
  modifyRegs fun r => r.setCost cycles

/-- Lets time pass for the processor's clock and for the devices on the bus. -/
@[specialize]
def elapse (cycles : Nat) : Exec β Unit := do
  modifyCpu fun cpu => cpu.advanceClock cycles
  modifyBus (Bus.tick cycles)

/-- Executes what the opcode fetched from `pc` stands for; the result is its cost. -/
@[specialize]
def perform (pc : UInt16) (opcode : UInt8) : Exec β Nat := do
  match Opcode.decode opcode with
  | .plain i =>
    i.execute
    return i.cycles
  | .branch b =>
    let taken ← b.execute
    return b.cycles + if taken then b.takenCycles else 0
  | .extension =>
    let i := Extended.decode (← fetch8)
    i.execute
    return i.cycles
  | .undefined =>
    modifyCpu Cpu.stop
    report (.illegalOpcode pc opcode (← regs))
    throw (.illegalOpcode opcode pc)

/-- Fetches and executes the instruction at the program counter. -/
@[specialize]
def runInstruction : Exec β Nat := do
  let pc := (← regs).pc
  let opcode ← fetch8
  if (← cpu).trace then
    report (.executing pc opcode)
  let cycles ← perform pc opcode
  setCost cycles
  return cycles

/-- An idle cycle of a parked processor, which an enabled request ends. -/
@[specialize]
def idle : Exec β Nat := do
  let sources ← pending
  if !sources.isEmpty then
    modifyCpu fun cpu => { cpu with halted := false }
  setCost 1
  return 1

/-- What follows the instruction of a step: an interrupt entry, unless the instruction stopped the
    processor. The result is the time it takes, zero if there is none. -/
@[specialize]
def finishStep : Exec β Nat := do
  if (← cpu).stopped then
    return 0
  else if ← dispatch then
    elapse Interrupts.entryCycles
    return Interrupts.entryCycles
  else
    return 0

/-- One step. The result is the number of machine cycles it took, an interrupt entry included; a
    stopped processor takes none and leaves the bus alone. -/
@[specialize]
def step : Exec β Nat := do
  if (← cpu).stopped then
    return 0
  else
    modifyBus (Bus.beginStep (← regs).pc)
    let cycles ← if (← cpu).halted then idle else runInstruction
    elapse cycles
    return cycles + (← finishStep)

end Handheld.Exec
