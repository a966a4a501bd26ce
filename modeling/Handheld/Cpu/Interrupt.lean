import Handheld.Cpu.Operand

namespace Handheld.Exec

variable {β : Type} [Bus β]

/-- The sources that are enabled and requested. -/
@[specialize]
def pending : Exec β Interrupts := do
  let enabled ← read8 Interrupts.enableAddr
  let requested ← read8 Interrupts.requestAddr
  return .ofByte (enabled &&& requested)

/-- Takes the request for v-blank back. -/
@[specialize]
def acknowledge : Exec β Unit := do
  let requested ← read8 Interrupts.requestAddr
  write8 Interrupts.requestAddr (requested &&& 0xFE)

/-- Enters the v-blank routine. The request is acknowledged and the registers are put aside only
    once the return address is on the stack. -/
@[specialize]
def enterRoutine : Exec β Unit := do
  let pc := (← regs).pc
  pushWord pc
  acknowledge
  modifyCpu Cpu.enterInterrupt
  report (.interruptEntry pc)

/-- Enters the v-blank routine if interrupts are accepted and that source is pending, and tells
    whether it does; no other source has a routine. -/
@[specialize]
def dispatch : Exec β Bool := do
  if (← regs).ime then
    let sources ← pending
    if sources.vblank then
      enterRoutine
      return true
    else
      return false
  else
    return false

end Handheld.Exec
