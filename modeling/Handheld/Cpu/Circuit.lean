import Handheld.Cpu.Bus
import Handheld.Interrupts

namespace Handheld

/-- The processor. -/
structure Cpu where
  regs : Registers := .powerOn
  /-- Machine cycles since power-on. -/
  clock : Nat := 0
  /-- Clock cycles since power-on, which are counted apart. -/
  clockCycles : Nat := 0
  /-- Parked until an enabled interrupt is requested. -/
  halted : Bool := false
  /-- Stopped for good; steps do nothing until a reset. -/
  stopped : Bool := false
  /-- The registers put aside by the latest interrupt, until a return takes them back. -/
  saved : Option RegisterFile := none
  /-- Report every instruction. -/
  trace : Bool := false
  deriving DecidableEq, Repr, Inhabited

namespace Cpu

/-- The power-on state. Whether instructions are reported is a matter of setup and is kept. -/
def reset (cpu : Cpu) : Cpu :=
  { trace := cpu.trace }

/-- The state in which the boot program leaves the processor. -/
def afterBoot (cpu : Cpu) : Cpu :=
  { cpu with
    regs := { Registers.afterBoot with cost := cpu.regs.cost, clockCost := cpu.regs.clockCost } }

/-- Counts machine cycles, each of which is four clock cycles. -/
def advanceClock (cpu : Cpu) (cycles : Nat) : Cpu :=
  { cpu with
    clock := cpu.clock + cycles
    clockCycles := cpu.clockCycles + 4 * cycles }

@[simp]
theorem clockCycles_advanceClock (cpu : Cpu) (cycles : Nat) :
    (cpu.advanceClock cycles).clockCycles = cpu.clockCycles + 4 * cycles := rfl

@[simp]
theorem regs_advanceClock (cpu : Cpu) (cycles : Nat) : (cpu.advanceClock cycles).regs = cpu.regs :=
  rfl

/-- Raises the stop flag. -/
def stop (cpu : Cpu) : Cpu :=
  { cpu with stopped := true }

/-- Enters the v-blank routine: the registers are put aside and no more interrupts accepted. -/
def enterInterrupt (cpu : Cpu) : Cpu :=
  { cpu with
    saved := some cpu.regs.toRegisterFile
    regs := { cpu.regs with
      ime := false
      pc := Interrupts.vblankVector }.setCost Interrupts.entryCycles }

/-- Takes back the registers put aside, if there are any, and accepts interrupts again. -/
def leaveInterrupt (cpu : Cpu) : Cpu :=
  { cpu with
    regs := { cpu.regs with
      toRegisterFile := cpu.saved.getD cpu.regs.toRegisterFile
      ime := true }
    saved := none }

end Cpu

/-- A processor and what it is connected to. -/
structure Circuit (β : Type) where
  cpu : Cpu
  bus : β

/-- Operations of the processor on itself and its bus. -/
abbrev Exec (β : Type) := Access (Circuit β)

namespace Exec

variable {β : Type}

/-- The processor's present state. -/
@[inline]
def cpu : Exec β Cpu := fun s => .ok s.cpu s

@[inline]
def modifyCpu (f : Cpu → Cpu) : Exec β Unit := fun s => .ok () { s with cpu := f s.cpu }

/-- The present registers. -/
@[inline]
def regs : Exec β Registers := fun s => .ok s.cpu.regs s

@[inline]
def modifyRegs (f : Registers → Registers) : Exec β Unit :=
  modifyCpu fun cpu => { cpu with regs := f cpu.regs }

/-- An access to the bus. -/
@[inline]
def onBus {α : Type} (act : Access β α) : Exec β α :=
  Access.zoom Circuit.bus (fun b s => { s with bus := b }) act

@[inline]
def modifyBus (f : β → β) : Exec β Unit := fun s => .ok () { s with bus := f s.bus }

@[inline]
def read8 [Bus β] (addr : UInt16) : Exec β UInt8 := onBus (Bus.read8 addr)

@[inline]
def write8 [Bus β] (addr : UInt16) (v : UInt8) : Exec β Unit := onBus (Bus.write8 addr v)

@[inline]
def report [Bus β] (n : Cpu.Notice) : Exec β Unit := modifyBus (Bus.report n)

end Exec

end Handheld
