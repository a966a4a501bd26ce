import Handheld.Cpu.Notice
import Handheld.Fault

namespace Handheld

/-- A device that answers reads and writes and may react to the passing of time. -/
class Bus (β : Type) where
  read8 : UInt16 → Access β UInt8
  write8 : UInt16 → UInt8 → Access β Unit
  /-- Reads a word, low byte first. The address after `0xFFFF` is `0`. -/
  read16 : UInt16 → Access β UInt16 := fun addr => do
    let lo ← read8 addr
    let hi ← read8 (addr + 1)
    return Word.ofBytes hi lo
  /-- Writes a word, low byte first. The address after `0xFFFF` is `0`. -/
  write16 : UInt16 → UInt16 → Access β Unit := fun addr w => do
    write8 addr (Word.lo w)
    write8 (addr + 1) (Word.hi w)
  /-- A step begins whose opcode would be fetched from the given address. -/
  beginStep : UInt16 → β → β := fun _ b => b
  /-- The given number of machine cycles have passed. -/
  tick : Nat → β → β := fun _ b => b
  /-- The processor reports an occurrence. -/
  report : Cpu.Notice → β → β := fun _ b => b

end Handheld
