import Handheld.Cpu.Flags
import Handheld.Word

namespace Handheld

/-- The eight-bit registers that instructions name as operands. -/
inductive Reg8
  | a | b | c | d | e | h | l
  deriving DecidableEq, Repr, Inhabited

/-- The sixteen-bit registers: four pairs and the stack pointer. -/
inductive Reg16
  | bc | de | hl | sp | af
  deriving DecidableEq, Repr, Inhabited

/-- The registers that an interrupt saves and a return from it restores. -/
structure RegisterFile where
  a : UInt8 := 0
  f : Flags := {}
  b : UInt8 := 0
  c : UInt8 := 0
  d : UInt8 := 0
  e : UInt8 := 0
  h : UInt8 := 0
  l : UInt8 := 0
  deriving DecidableEq, Repr, Inhabited

/-- All registers, with the cost of the latest instruction in machine cycles and in clock cycles. -/
structure Registers extends RegisterFile where
  sp : UInt16 := 0
  pc : UInt16 := 0
  /-- Interrupts are accepted. -/
  ime : Bool := false
  /-- Machine cycles of the instruction, idle cycle or interrupt entry that ran last. -/
  cost : Nat := 0
  /-- Clock cycles of the same. -/
  clockCost : Nat := 0
  deriving DecidableEq, Repr, Inhabited

namespace RegisterFile

/-- The value of a register. -/
def get (r : RegisterFile) : Reg8 → UInt8
  | .a => r.a
  | .b => r.b
  | .c => r.c
  | .d => r.d
  | .e => r.e
  | .h => r.h
  | .l => r.l

/-- Puts `v` into one register. -/
def set (r : RegisterFile) (reg : Reg8) (v : UInt8) : RegisterFile :=
  match reg with
  | .a => { r with a := v }
  | .b => { r with b := v }
  | .c => { r with c := v }
  | .d => { r with d := v }
  | .e => { r with e := v }
  | .h => { r with h := v }
  | .l => { r with l := v }

theorem get_set (r : RegisterFile) (x y : Reg8) (v : UInt8) :
    (r.set x v).get y = if x = y then v else r.get y := by
  cases x <;> cases y <;> rfl

end RegisterFile

namespace Registers

/-- Power-on values: everything zero, interrupts accepted. -/
def powerOn : Registers := { ime := true }

/-- The values that the boot program leaves when it enters the cartridge at `0x0100`. -/
def afterBoot : Registers where
  a := 0x01
  f := .ofByte 0xB0
  b := 0x00
  c := 0x13
  d := 0x00
  e := 0xD8
  h := 0x01
  l := 0x4D
  sp := 0xFFFE
  pc := 0x0100

/-- The pair or pointer named by `reg`. -/
def getWord (r : Registers) : Reg16 → UInt16
  | .bc => Word.ofBytes r.b r.c
  | .de => Word.ofBytes r.d r.e
  | .hl => Word.ofBytes r.h r.l
  | .sp => r.sp
  | .af => Word.ofBytes r.a r.f.toByte

/-- Puts `w` into a pair or pointer. The lower half of `F` stays zero. -/
def setWord (r : Registers) (reg : Reg16) (w : UInt16) : Registers :=
  match reg with
  | .bc => { r with b := Word.hi w, c := Word.lo w }
  | .de => { r with d := Word.hi w, e := Word.lo w }
  | .hl => { r with h := Word.hi w, l := Word.lo w }
  | .sp => { r with sp := w }
  | .af => { r with a := Word.hi w, f := .ofByte (Word.lo w) }

/-- The address held in `HL`. -/
abbrev hl (r : Registers) : UInt16 := r.getWord .hl

/-- Puts `v` into one eight-bit register. -/
def set (r : Registers) (reg : Reg8) (v : UInt8) : Registers :=
  { r with toRegisterFile := r.toRegisterFile.set reg v }

/-- Sets the accumulator and the flags. -/
def setAccumulator (r : Registers) (af : UInt8 × Flags) : Registers :=
  { r with a := af.1, f := af.2 }

/-- Notes the cost of what just ran. Four clock cycles make a machine cycle. -/
def setCost (r : Registers) (cycles : Nat) : Registers :=
  { r with cost := cycles, clockCost := 4 * cycles }

@[simp]
theorem toRegisterFile_setCost (r : Registers) (cycles : Nat) :
    (r.setCost cycles).toRegisterFile = r.toRegisterFile := rfl

end Registers

end Handheld
