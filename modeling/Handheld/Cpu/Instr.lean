import Handheld.Cpu.Registers

namespace Handheld

/-- A place that holds a byte operand: a register, or the memory byte that `HL` points at. -/
inductive Slot
  | reg (r : Reg8)
  | atHl
  deriving DecidableEq, Repr, Inhabited

/-- Where a byte operand comes from: a slot, or the byte that follows the opcode. -/
inductive Operand
  | slot (s : Slot)
  | imm
  deriving DecidableEq, Repr, Inhabited

/-- Where the accumulator is loaded from or stored to. -/
inductive Pointer
  | bc
  | de
  /-- The address in `HL`, which is then incremented. -/
  | hlInc
  /-- The address in `HL`, which is then decremented. -/
  | hlDec
  /-- The high page, at the offset that follows the opcode. -/
  | highImm
  /-- The high page, at the offset in `C`. -/
  | highC
  /-- The address that follows the opcode. -/
  | absolute
  deriving DecidableEq, Repr, Inhabited

/-- When a jump, call or return is taken. -/
inductive Cond
  | always | nz | z | nc | c
  deriving DecidableEq, Repr, Inhabited

/-- Operations of the accumulator with a byte operand. -/
inductive AluOp
  | add | adc | sub | sbc | and | xor | or | cp
  deriving DecidableEq, Repr, Inhabited

/-- Rotations and shifts of a byte. -/
inductive Shift
  | rlc | rrc | rl | rr | sla | sra | swap | srl
  deriving DecidableEq, Repr, Inhabited

/-- Instructions encoded without the extension byte, branches excepted. -/
inductive Instr
  | nop | stop | halt | di | ei
  | ld (dst : Slot) (src : Operand)
  /-- Loads the word that follows the opcode. -/
  | ldWord (dst : Reg16)
  | storeA (dst : Pointer)
  | loadA (src : Pointer)
  /-- Stores the stack pointer at the address that follows the opcode. -/
  | storeSp
  | ldSpHl
  | ldHlSpOffset
  | addSpOffset
  | alu (op : AluOp) (src : Operand)
  | inc (s : Slot)
  | dec (s : Slot)
  | incWord (r : Reg16)
  | decWord (r : Reg16)
  | addHl (r : Reg16)
  | rotateA (s : Shift)
  | daa | cpl | scf | ccf
  | jpHl
  | reti
  | rst (vector : UInt16)
  | push (r : Reg16)
  | pop (r : Reg16)
  deriving DecidableEq, Repr, Inhabited

/-- Instructions that go elsewhere if a condition holds. -/
inductive Branch
  /-- To the address that follows the opcode. -/
  | jp (cond : Cond)
  /-- By the signed offset that follows the opcode. -/
  | jr (cond : Cond)
  /-- To the address that follows the opcode; the stack gets the address to return to. -/
  | call (cond : Cond)
  /-- To the address on the stack. -/
  | ret (cond : Cond)
  deriving DecidableEq, Repr, Inhabited

/-- What an extended instruction does to its target. -/
inductive BitOp
  | shift (s : Shift)
  /-- Tests a bit. -/
  | bit (n : Fin 8)
  /-- Clears a bit. -/
  | res (n : Fin 8)
  /-- Sets a bit. -/
  | set (n : Fin 8)
  deriving DecidableEq, Repr, Inhabited

/-- Instructions encoded as the extension byte and a second byte. -/
structure Extended where
  op : BitOp
  target : Slot
  deriving DecidableEq, Repr, Inhabited

/-- The operand is a byte of memory. -/
def Slot.isMemory : Slot → Bool
  | .reg _ => false
  | .atHl => true

def Slot.text : Slot → String
  | .reg .a => "A"
  | .reg .b => "B"
  | .reg .c => "C"
  | .reg .d => "D"
  | .reg .e => "E"
  | .reg .h => "H"
  | .reg .l => "L"
  | .atHl => "HlInd"

def Reg16.text : Reg16 → String
  | .bc => "Bc"
  | .de => "De"
  | .hl => "Hl"
  | .sp => "Sp"
  | .af => "Af"

/-- What follows the verb of a load or store of the accumulator. -/
def Pointer.text : Pointer → String
  | .bc => "A(Bc)"
  | .de => "A(De)"
  | .hlInc => "A(HlInc)"
  | .hlDec => "A(HlDec)"
  | .highImm => "HighImm"
  | .highC => "HighC"
  | .absolute => "Abs"

def Cond.text : Cond → String
  | .always => "Always"
  | .nz => "Nz"
  | .z => "Z"
  | .nc => "Nc"
  | .c => "C"

def AluOp.text : AluOp → String
  | .add => "Add"
  | .adc => "Adc"
  | .sub => "Sub"
  | .sbc => "Sbc"
  | .and => "And"
  | .xor => "Xor"
  | .or => "Or"
  | .cp => "Cp"

def Shift.text : Shift → String
  | .rlc => "Rlc"
  | .rrc => "Rrc"
  | .rl => "Rl"
  | .rr => "Rr"
  | .sla => "Sla"
  | .sra => "Sra"
  | .swap => "Swap"
  | .srl => "Srl"

def Instr.text : Instr → String
  | .nop => "Nop"
  | .stop => "Stop"
  | .halt => "Halt"
  | .di => "Di"
  | .ei => "Ei"
  | .ld dst (.slot src) => "Ld \x7b dst: " ++ dst.text ++ ", src: " ++ src.text ++ " \x7d"
  | .ld dst .imm => s!"LdImm({dst.text})"
  | .ldWord dst => s!"LdImm16({dst.text})"
  | .storeA dst => s!"Store{dst.text}"
  | .loadA src => s!"Load{src.text}"
  | .storeSp => "StoreSp"
  | .ldSpHl => "LdSpHl"
  | .ldHlSpOffset => "LdHlSpOffset"
  | .addSpOffset => "AddSpOffset"
  | .alu op (.slot src) => s!"Alu({op.text}, {src.text})"
  | .alu op .imm => s!"AluImm({op.text})"
  | .inc s => s!"Inc({s.text})"
  | .dec s => s!"Dec({s.text})"
  | .incWord r => s!"Inc16({r.text})"
  | .decWord r => s!"Dec16({r.text})"
  | .addHl r => s!"AddHl({r.text})"
  | .rotateA s => s!"RotateA({s.text})"
  | .daa => "Daa"
  | .cpl => "Cpl"
  | .scf => "Scf"
  | .ccf => "Ccf"
  | .jpHl => "JpHl"
  | .reti => "Reti"
  | .rst vector => s!"Rst({vector.toNat})"
  | .push r => s!"Push({r.text})"
  | .pop r => s!"Pop({r.text})"

def Branch.text : Branch → String
  | .jp cond => s!"Jp({cond.text})"
  | .jr cond => s!"Jr({cond.text})"
  | .call cond => s!"Call({cond.text})"
  | .ret cond => s!"Ret({cond.text})"

def BitOp.text : BitOp → String
  | .shift s => s!"Shift({s.text})"
  | .bit n => s!"Bit({n.val})"
  | .res n => s!"Res({n.val})"
  | .set n => s!"Set({n.val})"

/-- A cost that depends on where an operand is: in memory or in a register. -/
def Slot.cycles (register memory : Nat) : Slot → Nat
  | .reg _ => register
  | .atHl => memory

/-- The cost of an instruction. -/
def Instr.cycles : Instr → Nat
  | .ld dst (.slot src) => max (dst.cycles 1 2) (src.cycles 1 2)
  | .ld dst .imm => dst.cycles 2 3
  | .alu _ (.slot src) => src.cycles 1 2
  | .alu _ .imm => 2
  | .inc s | .dec s => s.cycles 1 3
  | .storeA p | .loadA p =>
    match p with
    | .bc | .de | .hlInc | .hlDec | .highC => 2
    | .highImm => 3
    | .absolute => 4
  | .ldSpHl => 2
  | .ldWord _ | .addHl _ | .ldHlSpOffset => 3
  | .reti | .rst _ | .push _ | .pop _ => 3
  | .storeSp | .addSpOffset => 4
  | .nop | .stop | .halt | .di | .ei | .incWord _ | .decWord _ | .rotateA _ | .daa | .cpl | .scf
  | .ccf | .jpHl => 1

/-- The cost of a branch before its condition is looked at. What has no condition is priced as
    taken, except for the relative jump. -/
def Branch.cycles : Branch → Nat
  | .jp _ => 3
  | .jr _ => 2
  | .call .always => 5
  | .call _ => 3
  | .ret .always => 3
  | .ret _ => 1

/-- What a branch costs on top when it is taken. -/
def Branch.takenCycles : Branch → Nat
  | .jr _ => 1
  | .jp .always | .call .always | .ret .always => 0
  | .jp _ => 1
  | .call _ | .ret _ => 2

/-- The cost of an extended instruction, its extension byte included. -/
def Extended.cycles (i : Extended) : Nat :=
  match i.op with
  | .bit _ => i.target.cycles 2 3
  | _ => i.target.cycles 2 4

end Handheld
