import Handheld.Cpu.Instr

namespace Handheld

/-- What an opcode byte stands for. -/
inductive Opcode
  | plain (i : Instr)
  | branch (b : Branch)
  /-- A second byte names an extended instruction. -/
  | extension
  /-- No instruction. -/
  | undefined
  deriving DecidableEq, Repr, Inhabited

/-- Byte operands in the order in which opcodes number them. -/
def Slot.ofIndex : Nat → Slot
  | 0 => .reg .b
  | 1 => .reg .c
  | 2 => .reg .d
  | 3 => .reg .e
  | 4 => .reg .h
  | 5 => .reg .l
  | 6 => .atHl
  | _ => .reg .a

/-- Registers of word loads and arithmetic; the last place is the stack pointer. -/
def Reg16.ofIndex : Nat → Reg16
  | 0 => .bc
  | 1 => .de
  | 2 => .hl
  | _ => .sp

/-- Registers of stack instructions; the last place is the accumulator with the flags. -/
def Reg16.ofStackIndex : Nat → Reg16
  | 0 => .bc
  | 1 => .de
  | 2 => .hl
  | _ => .af

def Pointer.ofIndex : Nat → Pointer
  | 0 => .bc
  | 1 => .de
  | 2 => .hlInc
  | _ => .hlDec

def Cond.ofIndex : Nat → Cond
  | 0 => .nz
  | 1 => .z
  | 2 => .nc
  | _ => .c

def AluOp.ofIndex : Nat → AluOp
  | 0 => .add
  | 1 => .adc
  | 2 => .sub
  | 3 => .sbc
  | 4 => .and
  | 5 => .xor
  | 6 => .or
  | _ => .cp

def Shift.ofIndex : Nat → Shift
  | 0 => .rlc
  | 1 => .rrc
  | 2 => .rl
  | 3 => .rr
  | 4 => .sla
  | 5 => .sra
  | 6 => .swap
  | _ => .srl

namespace Opcode

/-- Opcodes `0x00` to `0x3F`. -/
def lowQuarter (y : Nat) : Nat → Opcode
  | 0 =>
    match y with
    | 0 => .plain .nop
    | 1 => .plain .storeSp
    | 2 => .plain .stop
    | 3 => .branch (.jr .always)
    | _ => .branch (.jr (.ofIndex (y - 4)))
  | 1 => .plain (if y % 2 = 0 then .ldWord (.ofIndex (y / 2)) else .addHl (.ofIndex (y / 2)))
  | 2 => .plain (if y % 2 = 0 then .storeA (.ofIndex (y / 2)) else .loadA (.ofIndex (y / 2)))
  | 3 => .plain (if y % 2 = 0 then .incWord (.ofIndex (y / 2)) else .decWord (.ofIndex (y / 2)))
  | 4 => .plain (.inc (.ofIndex y))
  | 5 => .plain (.dec (.ofIndex y))
  | 6 => .plain (.ld (.ofIndex y) .imm)
  | _ =>
    match y with
    | 4 => .plain .daa
    | 5 => .plain .cpl
    | 6 => .plain .scf
    | 7 => .plain .ccf
    | _ => .plain (.rotateA (.ofIndex y))

/-- Opcodes `0xC0` to `0xFF`, which hold all undefined ones. -/
def highQuarter (y : Nat) : Nat → Opcode
  | 0 =>
    match y with
    | 4 => .plain (.storeA .highImm)
    | 5 => .plain .addSpOffset
    | 6 => .plain (.loadA .highImm)
    | 7 => .plain .ldHlSpOffset
    | _ => .branch (.ret (.ofIndex y))
  | 1 =>
    match y with
    | 1 => .branch (.ret .always)
    | 3 => .plain .reti
    | 5 => .plain .jpHl
    | 7 => .plain .ldSpHl
    | _ => .plain (.pop (.ofStackIndex (y / 2)))
  | 2 =>
    match y with
    | 4 => .plain (.storeA .highC)
    | 5 => .plain (.storeA .absolute)
    | 6 => .plain (.loadA .highC)
    | 7 => .plain (.loadA .absolute)
    | _ => .branch (.jp (.ofIndex y))
  | 3 =>
    match y with
    | 0 => .branch (.jp .always)
    | 1 => .extension
    | 6 => .plain .di
    | 7 => .plain .ei
    | _ => .undefined
  | 4 => if y < 4 then .branch (.call (.ofIndex y)) else .undefined
  | 5 =>
    if y % 2 = 0 then .plain (.push (.ofStackIndex (y / 2)))
    else if y = 1 then .branch (.call .always)
    else .undefined
  | 6 => .plain (.alu (.ofIndex y) .imm)
  | _ => .plain (.rst (UInt16.ofNat (8 * y)))

/-- The meaning of an opcode byte. -/
def decode (b : UInt8) : Opcode :=
  let y := b.toNat / 8 % 8
  let z := b.toNat % 8
  match b.toNat / 64 with
  | 0 => lowQuarter y z
  | 1 =>
    -- A load from memory to memory would be useless: its opcode halts instead.
    if y = 6 ∧ z = 6 then .plain .halt else .plain (.ld (.ofIndex y) (.slot (.ofIndex z)))
  | 2 => .plain (.alu (.ofIndex y) (.slot (.ofIndex z)))
  | _ => highQuarter y z

/-- How an opcode is written in a trace. -/
def text : Opcode → String
  | .plain i => i.text
  | .branch b => b.text
  | .extension => "Prefix"
  | .undefined => "Illegal"

/-- The cost of an opcode before any branch is taken; the two that name no instruction by
    themselves are free. -/
def cycles : Opcode → Nat
  | .plain i => i.cycles
  | .branch b => b.cycles
  | .extension | .undefined => 0

end Opcode

/-- The extended instruction that a second byte names. -/
def Extended.decode (b : UInt8) : Extended where
  op :=
    match b.toNat / 64 with
    | 0 => .shift (.ofIndex (b.toNat / 8 % 8))
    | 1 => .bit (Fin.ofNat 8 (b.toNat / 8))
    | 2 => .res (Fin.ofNat 8 (b.toNat / 8))
    | _ => .set (Fin.ofNat 8 (b.toNat / 8))
  target := .ofIndex (b.toNat % 8)

end Handheld
