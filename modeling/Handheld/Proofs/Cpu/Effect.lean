import Handheld.Proofs.Cpu.Flat
import Handheld.Proofs.Cpu.Parts

namespace Handheld

/-- What an instruction does. -/
structure Effect where
  /-- The parts of the processor that may change, apart from the program counter. -/
  parts : List Part := []
  /-- Pointers that move, and where they are then. -/
  moves : List (Reg16 × UInt16) := []
  /-- The bytes that are read besides those of the instruction. -/
  loads : List UInt16 := []
  /-- The bytes that are written. -/
  stores : List (UInt16 × UInt8) := []
  /-- Where to go on, if not after the instruction. -/
  target? : Option UInt16 := none
  deriving DecidableEq, Repr

/-- Consecutive addresses. -/
def addresses : UInt16 → Nat → List UInt16
  | _, 0 => []
  | addr, n + 1 => addr :: addresses (addr + 1) n

/-- What a step does with its bus while it executes an instruction: first the instruction's own
    bytes are read, then other bytes, and then bytes are written. -/
def Effect.calls (e : Effect) (code : List UInt16) : List BusCall :=
  (code ++ e.loads).map .read ++ e.stores.map fun p => .write p.1 p.2

/-- The effect leads from `s` to `t`, if `code` are the addresses of the instruction's own bytes
    that are yet to be read and `next` is the address after them. -/
structure Effect.Leads (e : Effect) (code : List UInt16) (next : UInt16)
    (s t : Circuit FlatMemory) : Prop where
  pc : t.cpu.regs.pc = e.target?.getD next := by rfl
  moves : ∀ p ∈ e.moves, t.cpu.regs.getWord p.1 = p.2 := by exact List.forall_mem_nil _
  bytes : t.bus.bytes = (s.bus.written e.stores).bytes := by rfl
  journal : t.bus.journal = (e.calls code).foldl Array.push s.bus.journal := by rfl

namespace Slot

def loads (r : Registers) : Slot → List UInt16
  | .reg _ => []
  | .atHl => [r.hl]

def stores (r : Registers) (v : UInt8) : Slot → List (UInt16 × UInt8)
  | .reg _ => []
  | .atHl => [(r.hl, v)]

def value (r : Registers) (m : FlatMemory) : Slot → UInt8
  | .reg x => r.get x
  | .atHl => m.get r.hl

/-- A byte is replaced by a function of it and the flags; `parts` are those that change besides. -/
def update (r : Registers) (m : FlatMemory) (f : UInt8 → Flags → UInt8 × Flags)
    (parts : List Part) (s : Slot) : Effect where
  parts := parts ++ s.parts
  loads := s.loads r
  stores := s.stores r (f (s.value r m) r.f).1

end Slot

namespace Operand

/-- The number of bytes after the opcode. -/
def size : Operand → Nat
  | .slot _ => 0
  | .imm => 1

def loads (r : Registers) : Operand → List UInt16
  | .slot s => s.loads r
  | .imm => []

/-- The value; `operand` is the address after the opcode. -/
def value (r : Registers) (m : FlatMemory) (operand : UInt16) : Operand → UInt8
  | .slot s => s.value r m
  | .imm => m.get operand

end Operand

namespace Pointer

/-- The number of bytes after the opcode. -/
def size : Pointer → Nat
  | .highImm => 1
  | .absolute => 2
  | .bc | .de | .hlInc | .hlDec | .highC => 0

/-- The address that is meant; `operand` is the address after the opcode. -/
def target (r : Registers) (m : FlatMemory) (operand : UInt16) : Pointer → UInt16
  | .bc => r.getWord .bc
  | .de => r.getWord .de
  | .hlInc | .hlDec => r.hl
  | .highImm => Word.highPage (m.get operand)
  | .highC => Word.highPage r.c
  | .absolute => m.word operand

/-- Only `HL` moves, by one up or down. -/
def moves (r : Registers) : Pointer → List (Reg16 × UInt16)
  | .hlInc => [(.hl, r.hl + 1)]
  | .hlDec => [(.hl, r.hl - 1)]
  | .bc | .de | .highImm | .highC | .absolute => []

end Pointer

namespace Effect

/-- A word is put on the stack. -/
def push (r : Registers) (w : UInt16) : Effect where
  parts := [.sp]
  moves := [(.sp, r.sp - 2)]
  stores := FlatMemory.wordBytes (r.sp - 2) w

/-- The processor goes on where the word on the stack tells, which is taken from there. -/
def toCaller (r : Registers) (m : FlatMemory) : Effect where
  parts := [.sp]
  moves := [(.sp, r.sp + 2)]
  loads := [r.sp, r.sp + 1]
  target? := some (m.word r.sp)

end Effect

/-- The number of bytes of an instruction. -/
def Instr.length : Instr → Nat
  | .ld _ src | .alu _ src => 1 + src.size
  | .storeA p | .loadA p => 1 + p.size
  | .ldWord _ | .storeSp => 3
  | .stop | .ldHlSpOffset | .addSpOffset => 2
  | _ => 1

/-- The number of bytes after the opcode that are read; the second byte of a stop is not. -/
def Instr.fetched : Instr → Nat
  | .stop => 0
  | i => i.length - 1

/-- What an instruction does. The address after its opcode is `operand`, and `next` that of the
    instruction after it. -/
def Instr.effect (cpu : Cpu) (m : FlatMemory) (operand next : UInt16) : Instr → Effect
  | .nop => {}
  | .stop => { parts := [.stopped] }
  | .halt => { parts := [.halted] }
  | .di | .ei => { parts := [.ime] }
  | .ld dst src =>
    { parts := dst.parts
      loads := src.loads cpu.regs
      stores := dst.stores cpu.regs (src.value cpu.regs m operand) }
  | .ldWord dst => { parts := dst.parts }
  | .storeA p =>
    { parts := p.parts
      moves := p.moves cpu.regs
      stores := [(p.target cpu.regs m operand, cpu.regs.a)] }
  | .loadA p =>
    { parts := p.parts ++ [.reg .a]
      moves := p.moves cpu.regs
      loads := [p.target cpu.regs m operand] }
  | .storeSp => { stores := FlatMemory.wordBytes (m.word operand) cpu.regs.sp }
  | .ldSpHl => { parts := [.sp] }
  | .ldHlSpOffset => { parts := Reg16.hl.parts ++ [.flags] }
  | .addSpOffset => { parts := [.sp, .flags] }
  | .alu .cp src => { parts := [.flags], loads := src.loads cpu.regs }
  | .alu _ src => { parts := [.reg .a, .flags], loads := src.loads cpu.regs }
  | .inc s => s.update cpu.regs m Alu.inc [.flags]
  | .dec s => s.update cpu.regs m Alu.dec [.flags]
  | .incWord r | .decWord r => { parts := r.parts }
  | .addHl _ => { parts := Reg16.hl.parts ++ [.flags] }
  | .rotateA _ | .daa | .cpl => { parts := [.reg .a, .flags] }
  | .scf | .ccf => { parts := [.flags] }
  | .jpHl => { target? := some cpu.regs.hl }
  | .reti =>
    let e := Effect.toCaller cpu.regs m
    { e with parts := e.parts ++ ([.ime, .saved] ++ if cpu.saved.isSome then Part.file else []) }
  | .rst vector => { Effect.push cpu.regs next with target? := some vector }
  | .push r => Effect.push cpu.regs (cpu.regs.getWord r)
  | .pop r => { parts := .sp :: r.parts, loads := [cpu.regs.sp, cpu.regs.sp + 1] }

/-- The number of bytes of a branch. -/
def Branch.length : Branch → Nat
  | .jp _ | .call _ => 3
  | .jr _ => 2
  | .ret _ => 1

/-- What decides whether a branch is taken. -/
def Branch.cond : Branch → Cond
  | .jp cond | .jr cond | .call cond | .ret cond => cond

/-- What a branch does if it is taken. -/
def Branch.takenEffect (r : Registers) (m : FlatMemory) (operand next : UInt16) : Branch → Effect
  | .jp _ => { target? := some (m.word operand) }
  | .jr _ => { target? := some (next + Word.signExtend (m.get operand)) }
  | .call _ => { Effect.push r next with target? := some (m.word operand) }
  | .ret _ => Effect.toCaller r m

/-- What a branch does; one that is not taken does nothing. -/
def Branch.effect (r : Registers) (m : FlatMemory) (operand next : UInt16) (b : Branch) : Effect :=
  if b.cond.holds r.f then b.takenEffect r m operand next else {}

/-- What a branch costs on top if it is taken. The relative jump costs one cycle more; of the others
    only those with a condition cost more. -/
def Branch.surcharge (f : Flags) (b : Branch) : Nat :=
  if b.cond.holds f then
    match b with
    | .jr _ => 1
    | .jp .always | .call .always | .ret .always => 0
    | .jp _ => 1
    | .call _ | .ret _ => 2
  else 0

/-- What an extended instruction does. -/
def Extended.effect (r : Registers) (m : FlatMemory) (i : Extended) : Effect :=
  match i.op with
  | .shift s => i.target.update r m (Alu.shift s) [.flags]
  | .bit _ => { parts := [.flags], loads := i.target.loads r }
  | .res n => i.target.update r m (fun v f => (v &&& ~~~Alu.mask n, f)) []
  | .set n => i.target.update r m (fun v f => (v ||| Alu.mask n, f)) []

namespace Opcode

/-- The number of bytes of what an opcode stands for. -/
def length : Opcode → Nat
  | .plain i => i.length
  | .branch b => b.length
  | .extension => 2
  | .undefined => 1

/-- How many bytes after the opcode are read. -/
def fetched : Opcode → Nat
  | .plain i => i.fetched
  | .branch b => b.length - 1
  | .extension => 1
  | .undefined => 0

/-- What an opcode does. The address after it is `operand`, and `next` that of the instruction after
    it. -/
def effect (cpu : Cpu) (m : FlatMemory) (operand next : UInt16) : Opcode → Effect
  | .plain i => i.effect cpu m operand next
  | .branch b => b.effect cpu.regs m operand next
  | .extension => (Extended.decode (m.get operand)).effect cpu.regs m
  | .undefined => {}

/-- What an opcode costs. -/
def price (f : Flags) (m : FlatMemory) (operand : UInt16) : Opcode → Nat
  | .plain i => i.cycles
  | .branch b => b.cycles + b.surcharge f
  | .extension => (Extended.decode (m.get operand)).cycles
  | .undefined => 0

theorem length_pos (o : Opcode) : 0 < o.length := by
  cases o with
  | plain i =>
    change 0 < i.length
    unfold Instr.length
    split <;> omega
  | branch b =>
    change 0 < b.length
    unfold Branch.length
    split <;> omega
  | extension | undefined => decide

end Opcode

namespace Exec

/-- What the processor finds at its program counter. -/
def opcode (s : Circuit FlatMemory) : Opcode :=
  .decode (s.bus.get s.cpu.regs.pc)

/-- The address after the instruction at the program counter. -/
def following (s : Circuit FlatMemory) : UInt16 :=
  s.cpu.regs.pc + UInt16.ofNat (opcode s).length

/-- The addresses of the instruction at the program counter, as far as they are read. -/
def code (s : Circuit FlatMemory) : List UInt16 :=
  addresses s.cpu.regs.pc ((opcode s).fetched + 1)

/-- What the instruction at the program counter does. -/
def effect (s : Circuit FlatMemory) : Effect :=
  (opcode s).effect s.cpu s.bus (s.cpu.regs.pc + 1) (following s)

/-- What the instruction at the program counter costs. -/
def price (s : Circuit FlatMemory) : Nat :=
  (opcode s).price s.cpu.regs.f s.bus (s.cpu.regs.pc + 1)

end Exec

end Handheld
