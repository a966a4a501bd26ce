import Handheld.Cpu.Instr

namespace Handheld.Alu

/-- The sum of two bytes and a carry. -/
def add (a v : UInt8) (carry : Bool) : UInt8 × Flags :=
  let result := a + v + carry.toUInt8
  (result,
    { zero := result == 0
      subtract := false
      halfCarry := decide (16 ≤ a.toNat % 16 + v.toNat % 16 + carry.toNat)
      carry := decide (256 ≤ a.toNat + v.toNat + carry.toNat) })

/-- The difference of two bytes less a borrow. -/
def sub (a v : UInt8) (borrow : Bool) : UInt8 × Flags :=
  let result := a - v - borrow.toUInt8
  (result,
    { zero := result == 0
      subtract := true
      halfCarry := decide (a.toNat % 16 < v.toNat % 16 + borrow.toNat)
      carry := decide (a.toNat < v.toNat + borrow.toNat) })

/-- A bitwise result with its flags. Only a conjunction sets the half carry. -/
def logic (result : UInt8) (halfCarry : Bool) : UInt8 × Flags :=
  (result, { zero := result == 0, halfCarry })

/-- The accumulator and the flags after an operation with the operand `v`. -/
def apply (op : AluOp) (a : UInt8) (f : Flags) (v : UInt8) : UInt8 × Flags :=
  match op with
  | .add => add a v false
  | .adc => add a v f.carry
  | .sub => sub a v false
  | .sbc => sub a v f.carry
  | .and => logic (a &&& v) true
  | .xor => logic (a ^^^ v) false
  | .or => logic (a ||| v) false
  | .cp => (a, (sub a v false).2)

/-- One more; the carry is kept. -/
def inc (v : UInt8) (f : Flags) : UInt8 × Flags :=
  let result := v + 1
  (result,
    { f with zero := result == 0, subtract := false, halfCarry := v &&& 0x0F == 0x0F })

/-- One less; the carry is kept. -/
def dec (v : UInt8) (f : Flags) : UInt8 × Flags :=
  let result := v - 1
  (result, { f with zero := result == 0, subtract := true, halfCarry := v &&& 0x0F == 0 })

/-- What turns a binary sum or difference of two-digit decimal bytes back into decimal digits. -/
def decimalCorrection (a : UInt8) (f : Flags) : UInt8 :=
  let low := f.halfCarry || (!f.subtract && decide (9 < a &&& 0x0F))
  let high := f.carry || (!f.subtract && decide (0x99 < a))
  (if low then 0x06 else 0) + (if high then 0x60 else 0)

/-- Decimal adjustment of the accumulator after an addition or a subtraction. -/
def daa (a : UInt8) (f : Flags) : UInt8 × Flags :=
  let correction := decimalCorrection a f
  let result := if f.subtract then a - correction else a + correction
  (result,
    { zero := result == 0
      subtract := f.subtract
      halfCarry := false
      carry := decide (0x60 ≤ correction) })

/-- The sum of two words; the zero flag is kept, the carries leave bits 11 and 15. -/
def addWord (x y : UInt16) (f : Flags) : UInt16 × Flags :=
  (x + y,
    { f with
      subtract := false
      halfCarry := decide (0x1000 ≤ x.toNat % 0x1000 + y.toNat % 0x1000)
      carry := decide (0x10000 ≤ x.toNat + y.toNat) })

/-- A word displaced by a signed byte; the carries are those of the low bytes. -/
def addOffset (base : UInt16) (e : UInt8) : UInt16 × Flags :=
  (base + Word.signExtend e,
    { halfCarry := decide (16 ≤ base.toNat % 16 + e.toNat % 16)
      carry := decide (256 ≤ base.toNat % 256 + e.toNat) })

/-- The two halves of a byte exchanged. -/
def swapNibbles (v : UInt8) : UInt8 :=
  v <<< 4 ||| v >>> 4

/-- The value of a shift or rotation and the bit that falls out of it. -/
def shiftOut (s : Shift) (v : UInt8) (carry : Bool) : UInt8 × Bool :=
  let top := v &&& 0x80 != 0
  let bottom := v &&& 0x01 != 0
  match s with
  | .rlc => (v <<< 1 ||| v >>> 7, top)
  | .rrc => (v >>> 1 ||| v <<< 7, bottom)
  | .rl => (v <<< 1 ||| carry.toUInt8, top)
  | .rr => (v >>> 1 ||| carry.toUInt8 <<< 7, bottom)
  | .sla => (v <<< 1, top)
  | .sra => (v >>> 1 ||| v &&& 0x80, bottom)
  | .swap => (swapNibbles v, false)
  | .srl => (v >>> 1, bottom)

/-- A shift or rotation with its flags. -/
def shift (s : Shift) (v : UInt8) (f : Flags) : UInt8 × Flags :=
  let (result, out) := shiftOut s v f.carry
  (result, { zero := result == 0, carry := out })

/-- The byte with bit `n` alone set. -/
def mask (n : Fin 8) : UInt8 :=
  1 <<< UInt8.ofNat n.val

/-- The flags after testing bit `n`; the carry is kept. -/
def testBit (n : Fin 8) (v : UInt8) (f : Flags) : Flags :=
  { f with zero := v &&& mask n == 0, subtract := false, halfCarry := true }

end Handheld.Alu
