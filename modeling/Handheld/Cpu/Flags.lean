namespace Handheld

/-- The flags, which fill the upper half of the register `F`. -/
structure Flags where
  /-- The last result was zero. -/
  zero : Bool := false
  /-- The last operation was a subtraction. -/
  subtract : Bool := false
  /-- The low half of the byte carried or borrowed. -/
  halfCarry : Bool := false
  /-- The whole byte or word carried or borrowed. -/
  carry : Bool := false
  deriving DecidableEq, Repr, Inhabited

namespace Flags

/-- The flags set in the upper half of `b`; its lower half is dropped. -/
def ofByte (b : UInt8) : Flags where
  zero := b &&& 0x80 != 0
  subtract := b &&& 0x40 != 0
  halfCarry := b &&& 0x20 != 0
  carry := b &&& 0x10 != 0

/-- The byte read from `F`; its lower half is zero. -/
def toByte (f : Flags) : UInt8 :=
  (if f.zero then 0x80 else 0) ||| (if f.subtract then 0x40 else 0) |||
    (if f.halfCarry then 0x20 else 0) ||| (if f.carry then 0x10 else 0)

@[simp]
theorem ofByte_toByte (f : Flags) : ofByte f.toByte = f := by
  rcases f with ⟨_ | _, _ | _, _ | _, _ | _⟩ <;> rfl

end Flags

end Handheld
