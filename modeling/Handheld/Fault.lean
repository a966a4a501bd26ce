import Handheld.Text.Hex

namespace Handheld

/-- A condition the machine cannot continue from. -/
inductive Fault
  /-- The byte `opcode`, fetched from `addr`, names no instruction. -/
  | illegalOpcode (opcode : UInt8) (addr : UInt16)
  /-- The address `addr` lies outside the `size` bytes that `bank` maps from `base` on. -/
  | bankOutOfBounds (bank : String) (addr base size : Nat)
  deriving DecidableEq, Repr, Inhabited

/-- The sentence that reports a fault. -/
def Fault.message : Fault → String
  | .illegalOpcode opcode addr => s!"illegal opcode 0x{Hex.byte opcode} at 0x{Hex.word addr}"
  | .bankOutOfBounds bank addr base size =>
    s!"address 0x{Hex.padded 4 addr} outside {bank} bank " ++
      s!"(0x{Hex.padded 4 base}..0x{Hex.padded 4 (base + size)})"

/-- Operations on a state `σ` that may fail. What was done before the failure stays done. -/
abbrev Access (σ : Type) := EStateM Fault σ

namespace Access

/-- Looks at the state without changing it. -/
@[inline]
def observe {σ α : Type} (look : σ → Except Fault α) : Access σ α := fun s =>
  match look s with
  | .ok a => .ok a s
  | .error e => .error e s

/-- Runs an operation on the part of the state that `get` and `set` single out. -/
@[inline]
def zoom {σ τ α : Type} (get : σ → τ) (set : τ → σ → σ) (act : Access τ α) : Access σ α :=
  fun s =>
    match act (get s) with
    | .ok a t => .ok a (set t s)
    | .error e t => .error e (set t s)

end Access

end Handheld
