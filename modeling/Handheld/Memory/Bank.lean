import Handheld.Fault
import Handheld.Word

namespace Handheld

/-- A block of memory whose first byte has the address `base`. -/
structure MemoryBank where
  name : String
  base : Nat
  data : Array UInt8
  deriving DecidableEq, Repr, Inhabited

namespace MemoryBank

/-- A bank of `size` zero bytes. -/
def zeroed (name : String) (size base : Nat) : MemoryBank :=
  ⟨name, base, Array.replicate size 0⟩

/-- A bank that holds `bytes`, filled up with zeros to at least `minSize` bytes. -/
def holding (name : String) (bytes : Array UInt8) (minSize base : Nat) : MemoryBank :=
  ⟨name, base, bytes ++ Array.replicate (minSize - bytes.size) 0⟩

/-- The number of bytes. -/
def size (b : MemoryBank) : Nat :=
  b.data.size

def isEmpty (b : MemoryBank) : Bool :=
  b.data.isEmpty

/-- The bank answers at this address. -/
def Covers (b : MemoryBank) (addr : Nat) : Prop :=
  b.base ≤ addr ∧ addr - b.base < b.data.size

instance (b : MemoryBank) (addr : Nat) : Decidable (b.Covers addr) :=
  inferInstanceAs (Decidable (_ ∧ _))

/-- The fault of an access at an address that the bank does not cover. -/
def outside (b : MemoryBank) (addr : Nat) : Fault :=
  .bankOutOfBounds b.name addr b.base b.size

/-- Fails as an access at this address would. -/
def check (b : MemoryBank) (addr : Nat) : Except Fault Unit :=
  if b.Covers addr then .ok () else .error (b.outside addr)

/-- The byte at an address. -/
def read8 (b : MemoryBank) (addr : Nat) : Except Fault UInt8 :=
  if h : b.Covers addr then
    have inRange := h.2
    .ok b.data[addr - b.base]
  else .error (b.outside addr)

/-- The word at an address, low byte first. Of two faults the low byte's is reported. -/
def read16 (b : MemoryBank) (addr : Nat) : Except Fault UInt16 := do
  let lo ← b.read8 addr
  let hi ← b.read8 (addr + 1)
  return Word.ofBytes hi lo

/-- Puts a byte at an address. -/
def write8 (addr : Nat) (v : UInt8) : Access MemoryBank Unit := fun b =>
  if h : b.Covers addr then .ok () { b with data := b.data.set (addr - b.base) v h.2 }
  else .error (b.outside addr) b

/-- Puts a word at an address, low byte first. The high byte's place is checked before anything is
    written, so that a refused word leaves no half behind. -/
def write16 (addr : Nat) (w : UInt16) : Access MemoryBank Unit := do
  Access.observe fun b => b.check (addr + 1)
  write8 addr (Word.lo w)
  write8 (addr + 1) (Word.hi w)

/-- Sets every byte to zero. -/
def clear (b : MemoryBank) : MemoryBank :=
  { b with data := Array.replicate b.size 0 }

/-- Replaces the contents by the first bytes of `bytes`, followed by zeros. -/
def load (b : MemoryBank) (bytes : Array UInt8) : MemoryBank :=
  { b with data := bytes.extract 0 b.size ++ Array.replicate (b.size - bytes.size) 0 }

@[simp]
theorem size_zeroed (name : String) (size base : Nat) : (zeroed name size base).size = size := by
  simp [zeroed, MemoryBank.size]

@[simp]
theorem size_holding (name : String) (bytes : Array UInt8) (minSize base : Nat) :
    (holding name bytes minSize base).size = max bytes.size minSize := by
  simp [holding, MemoryBank.size]
  omega

@[simp]
theorem size_clear (b : MemoryBank) : b.clear.size = b.size := by
  simp [clear, MemoryBank.size]

@[simp]
theorem size_load (b : MemoryBank) (bytes : Array UInt8) : (b.load bytes).size = b.size := by
  simp [load, MemoryBank.size]
  omega

theorem write8_of_covers {b : MemoryBank} {addr : Nat} (v : UInt8) (h : b.Covers addr) :
    write8 addr v b = .ok () { b with data := b.data.set (addr - b.base) v h.2 } := by
  simp [write8, h]

theorem write8_of_not_covers {b : MemoryBank} {addr : Nat} (v : UInt8) (h : ¬ b.Covers addr) :
    write8 addr v b = .error (b.outside addr) b := by
  simp [write8, h]

/-- A write changes the byte at its own address and no other. -/
theorem read8_of_write8_eq_ok {b written : MemoryBank} {addr : Nat} {v : UInt8}
    (h : write8 addr v b = .ok () written) (x : Nat) :
    written.read8 x = if x = addr then .ok v else b.read8 x := by
  by_cases hc : b.Covers addr
  · rw [write8_of_covers v hc] at h
    cases h
    by_cases hx : x = addr
    · subst hx
      simp [read8, Covers, hc.1, hc.2]
    · by_cases hxc : b.Covers x
      · have hne : addr - b.base ≠ x - b.base := by
          have := hc.1
          have := hxc.1
          omega
        simp [read8, Covers, hx, hxc.1, hxc.2, hne]
      · have : ¬ (b.base ≤ x ∧ x - b.base < b.data.size) := hxc
        simp [read8, Covers, hx, outside, MemoryBank.size, this]
  · rw [write8_of_not_covers v hc] at h
    cases h

end MemoryBank

end Handheld
