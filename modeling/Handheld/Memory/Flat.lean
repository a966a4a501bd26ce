import Handheld.Cpu.Bus

namespace Handheld

/-- What a processor asks of its bus. -/
inductive BusCall
  | beginStep (pc : UInt16)
  | read (addr : UInt16)
  | write (addr : UInt16) (v : UInt8)
  | tick (cycles : Nat)
  deriving DecidableEq, Repr, Inhabited

/-- Plain memory at every address. -/
structure FlatMemory where
  bytes : Vector UInt8 65536 := Vector.replicate 65536 0
  /-- Addresses that refuse to be read. -/
  readFaults : UInt16 → Bool := fun _ => false
  /-- Addresses that refuse to be written. -/
  writeFaults : UInt16 → Bool := fun _ => false
  /-- The calls that succeeded, oldest first. -/
  journal : Array BusCall := #[]
  /-- What the processor reported, oldest first. -/
  notices : Array Cpu.Notice := #[]

namespace FlatMemory

/-- The byte at an address. -/
def get (m : FlatMemory) (addr : UInt16) : UInt8 :=
  have := addr.toNat_lt
  m.bytes[addr.toNat]

/-- Puts a byte at an address, whether or not it refuses writes. -/
def set (m : FlatMemory) (addr : UInt16) (v : UInt8) : FlatMemory :=
  { m with bytes := m.bytes.set addr.toNat v addr.toNat_lt }

theorem get_set (m : FlatMemory) (x y : UInt16) (v : UInt8) :
    (m.set x v).get y = if x = y then v else m.get y := by
  simp only [get, set, Vector.getElem_set, UInt16.toNat_inj]

/-- Adds a call to the journal. -/
def note (m : FlatMemory) (call : BusCall) : FlatMemory :=
  { m with journal := m.journal.push call }

instance : Bus FlatMemory where
  read8 addr m :=
    if m.readFaults addr then .error (.bankOutOfBounds "read" addr.toNat 0 0) m
    else .ok (m.get addr) (m.note (.read addr))
  write8 addr v m :=
    if m.writeFaults addr then .error (.bankOutOfBounds "write" addr.toNat 0 0) m
    else .ok () ((m.set addr v).note (.write addr v))
  beginStep pc m := m.note (.beginStep pc)
  tick cycles m := m.note (.tick cycles)
  report n m := { m with notices := m.notices.push n }

end FlatMemory

end Handheld
