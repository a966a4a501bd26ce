import Handheld.Cartridge.Basic
import Handheld.Log.Level

namespace Handheld

/-- What the upper bank register selects. -/
inductive Mbc1.Mode
  /-- Bits 5 and 6 of the program bank. -/
  | rom
  /-- The bank of external memory. -/
  | ram
  deriving DecidableEq, Repr, Inhabited

def Mbc1.Mode.text : Mbc1.Mode → String
  | .rom => "Rom"
  | .ram => "Ram"

/-- The registers of the controller `MBC1`. -/
structure Mbc1 where
  romBank : UInt8 := 1
  ramBank : UInt8 := 0
  ramEnabled : Bool := false
  mode : Mbc1.Mode := .rom
  deriving DecidableEq, Repr, Inhabited

/-- What a write to the program area tells the controller. -/
inductive Mbc1.Command
  | gateRam (on : Bool)
  /-- The low five bits of the program bank. -/
  | selectLow (bits : UInt8)
  /-- The two bits of the upper bank register. -/
  | selectHigh (bits : UInt8)
  | setMode (mode : Mbc1.Mode)
  deriving DecidableEq, Repr, Inhabited

/-- What the controller reports of its work. -/
inductive Mbc1.Notice
  | ramGate (on : Bool)
  | romBank (bank : UInt8)
  | ramBank (bank : UInt8)
  | banking (mode : Mbc1.Mode)
  deriving DecidableEq, Repr, Inhabited

def Mbc1.Notice.message : Mbc1.Notice → String
  | .ramGate on => "MBC1: external RAM " ++ if on then "on" else "off"
  | .romBank bank => s!"MBC1: ROM bank {bank.toNat}"
  | .ramBank bank => s!"MBC1: RAM bank {bank.toNat}"
  | .banking mode => s!"MBC1: banking mode {mode.text}"

namespace Mbc1

/-- The command given by writing `v` at `addr`: each quarter of the program area is one register.
    External memory is opened by the digit `A` in the low half of the byte. -/
def Command.ofWrite (addr : UInt16) (v : UInt8) : Command :=
  if addr < 0x2000 then .gateRam ((v &&& 0x0F) == 0x0A)
  else if addr < 0x4000 then .selectLow (v &&& 0x1F)
  else if addr < 0x6000 then .selectHigh (v &&& 0x03)
  else .setMode (if v &&& 0x01 = 0 then .rom else .ram)

/-- Obeys a command. The low bits of the program bank are never zero: one stands in for it. -/
def obey (m : Mbc1) : Command → Mbc1
  | .gateRam on => { m with ramEnabled := on }
  | .selectLow bits =>
    { m with romBank := (m.romBank &&& 0x60) ||| (if bits = 0 then 1 else bits) }
  | .selectHigh bits =>
    match m.mode with
    | .ram => { m with ramBank := bits }
    | .rom => { m with romBank := (m.romBank &&& 0x1F) ||| bits <<< (5 : UInt8) }
  | .setMode mode => { m with mode }

/-- What is reported about obeying a command. Opening what is open is not worth a word. -/
def notice? (m : Mbc1) (command : Command) : Option Notice :=
  match command with
  | .gateRam on => if on = m.ramEnabled then none else some (.ramGate on)
  | .selectLow _ => some (.romBank (m.obey command).romBank)
  | .selectHigh _ =>
    match m.mode with
    | .ram => some (.ramBank (m.obey command).ramBank)
    | .rom => some (.romBank (m.obey command).romBank)
  | .setMode mode => some (.banking mode)

end Mbc1

/-- The bank controller of a cartridge in its present state. -/
inductive Mapper
  | romOnly
  | mbc1 (m : Mbc1)
  deriving DecidableEq, Repr, Inhabited

namespace Mapper

/-- The controller of a scheme at power-on. -/
def ofScheme : Cartridge.Scheme → Mapper
  | .romOnly => .romOnly
  | .mbc1 => .mbc1 {}

def scheme : Mapper → Cartridge.Scheme
  | .romOnly => .romOnly
  | .mbc1 _ => .mbc1

/-- The controller after a write to the program area. -/
def control (addr : UInt16) (v : UInt8) : Mapper → Mapper
  | .romOnly => .romOnly
  | .mbc1 m => .mbc1 (m.obey (.ofWrite addr v))

/-- What is reported about a write to the program area. -/
def notice? (addr : UInt16) (v : UInt8) : Mapper → Option Mbc1.Notice
  | .romOnly => none
  | .mbc1 m => m.notice? (.ofWrite addr v)

/-- Where in the image the switchable window starts. -/
def romOffset : Mapper → Nat
  | .romOnly => 0x4000
  | .mbc1 m => m.romBank.toNat * 0x4000

/-- Where in external memory its window starts. -/
def ramOffset : Mapper → Nat
  | .romOnly => 0
  | .mbc1 m => m.ramBank.toNat * 0x2000

/-- External memory answers. -/
def ramEnabled : Mapper → Bool
  | .romOnly => true
  | .mbc1 m => m.ramEnabled

end Mapper

end Handheld
