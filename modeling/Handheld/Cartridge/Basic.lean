namespace Handheld

/-- The bank controller that a cartridge carries. -/
inductive Cartridge.Scheme
  /-- None: the image is mapped as it is. -/
  | romOnly
  /-- The controller `MBC1`, with or without external memory. -/
  | mbc1
  deriving DecidableEq, Repr, Inhabited

def Cartridge.Scheme.text : Cartridge.Scheme → String
  | .romOnly => "RomOnly"
  | .mbc1 => "Mbc1"

/-- A cartridge, whose image holds at least one byte. -/
structure Cartridge where
  image : Array UInt8
  image_nonempty : 0 < image.size
  deriving DecidableEq

namespace Cartridge

/-- The cartridge with this image, unless it is empty. -/
def ofImage? (image : Array UInt8) : Option Cartridge :=
  if h : 0 < image.size then some ⟨image, h⟩ else none

/-- The type byte of the header; zero in an image too short for one. -/
def typeCode (c : Cartridge) : UInt8 :=
  (c.image[0x147]?).getD 0

/-- The scheme that the type byte stands for. -/
def scheme (c : Cartridge) : Scheme :=
  if 0x01 ≤ c.typeCode ∧ c.typeCode ≤ 0x03 then .mbc1 else .romOnly

/-- The byte is a printable ASCII character. -/
def isPrintable (b : UInt8) : Bool :=
  0x20 ≤ b ∧ b ≤ 0x7E

/-- The printable characters of the header's title, up to its first zero byte. An image that ends
    within the field has no title. -/
def title (c : Cartridge) : String :=
  if c.image.size < 0x144 then ""
  else
    let field := (c.image.extract 0x134 0x144).toList
    let shown := (field.takeWhile (· ≠ 0)).filter isPrintable
    String.ofList (shown.map fun b => Char.ofNat b.toNat)

end Cartridge

end Handheld
