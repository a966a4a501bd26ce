namespace Handheld.Hex

/-- The upper-case digits of `n`, filled up with zeros on the left to at least `width`. -/
def padded (width n : Nat) : String :=
  String.ofList (((Nat.toDigits 16 n).map Char.toUpper).leftpad width '0')

/-- Two digits for a byte. -/
def byte (b : UInt8) : String :=
  padded 2 b.toNat

/-- Four digits for a word. -/
def word (w : UInt16) : String :=
  padded 4 w.toNat

end Handheld.Hex
