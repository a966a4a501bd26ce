namespace Handheld.Word

/-- The word whose high byte is `hi` and whose low byte is `lo`. -/
def ofBytes (hi lo : UInt8) : UInt16 :=
  UInt16.ofNat (hi.toNat * 256 + lo.toNat)

/-- The low byte of a word. -/
def lo (w : UInt16) : UInt8 :=
  w.toUInt8

/-- The high byte of a word. -/
def hi (w : UInt16) : UInt8 :=
  (w / 256).toUInt8

/-- A byte read as a two's complement number, widened to a word. -/
def signExtend (e : UInt8) : UInt16 :=
  if e < 128 then e.toUInt16 else e.toUInt16 + 0xFF00

/-- The address of byte `offset` of the high page, `0xFF00` to `0xFFFF`. -/
def highPage (offset : UInt8) : UInt16 :=
  0xFF00 + offset.toUInt16

/-- The address of the first byte of a page. -/
def pageStart (page : UInt8) : UInt16 :=
  ofBytes page 0

theorem toNat_ofBytes (hi lo : UInt8) : (ofBytes hi lo).toNat = hi.toNat * 256 + lo.toNat := by
  have h := hi.toNat_lt
  have l := lo.toNat_lt
  simp only [ofBytes, UInt16.toNat_ofNat']
  omega

theorem toNat_lo (w : UInt16) : (lo w).toNat = w.toNat % 256 := by
  simp [lo]

theorem toNat_hi (w : UInt16) : (hi w).toNat = w.toNat / 256 := by
  have h := w.toNat_lt
  simp only [hi, UInt16.toNat_toUInt8, UInt16.toNat_div, UInt16.toNat_ofNat, Nat.reducePow,
    Nat.reduceMod]
  omega

@[simp]
theorem ofBytes_hi_lo (w : UInt16) : ofBytes (hi w) (lo w) = w := by
  apply UInt16.toNat.inj
  rw [toNat_ofBytes, toNat_hi, toNat_lo]
  omega

@[simp]
theorem hi_ofBytes (h l : UInt8) : hi (ofBytes h l) = h := by
  apply UInt8.toNat.inj
  have := l.toNat_lt
  rw [toNat_hi, toNat_ofBytes]
  omega

@[simp]
theorem lo_ofBytes (h l : UInt8) : lo (ofBytes h l) = l := by
  apply UInt8.toNat.inj
  have := l.toNat_lt
  rw [toNat_lo, toNat_ofBytes]
  omega

end Handheld.Word
