import Handheld.Proofs.Board.Refusal

namespace Handheld

/-- An address belongs to the region that it lies in. -/
theorem Region.of_eq_iff {addr : UInt16} {r : Region} :
    Region.of addr = r ↔ r.Spans addr.toNat := by
  have hspan := Region.of_spans addr
  constructor
  · rintro rfl
    exact hspan
  · intro hr
    -- No address lies in two regions.
    cases hof : Region.of addr <;> rw [hof] at hspan <;> cases r <;>
      first | rfl | (simp only [Spans] at hspan hr; omega)

/-- The byte of the image at an offset, or the zero that stands for it past the end. -/
def Cartridge.byte (c : Cartridge) (i : Nat) : UInt8 :=
  c.image[i]?.getD 0

/-- The bytes that the program takes up on the board. -/
def Cartridge.programSize (c : Cartridge) : Nat :=
  Board.romSize c.image.size

/-- The program has all the banks that the controller can select. -/
def Cartridge.Complete (c : Cartridge) : Prop :=
  c.scheme = .romOnly ∨ 128 * Board.romBankSize ≤ c.programSize

theorem MemoryBank.read8_holding (name : String) {bytes : Array UInt8} {size : Nat}
    (hsize : bytes.size ≤ size) (i : Nat) :
    (holding name bytes size 0).read8 i =
      if i < size then .ok (bytes[i]?.getD 0) else .error (.bankOutOfBounds name i 0 size) := by
  have hfull : bytes.size + (size - bytes.size) = size := by omega
  by_cases hi : i < size
  · by_cases hbyte : i < bytes.size
    · simp [read8, Covers, holding, hfull, hi, hbyte]
    · simp [read8, Covers, holding, hfull, hi, hbyte, Array.getElem_append]
  · simp [read8, Covers, holding, outside, MemoryBank.size, hfull, hi]

namespace Mapper

/-- The bank of the program that the switchable window shows. -/
def romBank : Mapper → Nat
  | .romOnly => 1
  | .mbc1 m => m.romBank.toNat

theorem romOffset_eq (m : Mapper) : m.romOffset = m.romBank * Board.romBankSize := by
  cases m <;> rfl

theorem scheme_ofScheme (s : Cartridge.Scheme) : (ofScheme s).scheme = s := by
  cases s <;> rfl

theorem scheme_control (m : Mapper) (addr : UInt16) (v : UInt8) :
    (m.control addr v).scheme = m.scheme := by
  cases m <;> rfl

theorem romBank_ofScheme (s : Cartridge.Scheme) : (ofScheme s).romBank = 1 := by
  cases s <;> rfl

private theorem bank_lt {high low : UInt8} (hhigh : high.toNat < 128) (hlow : low.toNat < 128) :
    (high ||| low).toNat < 128 := by
  rw [UInt8.toNat_or]
  exact Nat.or_lt_two_pow (n := 7) hhigh hlow

private theorem and_lt (v : UInt8) {mask : UInt8} {n : Nat} (hmask : mask.toNat < n) :
    (v &&& mask).toNat < n := by
  rw [UInt8.toNat_and]
  exact Nat.lt_of_le_of_lt Nat.and_le_right hmask

/-- A command selects one of 128 banks of the program. -/
theorem romBank_control {m : Mapper} (h : m.romBank < 128) (addr : UInt16) (v : UInt8) :
    (m.control addr v).romBank < 128 := by
  cases m with
  | romOnly => exact h
  | mbc1 m =>
    -- Of the four commands two set bits of the bank: the low five, or in ROM mode the two above.
    simp only [control, Mbc1.Command.ofWrite]
    split
    · exact h
    · split
      · refine bank_lt (and_lt _ (by decide)) ?_
        split
        · decide
        · exact and_lt _ (by decide)
      · split
        · cases hmode : m.mode with
          | ram => simpa only [romBank, Mbc1.obey, hmode] using h
          | rom =>
            have hbits : (v &&& 0x03).toNat < 4 := and_lt _ (by decide)
            have hhigh : ((v &&& 0x03) <<< (5 : UInt8)).toNat < 128 := by
              rw [UInt8.toNat_shiftLeft, Nat.shiftLeft_eq]
              simp only [UInt8.toNat_ofNat, Nat.reducePow, Nat.reduceMod]
              omega
            simp only [romBank, Mbc1.obey, hmode]
            exact bank_lt (and_lt _ (by decide)) hhigh
        · exact h

end Mapper

namespace Board

theorem size_le_romSize (n : Nat) : n ≤ romSize n := by
  unfold romSize romBankSize
  omega

theorem two_banks_le_romSize (n : Nat) : 2 * romBankSize ≤ romSize n :=
  Nat.le_max_right _ _

theorem romSize_mod (n : Nat) : romSize n % romBankSize = 0 := by
  unfold romSize romBankSize
  omega

/-- The board carries a cartridge: the program is in its place, unaltered, and the controller is the
    cartridge's own and selects one of 128 banks. -/
structure Carries (b : Board) (cart : Cartridge) : Prop where
  wellFormed : b.WellFormed
  rom : b.rom = .holding "rom" cart.image cart.programSize 0
  scheme : b.mapper.scheme = cart.scheme
  romBank : b.mapper.romBank < 128

variable {b t : Board} {cart : Cartridge} {addr : UInt16} {v : UInt8}

theorem WellFormed.insert_carries (h : b.WellFormed) (cart : Cartridge) :
    (b.insert cart).Carries cart where
  wellFormed := h.insert cart
  rom := rfl
  scheme := Mapper.scheme_ofScheme cart.scheme
  romBank := by
    change (Mapper.ofScheme cart.scheme).romBank < 128
    rw [Mapper.romBank_ofScheme]
    decide

theorem Carries.reset (h : b.Carries cart) : (b.reset cart.scheme).Carries cart where
  wellFormed := h.wellFormed.reset cart.scheme
  rom := h.rom
  scheme := Mapper.scheme_ofScheme cart.scheme
  romBank := by
    change (Mapper.ofScheme cart.scheme).romBank < 128
    rw [Mapper.romBank_ofScheme]
    decide

theorem Carries.beginStep (h : b.Carries cart) (pc : UInt16) : (b.beginStep pc).Carries cart :=
  { h with wellFormed := h.wellFormed.beginStep pc }

theorem Carries.setButton (h : b.Carries cart) (button : Button) (pressed : Bool) :
    (b.setButton button pressed).Carries cart :=
  { h with wellFormed := h.wellFormed.setButton button pressed }

theorem Carries.advance (h : b.Carries cart) (cycles : Nat) : (b.advance cycles).1.Carries cart :=
  { h with wellFormed := h.wellFormed.advance cycles }

theorem Change.carries (hchange : Change addr v b t) (h : b.Carries cart) : t.Carries cart := by
  have ht := hchange.wellFormed h.wellFormed
  cases hchange with
  | mapper =>
    exact ⟨ht, h.rom, (Mapper.scheme_control _ addr v).trans h.scheme,
      Mapper.romBank_control h.romBank addr v⟩
  | register =>
    cases hreg : IoRegister.of addr <;> rw [hreg] at ht <;> exact { h with wellFormed := ht }
  | _ => exact { h with wellFormed := ht }

/-- No write makes the controller one of another scheme. -/
theorem Change.scheme (hchange : Change addr v b t) : t.mapper.scheme = b.mapper.scheme := by
  cases hchange with
  | mapper => exact Mapper.scheme_control _ addr v
  | register => cases IoRegister.of addr <;> rfl
  | _ => rfl

theorem write8_preserves_carries (cart : Cartridge) (addr : UInt16) (v : UInt8) :
    Access.Preserves (Carries · cart) (write8 addr v) := fun b hb =>
  (after_write8_change addr v b).carries hb

/-- Where in the program the switchable window shows an address. -/
def windowOffset (b : Board) (addr : UInt16) : Nat :=
  b.mapper.romBank * romBankSize + addr.toNat % romBankSize

theorem Carries.rom_read8 (h : b.Carries cart) (i : Nat) :
    b.rom.read8 i = if i < cart.programSize then .ok (cart.byte i)
      else .error (.bankOutOfBounds "rom" i 0 cart.programSize) := by
  rw [h.rom]
  exact MemoryBank.read8_holding "rom" (size_le_romSize cart.image.size) i

/-- Outside the boot program the fixed window shows the start of the image. -/
theorem Carries.read8_fixed (h : b.Carries cart) (haddr : addr < 0x4000)
    (hoverlay : ¬ (b.overlay = true ∧ addr < 0x100)) :
    b.read8 addr = .ok (cart.byte addr.toNat) := by
  have hregion : Region.of addr = .romFixed := Region.of_eq_iff.mpr haddr
  have hsize : addr.toNat < cart.programSize :=
    Nat.lt_of_lt_of_le haddr (Nat.le_trans (by decide) (two_banks_le_romSize _))
  have hboot : (b.overlay && decide (addr < 0x100)) = false := by
    simpa using hoverlay
  unfold Board.read8
  rw [hregion, hboot, h.rom_read8]
  simp [hsize]

/-- The switchable window shows the selected bank, or refuses if the program has no such bank. -/
theorem Carries.read8_banked (h : b.Carries cart) (hlow : 0x4000 ≤ addr) (hhigh : addr < 0x8000) :
    b.read8 addr =
      if b.windowOffset addr < cart.programSize then .ok (cart.byte (b.windowOffset addr))
      else .error (.bankOutOfBounds "rom" (b.windowOffset addr) 0 cart.programSize) := by
  have hregion : Region.of addr = .romBanked := Region.of_eq_iff.mpr ⟨hlow, hhigh⟩
  unfold Board.read8
  rw [hregion]
  simp only [Mapper.romOffset_eq]
  exact h.rom_read8 _

theorem WellFormed.read8_outside (h : b.WellFormed) (haddr : ¬ (0x4000 ≤ addr ∧ addr < 0x8000)) :
    ∃ v, b.read8 addr = .ok v :=
  h.read8_eq_ok_iff.mpr fun hregion => absurd (Region.of_eq_iff.mp hregion) haddr

theorem toNat_pageStart_add (page : UInt8) {i : Nat} (hi : i < oamSize) :
    (Word.pageStart page + UInt16.ofNat i).toNat = page.toNat * 256 + i := by
  have hpage := page.toNat_lt
  unfold oamSize at hi
  rw [UInt16.toNat_add, Word.pageStart, Word.toNat_ofBytes, UInt16.toNat_ofNat']
  simp only [UInt8.toNat_ofNat, Nat.reducePow]
  omega

/-- Either all bytes of a page can be read or none. A program of whole banks ends where a bank does,
    so that no page is cut in two. -/
theorem WellFormed.read8_page_iff (h : b.WellFormed) (hwhole : romBankSize ∣ b.rom.size)
    {page : UInt8} {i : Nat} (hi : i < oamSize) :
    (∃ v, b.read8 (Word.pageStart page + UInt16.ofNat i) = .ok v) ↔
      (0x40 ≤ page ∧ page < 0x80 → b.mapper.romBank * romBankSize < b.rom.size) := by
  have hbanks : b.rom.data.size % romBankSize = 0 := Nat.mod_eq_zero_of_dvd hwhole
  rw [h.read8_eq_ok_iff, Region.of_eq_iff, MemoryBank.Covers, h.rom_base, Mapper.romOffset_eq,
    toNat_pageStart_add page hi]
  simp only [Region.Spans, UInt8.le_iff_toNat_le, UInt8.lt_iff_toNat_lt, UInt8.toNat_ofNat,
    Nat.reducePow, Nat.reduceMod, MemoryBank.size]
  unfold oamSize romBankSize at *
  omega

theorem Carries.rom_size (h : b.Carries cart) : b.rom.size = cart.programSize := by
  rw [h.rom, MemoryBank.size_holding]
  exact Nat.max_eq_right (size_le_romSize cart.image.size)

theorem Carries.read8_page_iff (h : b.Carries cart) {page : UInt8} {i : Nat} (hi : i < oamSize) :
    (∃ v, b.read8 (Word.pageStart page + UInt16.ofNat i) = .ok v) ↔
      (0x40 ≤ page ∧ page < 0x80 → b.mapper.romBank * romBankSize < cart.programSize) := by
  have hwhole : romBankSize ∣ b.rom.size := by
    rw [h.rom_size]
    exact Nat.dvd_of_mod_eq_zero (romSize_mod _)
  rw [h.wellFormed.read8_page_iff hwhole hi, h.rom_size]

/-- A page can be read unless it lies in the switchable window and the selected bank is missing. -/
theorem Carries.readPage_eq_ok_iff (h : b.Carries cart) {page : UInt8} :
    (∃ bytes, b.readPage page = .ok bytes) ↔
      (0x40 ≤ page ∧ page < 0x80 → b.mapper.romBank * romBankSize < cart.programSize) := by
  rw [Board.readPage_eq_ok_iff]
  constructor
  · intro hbytes
    exact (h.read8_page_iff (i := 0) (by decide)).mp (hbytes 0 (by decide))
  · intro hpage i hi
    exact (h.read8_page_iff hi).mpr hpage

/-- A write is refused if it starts a transfer from a missing bank, and only then. -/
theorem Carries.checkWrite_eq_ok_iff (h : b.Carries cart) :
    b.checkWrite addr v = .ok () ↔
      (addr = 0xFF46 ∧ 0x40 ≤ v ∧ v < 0x80 →
        b.mapper.romBank * romBankSize < cart.programSize) := by
  rw [h.wellFormed.checkWrite_eq_ok_iff, h.readPage_eq_ok_iff,
    IoRegister.of_eq_dma_iff]
  simp only [and_imp]

theorem Carries.windowOffset_lt (h : b.Carries cart) (hcomplete : cart.Complete) (addr : UInt16) :
    b.windowOffset addr < cart.programSize := by
  have hbank := h.romBank
  have hscheme := h.scheme
  have htwo : 2 * romBankSize ≤ cart.programSize := two_banks_le_romSize _
  unfold Cartridge.Complete at hcomplete
  unfold windowOffset romBankSize at *
  obtain hromOnly | hall := hcomplete
  · rw [hromOnly] at hscheme
    cases hmapper : b.mapper with
    | romOnly =>
      simp only [Mapper.romBank]
      omega
    | mbc1 m =>
      rw [hmapper] at hscheme
      cases hscheme
  · omega

theorem Carries.read8_succeeds (h : b.Carries cart) (hcomplete : cart.Complete) (addr : UInt16) :
    ∃ v, b.read8 addr = .ok v := by
  by_cases haddr : 0x4000 ≤ addr ∧ addr < 0x8000
  · rw [h.read8_banked haddr.1 haddr.2, if_pos (h.windowOffset_lt hcomplete addr)]
    exact ⟨_, rfl⟩
  · exact h.wellFormed.read8_outside haddr

theorem Carries.checkWrite_succeeds (h : b.Carries cart) (hcomplete : cart.Complete) (addr : UInt16)
    (v : UInt8) : b.checkWrite addr v = .ok () := by
  refine h.checkWrite_eq_ok_iff.mpr fun _ => ?_
  exact Nat.lt_of_le_of_lt (Nat.le_add_right _ _) (h.windowOffset_lt hcomplete addr)

end Board

end Handheld
