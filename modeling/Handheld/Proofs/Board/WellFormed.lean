import Handheld.Board.Time
import Handheld.Proofs.Board.Change

namespace Handheld

/-- The bank begins at `base` and has `size` bytes. -/
structure MemoryBank.Occupies (m : MemoryBank) (base size : Nat) : Prop where
  base_eq : m.base = base
  size_eq : m.size = size

namespace MemoryBank

variable {m : MemoryBank} {base size addr : Nat}

theorem zeroed_occupies (name : String) (size base : Nat) :
    (zeroed name size base).Occupies base size :=
  ⟨rfl, size_zeroed name size base⟩

theorem Occupies.clear (h : m.Occupies base size) : m.clear.Occupies base size :=
  ⟨h.base_eq, (size_clear m).trans h.size_eq⟩

theorem Occupies.load (h : m.Occupies base size) (bytes : Array UInt8) :
    (m.load bytes).Occupies base size :=
  ⟨h.base_eq, (size_load m bytes).trans h.size_eq⟩

theorem Occupies.covers (h : m.Occupies base size) (hlow : base ≤ addr)
    (hhigh : addr < base + size) : m.Covers addr := by
  have hbase := h.base_eq
  have hsize : m.data.size = size := h.size_eq
  refine ⟨by omega, ?_⟩
  omega

theorem read8_eq_ok_iff : (∃ v, m.read8 addr = .ok v) ↔ m.Covers addr := by
  by_cases h : m.Covers addr <;> simp [read8, h]

theorem write8_preserves_occupies (addr : Nat) (v : UInt8) :
    Access.Preserves (fun m => m.Occupies base size) (write8 addr v) := by
  intro m h
  by_cases hcovers : m.Covers addr
  · rw [Access.after_of_ok (write8_of_covers v hcovers)]
    exact ⟨h.base_eq, (Array.size_set hcovers.2).trans h.size_eq⟩
  · rw [Access.after_of_error (write8_of_not_covers v hcovers)]
    exact h

/-- A refused write leaves the bank as it was. -/
theorem write8_eq_error {v : UInt8} {e : Fault} {t : MemoryBank}
    (h : write8 addr v m = .error e t) : t = m := by
  by_cases hcovers : m.Covers addr
  · rw [write8_of_covers v hcovers] at h
    cases h
  · rw [write8_of_not_covers v hcovers] at h
    cases h
    rfl

end MemoryBank

/-- The addresses of a region. -/
def Region.Spans (a : Nat) : Region → Prop
  | .romFixed => a < 0x4000
  | .romBanked => 0x4000 ≤ a ∧ a < 0x8000
  | .videoRam => 0x8000 ≤ a ∧ a < 0xA000
  | .externalRam => 0xA000 ≤ a ∧ a < 0xC000
  | .workRam => 0xC000 ≤ a ∧ a < 0xE000
  | .echo => 0xE000 ≤ a ∧ a < 0xFE00
  | .oam => 0xFE00 ≤ a ∧ a < 0xFEA0
  | .unusable => 0xFEA0 ≤ a ∧ a < 0xFF00
  | .io => 0xFF00 ≤ a ∧ a < 0xFF80
  | .zeroPage => 0xFF80 ≤ a ∧ a < 0xFFFF
  | .interruptEnable => a = 0xFFFF

/-- An address lies in its region. -/
theorem Region.of_spans (addr : UInt16) : (Region.of addr).Spans addr.toNat := by
  have hlt := addr.toNat_lt
  unfold Region.of
  simp only [UInt16.lt_iff_toNat_lt, UInt16.toNat_ofNat, Nat.reducePow, Nat.reduceMod]
  repeat' split
  all_goals simp only [Region.Spans]; omega

/-- No two addresses have a register in common. -/
theorem IoRegister.of_inj {x y : UInt16} (hmapped : IoRegister.of y ≠ .unmapped)
    (h : IoRegister.of x = IoRegister.of y) : x = y := by
  apply UInt16.toNat.inj
  generalize hr : IoRegister.of y = r at h hmapped
  unfold IoRegister.of at h hr
  split at h <;> subst h <;> split at hr <;>
    first | (cases hr; done) | omega | exact absurd rfl hmapped

theorem IoRegister.of_eq_iff {x y : UInt16} (hmapped : IoRegister.of y ≠ .unmapped) :
    IoRegister.of x = IoRegister.of y ↔ x = y :=
  ⟨of_inj hmapped, fun h => h ▸ rfl⟩

theorem IoRegister.of_eq_dma_iff {addr : UInt16} : IoRegister.of addr = .dma ↔ addr = 0xFF46 :=
  of_eq_iff (y := 0xFF46) (by decide)

/-- Every bank of the board lies in its place, and the controller stays within external memory. -/
structure Board.WellFormed (b : Board) : Prop where
  boot : b.boot.Occupies 0 bootSize
  rom_base : b.rom.base = 0
  rom_size : 2 * romBankSize ≤ b.rom.size
  externalRam : b.externalRam.Occupies 0 0x8000
  workRam : b.workRam.Occupies 0xC000 0x2000
  zeroPage : b.zeroPage.Occupies 0xFF80 0x7F
  vram : b.lcd.vram.Occupies 0x8000 0x2000
  oam : b.lcd.oam.Occupies 0xFE00 oamSize
  ramOffset : b.mapper.ramOffset ≤ 3 * 0x2000

theorem Mapper.ramOffset_ofScheme (s : Cartridge.Scheme) : (ofScheme s).ramOffset = 0 := by
  cases s <;> rfl

/-- A command selects one of four banks of external memory. -/
theorem Mapper.ramOffset_control {m : Mapper} (h : m.ramOffset ≤ 3 * 0x2000) (addr : UInt16)
    (v : UInt8) : (m.control addr v).ramOffset ≤ 3 * 0x2000 := by
  cases m with
  | romOnly => exact h
  | mbc1 m =>
    have hbits : (v &&& 0x03).toNat ≤ 3 := by
      rw [UInt8.toNat_and]
      exact Nat.and_le_right
    simp only [ramOffset] at h
    simp only [control, Mbc1.Command.ofWrite]
    split
    · exact h
    · split
      · exact h
      · split
        · cases hmode : m.mode with
          | rom => simpa only [ramOffset, Mbc1.obey, hmode] using h
          | ram =>
            simp only [ramOffset, Mbc1.obey, hmode]
            exact Nat.mul_le_mul_right _ hbits
        · exact h

namespace Board

variable {b : Board} {addr : UInt16} {v : UInt8}

theorem new_wellFormed (config : Config) : (new config).WellFormed where
  boot := (MemoryBank.zeroed_occupies _ _ _).load _
  rom_base := rfl
  rom_size := Nat.le_of_eq (MemoryBank.size_zeroed _ _ _).symm
  externalRam := MemoryBank.zeroed_occupies _ _ _
  workRam := MemoryBank.zeroed_occupies _ _ _
  zeroPage := MemoryBank.zeroed_occupies _ _ _
  vram := MemoryBank.zeroed_occupies _ _ _
  oam := MemoryBank.zeroed_occupies _ _ _
  ramOffset := Nat.zero_le _

theorem WellFormed.insert (h : b.WellFormed) (c : Cartridge) : (b.insert c).WellFormed where
  boot := h.boot
  rom_base := rfl
  rom_size := by
    simp only [Board.insert, MemoryBank.size_holding, romSize]
    omega
  externalRam := h.externalRam.clear
  workRam := h.workRam
  zeroPage := h.zeroPage
  vram := h.vram
  oam := h.oam
  ramOffset := by simp [Board.insert, Mapper.ramOffset_ofScheme]

theorem WellFormed.reset (h : b.WellFormed) (scheme : Cartridge.Scheme) :
    (b.reset scheme).WellFormed where
  boot := h.boot
  rom_base := h.rom_base
  rom_size := h.rom_size
  externalRam := h.externalRam.clear
  workRam := h.workRam.clear
  zeroPage := h.zeroPage.clear
  vram := h.vram.clear
  oam := h.oam.clear
  ramOffset := by simp [Board.reset, Mapper.ramOffset_ofScheme]

theorem WellFormed.beginStep (h : b.WellFormed) (pc : UInt16) : (b.beginStep pc).WellFormed :=
  { h with }

theorem WellFormed.setButton (h : b.WellFormed) (button : Button) (pressed : Bool) :
    (b.setButton button pressed).WellFormed :=
  { h with }

theorem WellFormed.advance (h : b.WellFormed) (cycles : Nat) : (b.advance cycles).1.WellFormed :=
  { h with }

theorem WellFormed.setRegister (h : b.WellFormed) (reg : IoRegister) (v : UInt8) :
    (b.setRegister reg v).WellFormed := by
  cases reg <;> exact { h with }

theorem Change.wellFormed {t : Board} (h : Change addr v b t) (hb : b.WellFormed) :
    t.WellFormed := by
  cases h with
  | nothing => exact hb
  | mapper => exact { hb with ramOffset := Mapper.ramOffset_control hb.ramOffset addr v }
  | vram a => exact { hb with vram := MemoryBank.write8_preserves_occupies a v _ hb.vram }
  | oam a => exact { hb with oam := MemoryBank.write8_preserves_occupies a v _ hb.oam }
  | externalRam a =>
    exact { hb with externalRam := MemoryBank.write8_preserves_occupies a v _ hb.externalRam }
  | workRam a => exact { hb with workRam := MemoryBank.write8_preserves_occupies a v _ hb.workRam }
  | zeroPage a =>
    exact { hb with zeroPage := MemoryBank.write8_preserves_occupies a v _ hb.zeroPage }
  | register => exact hb.setRegister _ v
  | transfer bytes => exact { hb with oam := hb.oam.load bytes }
  | enabled => exact { hb with }

theorem write8_preserves_wellFormed (addr : UInt16) (v : UInt8) :
    Access.Preserves WellFormed (write8 addr v) := fun b hb =>
  (after_write8_change addr v b).wellFormed hb

theorem WellFormed.rom_covers (h : b.WellFormed) {a : Nat} (ha : a < 2 * romBankSize) :
    b.rom.Covers a := by
  have hsize : 2 * romBankSize ≤ b.rom.data.size := h.rom_size
  refine ⟨by rw [h.rom_base]; exact Nat.zero_le a, ?_⟩
  rw [h.rom_base]
  exact Nat.lt_of_lt_of_le ha hsize

theorem WellFormed.externalRam_covers (h : b.WellFormed) {offset : Nat}
    (hoffset : b.externalOffset? addr = some offset) : b.externalRam.Covers offset := by
  unfold externalOffset? at hoffset
  split at hoffset
  · cases hoffset
    have hbank := h.ramOffset
    exact h.externalRam.covers (Nat.zero_le _) (by omega)
  · cases hoffset

/-- Only the switchable window of the cartridge can refuse a read. -/
theorem WellFormed.read8_eq_ok_iff (h : b.WellFormed) :
    (∃ v, b.read8 addr = .ok v) ↔
      (Region.of addr = .romBanked →
        b.rom.Covers (b.mapper.romOffset + addr.toNat % 0x4000)) := by
  have hspan := Region.of_spans addr
  unfold read8
  cases hr : Region.of addr <;>
    simp only [hr, Region.Spans, reduceCtorEq, false_implies, true_implies, iff_true] at hspan ⊢
  case romFixed =>
    split
    · rename_i hboot
      simp only [Bool.and_eq_true, decide_eq_true_eq, UInt16.lt_iff_toNat_lt] at hboot
      exact MemoryBank.read8_eq_ok_iff.mpr
        (h.boot.covers (Nat.zero_le _) (by simpa [bootSize] using hboot.2))
    · exact MemoryBank.read8_eq_ok_iff.mpr (h.rom_covers (Nat.lt_of_lt_of_le hspan (by decide)))
  case romBanked => exact MemoryBank.read8_eq_ok_iff
  case videoRam => exact MemoryBank.read8_eq_ok_iff.mpr (h.vram.covers hspan.1 hspan.2)
  case externalRam =>
    cases hoffset : b.externalOffset? addr with
    | none => exact ⟨_, rfl⟩
    | some offset => exact MemoryBank.read8_eq_ok_iff.mpr (h.externalRam_covers hoffset)
  case workRam => exact MemoryBank.read8_eq_ok_iff.mpr (h.workRam.covers hspan.1 hspan.2)
  case echo =>
    exact MemoryBank.read8_eq_ok_iff.mpr (h.workRam.covers (by omega) (by omega))
  case oam => exact MemoryBank.read8_eq_ok_iff.mpr (h.oam.covers hspan.1 hspan.2)
  case zeroPage => exact MemoryBank.read8_eq_ok_iff.mpr (h.zeroPage.covers hspan.1 hspan.2)
  case unusable | io | interruptEnable => exact ⟨_, rfl⟩

/-- What passes the check is written. -/
theorem WellFormed.write8_eq_ok (h : b.WellFormed) (hcheck : b.checkWrite addr v = .ok ()) :
    ∃ t, write8 addr v b = .ok () t := by
  have hspan := Region.of_spans addr
  have hbank {get : Board → MemoryBank} {set : MemoryBank → Board → Board} {a : Nat}
      (hcovers : (get b).Covers a) :
      ∃ t, Access.zoom get set (MemoryBank.write8 a v) b = .ok () t :=
    ⟨_, Access.zoom_eq_ok_iff.mpr ⟨_, MemoryBank.write8_of_covers v hcovers, rfl⟩⟩
  unfold write8
  cases hr : Region.of addr <;> simp only [hr, Region.Spans] at hspan ⊢
  case romFixed | romBanked | unusable | interruptEnable => exact ⟨_, rfl⟩
  case io =>
    by_cases hdma : IoRegister.of addr = .dma
    · rw [hdma]
      simp only [checkWrite, hr, hdma] at hcheck
      cases hpage : b.readPage v with
      | ok bytes => exact ⟨_, transfer_of_ok hpage⟩
      | error e => simp [hpage, Except.map] at hcheck
    · rw [writeRegister_of_ne_dma hdma]
      exact ⟨_, rfl⟩
  case videoRam => exact hbank (h.vram.covers hspan.1 hspan.2)
  case externalRam =>
    cases hoffset : b.externalOffset? addr with
    | none => exact ⟨_, rfl⟩
    | some offset => exact hbank (h.externalRam_covers hoffset)
  case workRam => exact hbank (h.workRam.covers hspan.1 hspan.2)
  case echo => exact hbank (h.workRam.covers (by omega) (by omega))
  case oam => exact hbank (h.oam.covers hspan.1 hspan.2)
  case zeroPage => exact hbank (h.zeroPage.covers hspan.1 hspan.2)

end Board

end Handheld
