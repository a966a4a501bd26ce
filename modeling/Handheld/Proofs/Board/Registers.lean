import Handheld.Proofs.Board.Cells
import Handheld.Proofs.Board.Requests
import Handheld.Proofs.Joypad

namespace Handheld

namespace Interrupts

theorem toByte_ofByte (v : UInt8) : (ofByte v).toByte = v &&& 0x1F := by
  have hbytes : ∀ w : Fin 256, (ofByte (.ofFin w)).toByte = .ofFin w &&& 0x1F := by
    decide +kernel
  exact hbytes v.toFin

end Interrupts

namespace Lcd

variable {l : Lcd}

/-- Only bits 3 to 6 of the choices are ever set. -/
def Chooses (l : Lcd) : Prop :=
  l.regs.statSelect &&& 0x78 = l.regs.statSelect

theorem chooses_of_none (h : l.regs.statSelect = 0) : l.Chooses := by
  unfold Chooses
  rw [h]
  rfl

/-- Below the choices, the status register has the match in bit 2 and the mode in the others. -/
theorem Chooses.stat_and_live (h : l.Chooses) :
    l.stat &&& 0x07 = (if l.ly = l.regs.lyc then 0x04 else 0) ||| l.raster.mode.number := by
  have hbytes : ∀ w : Fin 256, ∀ k : Fin 8,
      (0x80 ||| (UInt8.ofFin w &&& 0x78) ||| UInt8.ofNat k.val) &&& 0x07 = UInt8.ofNat k.val := by
    decide +kernel
  have hselect := hbytes l.regs.statSelect.toFin
  change ∀ k : Fin 8, (0x80 ||| (l.regs.statSelect &&& 0x78) ||| UInt8.ofNat k.val) &&& 0x07 =
    UInt8.ofNat k.val at hselect
  rw [h] at hselect
  unfold stat
  rw [UInt8.or_assoc]
  by_cases hmatch : l.ly = l.regs.lyc
  · rw [if_pos hmatch]
    cases l.raster.mode with
    | hBlank => exact hselect 4
    | vBlank => exact hselect 5
    | oamScan => exact hselect 6
    | pixelTransfer => exact hselect 7
  · rw [if_neg hmatch]
    cases l.raster.mode with
    | hBlank => exact hselect 0
    | vBlank => exact hselect 1
    | oamScan => exact hselect 2
    | pixelTransfer => exact hselect 3

theorem Chooses.stat_and_mode (h : l.Chooses) : l.stat &&& 0x03 = l.raster.mode.number := by
  have hmask : l.stat &&& 0x03 = l.stat &&& 0x07 &&& 0x03 := by
    rw [UInt8.and_assoc]
    rfl
  rw [hmask, h.stat_and_live]
  by_cases hmatch : l.ly = l.regs.lyc
  · rw [if_pos hmatch]
    cases l.raster.mode <;> rfl
  · rw [if_neg hmatch]
    cases l.raster.mode <;> rfl

theorem Chooses.stat_and_match (h : l.Chooses) : l.stat &&& 0x04 ≠ 0 ↔ l.ly = l.regs.lyc := by
  have hmask : l.stat &&& 0x04 = l.stat &&& 0x07 &&& 0x04 := by
    rw [UInt8.and_assoc]
    rfl
  rw [hmask, h.stat_and_live]
  by_cases hmatch : l.ly = l.regs.lyc
  · rw [if_pos hmatch]
    refine iff_of_true ?_ hmatch
    cases l.raster.mode <;> decide
  · rw [if_neg hmatch]
    refine iff_of_false ?_ hmatch
    cases l.raster.mode <;> decide

end Lcd

theorem IoRegister.of_eq_joypad_iff {addr : UInt16} :
    IoRegister.of addr = .joypad ↔ addr = Joypad.addr :=
  of_eq_iff (y := Joypad.addr) (by decide)

namespace Board

open Button (Group)

variable {b t : Board} {addr other : UInt16} {v : UInt8} {reg reg' : IoRegister}

/-- A write leaves the joypad alone unless it goes to its register, which it then sets. -/
theorem Change.joypad (h : Change addr v b t) :
    t.joypad = b.joypad ∨ addr = Joypad.addr ∧ t.joypad = b.joypad.write v := by
  cases h with
  | register =>
    by_cases haddr : addr = Joypad.addr
    · subst haddr
      exact .inr ⟨rfl, rfl⟩
    · refine .inl ?_
      have hreg := mt IoRegister.of_eq_joypad_iff.mp haddr
      cases hof : IoRegister.of addr with
      | joypad => exact absurd hof hreg
      | _ => rfl
  | _ => exact .inl rfl

/-- Setting a register changes nothing but registers. -/
theorem setRegister_eq (b : Board) (reg : IoRegister) (v : UInt8) :
    ∃ regs timer joypad requested, b.setRegister reg v =
      { b with lcd := { b.lcd with regs }, timer, joypad, requested } := by
  cases reg <;> exact ⟨_, _, _, _, rfl⟩

/-- What is read outside of the page of registers does not depend on registers. -/
theorem read8_setRegister_of_not_io (h : Region.of other ≠ .io) (reg : IoRegister) (v : UInt8) :
    (b.setRegister reg v).read8 other = b.read8 other := by
  obtain ⟨regs, timer, joypad, requested, hset⟩ := b.setRegister_eq reg v
  rw [hset]
  unfold read8
  cases hregion : Region.of other with
  | io => exact absurd hregion h
  | _ => rfl

/-- A register that is set leaves the others as they are; only the match in the status register
    depends on another, the line asked for. -/
theorem readRegister_setRegister_of_ne (h : reg' ≠ reg) (hmatch : ¬ (reg = .lyc ∧ reg' = .stat)) :
    (b.setRegister reg v).readRegister reg' = b.readRegister reg' := by
  cases reg <;> cases reg' <;>
    first
      | rfl
      | exact absurd rfl h
      | exact absurd ⟨rfl, rfl⟩ hmatch

/-- What is read at an address of the page once `v` is written there, by the map of the page. -/
def shownAfter (b : Board) (v : UInt8) (addr : UInt16) : UInt8 :=
  match addr.toNat with
  | 0xFF00 => (Group.selectedBy? v).elim 0 (Joypad.activeLow b.joypad.holds)
  | 0xFF04 => 0
  | 0xFF05 => v
  | 0xFF06 => v
  | 0xFF07 => v &&& 0x07
  | 0xFF0F => v &&& 0x1F
  | 0xFF40 => v
  | 0xFF41 => 0x80 ||| (v &&& 0x78) ||| (b.lcd.stat &&& 0x07)
  | 0xFF42 => v
  | 0xFF43 => v
  | 0xFF44 => b.lcd.ly
  | 0xFF45 => v
  | 0xFF47 => v
  | 0xFF48 => v
  | 0xFF49 => v
  | 0xFF4A => v
  | 0xFF4B => v
  | _ => 0

/-- The keys and the choices of the status register have no bits but their own. -/
structure Tidy (b : Board) : Prop where
  joypad : ∃ held, b.joypad.Shows held
  lcd : b.lcd.Chooses

theorem Tidy.readRegister_joypad (h : b.Tidy) (v : UInt8) :
    (b.setRegister .joypad v).readRegister .joypad =
      (Group.selectedBy? v).elim 0 (Joypad.activeLow b.joypad.holds) := by
  obtain ⟨held, hheld⟩ := h.joypad
  rw [Joypad.holds_eq hheld]
  exact (hheld.write v).read rfl

theorem Tidy.readRegister_stat (h : b.Tidy) (v : UInt8) :
    (b.setRegister .stat v).readRegister .stat =
      0x80 ||| (v &&& 0x78) ||| (b.lcd.stat &&& 0x07) := by
  rw [h.lcd.stat_and_live, ← UInt8.or_assoc]
  rfl

/-- A register shows what was written to it as far as it can be written. -/
theorem Tidy.readRegister_setRegister (h : b.Tidy) (haddr : addr ≠ 0xFF46) (v : UInt8) :
    (b.setRegister (.of addr) v).readRegister (.of addr) = b.shownAfter v addr := by
  unfold shownAfter
  generalize hreg : IoRegister.of addr = reg
  unfold IoRegister.of at hreg
  split at hreg <;> subst hreg <;> simp only [*] <;>
    first
      | rfl
      | exact h.readRegister_joypad v
      | exact Interrupts.toByte_ofByte v
      | exact h.readRegister_stat v
      | exact absurd (UInt16.toNat.inj ‹addr.toNat = 0xFF46›) haddr

/-- A write to a register that starts no transfer sets the register. -/
theorem write8_register (hlow : 0xFF00 ≤ addr) (hhigh : addr < 0xFF80) (haddr : addr ≠ 0xFF46)
    (v : UInt8) : write8 addr v b = .ok () (b.setRegister (.of addr) v) := by
  have hregion : Region.of addr = .io := Region.of_eq_iff.mpr ⟨hlow, hhigh⟩
  unfold write8
  rw [hregion]
  exact writeRegister_of_ne_dma (mt IoRegister.of_eq_dma_iff.mp haddr) v b

theorem read8_register (hlow : 0xFF00 ≤ addr) (hhigh : addr < 0xFF80) (b : Board) :
    b.read8 addr = .ok (b.readRegister (.of addr)) := by
  have hregion : Region.of addr = .io := Region.of_eq_iff.mpr ⟨hlow, hhigh⟩
  unfold read8
  rw [hregion]

/-- Reads at other addresses are as before, but for the match. -/
theorem read8_setRegister_of_ne (hother : other ≠ addr)
    (hmatch : ¬ (addr = 0xFF45 ∧ other = 0xFF41)) (v : UInt8) :
    (b.setRegister (.of addr) v).read8 other = b.read8 other := by
  by_cases hregion : Region.of other = .io
  · obtain ⟨hlow, hhigh⟩ := Region.of_eq_iff.mp hregion
    rw [read8_register hlow hhigh, read8_register hlow hhigh]
    congr 1
    -- Several addresses may have no register, and setting none changes nothing.
    by_cases hunmapped : IoRegister.of addr = .unmapped
    · rw [hunmapped]
      rfl
    · refine readRegister_setRegister_of_ne (fun h => hother (IoRegister.of_inj hunmapped h)) ?_
      rintro ⟨hlyc, hstat⟩
      exact hmatch ⟨IoRegister.of_inj (y := 0xFF45) (by decide) hlyc,
        IoRegister.of_inj (y := 0xFF41) (by decide) hstat⟩
  · exact read8_setRegister_of_not_io hregion _ v

/-- A write to `LYC` changes at most bit 2 of the status register. -/
theorem stat_setRegister_lyc (b : Board) (v : UInt8) :
    (b.setRegister .lyc v).readRegister .stat &&& 0xFB = b.readRegister .stat &&& 0xFB := by
  have hmatch (x y : UInt8) : (x ||| 0x04 ||| y) &&& 0xFB = (x ||| 0 ||| y) &&& 0xFB := by
    apply UInt8.toBitVec_inj.mp
    simp only [UInt8.toBitVec_and, UInt8.toBitVec_or, BitVec.and_comm _ (UInt8.toBitVec 0xFB),
      BitVec.and_or_distrib_left]
    rfl
  have hstat (l : Lcd) :
      l.stat &&& 0xFB = (0x80 ||| l.regs.statSelect ||| 0 ||| l.raster.mode.number) &&& 0xFB := by
    unfold Lcd.stat
    by_cases hreached : l.ly = l.regs.lyc
    · rw [if_pos hreached, hmatch]
    · rw [if_neg hreached]
  exact (hstat _).trans (hstat b.lcd).symm

theorem Tidy.write8 (h : b.Tidy) (hwrite : Change addr v b t) : t.Tidy := by
  refine ⟨?_, ?_⟩
  · obtain ⟨held, hheld⟩ := h.joypad
    obtain hkept | ⟨-, hset⟩ := hwrite.joypad
    · exact ⟨held, hkept ▸ hheld⟩
    · exact ⟨held, hset ▸ hheld.write v⟩
  · cases hwrite with
    | register =>
      cases IoRegister.of addr with
      | stat =>
        change v &&& 0x78 &&& 0x78 = v &&& 0x78
        rw [UInt8.and_assoc]
        rfl
      | _ => exact h.lcd
    | _ => exact h.lcd

theorem Tidy.setButton (h : b.Tidy) (button : Button) (pressed : Bool) :
    (b.setButton button pressed).Tidy := by
  obtain ⟨held, hheld⟩ := h.joypad
  exact ⟨⟨_, hheld.set button pressed⟩, h.lcd⟩

end Board

end Handheld
