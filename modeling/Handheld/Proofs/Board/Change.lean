import Handheld.Board.Access
import Handheld.Proofs.Access

namespace Handheld.Board

/-- What becomes of the board when `v` is written at `addr`. -/
inductive Change (addr : UInt16) (v : UInt8) (b : Board) : Board → Prop
  | nothing : Change addr v b b
  | mapper : Change addr v b { b with mapper := b.mapper.control addr v }
  | vram (a : Nat) : Change addr v b
      { b with lcd := { b.lcd with vram := Access.after (MemoryBank.write8 a v) b.lcd.vram } }
  | oam (a : Nat) : Change addr v b
      { b with lcd := { b.lcd with oam := Access.after (MemoryBank.write8 a v) b.lcd.oam } }
  | externalRam (a : Nat) : Change addr v b
      { b with externalRam := Access.after (MemoryBank.write8 a v) b.externalRam }
  | workRam (a : Nat) : Change addr v b
      { b with workRam := Access.after (MemoryBank.write8 a v) b.workRam }
  | zeroPage (a : Nat) : Change addr v b
      { b with zeroPage := Access.after (MemoryBank.write8 a v) b.zeroPage }
  | register : Change addr v b (b.setRegister (.of addr) v)
  | transfer (bytes : Array UInt8) : Change addr v b
      { b with lcd := { b.lcd with oam := b.lcd.oam.load bytes }, dmaPage := v }
  | enabled : Change addr v b { b with enabled := v }

variable {b : Board} {addr : UInt16} {v : UInt8}

theorem transfer_of_ok {page : UInt8} {bytes : Array UInt8} (h : b.readPage page = .ok bytes) :
    transfer page b =
      .ok () { b with lcd := { b.lcd with oam := b.lcd.oam.load bytes }, dmaPage := page } := by
  simp only [transfer, h]

theorem transfer_of_error {page : UInt8} {e : Fault} (h : b.readPage page = .error e) :
    transfer page b = .error e b := by
  simp only [transfer, h]

/-- Only the transfer register's write is more than setting a register. -/
theorem writeRegister_of_ne_dma {reg : IoRegister} (h : reg ≠ .dma) (v : UInt8) (b : Board) :
    writeRegister reg v b = .ok () (b.setRegister reg v) := by
  cases reg <;> first | rfl | exact absurd rfl h

theorem after_writeRegister_change (addr : UInt16) (v : UInt8) (b : Board) :
    Change addr v b (Access.after (writeRegister (.of addr) v) b) := by
  by_cases hdma : IoRegister.of addr = .dma
  · rw [hdma]
    change Change addr v b (Access.after (Board.transfer v) b)
    cases hpage : b.readPage v with
    | ok bytes =>
      rw [Access.after_of_ok (transfer_of_ok hpage)]
      exact .transfer bytes
    | error e =>
      rw [Access.after_of_error (transfer_of_error hpage)]
      exact .nothing
  · rw [Access.after_of_ok (writeRegister_of_ne_dma hdma v b)]
    exact .register

/-- A write makes one of these changes, whether or not it succeeds. -/
theorem after_write8_change (addr : UInt16) (v : UInt8) (b : Board) :
    Change addr v b (Access.after (write8 addr v) b) := by
  unfold write8
  cases Region.of addr with
  | romFixed | romBanked => exact .mapper
  | videoRam =>
    simp only [onVideoRam, Access.after_zoom]
    exact .vram _
  | externalRam =>
    cases hoffset : b.externalOffset? addr with
    | none =>
      simp only [Access.after, hoffset]
      exact .nothing
    | some offset =>
      have hwritten : Change addr v b
          (Access.after (onExternalRam (MemoryBank.write8 offset v)) b) := by
        simp only [onExternalRam, Access.after_zoom]
        exact .externalRam offset
      simpa only [Access.after, hoffset] using hwritten
  | workRam | echo =>
    simp only [onWorkRam, Access.after_zoom]
    exact .workRam _
  | oam =>
    simp only [onOam, Access.after_zoom]
    exact .oam _
  | unusable => exact .nothing
  | io => exact after_writeRegister_change _ v b
  | zeroPage =>
    simp only [onZeroPage, Access.after_zoom]
    exact .zeroPage _
  | interruptEnable => exact .enabled

/-- Writes leave the timing of the display alone. -/
theorem Change.raster {t : Board} (h : Change addr v b t) : t.lcd.raster = b.lcd.raster := by
  cases h with
  | register => cases IoRegister.of addr <;> rfl
  | _ => rfl

end Handheld.Board
