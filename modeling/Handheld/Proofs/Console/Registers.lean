import Handheld.Proofs.Board.Registers
import Handheld.Proofs.Console.Program

namespace Handheld

namespace Board

variable {b : Board}

/-- The match in the status register tells whether the registers of the line and of the line asked
    for read the same. -/
theorem Tidy.status (h : b.Tidy) :
    ∃ s, b.read8 0xFF41 = .ok s ∧ s &&& 0x03 = b.lcd.raster.mode.number ∧
      (s &&& 0x04 ≠ 0 ↔ b.read8 0xFF44 = b.read8 0xFF45) := by
  have hline : b.read8 0xFF44 = .ok b.lcd.ly := rfl
  have hasked : b.read8 0xFF45 = .ok b.lcd.regs.lyc := rfl
  refine ⟨b.lcd.stat, rfl, h.lcd.stat_and_mode, ?_⟩
  rw [hline, hasked, Except.ok.injEq]
  exact h.lcd.stat_and_match

end Board

namespace Console

variable {c : Console} {addr : UInt16} {v : UInt8}

theorem tidy_invariant : Invariant Board.Tidy where
  lasting := .ofBoard (fun addr v b h => h.write8 (Board.after_write8_change addr v b))
    (fun _ _ h => ⟨h.joypad, h.lcd⟩) (fun _ _ h => ⟨h.joypad, h.lcd⟩)
    fun _ button pressed h => h.setButton button pressed
  new _ := ⟨⟨_, Joypad.shows_released⟩, Lcd.chooses_of_none rfl⟩
  insert _ h := ⟨h.joypad, h.lcd⟩
  reset _ _ := ⟨⟨_, Joypad.shows_released⟩, Lcd.chooses_of_none rfl⟩

theorem Reachable.tidy (hc : c.Reachable) : c.board.Tidy :=
  tidy_invariant.reachable hc

/-- The console takes the byte as its register at the address has it: no memory, no controller of
    banks and nothing of the processor changes, and of all that can be read only what the register
    shows, and the match in the status register if the line asked for is written. -/
structure SetsRegister (c : Console) (addr : UInt16) (v : UInt8) : Prop where
  succeeds : (c.write8 addr v).result = .ok ()
  cpu : (c.write8 addr v).console.cpu = c.cpu
  mapper : (c.write8 addr v).console.board.mapper = c.board.mapper
  boot : (c.write8 addr v).console.board.boot = c.board.boot
  rom : (c.write8 addr v).console.board.rom = c.board.rom
  banks : ∀ s, (c.write8 addr v).console.board.bank s = c.board.bank s
  own : ((c.write8 addr v).console.read8 addr).result = .ok (c.board.shownAfter v addr)
  others : ∀ other, other ≠ addr → ¬ (addr = 0xFF45 ∧ other = 0xFF41) →
    ((c.write8 addr v).console.read8 other).result = (c.read8 other).result
  status : addr = 0xFF45 → ∃ s t, (c.read8 0xFF41).result = .ok s ∧
    ((c.write8 addr v).console.read8 0xFF41).result = .ok t ∧ t &&& 0xFB = s &&& 0xFB

/-- The page of registers behaves as its map has it, for reads and for writes. -/
structure MapsRegisters (c : Console) : Prop where
  write8 : ∀ addr v, 0xFF00 ≤ addr → addr < 0xFF80 → addr ≠ 0xFF46 → c.SetsRegister addr v
  status : ∃ s, (c.read8 0xFF41).result = .ok s ∧ s &&& 0x03 = c.board.lcd.raster.mode.number ∧
    (s &&& 0x04 ≠ 0 ↔ (c.read8 0xFF44).result = (c.read8 0xFF45).result)

theorem setsRegister (hc : c.board.Tidy) (hlow : 0xFF00 ≤ addr) (hhigh : addr < 0xFF80)
    (haddr : addr ≠ 0xFF46) (v : UInt8) : c.SetsRegister addr v := by
  have hwrite := Board.write8_register (b := c.board) hlow hhigh haddr v
  obtain ⟨hconsole, hresult⟩ := write8_of_board hwrite
  obtain ⟨regs, timer, joypad, requested, hset⟩ := c.board.setRegister_eq (.of addr) v
  have hboard : (c.write8 addr v).console.board = c.board.setRegister (.of addr) v :=
    congrArg Console.board hconsole
  refine ⟨hresult, ?_, ?_, ?_, ?_, fun s => ?_, ?_, fun other hother hmatch => ?_, ?_⟩
  · rw [hconsole]
  · rw [hboard, hset]
  · rw [hboard, hset]
  · rw [hboard, hset]
  · rw [hboard, hset]
    cases s <;> rfl
  · rw [read8_result, hboard, Board.read8_register hlow hhigh, hc.readRegister_setRegister haddr]
  · rw [read8_result, read8_result, hboard, Board.read8_setRegister_of_ne hother hmatch]
  · rintro rfl
    refine ⟨_, _, read8_result c 0xFF41, ?_, Board.stat_setRegister_lyc c.board v⟩
    rw [read8_result, hboard]
    rfl

/-- In every reachable console a write to the page of registers is seen at its own register alone,
    and the status register tells what the display does. -/
theorem mapsRegisters (hc : c.Reachable) : c.MapsRegisters where
  write8 _ v hlow hhigh haddr := setsRegister hc.tidy hlow hhigh haddr v
  status := by
    rw [read8_result, read8_result, read8_result]
    exact hc.tidy.status

/-- A console on which Start is held. -/
def startHeld : Console :=
  (play [.setButton .start true] (new {})).1

/-- Its joypad shows so once the actions are selected. -/
theorem mapsRegisters_startHeld :
    startHeld.MapsRegisters ∧
      ((startHeld.write8 0xFF00 0xDF).console.read8 0xFF00).result = .ok 0x07 := by
  have hmaps : startHeld.MapsRegisters := mapsRegisters ⟨{}, _, rfl⟩
  have hshown : startHeld.board.shownAfter 0xDF 0xFF00 = 0x07 := by decide +kernel
  refine ⟨hmaps, ?_⟩
  rw [(hmaps.write8 0xFF00 0xDF (by decide) (by decide) (by decide)).own, hshown]

end Console

end Handheld
