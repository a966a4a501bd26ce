import Handheld.Proofs.Board.Change

namespace Handheld

namespace MemoryBank

theorem clear_eq_of_size_eq {m n : MemoryBank} (hname : m.name = n.name) (hbase : m.base = n.base)
    (hsize : m.size = n.size) : m.clear = n.clear := by
  unfold clear
  rw [hname, hbase, hsize]

theorem clear_clear (m : MemoryBank) : m.clear.clear = m.clear :=
  clear_eq_of_size_eq rfl rfl (size_clear m)

theorem clear_load (m : MemoryBank) (bytes : Array UInt8) : (m.load bytes).clear = m.clear :=
  clear_eq_of_size_eq rfl rfl (size_load m bytes)

theorem clear_after_write8 (m : MemoryBank) (addr : Nat) (v : UInt8) :
    (Access.after (write8 addr v) m).clear = m.clear := by
  by_cases hcovers : m.Covers addr
  · rw [Access.after_of_ok (write8_of_covers v hcovers)]
    exact clear_eq_of_size_eq rfl rfl (Array.size_set hcovers.2)
  · rw [Access.after_of_error (write8_of_not_covers v hcovers)]

end MemoryBank

theorem Lcd.reset_reset (l : Lcd) : l.reset.reset = l.reset := by
  simp only [Lcd.reset, MemoryBank.clear_clear]

namespace Board

variable {b t : Board} {addr : UInt16} {v : UInt8}

/-- A reset undoes any write. -/
theorem Change.reset_eq (h : Change addr v b t) (scheme : Cartridge.Scheme) :
    t.reset scheme = b.reset scheme := by
  cases h with
  | register => cases IoRegister.of addr <;> rfl
  | vram a | oam a | externalRam a | workRam a | zeroPage a =>
    simp only [reset, Lcd.reset, MemoryBank.clear_after_write8]
  | transfer bytes => simp only [reset, Lcd.reset, MemoryBank.clear_load]
  | nothing | mapper | enabled => rfl

theorem reset_reset (b : Board) (scheme scheme' : Cartridge.Scheme) :
    (b.reset scheme).reset scheme' = b.reset scheme' := by
  simp only [reset, Lcd.reset_reset, MemoryBank.clear_clear]

/-- A reset makes the boards equal. -/
def ResetsLike (b b' : Board) : Prop :=
  ∀ scheme, b.reset scheme = b'.reset scheme

theorem write8_preserves_resetsLike (b' : Board) (addr : UInt16) (v : UInt8) :
    Access.Preserves (ResetsLike · b') (write8 addr v) := fun b hb scheme =>
  ((after_write8_change addr v b).reset_eq scheme).trans (hb scheme)

/-- Boards that a reset makes equal are made equal by a reset after a cartridge is put in. -/
theorem ResetsLike.insert {b' : Board} (h : b.ResetsLike b') (cart : Cartridge) :
    (b.insert cart).ResetsLike (b'.insert cart) := by
  intro scheme
  -- A reset before the insertion makes no difference after it, and there the boards are equal.
  have hcleared (b : Board) :
      (b.insert cart).reset scheme = ((b.reset scheme).insert cart).reset scheme := by
    simp only [Board.insert, reset, Lcd.reset_reset, MemoryBank.clear_clear]
  rw [hcleared b, hcleared b', h scheme]

theorem reset_insert_insert (b : Board) (first last : Cartridge) (scheme : Cartridge.Scheme) :
    ((b.insert first).insert last).reset scheme = (b.insert last).reset scheme := by
  simp only [insert, reset, MemoryBank.clear_clear]

end Board

end Handheld
