import Handheld.Proofs.Board.Cells
import Handheld.Proofs.Console.Program

namespace Handheld.Console

/-- Memory answers at an address: video, work and object memory, the zero page with the register
    above it, and external memory while it is enabled. -/
def Remembers (c : Console) (a : UInt16) : Prop :=
  (0x8000 ≤ a ∧ a ≤ 0x9FFF) ∨ (0xA000 ≤ a ∧ a ≤ 0xBFFF ∧ c.board.mapper.ramEnabled = true) ∨
    (0xC000 ≤ a ∧ a ≤ 0xFDFF) ∨ (0xFE00 ≤ a ∧ a ≤ 0xFE9F) ∨ (0xFF80 ≤ a ∧ a ≤ 0xFFFE) ∨ a = 0xFFFF

/-- Nothing answers a write to an address: the gap after object memory, external memory while it is
    disabled, and the program of a cartridge without a bank controller. -/
def Ignores (c : Console) (a : UInt16) : Prop :=
  (0xFEA0 ≤ a ∧ a ≤ 0xFEFF) ∨ (0xA000 ≤ a ∧ a ≤ 0xBFFF ∧ c.board.mapper.ramEnabled = false) ∨
    (a ≤ 0x7FFF ∧ c.scheme = .romOnly)

/-- What a byte that the host writes changes of what it reads. -/
structure Memorizes (c : Console) (a : UInt16) (v : UInt8) : Prop where
  stored : c.Remembers a → (c.write8 a v).result = .ok () ∧
    ∀ b, ((c.write8 a v).console.read8 b).result =
      if b = a ∨ Mirrors a b then .ok v else (c.read8 b).result
  ignored : c.Ignores a → (c.write8 a v).result = .ok () ∧ (c.write8 a v).console = c ∧
    ∀ b, ((c.write8 a v).console.read8 b).result = (c.read8 b).result

variable {c : Console} {a : UInt16} {v : UInt8}

theorem Remembers.cell (h : c.Remembers a) : ∃ k, c.board.cell? a = some k := by
  rw [Board.exists_cell?_iff]
  cases henabled : c.board.mapper.ramEnabled <;>
    simp only [Remembers, henabled, reduceCtorEq, and_false, and_true, false_or,
      UInt16.le_iff_toNat_le, UInt16.lt_iff_toNat_lt, ← UInt16.toNat_inj, UInt16.toNat_ofNat,
      Nat.reducePow, Nat.reduceMod] at h ⊢ <;>
    omega

theorem Ignores.board (hc : c.Reachable) (h : c.Ignores a) (v : UInt8) :
    Board.write8 a v c.board = .ok () c.board := by
  obtain ⟨hlow, hhigh⟩ | ⟨hlow, hhigh, hclosed⟩ | ⟨hhigh, hscheme⟩ := h
  · exact Board.write8_unusable hlow (Nat.lt_succ_of_le hhigh) v
  · exact Board.write8_closed hlow (Nat.lt_succ_of_le hhigh) hclosed v
  · exact Board.write8_romOnly (Nat.lt_succ_of_le hhigh) (hc.mapper_scheme.trans hscheme) v

/-- On a console that the host has brought to any state, memory stores. -/
theorem memorizes_of_reachable (hc : c.Reachable) (a : UInt16) (v : UInt8) : c.Memorizes a v := by
  refine ⟨fun hstored => ?_, fun hignored => ?_⟩
  · obtain ⟨k, hk⟩ := hstored.cell
    obtain ⟨b, hwrite, hreads⟩ := hc.wellFormed.write8_stores hk v
    obtain ⟨hconsole, hresult⟩ := write8_of_board hwrite
    refine ⟨hresult, fun other => ?_⟩
    rw [hconsole, read8_result, read8_result]
    exact hreads other
  · obtain ⟨hconsole, hresult⟩ := write8_of_board (hignored.board hc v)
    have hsame : (c.write8 a v).console = c := hconsole
    refine ⟨hresult, hsame, fun b => ?_⟩
    rw [hsame]

/-- What is written to the echo of work memory is read in work memory, and where a program bank is
    missing the read is refused as before. -/
theorem memorizes_missingBank :
    missingBank.Reachable ∧ missingBank.Memorizes 0xE123 0x5A ∧
      (missingBank.write8 0xE123 0x5A).result = .ok () ∧
      ((missingBank.write8 0xE123 0x5A).console.read8 0xC123).result = .ok 0x5A ∧
      ((missingBank.write8 0xE123 0x5A).console.read8 0x4000).result =
        .error (.bankOutOfBounds "rom" 0x8000 0 0x8000) := by
  have hmemorizes := memorizes_of_reachable missingBank_reachable 0xE123 0x5A
  obtain ⟨hresult, hreads⟩ := hmemorizes.stored (by unfold Remembers; decide)
  refine ⟨missingBank_reachable, hmemorizes, hresult, ?_, ?_⟩
  · rw [hreads, if_pos (by decide)]
  · rw [hreads, if_neg (by decide), read8_result]
    have hoffset : missingBank.board.windowOffset 0x4000 = 0x8000 := by
      unfold Board.windowOffset
      rw [missingBank_romBank]
      decide
    rw [(missingBank_reachable.carries rfl).read8_banked (by decide) (by decide), hoffset,
      twoBanks_programSize]
    rfl

end Handheld.Console
