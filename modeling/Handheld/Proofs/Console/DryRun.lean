import Handheld.Proofs.Console.Transfer

namespace Handheld

namespace Access

variable {σ α : Type} {act : Access σ α} {s t : σ}

/-- What an operation gives, without the state that it leaves. -/
def outcome (act : Access σ α) (s : σ) : Except Fault α :=
  match act s with
  | .ok a _ => .ok a
  | .error e _ => .error e

theorem outcome_of_ok {a : α} (h : act s = .ok a t) : outcome act s = .ok a := by
  simp [outcome, h]

theorem outcome_of_error {e : Fault} (h : act s = .error e t) : outcome act s = .error e := by
  simp [outcome, h]

end Access

namespace Board

variable {b : Board} {addr : UInt16} {v : UInt8} {e : Fault}

/-- The only fault of a read is that of the cartridge's switchable window. -/
theorem WellFormed.read8_eq_error (h : b.WellFormed) (hread : b.read8 addr = .error e) :
    e = b.rom.outside (b.mapper.romOffset + addr.toNat % 0x4000) := by
  have hrefused : ¬ ∃ v, b.read8 addr = .ok v := by
    rintro ⟨v, hv⟩
    rw [hread] at hv
    cases hv
  rw [h.read8_eq_ok_iff, Classical.not_imp] at hrefused
  obtain ⟨hregion, hcovers⟩ := hrefused
  unfold read8 at hread
  simp only [hregion, MemoryBank.read8, dif_neg hcovers, Except.error.injEq] at hread
  exact hread.symm

theorem checkWrite_transfer (b : Board) (page : UInt8) :
    b.checkWrite 0xFF46 page = (b.readPage page).map fun _ => () :=
  rfl

/-- A transfer is refused as its check is. -/
theorem outcome_transfer (b : Board) (page : UInt8) :
    Access.outcome (transfer page) b = b.checkWrite 0xFF46 page := by
  rw [checkWrite_transfer]
  cases hpage : b.readPage page with
  | ok bytes =>
    rw [Access.outcome_of_ok (transfer_of_ok hpage)]
    rfl
  | error e =>
    rw [Access.outcome_of_error (transfer_of_error hpage)]
    rfl

/-- The check of a write gives what the write gives. -/
theorem WellFormed.outcome_write8 (h : b.WellFormed) (addr : UInt16) (v : UInt8) :
    Access.outcome (write8 addr v) b = b.checkWrite addr v := by
  by_cases haddr : addr = 0xFF46
  · subst haddr
    exact outcome_transfer b v
  · -- Elsewhere neither of the two finds fault.
    have hcheck : b.checkWrite addr v = .ok () := by
      rw [h.checkWrite_eq_ok_iff]
      intro hdma
      exact absurd (IoRegister.of_eq_dma_iff.mp hdma) haddr
    obtain ⟨t, hwrite⟩ := h.write8_eq_ok hcheck
    rw [Access.outcome_of_ok hwrite, hcheck]

/-- A write that is refused names the byte of the program that a transfer would read first. -/
theorem WellFormed.checkWrite_eq_error (h : b.WellFormed) (hwhole : romBankSize ∣ b.rom.size)
    (hcheck : b.checkWrite addr v = .error e) :
    addr = 0xFF46 ∧ e = b.rom.outside (b.mapper.romOffset + v.toNat * 256 % 0x4000) := by
  have hrefused : b.checkWrite addr v ≠ .ok () := by
    rw [hcheck]
    exact nofun
  rw [Ne, h.checkWrite_eq_ok_iff, Classical.not_imp, IoRegister.of_eq_dma_iff] at hrefused
  obtain ⟨rfl, -⟩ := hrefused
  refine ⟨rfl, ?_⟩
  rw [checkWrite_transfer] at hcheck
  cases hpage : b.readPage v with
  | ok bytes =>
    rw [hpage] at hcheck
    cases hcheck
  | error e' =>
    rw [hpage] at hcheck
    cases hcheck
    have hfirst := h.read8_eq_error (h.read8_pageStart hwhole hpage)
    rwa [toNat_pageStart_add v (by decide), Nat.add_zero] at hfirst

end Board

namespace Observed

variable {addr : UInt16} {v : UInt8} {o : Observed}

/-- A write that the board refuses leaves no trace but the notice of it. -/
theorem write8_of_error {e : Fault} {b : Board} (h : Board.write8 addr v o.board = .error e b) :
    Bus.write8 addr v o = .error e (o.notice (.refused e)) := by
  obtain rfl := Board.write8_eq_error h
  change perform _ _ o = _
  simp only [perform, h]

end Observed

namespace Console

/-- What the check of a write tells about it. -/
structure Foretells (c : Console) (addr : UInt16) (v : UInt8) : Prop where
  result : (c.write8 addr v).result = c.board.checkWrite addr v
  passed : c.board.checkWrite addr v = .ok () → ∀ events,
    Observed.tryWrite addr v ⟨c.board, events⟩ = .ok () ⟨c.board, events⟩ ∧
      ∃ t, Bus.write8 addr v (⟨c.board, events⟩ : Observed) = .ok () t
  /-- What is refused ends as the trial of it does, with the board as it was. -/
  refused : ∀ e, c.board.checkWrite addr v = .error e → ∀ events, ∃ t,
    Observed.tryWrite addr v ⟨c.board, events⟩ = .error e t ∧
      Bus.write8 addr v (⟨c.board, events⟩ : Observed) = .error e t ∧
      t.board = c.board ∧ pictures t.events = pictures events
  /-- The transfer may as well copy byte by byte. -/
  byByte : addr = 0xFF46 → Access.outcome (Board.copyPage v) c.board = c.board.checkWrite addr v
  fault : ∀ e, c.board.checkWrite addr v = .error e → addr = 0xFF46 ∧
    e = .bankOutOfBounds c.board.rom.name (c.board.mapper.romOffset + v.toNat * 256 % 0x4000) 0
      c.board.rom.size

variable {c : Console}

theorem write8_result (c : Console) (addr : UInt16) (v : UInt8) :
    (c.write8 addr v).result = Access.outcome (Board.write8 addr v) c.board := by
  cases hwrite : Board.write8 addr v c.board with
  | ok _ b => rw [(write8_of_board hwrite).2, Access.outcome_of_ok hwrite]
  | error e b => rw [(write8_of_board_error hwrite).2, Access.outcome_of_error hwrite]

/-- On a console that the host has brought to any state, a check looks at the board and foretells
    what the write would give. -/
theorem checks_foretell (hc : c.Reachable) (addr : UInt16) (v : UInt8) : c.Foretells addr v := by
  have hb := hc.wellFormed
  have hwhole := hc.board_regular.rom_whole
  have hresult := hb.outcome_write8 addr v
  refine ⟨?_, ?_, ?_, ?_, ?_⟩
  · rw [write8_result, hresult]
  · intro hcheck events
    obtain ⟨b, hwrite⟩ := hb.write8_eq_ok hcheck
    exact ⟨Observed.tryWrite_of_ok hcheck, Observed.write8_of_ok (o := ⟨c.board, events⟩) hwrite⟩
  · intro e hcheck events
    cases hwrite : Board.write8 addr v c.board with
    | ok _ b =>
      rw [Access.outcome_of_ok hwrite, hcheck] at hresult
      cases hresult
    | error e' b =>
      rw [Access.outcome_of_error hwrite, hcheck] at hresult
      cases hresult
      have htried := Observed.tryWrite_of_error (o := ⟨c.board, events⟩) hcheck
      have hwritten := Observed.write8_of_error (o := ⟨c.board, events⟩) hwrite
      exact ⟨_, htried, hwritten, rfl, pictures_push_notice events _⟩
  · rintro rfl
    unfold Access.outcome
    rw [hb.copyPage_eq hwhole]
    exact Board.outcome_transfer c.board v
  · intro e hcheck
    obtain ⟨haddr, hfault⟩ := hb.checkWrite_eq_error hwhole hcheck
    rw [hfault, MemoryBank.outside, hb.rom_base]
    exact ⟨haddr, rfl⟩

/-- A transfer from a missing bank is foretold to fail at the bank's first byte. -/
theorem checks_foretell_missingBank :
    missingBank.Reachable ∧ missingBank.Foretells 0xFF46 0x40 ∧
      (missingBank.write8 0xFF46 0x40).result =
        .error (.bankOutOfBounds "rom" 0x8000 0 0x8000) := by
  have hforetells := checks_foretell missingBank_reachable 0xFF46 0x40
  have hcarries : missingBank.board.Carries twoBanks := missingBank_reachable.carries rfl
  have hname : missingBank.board.rom.name = "rom" := by
    rw [hcarries.rom]
    rfl
  refine ⟨missingBank_reachable, hforetells, ?_⟩
  rw [hforetells.result]
  cases hcheck : missingBank.board.checkWrite 0xFF46 0x40 with
  | ok _ =>
    rw [hcarries.checkWrite_eq_ok_iff, missingBank_romBank, twoBanks_programSize] at hcheck
    exact absurd (hcheck (by decide)) (by decide)
  | error e =>
    obtain ⟨-, hfault⟩ := hforetells.fault e hcheck
    rw [hfault, hname, hcarries.rom_size, Mapper.romOffset_eq, missingBank_romBank,
      twoBanks_programSize]
    rfl

end Console

end Handheld
