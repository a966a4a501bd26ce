import Handheld.Proofs.Board.Transfer
import Handheld.Proofs.Console.Checked

namespace Handheld

/-- Object memory and the transfer register of another board, on this one. -/
def Board.withOam (b other : Board) : Board :=
  { b with lcd := { b.lcd with oam := other.lcd.oam }, dmaPage := other.dmaPage }

namespace Console

/-- From `c` to `d` a page has been transferred: object memory holds the start of the page as it was
    read on `c`, the register shows the page, and everything else is as it was. -/
structure Brings (c : Console) (page : UInt8) (d : Console) : Prop where
  bytes : ∀ i < 0xA0, ∃ v,
    (c.read8 (UInt16.ofNat (page.toNat * 256 + i))).result = .ok v ∧
      (d.read8 (UInt16.ofNat (0xFE00 + i))).result = .ok v
  register : (d.read8 0xFF46).result = .ok page
  elsewhere : { d with board := d.board.withOam c.board } = c

/-- What becomes of a console when a page is written to the transfer register: a transfer, or
    nothing. The board does as it would if it copied byte by byte. -/
structure Transfers (c : Console) (page : UInt8) : Prop where
  byByte : Board.copyPage page c.board = Board.write8 0xFF46 page c.board
  outcome : (c.write8 0xFF46 page).result = .ok () ∧ c.Brings page (c.write8 0xFF46 page).console ∨
    ∃ e, (c.write8 0xFF46 page).result = .error e ∧ (c.write8 0xFF46 page).console = c

variable {c : Console} {page v : UInt8} {addr : UInt16} {bytes : Array UInt8} {e : Fault}

/-- A byte that the board refuses is refused as the host is told. -/
theorem write8_of_board_error {b : Board} (h : Board.write8 addr v c.board = .error e b) :
    (c.write8 addr v).console = c ∧ (c.write8 addr v).result = .error e := by
  have hsame : b = c.board := Board.write8_eq_error h
  cases hwrite : (Bus.write8 addr v : Access Observed Unit) ⟨c.board, #[]⟩ with
  | ok _ t =>
    have hboard : Board.write8 addr v c.board = .ok () t.board :=
      Observed.board_of_perform_eq_ok hwrite
    rw [h] at hboard
    cases hboard
  | error e' t =>
    have hboard : Board.write8 addr v c.board = .error e' t.board :=
      Observed.board_of_perform_eq_error hwrite
    rw [h, hsame] at hboard
    obtain ⟨rfl, hkept⟩ := EStateM.Result.error.inj hboard
    rw [write8, Exec.write8, exec_onBus_of_error hwrite, ← hkept]
    exact ⟨rfl, rfl⟩

/-- Each byte of object memory is the byte of the page with the same place. -/
theorem bytes_of_readPage (hc : c.board.WellFormed) (h : c.board.readPage page = .ok bytes)
    {d : Console} (hd : d.board.lcd.oam = c.board.lcd.oam.load bytes) {i : Nat} (hi : i < 0xA0) :
    ∃ v, (c.read8 (UInt16.ofNat (page.toNat * 256 + i))).result = .ok v ∧
      (d.read8 (UInt16.ofNat (0xFE00 + i))).result = .ok v := by
  obtain ⟨hsize, hplaces⟩ := Board.readPage_places h
  have hin : i < bytes.size := by rwa [hsize]
  have hoam : bytes.size = c.board.lcd.oam.size := hsize.trans hc.oam.size_eq.symm
  have hsource : UInt16.ofNat (page.toNat * 256 + i) = Word.pageStart page + UInt16.ofNat i := by
    rw [← UInt16.toNat_inj, Board.toNat_pageStart_add page hi, UInt16.toNat_ofNat']
    have := page.toNat_lt
    omega
  have htarget : (UInt16.ofNat (0xFE00 + i)).toNat = 0xFE00 + i :=
    UInt16.toNat_ofNat_of_lt' (by
      change 0xFE00 + i < 0x10000
      omega)
  have hregion : Region.of (UInt16.ofNat (0xFE00 + i)) = .oam := by
    rw [Region.of_eq_iff, htarget]
    exact ⟨Nat.le_add_right _ _, by omega⟩
  refine ⟨bytes[i], ?_, ?_⟩
  · rw [read8_result, hsource]
    exact hplaces i hin
  · have hbase : c.board.lcd.oam.base = 0xFE00 := hc.oam.base_eq
    have hread := MemoryBank.read8_arrived_of_lt hoam (Nat.le_refl _) (hoam ▸ hin) hin
    rw [MemoryBank.arrived_size hoam, hbase] at hread
    rw [read8_result, Board.read8, hregion, htarget]
    simp only [hd]
    exact hread

theorem brings_of_readPage (hc : c.board.WellFormed) (h : c.board.readPage page = .ok bytes) :
    (c.write8 0xFF46 page).result = .ok () ∧
      c.Brings page (c.write8 0xFF46 page).console := by
  have hwrite : Board.write8 0xFF46 page c.board = _ := Board.transfer_of_ok h
  obtain ⟨hconsole, hresult⟩ := write8_of_board hwrite
  refine ⟨hresult, fun i hi => ?_, ?_, ?_⟩
  · exact bytes_of_readPage hc h (by rw [hconsole]) hi
  · rw [hconsole, read8_result]
    rfl
  · rw [hconsole]
    rfl

/-- On a console that the host has brought to any state, a transfer brings the page as it was or
    does nothing. -/
theorem transfers_of_reachable (hc : c.Reachable) (page : UInt8) : c.Transfers page := by
  refine ⟨hc.wellFormed.copyPage_eq hc.board_regular.rom_whole page, ?_⟩
  cases hpage : c.board.readPage page with
  | ok bytes => exact .inl (brings_of_readPage hc.wellFormed hpage)
  | error e =>
    have hwrite : Board.write8 0xFF46 page c.board = _ := Board.transfer_of_error hpage
    obtain ⟨hconsole, hresult⟩ := write8_of_board_error hwrite
    exact .inr ⟨e, hresult, hconsole⟩

/-- A page of object memory itself is transferred, and one of a missing program bank is not. -/
theorem transfers_missingBank :
    missingBank.Reachable ∧
      missingBank.Brings 0xFE (missingBank.write8 0xFF46 0xFE).console ∧
      (missingBank.write8 0xFF46 0x40).console = missingBank := by
  have hwrites := (maps_of_reachable missingBank_reachable rfl).write8 0xFF46
  have hmissing : twoBanks.programSize ≤
      missingBank.board.mapper.romBank * Board.romBankSize := by
    rw [missingBank_romBank, twoBanks_programSize]
    decide
  refine ⟨missingBank_reachable, ?_, ?_⟩
  · obtain ⟨-, hbrings⟩ | ⟨e, hresult, -⟩ :=
      (transfers_of_reachable missingBank_reachable 0xFE).outcome
    · exact hbrings
    · rw [(hwrites 0xFE).mpr (by decide)] at hresult
      cases hresult
  · obtain ⟨hresult, -⟩ | ⟨e, -, hsame⟩ :=
      (transfers_of_reachable missingBank_reachable 0x40).outcome
    · exact absurd ⟨rfl, by decide, by decide, hmissing⟩ ((hwrites 0x40).mp hresult)
    · exact hsame

end Console

end Handheld
