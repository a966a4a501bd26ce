import Handheld.Proofs.Board.Cartridge

namespace Handheld

/-- A byte of the boot program; what is missing of the image is zero. -/
def Config.bootByte (config : Config) (i : Nat) : UInt8 :=
  (config.bootImage.getD #[])[i]?.getD 0

namespace MemoryBank

/-- A cleared bank holds what is put into it, as far as it has room. -/
theorem load_zeroed (name : String) (size : Nat) (bytes : Array UInt8) :
    (zeroed name size 0).load bytes = .holding name (bytes.extract 0 size) size 0 := by
  have hsize : (bytes.extract 0 size).size = min size bytes.size := Array.size_extract
  have hrest : size - (bytes.extract 0 size).size = size - bytes.size := by omega
  rw [load, size_zeroed, holding, hrest]
  rfl

theorem zeroed_eq_holding (name : String) (size : Nat) :
    zeroed name size 0 = .holding name #[] size 0 := by
  simp [zeroed, holding]

end MemoryBank

namespace Board

variable {b t : Board} {addr : UInt16} {v : UInt8}

/-- The bank in which a configuration puts the boot program. -/
def bootBank (config : Config) : MemoryBank :=
  (MemoryBank.zeroed "boot" bootSize 0).load (config.bootImage.getD #[])

theorem bootBank_read8 (config : Config) {i : Nat} (h : i < bootSize) :
    (bootBank config).read8 i = .ok (config.bootByte i) := by
  have hfits : ((config.bootImage.getD #[]).extract 0 bootSize).size ≤ bootSize := by
    rw [Array.size_extract]
    omega
  have hbyte : ((config.bootImage.getD #[]).extract 0 bootSize)[i]? =
      (config.bootImage.getD #[])[i]? := by
    rw [Array.getElem?_extract, Nat.zero_add]
    split
    · rfl
    · rw [Array.getElem?_eq_none (by omega)]
  rw [bootBank, MemoryBank.load_zeroed, MemoryBank.read8_holding _ hfits, if_pos h, hbyte]
  rfl

/-- What the first page shows, covered or not, and whether a reset covers it. -/
def firstPage (b : Board) : MemoryBank × MemoryBank × Bool :=
  (b.boot, b.rom, b.bootsFirst)

theorem Change.firstPage (h : Change addr v b t) : t.firstPage = b.firstPage := by
  cases h with
  | register => cases IoRegister.of addr <;> rfl
  | _ => rfl

theorem Change.overlay (h : Change addr v b t) : t.overlay = b.overlay := by
  cases h with
  | register => cases IoRegister.of addr <;> rfl
  | _ => rfl

/-- An address of the first page belongs to the first bank of the program. -/
theorem region_of_firstPage (h : addr < 0x100) : Region.of addr = .romFixed := by
  have hlt : addr.toNat < 0x100 := UInt16.lt_iff_toNat_lt.mp h
  rw [Region.of_eq_iff]
  simp only [Region.Spans]
  omega

theorem read8_covered (hoverlay : b.overlay = true) (haddr : addr < 0x100) :
    b.read8 addr = b.boot.read8 addr.toNat := by
  rw [read8, region_of_firstPage haddr]
  simp only [hoverlay, haddr, Bool.true_and, decide_true, if_true]

theorem read8_uncovered (hoverlay : b.overlay = false) (haddr : addr < 0x100) :
    b.read8 addr = b.rom.read8 addr.toNat := by
  rw [read8, region_of_firstPage haddr]
  simp only [hoverlay, Bool.false_and, Bool.false_eq_true, if_false]

/-- Above the first page it makes no difference whether the page is covered. -/
theorem read8_above (b : Board) (haddr : 0x100 ≤ addr) :
    b.read8 addr = { b with overlay := false }.read8 addr := by
  have hnot : ¬ addr < 0x100 := UInt16.not_lt.mpr haddr
  unfold read8
  cases Region.of addr with
  | romFixed => simp only [hnot, decide_false, Bool.and_false, Bool.false_eq_true, if_false]
  | _ => rfl

end Board

end Handheld
