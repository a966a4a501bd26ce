import Handheld.Proofs.Board.Cartridge

namespace Handheld

/-- A bank that the processor can write. -/
inductive Store
  | videoRam
  | externalRam
  | workRam
  | oam
  | zeroPage
  deriving DecidableEq, Repr

/-- A byte that the processor can write. -/
inductive Cell
  | byte (store : Store) (place : Nat)
  | interruptEnable
  deriving DecidableEq, Repr

/-- Both addresses lie in work memory or its echo and differ by the distance between the two. -/
def Mirrors (a b : UInt16) : Prop :=
  (0xC000 ≤ a ∧ a < 0xFE00) ∧ (0xC000 ≤ b ∧ b < 0xFE00) ∧
    (a.toNat + 0x2000 = b.toNat ∨ b.toNat + 0x2000 = a.toNat)

instance (a b : UInt16) : Decidable (Mirrors a b) :=
  inferInstanceAs (Decidable (_ ∧ _))

namespace Board

/-- The contents of a bank. -/
def bank (b : Board) : Store → MemoryBank
  | .videoRam => b.lcd.vram
  | .externalRam => b.externalRam
  | .workRam => b.workRam
  | .oam => b.lcd.oam
  | .zeroPage => b.zeroPage

/-- Replaces a bank. -/
def setBank (s : Store) (m : MemoryBank) (b : Board) : Board :=
  match s with
  | .videoRam => { b with lcd := { b.lcd with vram := m } }
  | .externalRam => { b with externalRam := m }
  | .workRam => { b with workRam := m }
  | .oam => { b with lcd := { b.lcd with oam := m } }
  | .zeroPage => { b with zeroPage := m }

/-- The cell of an address, if what is written there is kept. -/
def cell? (b : Board) (addr : UInt16) : Option Cell :=
  match Region.of addr with
  | .videoRam => some (.byte .videoRam addr.toNat)
  | .externalRam => (b.externalOffset? addr).map (.byte .externalRam)
  | .workRam => some (.byte .workRam addr.toNat)
  | .echo => some (.byte .workRam (addr.toNat - 0x2000))
  | .oam => some (.byte .oam addr.toNat)
  | .zeroPage => some (.byte .zeroPage addr.toNat)
  | .interruptEnable => some .interruptEnable
  | .romFixed | .romBanked | .unusable | .io => none

/-- What a cell holds. -/
def look (b : Board) : Cell → Except Fault UInt8
  | .byte s place => (b.bank s).read8 place
  | .interruptEnable => .ok b.enabled

/-- Puts a byte into a cell. -/
def put (v : UInt8) : Cell → Access Board Unit
  | .byte s place => Access.zoom (fun b => b.bank s) (setBank s) (MemoryBank.write8 place v)
  | .interruptEnable => fun b => .ok () { b with enabled := v }

variable {b t : Board} {addr other : UInt16} {v : UInt8} {k l : Cell} {s s' : Store}
  {m : MemoryBank}

@[simp]
theorem bank_setBank : (b.setBank s m).bank s = m := by
  cases s <;> rfl

theorem bank_setBank_of_ne (h : s' ≠ s) : (b.setBank s m).bank s' = b.bank s' := by
  cases s <;> cases s' <;> first | rfl | exact absurd rfl h

@[simp]
theorem enabled_setBank : (b.setBank s m).enabled = b.enabled := by
  cases s <;> rfl

theorem externalOffset?_eq_some_iff {offset : Nat} : b.externalOffset? addr = some offset ↔
    b.mapper.ramEnabled = true ∧ b.mapper.ramOffset + addr.toNat % 0x2000 = offset := by
  unfold externalOffset?
  split <;> simp [*]

theorem read8_of_cell (h : b.cell? addr = some k) : b.read8 addr = b.look k := by
  unfold cell? at h
  unfold read8
  cases hr : Region.of addr <;> simp only [hr] at h ⊢
  case externalRam =>
    obtain ⟨offset, hoffset, rfl⟩ := Option.map_eq_some_iff.mp h
    rw [hoffset]
    rfl
  all_goals cases h
  all_goals rfl

theorem write8_of_cell (h : b.cell? addr = some k) : write8 addr v b = put v k b := by
  unfold cell? at h
  unfold write8
  cases hr : Region.of addr <;> simp only [hr] at h ⊢
  case externalRam =>
    obtain ⟨offset, hoffset, rfl⟩ := Option.map_eq_some_iff.mp h
    rw [hoffset]
    rfl
  all_goals cases h
  all_goals rfl

theorem put_byte_eq_ok_iff {place : Nat} : put v (.byte s place) b = .ok () t ↔
    ∃ m, MemoryBank.write8 place v (b.bank s) = .ok () m ∧ t = b.setBank s m := by
  unfold put
  exact Access.zoom_eq_ok_iff

/-- A byte that is put into a cell is held there, and the other cells hold what they held. -/
theorem look_of_put (h : put v k b = .ok () t) :
    t.look l = if l = k then .ok v else b.look l := by
  cases k with
  | byte s place =>
    obtain ⟨m, hwrite, rfl⟩ := put_byte_eq_ok_iff.mp h
    cases l with
    | byte s' place' =>
      by_cases hs : s' = s
      · subst hs
        simp [look, MemoryBank.read8_of_write8_eq_ok hwrite]
      · simp [look, bank_setBank_of_ne hs, hs]
    | interruptEnable => simp [look]
  | interruptEnable =>
    cases h
    cases l with
    | byte s' place' =>
      rw [if_neg (by simp)]
      cases s' <;> rfl
    | interruptEnable => rfl

/-- What a read depends on besides cells. -/
structure SameElsewhere (b t : Board) : Prop where
  overlay : t.overlay = b.overlay
  boot : t.boot = b.boot
  rom : t.rom = b.rom
  mapper : t.mapper = b.mapper
  registers : ∀ reg, t.readRegister reg = b.readRegister reg

theorem sameElsewhere_of_put (h : put v k b = .ok () t) : SameElsewhere b t := by
  cases k with
  | byte s place =>
    obtain ⟨m, -, rfl⟩ := put_byte_eq_ok_iff.mp h
    cases s <;> exact ⟨rfl, rfl, rfl, rfl, fun reg => by cases reg <;> rfl⟩
  | interruptEnable =>
    cases h
    exact ⟨rfl, rfl, rfl, rfl, fun reg => by cases reg <;> rfl⟩

theorem SameElsewhere.externalOffset? (h : SameElsewhere b t) :
    t.externalOffset? addr = b.externalOffset? addr := by
  unfold Board.externalOffset?
  rw [h.mapper]

theorem SameElsewhere.cell? (h : SameElsewhere b t) : t.cell? addr = b.cell? addr := by
  unfold Board.cell?
  rw [h.externalOffset?]

/-- Where there is no cell a read depends on nothing else. -/
theorem SameElsewhere.read8 (h : SameElsewhere b t) (haddr : b.cell? addr = none) :
    t.read8 addr = b.read8 addr := by
  unfold Board.cell? at haddr
  unfold Board.read8
  cases hr : Region.of addr <;> simp only [hr, reduceCtorEq, Option.map_eq_none_iff] at haddr ⊢
  case romFixed => rw [h.overlay, h.boot, h.rom]
  case romBanked => rw [h.mapper, h.rom]
  case externalRam => rw [h.externalOffset?, haddr]
  case io => rw [h.registers]

/-- Two addresses share a cell only if they are the same or mirror each other. -/
theorem cell?_eq_some_iff (h : b.cell? addr = some k) :
    b.cell? other = some k ↔ other = addr ∨ Mirrors addr other := by
  have hspan := Region.of_spans addr
  have hspan' := Region.of_spans other
  rw [← UInt16.toNat_inj]
  simp only [Mirrors, UInt16.le_iff_toNat_le, UInt16.lt_iff_toNat_lt, UInt16.toNat_ofNat,
    Nat.reducePow, Nat.reduceMod]
  unfold cell? at h ⊢
  cases hr : Region.of addr <;> simp only [hr, Region.Spans, reduceCtorEq] at h hspan
  case externalRam =>
    obtain ⟨offset, hoffset, rfl⟩ := Option.map_eq_some_iff.mp h
    obtain ⟨henabled, rfl⟩ := externalOffset?_eq_some_iff.mp hoffset
    cases hr' : Region.of other <;>
      simp only [hr', Region.Spans, Option.map_eq_some_iff, externalOffset?_eq_some_iff, henabled,
        Option.some.injEq, reduceCtorEq, Cell.byte.injEq, true_and, false_and, exists_eq_left',
        false_iff] at hspan' ⊢ <;>
      omega
  all_goals
    cases h
    cases hr' : Region.of other <;>
      simp only [hr', Region.Spans, Option.some.injEq, reduceCtorEq, Cell.byte.injEq, true_and,
        false_and, Option.map_eq_some_iff, and_false, exists_false, false_iff,
        true_iff] at hspan' ⊢ <;>
      omega

/-- The addresses that have a cell. -/
theorem exists_cell?_iff : (∃ k, b.cell? addr = some k) ↔
    (0x8000 ≤ addr ∧ addr < 0xA000) ∨
      (0xA000 ≤ addr ∧ addr < 0xC000 ∧ b.mapper.ramEnabled = true) ∨
      (0xC000 ≤ addr ∧ addr < 0xFEA0) ∨ 0xFF80 ≤ addr := by
  have hspan := Region.of_spans addr
  simp only [UInt16.le_iff_toNat_le, UInt16.lt_iff_toNat_lt, UInt16.toNat_ofNat,
    Nat.reducePow, Nat.reduceMod]
  unfold cell? externalOffset?
  cases hr : Region.of addr <;> cases b.mapper.ramEnabled <;>
    simp [hr, Region.Spans] at hspan ⊢ <;> omega

/-- A byte that is written to a cell is read at its address and at the address that mirrors it; all
    other reads are as before. -/
theorem WellFormed.write8_stores (hb : b.WellFormed) (h : b.cell? addr = some k) (v : UInt8) :
    ∃ t, write8 addr v b = .ok () t ∧
      ∀ other, t.read8 other =
        if other = addr ∨ Mirrors addr other then .ok v else b.read8 other := by
  have hcheck : b.checkWrite addr v = .ok () := by
    refine hb.checkWrite_eq_ok_iff.mpr fun hdma => ?_
    rw [IoRegister.of_eq_dma_iff.mp hdma] at h
    cases h
  obtain ⟨t, ht⟩ := hb.write8_eq_ok hcheck
  have hput : put v k b = .ok () t := by
    rwa [write8_of_cell h] at ht
  have hsame := sameElsewhere_of_put hput
  refine ⟨t, ht, fun other => ?_⟩
  cases hother : b.cell? other with
  | none =>
    have hapart : ¬ (other = addr ∨ Mirrors addr other) := by
      rw [← cell?_eq_some_iff h, hother]
      exact Option.some_ne_none k |>.symm
    rw [hsame.read8 hother, if_neg hapart]
  | some l =>
    have hshared : l = k ↔ other = addr ∨ Mirrors addr other := by
      rw [← cell?_eq_some_iff h, hother, Option.some.injEq]
    rw [read8_of_cell hother, read8_of_cell (hsame.cell?.trans hother), look_of_put hput]
    simp only [hshared]

/-- A controller that switches no banks obeys no commands. -/
theorem write8_romOnly (haddr : addr < 0x8000) (hscheme : b.mapper.scheme = .romOnly) (v : UInt8) :
    write8 addr v b = .ok () b := by
  have hmapper : b.mapper.control addr v = b.mapper := by
    cases hm : b.mapper with
    | romOnly => rfl
    | mbc1 m =>
      rw [hm] at hscheme
      cases hscheme
  have hwrite : write8 addr v b = .ok () { b with mapper := b.mapper.control addr v } := by
    unfold write8
    by_cases hfixed : addr < 0x4000
    · have hregion : Region.of addr = .romFixed := Region.of_eq_iff.mpr hfixed
      rw [hregion]
    · have hregion : Region.of addr = .romBanked :=
        Region.of_eq_iff.mpr ⟨Nat.le_of_not_lt hfixed, haddr⟩
      rw [hregion]
  rw [hwrite, hmapper]

theorem write8_unusable (hlow : 0xFEA0 ≤ addr) (hhigh : addr < 0xFF00) (v : UInt8) :
    write8 addr v b = .ok () b := by
  have hregion : Region.of addr = .unusable := Region.of_eq_iff.mpr ⟨hlow, hhigh⟩
  unfold write8
  rw [hregion]

theorem write8_closed (hlow : 0xA000 ≤ addr) (hhigh : addr < 0xC000)
    (hclosed : b.mapper.ramEnabled = false) (v : UInt8) : write8 addr v b = .ok () b := by
  have hregion : Region.of addr = .externalRam := Region.of_eq_iff.mpr ⟨hlow, hhigh⟩
  unfold write8
  rw [hregion]
  simp only [externalOffset?, hclosed, Bool.false_eq_true, if_false]

end Board

end Handheld
