import Handheld.Proofs.Board.ExternalRam
import Handheld.Proofs.Checked

namespace Handheld

open Checked

namespace MemoryBank

/-- The byte at an address, off which the base is taken. -/
def read8? (m : MemoryBank) (addr : Nat) : Option (Except Fault UInt8) := do
  let offset ← difference? addr m.base
  return if h : offset < m.data.size then .ok m.data[offset] else .error (m.outside addr)

/-- Fails as an access at this address would. -/
def check? (m : MemoryBank) (addr : Nat) : Option (Except Fault Unit) := do
  let offset ← difference? addr m.base
  return if offset < m.data.size then .ok () else .error (m.outside addr)

/-- Puts a byte at an address, off which the base is taken. -/
def write8? (addr : Nat) (v : UInt8) (m : MemoryBank) :
    Option (EStateM.Result Fault MemoryBank Unit) := do
  let offset ← difference? addr m.base
  return if h : offset < m.data.size then .ok () { m with data := m.data.set offset v h }
    else .error (m.outside addr) m

variable {m : MemoryBank} {addr base size : Nat}

theorem Occupies.base_le (h : m.Occupies base size) (haddr : base ≤ addr) : m.base ≤ addr :=
  h.base_eq ▸ haddr

theorem read8?_eq (h : m.base ≤ addr) : m.read8? addr = some (m.read8 addr) := by
  unfold read8? read8 Covers
  rw [difference?_of_le h]
  by_cases hoffset : addr - m.base < m.data.size <;> simp [h, hoffset]

theorem check?_eq (h : m.base ≤ addr) : m.check? addr = some (m.check addr) := by
  unfold check? check Covers
  rw [difference?_of_le h]
  simp [h]

theorem write8?_eq (h : m.base ≤ addr) (v : UInt8) :
    write8? addr v m = some (write8 addr v m) := by
  unfold write8? write8 Covers
  rw [difference?_of_le h]
  by_cases hoffset : addr - m.base < m.data.size <;> simp [h, hoffset]

end MemoryBank

namespace Board

/-- Where in external memory an address of its window lies, if external memory answers. -/
def externalPlace? (b : Board) (addr : UInt16) : Option (Option Nat) :=
  if b.mapper.ramEnabled then do
    let start ← product? 32 b.mapper.ramBank 0x2000
    let offset ← sum? 32 start (addr.toNat % 0x2000)
    return some offset
  else some none

/-- The byte at an address, as the processor reads it. -/
def read8? (b : Board) (addr : UInt16) : Option (Except Fault UInt8) :=
  match Region.of addr with
  | .romFixed =>
    if b.overlay && addr < 0x100 then b.boot.read8? addr.toNat else b.rom.read8? addr.toNat
  | .romBanked => do
    let start ← product? 32 b.mapper.romBank romBankSize
    let place ← sum? 32 start (addr.toNat % 0x4000)
    b.rom.read8? place
  | .videoRam => b.lcd.vram.read8? addr.toNat
  | .externalRam => do
    match ← b.externalPlace? addr with
    | some offset => b.externalRam.read8? offset
    | none => return .ok 0xFF
  | .workRam => b.workRam.read8? addr.toNat
  | .echo => do
    let place ← difference? addr.toNat 0x2000
    b.workRam.read8? place
  | .oam => b.lcd.oam.read8? addr.toNat
  | .unusable => some (.ok 0)
  | .io => some (.ok (b.readRegister (.of addr)))
  | .zeroPage => b.zeroPage.read8? addr.toNat
  | .interruptEnable => some (.ok b.enabled)

/-- The bytes that a transfer from a page would bring into object memory. -/
def readPage? (b : Board) (page : UInt8) : ExceptT Fault Option (Array UInt8) :=
  (Array.range oamSize).mapM fun i =>
    ExceptT.mk (b.read8? (Word.pageStart page + UInt16.ofNat i))

/-- Copies the start of a page into object memory, where each byte must have its place. -/
def transfer? (page : UInt8) (b : Board) : Option (EStateM.Result Fault Board Unit) := do
  match ← (b.readPage? page).run with
  | .ok bytes =>
    if ∀ i < oamSize, b.lcd.oam.Covers (0xFE00 + i) then
      return .ok () { b with lcd := { b.lcd with oam := b.lcd.oam.load bytes }, dmaPage := page }
    else none
  | .error e => return .error e b

/-- Writes a byte at an address, as the processor does. -/
def write8? (addr : UInt16) (v : UInt8) (b : Board) : Option (EStateM.Result Fault Board Unit) :=
  match Region.of addr with
  | .romFixed | .romBanked => some (.ok () { b with mapper := b.mapper.control addr v })
  | .videoRam => do
    let written ← MemoryBank.write8? addr.toNat v b.lcd.vram
    return onVideoRam (fun _ => written) b
  | .externalRam => do
    match ← b.externalPlace? addr with
    | some offset =>
      let written ← MemoryBank.write8? offset v b.externalRam
      return onExternalRam (fun _ => written) b
    | none => return .ok () b
  | .workRam => do
    let written ← MemoryBank.write8? addr.toNat v b.workRam
    return onWorkRam (fun _ => written) b
  | .echo => do
    let place ← difference? addr.toNat 0x2000
    let written ← MemoryBank.write8? place v b.workRam
    return onWorkRam (fun _ => written) b
  | .oam => do
    let written ← MemoryBank.write8? addr.toNat v b.lcd.oam
    return onOam (fun _ => written) b
  | .unusable => some (.ok () b)
  | .io =>
    match IoRegister.of addr with
    | .dma => transfer? v b
    | reg => some (.ok () (b.setRegister reg v))
  | .zeroPage => do
    let written ← MemoryBank.write8? addr.toNat v b.zeroPage
    return onZeroPage (fun _ => written) b
  | .interruptEnable => some (.ok () { b with enabled := v })

/-- Fails as a write would. -/
def checkWrite? (b : Board) (addr : UInt16) (v : UInt8) : Option (Except Fault Unit) :=
  match Region.of addr with
  | .externalRam => do
    match ← b.externalPlace? addr with
    | some offset => b.externalRam.check? offset
    | none => return .ok ()
  | .io =>
    match IoRegister.of addr with
    | .dma => do
      let page ← (b.readPage? v).run
      return page.map fun _ => ()
    | _ => some (.ok ())
  | _ => some (.ok ())

/-- Lets machine cycles pass. The display's clock cycles are four times as many. -/
def advance? (cycles : Nat) (b : Board) : Option (Board × Passed) := do
  let (timer, overflows) ← b.timer.advance? cycles
  let clocks ← product? 32 4 cycles
  let (raster, signals) ← b.lcd.raster.advance? clocks
  let requested :=
    { b.requested with
      timer := b.requested.timer || 0 < overflows
      vblank := b.requested.vblank || signals.any (·.isFrame) }
  return ({ b with timer, lcd := { b.lcd with raster }, requested }, ⟨overflows, signals⟩)

end Board

/-- The controller selects one of 128 banks of the program, and none whose number ends in five
    zeros. -/
structure Mapper.InRange (m : Mapper) : Prop where
  romBank_lt : m.romBank < 128
  romBank_low : m.romBank % 32 ≠ 0

namespace Mapper

theorem ofScheme_inRange (s : Cartridge.Scheme) : (ofScheme s).InRange := by
  cases s <;> exact ⟨by decide, by decide⟩

theorem InRange.control {m : Mapper} (h : m.InRange) (addr : UInt16) (v : UInt8) :
    (m.control addr v).InRange where
  romBank_lt := romBank_control h.romBank_lt addr v
  romBank_low := by
    obtain ⟨hlt, hlow⟩ := h
    cases m with
    | romOnly => exact hlow
    | mbc1 m =>
      simp only [romBank] at hlt hlow
      -- The low five bits are replaced by some that are not all zero, or stay.
      simp only [Mapper.control, Mbc1.Command.ofWrite]
      split
      · exact hlow
      · split
        · have hhigh : (m.romBank &&& 0x60).toNat = 32 * (m.romBank.toNat / 32) :=
            Mbc1.toNat_and_high (Nat.div_add_mod _ 32).symm (by omega) (Nat.mod_lt _ (by decide))
          have hbits := Mbc1.toNat_low_or_one v
          simp only [romBank, Mbc1.obey]
          rw [Mbc1.toNat_or_of_parts hhigh] <;> rw [hbits] <;> split <;> omega
        · split
          · cases hmode : m.mode with
            | ram => simpa only [romBank, Mbc1.obey, hmode] using hlow
            | rom =>
              have hkept := Mbc1.toNat_and_low m.romBank
              simp only [romBank, Mbc1.obey, hmode]
              rw [UInt8.or_comm, Mbc1.toNat_or_of_parts (Mbc1.toNat_upper_shifted v)] <;>
                rw [hkept] <;> omega
          · exact hlow

end Mapper

namespace Board

/-- The board is well-formed, the program consists of whole banks, the controller and the timer are
    in range and the display is in step. -/
structure Regular (b : Board) : Prop extends b.WellFormed where
  rom_whole : romBankSize ∣ b.rom.size
  mapper : b.mapper.InRange
  timer : b.timer.InRange
  raster : ∃ t, b.lcd.raster.InStep t

variable {b t : Board} {addr : UInt16} {v : UInt8}

theorem new_regular (config : Config) : (new config).Regular where
  toWellFormed := new_wellFormed config
  rom_whole := ⟨2, MemoryBank.size_zeroed _ _ _⟩
  mapper := Mapper.ofScheme_inRange .romOnly
  timer := .powerOn
  raster := ⟨0, Raster.powerOn_inStep⟩

theorem Regular.insert (h : b.Regular) (cart : Cartridge) : (b.insert cart).Regular where
  toWellFormed := h.toWellFormed.insert cart
  rom_whole := by
    have hsize : (b.insert cart).rom.size = romSize cart.image.size := by
      change (MemoryBank.holding _ _ _ _).size = _
      rw [MemoryBank.size_holding]
      exact Nat.max_eq_right (size_le_romSize _)
    rw [hsize]
    exact Nat.dvd_of_mod_eq_zero (romSize_mod _)
  mapper := Mapper.ofScheme_inRange cart.scheme
  timer := h.timer
  raster := h.raster

theorem Regular.reset (h : b.Regular) (scheme : Cartridge.Scheme) : (b.reset scheme).Regular where
  toWellFormed := h.toWellFormed.reset scheme
  rom_whole := h.rom_whole
  mapper := Mapper.ofScheme_inRange scheme
  timer := .powerOn
  raster := ⟨0, Raster.powerOn_inStep⟩

theorem Regular.beginStep (h : b.Regular) (pc : UInt16) : (b.beginStep pc).Regular :=
  { h with toWellFormed := h.toWellFormed.beginStep pc }

theorem Regular.setButton (h : b.Regular) (button : Button) (pressed : Bool) :
    (b.setButton button pressed).Regular :=
  { h with toWellFormed := h.toWellFormed.setButton button pressed }

theorem Regular.advance (h : b.Regular) (n : Nat) : (b.advance n).1.Regular where
  toWellFormed := h.toWellFormed.advance n
  rom_whole := h.rom_whole
  mapper := h.mapper
  timer := h.timer.advance n
  raster := by
    obtain ⟨t, ht⟩ := h.raster
    exact ⟨_, (ht.advance (4 * n)).1⟩

theorem Change.regular (hchange : Change addr v b t) (h : b.Regular) : t.Regular := by
  have ht := hchange.wellFormed h.toWellFormed
  cases hchange with
  | mapper => exact { h with toWellFormed := ht, mapper := h.mapper.control addr v }
  | register =>
    cases hreg : IoRegister.of addr <;> rw [hreg] at ht
    case tac => exact { h with toWellFormed := ht, timer := h.timer.setTac v }
    case div | tima | tma => exact { h with toWellFormed := ht, timer := { h.timer with } }
    all_goals exact { h with toWellFormed := ht }
  | _ => exact { h with toWellFormed := ht }

theorem Regular.externalPlace?_eq (h : b.Regular) :
    b.externalPlace? addr = some (b.externalOffset? addr) := by
  have hbank := h.toWellFormed.ramBank_lt
  have hstart : product? 32 b.mapper.ramBank 0x2000 = some (b.mapper.ramBank * 0x2000) :=
    product?_of_lt (by omega)
  have hoffset : sum? 32 (b.mapper.ramBank * 0x2000) (addr.toNat % 0x2000) =
      some (b.mapper.ramBank * 0x2000 + addr.toNat % 0x2000) := sum?_of_lt (by omega)
  unfold externalPlace? externalOffset?
  simp only [hstart, Option.bind_eq_bind, Option.bind_some, hoffset, Mapper.ramOffset_eq]
  split <;> rfl

theorem Regular.read8?_eq (h : b.Regular) (addr : UInt16) :
    b.read8? addr = some (b.read8 addr) := by
  have hspan := Region.of_spans addr
  have hrom {a : Nat} : b.rom.base ≤ a := h.rom_base ▸ Nat.zero_le a
  unfold read8? read8
  cases hr : Region.of addr <;> simp only [hr, Region.Spans] at hspan ⊢
  case romFixed =>
    split
    · exact MemoryBank.read8?_eq (h.boot.base_le (Nat.zero_le _))
    · exact MemoryBank.read8?_eq hrom
  case romBanked =>
    have hbank := h.mapper.romBank_lt
    have hstart : product? 32 b.mapper.romBank romBankSize = some b.mapper.romOffset := by
      rw [Mapper.romOffset_eq]
      exact product?_of_lt (by unfold romBankSize; omega)
    have hplace : sum? 32 b.mapper.romOffset (addr.toNat % 0x4000) =
        some (b.mapper.romOffset + addr.toNat % 0x4000) := by
      rw [Mapper.romOffset_eq]
      exact sum?_of_lt (by unfold romBankSize; omega)
    simp only [hstart, Option.bind_eq_bind, Option.bind_some, hplace]
    exact MemoryBank.read8?_eq hrom
  case videoRam => exact MemoryBank.read8?_eq (h.vram.base_le hspan.1)
  case externalRam =>
    simp only [h.externalPlace?_eq, Option.bind_eq_bind, Option.bind_some]
    cases b.externalOffset? addr with
    | none => rfl
    | some offset => exact MemoryBank.read8?_eq (h.externalRam.base_le (Nat.zero_le _))
  case workRam => exact MemoryBank.read8?_eq (h.workRam.base_le hspan.1)
  case echo =>
    rw [difference?_of_le (by omega)]
    exact MemoryBank.read8?_eq (h.workRam.base_le (by omega))
  case oam => exact MemoryBank.read8?_eq (h.oam.base_le hspan.1)
  case zeroPage => exact MemoryBank.read8?_eq (h.zeroPage.base_le hspan.1)

private theorem mapM_some {α β ε : Type} (f : α → Except ε β) (xs : List α) :
    (xs.mapM fun x => (ExceptT.mk (some (f x)) : ExceptT ε Option β)) =
      ExceptT.mk (some (xs.mapM f)) := by
  induction xs with
  | nil => rfl
  | cons x xs ih =>
    rw [List.mapM_cons, List.mapM_cons, ih]
    cases f x with
    | error e => rfl
    | ok y => cases xs.mapM f <;> rfl

theorem Regular.readPage?_eq (h : b.Regular) (page : UInt8) :
    (b.readPage? page).run = some (b.readPage page) := by
  unfold readPage? readPage
  simp only [h.read8?_eq, Array.mapM_eq_mapM_toList, mapM_some]
  cases (Array.range oamSize).toList.mapM
    fun i => b.read8 (Word.pageStart page + UInt16.ofNat i) <;> rfl

theorem Regular.transfer?_eq (h : b.Regular) (page : UInt8) :
    transfer? page b = some (transfer page b) := by
  have hplaces : ∀ i < oamSize, b.lcd.oam.Covers (0xFE00 + i) := fun i hi =>
    h.oam.covers (Nat.le_add_right _ _) (Nat.add_lt_add_left hi _)
  unfold transfer? transfer
  rw [h.readPage?_eq]
  cases b.readPage page with
  | ok bytes =>
    simp only [Option.bind_eq_bind, Option.bind_some, if_pos hplaces]
    rfl
  | error e => rfl

theorem Regular.write8?_eq (h : b.Regular) (addr : UInt16) (v : UInt8) :
    write8? addr v b = some (write8 addr v b) := by
  have hspan := Region.of_spans addr
  unfold write8? write8
  cases hr : Region.of addr <;> simp only [hr, Region.Spans] at hspan ⊢
  case videoRam =>
    rw [MemoryBank.write8?_eq (h.vram.base_le hspan.1)]
    rfl
  case externalRam =>
    simp only [h.externalPlace?_eq, Option.bind_eq_bind, Option.bind_some]
    cases b.externalOffset? addr with
    | none => rfl
    | some offset =>
      simp only [MemoryBank.write8?_eq (h.externalRam.base_le (Nat.zero_le _))]
      rfl
  case workRam =>
    rw [MemoryBank.write8?_eq (h.workRam.base_le hspan.1)]
    rfl
  case echo =>
    rw [difference?_of_le (by omega)]
    simp only [Option.bind_eq_bind, Option.bind_some]
    rw [MemoryBank.write8?_eq (h.workRam.base_le (by omega))]
    rfl
  case oam =>
    rw [MemoryBank.write8?_eq (h.oam.base_le hspan.1)]
    rfl
  case io =>
    cases IoRegister.of addr with
    | dma => exact h.transfer?_eq v
    | _ => rfl
  case zeroPage =>
    rw [MemoryBank.write8?_eq (h.zeroPage.base_le hspan.1)]
    rfl

theorem Regular.checkWrite?_eq (h : b.Regular) (addr : UInt16) (v : UInt8) :
    b.checkWrite? addr v = some (b.checkWrite addr v) := by
  unfold checkWrite? checkWrite
  cases Region.of addr with
  | externalRam =>
    simp only [h.externalPlace?_eq, Option.bind_eq_bind, Option.bind_some]
    cases b.externalOffset? addr with
    | none => rfl
    | some offset => exact MemoryBank.check?_eq (h.externalRam.base_le (Nat.zero_le _))
  | io =>
    cases IoRegister.of addr with
    | dma =>
      simp only [h.readPage?_eq]
      rfl
    | _ => rfl
  | _ => rfl

theorem Regular.advance?_eq (h : b.Regular) {n : Nat} (hn : n ≤ 2 ^ 29) :
    b.advance? n = some (b.advance n) := by
  obtain ⟨t, ht⟩ := h.raster
  have hclocks : product? 32 4 n = some (4 * n) := product?_of_lt (by omega)
  unfold advance?
  simp only [h.timer.advance?_eq (n := n) (by omega), Option.bind_eq_bind, Option.bind_some,
    hclocks, ht.advance?_eq (n := 4 * n) (by omega)]
  rfl

end Board

end Handheld
