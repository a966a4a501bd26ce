import Handheld.Proofs.Board.Cartridge
import Handheld.Proofs.Cartridge.Registers

namespace Handheld

namespace Mapper

/-- The bank of external memory that the window shows. -/
def ramBank : Mapper → Nat
  | .romOnly => 0
  | .mbc1 m => m.ramBank.toNat

/-- The controller after what a history has written to the program area. -/
def after (m : Mapper) : List BusCall → Mapper
  | [] => m
  | .write addr v :: past => if addr < 0x8000 then (m.after past).control addr v else m.after past
  | _ :: past => m.after past

variable {m : Mapper} {past : List BusCall} {addr : UInt16} {v : UInt8}

theorem ramOffset_eq (m : Mapper) : m.ramOffset = m.ramBank * 0x2000 := by
  cases m <;> rfl

theorem after_write : m.after (.write addr v :: past) =
    if addr < 0x8000 then (m.after past).control addr v else m.after past :=
  rfl

theorem after_of_not_write {call : BusCall} (h : ∀ addr v, call ≠ .write addr v) :
    m.after (call :: past) = m.after past := by
  cases call with
  | write addr v => exact absurd rfl (h addr v)
  | _ => rfl

theorem after_romOnly (past : List BusCall) : romOnly.after past = .romOnly := by
  induction past with
  | nil => rfl
  | cons call past ih =>
    cases call with
    | write addr v =>
      rw [after_write, ih]
      exact ite_self _
    | _ => exact ih

/-- What a history has written to the program area. -/
def programWrites : List BusCall → List Mbc1.Write :=
  List.filterMap fun call =>
    match call with
    | .write addr v => if addr < 0x8000 then some ⟨addr, v⟩ else none
    | _ => none

theorem programWrites_write : programWrites (.write addr v :: past) =
    if addr < 0x8000 then ⟨addr, v⟩ :: programWrites past else programWrites past := by
  unfold programWrites
  by_cases haddr : addr < 0x8000
  · rw [if_pos haddr]
    exact List.filterMap_cons_some (if_pos haddr)
  · rw [if_neg haddr]
    exact List.filterMap_cons_none (if_neg haddr)

/-- The registers of the bank controller hold what was written to them. -/
theorem after_mbc1 (past : List BusCall) :
    ∃ m, (ofScheme .mbc1).after past = .mbc1 m ∧ m.Holds (programWrites past) := by
  induction past with
  | nil => exact ⟨{}, rfl, .powerOn⟩
  | cons call past ih =>
    obtain ⟨m, hm, hholds⟩ := ih
    cases call with
    | write addr v =>
      rw [after_write, programWrites_write, hm]
      by_cases haddr : addr < 0x8000
      · rw [if_pos haddr, if_pos haddr]
        exact ⟨m.write ⟨addr, v⟩, rfl, hholds.write haddr⟩
      · rw [if_neg haddr, if_neg haddr]
        exact ⟨m, rfl, hholds⟩
    | _ => exact ⟨m, hm, hholds⟩

end Mapper

/-- The address at an offset of the window to external memory. -/
def windowAddr (o : Nat) : UInt16 :=
  UInt16.ofNat (0xA000 + o)

section Window

variable {o o' : Nat} {addr : UInt16}

theorem toNat_windowAddr (ho : o < 0x2000) : (windowAddr o).toNat = 0xA000 + o :=
  UInt16.toNat_ofNat_of_lt' (by change 0xA000 + o < 65536; omega)

theorem windowAddr_inj (ho : o < 0x2000) (ho' : o' < 0x2000) :
    windowAddr o = windowAddr o' ↔ o = o' := by
  rw [← UInt16.toNat_inj, toNat_windowAddr ho, toNat_windowAddr ho']
  omega

theorem windowAddr_not_lt (ho : o < 0x2000) : ¬ windowAddr o < 0x8000 := by
  rw [UInt16.lt_iff_toNat_lt, toNat_windowAddr ho]
  change ¬ 0xA000 + o < 0x8000
  omega

theorem region_windowAddr (ho : o < 0x2000) : Region.of (windowAddr o) = .externalRam := by
  refine Region.of_eq_iff.mpr ?_
  rw [toNat_windowAddr ho]
  exact ⟨Nat.le_add_right _ _, by omega⟩

theorem eq_windowAddr (h : Region.of addr = .externalRam) :
    addr = windowAddr (addr.toNat % 0x2000) := by
  obtain ⟨hlow, hhigh⟩ := Region.of_eq_iff.mp h
  rw [← UInt16.toNat_inj, toNat_windowAddr (Nat.mod_lt _ (by decide))]
  omega

end Window

/-- What was written last at an offset of a bank, while the gate was open and the bank was shown.
    The controller was `m` when the history began. -/
def lastStored (m : Mapper) (bank o : Nat) : List BusCall → UInt8 :=
  History.latest (History.atWrite fun past addr v =>
    if addr = windowAddr o ∧ (m.after past).ramEnabled = true ∧ (m.after past).ramBank = bank
    then some v else none) 0

section LastStored

variable {m : Mapper} {bank o : Nat} {past more : List BusCall} {addr : UInt16} {v : UInt8}

theorem lastStored_write : lastStored m bank o (.write addr v :: past) =
    if addr = windowAddr o ∧ (m.after past).ramEnabled = true ∧ (m.after past).ramBank = bank
    then v else lastStored m bank o past :=
  History.latest_cons_of_ite rfl

theorem lastStored_of_not_write {call : BusCall} (h : ∀ addr v, call ≠ .write addr v) :
    lastStored m bank o (call :: past) = lastStored m bank o past :=
  History.latest_of_not_write h

/-- What is not written keeps its value, whatever else happens. -/
theorem lastStored_append (h : ∀ v, .write (windowAddr o) v ∉ more) :
    lastStored m bank o (more ++ past) = lastStored m bank o past := by
  refine History.latest_append_of_silent fun call hcall before => ?_
  cases call with
  | write addr v =>
    have haddr : addr ≠ windowAddr o := by
      rintro rfl
      exact h v hcall
    exact if_neg fun hwritten => haddr hwritten.1
  | _ => rfl

end LastStored

theorem MemoryBank.read8_clear {b : MemoryBank} {addr : Nat} (h : b.Covers addr) :
    b.clear.read8 addr = .ok 0 := by
  have hclear : b.clear.Covers addr := by
    refine ⟨h.1, ?_⟩
    change addr - b.base < b.clear.size
    rw [size_clear]
    exact h.2
  rw [read8, dif_pos hclear]
  exact congrArg Except.ok (Array.getElem_replicate _)

namespace Board

variable {b t : Board} {addr : UInt16} {v : UInt8}

/-- What a write does to the controller and to external memory. -/
inductive Banking (addr : UInt16) (v : UInt8) (b t : Board) : Prop
  | control (haddr : addr < 0x8000) (hmapper : t.mapper = b.mapper.control addr v)
    (hram : t.externalRam = b.externalRam)
  | store (o : Nat) (ho : o < 0x2000) (haddr : addr = windowAddr o)
    (henabled : b.mapper.ramEnabled = true) (hmapper : t.mapper = b.mapper)
    (hram : MemoryBank.write8 (b.mapper.ramOffset + o) v b.externalRam = .ok () t.externalRam)
  | neither (haddr : ¬ addr < 0x8000)
    (hclosed : ∀ o < 0x2000, addr = windowAddr o → b.mapper.ramEnabled = false)
    (hmapper : t.mapper = b.mapper) (hram : t.externalRam = b.externalRam)

theorem setRegister_banking (b : Board) (reg : IoRegister) (v : UInt8) :
    (b.setRegister reg v).mapper = b.mapper ∧
      (b.setRegister reg v).externalRam = b.externalRam := by
  cases reg <;> exact ⟨rfl, rfl⟩

theorem writeRegister_banking {reg : IoRegister} (h : writeRegister reg v b = .ok () t) :
    t.mapper = b.mapper ∧ t.externalRam = b.externalRam := by
  by_cases hdma : reg = .dma
  · subst hdma
    change Board.transfer v b = .ok () t at h
    cases hpage : b.readPage v with
    | ok bytes =>
      rw [transfer_of_ok hpage] at h
      cases h
      exact ⟨rfl, rfl⟩
    | error e =>
      rw [transfer_of_error hpage] at h
      cases h
  · rw [writeRegister_of_ne_dma hdma] at h
    cases h
    exact setRegister_banking b reg v

theorem write8_banking (h : write8 addr v b = .ok () t) : Banking addr v b t := by
  have hspan := Region.of_spans addr
  have helsewhere (hrom : 0x8000 ≤ addr.toNat) (hwindow : Region.of addr ≠ .externalRam)
      (hkept : t.mapper = b.mapper ∧ t.externalRam = b.externalRam) : Banking addr v b t := by
    refine .neither ?_ (fun o ho haddr => ?_) hkept.1 hkept.2
    · rw [UInt16.lt_iff_toNat_lt]
      exact Nat.not_lt.mpr hrom
    · rw [haddr] at hwindow
      exact absurd (region_windowAddr ho) hwindow
  unfold write8 at h
  cases hr : Region.of addr <;> simp only [hr, Region.Spans] at h hspan
  case romFixed | romBanked =>
    cases h
    refine .control ?_ rfl rfl
    rw [UInt16.lt_iff_toNat_lt]
    change addr.toNat < 0x8000
    omega
  case externalRam =>
    have haddr := eq_windowAddr hr
    have ho : addr.toNat % 0x2000 < 0x2000 := Nat.mod_lt _ (by decide)
    cases henabled : b.mapper.ramEnabled with
    | true =>
      simp only [externalOffset?, henabled, if_true] at h
      obtain ⟨ram, hram, rfl⟩ := Access.zoom_eq_ok_iff.mp h
      exact .store _ ho haddr henabled rfl hram
    | false =>
      simp only [externalOffset?, henabled, Bool.false_eq_true, if_false] at h
      cases h
      refine .neither ?_ (fun _ _ _ => henabled) rfl rfl
      rw [haddr]
      exact windowAddr_not_lt ho
  case io => exact helsewhere (by omega) (by simp [hr]) (writeRegister_banking h)
  case unusable | interruptEnable =>
    cases h
    exact helsewhere (by omega) (by simp [hr]) ⟨rfl, rfl⟩
  case videoRam | workRam | echo | oam | zeroPage =>
    obtain ⟨bank, -, rfl⟩ := Access.zoom_eq_ok_iff.mp h
    exact helsewhere (by omega) (by simp [hr]) ⟨rfl, rfl⟩

/-- The controller and every byte of the four banks are what the history has made of them. -/
structure Stores (m : Mapper) (b : Board) (past : List BusCall) : Prop where
  mapper : b.mapper = m.after past
  bytes : ∀ bank < 4, ∀ o < 0x2000,
    b.externalRam.read8 (bank * 0x2000 + o) = .ok (lastStored m bank o past)

variable {m : Mapper} {past : List BusCall}

theorem Stores.congr (h : Stores m b past) (hmapper : t.mapper = b.mapper)
    (hram : t.externalRam = b.externalRam) : Stores m t past := by
  refine ⟨?_, ?_⟩
  · rw [hmapper, h.mapper]
  · rw [hram]
    exact h.bytes

theorem Stores.of_not_write (h : Stores m b past) {call : BusCall}
    (hcall : ∀ addr v, call ≠ .write addr v) : Stores m b (call :: past) := by
  refine ⟨?_, fun bank hbank o ho => ?_⟩
  · rw [Mapper.after_of_not_write hcall, h.mapper]
  · rw [lastStored_of_not_write hcall, h.bytes bank hbank o ho]

theorem Stores.write (h : Stores m b past) (hwrite : write8 addr v b = .ok () t) :
    Stores m t (.write addr v :: past) := by
  have hmapper := h.mapper
  obtain ⟨haddr, hcontrol, hram⟩ | ⟨o', ho', rfl, henabled, hkept, hram⟩ |
    ⟨haddr, hclosed, hkept, hram⟩ := write8_banking hwrite
  · refine ⟨?_, fun bank hbank o ho => ?_⟩
    · rw [Mapper.after_write, if_pos haddr, hcontrol, hmapper]
    · rw [lastStored_write, if_neg, hram, h.bytes bank hbank o ho]
      rintro ⟨rfl, -⟩
      exact windowAddr_not_lt ho haddr
  · refine ⟨?_, fun bank hbank o ho => ?_⟩
    · rw [Mapper.after_write, if_neg (windowAddr_not_lt ho'), hkept, hmapper]
    · have hplace : bank * 0x2000 + o = b.mapper.ramOffset + o' ↔
          windowAddr o' = windowAddr o ∧ (m.after past).ramEnabled = true ∧
            (m.after past).ramBank = bank := by
        rw [windowAddr_inj ho' ho, Mapper.ramOffset_eq, ← hmapper, henabled, eq_self, true_and]
        omega
      rw [MemoryBank.read8_of_write8_eq_ok hram, lastStored_write, h.bytes bank hbank o ho]
      by_cases hhere : bank * 0x2000 + o = b.mapper.ramOffset + o'
      · rw [if_pos hhere, if_pos (hplace.mp hhere)]
      · rw [if_neg hhere, if_neg (mt hplace.mpr hhere)]
  · refine ⟨?_, fun bank hbank o ho => ?_⟩
    · rw [Mapper.after_write, if_neg haddr, hkept, hmapper]
    · rw [lastStored_write, if_neg, hram, h.bytes bank hbank o ho]
      rintro ⟨hwindow, henabled, -⟩
      rw [← hmapper, hclosed o ho hwindow] at henabled
      cases henabled

theorem Stores.reset (hb : b.WellFormed) (scheme : Cartridge.Scheme) :
    Stores (.ofScheme scheme) (b.reset scheme) [] := by
  refine ⟨rfl, fun bank hbank o ho => ?_⟩
  refine MemoryBank.read8_clear (hb.externalRam.covers (Nat.zero_le _) ?_)
  omega

/-- What the window shows of external memory. -/
theorem read8_window {o : Nat} (ho : o < 0x2000) :
    b.read8 (windowAddr o) = if b.mapper.ramEnabled then
      b.externalRam.read8 (b.mapper.ramBank * 0x2000 + o) else .ok 0xFF := by
  have hoffset : (0xA000 + o) % 0x2000 = o := by omega
  rw [read8, region_windowAddr ho]
  simp only [externalOffset?, toNat_windowAddr ho, hoffset, Mapper.ramOffset_eq]
  cases b.mapper.ramEnabled <;> rfl

theorem write8_window_closed {o : Nat} (ho : o < 0x2000) (hclosed : b.mapper.ramEnabled = false)
    (v : UInt8) : write8 (windowAddr o) v b = .ok () b := by
  rw [write8, region_windowAddr ho]
  simp only [externalOffset?, hclosed, Bool.false_eq_true, if_false]

theorem WellFormed.ramBank_lt (h : b.WellFormed) : b.mapper.ramBank < 4 := by
  have hoffset := h.ramOffset
  rw [Mapper.ramOffset_eq] at hoffset
  omega

end Board

end Handheld
