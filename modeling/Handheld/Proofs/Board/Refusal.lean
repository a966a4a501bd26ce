import Handheld.Proofs.Board.WellFormed

namespace Handheld.Board

variable {b t : Board} {addr : UInt16} {v : UInt8} {e : Fault}

private theorem zoom_write8_eq_error {get : Board → MemoryBank} {set : MemoryBank → Board → Board}
    {a : Nat} (heta : set (get b) b = b)
    (h : Access.zoom get set (MemoryBank.write8 a v) b = .error e t) : t = b := by
  obtain ⟨m, hwrite, rfl⟩ := Access.zoom_eq_error_iff.mp h
  rw [MemoryBank.write8_eq_error hwrite, heta]

theorem writeRegister_eq_error {reg : IoRegister} (h : writeRegister reg v b = .error e t) :
    t = b := by
  by_cases hdma : reg = .dma
  · subst hdma
    change transfer v b = .error e t at h
    cases hpage : b.readPage v with
    | ok bytes =>
      rw [transfer_of_ok hpage] at h
      cases h
    | error e' =>
      rw [transfer_of_error hpage] at h
      cases h
      rfl
  · rw [writeRegister_of_ne_dma hdma] at h
    cases h

/-- A refused byte leaves the board as it was. -/
theorem write8_eq_error (h : write8 addr v b = .error e t) : t = b := by
  unfold write8 at h
  cases hr : Region.of addr <;> simp only [hr] at h
  case romFixed | romBanked | unusable | interruptEnable => cases h
  case io => exact writeRegister_eq_error h
  case externalRam =>
    cases hoffset : b.externalOffset? addr with
    | none =>
      simp only [hoffset] at h
      cases h
    | some offset =>
      simp only [hoffset] at h
      exact zoom_write8_eq_error rfl h
  all_goals exact zoom_write8_eq_error rfl h

private theorem exists_mapM_eq_ok_iff {α β ε : Type} {f : α → Except ε β} {xs : List α} :
    (∃ ys, xs.mapM f = .ok ys) ↔ ∀ x ∈ xs, ∃ y, f x = .ok y := by
  induction xs with
  | nil => simp [pure, Except.pure]
  | cons x xs ih =>
    rw [List.mapM_cons, List.forall_mem_cons, ← ih]
    cases f x with
    | error e => simp [bind, Except.bind]
    | ok y => cases xs.mapM f <;> simp [bind, Except.bind, pure, Except.pure]

/-- A page can be read if each of its bytes can. -/
theorem readPage_eq_ok_iff {page : UInt8} :
    (∃ bytes, b.readPage page = .ok bytes) ↔
      ∀ i < oamSize, ∃ v, b.read8 (Word.pageStart page + UInt16.ofNat i) = .ok v := by
  have hlist : (∃ bytes, b.readPage page = .ok bytes) ↔ ∃ bytes, (List.range oamSize).mapM
      (fun i => b.read8 (Word.pageStart page + UInt16.ofNat i)) = .ok bytes := by
    unfold readPage
    rw [Array.mapM_eq_mapM_toList, Array.toList_range]
    cases (List.range oamSize).mapM fun i => b.read8 (Word.pageStart page + UInt16.ofNat i) <;>
      simp [Functor.map, Except.map]
  rw [hlist, exists_mapM_eq_ok_iff]
  simp only [List.mem_range]

/-- Whether a page can be read is a matter of the cartridge alone. -/
theorem WellFormed.readPage_congr (hb : b.WellFormed) (ht : t.WellFormed) (hrom : t.rom = b.rom)
    (hmapper : t.mapper = b.mapper) (page : UInt8) :
    (∃ bytes, t.readPage page = .ok bytes) ↔ ∃ bytes, b.readPage page = .ok bytes := by
  simp only [readPage_eq_ok_iff, hb.read8_eq_ok_iff, ht.read8_eq_ok_iff, hrom, hmapper]

/-- The check of a write refuses a transfer from a page that cannot be read, and nothing else. -/
theorem WellFormed.checkWrite_eq_ok_iff (h : b.WellFormed) :
    b.checkWrite addr v = .ok () ↔
      (IoRegister.of addr = .dma → ∃ bytes, b.readPage v = .ok bytes) := by
  by_cases hdma : IoRegister.of addr = .dma
  · have haddr : addr = 0xFF46 := IoRegister.of_eq_dma_iff.mp hdma
    subst haddr
    have hcheck : b.checkWrite 0xFF46 v = (b.readPage v).map fun _ => () := rfl
    rw [hcheck]
    cases b.readPage v <;> simp [Except.map, hdma]
  · simp only [hdma, false_implies, iff_true]
    unfold checkWrite
    cases hr : Region.of addr <;> simp only
    case externalRam =>
      cases hoffset : b.externalOffset? addr with
      | none => rfl
      | some offset => exact if_pos (h.externalRam_covers hoffset)

/-- A byte is written exactly if it passes the check. -/
theorem WellFormed.write8_eq_ok_iff (h : b.WellFormed) :
    (∃ t, write8 addr v b = .ok () t) ↔ b.checkWrite addr v = .ok () := by
  constructor
  · rintro ⟨t, hwrite⟩
    rw [h.checkWrite_eq_ok_iff]
    intro hdma
    have haddr : addr = 0xFF46 := IoRegister.of_eq_dma_iff.mp hdma
    subst haddr
    change transfer v b = .ok () t at hwrite
    cases hpage : b.readPage v with
    | ok bytes => exact ⟨bytes, rfl⟩
    | error e =>
      rw [transfer_of_error hpage] at hwrite
      cases hwrite
  · exact h.write8_eq_ok

/-- Whether the high byte of a word passes the check does not depend on whether the low byte is
    written already. -/
theorem WellFormed.checkWrite_succ_iff (h : b.WellFormed) {lo hi : UInt8}
    (hlow : write8 addr lo b = .ok () t) :
    t.checkWrite (addr + 1) hi = .ok () ↔ b.checkWrite (addr + 1) hi = .ok () := by
  have ht : t.WellFormed := (write8_preserves_wellFormed addr lo).of_ok h hlow
  rw [h.checkWrite_eq_ok_iff, ht.checkWrite_eq_ok_iff]
  refine imp_congr_right fun hdma => ?_
  -- The register before the one for transfers is a plain one.
  have hsucc : addr + 1 = 0xFF46 := IoRegister.of_eq_dma_iff.mp hdma
  have haddr : addr = 0xFF45 := by
    rw [← UInt16.add_sub_cancel addr 1, hsucc]
    rfl
  subst haddr
  have hset : write8 0xFF45 lo b = .ok () (b.setRegister .lyc lo) := rfl
  rw [hset] at hlow
  cases hlow
  exact h.readPage_congr ht rfl rfl hi

/-- Once the high byte of a word has passed the check, writing the low byte does not get it
    refused. -/
theorem WellFormed.write8_succ_eq_ok (h : b.WellFormed) {lo hi : UInt8}
    (hlow : write8 addr lo b = .ok () t) (hcheck : b.checkWrite (addr + 1) hi = .ok ()) :
    ∃ u, write8 (addr + 1) hi t = .ok () u := by
  have ht : t.WellFormed := (write8_preserves_wellFormed addr lo).of_ok h hlow
  exact ht.write8_eq_ok ((h.checkWrite_succ_iff hlow).mpr hcheck)

end Handheld.Board
