import Handheld.Proofs.Console.Program

namespace Handheld

theorem Observed.writeBytes_of_check_error {o : Observed} {addr w : UInt16} {e : Fault}
    (ho : o.board.WellFormed) (hcheck : o.board.checkWrite (addr + 1) (Word.hi w) = .error e) :
    ∃ e' u, writeBytes addr w o = .error e' u := by
  cases hbytes : writeBytes addr w o with
  | error e' u => exact ⟨e', u, rfl⟩
  | ok _ u =>
    -- The low byte does not change whether the high byte passes.
    obtain ⟨_, t, hlow, hhigh⟩ := Access.bind_eq_ok_iff.mp hbytes
    have hlow' := board_of_perform_eq_ok hlow
    have ht : t.board.WellFormed := (Board.write8_preserves_wellFormed _ _).of_ok ho hlow'
    have hpassed := ht.write8_eq_ok_iff.mp ⟨_, board_of_perform_eq_ok hhigh⟩
    rw [ho.checkWrite_succ_iff hlow', hcheck] at hpassed
    cases hpassed

namespace Console

/-- A word on the bus of a reachable console is written as its low byte and then its high byte
    would be. If it is refused, the board and the pictures stay as they are, and one of the two
    bytes would have been refused as well. -/
theorem write16_all_or_nothing {c : Console} (hc : c.Reachable) (events : Array Event)
    (addr w : UInt16) :
    match (Bus.write16 addr w : Access Observed Unit) ⟨c.board, events⟩ with
    | .ok () t => Observed.writeBytes addr w ⟨c.board, events⟩ = .ok () t
    | .error _ t => t.board = c.board ∧ pictures t.events = pictures events ∧
        ∃ e u, Observed.writeBytes addr w ⟨c.board, events⟩ = .error e u := by
  have ho : (⟨c.board, events⟩ : Observed).board.WellFormed := hc.wellFormed
  cases hwrite : (Bus.write16 addr w : Access Observed Unit) ⟨c.board, events⟩ with
  | ok _ t => exact Observed.writeBytes_of_write16 hwrite
  | error e t =>
    have hshown := Observed.shown_of_write16_eq_error ho hwrite
    refine ⟨congrArg Prod.fst hshown, congrArg Prod.snd hshown, ?_⟩
    cases hcheck : c.board.checkWrite (addr + 1) (Word.hi w) with
    | ok _ => exact ⟨e, t, (Observed.write16_of_check_ok hcheck).symm.trans hwrite⟩
    | error e' => exact Observed.writeBytes_of_check_error ho hcheck

/-- A word whose high byte starts a transfer from a missing bank is refused, and one of its bytes
    would be. -/
theorem write16_refused_from_missingBank :
    ∃ e t, Bus.write16 0xFF45 0x4034 (⟨missingBank.board, #[]⟩ : Observed) = .error e t ∧
      t.board = missingBank.board ∧ pictures t.events = pictures #[] ∧
      ∃ e u, Observed.writeBytes 0xFF45 0x4034 ⟨missingBank.board, #[]⟩ = .error e u := by
  have hword := write16_all_or_nothing missingBank_reachable #[] 0xFF45 0x4034
  have hcarries : missingBank.board.Carries twoBanks := missingBank_reachable.carries rfl
  have hcheck : missingBank.board.checkWrite 0xFF46 0x40 ≠ .ok () := by
    rw [Ne, hcarries.checkWrite_eq_ok_iff, missingBank_romBank, twoBanks_programSize]
    decide
  -- From here on nothing of the console counts but that the check fails.
  generalize missingBank.board = b at hword hcheck ⊢
  cases hhigh : b.checkWrite (0xFF45 + 1) (Word.hi 0x4034) with
  | ok _ => exact absurd hhigh hcheck
  | error e =>
    have hrefused := Observed.write16_of_check_error (o := ⟨b, #[]⟩) hhigh
    rw [hrefused] at hword
    exact ⟨e, _, hrefused, hword⟩

end Console

end Handheld
