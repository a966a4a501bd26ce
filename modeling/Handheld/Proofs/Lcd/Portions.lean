import Handheld.Proofs.Lcd.Raster

namespace Handheld

/-- No mode is shorter than the first one of a line. -/
theorem Lcd.Mode.le_budget (m : Mode) : 80 ≤ m.budget := by
  cases m <;> decide

namespace Raster

variable {r q : Raster} {signals : List Signal} {k n : Nat}

/-- What follows a mode does not depend on the clock. -/
theorem next_withClock (clock : Nat) (r : Raster) :
    { r with clock }.next = ({ r.next.1 with clock }, r.next.2) := by
  cases hmode : r.mode <;> simp only [next, hmode]
  case hBlank => split <;> rfl
  case vBlank => split <;> rfl

/-- Cycles that are added before a mode ends are still there afterwards. -/
theorem turn_withClock (h : r.mode.budget ≤ r.clock) (n : Nat) :
    { r with clock := r.clock + n }.spend.next =
      ({ r.spend.next.1 with clock := r.spend.next.1.clock + n }, r.spend.next.2) := by
  have hclock : r.clock + n - r.mode.budget = r.clock - r.mode.budget + n :=
    Nat.sub_add_comm h
  rw [next_clock]
  simp only [spend, hclock, next_withClock]

/-- Moving on can wait for cycles that are still to come. -/
theorem settle_withClock (n : Nat) (r : Raster) :
    { r with clock := r.clock + n }.settle =
      ((r.settle.1.advance n).1, r.settle.2 ++ (r.settle.1.advance n).2) := by
  induction r using Raster.settle.induct with
  | case1 r hle turn ih =>
    have hmore : r.mode.budget ≤ r.clock + n := Nat.le_add_right_of_le hle
    rw [settle, dif_pos hmore, turn_withClock hle, settle.eq_def r, dif_pos hle]
    simp only [turn] at ih
    simp only [ih, List.append_assoc]
  | case2 r hlt =>
    rw [settle.eq_def r, dif_neg hlt]
    rfl

/-- Two portions of time come to the same as their sum. -/
theorem advance_add (m n : Nat) (r : Raster) :
    r.advance (m + n) =
      (((r.advance m).1.advance n).1, (r.advance m).2 ++ ((r.advance m).1.advance n).2) := by
  have hsum := settle_withClock n { r with clock := r.clock + m }
  rw [Nat.add_assoc] at hsum
  exact hsum

/-- From `r` the loop takes `k` turns, each at the end of a mode, and stops in `q` where a mode
    lasts. The signals are those of the turns. -/
inductive Turns : Nat → Raster → Raster → List Signal → Prop
  | stop {r : Raster} : r.clock < r.mode.budget → Turns 0 r r []
  | turn {k : Nat} {r q : Raster} {signals : List Signal} :
    r.mode.budget ≤ r.clock → Turns k r.spend.next.1 q signals →
      Turns (k + 1) r q (r.spend.next.2.toList ++ signals)

/-- The loop stops, since a turn takes at least 80 clock cycles off the clock. -/
theorem settle_turns (r : Raster) : ∃ k ≤ r.clock / 80, Turns k r r.settle.1 r.settle.2 := by
  induction r using Raster.settle.induct with
  | case1 r hle turn ih =>
    obtain ⟨k, hk, hturns⟩ := ih
    have hbudget := r.mode.le_budget
    have hclock : r.spend.next.1.clock = r.clock - r.mode.budget := next_clock r.spend
    refine ⟨k + 1, ?_, ?_⟩
    · change k ≤ r.spend.next.1.clock / 80 at hk
      omega
    · rw [settle, dif_pos hle]
      exact .turn hle hturns
  | case2 r hlt =>
    rw [settle, dif_neg hlt]
    exact ⟨0, Nat.zero_le _, .stop (Nat.lt_of_not_le hlt)⟩

theorem Turns.clock_lt (h : Turns k r q signals) : q.clock < q.mode.budget := by
  induction h with
  | stop hlt => exact hlt
  | turn _ _ ih => exact ih

/-- The mode fits the line: v-blank has the lines from 144 to 153, all other modes the lines before
    these. -/
structure Consistent (r : Raster) : Prop where
  vblank : r.mode = .vBlank → vblankLine ≤ r.line ∧ r.line ≤ lastLine
  visible : r.mode ≠ .vBlank → r.line < vblankLine

/-- The mode fits the line and has not ended. -/
structure Settled (r : Raster) : Prop extends Consistent r where
  clock_lt : r.clock < r.mode.budget

theorem Consistent.line_le (h : r.Consistent) : r.line ≤ lastLine := by
  by_cases hmode : r.mode = .vBlank
  · exact (h.vblank hmode).2
  · exact Nat.le_of_lt (Nat.lt_of_lt_of_le (h.visible hmode) (by decide))

theorem Consistent.withClock (h : r.Consistent) (clock : Nat) : { r with clock }.Consistent :=
  ⟨h.vblank, h.visible⟩

theorem Consistent.of_visible (hmode : r.mode ≠ .vBlank) (hline : r.line < vblankLine) :
    r.Consistent :=
  ⟨(absurd · hmode), fun _ => hline⟩

theorem Consistent.of_vBlank (hmode : r.mode = .vBlank) (hfirst : vblankLine ≤ r.line)
    (hlast : r.line ≤ lastLine) : r.Consistent :=
  ⟨fun _ => ⟨hfirst, hlast⟩, (absurd hmode ·)⟩

/-- The mode that follows fits its line. -/
theorem Consistent.next (h : r.Consistent) : r.next.1.Consistent := by
  cases hmode : r.mode <;> simp only [Raster.next, hmode]
  case oamScan | pixelTransfer =>
    exact .of_visible Lcd.Mode.noConfusion (h.visible (hmode ▸ Lcd.Mode.noConfusion))
  case hBlank =>
    have hline := h.visible (hmode ▸ Lcd.Mode.noConfusion)
    split
    · rename_i hvblank
      have hlines : vblankLine ≤ lastLine := by decide
      exact .of_vBlank rfl (Nat.le_of_eq hvblank.symm) (hvblank ▸ hlines)
    · rename_i hvisible
      exact .of_visible Lcd.Mode.noConfusion (Nat.lt_of_le_of_ne hline hvisible)
  case vBlank =>
    obtain ⟨hfirst, hlast⟩ := h.vblank hmode
    split
    · exact .of_visible Lcd.Mode.noConfusion (Nat.zero_lt_succ 143)
    · rename_i hmore
      exact .of_vBlank rfl (Nat.le_succ_of_le hfirst) (Nat.lt_of_le_of_ne hlast hmore)

theorem Turns.consistent (h : Turns k r q signals) (hr : r.Consistent) : q.Consistent := by
  induction h with
  | stop => exact hr
  | turn _ _ ih => exact ih (hr.withClock _).next

/-- As time passes the display is left in a mode that fits the line and has not ended. -/
theorem Settled.advance (h : r.Settled) (n : Nat) : (r.advance n).1.Settled := by
  obtain ⟨k, -, hturns⟩ := settle_turns { r with clock := r.clock + n }
  exact ⟨hturns.consistent (h.withClock _), hturns.clock_lt⟩

/-- The display stands there whenever it is in step. -/
theorem InStep.settled {t : Nat} (h : r.InStep t) : r.Settled :=
  ⟨⟨h.vblank_iff.mp, h.line_lt⟩, h.clock_lt⟩

end Raster

end Handheld
