import Handheld.Proofs.Lcd.Schedule

namespace Handheld

/-- Clock cycles of a line that pass before the mode begins. -/
def Lcd.Mode.lead : Lcd.Mode → Nat
  | .oamScan | .vBlank => 0
  | .pixelTransfer => 80
  | .hBlank => 252

/-- Every mode ends within the line. -/
theorem Lcd.Mode.lead_add_budget_le (m : Mode) : m.lead + m.budget ≤ 456 := by
  cases m <;> decide

namespace Raster

/-- The display stands where it has to after `t` clock cycles: in v-blank exactly on the lines from
    144 to 153, at the place in the frame that the time says, with a frame counted for each v-blank
    that has begun. -/
structure InStep (r : Raster) (t : Nat) : Prop where
  clock_lt : r.clock < r.mode.budget
  vblank_iff : r.mode = .vBlank ↔ vblankLine ≤ r.line ∧ r.line ≤ lastLine
  line_lt : r.mode ≠ .vBlank → r.line < vblankLine
  place : 456 * r.line + r.mode.lead + r.clock = t % cyclesPerFrame
  frames : r.frames = (t + 4560) / cyclesPerFrame

/-- The display has begun its mode at the right place of frame `k`, and with the cycles on its
    clock, which may be more than the mode lasts, it is clock cycle `t`. -/
structure Follows (r : Raster) (k t : Nat) : Prop where
  vblank : r.mode = .vBlank → vblankLine ≤ r.line ∧ r.line ≤ lastLine
  visible : r.mode ≠ .vBlank → r.line < vblankLine
  time : cyclesPerFrame * k + 456 * r.line + r.mode.lead + r.clock = t
  frames : r.frames = if r.mode = .vBlank then k + 1 else k

variable {r : Raster} {k t : Nat}

theorem powerOn_inStep : InStep {} 0 where
  clock_lt := by decide
  vblank_iff := by decide
  line_lt := by decide
  place := by decide
  frames := by decide

theorem Follows.line_le (h : r.Follows k t) : r.line ≤ lastLine := by
  by_cases hmode : r.mode = .vBlank
  · exact (h.vblank hmode).2
  · have hline := h.visible hmode
    simp only [vblankLine, lastLine] at *
    omega

theorem Follows.inStep (h : r.Follows k t) (hclock : r.clock < r.mode.budget) : r.InStep t := by
  have hline := h.line_le
  have hend := r.mode.lead_add_budget_le
  have htime := h.time
  have hframes := h.frames
  simp only [lastLine, cyclesPerFrame_eq] at hline htime
  refine ⟨hclock, ⟨h.vblank, fun hlines => ?_⟩, h.visible, ?_, ?_⟩
  · by_cases hmode : r.mode = .vBlank
    · exact hmode
    · have hvisible := h.visible hmode
      omega
  · rw [cyclesPerFrame_eq]
    omega
  · rw [cyclesPerFrame_eq, hframes]
    split
    · rename_i hmode
      have hvblank := (h.vblank hmode).1
      simp only [vblankLine] at hvblank
      omega
    · rename_i hmode
      have hvisible := h.visible hmode
      simp only [vblankLine] at hvisible
      omega

theorem InStep.follows (h : r.InStep t) (n : Nat) :
    { r with clock := r.clock + n }.Follows (t / cyclesPerFrame) (t + n) := by
  have hplace := h.place
  have hframes := h.frames
  have hclock := h.clock_lt
  have hend := r.mode.lead_add_budget_le
  simp only [cyclesPerFrame_eq] at hplace hframes
  refine ⟨h.vblank_iff.mp, h.line_lt, ?_, ?_⟩
  · simp only [cyclesPerFrame_eq]
    omega
  · simp only [cyclesPerFrame_eq]
    split
    · rename_i hmode
      have hvblank := h.vblank_iff.mp hmode
      simp only [vblankLine, lastLine] at hvblank
      omega
    · rename_i hmode
      have hvisible := h.line_lt hmode
      simp only [vblankLine] at hvisible
      omega

theorem turn_of_oamScan (h : r.mode = .oamScan) :
    r.spend.next = ({ r with mode := .pixelTransfer, clock := r.clock - 80 }, none) := by
  simp [spend, Raster.next, h, Lcd.Mode.budget]

theorem turn_of_pixelTransfer (h : r.mode = .pixelTransfer) :
    r.spend.next =
      ({ r with mode := .hBlank, clock := r.clock - 172 }, some (.scanline r.line)) := by
  simp [spend, Raster.next, h, Lcd.Mode.budget]

theorem turn_of_hBlank (h : r.mode = .hBlank) (hline : r.line + 1 ≠ vblankLine) :
    r.spend.next =
      ({ r with mode := .oamScan, clock := r.clock - 204, line := r.line + 1 }, none) := by
  simp [spend, Raster.next, h, hline, Lcd.Mode.budget]

theorem turn_of_last_hBlank (h : r.mode = .hBlank) (hline : r.line + 1 = vblankLine) :
    r.spend.next =
      ({ mode := .vBlank, clock := r.clock - 204, line := vblankLine, frames := r.frames + 1 },
        some (.frame (r.frames + 1))) := by
  simp [spend, Raster.next, h, hline, Lcd.Mode.budget]

theorem turn_of_vBlank (h : r.mode = .vBlank) (hline : r.line ≠ lastLine) :
    r.spend.next = ({ r with clock := r.clock - 456, line := r.line + 1 }, none) := by
  simp [spend, Raster.next, h, hline, Lcd.Mode.budget]

theorem turn_of_last_vBlank (h : r.mode = .vBlank) (hline : r.line = lastLine) :
    r.spend.next = ({ r with mode := .oamScan, clock := r.clock - 456, line := 0 }, none) := by
  simp [spend, Raster.next, h, hline, Lcd.Mode.budget]

/-- The end of a mode leads on to the next one, and the end of v-blank to the next frame. -/
theorem Follows.next (h : r.Follows k t) (hclock : r.mode.budget ≤ r.clock) :
    ∃ k, r.spend.next.1.Follows k t := by
  obtain ⟨hvblank, hvisible, htime, hframes⟩ := h
  cases hmode : r.mode <;> rw [hmode] at hvblank hvisible htime hframes hclock
  case oamScan =>
    rw [turn_of_oamScan hmode]
    refine ⟨k, nofun, fun _ => hvisible nofun, ?_, hframes⟩
    simp only [Lcd.Mode.lead, Lcd.Mode.budget, cyclesPerFrame_eq] at htime hclock ⊢
    omega
  case pixelTransfer =>
    rw [turn_of_pixelTransfer hmode]
    refine ⟨k, nofun, fun _ => hvisible nofun, ?_, hframes⟩
    simp only [Lcd.Mode.lead, Lcd.Mode.budget, cyclesPerFrame_eq] at htime hclock ⊢
    omega
  case hBlank =>
    have hline := hvisible nofun
    by_cases hlast : r.line + 1 = vblankLine
    · rw [turn_of_last_hBlank hmode hlast]
      have hlines : vblankLine ≤ lastLine := by decide
      refine ⟨k, fun _ => ⟨Nat.le_refl _, hlines⟩, (absurd rfl ·), ?_, congrArg (· + 1) hframes⟩
      simp only [Lcd.Mode.lead, Lcd.Mode.budget, cyclesPerFrame_eq] at htime hclock ⊢
      omega
    · rw [turn_of_hBlank hmode hlast]
      refine ⟨k, nofun, fun _ => by simp only; omega, ?_, hframes⟩
      simp only [Lcd.Mode.lead, Lcd.Mode.budget, cyclesPerFrame_eq] at htime hclock ⊢
      subst htime
      omega
  case vBlank =>
    have hlines := hvblank rfl
    by_cases hlast : r.line = lastLine
    · rw [turn_of_last_vBlank hmode hlast]
      have hfirst : 0 < vblankLine := by decide
      refine ⟨k + 1, nofun, fun _ => hfirst, ?_, hframes⟩
      simp only [Lcd.Mode.lead, Lcd.Mode.budget, hlast, lastLine, cyclesPerFrame_eq]
        at htime hclock ⊢
      omega
    · rw [turn_of_vBlank hmode hlast]
      refine ⟨k, fun _ => by simp only; omega, (absurd hmode ·), ?_, ?_⟩
      · simp only [Lcd.Mode.lead, Lcd.Mode.budget, hmode, cyclesPerFrame_eq] at htime hclock ⊢
        omega
      · simpa only [hmode] using hframes

/-- Nothing is due while a mode lasts. -/
theorem Follows.due_within (h : r.Follows k t) {x : Nat} (hpos : 0 < x)
    (hlt : x < r.mode.budget) : due (t - r.clock + x) = none := by
  have htime := h.time
  have hend := r.mode.lead_add_budget_le
  have hline := h.line_le
  have hplace : t - r.clock + x =
      cyclesPerFrame * k + (456 * r.line + (r.mode.lead + x)) := by omega
  rw [hplace, due_add k (by simp only [cyclesPerFrame_eq, lastLine] at *; omega)]
  refine dueInFrame_eq_none (by omega) (by omega) fun hvisible => ?_
  -- The line is due as pixel transfer ends, and v-blank has no lines that are due.
  cases hmode : r.mode with
  | vBlank =>
    have hlines := h.vblank hmode
    omega
  | oamScan | pixelTransfer | hBlank =>
    simp only [hmode, Lcd.Mode.lead, Lcd.Mode.budget] at hlt ⊢
    omega

/-- What the display has finished, as the schedule lists it. -/
def Signal.finish : Signal → Finish
  | .scanline line => .ofLine line
  | .frame _ => .ofFrame

/-- What is due at the end of a mode is what the display finishes then. -/
theorem Follows.due_end (h : r.Follows k t) :
    due (t - r.clock + r.mode.budget) = r.spend.next.2.map Signal.finish := by
  have htime := h.time
  have hplace : t - r.clock + r.mode.budget =
      cyclesPerFrame * k + (456 * r.line + (r.mode.lead + r.mode.budget)) := by omega
  rw [hplace]
  have hdue (hcycle : 456 * r.line + (r.mode.lead + r.mode.budget) < cyclesPerFrame) :=
    due_add k hcycle
  have hvisible := h.visible
  have hvblank := h.vblank
  cases hmode : r.mode <;>
    simp only [hmode, Lcd.Mode.lead, Lcd.Mode.budget, reduceCtorEq, ne_eq, not_false_eq_true,
      true_implies, vblankLine, lastLine, cyclesPerFrame_eq] at hdue hvisible hvblank ⊢
  case oamScan =>
    rw [hdue (by omega), turn_of_oamScan hmode]
    exact dueInFrame_eq_none (by decide) (by decide) fun _ => by decide
  case pixelTransfer =>
    rw [hdue (by omega), turn_of_pixelTransfer hmode]
    exact dueInFrame_line hvisible
  case hBlank =>
    rw [hdue (by omega)]
    by_cases hlast : r.line + 1 = vblankLine
    · rw [turn_of_last_hBlank hmode hlast]
      exact (congrArg (dueInFrame <| 456 * ·) hlast).trans dueInFrame_frame
    · rw [turn_of_hBlank hmode hlast]
      exact dueInFrame_start (r.line + 1) hlast
  case vBlank =>
    by_cases hlast : r.line = lastLine
    · have hnext : 70224 * k + (456 * r.line + (0 + 456)) = cyclesPerFrame * (k + 1) := by
        rw [hlast, cyclesPerFrame_eq, lastLine]
        omega
      rw [hnext, turn_of_last_vBlank hmode hlast]
      exact (due_add (k + 1) (p := 0) (by decide)).trans (dueInFrame_start 0 (by decide))
    · have hline : r.line < 153 := Nat.lt_of_le_of_ne hvblank.2 hlast
      have hne : r.line + 1 ≠ vblankLine := by
        rw [vblankLine]
        omega
      rw [hdue (by omega), turn_of_vBlank hmode hlast]
      exact dueInFrame_start (r.line + 1) hne

/-- While a mode lasts and as it ends, just what it ends with is due. -/
theorem Follows.dueAfter_budget (h : r.Follows k t) :
    dueAfter (t - r.clock) r.mode.budget = (r.spend.next.2.map Signal.finish).toList := by
  obtain ⟨b, hb⟩ := Nat.exists_eq_add_of_le' r.mode.budget_pos
  have hend := h.due_end
  have hwithin : dueAfter (t - r.clock) b = [] :=
    dueAfter_eq_nil fun x hpos hle => h.due_within hpos (by omega)
  rw [hb] at hend ⊢
  rw [dueAfter_succ, hwithin, Nat.add_assoc, hend, List.nil_append]

/-- Moving on to the present, the display finishes what has been due since its mode began. -/
theorem Follows.settle (h : r.Follows k t) :
    r.settle.1.InStep t ∧ r.settle.2.map Signal.finish = dueAfter (t - r.clock) r.clock := by
  induction r using Raster.settle.induct generalizing k with
  | case1 r hle turn =>
    rename_i ih
    obtain ⟨k', hnext⟩ := h.next hle
    obtain ⟨hinStep, hrest⟩ := ih hnext
    have htime := h.time
    have hclock : r.spend.next.1.clock = r.clock - r.mode.budget := next_clock r.spend
    have hbegan : t - (r.clock - r.mode.budget) = t - r.clock + r.mode.budget := by omega
    rw [Raster.settle, dif_pos hle]
    refine ⟨hinStep, ?_⟩
    calc (r.spend.next.2.toList ++ r.spend.next.1.settle.2).map Signal.finish
        = (r.spend.next.2.map Signal.finish).toList ++
            r.spend.next.1.settle.2.map Signal.finish := by
          cases r.spend.next.2 <;> rfl
      _ = dueAfter (t - r.clock) r.mode.budget ++
            dueAfter (t - r.clock + r.mode.budget) (r.clock - r.mode.budget) := by
          rw [hrest, hclock, hbegan, h.dueAfter_budget]
      _ = dueAfter (t - r.clock) r.clock := by
          rw [← dueAfter_add, Nat.add_sub_cancel' hle]
  | case2 r hlt =>
    rw [Raster.settle, dif_neg hlt]
    have hclock : r.clock < r.mode.budget := Nat.lt_of_not_le hlt
    refine ⟨h.inStep hclock, (dueAfter_eq_nil fun x hpos hle => ?_).symm⟩
    exact h.due_within hpos (Nat.lt_of_le_of_lt hle hclock)

/-- As clock cycles pass the display stays in step and finishes what is due meanwhile, in order. -/
theorem InStep.advance (h : r.InStep t) (n : Nat) :
    (r.advance n).1.InStep (t + n) ∧ (r.advance n).2.map Signal.finish = dueAfter t n := by
  obtain ⟨hinStep, hfinished⟩ := (h.follows n).settle
  refine ⟨hinStep, ?_⟩
  -- What the mode has seen before was not due any more.
  have hnow : r.Follows (t / cyclesPerFrame) t := h.follows 0
  have htime := hnow.time
  have hbefore : dueAfter (t - r.clock) r.clock = [] :=
    dueAfter_eq_nil fun x hpos hle => hnow.due_within hpos (Nat.lt_of_le_of_lt hle h.clock_lt)
  have hbegan : t + n - (r.clock + n) = t - r.clock := by omega
  have hcancel : t - r.clock + r.clock = t := Nat.sub_add_cancel (by omega)
  rw [hbegan, dueAfter_add, hbefore, hcancel] at hfinished
  exact hfinished

end Raster

end Handheld
