import Handheld.Board.Time
import Handheld.Proofs.Board.WellFormed

namespace Handheld

namespace Timer

def divAddr : UInt16 := 0xFF04

/-- The divider `m` ticks after power-on, cleared last when `v` of its periods were over. -/
structure AtTick (t : Timer) (v m : Nat) : Prop where
  sinceDiv : t.sinceDiv = m % 16
  cleared_le : v ≤ m / 16
  div : t.div.toNat = (m / 16 - v) % 256

/-- The divider `k` machine cycles after power-on, cleared last after `w` of them. -/
structure InPhase (t : Timer) (w k : Nat) : Prop where
  subTicks : t.subTicks = k % 4
  cleared_le : w ≤ k
  atTick : t.AtTick (w / 64) (k / 4)

/-- The two timers differ at most in the counter. -/
structure SameDivider (t u : Timer) : Prop where
  subTicks : u.subTicks = t.subTicks
  sinceDiv : u.sinceDiv = t.sinceDiv
  div : u.div = t.div

variable {t u : Timer} {v w m k : Nat}

theorem SameDivider.refl (t : Timer) : SameDivider t t :=
  ⟨rfl, rfl, rfl⟩

theorem AtTick.congr (h : t.AtTick v m) (hsince : u.sinceDiv = t.sinceDiv) (hdiv : u.div = t.div) :
    u.AtTick v m := by
  refine ⟨?_, h.cleared_le, ?_⟩
  · rw [hsince, h.sinceDiv]
  · rw [hdiv, h.div]

theorem InPhase.congr (h : t.InPhase w k) (hsame : SameDivider t u) : u.InPhase w k := by
  refine ⟨?_, h.cleared_le, h.atTick.congr hsame.sinceDiv hsame.div⟩
  rw [hsame.subTicks, h.subTicks]

theorem incrementTima_sameDivider (t : Timer) : SameDivider t t.incrementTima.1 := by
  unfold incrementTima
  split <;> exact ⟨rfl, rfl, rfl⟩

theorem advanceTima_sameDivider (t : Timer) : SameDivider t t.advanceTima.1 := by
  unfold advanceTima
  split
  · exact .refl t
  · split
    · obtain ⟨hsub, hsince, hdiv⟩ := incrementTima_sameDivider { t with sinceTima := 0 }
      exact ⟨hsub, hsince, hdiv⟩
    · exact ⟨rfl, rfl, rfl⟩

theorem AtTick.advanceDiv (h : t.AtTick v m) : t.advanceDiv.AtTick v (m + 1) := by
  obtain ⟨hsince, hle, hdiv⟩ := h
  by_cases hperiod : t.sinceDiv + 1 = divPeriod
  · have hover : (m + 1) % 16 = 0 ∧ (m + 1) / 16 = m / 16 + 1 := by
      unfold divPeriod at hperiod
      omega
    rw [Timer.advanceDiv, if_pos hperiod]
    refine ⟨hover.1.symm, by omega, ?_⟩
    have hnext : (t.div + 1).toNat = (t.div.toNat + 1) % 256 := UInt8.toNat_add t.div 1
    rw [hnext, hdiv, hover.2]
    omega
  · have hwithin : (m + 1) % 16 = m % 16 + 1 ∧ (m + 1) / 16 = m / 16 := by
      unfold divPeriod at hperiod
      omega
    rw [Timer.advanceDiv, if_neg hperiod]
    refine ⟨?_, ?_, ?_⟩
    · rw [hwithin.1, hsince]
    · rw [hwithin.2]
      exact hle
    · rw [hwithin.2]
      exact hdiv

theorem AtTick.ticks (h : t.AtTick v m) (n : Nat) : (Timer.ticks n t).1.AtTick v (m + n) := by
  induction n generalizing t m with
  | zero => exact h
  | succ n ih =>
    have hsame := advanceTima_sameDivider t.advanceDiv
    have hrest := ih (h.advanceDiv.congr hsame.sinceDiv hsame.div)
    rwa [Nat.add_assoc, Nat.add_comm 1 n] at hrest

theorem ticks_subTicks (n : Nat) (t : Timer) : (ticks n t).1.subTicks = t.subTicks := by
  induction n generalizing t with
  | zero => rfl
  | succ n ih =>
    have hdiv : t.advanceDiv.subTicks = t.subTicks := by
      unfold advanceDiv
      split <;> rfl
    calc (ticks (n + 1) t).1.subTicks
        = t.advanceDiv.advanceTima.1.subTicks := ih t.advanceDiv.advanceTima.1
      _ = t.advanceDiv.subTicks := (advanceTima_sameDivider t.advanceDiv).subTicks
      _ = t.subTicks := hdiv

theorem InPhase.powerOn : ({} : Timer).InPhase 0 0 :=
  ⟨rfl, Nat.le_refl 0, rfl, Nat.le_refl 0, rfl⟩

/-- However the cycles arrive, the divider stays in phase. -/
theorem InPhase.advance (h : t.InPhase w k) (n : Nat) : (t.advance n).1.InPhase w (k + n) := by
  obtain ⟨hsub, hle, hticks⟩ := h
  have hrest : (t.subTicks + n) % 4 = (k + n) % 4 := by omega
  have htotal : k / 4 + (t.subTicks + n) / 4 = (k + n) / 4 := by omega
  have hfolded : Timer.AtTick { t with subTicks := (t.subTicks + n) % 4 } (w / 64) (k / 4) :=
    hticks.congr rfl rfl
  refine ⟨?_, by omega, ?_⟩
  · rw [← hrest]
    exact ticks_subTicks _ _
  · rw [← htotal]
    exact hfolded.ticks _

theorem InPhase.clearDiv (h : t.InPhase w k) : t.clearDiv.InPhase k k := by
  have hperiods : k / 4 / 16 = k / 64 := Nat.div_div_eq_div_mul k 4 16
  refine ⟨h.subTicks, Nat.le_refl k, h.atTick.sinceDiv, ?_, ?_⟩
  · exact Nat.le_of_eq hperiods.symm
  · rw [hperiods, Nat.sub_self]
    rfl

/-- The fractions of the next period are the clock's. -/
theorem InPhase.fractions (h : t.InPhase w k) :
    t.subTicks < 4 ∧ t.sinceDiv < 16 ∧ t.subTicks + 4 * t.sinceDiv = k % 64 := by
  have hsub := h.subTicks
  have hsince := h.atTick.sinceDiv
  omega

theorem InPhase.toNat_div (h : t.InPhase w k) : t.div.toNat = (k / 64 - w / 64) % 256 := by
  rw [h.atTick.div, Nat.div_div_eq_div_mul]

end Timer

theorem IoRegister.of_eq_div_iff {addr : UInt16} :
    IoRegister.of addr = .div ↔ addr = Timer.divAddr :=
  of_eq_iff (y := Timer.divAddr) (by decide)

namespace Board

variable {b t : Board} {addr : UInt16} {v : UInt8}

/-- A write elsewhere leaves the divider alone. -/
theorem Change.sameDivider (h : Change addr v b t) (haddr : addr ≠ Timer.divAddr) :
    Timer.SameDivider b.timer t.timer := by
  cases h with
  | register =>
    have hreg := mt IoRegister.of_eq_div_iff.mp haddr
    cases hof : IoRegister.of addr with
    | div => exact absurd hof hreg
    | _ => exact ⟨rfl, rfl, rfl⟩
  | _ => exact .refl b.timer

theorem write8_divAddr (v : UInt8) (b : Board) :
    write8 Timer.divAddr v b = .ok () { b with timer := b.timer.clearDiv } :=
  rfl

theorem read8_divAddr (b : Board) : b.read8 Timer.divAddr = .ok b.timer.div :=
  rfl

end Board

end Handheld
