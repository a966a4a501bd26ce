import Handheld.Board.Time
import Mathlib.Algebra.GroupWithZero.Nat

namespace Handheld

namespace Timer

variable {t : Timer}

/-- The cycles short of a tick have no part in a tick. -/
theorem tick_subTicks (k : Nat) (t : Timer) :
    { t with subTicks := k }.advanceDiv.advanceTima =
      ({ t.advanceDiv.advanceTima.1 with subTicks := k }, t.advanceDiv.advanceTima.2) := by
  have hdiv : { t with subTicks := k }.advanceDiv = { t.advanceDiv with subTicks := k } := by
    unfold advanceDiv
    split <;> rfl
  have henabled (u : Timer) : { u with subTicks := k }.enabled = u.enabled := rfl
  have hperiod (u : Timer) : { u with subTicks := k }.timaPeriod = u.timaPeriod := rfl
  rw [hdiv]
  unfold advanceTima incrementTima
  simp only [henabled, hperiod]
  split
  · rfl
  · split
    · split <;> rfl
    · rfl

theorem ticks_withSubTicks (k n : Nat) (t : Timer) :
    ticks n { t with subTicks := k } = ({ (ticks n t).1 with subTicks := k }, (ticks n t).2) := by
  induction n generalizing t with
  | zero => rfl
  | succ n ih => simp only [ticks, tick_subTicks, ih]

theorem ticks_add (m n : Nat) (t : Timer) :
    ticks (m + n) t =
      ((ticks n (ticks m t).1).1, (ticks m t).2 + (ticks n (ticks m t).1).2) := by
  induction m generalizing t with
  | zero => simp only [ticks, Nat.zero_add]
  | succ m ih => simp only [Nat.succ_add, ticks, ih, Nat.add_assoc]

theorem advance_add (m n : Nat) (t : Timer) :
    t.advance (m + n) =
      (((t.advance m).1.advance n).1, (t.advance m).2 + ((t.advance m).1.advance n).2) := by
  have hticks : (t.subTicks + (m + n)) / 4 =
      (t.subTicks + m) / 4 + ((t.subTicks + m) % 4 + n) / 4 := by omega
  have hrest : (t.subTicks + (m + n)) % 4 = ((t.subTicks + m) % 4 + n) % 4 := by omega
  simp only [advance, cyclesPerTick, ticks_withSubTicks, hticks, hrest, ticks_add]

/-- Lets machine cycles pass for a timer and the register `IF`, in which the timer requests its
    interrupt when the counter overflows. -/
def pass (cycles : Nat) (p : Timer × Interrupts) : Timer × Interrupts :=
  ((p.1.advance cycles).1, { p.2 with timer := p.2.timer || 0 < (p.1.advance cycles).2 })

theorem any_overflow (a b : Nat) : decide (0 < a + b) = (decide (0 < a) || decide (0 < b)) := by
  rw [← Bool.decide_or]
  exact decide_eq_decide.mpr Nat.add_pos_iff_pos_or_pos

theorem pass_add (m n : Nat) (p : Timer × Interrupts) : pass (m + n) p = pass n (pass m p) := by
  unfold pass
  rw [advance_add, any_overflow, Bool.or_assoc]

theorem pass_zero {p : Timer × Interrupts} (h : p.1.subTicks < cyclesPerTick) : pass 0 p = p := by
  unfold cyclesPerTick at h
  simp [pass, advance, cyclesPerTick, Nat.div_eq_of_lt h, Nat.mod_eq_of_lt h, ticks]

theorem subTicks_pass_lt (n : Nat) (p : Timer × Interrupts) :
    (pass n p).1.subTicks < cyclesPerTick := by
  simp only [pass, advance, ticks_withSubTicks]
  exact Nat.mod_lt _ (by decide)

/-- Lets the portions of a list pass one after the other. -/
def passAll (portions : List Nat) (p : Timer × Interrupts) : Timer × Interrupts :=
  portions.foldl (fun p n => pass n p) p

theorem passAll_eq {p : Timer × Interrupts} (h : p.1.subTicks < cyclesPerTick)
    (portions : List Nat) : passAll portions p = pass portions.sum p := by
  induction portions generalizing p with
  | nil => exact (pass_zero h).symm
  | cons n portions ih =>
    rw [passAll, List.foldl_cons, List.sum_cons, pass_add, ← ih (subTicks_pass_lt n p), passAll]

@[simp]
theorem sinceTima_advanceDiv (t : Timer) : t.advanceDiv.sinceTima = t.sinceTima := by
  unfold advanceDiv
  split <;> rfl

@[simp]
theorem tima_advanceDiv (t : Timer) : t.advanceDiv.tima = t.tima := by
  unfold advanceDiv
  split <;> rfl

@[simp]
theorem tma_advanceDiv (t : Timer) : t.advanceDiv.tma = t.tma := by
  unfold advanceDiv
  split <;> rfl

@[simp]
theorem tac_advanceDiv (t : Timer) : t.advanceDiv.tac = t.tac := by
  unfold advanceDiv
  split <;> rfl

/-- The next tick increments the counter. -/
def Due (t : Timer) : Prop :=
  t.enabled = true ∧ t.timaPeriod ≤ t.sinceTima + 1

instance (t : Timer) : Decidable t.Due :=
  inferInstanceAs (Decidable (_ ∧ _))

/-- How many of the next `n` ticks increment the counter. -/
def increments : Nat → Timer → Nat
  | 0, _ => 0
  | n + 1, t => (if t.Due then 1 else 0) + increments n t.advanceDiv.advanceTima.1

/-- The counter of `u` stands at `tima`, with as many ticks since its latest increment, and is
    controlled as that of `t`. -/
structure Follows (t u : Timer) (tima : UInt8) (since : Nat) : Prop where
  tima_eq : u.tima = tima
  sinceTima_eq : u.sinceTima = since
  tma_eq : u.tma = t.tma
  tac_eq : u.tac = t.tac

theorem Follows.enabled {u : Timer} {tima : UInt8} {since : Nat} (h : t.Follows u tima since) :
    u.enabled = t.enabled := by
  unfold Timer.enabled
  rw [h.tac_eq]

theorem Follows.timaPeriod {u : Timer} {tima : UInt8} {since : Nat} (h : t.Follows u tima since) :
    u.timaPeriod = t.timaPeriod := by
  unfold Timer.timaPeriod
  rw [h.tac_eq]

theorem Follows.advanceDiv (t : Timer) : t.Follows t.advanceDiv t.tima t.sinceTima :=
  ⟨tima_advanceDiv t, sinceTima_advanceDiv t, tma_advanceDiv t, tac_advanceDiv t⟩

theorem tick_of_disabled (h : t.enabled = false) :
    t.advanceDiv.advanceTima = (t.advanceDiv, false) := by
  unfold advanceTima
  rw [(Follows.advanceDiv t).enabled, h]
  rfl

theorem tick_of_not_due (henabled : t.enabled = true) (h : ¬ t.Due) :
    t.Follows t.advanceDiv.advanceTima.1 t.tima (t.sinceTima + 1) ∧
      t.advanceDiv.advanceTima.2 = false := by
  have hwaits : ¬ t.timaPeriod ≤ t.sinceTima + 1 := fun hle => h ⟨henabled, hle⟩
  have hdiv := Follows.advanceDiv t
  unfold advanceTima
  rw [hdiv.enabled, henabled, hdiv.timaPeriod, sinceTima_advanceDiv, if_neg (by decide),
    if_neg hwaits]
  exact ⟨{ hdiv with sinceTima_eq := rfl }, rfl⟩

/-- The value after an increment. -/
def nextTima (t : Timer) : UInt8 :=
  if t.tima = 0xFF then t.tma else t.tima + 1

theorem tick_of_due (h : t.Due) :
    t.Follows t.advanceDiv.advanceTima.1 t.nextTima 0 ∧
      t.advanceDiv.advanceTima.2 = decide (t.tima = 0xFF) := by
  have hdiv := Follows.advanceDiv t
  unfold advanceTima
  rw [hdiv.enabled, h.1, hdiv.timaPeriod, sinceTima_advanceDiv, if_neg (by decide), if_pos h.2]
  unfold incrementTima nextTima
  simp only [tima_advanceDiv, tma_advanceDiv]
  split
  · rename_i hfull
    exact ⟨⟨rfl, rfl, rfl, hdiv.tac_eq⟩, (decide_eq_true hfull).symm⟩
  · rename_i hroom
    exact ⟨⟨rfl, rfl, rfl, hdiv.tac_eq⟩, (decide_eq_false hroom).symm⟩

/-- The increments of an enabled counter in `n` ticks, if there have been `since` since the latest
    one. A period that was longer at that time may have been overrun: the next tick ends it. -/
def dueIncrements (period since n : Nat) : Nat :=
  if since < period then (since + n) / period
  else if n = 0 then 0 else 1 + (n - 1) / period

theorem timaPeriod_pos (t : Timer) : 0 < t.timaPeriod := by
  unfold timaPeriod
  split <;> decide

theorem increments_of_lt (henabled : t.enabled = true) (hlt : t.sinceTima < t.timaPeriod)
    (n : Nat) : increments n t = (t.sinceTima + n) / t.timaPeriod := by
  induction n generalizing t with
  | zero => exact (Nat.div_eq_of_lt hlt).symm
  | succ n ih =>
    have hpos := t.timaPeriod_pos
    by_cases hdue : t.Due
    · obtain ⟨hnext, -⟩ := tick_of_due hdue
      have hrest := ih (hnext.enabled.trans henabled) (by
        rw [hnext.sinceTima_eq, hnext.timaPeriod]
        exact hpos)
      have hends : t.sinceTima + (n + 1) = t.timaPeriod + n := by
        have := hdue.2
        omega
      rw [increments, if_pos hdue, hrest, hnext.sinceTima_eq, hnext.timaPeriod, hends,
        Nat.add_div_left n hpos, Nat.zero_add, Nat.add_comm]
    · obtain ⟨hnext, -⟩ := tick_of_not_due henabled hdue
      have hwithin : t.sinceTima + 1 < t.timaPeriod :=
        Nat.lt_of_not_le fun hle => hdue ⟨henabled, hle⟩
      have hrest := ih (hnext.enabled.trans henabled) (by
        rw [hnext.sinceTima_eq, hnext.timaPeriod]
        exact hwithin)
      rw [increments, if_neg hdue, hrest, hnext.sinceTima_eq, hnext.timaPeriod, Nat.zero_add,
        Nat.add_assoc, Nat.add_comm 1 n]

theorem increments_eq (henabled : t.enabled = true) (n : Nat) :
    increments n t = dueIncrements t.timaPeriod t.sinceTima n := by
  unfold dueIncrements
  split
  · rename_i hlt
    exact increments_of_lt henabled hlt n
  · rename_i hover
    cases n with
    | zero => rfl
    | succ n =>
      have hdue : t.Due := ⟨henabled, by omega⟩
      obtain ⟨hnext, -⟩ := tick_of_due hdue
      have hrest := increments_of_lt (hnext.enabled.trans henabled) (by
        rw [hnext.sinceTima_eq, hnext.timaPeriod]
        exact t.timaPeriod_pos) n
      rw [increments, if_pos hdue, hrest, hnext.sinceTima_eq, hnext.timaPeriod, Nat.zero_add]
      rfl

theorem ticks_of_disabled (h : t.enabled = false) (n : Nat) :
    (ticks n t).1.tima = t.tima ∧ (ticks n t).1.sinceTima = t.sinceTima ∧ (ticks n t).2 = 0 := by
  induction n generalizing t with
  | zero => exact ⟨rfl, rfl, rfl⟩
  | succ n ih =>
    have hdiv := Follows.advanceDiv t
    obtain ⟨htima, hsince, hnone⟩ := ih (hdiv.enabled.trans h)
    simp only [ticks, tick_of_disabled h]
    exact ⟨htima.trans hdiv.tima_eq, hsince.trans hdiv.sinceTima_eq, by simpa using hnone⟩

/-- Where a counter stands `k` increments after `tima`, if it starts over from `tma` each time that
    it passes 255. -/
def counted (tima tma : UInt8) (k : Nat) : Nat :=
  if k < 256 - tima.toNat then tima.toNat + k
  else tma.toNat + (k - (256 - tima.toNat)) % (256 - tma.toNat)

theorem toNat_nextTima (t : Timer) :
    t.nextTima.toNat = if t.tima.toNat = 255 then t.tma.toNat else t.tima.toNat + 1 := by
  have hfull : t.tima = 0xFF ↔ t.tima.toNat = 255 := UInt8.toNat_inj.symm
  have hlt := t.tima.toNat_lt
  unfold nextTima
  simp only [hfull]
  split
  · rfl
  · rw [UInt8.toNat_add, UInt8.toNat_one]
    omega

theorem counted_zero (tima tma : UInt8) : counted tima tma 0 = tima.toNat :=
  if_pos (Nat.sub_pos_of_lt tima.toNat_lt)

theorem counted_succ (t : Timer) (k : Nat) :
    counted t.tima t.tma (k + 1) = counted t.nextTima t.tma k := by
  have htima := t.tima.toNat_lt
  have htma := t.tma.toNat_lt
  unfold counted
  rw [toNat_nextTima]
  generalize t.tima.toNat = a at *
  generalize t.tma.toNat = b at *
  by_cases hfull : a = 255
  · subst hfull
    by_cases hk : k < 256 - b
    · simp [hk, Nat.mod_eq_of_lt hk]
    · simp [hk, Nat.mod_eq_sub_mod (Nat.le_of_not_lt hk)]
  · rw [if_neg hfull]
    by_cases hk : k < 256 - (a + 1)
    · rw [if_pos (by omega), if_pos hk]
      omega
    · rw [if_neg (by omega), if_neg hk]
      congr 2
      omega

/-- The counter starts over as soon as it has been incremented past 255. -/
theorem overflow_succ (t : Timer) (k : Nat) :
    256 - t.tima.toNat ≤ k + 1 ↔ t.tima.toNat = 255 ∨ 256 - t.nextTima.toNat ≤ k := by
  rw [toNat_nextTima]
  split <;> omega

theorem ticks_of_enabled (henabled : t.enabled = true) (n : Nat) :
    (ticks n t).1.tima.toNat = counted t.tima t.tma (increments n t) ∧
      (0 < (ticks n t).2 ↔ 256 - t.tima.toNat ≤ increments n t) := by
  induction n generalizing t with
  | zero =>
    have hlt := t.tima.toNat_lt
    refine ⟨(counted_zero _ _).symm, ?_⟩
    simp only [ticks, increments]
    omega
  | succ n ih =>
    by_cases hdue : t.Due
    · obtain ⟨hnext, hoverflows⟩ := tick_of_due hdue
      obtain ⟨htima, hany⟩ := ih (hnext.enabled.trans henabled)
      rw [hnext.tima_eq] at htima hany
      rw [hnext.tma_eq] at htima
      have hfull : t.tima = 0xFF ↔ t.tima.toNat = 255 := UInt8.toNat_inj.symm
      rw [increments, if_pos hdue, Nat.add_comm 1, counted_succ, overflow_succ, ← hfull, ← hany]
      refine ⟨htima, ?_⟩
      simp only [ticks, hoverflows]
      by_cases h : t.tima = 0xFF
      · simp only [h, decide_true, Bool.toNat_true, true_or, iff_true]
        omega
      · simp only [h, decide_false, Bool.toNat_false, Nat.zero_add, false_or]
    · obtain ⟨hnext, hoverflows⟩ := tick_of_not_due henabled hdue
      obtain ⟨htima, hany⟩ := ih (hnext.enabled.trans henabled)
      rw [hnext.tima_eq] at htima hany
      rw [hnext.tma_eq] at htima
      rw [increments, if_neg hdue, Nat.zero_add, ← hany]
      refine ⟨htima, ?_⟩
      simp only [ticks, hoverflows, Bool.toNat_false, Nat.zero_add]

/-- What becomes of a timer and of `IF` in `n` machine cycles. A timer that is off keeps its
    counter. One that is on increments it, and requests its interrupt if that takes it past 255; no
    other request is made or taken back. -/
structure Counts (n : Nat) (p q : Timer × Interrupts) : Prop where
  disabled : p.1.enabled = false →
    q.1.tima = p.1.tima ∧ q.1.sinceTima = p.1.sinceTima ∧ q.2 = p.2
  enabled : p.1.enabled = true → ∀ ticks k, ticks = (p.1.subTicks + n) / 4 →
    k = dueIncrements p.1.timaPeriod p.1.sinceTima ticks →
      increments ticks p.1 = k ∧ q.1.tima.toNat = counted p.1.tima p.1.tma k ∧
      q.2 = { p.2 with timer := p.2.timer || decide (256 - p.1.tima.toNat ≤ k) }

theorem pass_counts (n : Nat) (p : Timer × Interrupts) : Counts n p (pass n p) := by
  obtain ⟨t, i⟩ := p
  refine ⟨fun hoff => ?_, fun hon ticks k hticks hk => ?_⟩
  · obtain ⟨htima, hsince, hnone⟩ := ticks_of_disabled hoff ((t.subTicks + n) / 4)
    simp only [pass, advance, cyclesPerTick, ticks_withSubTicks, hnone]
    exact ⟨htima, hsince, by simp⟩
  · have hincrements := increments_eq hon ticks
    obtain ⟨htima, hany⟩ := ticks_of_enabled hon ticks
    rw [hincrements, ← hk] at htima hany
    refine ⟨hincrements.trans hk.symm, ?_⟩
    simp only [pass, advance, cyclesPerTick, ticks_withSubTicks, ← hticks, ← hany, and_true]
    exact htima

end Timer

namespace Board

/-- Lets the portions of a list pass one after the other. -/
def advanceAll (portions : List Nat) (b : Board) : Board :=
  portions.foldl (fun b n => (b.advance n).1) b

end Board

namespace Timer

theorem passAll_withVblank (portions : List Nat) (t : Timer) (i : Interrupts) (vblank : Bool) :
    passAll portions (t, { i with vblank }) =
      ((passAll portions (t, i)).1, { (passAll portions (t, i)).2 with vblank }) := by
  induction portions generalizing t i with
  | nil => rfl
  | cons n portions ih => exact ih (t.advance n).1 (pass n (t, i)).2

/-- The timer of a board and its requests pass the time as they would on their own, except that the
    display requests an interrupt of its own. -/
theorem advanceAll_timer (portions : List Nat) (b : Board) :
    (b.advanceAll portions).timer = (passAll portions (b.timer, b.requested)).1 ∧
      ∃ vblank, (b.advanceAll portions).requested =
        { (passAll portions (b.timer, b.requested)).2 with vblank } := by
  induction portions generalizing b with
  | nil => exact ⟨rfl, b.requested.vblank, rfl⟩
  | cons n portions ih =>
    obtain ⟨htimer, vblank, hrequested⟩ := ih (b.advance n).1
    have hnext : passAll portions ((b.advance n).1.timer, (b.advance n).1.requested) =
        ((passAll (n :: portions) (b.timer, b.requested)).1,
          { (passAll (n :: portions) (b.timer, b.requested)).2 with
            vblank := (b.advance n).1.requested.vblank }) :=
      passAll_withVblank portions _ (pass n (b.timer, b.requested)).2 _
    rw [hnext] at htimer hrequested
    exact ⟨htimer, vblank, hrequested⟩

/-- However machine cycles are portioned out, what becomes of timer and requests is a matter of
    their sum alone and given by arithmetic; so it is on a board, the display's own request
    apart. -/
theorem portions_count (hsub : t.subTicks < cyclesPerTick) (i : Interrupts) (portions : List Nat) :
    passAll portions (t, i) = pass portions.sum (t, i) ∧
      Counts portions.sum (t, i) (passAll portions (t, i)) ∧
      ∀ b : Board, b.timer = t → b.requested = i →
        (b.advanceAll portions).timer = (passAll portions (t, i)).1 ∧
        ∃ vblank, (b.advanceAll portions).requested =
          { (passAll portions (t, i)).2 with vblank } := by
  have hwhole : passAll portions (t, i) = pass portions.sum (t, i) := passAll_eq hsub portions
  refine ⟨hwhole, ?_, ?_⟩
  · rw [hwhole]
    exact pass_counts portions.sum (t, i)
  · rintro b rfl rfl
    exact advanceAll_timer portions b

/-- A timer with a period of one tick, set while more ticks than that had been counted, which starts
    over from 255. -/
def overrun : Timer :=
  { tima := 0xFE, tma := 0xFF, tac := 0x05, subTicks := 3, sinceTima := 40 }

theorem portions_count_overrun :
    overrun.subTicks < cyclesPerTick ∧
      passAll [1, 6, 0, 5] (overrun, { vblank := true }) = pass 12 (overrun, { vblank := true }) ∧
      increments 3 overrun = 3 ∧
      (passAll [1, 6, 0, 5] (overrun, { vblank := true })).1.tima.toNat = 0xFF ∧
      (passAll [1, 6, 0, 5] (overrun, { vblank := true })).2 =
        { vblank := true, timer := true } := by
  have hsub : overrun.subTicks < cyclesPerTick := by decide
  obtain ⟨hwhole, hcounts, -⟩ := portions_count hsub { vblank := true } [1, 6, 0, 5]
  obtain ⟨hincrements, htima, hrequested⟩ := hcounts.enabled rfl 3 3 rfl (by decide)
  exact ⟨hsub, hwhole, hincrements, htima, hrequested⟩

end Timer

end Handheld
