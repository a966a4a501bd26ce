import Handheld.Cpu.Alu
import Handheld.Interrupts
import Handheld.Proofs.Lcd.Portions
import Handheld.Proofs.Timer.Counter
import Mathlib.Algebra.Group.Int.Defs
import Mathlib.Algebra.Group.Nat.Defs

namespace Handheld

namespace Checked

variable {width x y : Nat}

/-- The sum of two numbers of a width, unless it needs more bits. -/
def sum? (width x y : Nat) : Option Nat :=
  if x + y < 2 ^ width then some (x + y) else none

/-- The product of two numbers of a width, unless it needs more bits. -/
def product? (width x y : Nat) : Option Nat :=
  if x * y < 2 ^ width then some (x * y) else none

/-- The difference of two numbers, unless it is below zero. -/
def difference? (x y : Nat) : Option Nat :=
  if y ≤ x then some (x - y) else none

/-- A number in two's complement of a width, unless it needs more bits. -/
def signed? (width : Nat) (x : Int) : Option Int :=
  if -(2 ^ (width - 1)) ≤ x ∧ x < 2 ^ (width - 1) then some x else none

theorem sum?_of_lt (h : x + y < 2 ^ width) : sum? width x y = some (x + y) :=
  if_pos h

theorem product?_of_lt (h : x * y < 2 ^ width) : product? width x y = some (x * y) :=
  if_pos h

theorem difference?_of_le (h : y ≤ x) : difference? x y = some (x - y) :=
  if_pos h

theorem signed?_of_mem {x : Int} (hlow : -(2 ^ (width - 1)) ≤ x) (hhigh : x < 2 ^ (width - 1)) :
    signed? width x = some x :=
  if_pos ⟨hlow, hhigh⟩

end Checked

open Checked

/-- The register `IF` has no more than its five bits. -/
theorem Interrupts.toByte_lt (s : Interrupts) : s.toByte < 0x20 := by
  rcases s with ⟨_ | _, _ | _, _ | _, _ | _, _ | _⟩ <;> decide

/-- The lower half of the register `F` is zero. -/
theorem Flags.toByte_low (f : Flags) : f.toByte &&& 0x0F = 0 := by
  rcases f with ⟨_ | _, _ | _, _ | _, _ | _⟩ <;> rfl

namespace Timer

/-- The fractions of the next increments are less than the longest periods, and the control register
    has no more than its three bits. -/
structure InRange (t : Timer) : Prop where
  subTicks : t.subTicks < 4
  sinceDiv : t.sinceDiv < 16
  sinceTima : t.sinceTima < 64
  tac : t.tac < 8

/-- The periods of the counter by the low bits of the control register. -/
def timaPeriods : Array Nat :=
  #[64, 1, 4, 16]

/-- One tick of the divider. -/
def advanceDiv? (t : Timer) : Option Timer := do
  let since ← sum? 32 t.sinceDiv 1
  return if since = divPeriod then { t with sinceDiv := 0, div := t.div + 1 }
    else { t with sinceDiv := since }

/-- One tick of the counter, and whether it overflowed. -/
def advanceTima? (t : Timer) : Option (Timer × Bool) :=
  if !t.enabled then some (t, false)
  else do
    let since ← sum? 32 t.sinceTima 1
    let period ← timaPeriods[(t.tac &&& 0x03).toNat]?
    return if period ≤ since then { t with sinceTima := 0 }.incrementTima
      else ({ t with sinceTima := since }, false)

/-- Takes the cycles of a tick off those that have passed, as long as there are so many. -/
def drain? : Nat → Timer → Option (Timer × Nat)
  | passed + 4, t => do
    let t ← t.advanceDiv?
    let (t, overflowed) ← t.advanceTima?
    let (t, overflows) ← drain? passed t
    return (t, overflowed.toNat + overflows)
  | passed, t => some ({ t with subTicks := passed }, 0)

/-- Lets machine cycles pass, which are counted in 32 bits. -/
def advance? (cycles : Nat) (t : Timer) : Option (Timer × Nat) := do
  let passed ← sum? 32 t.subTicks cycles
  drain? passed t

variable {t : Timer}

theorem InRange.powerOn : ({} : Timer).InRange where
  subTicks := by decide
  sinceDiv := by decide
  sinceTima := by decide
  tac := by decide

theorem InRange.setTac (h : t.InRange) (v : UInt8) : (t.setTac v).InRange :=
  { h with
    tac := by
      change v &&& 0x07 < 8
      rw [UInt8.lt_iff_toNat_lt, UInt8.toNat_and]
      exact Nat.lt_of_le_of_lt Nat.and_le_right (by decide) }

theorem timaPeriods_getElem? (t : Timer) :
    timaPeriods[(t.tac &&& 0x03).toNat]? = some t.timaPeriod := by
  have hlt : (t.tac &&& 0x03).toNat < 4 := by
    rw [UInt8.toNat_and]
    exact Nat.lt_of_le_of_lt Nat.and_le_right (by decide)
  unfold timaPeriod
  generalize (t.tac &&& 0x03).toNat = i at hlt
  match i, hlt with
  | 0, _ | 1, _ | 2, _ | 3, _ => rfl

theorem timaPeriod_le (t : Timer) : t.timaPeriod ≤ 64 := by
  unfold timaPeriod
  split <;> decide

theorem InRange.incrementTima (h : t.InRange) : t.incrementTima.1.InRange := by
  unfold Timer.incrementTima
  split <;> exact { h with }

theorem InRange.advanceDiv (h : t.InRange) : t.advanceDiv.InRange := by
  unfold Timer.advanceDiv
  split
  · exact { h with sinceDiv := Nat.zero_lt_succ 15 }
  · rename_i hwithin
    have hsince := h.sinceDiv
    unfold divPeriod at hwithin
    exact { h with sinceDiv := by change t.sinceDiv + 1 < 16; omega }

theorem InRange.advanceTima (h : t.InRange) : t.advanceTima.1.InRange := by
  unfold Timer.advanceTima
  split
  · exact h
  · split
    · exact InRange.incrementTima { h with sinceTima := Nat.zero_lt_succ 63 }
    · rename_i hwithin
      have hperiod := t.timaPeriod_le
      exact { h with sinceTima := by change t.sinceTima + 1 < 64; omega }

theorem InRange.ticks (h : t.InRange) (n : Nat) : (Timer.ticks n t).1.InRange := by
  induction n generalizing t with
  | zero => exact h
  | succ n ih => exact ih h.advanceDiv.advanceTima

/-- However time passes, the timer stays in range. -/
theorem InRange.advance (h : t.InRange) (n : Nat) : (t.advance n).1.InRange := by
  have hrest : InRange { t with subTicks := (t.subTicks + n) % cyclesPerTick } :=
    { h with subTicks := Nat.mod_lt _ (Nat.zero_lt_succ 3) }
  exact hrest.ticks _

theorem InRange.advanceDiv?_eq (h : t.InRange) : t.advanceDiv? = some t.advanceDiv := by
  have hsince := h.sinceDiv
  have hsum : sum? 32 t.sinceDiv 1 = some (t.sinceDiv + 1) := sum?_of_lt (by omega)
  unfold advanceDiv? Timer.advanceDiv
  rw [hsum]
  rfl

theorem InRange.advanceTima?_eq (h : t.InRange) : t.advanceTima? = some t.advanceTima := by
  have hsince := h.sinceTima
  have hsum : sum? 32 t.sinceTima 1 = some (t.sinceTima + 1) := sum?_of_lt (by omega)
  unfold advanceTima? Timer.advanceTima
  rw [hsum, timaPeriods_getElem?]
  cases t.enabled with
  | true => exact congrArg some (apply_ite id _ _ _).symm
  | false => rfl

theorem InRange.drain?_eq (h : t.InRange) (passed : Nat) :
    drain? passed t = some (Timer.ticks (passed / 4) { t with subTicks := passed % 4 }) := by
  induction passed, t using drain?.induct with
  | case1 passed t ih =>
    have hticks : (passed + 4) / 4 = passed / 4 + 1 := Nat.add_div_right passed (by decide)
    have hrest : (passed + 4) % 4 = passed % 4 := Nat.add_mod_right passed 4
    rw [drain?, h.advanceDiv?_eq, hticks, hrest, Timer.ticks, tick_subTicks]
    simp only [Option.bind_eq_bind, Option.bind_some, h.advanceDiv.advanceTima?_eq]
    rw [ih _ h.advanceDiv.advanceTima]
    rfl
  | case2 passed t hshort =>
    have hpassed : passed < 4 := Nat.lt_of_not_le fun hle => hshort (passed - 4) (by omega)
    rw [drain?, Nat.div_eq_of_lt hpassed, Nat.mod_eq_of_lt hpassed]
    · rfl
    · exact hshort

/-- A timer in range counts in 32 bits as it counts without bound. -/
theorem InRange.advance?_eq (h : t.InRange) {n : Nat} (hn : n ≤ 2 ^ 31) :
    t.advance? n = some (t.advance n) := by
  have hsub := h.subTicks
  have hsum : sum? 32 t.subTicks n = some (t.subTicks + n) := sum?_of_lt (by omega)
  unfold advance?
  rw [hsum]
  exact h.drain?_eq _

end Timer

namespace Raster

/-- What follows when the mode has used up its budget. Lines are numbered in eight bits. -/
def next? (r : Raster) : Option (Raster × Option Signal) :=
  match r.mode with
  | .oamScan => some ({ r with mode := .pixelTransfer }, none)
  | .pixelTransfer => some ({ r with mode := .hBlank }, some (.scanline r.line))
  | .hBlank => do
    let line ← sum? 8 r.line 1
    return if line = vblankLine then
        ({ r with mode := .vBlank, line, frames := r.frames + 1 }, some (.frame (r.frames + 1)))
      else ({ r with mode := .oamScan, line }, none)
  | .vBlank =>
    if r.line = lastLine then some ({ r with mode := .oamScan, line := 0 }, none)
    else do
      let line ← sum? 8 r.line 1
      return ({ r with line }, none)

/-- Takes the mode's budget off the clock and moves on. -/
def turn? (r : Raster) : Option (Raster × Option Signal) := do
  let clock ← difference? r.clock r.mode.budget
  next? { r with clock }

variable {r : Raster} {k t : Nat}

theorem next?_eq (h : r.line < 255) : r.next? = some r.next := by
  have hsum : sum? 8 r.line 1 = some (r.line + 1) := sum?_of_lt (by omega)
  unfold next? next
  rw [hsum]
  cases r.mode with
  | oamScan | pixelTransfer => rfl
  | hBlank => rfl
  | vBlank =>
    by_cases hline : r.line = lastLine
    · simp only [if_pos hline]
    · simp only [if_neg hline]
      rfl

theorem next?_clock {p : Raster × Option Signal} (h : r.next? = some p) :
    p.1.clock = r.clock := by
  unfold next? at h
  split at h
  · cases h
    rfl
  · cases h
    rfl
  · obtain ⟨line, -, hp⟩ := Option.bind_eq_some_iff.mp h
    split at hp <;> cases hp <;> rfl
  · split at h
    · cases h
      rfl
    · obtain ⟨line, -, hp⟩ := Option.bind_eq_some_iff.mp h
      cases hp
      rfl

theorem turn?_clock {p : Raster × Option Signal} (h : r.turn? = some p) :
    p.1.clock + r.mode.budget = r.clock := by
  obtain ⟨clock, hclock, hnext⟩ := Option.bind_eq_some_iff.mp h
  unfold difference? at hclock
  split at hclock
  · rename_i hle
    cases hclock
    rw [next?_clock hnext]
    exact Nat.sub_add_cancel hle
  · cases hclock

theorem turn?_eq (hle : r.mode.budget ≤ r.clock) (hline : r.line < 255) :
    r.turn? = some r.spend.next := by
  unfold turn?
  rw [difference?_of_le hle]
  exact next?_eq (r := r.spend) hline

/-- Moves on until the clock is within the mode's budget. -/
def settle? (r : Raster) : Option (Raster × List Signal) :=
  if _ : r.mode.budget ≤ r.clock then
    match _hturn : r.turn? with
    | none => none
    | some turn => do
      let rest ← settle? turn.1
      return (rest.1, turn.2.toList ++ rest.2)
  else some (r, [])
termination_by r.clock
decreasing_by
  have hpos := r.mode.budget_pos
  have hclock := turn?_clock _hturn
  omega

/-- Lets clock cycles pass, which are counted in 32 bits. -/
def advance? (cycles : Nat) (r : Raster) : Option (Raster × List Signal) := do
  let clock ← sum? 32 r.clock cycles
  settle? { r with clock }

theorem Consistent.settle?_eq (h : r.Consistent) : r.settle? = some r.settle := by
  induction r using Raster.settle.induct with
  | case1 r hle turn ih =>
    have hline : r.line < 255 := Nat.lt_of_le_of_lt h.line_le (by decide)
    rw [Raster.settle?, Raster.settle, dif_pos hle, dif_pos hle]
    split
    · rename_i hnone
      rw [turn?_eq hle hline] at hnone
      cases hnone
    · rename_i next hturn
      rw [turn?_eq hle hline] at hturn
      rw [← Option.some.inj hturn, ih (h.withClock _).next]
      rfl
  | case2 r hlt =>
    rw [Raster.settle?, Raster.settle, dif_neg hlt, dif_neg hlt]

/-- A display that fits its line counts in these widths as it counts without bound, as long as there
    is room for the clock. -/
theorem Consistent.advance?_eq (h : r.Consistent) {n : Nat} (hclock : r.clock + n < 2 ^ 32) :
    r.advance? n = some (r.advance n) := by
  unfold advance?
  rw [sum?_of_lt hclock]
  exact (h.withClock _).settle?_eq

/-- So does a display in step. -/
theorem InStep.advance?_eq (h : r.InStep t) {n : Nat} (hn : n ≤ 2 ^ 31) :
    r.advance? n = some (r.advance n) := by
  have hclock := h.clock_lt
  have hend := r.mode.lead_add_budget_le
  exact h.settled.advance?_eq (by omega)

end Raster

namespace Alu

/-- The sum of two bytes and a carry, formed in 16 bits. -/
def add? (a v : UInt8) (carry : Bool) : Option (UInt8 × Flags) := do
  let bytes ← sum? 16 a.toNat v.toNat
  let full ← sum? 16 bytes carry.toNat
  let low ← sum? 16 (a.toNat % 16) (v.toNat % 16)
  let half ← sum? 16 low carry.toNat
  let result := UInt8.ofNat full
  return (result,
    { zero := result == 0
      subtract := false
      halfCarry := decide (16 ≤ half)
      carry := decide (256 ≤ full) })

/-- The difference of two bytes less a borrow, formed in 16 bits and their two's complement. -/
def sub? (a v : UInt8) (borrow : Bool) : Option (UInt8 × Flags) := do
  let bytes ← signed? 16 (a.toNat - v.toNat)
  let full ← signed? 16 (bytes - borrow.toNat)
  let result := UInt8.ofInt full
  return (result,
    { zero := result == 0
      subtract := true
      halfCarry := decide (a.toNat % 16 < v.toNat % 16 + borrow.toNat)
      carry := decide (full < 0) })

/-- The accumulator and the flags after an operation with the operand `v`. Operations on single bits
    need no more than the eight that there are. -/
def operate? (op : AluOp) (a : UInt8) (f : Flags) (v : UInt8) : Option (UInt8 × Flags) :=
  match op with
  | .add => add? a v false
  | .adc => add? a v f.carry
  | .sub => sub? a v false
  | .sbc => sub? a v f.carry
  | .cp => (sub? a v false).map fun r => (a, r.2)
  | .and | .xor | .or => some (apply op a f v)

/-- The sum of two words. The carry from bit 11 is found in 16 bits, that from bit 15 in 32. -/
def addWord? (x y : UInt16) (f : Flags) : Option (UInt16 × Flags) := do
  let low ← sum? 16 (x.toNat % 0x1000) (y.toNat % 0x1000)
  let full ← sum? 32 x.toNat y.toNat
  return (UInt16.ofNat full,
    { f with
      subtract := false
      halfCarry := decide (0x1000 ≤ low)
      carry := decide (0x10000 ≤ full) })

/-- A word displaced by a signed byte. The carries are found in 16 bits. -/
def addOffset? (base : UInt16) (e : UInt8) : Option (UInt16 × Flags) := do
  let low ← sum? 16 (base.toNat % 16) (e.toNat % 16)
  let byte ← sum? 16 (base.toNat % 256) e.toNat
  return (base + Word.signExtend e,
    { halfCarry := decide (16 ≤ low), carry := decide (256 ≤ byte) })

theorem add?_eq (a v : UInt8) (carry : Bool) : add? a v carry = some (add a v carry) := by
  have ha := a.toNat_lt
  have hv := v.toNat_lt
  have hcarry := carry.toNat_le
  have hbytes : sum? 16 a.toNat v.toNat = some (a.toNat + v.toNat) := sum?_of_lt (by omega)
  have hfull : sum? 16 (a.toNat + v.toNat) carry.toNat = some (a.toNat + v.toNat + carry.toNat) :=
    sum?_of_lt (by omega)
  have hlow : sum? 16 (a.toNat % 16) (v.toNat % 16) = some (a.toNat % 16 + v.toNat % 16) :=
    sum?_of_lt (by omega)
  have hhalf : sum? 16 (a.toNat % 16 + v.toNat % 16) carry.toNat =
      some (a.toNat % 16 + v.toNat % 16 + carry.toNat) := sum?_of_lt (by omega)
  have hresult : UInt8.ofNat (a.toNat + v.toNat + carry.toNat) = a + v + carry.toUInt8 := by
    rw [UInt8.ofNat_add, UInt8.ofNat_add, UInt8.ofNat_toNat, UInt8.ofNat_toNat]
    cases carry <;> rfl
  unfold add? add
  simp only [Option.bind_eq_bind, hbytes, hfull, hlow, hhalf, Option.bind_some, hresult]
  rfl

theorem sub?_eq (a v : UInt8) (borrow : Bool) : sub? a v borrow = some (sub a v borrow) := by
  have ha := a.toNat_lt
  have hv := v.toNat_lt
  have hborrow := borrow.toNat_le
  have hbytes : signed? 16 (a.toNat - v.toNat) = some ((a.toNat : Int) - v.toNat) :=
    signed?_of_mem (by omega) (by omega)
  have hfull : signed? 16 (a.toNat - v.toNat - borrow.toNat) =
      some ((a.toNat : Int) - v.toNat - borrow.toNat) := signed?_of_mem (by omega) (by omega)
  have hresult : UInt8.ofInt (a.toNat - v.toNat - borrow.toNat) = a - v - borrow.toUInt8 := by
    have hbit : borrow.toUInt8.toNat = borrow.toNat := by cases borrow <;> rfl
    apply UInt8.toNat.inj
    rw [UInt8.toNat_sub, UInt8.toNat_sub, hbit, UInt8.ofInt, UInt8.toNat_ofNat']
    omega
  have hnegative : (a.toNat : Int) - v.toNat - borrow.toNat < 0 ↔
      a.toNat < v.toNat + borrow.toNat := by omega
  unfold sub? sub
  simp only [Option.bind_eq_bind, hbytes, hfull, Option.bind_some, hresult, hnegative]
  rfl

/-- No operation of the accumulator needs more bits than there are. -/
theorem operate?_eq (op : AluOp) (a : UInt8) (f : Flags) (v : UInt8) :
    operate? op a f v = some (apply op a f v) := by
  cases op with
  | add | adc => exact add?_eq a v _
  | sub | sbc => exact sub?_eq a v _
  | cp => exact congrArg (Option.map _) (sub?_eq a v false)
  | and | xor | or => rfl

theorem addWord?_eq (x y : UInt16) (f : Flags) : addWord? x y f = some (addWord x y f) := by
  have hx := x.toNat_lt
  have hy := y.toNat_lt
  have hlow : sum? 16 (x.toNat % 0x1000) (y.toNat % 0x1000) =
      some (x.toNat % 0x1000 + y.toNat % 0x1000) := sum?_of_lt (by omega)
  have hfull : sum? 32 x.toNat y.toNat = some (x.toNat + y.toNat) := sum?_of_lt (by omega)
  have hresult : UInt16.ofNat (x.toNat + y.toNat) = x + y := by
    rw [UInt16.ofNat_add, UInt16.ofNat_toNat, UInt16.ofNat_toNat]
  unfold addWord? addWord
  simp only [Option.bind_eq_bind, hlow, hfull, Option.bind_some, hresult]
  rfl

theorem addOffset?_eq (base : UInt16) (e : UInt8) :
    addOffset? base e = some (addOffset base e) := by
  have he := e.toNat_lt
  have hlow : sum? 16 (base.toNat % 16) (e.toNat % 16) = some (base.toNat % 16 + e.toNat % 16) :=
    sum?_of_lt (by omega)
  have hbyte : sum? 16 (base.toNat % 256) e.toNat = some (base.toNat % 256 + e.toNat) :=
    sum?_of_lt (by omega)
  unfold addOffset? addOffset
  simp only [Option.bind_eq_bind, hlow, hbyte, Option.bind_some]
  rfl

end Alu

end Handheld
