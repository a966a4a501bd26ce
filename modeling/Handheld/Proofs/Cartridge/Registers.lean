import Handheld.Cartridge.Mapper
import Handheld.Proofs.History
import Mathlib.Algebra.Group.Nat.Defs

namespace Handheld.Mbc1

/-- A byte written to the program area. -/
structure Write where
  addr : UInt16
  value : UInt8
  deriving DecidableEq, Repr, Inhabited

def write (m : Mbc1) (w : Write) : Mbc1 :=
  m.obey (.ofWrite w.addr w.value)

/-- External memory is open if the latest write to its gate opened it. -/
def gateAfter : List Write → Bool :=
  History.latest
    (fun _ w => if w.addr < 0x2000 then some (w.value.toNat % 16 = 0xA) else none) false

/-- The low five bits of the program bank. One stands in for zero. -/
def lowerAfter : List Write → Nat :=
  History.latest
    (fun _ w =>
      if 0x2000 ≤ w.addr ∧ w.addr < 0x4000
      then some (if w.value.toNat % 32 = 0 then 1 else w.value.toNat % 32) else none) 1

def modeAfter : List Write → Mode :=
  History.latest
    (fun _ w =>
      if 0x6000 ≤ w.addr ∧ w.addr < 0x8000
      then some (if w.value.toNat % 2 = 0 then .rom else .ram) else none) .rom

/-- The two bits last written to the upper register while the controller was in the mode. -/
def upperAfter (mode : Mode) : List Write → Nat :=
  History.latest
    (fun past w =>
      if 0x4000 ≤ w.addr ∧ w.addr < 0x6000 ∧ modeAfter past = mode
      then some (w.value.toNat % 4) else none) 0

/-- The registers hold what the history says. -/
structure Holds (m : Mbc1) (history : List Write) : Prop where
  romBank : m.romBank.toNat = 32 * upperAfter .rom history + lowerAfter history
  ramBank : m.ramBank.toNat = upperAfter .ram history
  mode : m.mode = modeAfter history
  ramEnabled : m.ramEnabled = gateAfter history

variable {m : Mbc1} {w : Write} {past : List Write}

theorem gateAfter_cons : gateAfter (w :: past) =
    if w.addr < 0x2000 then decide (w.value.toNat % 16 = 0xA) else gateAfter past :=
  History.latest_cons_of_ite rfl

theorem lowerAfter_cons : lowerAfter (w :: past) =
    if 0x2000 ≤ w.addr ∧ w.addr < 0x4000
    then if w.value.toNat % 32 = 0 then 1 else w.value.toNat % 32 else lowerAfter past :=
  History.latest_cons_of_ite rfl

theorem modeAfter_cons : modeAfter (w :: past) =
    if 0x6000 ≤ w.addr ∧ w.addr < 0x8000
    then if w.value.toNat % 2 = 0 then .rom else .ram else modeAfter past :=
  History.latest_cons_of_ite rfl

theorem upperAfter_cons (mode : Mode) : upperAfter mode (w :: past) =
    if 0x4000 ≤ w.addr ∧ w.addr < 0x6000 ∧ modeAfter past = mode
    then w.value.toNat % 4 else upperAfter mode past :=
  History.latest_cons_of_ite rfl

theorem gateAfter_of_le (h : 0x2000 ≤ w.addr) : gateAfter (w :: past) = gateAfter past := by
  rw [gateAfter_cons, if_neg (UInt16.not_lt.mpr h)]

theorem lowerAfter_of_outside (h : ¬ (0x2000 ≤ w.addr ∧ w.addr < 0x4000)) :
    lowerAfter (w :: past) = lowerAfter past := by
  rw [lowerAfter_cons, if_neg h]

theorem modeAfter_of_lt (h : w.addr < 0x6000) : modeAfter (w :: past) = modeAfter past := by
  rw [modeAfter_cons, if_neg fun hin => UInt16.not_lt.mpr hin.1 h]

theorem upperAfter_of_outside {mode : Mode} (h : ¬ (0x4000 ≤ w.addr ∧ w.addr < 0x6000)) :
    upperAfter mode (w :: past) = upperAfter mode past := by
  rw [upperAfter_cons, if_neg fun hin => h ⟨hin.1, hin.2.1⟩]

theorem lowerAfter_bounds (history : List Write) :
    1 ≤ lowerAfter history ∧ lowerAfter history < 32 := by
  induction history with
  | nil => decide
  | cons w past ih =>
    rw [lowerAfter_cons]
    split
    · split <;> omega
    · exact ih

theorem upperAfter_lt (mode : Mode) (history : List Write) : upperAfter mode history < 4 := by
  induction history with
  | nil => exact Nat.zero_lt_succ 3
  | cons w past ih =>
    rw [upperAfter_cons]
    split
    · omega
    · exact ih

theorem toNat_and_mask {mask : UInt8} {k : Nat} (hmask : mask.toNat = 2 ^ k - 1) (b : UInt8) :
    (b &&& mask).toNat = b.toNat % 2 ^ k := by
  rw [UInt8.toNat_and, hmask]
  exact Nat.and_two_pow_sub_one_eq_mod b.toNat k

theorem and_mask_eq_iff {mask : UInt8} {k : Nat} (hmask : mask.toNat = 2 ^ k - 1) (b x : UInt8) :
    b &&& mask = x ↔ b.toNat % 2 ^ k = x.toNat := by
  rw [← UInt8.toNat_inj, toNat_and_mask hmask]

theorem toNat_and_low (b : UInt8) : (b &&& 0x1F).toNat = b.toNat % 32 :=
  toNat_and_mask (k := 5) rfl b

theorem toNat_and_upper (b : UInt8) : (b &&& 0x03).toNat = b.toNat % 4 :=
  toNat_and_mask (k := 2) rfl b

/-- Bits 5 and 6 of a bank are those of its upper part. -/
theorem toNat_and_high {b : UInt8} {high low : Nat} (hb : b.toNat = 32 * high + low)
    (hhigh : high < 4) (hlow : low < 32) : (b &&& 0x60).toNat = 32 * high := by
  have hmask : ∀ n : Fin 128, n.val &&& 0x60 = 32 * (n.val / 32) := by decide +kernel
  have hn := hmask ⟨b.toNat, by omega⟩
  rw [UInt8.toNat_and]
  change b.toNat &&& 0x60 = 32 * high
  rw [hn]
  change 32 * (b.toNat / 32) = 32 * high
  omega

theorem toNat_or_of_parts {x y : UInt8} {high : Nat} (hx : x.toNat = 32 * high)
    (hy : y.toNat < 32) : (x ||| y).toNat = 32 * high + y.toNat := by
  rw [UInt8.toNat_or, hx]
  exact (Nat.two_pow_add_eq_or_of_lt (i := 5) hy high).symm

theorem Holds.powerOn : Holds {} [] where
  romBank := rfl
  ramBank := rfl
  mode := rfl
  ramEnabled := rfl

theorem gate_eq_decide (v : UInt8) : ((v &&& 0x0F) == 0x0A) = decide (v.toNat % 16 = 0xA) := by
  rw [Bool.eq_iff_iff, beq_iff_eq, decide_eq_true_iff]
  exact and_mask_eq_iff (k := 4) rfl v 0x0A

theorem mode_bit_iff (v : UInt8) : v &&& 0x01 = 0 ↔ v.toNat % 2 = 0 :=
  and_mask_eq_iff (k := 1) rfl v 0

/-- The writes to the four ports, by where the address lies. -/
theorem ofWrite_cases (hw : w.addr < 0x8000) :
    (w.addr < 0x2000 ∧ Command.ofWrite w.addr w.value = .gateRam ((w.value &&& 0x0F) == 0x0A)) ∨
    (0x2000 ≤ w.addr ∧ w.addr < 0x4000 ∧
      Command.ofWrite w.addr w.value = .selectLow (w.value &&& 0x1F)) ∨
    (0x4000 ≤ w.addr ∧ w.addr < 0x6000 ∧
      Command.ofWrite w.addr w.value = .selectHigh (w.value &&& 0x03)) ∨
    (0x6000 ≤ w.addr ∧ w.addr < 0x8000 ∧
      Command.ofWrite w.addr w.value = .setMode (if w.value &&& 0x01 = 0 then .rom else .ram)) := by
  unfold Command.ofWrite
  grind

theorem toNat_low_or_one (v : UInt8) : (if v &&& 0x1F = 0 then 1 else v &&& 0x1F).toNat =
    if v.toNat % 32 = 0 then 1 else v.toNat % 32 := by
  have hzero : v &&& 0x1F = 0 ↔ v.toNat % 32 = 0 := and_mask_eq_iff (k := 5) rfl v 0
  by_cases hv : v &&& 0x1F = 0
  · rw [if_pos hv, if_pos (hzero.mp hv)]
    rfl
  · rw [if_neg hv, if_neg (mt hzero.mpr hv), toNat_and_low]

theorem toNat_upper_shifted (v : UInt8) :
    ((v &&& 0x03) <<< (5 : UInt8)).toNat = 32 * (v.toNat % 4) := by
  rw [UInt8.toNat_shiftLeft, toNat_and_upper, Nat.shiftLeft_eq]
  simp only [UInt8.toNat_ofNat, Nat.reducePow, Nat.reduceMod]
  omega

/-- The low five bits of the program bank are those of the low register, which never holds zero. -/
theorem Holds.romBank_mod {history : List Write} (h : m.Holds history) :
    m.romBank.toNat % 32 = lowerAfter history := by
  have hlow := (lowerAfter_bounds history).2
  rw [h.romBank]
  omega

theorem Holds.gateRam (h : m.Holds past) (hto : w.addr < 0x2000) :
    (m.obey (.gateRam ((w.value &&& 0x0F) == 0x0A))).Holds (w :: past) where
  romBank := by
    rw [upperAfter_of_outside (by grind), lowerAfter_of_outside (by grind)]
    exact h.romBank
  ramBank := by
    rw [upperAfter_of_outside (by grind)]
    exact h.ramBank
  mode := by
    rw [modeAfter_of_lt (by grind)]
    exact h.mode
  ramEnabled := by
    rw [gateAfter_cons, if_pos hto]
    exact gate_eq_decide w.value

theorem Holds.selectLow (h : m.Holds past) (hfrom : 0x2000 ≤ w.addr) (hto : w.addr < 0x4000) :
    (m.obey (.selectLow (w.value &&& 0x1F))).Holds (w :: past) where
  romBank := by
    have hhigh := upperAfter_lt .rom past
    have hlow := (lowerAfter_bounds past).2
    rw [upperAfter_of_outside (by grind), lowerAfter_cons, if_pos ⟨hfrom, hto⟩, ← toNat_low_or_one]
    refine toNat_or_of_parts (toNat_and_high h.romBank hhigh hlow) ?_
    rw [toNat_low_or_one]
    split <;> omega
  ramBank := by
    rw [upperAfter_of_outside (by grind)]
    exact h.ramBank
  mode := by
    rw [modeAfter_of_lt (by grind)]
    exact h.mode
  ramEnabled := by
    rw [gateAfter_of_le hfrom]
    exact h.ramEnabled

/-- The controller's mode decides which of the two values of the port is written. -/
theorem Holds.selectHigh (h : m.Holds past) (hfrom : 0x4000 ≤ w.addr) (hto : w.addr < 0x6000) :
    (m.obey (.selectHigh (w.value &&& 0x03))).Holds (w :: past) := by
  have hlower : lowerAfter (w :: past) = lowerAfter past := lowerAfter_of_outside (by grind)
  have hmode : m.mode = modeAfter (w :: past) := by
    rw [modeAfter_of_lt hto]
    exact h.mode
  have hgate : m.ramEnabled = gateAfter (w :: past) := by
    rw [gateAfter_of_le (by grind)]
    exact h.ramEnabled
  have hupper (mode : Mode) : upperAfter mode (w :: past) =
      if m.mode = mode then w.value.toNat % 4 else upperAfter mode past := by
    rw [upperAfter_cons, ← h.mode]
    simp only [hfrom, hto, true_and]
  cases hcase : m.mode with
  | rom =>
    have hbank : m.romBank.toNat % 32 = lowerAfter past := h.romBank_mod
    have hlow := (lowerAfter_bounds past).2
    rw [hcase] at hmode
    simp only [obey, hcase]
    refine ⟨?_, ?_, hmode, hgate⟩
    · rw [hupper, if_pos hcase, hlower, ← hbank, UInt8.or_comm, ← toNat_and_low]
      refine toNat_or_of_parts (toNat_upper_shifted w.value) ?_
      rw [toNat_and_low, hbank]
      exact hlow
    · rw [hupper, if_neg (by simp [hcase])]
      exact h.ramBank
  | ram =>
    rw [hcase] at hmode
    simp only [obey, hcase]
    refine ⟨?_, ?_, hmode, hgate⟩
    · rw [hupper, if_neg (by simp [hcase]), hlower]
      exact h.romBank
    · rw [hupper, if_pos hcase]
      exact toNat_and_upper w.value

theorem Holds.setMode (h : m.Holds past) (hfrom : 0x6000 ≤ w.addr) (hto : w.addr < 0x8000) :
    (m.obey (.setMode (if w.value &&& 0x01 = 0 then .rom else .ram))).Holds (w :: past) where
  romBank := by
    rw [upperAfter_of_outside (by grind), lowerAfter_of_outside (by grind)]
    exact h.romBank
  ramBank := by
    rw [upperAfter_of_outside (by grind)]
    exact h.ramBank
  mode := by
    have hafter : modeAfter (w :: past) = if w.value.toNat % 2 = 0 then .rom else .ram := by
      rw [modeAfter_cons, if_pos ⟨hfrom, hto⟩]
    rw [hafter]
    simp only [obey, mode_bit_iff]
  ramEnabled := by
    rw [gateAfter_of_le (by grind)]
    exact h.ramEnabled

theorem Holds.write (h : m.Holds past) (hw : w.addr < 0x8000) : (m.write w).Holds (w :: past) := by
  unfold Mbc1.write
  obtain ⟨hto, hcommand⟩ | ⟨hfrom, hto, hcommand⟩ | ⟨hfrom, hto, hcommand⟩ | ⟨hfrom, -, hcommand⟩ :=
    ofWrite_cases hw <;> rw [hcommand]
  · exact h.gateRam hto
  · exact h.selectLow hfrom hto
  · exact h.selectHigh hfrom hto
  · exact h.setMode hfrom hw

theorem Holds.writes {ws : List Write} (h : m.Holds past) (hws : ∀ w ∈ ws, w.addr < 0x8000) :
    (ws.foldl Mbc1.write m).Holds (ws.reverse ++ past) := by
  induction ws generalizing m past with
  | nil => exact h
  | cons w ws ih =>
    rw [List.forall_mem_cons] at hws
    rw [List.foldl_cons, List.reverse_cons, List.append_assoc]
    exact ih (h.write hws.1) hws.2

/-- The controller, once it has obeyed the writes in the given order. -/
def afterWrites (ws : List Write) : Mbc1 :=
  ws.foldl write {}

/-- The registers are a function of what was written to the ports, whatever the order. The banks
    that begin a group of 32 cannot be selected. -/
theorem registers_of_writes (ws : List Write) (hws : ∀ w ∈ ws, w.addr < 0x8000) :
    (afterWrites ws).Holds ws.reverse ∧ (afterWrites ws).romBank.toNat % 32 ≠ 0 ∧
      (afterWrites ws).romBank ∉ [0x00, 0x20, 0x40, 0x60] := by
  have hholds : (afterWrites ws).Holds ws.reverse := by
    have hall := Holds.powerOn.writes hws
    rwa [List.append_nil] at hall
  have hlow : (afterWrites ws).romBank.toNat % 32 ≠ 0 := by
    have hpos := (lowerAfter_bounds ws.reverse).1
    rw [hholds.romBank_mod]
    omega
  refine ⟨hholds, hlow, fun hmem => hlow ?_⟩
  simp only [List.mem_cons, List.not_mem_nil, or_false] at hmem
  obtain hbank | hbank | hbank | hbank := hmem <;> rw [hbank] <;> rfl

/-- The upper register is written in either mode, and the low register is left at zero. -/
def bothModes : List Write :=
  [⟨0x0000, 0x3A⟩, ⟨0x4000, 0x02⟩, ⟨0x7FFF, 0x01⟩, ⟨0x5FFF, 0xFF⟩, ⟨0x2000, 0x40⟩]

theorem registers_bothModes :
    (∀ w ∈ bothModes, w.addr < 0x8000) ∧ (afterWrites bothModes).Holds bothModes.reverse ∧
      afterWrites bothModes = ⟨0x41, 0x03, true, .ram⟩ :=
  have hws : ∀ w ∈ bothModes, w.addr < 0x8000 := by decide +kernel
  ⟨hws, (registers_of_writes bothModes hws).1, by decide +kernel⟩

end Handheld.Mbc1
