import Handheld.Proofs.Cpu.Binary

namespace Handheld

/-- Both halves of the byte are decimal digits. -/
def IsDecimal (v : UInt8) : Prop :=
  v.toNat / 16 < 10 ∧ v.toNat % 16 < 10

instance (v : UInt8) : Decidable (IsDecimal v) :=
  inferInstanceAs (Decidable (_ ∧ _))

/-- Decimal numbers, in which a byte holds two digits. -/
def Digits.decimal : Digits where
  base := 100
  IsDigit := IsDecimal
  value v := 10 * (v.toNat / 16) + v.toNat % 16
  one_lt_base := by decide
  value_lt := by
    rintro v ⟨hhigh, hlow⟩
    omega

instance (pairs : List (UInt8 × UInt8)) : Decidable (Digits.decimal.Writes pairs) :=
  List.decidableBAll (fun p : UInt8 × UInt8 => IsDecimal p.1 ∧ IsDecimal p.2) pairs

/-- A decimal byte is given by its two digits. -/
theorem IsDecimal.digits {v : UInt8} (h : IsDecimal v) :
    ∃ high < 10, ∃ low < 10, v.toNat = 16 * high + low ∧ v.toNat % 16 = low ∧
      Digits.decimal.value v = 10 * high + low :=
  ⟨_, h.1, _, h.2, (Nat.div_add_mod v.toNat 16).symm, rfl, rfl⟩

namespace Alu

open Digits (decimal)

/-- The turn of an operation followed by the decimal adjustment. -/
def decimalTurn (op : AluOp) : Turn := fun x y carry =>
  daa (turn op x y carry).1 (turn op x y carry).2

variable {a x y : UInt8} {f : Flags} {carry : Bool}

theorem nine_lt_low_iff : 9 < a &&& 0x0F ↔ 9 < a.toNat % 16 := by
  have hlow : (a &&& 0x0F).toNat = a.toNat % 16 := by
    rw [UInt8.toNat_and]
    exact Nat.and_two_pow_sub_one_eq_mod a.toNat 4
  rw [UInt8.lt_iff_toNat_lt, hlow]
  rfl

theorem toNat_decimalCorrection (a : UInt8) (f : Flags) :
    (decimalCorrection a f).toNat =
      (if f.halfCarry = true ∨ f.subtract = false ∧ 9 < a.toNat % 16 then 6 else 0) +
      (if f.carry = true ∨ f.subtract = false ∧ 0x99 < a.toNat then 0x60 else 0) := by
  have htop : (0x99 < a) ↔ 0x99 < a.toNat := UInt8.lt_iff_toNat_lt
  simp only [decimalCorrection, Bool.or_eq_true, Bool.and_eq_true, Bool.not_eq_true',
    decide_eq_true_iff, nine_lt_low_iff, htop]
  split <;> split <;> rfl

/-- After a sum, the low half is corrected if its digits make more than nine, the high half if all
    digits make more than ninety-nine. -/
theorem decimalCorrection_sum (hx : IsDecimal x) (hy : IsDecimal y) (carry : Bool) :
    (decimalCorrection (add x y carry).1 (add x y carry).2).toNat =
      (if 10 ≤ x.toNat % 16 + y.toNat % 16 + carry.toNat then 6 else 0) +
      (if 100 ≤ decimal.value x + decimal.value y + carry.toNat then 0x60 else 0) := by
  obtain ⟨hxhigh, hxlow⟩ := hx
  obtain ⟨hyhigh, hylow⟩ := hy
  obtain ⟨_, hsubtract, hhalf, hcarry, _⟩ := add_sumFlags x y carry
  have hle := carry.toNat_le
  simp only [toNat_decimalCorrection, hsubtract, hhalf, hcarry, toNat_add, decimal, true_and]
  congr 2
  · rw [eq_iff_iff]
    omega
  · rw [eq_iff_iff]
    omega

/-- After a difference, a half is corrected if its digits have borrowed. -/
theorem decimalCorrection_difference (hx : IsDecimal x) (hy : IsDecimal y) (carry : Bool) :
    (decimalCorrection (sub x y carry).1 (sub x y carry).2).toNat =
      (if x.toNat % 16 < y.toNat % 16 + carry.toNat then 6 else 0) +
      (if decimal.value x < decimal.value y + carry.toNat then 0x60 else 0) := by
  obtain ⟨hxhigh, hxlow⟩ := hx
  obtain ⟨hyhigh, hylow⟩ := hy
  obtain ⟨_, hsubtract, hhalf, hcarry, _⟩ := sub_differenceFlags x y carry
  have hle := carry.toNat_le
  have hborrow : x.toNat < y.toNat + carry.toNat ↔
      decimal.value x < decimal.value y + carry.toNat := by
    simp only [decimal]
    omega
  simp only [toNat_decimalCorrection, hsubtract, hhalf, hcarry, hborrow, Bool.true_eq_false,
    false_and, or_false]

/-- The carry counts how often the high half is corrected. -/
theorem carry_daa (a : UInt8) (f : Flags) :
    (daa a f).2.carry.toNat = (decimalCorrection a f).toNat / 0x60 := by
  have hlt : (decimalCorrection a f).toNat < 2 * 0x60 := by
    rw [toNat_decimalCorrection]
    split <;> split <;> decide
  have hle : 0x60 ≤ decimalCorrection a f ↔ 0x60 ≤ (decimalCorrection a f).toNat :=
    UInt8.le_iff_toNat_le
  simp only [daa, toNat_decide, hle]
  split <;> omega

theorem toNat_daa_of_sum (h : f.subtract = false) :
    (daa a f).1.toNat = (a.toNat + (decimalCorrection a f).toNat) % 256 := by
  rw [daa, h, if_neg Bool.false_ne_true]
  exact UInt8.toNat_add _ _

theorem toNat_daa_of_difference (h : f.subtract = true) :
    (daa a f).1.toNat = (256 - (decimalCorrection a f).toNat + a.toNat) % 256 := by
  rw [daa, h, if_pos rfl]
  exact UInt8.toNat_sub _ _

section Arithmetic

variable {a b c d e k r : Nat}

theorem digits_of_sum (ha : a < 10) (hb : b < 10) (hc : c < 10) (hd : d < 10) (he : e ≤ 1)
    (hk : k = (if 10 ≤ b + d + e then 6 else 0) +
      (if 100 ≤ 10 * a + b + (10 * c + d) + e then 0x60 else 0))
    (hr : r = ((16 * a + b + (16 * c + d) + e) % 256 + k) % 256) :
    (r / 16 < 10 ∧ r % 16 < 10) ∧
      10 * (r / 16) + r % 16 + 100 * (k / 0x60) = 10 * a + b + (10 * c + d) + e := by
  split at hk <;> split at hk <;> omega

theorem digits_of_difference (ha : a < 10) (hb : b < 10) (hc : c < 10) (hd : d < 10) (he : e ≤ 1)
    (hk : k = (if b < d + e then 6 else 0) + (if 10 * a + b < 10 * c + d + e then 0x60 else 0))
    (hr : r = (256 - k + (16 * a + b + 512 - (16 * c + d) - e) % 256) % 256) :
    (r / 16 < 10 ∧ r % 16 < 10) ∧
      10 * (r / 16) + r % 16 + (10 * c + d) + e = 10 * a + b + 100 * (k / 0x60) := by
  split at hk <;> split at hk <;> omega

end Arithmetic

/-- The sum of two decimal bytes is a decimal byte, and the carry counts a hundred. -/
theorem decimalTurn_adc (hx : IsDecimal x) (hy : IsDecimal y) (carry : Bool) :
    IsDecimal (decimalTurn .adc x y carry).1 ∧
      decimal.value (decimalTurn .adc x y carry).1 +
          100 * (decimalTurn .adc x y carry).2.carry.toNat =
        decimal.value x + decimal.value y + carry.toNat := by
  have hresult : (decimalTurn .adc x y carry).1.toNat = ((add x y carry).1.toNat +
      (decimalCorrection (add x y carry).1 (add x y carry).2).toNat) % 256 :=
    toNat_daa_of_sum (add_sumFlags x y carry).subtract
  have hcarry : (decimalTurn .adc x y carry).2.carry.toNat = _ :=
    carry_daa (add x y carry).1 (add x y carry).2
  have hcorrection := decimalCorrection_sum hx hy carry
  obtain ⟨a, ha, b, hb, hxdigits, hxlow, hxvalue⟩ := hx.digits
  obtain ⟨c, hc, d, hd, hydigits, hylow, hyvalue⟩ := hy.digits
  rw [toNat_add, hxdigits, hydigits] at hresult
  rw [hxlow, hylow, hxvalue, hyvalue] at hcorrection
  rw [hcarry, hxvalue, hyvalue]
  exact digits_of_sum ha hb hc hd carry.toNat_le hcorrection hresult

/-- So is the difference, and the carry counts a hundred that is borrowed. -/
theorem decimalTurn_sbc (hx : IsDecimal x) (hy : IsDecimal y) (carry : Bool) :
    IsDecimal (decimalTurn .sbc x y carry).1 ∧
      decimal.value (decimalTurn .sbc x y carry).1 + decimal.value y + carry.toNat =
        decimal.value x + 100 * (decimalTurn .sbc x y carry).2.carry.toNat := by
  have hresult : (decimalTurn .sbc x y carry).1.toNat =
      (256 - (decimalCorrection (sub x y carry).1 (sub x y carry).2).toNat +
        (sub x y carry).1.toNat) % 256 :=
    toNat_daa_of_difference (sub_differenceFlags x y carry).subtract
  have hcarry : (decimalTurn .sbc x y carry).2.carry.toNat = _ :=
    carry_daa (sub x y carry).1 (sub x y carry).2
  have hcorrection := decimalCorrection_difference hx hy carry
  obtain ⟨a, ha, b, hb, hxdigits, hxlow, hxvalue⟩ := hx.digits
  obtain ⟨c, hc, d, hd, hydigits, hylow, hyvalue⟩ := hy.digits
  rw [toNat_sub, hxdigits, hydigits] at hresult
  rw [hxlow, hylow, hxvalue, hyvalue] at hcorrection
  rw [hcarry, hxvalue, hyvalue]
  exact digits_of_difference ha hb hc hd carry.toNat_le hcorrection hresult

theorem decimalTurn_adds : decimal.Adds (decimalTurn .adc) :=
  ⟨fun carry hx hy => (decimalTurn_adc hx hy carry).1,
    fun carry hx hy => (decimalTurn_adc hx hy carry).2⟩

theorem decimalTurn_subtracts : decimal.Subtracts (decimalTurn .sbc) :=
  ⟨fun carry hx hy => (decimalTurn_sbc hx hy carry).1,
    fun carry hx hy => (decimalTurn_sbc hx hy carry).2⟩

/-- The operation and the decimal adjustment after it take the decimal turn. -/
theorem daa_performs {β : Type} [Bus β] (op : AluOp) :
    Exec.Performs (fun src => do
      (Instr.alu op src).execute
      Instr.daa.execute : Operand → Exec β Unit) (decimalTurn op) := by
  intro src y s u hread
  exact Access.bind_eq_ok_iff.mpr ⟨(), _, Exec.alu_performs op src y s u hread, rfl⟩

/-- Decimal numbers of several bytes are added by adding their bytes from the least significant one
    on, with the carry, and adjusting each sum; they are subtracted in the same way. The
    instructions cannot fail. -/
theorem add_and_subtract_decimals {pairs : List (UInt8 × UInt8)} (hpairs : decimal.Writes pairs)
    (carry : Bool) :
    decimal.SumOf pairs carry (chain (decimalTurn .adc) pairs carry) ∧
    decimal.DifferenceOf pairs carry (chain (decimalTurn .sbc) pairs carry) ∧
    ∀ {β : Type} [Bus β] (op : AluOp),
      Exec.Performs (fun src => do
        (Instr.alu op src).execute
        Instr.daa.execute : Operand → Exec β Unit) (decimalTurn op) :=
  ⟨decimalTurn_adds.sumOf hpairs carry, decimalTurn_subtracts.differenceOf hpairs carry,
    daa_performs⟩

/-- The numbers 1999 and 2701. -/
theorem add_and_subtract_decimals_thousands :
    decimal.Writes [(0x99, 0x01), (0x19, 0x27)] ∧
      decimal.SumOf [(0x99, 0x01), (0x19, 0x27)] true
        (chain (decimalTurn .adc) [(0x99, 0x01), (0x19, 0x27)] true) ∧
      (chain (decimalTurn .adc) [(0x99, 0x01), (0x19, 0x27)] true).bytes = [0x01, 0x47] ∧
      decimal.DifferenceOf [(0x99, 0x01), (0x19, 0x27)] true
        (chain (decimalTurn .sbc) [(0x99, 0x01), (0x19, 0x27)] true) ∧
      (chain (decimalTurn .sbc) [(0x99, 0x01), (0x19, 0x27)] true).bytes = [0x97, 0x92] := by
  have hwrites : decimal.Writes [(0x99, 0x01), (0x19, 0x27)] := by decide
  obtain ⟨hsum, hdifference, -⟩ := add_and_subtract_decimals hwrites true
  exact ⟨hwrites, hsum, by decide, hdifference, by decide⟩

end Alu

end Handheld
