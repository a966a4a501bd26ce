import Handheld.Proofs.Cpu.Bytewise
import Mathlib.Data.Nat.Bitwise

namespace Handheld

/-- Binary numbers, in which every byte is a digit. -/
def Digits.binary : Digits where
  base := 256
  IsDigit _ := True
  value := UInt8.toNat
  one_lt_base := by decide
  value_lt v _ := v.toNat_lt

namespace Alu

open Digits (binary)

variable {pairs : List (UInt8 × UInt8)} {x y : UInt8} {carry : Bool} {i : Nat}

theorem toNat_toUInt8 (carry : Bool) : carry.toUInt8.toNat = carry.toNat := by
  cases carry <;> rfl

theorem toNat_toUInt16 (carry : Bool) : carry.toUInt16.toNat = carry.toNat := by
  cases carry <;> rfl

theorem toNat_add (x y : UInt8) (carry : Bool) :
    (add x y carry).1.toNat = (x.toNat + y.toNat + carry.toNat) % 256 := by
  simp only [add, UInt8.toNat_add, toNat_toUInt8]
  exact Nat.mod_add_mod _ _ _

theorem toNat_sub (x y : UInt8) (carry : Bool) :
    (sub x y carry).1.toNat = (x.toNat + 512 - y.toNat - carry.toNat) % 256 := by
  have hy := y.toNat_lt
  have hcarry := carry.toNat_le
  simp only [sub, UInt8.toNat_sub, toNat_toUInt8]
  omega

/-- A sum and its carry are worth what is added. -/
theorem add_value (x y : UInt8) (carry : Bool) :
    (add x y carry).1.toNat + 256 * (add x y carry).2.carry.toNat =
      x.toNat + y.toNat + carry.toNat := by
  have hx := x.toNat_lt
  have hy := y.toNat_lt
  have hcarry := carry.toNat_le
  rw [toNat_add, add, toNat_decide]
  split <;> omega

/-- A difference and what it takes away are worth what it is taken from, with what is borrowed. -/
theorem sub_value (x y : UInt8) (carry : Bool) :
    (sub x y carry).1.toNat + y.toNat + carry.toNat =
      x.toNat + 256 * (sub x y carry).2.carry.toNat := by
  have hx := x.toNat_lt
  have hy := y.toNat_lt
  have hcarry := carry.toNat_le
  rw [toNat_sub, sub, toNat_decide]
  split <;> omega

/-- Bit 4 of three words combined is set if they have an odd number of sixteens together. -/
theorem bitFour_xor (p q r : UInt16) : ((p ^^^ q ^^^ r) &&& 0x10 != 0) =
    decide ((p.toNat / 16 + q.toNat / 16 + r.toNat / 16) % 2 = 1) := by
  have hbit : ((p ^^^ q ^^^ r) &&& 0x10).toNat =
      (p.toNat ^^^ q.toNat ^^^ r.toNat) / 16 % 2 * 16 := by
    rw [UInt16.toNat_and, UInt16.toNat_xor, UInt16.toNat_xor]
    have hmask := Nat.and_two_pow (p.toNat ^^^ q.toNat ^^^ r.toNat) 4
    rwa [Nat.toNat_testBit] at hmask
  have hsixteens : (p.toNat ^^^ q.toNat ^^^ r.toNat) / 16 % 2 =
      (p.toNat / 16 + q.toNat / 16 + r.toNat / 16) % 2 := by
    have hdiv (a b : Nat) : (a ^^^ b) / 16 = a / 16 ^^^ b / 16 := Nat.xor_div_two_pow (n := 4)
    rw [hdiv, hdiv, Nat.xor_mod_two_eq, Nat.add_mod, Nat.xor_mod_two_eq, ← Nat.add_mod]
  rw [Bool.eq_iff_iff, bne_iff_ne, decide_eq_true_iff, Ne, ← UInt16.toNat_inj, hbit, hsixteens]
  change ¬ _ = 0 ↔ _
  omega

/-- The half carry of a sum is the bit in which a wider sum differs from what is added. -/
theorem halfCarry_add_eq_bit (x y : UInt8) (carry : Bool) : (add x y carry).2.halfCarry =
    ((x.toUInt16 ^^^ y.toUInt16 ^^^ (x.toUInt16 + y.toUInt16 + carry.toUInt16)) &&& 0x10 != 0) := by
  have hcarry := carry.toNat_le
  simp only [add, bitFour_xor, UInt16.toNat_add, UInt8.toNat_toUInt16, toNat_toUInt16,
    decide_eq_decide]
  omega

/-- So is that of a difference, which may be negative. -/
theorem halfCarry_sub_eq_bit (x y : UInt8) (carry : Bool) : (sub x y carry).2.halfCarry =
    ((x.toUInt16 ^^^ y.toUInt16 ^^^ (x.toUInt16 - y.toUInt16 - carry.toUInt16)) &&& 0x10 != 0) := by
  have hx := x.toNat_lt
  have hy := y.toNat_lt
  have hcarry := carry.toNat_le
  simp only [sub, bitFour_xor, UInt16.toNat_sub, UInt8.toNat_toUInt16, toNat_toUInt16,
    decide_eq_decide]
  omega

/-- The flags left with a byte of a sum, to which a carry `c` is added. -/
structure SumFlags (x y : UInt8) (c : Bool) (r : UInt8 × Flags) : Prop where
  zero : r.2.zero = true ↔ r.1 = 0
  subtract : r.2.subtract = false
  halfCarry : r.2.halfCarry = true ↔ 16 ≤ x.toNat % 16 + y.toNat % 16 + c.toNat
  carry : r.2.carry = true ↔ 256 ≤ x.toNat + y.toNat + c.toNat
  bit : r.2.halfCarry =
    ((x.toUInt16 ^^^ y.toUInt16 ^^^ (x.toUInt16 + y.toUInt16 + c.toUInt16)) &&& 0x10 != 0)

/-- The flags left with a byte of a difference, from which a borrow `c` is taken. -/
structure DifferenceFlags (x y : UInt8) (c : Bool) (r : UInt8 × Flags) : Prop where
  zero : r.2.zero = true ↔ r.1 = 0
  subtract : r.2.subtract = true
  halfCarry : r.2.halfCarry = true ↔ x.toNat % 16 < y.toNat % 16 + c.toNat
  carry : r.2.carry = true ↔ x.toNat < y.toNat + c.toNat
  bit : r.2.halfCarry =
    ((x.toUInt16 ^^^ y.toUInt16 ^^^ (x.toUInt16 - y.toUInt16 - c.toUInt16)) &&& 0x10 != 0)

theorem add_sumFlags (x y : UInt8) (carry : Bool) : SumFlags x y carry (add x y carry) :=
  ⟨beq_iff_eq, rfl, decide_eq_true_iff, decide_eq_true_iff, halfCarry_add_eq_bit x y carry⟩

theorem sub_differenceFlags (x y : UInt8) (carry : Bool) :
    DifferenceFlags x y carry (sub x y carry) :=
  ⟨beq_iff_eq, rfl, decide_eq_true_iff, decide_eq_true_iff, halfCarry_sub_eq_bit x y carry⟩

theorem adc_adds : binary.Adds (turn .adc) :=
  ⟨fun _ _ _ => trivial, fun carry _ _ => add_value _ _ carry⟩

theorem sbc_subtracts : binary.Subtracts (turn .sbc) :=
  ⟨fun _ _ _ => trivial, fun carry _ _ => sub_value _ _ carry⟩

theorem writes_binary (pairs : List (UInt8 × UInt8)) : binary.Writes pairs :=
  fun _ _ => ⟨trivial, trivial⟩

/-- The bytes before those at `i` make a sum that does not fit into as many bytes. -/
def carryInto (pairs : List (UInt8 × UInt8)) (i : Nat) : Bool :=
  256 ^ i ≤ binary.number ((pairs.take i).map Prod.fst) +
    binary.number ((pairs.take i).map Prod.snd)

/-- They make a difference that is negative. -/
def borrowInto (pairs : List (UInt8 × UInt8)) (i : Nat) : Bool :=
  binary.number ((pairs.take i).map Prod.fst) < binary.number ((pairs.take i).map Prod.snd)

theorem carry_chain_take (hi : i ≤ pairs.length) :
    (chain (turn .adc) (pairs.take i) false).carry = carryInto pairs i := by
  have hcarry := (adc_adds.sumOf (writes_binary (pairs.take i)) false).carry
  rwa [List.length_take_of_le hi] at hcarry

theorem borrow_chain_take (pairs : List (UInt8 × UInt8)) (i : Nat) :
    (chain (turn .sbc) (pairs.take i) false).carry = borrowInto pairs i :=
  (sbc_subtracts.differenceOf (writes_binary (pairs.take i)) false).carry

/-- The bytes have been added, and each has left its flags. -/
structure BytesAdded (pairs : List (UInt8 × UInt8)) (w : Worked) : Prop where
  sum : binary.SumOf pairs false w
  flags : ∀ i x y, pairs[i]? = some (x, y) →
    ∃ r, w.results[i]? = some r ∧ SumFlags x y (carryInto pairs i) r

/-- The bytes have been subtracted, and each has left its flags. -/
structure BytesSubtracted (pairs : List (UInt8 × UInt8)) (w : Worked) : Prop where
  difference : binary.DifferenceOf pairs false w
  flags : ∀ i x y, pairs[i]? = some (x, y) →
    ∃ r, w.results[i]? = some r ∧ DifferenceFlags x y (borrowInto pairs i) r

theorem chain_adc_bytesAdded (pairs : List (UInt8 × UInt8)) :
    BytesAdded pairs (chain (turn .adc) pairs false) := by
  refine ⟨adc_adds.sumOf (writes_binary pairs) false, fun i x y hi => ?_⟩
  have hlength : i ≤ pairs.length := Nat.le_of_lt (List.getElem?_eq_some_iff.mp hi).1
  rw [results_getElem?, hi, carry_chain_take hlength]
  exact ⟨_, rfl, add_sumFlags x y _⟩

theorem chain_sbc_bytesSubtracted (pairs : List (UInt8 × UInt8)) :
    BytesSubtracted pairs (chain (turn .sbc) pairs false) := by
  refine ⟨sbc_subtracts.differenceOf (writes_binary pairs) false, fun i x y hi => ?_⟩
  rw [results_getElem?, hi, borrow_chain_take]
  exact ⟨_, rfl, sub_differenceFlags x y _⟩

/-- Numbers of several bytes are added by adding their bytes from the least significant one on, all
    but the first with the carry, and subtracted in the same way. The instructions cannot fail. -/
theorem add_and_subtract_bytes (hpairs : pairs ≠ []) (carry : Bool) :
    BytesAdded pairs (chainFrom (turn .add) (turn .adc) pairs carry) ∧
    BytesSubtracted pairs (chainFrom (turn .sub) (turn .sbc) pairs carry) ∧
    ∀ {β : Type} [Bus β] (op : AluOp),
      Exec.Performs (fun src => (Instr.alu op src).execute : Operand → Exec β Unit) (turn op) := by
  have hadd : chainFrom (turn .add) (turn .adc) pairs carry = chain (turn .adc) pairs false :=
    chainFrom_eq_chain hpairs fun _ _ _ => rfl
  have hsub : chainFrom (turn .sub) (turn .sbc) pairs carry = chain (turn .sbc) pairs false :=
    chainFrom_eq_chain hpairs fun _ _ _ => rfl
  rw [hadd, hsub]
  exact ⟨chain_adc_bytesAdded pairs, chain_sbc_bytesSubtracted pairs, Exec.alu_performs⟩

/-- Adding one to 65535 and taking one from zero. -/
theorem add_and_subtract_bytes_around :
    [(0xFF, 0x01), (0xFF, 0x00)] ≠ ([] : List (UInt8 × UInt8)) ∧
      (chainFrom (turn .add) (turn .adc) [(0xFF, 0x01), (0xFF, 0x00)] true).bytes = [0x00, 0x00] ∧
      BytesAdded [(0xFF, 0x01), (0xFF, 0x00)]
        (chainFrom (turn .add) (turn .adc) [(0xFF, 0x01), (0xFF, 0x00)] true) ∧
      (chainFrom (turn .sub) (turn .sbc) [(0x00, 0x01), (0x00, 0x00)] true).bytes = [0xFF, 0xFF] ∧
      BytesSubtracted [(0x00, 0x01), (0x00, 0x00)]
        (chainFrom (turn .sub) (turn .sbc) [(0x00, 0x01), (0x00, 0x00)] true) :=
  ⟨by decide, by decide, (add_and_subtract_bytes (by decide) true).1, by decide,
    (add_and_subtract_bytes (by decide) true).2.1⟩

end Alu

end Handheld
