import Handheld.Proofs.Cpu.Step
import Mathlib.Data.Nat.Digits.Defs
import Mathlib.Tactic.Ring

namespace Handheld

/-- A way to write numbers in bytes: which bytes are digits, and what they are worth. -/
structure Digits where
  base : Nat
  IsDigit : UInt8 → Prop
  value : UInt8 → Nat
  one_lt_base : 1 < base
  value_lt : ∀ v, IsDigit v → value v < base

namespace Alu

theorem toNat_decide (p : Prop) [Decidable p] : (decide p).toNat = if p then 1 else 0 :=
  Bool.cond_decide p 1 0

/-- What is left of a pair of bytes and an incoming carry in the accumulator and the flags. -/
abbrev Turn := UInt8 → UInt8 → Bool → UInt8 × Flags

/-- The turn of an operation, for which no flag but the carry matters. -/
def turn (op : AluOp) : Turn := fun x y carry => apply op x { carry } y

theorem apply_eq_turn (op : AluOp) (a : UInt8) (f : Flags) (v : UInt8) :
    apply op a f v = turn op a v f.carry := by
  cases op <;> rfl

/-- What is left of pairs of bytes. -/
structure Worked where
  /-- The accumulator and the flags after each pair. -/
  results : List (UInt8 × Flags)
  /-- The carry flag in the end. -/
  carry : Bool
  deriving DecidableEq, Repr, Inhabited

/-- The bytes of the result. -/
def Worked.bytes (w : Worked) : List UInt8 :=
  w.results.map Prod.fst

/-- Works through pairs of bytes, the least significant pair first. The carry flag is kept from one
    turn to the next. -/
def chain (turn : Turn) : List (UInt8 × UInt8) → Bool → Worked
  | [], carry => ⟨[], carry⟩
  | (x, y) :: pairs, carry =>
    let result := turn x y carry
    let rest := chain turn pairs result.2.carry
    ⟨result :: rest.results, rest.carry⟩

/-- Works through pairs of bytes with a turn of its own for the first pair. -/
def chainFrom (first turn : Turn) : List (UInt8 × UInt8) → Bool → Worked
  | [], carry => ⟨[], carry⟩
  | (x, y) :: pairs, carry =>
    let result := first x y carry
    let rest := chain turn pairs result.2.carry
    ⟨result :: rest.results, rest.carry⟩

variable {first turn : Turn} {pairs : List (UInt8 × UInt8)} {carry : Bool}

/-- A first turn that makes nothing of the carry is like the others with no carry. -/
theorem chainFrom_eq_chain (hpairs : pairs ≠ [])
    (hfirst : ∀ x y carry, first x y carry = turn x y false) :
    chainFrom first turn pairs carry = chain turn pairs false := by
  cases pairs with
  | nil => exact absurd rfl hpairs
  | cons p pairs => simp only [chainFrom, chain, hfirst]

theorem bytes_chain_cons (turn : Turn) (x y : UInt8) (pairs : List (UInt8 × UInt8)) (carry : Bool) :
    (chain turn ((x, y) :: pairs) carry).bytes =
      (turn x y carry).1 :: (chain turn pairs (turn x y carry).2.carry).bytes := rfl

theorem carry_chain_cons (turn : Turn) (x y : UInt8) (pairs : List (UInt8 × UInt8)) (carry : Bool) :
    (chain turn ((x, y) :: pairs) carry).carry =
      (chain turn pairs (turn x y carry).2.carry).carry := rfl

theorem length_results (turn : Turn) (pairs : List (UInt8 × UInt8)) (carry : Bool) :
    (chain turn pairs carry).results.length = pairs.length := by
  induction pairs generalizing carry with
  | nil => rfl
  | cons p pairs ih => exact congrArg (· + 1) (ih _)

/-- Each turn is given the carry that is left of the pairs before it. -/
theorem results_getElem? (turn : Turn) (pairs : List (UInt8 × UInt8)) (carry : Bool) (i : Nat) :
    (chain turn pairs carry).results[i]? =
      pairs[i]?.map fun p => turn p.1 p.2 (chain turn (pairs.take i) carry).carry := by
  induction pairs generalizing carry i with
  | nil => rfl
  | cons p pairs ih =>
    cases i with
    | zero => rfl
    | succ i => exact ih _ i

end Alu

namespace Digits

open Alu

variable {d : Digits} {turn : Turn} {pairs : List (UInt8 × UInt8)} {carry : Bool}

/-- The number that bytes stand for, the least significant byte first. -/
def number (d : Digits) (bytes : List UInt8) : Nat :=
  Nat.ofDigits d.base (bytes.map d.value)

theorem number_cons (d : Digits) (v : UInt8) (bytes : List UInt8) :
    d.number (v :: bytes) = d.value v + d.base * d.number bytes :=
  Nat.ofDigits_cons

theorem number_lt {bytes : List UInt8} (h : ∀ v ∈ bytes, d.IsDigit v) :
    d.number bytes < d.base ^ bytes.length := by
  have hdigits : ∀ n ∈ bytes.map d.value, n < d.base :=
    List.forall_mem_map.mpr fun v hv => d.value_lt v (h v hv)
  have hlt := Nat.ofDigits_lt_base_pow_length d.one_lt_base hdigits
  rwa [List.length_map] at hlt

/-- All bytes are digits. -/
def Writes (d : Digits) (pairs : List (UInt8 × UInt8)) : Prop :=
  ∀ p ∈ pairs, d.IsDigit p.1 ∧ d.IsDigit p.2

/-- A turn adds digits: what it leaves, with the carry, is worth as much as what it is given. -/
structure Adds (d : Digits) (turn : Turn) : Prop where
  isDigit : ∀ {x y} carry, d.IsDigit x → d.IsDigit y → d.IsDigit (turn x y carry).1
  value : ∀ {x y} carry, d.IsDigit x → d.IsDigit y →
    d.value (turn x y carry).1 + d.base * (turn x y carry).2.carry.toNat =
      d.value x + d.value y + carry.toNat

/-- A turn subtracts digits, and borrows where they are too small. -/
structure Subtracts (d : Digits) (turn : Turn) : Prop where
  isDigit : ∀ {x y} carry, d.IsDigit x → d.IsDigit y → d.IsDigit (turn x y carry).1
  value : ∀ {x y} carry, d.IsDigit x → d.IsDigit y →
    d.value (turn x y carry).1 + d.value y + carry.toNat =
      d.value x + d.base * (turn x y carry).2.carry.toNat

/-- What is left is the sum of two numbers and a carry, as far as their bytes go, and tells by its
    carry whether they go far enough. -/
structure SumOf (d : Digits) (pairs : List (UInt8 × UInt8)) (carry : Bool) (w : Worked) : Prop where
  length : w.results.length = pairs.length
  isDigit : ∀ v ∈ w.bytes, d.IsDigit v
  number : d.number w.bytes =
    (d.number (pairs.map Prod.fst) + d.number (pairs.map Prod.snd) + carry.toNat) %
      d.base ^ pairs.length
  carry : w.carry = decide (d.base ^ pairs.length ≤
    d.number (pairs.map Prod.fst) + d.number (pairs.map Prod.snd) + carry.toNat)

/-- What is left is the difference of two numbers less a borrow, as far as their bytes go, and tells
    by its carry whether it is negative. -/
structure DifferenceOf (d : Digits) (pairs : List (UInt8 × UInt8)) (carry : Bool) (w : Worked) :
    Prop where
  length : w.results.length = pairs.length
  isDigit : ∀ v ∈ w.bytes, d.IsDigit v
  number : (d.number w.bytes : Int) =
    (d.number (pairs.map Prod.fst) - d.number (pairs.map Prod.snd) - carry.toNat) %
      (d.base ^ pairs.length : Nat)
  carry : w.carry = decide
    (d.number (pairs.map Prod.fst) < d.number (pairs.map Prod.snd) + carry.toNat)

theorem isDigit_bytes (hpairs : d.Writes pairs)
    (hturn : ∀ {x y} carry, d.IsDigit x → d.IsDigit y → d.IsDigit (turn x y carry).1)
    (carry : Bool) :
    ∀ v ∈ (chain turn pairs carry).bytes, d.IsDigit v := by
  induction pairs generalizing carry with
  | nil => exact nofun
  | cons p pairs ih =>
    obtain ⟨⟨hx, hy⟩, hrest⟩ := List.forall_mem_cons.mp hpairs
    exact List.forall_mem_cons.mpr ⟨hturn carry hx hy, ih hrest _⟩

/-- What is left of a chain, with its carry, is worth as much as what it is given. -/
theorem Adds.chain_value (h : d.Adds turn) (hpairs : d.Writes pairs) (carry : Bool) :
    d.number (chain turn pairs carry).bytes +
        d.base ^ pairs.length * (chain turn pairs carry).carry.toNat =
      d.number (pairs.map Prod.fst) + d.number (pairs.map Prod.snd) + carry.toNat := by
  induction pairs generalizing carry with
  | nil => simp [chain, Worked.bytes, number]
  | cons p pairs ih =>
    obtain ⟨x, y⟩ := p
    obtain ⟨⟨hx, hy⟩, hrest⟩ := List.forall_mem_cons.mp hpairs
    have hturn := h.value carry hx hy
    specialize ih hrest (turn x y carry).2.carry
    simp only [bytes_chain_cons, carry_chain_cons, number_cons, List.map_cons, List.length_cons,
      pow_succ]
    -- The carry that the turn leaves is worth a unit of the other bytes.
    calc
      _ = d.value (turn x y carry).1 +
          d.base * (d.number (chain turn pairs (turn x y carry).2.carry).bytes +
            d.base ^ pairs.length *
              (chain turn pairs (turn x y carry).2.carry).carry.toNat) := by ring
      _ = d.value (turn x y carry).1 + d.base * (turn x y carry).2.carry.toNat +
          d.base * (d.number (pairs.map Prod.fst) + d.number (pairs.map Prod.snd)) := by
        rw [ih]
        ring
      _ = _ := by
        rw [hturn]
        ring

/-- What is left of a chain and what it takes away are worth as much as what it takes it from, with
    what is borrowed in the end. -/
theorem Subtracts.chain_value (h : d.Subtracts turn) (hpairs : d.Writes pairs) (carry : Bool) :
    d.number (chain turn pairs carry).bytes + d.number (pairs.map Prod.snd) + carry.toNat =
      d.number (pairs.map Prod.fst) +
        d.base ^ pairs.length * (chain turn pairs carry).carry.toNat := by
  induction pairs generalizing carry with
  | nil => simp [chain, Worked.bytes, number]
  | cons p pairs ih =>
    obtain ⟨x, y⟩ := p
    obtain ⟨⟨hx, hy⟩, hrest⟩ := List.forall_mem_cons.mp hpairs
    have hturn := h.value carry hx hy
    specialize ih hrest (turn x y carry).2.carry
    simp only [bytes_chain_cons, carry_chain_cons, number_cons, List.map_cons, List.length_cons,
      pow_succ]
    calc
      _ = d.value (turn x y carry).1 + d.value y + carry.toNat +
          d.base * (d.number (chain turn pairs (turn x y carry).2.carry).bytes +
            d.number (pairs.map Prod.snd)) := by ring
      _ = d.value x +
          d.base * (d.number (chain turn pairs (turn x y carry).2.carry).bytes +
            d.number (pairs.map Prod.snd) + (turn x y carry).2.carry.toNat) := by
        rw [hturn]
        ring
      _ = _ := by
        rw [ih]
        ring

theorem eq_mod_of_add_carry {r s b : Nat} {out : Bool} (hr : r < b) (h : r + b * out.toNat = s) :
    r = s % b ∧ out = decide (b ≤ s) := by
  subst h
  cases out with
  | false => simp [Nat.mod_eq_of_lt hr, hr]
  | true => simp [Nat.mod_eq_of_lt hr]

theorem eq_emod_of_sub_borrow {r x y b : Nat} {out : Bool} (hr : r < b)
    (h : r + y + carry.toNat = x + b * out.toNat) :
    (r : Int) = ((x : Int) - y - carry.toNat) % b ∧ out = decide (x < y + carry.toNat) := by
  have hmod : (r : Int) = (r : Int) % b := (Int.emod_eq_of_lt (by omega) (by omega)).symm
  cases out with
  | false =>
    rw [Bool.toNat_false, Nat.mul_zero] at h
    have hvalue : (x : Int) - y - carry.toNat = r := by omega
    rw [hvalue]
    exact ⟨hmod, (decide_eq_false (by omega)).symm⟩
  | true =>
    rw [Bool.toNat_true, Nat.mul_one] at h
    have hvalue : (x : Int) - y - carry.toNat = r - b := by omega
    rw [hvalue, Int.sub_emod_right]
    exact ⟨hmod, (decide_eq_true (by omega)).symm⟩

theorem number_chain_lt (hpairs : d.Writes pairs)
    (hturn : ∀ {x y} carry, d.IsDigit x → d.IsDigit y → d.IsDigit (turn x y carry).1)
    (carry : Bool) :
    d.number (chain turn pairs carry).bytes < d.base ^ pairs.length := by
  have hlt := number_lt (isDigit_bytes hpairs hturn carry)
  rwa [Worked.bytes, List.length_map, length_results] at hlt

theorem Adds.sumOf (h : d.Adds turn) (hpairs : d.Writes pairs) (carry : Bool) :
    d.SumOf pairs carry (chain turn pairs carry) := by
  have hlt := number_chain_lt hpairs h.isDigit carry
  obtain ⟨hnumber, hcarry⟩ := eq_mod_of_add_carry hlt (h.chain_value hpairs carry)
  exact ⟨length_results turn pairs carry, isDigit_bytes hpairs h.isDigit carry, hnumber, hcarry⟩

theorem Subtracts.differenceOf (h : d.Subtracts turn) (hpairs : d.Writes pairs) (carry : Bool) :
    d.DifferenceOf pairs carry (chain turn pairs carry) := by
  have hlt := number_chain_lt hpairs h.isDigit carry
  obtain ⟨hnumber, hcarry⟩ := eq_emod_of_sub_borrow hlt (h.chain_value hpairs carry)
  exact ⟨length_results turn pairs carry, isDigit_bytes hpairs h.isDigit carry, hnumber, hcarry⟩

end Digits

namespace Exec

variable {β : Type} [Bus β] {s u : Circuit β} {src : Operand} {y : UInt8}

/-- With an operand that can be read, instructions cannot fail, and they do to the accumulator and
    the flags what the turn says. They change nothing else. -/
def Performs (body : Operand → Exec β Unit) (turn : Alu.Turn) : Prop :=
  ∀ src y s u, readOperand src s = .ok y u →
    body src s = .ok () { u with cpu := { u.cpu with
      regs := u.cpu.regs.setAccumulator (turn s.cpu.regs.a y s.cpu.regs.f.carry) } }

/-- To read an operand leaves the accumulator and the flags alone. -/
theorem accumulator_readOperand (h : readOperand src s = .ok y u) :
    u.cpu.regs.a = s.cpu.regs.a ∧ u.cpu.regs.f = s.cpu.regs.f := by
  cases src with
  | slot slot =>
    cases slot with
    | reg r =>
      cases h
      exact ⟨rfl, rfl⟩
    | atHl =>
      obtain ⟨b, -, rfl⟩ := onBus_eq_ok_iff.mp h
      exact ⟨rfl, rfl⟩
  | imm =>
    obtain ⟨b, -, rfl⟩ := fetch8_eq_ok_iff.mp h
    exact ⟨rfl, rfl⟩

theorem alu_performs (op : AluOp) :
    Performs (fun src => (Instr.alu op src).execute : Operand → Exec β Unit) (Alu.turn op) := by
  intro src y s u hread
  obtain ⟨ha, hf⟩ := accumulator_readOperand hread
  rw [← Alu.apply_eq_turn, ← ha, ← hf]
  exact Access.bind_eq_ok_iff.mpr ⟨y, u, hread, rfl⟩

end Exec

end Handheld
