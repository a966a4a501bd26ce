import Handheld.Proofs.Cpu.Binary
import Handheld.Proofs.Cpu.Flat

namespace Handheld

/-- A word displaced by a byte in two's complement. -/
theorem Word.toNat_add_signExtend (w : UInt16) (e : UInt8) :
    ((w + signExtend e).toNat : Int) = (w.toNat + e.toInt8.toInt) % 65536 := by
  have hw := w.toNat_lt
  have he := e.toNat_lt
  have hsigned : e.toInt8.toInt = if e.toNat < 128 then (e.toNat : Int) else e.toNat - 256 := by
    change e.toBitVec.toInt = _
    rw [BitVec.toInt_eq_toNat_cond, UInt8.toNat_toBitVec]
    split <;> split <;> omega
  have hextended : (signExtend e).toNat = if e.toNat < 128 then e.toNat else e.toNat + 65280 := by
    unfold signExtend
    simp only [UInt8.lt_iff_toNat_lt, UInt8.reduceToNat]
    split
    · exact UInt8.toNat_toUInt16 e
    · simp only [UInt16.toNat_add, UInt8.toNat_toUInt16, UInt16.reduceToNat]
      omega
  rw [UInt16.toNat_add, hextended, hsigned]
  split <;> omega

namespace Alu

/-- The sum of two words as the accumulator forms it, flags included: the low bytes are added first,
    and then the high bytes with the carry. -/
def addBytes (x y : UInt16) (f : Flags) : UInt16 × Flags :=
  let low := apply .add (Word.lo x) f (Word.lo y)
  let high := apply .adc (Word.hi x) low.2 (Word.hi y)
  (Word.ofBytes high.1 low.1, high.2)

variable (x y : UInt16) (f : Flags)

/-- What the low bytes carry over to the high bytes. -/
theorem toNat_carry_low : (add (Word.lo x) (Word.lo y) false).2.carry.toNat =
    (x.toNat % 256 + y.toNat % 256) / 256 := by
  simp only [add, toNat_decide, Word.toNat_lo, Bool.toNat_false]
  split <;> omega

theorem addBytes_fst : (addBytes x y f).1 = x + y := by
  have hlow := add_value (Word.lo x) (Word.lo y) false
  have hhigh := add_value (Word.hi x) (Word.hi y) (add (Word.lo x) (Word.lo y) false).2.carry
  have hlow_lt := (add (Word.lo x) (Word.lo y) false).1.toNat_lt
  have hhigh_lt :=
    (add (Word.hi x) (Word.hi y) (add (Word.lo x) (Word.lo y) false).2.carry).1.toNat_lt
  rw [Word.toNat_lo, Word.toNat_lo, Bool.toNat_false] at hlow
  rw [Word.toNat_hi, Word.toNat_hi] at hhigh
  apply UInt16.toNat.inj
  rw [UInt16.toNat_add]
  change (Word.ofBytes (add (Word.hi x) (Word.hi y) (add (Word.lo x) (Word.lo y) false).2.carry).1
    (add (Word.lo x) (Word.lo y) false).1).toNat = _
  rw [Word.toNat_ofBytes]
  -- Both carries are worth a unit of the next byte, of which the word has no third.
  omega

theorem halfCarry_addBytes : (addBytes x y f).2.halfCarry = (addWord x y f).2.halfCarry := by
  change decide (16 ≤ (Word.hi x).toNat % 16 + (Word.hi y).toNat % 16 +
      (add (Word.lo x) (Word.lo y) false).2.carry.toNat) =
    decide (0x1000 ≤ x.toNat % 0x1000 + y.toNat % 0x1000)
  rw [toNat_carry_low, Word.toNat_hi, Word.toNat_hi, decide_eq_decide]
  omega

theorem carry_addBytes : (addBytes x y f).2.carry = (addWord x y f).2.carry := by
  change decide (256 ≤ (Word.hi x).toNat + (Word.hi y).toNat +
      (add (Word.lo x) (Word.lo y) false).2.carry.toNat) =
    decide (0x10000 ≤ x.toNat + y.toNat)
  rw [toNat_carry_low, Word.toNat_hi, Word.toNat_hi, decide_eq_decide]
  omega

/-- A word that is added to `HL` in registers `r` gives `t`, with the sum and the carries of the
    accumulator. The zero flag is none of those that it leaves. -/
structure AddsWord (v : UInt16) (r t : Registers) : Prop where
  hl : t.hl = (addBytes r.hl v r.f).1
  halfCarry : t.f.halfCarry = (addBytes r.hl v r.f).2.halfCarry
  carry : t.f.carry = (addBytes r.hl v r.f).2.carry
  zero : t.f.zero = r.f.zero
  subtract : t.f.subtract = false

/-- The displacement of `base` by the signed byte `e` gives `w` and leaves the flags `g`, where `f`
    were set. The carries are those of the accumulator for the low byte. -/
structure Displaces (base : UInt16) (e : UInt8) (f : Flags) (w : UInt16) (g : Flags) : Prop where
  value : (w.toNat : Int) = (base.toNat + e.toInt8.toInt) % 65536
  halfCarry : g.halfCarry = (apply .add (Word.lo base) f e).2.halfCarry
  carry : g.carry = (apply .add (Word.lo base) f e).2.carry
  zero : g.zero = false
  subtract : g.subtract = false

theorem addOffset_displaces (base : UInt16) (e : UInt8) (f : Flags) :
    Displaces base e f (addOffset base e).1 (addOffset base e).2 where
  value := Word.toNat_add_signExtend base e
  halfCarry := by
    change decide (16 ≤ base.toNat % 16 + e.toNat % 16) =
      decide (16 ≤ (Word.lo base).toNat % 16 + e.toNat % 16 + 0)
    rw [Word.toNat_lo, decide_eq_decide]
    omega
  carry := by
    change decide (256 ≤ base.toNat % 256 + e.toNat) =
      decide (256 ≤ (Word.lo base).toNat + e.toNat + 0)
    rw [Word.toNat_lo, decide_eq_decide]
    omega
  zero := rfl
  subtract := rfl

end Alu

namespace Exec

open Alu

variable {β : Type} [Bus β] {s u : Circuit β} {e : UInt8}

theorem addHl_addsWord (reg : Reg16) (s : Circuit β) :
    ∃ t, (Instr.addHl reg).execute s = .ok () t ∧
      AddsWord (s.cpu.regs.getWord reg) s.cpu.regs t.cpu.regs := by
  let v := s.cpu.regs.getWord reg
  have hsum :
      (addWord s.cpu.regs.hl v s.cpu.regs.f).1 = (addBytes s.cpu.regs.hl v s.cpu.regs.f).1 :=
    (addBytes_fst s.cpu.regs.hl v s.cpu.regs.f).symm
  refine ⟨_, rfl, ?_, ?_, ?_, rfl, rfl⟩
  · exact (Word.ofBytes_hi_lo _).trans hsum
  · exact (halfCarry_addBytes s.cpu.regs.hl v s.cpu.regs.f).symm
  · exact (carry_addBytes s.cpu.regs.hl v s.cpu.regs.f).symm

/-- Reading the byte after the opcode leaves the stack pointer and the flags alone. -/
theorem pointer_fetch8 (h : fetch8 s = .ok e u) :
    u.cpu.regs.sp = s.cpu.regs.sp ∧ u.cpu.regs.f = s.cpu.regs.f := by
  obtain ⟨b, -, rfl⟩ := fetch8_eq_ok_iff.mp h
  exact ⟨rfl, rfl⟩

theorem addSpOffset_displaces (h : fetch8 s = .ok e u) :
    ∃ t, Instr.addSpOffset.execute s = .ok () t ∧
      Displaces s.cpu.regs.sp e s.cpu.regs.f t.cpu.regs.sp t.cpu.regs.f := by
  obtain ⟨hsp, -⟩ := pointer_fetch8 h
  refine ⟨_, Access.bind_eq_ok_iff.mpr ⟨e, u, h, rfl⟩, ?_⟩
  rw [← hsp]
  exact addOffset_displaces u.cpu.regs.sp e s.cpu.regs.f

theorem ldHlSpOffset_displaces (h : fetch8 s = .ok e u) :
    ∃ t, Instr.ldHlSpOffset.execute s = .ok () t ∧
      Displaces s.cpu.regs.sp e s.cpu.regs.f t.cpu.regs.hl t.cpu.regs.f := by
  obtain ⟨hsp, -⟩ := pointer_fetch8 h
  have hdisplaces := addOffset_displaces u.cpu.regs.sp e s.cpu.regs.f
  rw [← Word.ofBytes_hi_lo (addOffset u.cpu.regs.sp e).1] at hdisplaces
  refine ⟨_, Access.bind_eq_ok_iff.mpr ⟨e, u, h, rfl⟩, ?_⟩
  rw [← hsp]
  exact hdisplaces

/-- The instructions that add words agree with the accumulator. A pair or the stack pointer is added
    to `HL` as the accumulator would add it byte by byte, also if it is `HL` itself, and a
    displacement of the stack pointer carries as its low byte does. They cannot fail once their
    operand has been read. -/
theorem word_sums_bytewise (s : Circuit β) :
    (∀ reg, ∃ t, (Instr.addHl reg).execute s = .ok () t ∧
      AddsWord (s.cpu.regs.getWord reg) s.cpu.regs t.cpu.regs) ∧
    ∀ e u, fetch8 s = .ok e u →
      (∃ t, Instr.addSpOffset.execute s = .ok () t ∧
        Displaces s.cpu.regs.sp e s.cpu.regs.f t.cpu.regs.sp t.cpu.regs.f) ∧
      ∃ t, Instr.ldHlSpOffset.execute s = .ok () t ∧
        Displaces s.cpu.regs.sp e s.cpu.regs.f t.cpu.regs.hl t.cpu.regs.f := by
  constructor
  · intro reg
    exact addHl_addsWord reg s
  · intro e u hfetch
    exact ⟨addSpOffset_displaces hfetch, ldHlSpOffset_displaces hfetch⟩

/-- A processor about to take the stack pointer three bytes down, past the start of the memory. -/
def descending : Circuit FlatMemory :=
  ⟨{ regs := { h := 0x8F, l := 0x80, sp := 0x0002 } }, FlatMemory.set {} 0x0000 0xFD⟩

/-- Doubling `HL` carries out of both bytes; the stack pointer wraps around without any carry. -/
theorem word_sums_bytewise_descending :
    (∃ t, (Instr.addHl .hl).execute descending = .ok () t ∧ t.cpu.regs.hl = 0x1F00 ∧
      t.cpu.regs.f.halfCarry = true ∧ t.cpu.regs.f.carry = true) ∧
    (∃ u, fetch8 descending = .ok 0xFD u) ∧
    ∃ t, Instr.addSpOffset.execute descending = .ok () t ∧ t.cpu.regs.sp = 0xFFFF ∧
      t.cpu.regs.f.halfCarry = false ∧ t.cpu.regs.f.carry = false := by
  have hbyte : descending.bus.get 0x0000 = 0xFD := FlatMemory.get_set _ _ _ _
  have hread : Bus.read8 descending.cpu.regs.pc descending.bus =
      .ok 0xFD (descending.bus.note (.read 0x0000)) :=
    FlatMemory.read8_eq_ok_iff.mpr ⟨rfl, hbyte.symm, rfl⟩
  have hu := fetch8_eq_ok_iff.mpr ⟨_, hread, rfl⟩
  obtain ⟨hadds, hdisplaces⟩ := word_sums_bytewise descending
  obtain ⟨t, ht, hsum⟩ := hadds .hl
  obtain ⟨⟨t', ht', hsp⟩, -⟩ := hdisplaces 0xFD _ hu
  refine ⟨⟨t, ht, ?_, ?_, ?_⟩, ⟨_, hu⟩, t', ht', ?_, ?_, ?_⟩
  · rw [hsum.hl]
    decide
  · rw [hsum.halfCarry]
    decide
  · rw [hsum.carry]
    decide
  · have hvalue : (t'.cpu.regs.sp.toNat : Int) = 65535 := hsp.value
    apply UInt16.toNat.inj
    change t'.cpu.regs.sp.toNat = 65535
    omega
  · rw [hsp.halfCarry]
    decide
  · rw [hsp.carry]
    decide

end Exec

end Handheld
