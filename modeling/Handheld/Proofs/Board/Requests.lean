import Handheld.Board.Time
import Handheld.Proofs.Board.WellFormed

namespace Handheld

namespace Interrupts

/-- A source of interrupts. -/
inductive Source
  | vblank | lcdStat | timer | serial | joypad
  deriving DecidableEq, Repr, Inhabited

def has (s : Interrupts) : Source → Bool
  | .vblank => s.vblank
  | .lcdStat => s.lcdStat
  | .timer => s.timer
  | .serial => s.serial
  | .joypad => s.joypad

/-- The bit of a source. -/
def Source.mask : Source → UInt8
  | .vblank => 0x01
  | .lcdStat => 0x02
  | .timer => 0x04
  | .serial => 0x08
  | .joypad => 0x10

theorem has_ofByte (b : UInt8) (x : Source) : (ofByte b).has x = (b &&& x.mask != 0) := by
  cases x <;> rfl

theorem toByte_and_mask (s : Interrupts) (x : Source) :
    s.toByte &&& x.mask = if s.has x then x.mask else 0 := by
  rcases s with ⟨_ | _, _ | _, _ | _, _ | _, _ | _⟩ <;> cases x <;> rfl

theorem toByte_and_one (s : Interrupts) : s.toByte &&& 0x01 = if s.vblank then 0x01 else 0 :=
  s.toByte_and_mask .vblank

theorem has_ofByte_and_toByte (b : UInt8) (s : Interrupts) (x : Source) :
    (ofByte (b &&& s.toByte)).has x = ((ofByte b).has x && s.has x) := by
  rw [has_ofByte, has_ofByte, UInt8.and_assoc, toByte_and_mask]
  cases s.has x with
  | true => rw [if_pos rfl, Bool.and_true]
  | false =>
    rw [if_neg Bool.false_ne_true, UInt8.and_zero, Bool.and_false]
    rfl

/-- Clearing bit 0 takes v-blank out of a set, and nothing else. -/
theorem has_ofByte_acknowledged (s : Interrupts) (x : Source) :
    (ofByte (s.toByte &&& 0xFE)).has x = (x != .vblank && s.has x) := by
  rcases s with ⟨_ | _, _ | _, _ | _, _ | _, _ | _⟩ <;> cases x <;> rfl

theorem isEmpty_iff {s : Interrupts} : s.isEmpty = true ↔ ∀ x, s.has x = false := by
  simp only [isEmpty, Bool.not_eq_true', Bool.or_eq_false_iff]
  constructor
  · rintro ⟨⟨⟨⟨hvblank, hlcdStat⟩, htimer⟩, hserial⟩, hjoypad⟩ x
    cases x <;> assumption
  · intro h
    exact ⟨⟨⟨⟨h .vblank, h .lcdStat⟩, h .timer⟩, h .serial⟩, h .joypad⟩

/-- A byte names no source if its low five bits are zero. -/
theorem isEmpty_ofByte_iff {b : UInt8} : (ofByte b).isEmpty = true ↔ b &&& 0x1F = 0 := by
  have hbits : b &&& 0x1F =
      (b &&& 0x01) ||| (b &&& 0x02) ||| (b &&& 0x04) ||| (b &&& 0x08) ||| (b &&& 0x10) := by
    apply UInt8.toBitVec_inj.mp
    simp only [UInt8.toBitVec_and, UInt8.toBitVec_or, ← BitVec.and_or_distrib_left]
    rfl
  simp only [isEmpty, ofByte, hbits, UInt8.or_eq_zero_iff, Bool.not_eq_true', Bool.or_eq_false_iff,
    bne_eq_false_iff_eq]

end Interrupts

theorem IoRegister.of_eq_interruptRequest_iff {addr : UInt16} :
    IoRegister.of addr = .interruptRequest ↔ addr = Interrupts.requestAddr :=
  of_eq_iff (y := Interrupts.requestAddr) (by decide)

namespace Board

open Interrupts (Source)

variable {b t : Board} {addr : UInt16} {v : UInt8}

/-- A write leaves the requests alone unless it goes to their register, which it then sets. -/
theorem Change.requested (h : Change addr v b t) :
    t.requested = b.requested ∨ addr = Interrupts.requestAddr ∧ t.requested = .ofByte v := by
  cases h with
  | register =>
    by_cases haddr : addr = Interrupts.requestAddr
    · subst haddr
      exact .inr ⟨rfl, rfl⟩
    · refine .inl ?_
      have hreg := mt IoRegister.of_eq_interruptRequest_iff.mp haddr
      cases hof : IoRegister.of addr with
      | interruptRequest => exact absurd hof hreg
      | _ => rfl
  | _ => exact .inl rfl

theorem advance_requested (b : Board) (cycles : Nat) (x : Source) (h : b.requested.has x = true) :
    (b.advance cycles).1.requested.has x = true := by
  cases x with
  | vblank =>
    change (b.requested.vblank || _) = true
    have hvblank : b.requested.vblank = true := h
    rw [hvblank]
    rfl
  | timer =>
    change (b.requested.timer || _) = true
    have htimer : b.requested.timer = true := h
    rw [htimer]
    rfl
  | lcdStat | serial | joypad => exact h

/-- Nothing calls the processor: no source is both enabled and requested. -/
def Quiet (b : Board) : Prop :=
  b.enabled &&& b.requested.toByte &&& 0x1F = 0

instance (b : Board) : Decidable b.Quiet :=
  inferInstanceAs (Decidable (_ = _))

theorem quiet_iff_isEmpty :
    b.Quiet ↔ (Interrupts.ofByte (b.enabled &&& b.requested.toByte)).isEmpty = true :=
  Interrupts.isEmpty_ofByte_iff.symm

theorem quiet_iff :
    b.Quiet ↔ ∀ x, b.requested.has x = true → (Interrupts.ofByte b.enabled).has x = false := by
  simp only [quiet_iff_isEmpty, Interrupts.isEmpty_iff, Interrupts.has_ofByte_and_toByte,
    Bool.and_eq_false_iff]
  refine forall_congr' fun x => ?_
  cases b.requested.has x with
  | true => simp
  | false => simp

theorem quiet_of_disabled (h : b.enabled = 0) : b.Quiet := by
  rw [Quiet, h, UInt8.zero_and, UInt8.zero_and]

/-- What is quiet after some time has been quiet before it. -/
theorem Quiet.of_advance {n : Nat} (h : (b.advance n).1.Quiet) : b.Quiet :=
  quiet_iff.mpr fun x hx => quiet_iff.mp h x (b.advance_requested n x hx)

end Board

end Handheld
