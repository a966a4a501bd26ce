import Handheld.Memory.Bank
import Handheld.Proofs.Access

namespace Handheld.MemoryBank

variable {b t : MemoryBank} {addr : Nat} {w : UInt16}

/-- The address lies between the first byte of the bank and its end. -/
def Contains (b : MemoryBank) (addr : Nat) : Prop :=
  b.base ≤ addr ∧ addr < b.base + b.size

instance (b : MemoryBank) (addr : Nat) : Decidable (b.Contains addr) :=
  inferInstanceAs (Decidable (_ ∧ _))

theorem covers_iff_contains : b.Covers addr ↔ b.Contains addr := by
  unfold Covers Contains MemoryBank.size
  constructor
  · intro h
    omega
  · intro h
    omega

/-- Writes the bytes of a word one after the other, low byte first. -/
def writeBytes (addr : Nat) (w : UInt16) : Access MemoryBank Unit := do
  write8 addr (Word.lo w)
  write8 (addr + 1) (Word.hi w)

/-- The bank `t` is `b` but for the two bytes of a word. -/
structure Stored (b : MemoryBank) (addr : Nat) (w : UInt16) (t : MemoryBank) : Prop where
  name : t.name = b.name
  base : t.base = b.base
  size : t.size = b.size
  low : t.read8 addr = .ok (Word.lo w)
  high : t.read8 (addr + 1) = .ok (Word.hi w)
  elsewhere : ∀ x, x ≠ addr → x ≠ addr + 1 → t.read8 x = b.read8 x

theorem read8_of_covers (h : b.Covers addr) : ∃ v, b.read8 addr = .ok v := by
  have hplace := h.2
  refine ⟨b.data[addr - b.base], ?_⟩
  simp [read8, h]

theorem read8_of_not_covers (h : ¬ b.Covers addr) : b.read8 addr = .error (b.outside addr) := by
  simp [read8, h]

/-- A write leaves the bank in its place, so that it answers at the same addresses. -/
theorem place_of_write8 {v : UInt8} (h : write8 addr v b = .ok () t) :
    t.name = b.name ∧ t.base = b.base ∧ t.size = b.size := by
  by_cases hcovers : b.Covers addr
  · rw [write8_of_covers v hcovers] at h
    cases h
    exact ⟨rfl, rfl, Array.size_set hcovers.2⟩
  · rw [write8_of_not_covers v hcovers] at h
    cases h

theorem covers_of_place (hbase : t.base = b.base) (hsize : t.size = b.size) :
    t.Covers addr ↔ b.Covers addr := by
  rw [covers_iff_contains, covers_iff_contains]
  unfold Contains
  rw [hbase, hsize]

/-- Where both bytes have a place they are stored. -/
theorem writeBytes_of_covers (hlow : b.Covers addr) (hhigh : b.Covers (addr + 1)) (w : UInt16) :
    ∃ t, writeBytes addr w b = .ok () t ∧ b.Stored addr w t := by
  have hfirst := write8_of_covers (Word.lo w) hlow
  generalize { b with data := b.data.set (addr - b.base) (Word.lo w) hlow.2 } = u at hfirst
  obtain ⟨hname, hbase, hsize⟩ := place_of_write8 hfirst
  have hcovers : u.Covers (addr + 1) := (covers_of_place hbase hsize).mpr hhigh
  have hsecond := write8_of_covers (Word.hi w) hcovers
  generalize { u with data := u.data.set (addr + 1 - u.base) (Word.hi w) hcovers.2 } = t at hsecond
  obtain ⟨hname', hbase', hsize'⟩ := place_of_write8 hsecond
  have hread := read8_of_write8_eq_ok hsecond
  have hread' := read8_of_write8_eq_ok hfirst
  refine ⟨t, Access.bind_eq_ok_iff.mpr ⟨(), u, hfirst, hsecond⟩, ?_⟩
  refine ⟨hname'.trans hname, hbase'.trans hbase, hsize'.trans hsize, ?_, ?_, ?_⟩
  · rw [hread, if_neg (Nat.ne_of_lt (Nat.lt_succ_self addr)), hread', if_pos rfl]
  · rw [hread, if_pos rfl]
  · intro x hx hx'
    rw [hread, if_neg hx', hread', if_neg hx]

theorem observe_check_of_covers (h : b.Covers addr) :
    Access.observe (fun b => b.check addr) b = .ok () b :=
  Access.observe_of_ok (if_pos h)

theorem observe_check_of_not_covers (h : ¬ b.Covers addr) :
    Access.observe (fun b => b.check addr) b = .error (b.outside addr) b :=
  Access.observe_of_error (if_neg h)

theorem write16_eq (addr : Nat) (w : UInt16) :
    write16 addr w =
      (Access.observe (fun b => b.check (addr + 1)) >>= fun _ => writeBytes addr w) :=
  rfl

theorem write16_of_covers (hlow : b.Covers addr) (hhigh : b.Covers (addr + 1)) (w : UInt16) :
    ∃ t, write16 addr w b = .ok () t ∧ writeBytes addr w b = .ok () t ∧ b.Stored addr w t := by
  obtain ⟨t, hbytes, hstored⟩ := writeBytes_of_covers hlow hhigh w
  refine ⟨t, ?_, hbytes, hstored⟩
  rw [write16_eq, Access.bind_of_ok (observe_check_of_covers hhigh), hbytes]

/-- The high byte's place is looked at first, so that of two faults it is the one reported. -/
theorem write16_of_not_covers (h : ¬ (b.Covers addr ∧ b.Covers (addr + 1))) (w : UInt16) :
    write16 addr w b = .error (b.outside (if b.Covers (addr + 1) then addr else addr + 1)) b := by
  by_cases hhigh : b.Covers (addr + 1)
  · have hlow : ¬ b.Covers addr := fun hlow => h ⟨hlow, hhigh⟩
    rw [write16_eq, Access.bind_of_ok (observe_check_of_covers hhigh), if_pos hhigh]
    exact Access.bind_of_error (write8_of_not_covers (Word.lo w) hlow)
  · rw [write16_eq, Access.bind_of_error (observe_check_of_not_covers hhigh), if_neg hhigh]

theorem read16_of_bytes {lo hi : UInt8} (hlow : b.read8 addr = .ok lo)
    (hhigh : b.read8 (addr + 1) = .ok hi) : b.read16 addr = .ok (Word.ofBytes hi lo) := by
  unfold read16
  rw [hlow, hhigh]
  rfl

theorem Stored.read16 (h : b.Stored addr w t) : t.read16 addr = .ok w := by
  rw [read16_of_bytes h.low h.high, Word.ofBytes_hi_lo]

theorem read16_of_covers (hlow : b.Covers addr) (hhigh : b.Covers (addr + 1)) :
    ∃ v, b.read16 addr = .ok v ∧
      b.read8 addr = .ok (Word.lo v) ∧ b.read8 (addr + 1) = .ok (Word.hi v) := by
  obtain ⟨lo, hlo⟩ := read8_of_covers hlow
  obtain ⟨hi, hhi⟩ := read8_of_covers hhigh
  refine ⟨Word.ofBytes hi lo, read16_of_bytes hlo hhi, ?_, ?_⟩
  · rw [Word.lo_ofBytes, hlo]
  · rw [Word.hi_ofBytes, hhi]

/-- The low byte is read first, so that of two faults it is the one reported. -/
theorem read16_of_not_covers (h : ¬ (b.Covers addr ∧ b.Covers (addr + 1))) :
    b.read16 addr = .error (b.outside (if b.Covers addr then addr + 1 else addr)) := by
  by_cases hlow : b.Covers addr
  · have hhigh : ¬ b.Covers (addr + 1) := fun hhigh => h ⟨hlow, hhigh⟩
    obtain ⟨lo, hlo⟩ := read8_of_covers hlow
    rw [read16, hlo, read8_of_not_covers hhigh, if_pos hlow]
    rfl
  · rw [read16, read8_of_not_covers hlow, if_neg hlow]
    rfl

/-- What a bank does with a word. Reading is a look at the bank and gives no other bank back. -/
structure HandlesWord (b : MemoryBank) (addr : Nat) (w : UInt16) : Prop where
  written : b.Contains addr ∧ b.Contains (addr + 1) → ∃ t, write16 addr w b = .ok () t ∧
    t.read16 addr = .ok w ∧ writeBytes addr w b = .ok () t ∧ b.Stored addr w t
  unwritten : ¬ (b.Contains addr ∧ b.Contains (addr + 1)) → write16 addr w b =
    .error (.bankOutOfBounds b.name (if b.Contains (addr + 1) then addr else addr + 1) b.base
      b.size) b
  read : b.Contains addr ∧ b.Contains (addr + 1) → ∃ v, b.read16 addr = .ok v ∧
    b.read8 addr = .ok (Word.lo v) ∧ b.read8 (addr + 1) = .ok (Word.hi v)
  unread : ¬ (b.Contains addr ∧ b.Contains (addr + 1)) → b.read16 addr =
    .error (.bankOutOfBounds b.name (if b.Contains addr then addr + 1 else addr) b.base b.size)

/-- A bank of any size in any place writes and reads exactly the words that lie in it with both
    bytes, and stays as it was when it refuses one. -/
theorem words_whole (b : MemoryBank) (addr : Nat) (w : UInt16) : b.HandlesWord addr w := by
  refine ⟨?_, ?_, ?_, ?_⟩ <;> simp only [← covers_iff_contains]
  · rintro ⟨hlow, hhigh⟩
    obtain ⟨t, hwrite, hbytes, hstored⟩ := write16_of_covers hlow hhigh w
    exact ⟨t, hwrite, hstored.read16, hbytes, hstored⟩
  · intro hmissing
    exact write16_of_not_covers hmissing w
  · rintro ⟨hlow, hhigh⟩
    exact read16_of_covers hlow hhigh
  · intro hmissing
    exact read16_of_not_covers hmissing

/-- Either end of a bank of one byte refuses a word that reaches over it. -/
example : (zeroed "one" 1 5).read16 4 = .error (.bankOutOfBounds "one" 4 5 1) ∧
    (zeroed "one" 1 5).read16 5 = .error (.bankOutOfBounds "one" 6 5 1) :=
  ⟨rfl, rfl⟩

end Handheld.MemoryBank
