import Handheld.Proofs.Cpu.Entry
import Handheld.Proofs.Cpu.Transport

namespace Handheld

namespace FlatMemory

variable {m t : FlatMemory} {addr : UInt16} {v : UInt8}

/-- No address refuses to be read or written. -/
def Faultless (m : FlatMemory) : Prop :=
  (∀ addr, m.readFaults addr = false) ∧ ∀ addr, m.writeFaults addr = false

/-- The memory without its faults. -/
def plain (m : FlatMemory) : FlatMemory :=
  { m with readFaults := fun _ => false, writeFaults := fun _ => false }

theorem Faultless.plain_eq (h : m.Faultless) : m.plain = m := by
  obtain ⟨bytes, readFaults, writeFaults, journal, notices⟩ := m
  obtain rfl : readFaults = fun _ => false := funext h.1
  obtain rfl : writeFaults = fun _ => false := funext h.2
  rfl

/-- The word at an address, low byte first. -/
def word (m : FlatMemory) (addr : UInt16) : UInt16 :=
  Word.ofBytes (m.get (addr + 1)) (m.get addr)

/-- The bytes of a word, each with its address, in the order in which they are written. -/
def wordBytes (addr w : UInt16) : List (UInt16 × UInt8) :=
  [(addr, Word.lo w), (addr + 1, Word.hi w)]

/-- The memory after some bytes have been put at their addresses, one after the other. -/
def written (stores : List (UInt16 × UInt8)) (m : FlatMemory) : FlatMemory :=
  { m with bytes := stores.foldl (fun bytes p => bytes.set p.1.toNat p.2 p.1.toNat_lt) m.bytes }

theorem written_cons (p : UInt16 × UInt8) (stores : List (UInt16 × UInt8)) (m : FlatMemory) :
    written (p :: stores) m = written stores (m.set p.1 p.2) := rfl

/-- Other bytes are not touched. -/
theorem get_written {stores : List (UInt16 × UInt8)} (h : addr ∉ stores.map Prod.fst)
    (m : FlatMemory) : (m.written stores).get addr = m.get addr := by
  induction stores generalizing m with
  | nil => rfl
  | cons p stores ih =>
    rw [List.map_cons, List.mem_cons, not_or] at h
    rw [written_cons, ih h.2, get_set, if_neg (Ne.symm h.1)]

theorem succ_ne (addr : UInt16) : addr + 1 ≠ addr := by
  rw [Ne, ← UInt16.toNat_inj, UInt16.toNat_add]
  have := addr.toNat_lt
  simp only [UInt16.toNat_one]
  omega

theorem word_written (addr w : UInt16) (m : FlatMemory) :
    (m.written (wordBytes addr w)).word addr = w := by
  have hnext := succ_ne addr
  unfold word wordBytes
  simp only [written_cons]
  change Word.ofBytes (((m.set addr (Word.lo w)).set (addr + 1) (Word.hi w)).get (addr + 1))
    (((m.set addr (Word.lo w)).set (addr + 1) (Word.hi w)).get addr) = w
  rw [get_set, if_pos rfl, get_set, if_neg hnext, get_set, if_pos rfl, Word.ofBytes_hi_lo]

theorem get_congr {m m' : FlatMemory} (h : m'.bytes = m.bytes) (addr : UInt16) :
    m'.get addr = m.get addr := by
  simp only [get, h]

theorem word_congr {m m' : FlatMemory} (h : m'.bytes = m.bytes) (addr : UInt16) :
    m'.word addr = m.word addr := by
  simp only [word, get_congr h]

theorem read8_eq_ok_iff : (Bus.read8 addr : Access FlatMemory UInt8) m = .ok v t ↔
    m.readFaults addr = false ∧ v = m.get addr ∧ t = m.note (.read addr) := by
  change (if m.readFaults addr = true then EStateM.Result.error _ _ else .ok _ _) = _ ↔ _
  cases m.readFaults addr <;> simp [eq_comm]

theorem eq_of_read8_error {e : Fault}
    (h : (Bus.read8 addr : Access FlatMemory UInt8) m = .error e t) : t = m := by
  change (if m.readFaults addr = true then EStateM.Result.error _ _ else .ok _ _) = _ at h
  split at h <;> cases h
  rfl

theorem write8_eq_ok_iff : (Bus.write8 addr v : Access FlatMemory Unit) m = .ok () t ↔
    m.writeFaults addr = false ∧ t = (m.set addr v).note (.write addr v) := by
  change (if m.writeFaults addr = true then EStateM.Result.error _ _ else .ok _ _) = _ ↔ _
  cases m.writeFaults addr <;> simp [eq_comm]

theorem eq_of_write8_error {e : Fault}
    (h : (Bus.write8 addr v : Access FlatMemory Unit) m = .error e t) : t = m := by
  change (if m.writeFaults addr = true then EStateM.Result.error _ _ else .ok _ _) = _ at h
  split at h <;> cases h
  rfl

/-- Reads and reports change no byte. -/
theorem bytes_readStable (bytes : Vector UInt8 65536) :
    Bus.ReadStable fun m : FlatMemory => m.bytes = bytes := by
  have hread addr : Access.Preserves (fun m : FlatMemory => m.bytes = bytes) (Bus.read8 addr) := by
    intro m hm
    cases h : (Bus.read8 addr : Access FlatMemory UInt8) m with
    | ok v t =>
      obtain ⟨-, -, rfl⟩ := read8_eq_ok_iff.mp h
      exact Access.after_of_ok h ▸ hm
    | error e t =>
      rw [Access.after_of_error h, eq_of_read8_error h, hm]
  exact {
    report := fun _ _ h => h
    read8 := hread
    read16 := fun addr => (hread addr).bind fun _ => (hread (addr + 1)).bind fun _ _ h => h }

/-- What succeeds succeeds without the faults as well. -/
def Unhindered {α : Type} (access : Access FlatMemory α) : Prop :=
  ∀ ⦃m t : FlatMemory⦄ ⦃a : α⦄, access m = .ok a t → access m.plain = .ok a t.plain

theorem Unhindered.bind {α γ : Type} {x : Access FlatMemory α} {f : α → Access FlatMemory γ}
    (hx : Unhindered x) (hf : ∀ a, Unhindered (f a)) : Unhindered (x >>= f) := by
  intro m t c h
  obtain ⟨a, u, hxm, hfu⟩ := Access.bind_eq_ok_iff.mp h
  exact Access.bind_eq_ok_iff.mpr ⟨a, u.plain, hx hxm, hf a hfu⟩

theorem Unhindered.pure {α : Type} (a : α) : Unhindered (pure a) := by
  intro m t b h
  cases h
  rfl

theorem read8_unhindered (addr : UInt16) : Unhindered (Bus.read8 addr) := by
  intro m t v h
  obtain ⟨-, rfl, rfl⟩ := read8_eq_ok_iff.mp h
  rfl

theorem write8_unhindered (addr : UInt16) (v : UInt8) : Unhindered (Bus.write8 addr v) := by
  intro m t _ h
  obtain ⟨-, rfl⟩ := write8_eq_ok_iff.mp h
  rfl

theorem read16_unhindered (addr : UInt16) : Unhindered (Bus.read16 addr) :=
  (read8_unhindered addr).bind fun _ => (read8_unhindered (addr + 1)).bind fun _ => .pure _

theorem write16_unhindered (addr w : UInt16) : Unhindered (Bus.write16 addr w) :=
  (write8_unhindered addr _).bind fun _ => write8_unhindered (addr + 1) _

end FlatMemory

namespace Exec

open FlatMemory

variable {K : (Cpu → Cpu) → Prop} {α : Type} {act : Exec FlatMemory α} {s t w : Circuit FlatMemory}
  {a : α}

theorem onBus_plain {access : Access FlatMemory α} (haccess : Unhindered access)
    (h : onBus access s = .ok a t) : onBus access (s.map plain) = .ok a (t.map plain) := by
  obtain ⟨b, hb, rfl⟩ := onBus_eq_ok_iff.mp h
  exact onBus_eq_ok_iff.mpr ⟨b.plain, haccess hb, rfl⟩

private theorem bind_plain {γ : Type} {x : Exec FlatMemory γ} {f : γ → Exec FlatMemory α}
    (hx : ∀ {c u}, x s = .ok c u → x (s.map plain) = .ok c (u.map plain))
    (hf : ∀ {c u}, f c u = .ok a t → f c (u.map plain) = .ok a (t.map plain))
    (h : (x >>= f) s = .ok a t) : (x >>= f) (s.map plain) = .ok a (t.map plain) := by
  obtain ⟨c, u, hxs, hfu⟩ := Access.bind_eq_ok_iff.mp h
  exact Access.bind_eq_ok_iff.mpr ⟨c, u.map plain, hx hxs, hf hfu⟩

theorem Local.plain (h : Local K act) (hact : act s = .ok a t) :
    act (s.map plain) = .ok a (t.map plain) := by
  induction h generalizing s t with
  | pure | cpu | regs | modifyRegs | modifyCpu | report =>
    cases hact
    rfl
  | bind _ _ ihx ihf => exact bind_plain ihx (ihf _) hact

theorem Reading.plain (h : Reading K act) (hact : act s = .ok a t) :
    act (s.map plain) = .ok a (t.map plain) := by
  induction h generalizing s t with
  | ofLocal h => exact h.plain hact
  | throw => cases hact
  | read8 addr => exact onBus_plain (read8_unhindered addr) hact
  | read16 addr => exact onBus_plain (read16_unhindered addr) hact
  | bind _ _ ihx ihf => exact bind_plain ihx (ihf _) hact

/-- What an instruction does with faults in the way, if it succeeds, it does without them. -/
theorem Orderly.plain (h : Orderly K act) (hact : act s = .ok a t) :
    act (s.map plain) = .ok a (t.map plain) := by
  induction h generalizing s t with
  | ofReading h => exact h.plain hact
  | write8 addr v => exact onBus_plain (write8_unhindered addr v) hact
  | write16 addr w => exact onBus_plain (write16_unhindered addr w) hact
  | before hx _ ihf => exact bind_plain hx.plain (ihf _) hact
  | after _ hf ihx => exact bind_plain ihx (hf _).plain hact

theorem work_plain {n : Nat} (h : work s = .ok n t) : work (s.map plain) = .ok n (t.map plain) :=
  (work_orderly s.cpu.halted).plain (s := began s) h

theorem Reading.bytes_after (h : Reading K act) (s : Circuit FlatMemory) :
    (Access.after act s).bus.bytes = s.bus.bytes :=
  h.preserves (P := fun _ (m : FlatMemory) => m.bytes = s.bus.bytes)
    ⟨fun _ _ _ h => h, fun _ _ _ _ h => h⟩ (fun _ => bytes_readStable _) s rfl

/-- An instruction that fails leaves each byte as it was or as it would be without faults. -/
theorem Orderly.get_of_error {e : Fault} (h : Orderly K act) (herror : act s = .error e t)
    (hplain : act (s.map FlatMemory.plain) = .ok a w) (addr : UInt16) :
    t.bus.get addr = s.bus.get addr ∨ t.bus.get addr = w.bus.get addr := by
  induction h generalizing s t w with
  | ofReading h =>
    exact .inl (get_congr (Access.after_of_error herror ▸ h.bytes_after s) addr)
  | write8 x v =>
    obtain ⟨b, hb, rfl⟩ := onBus_eq_error_iff.mp herror
    exact .inl (congrArg (get · addr) (eq_of_write8_error hb))
  | write16 x v =>
    obtain ⟨b, hb, rfl⟩ := onBus_eq_error_iff.mp herror
    obtain hlow | ⟨_, m, hlow, hhigh⟩ := Access.bind_eq_error_iff.mp hb
    · exact .inl (congrArg (get · addr) (eq_of_write8_error hlow))
    · -- The low byte is written, and the high byte elsewhere.
      obtain ⟨-, rfl⟩ := write8_eq_ok_iff.mp hlow
      obtain rfl := eq_of_write8_error hhigh
      cases hplain
      by_cases hx : x = addr
      · right
        subst hx
        change (s.bus.set x (Word.lo v)).get x =
          ((s.bus.set x (Word.lo v)).set (x + 1) (Word.hi v)).get x
        rw [get_set _ (x + 1), if_neg (succ_ne x)]
      · exact .inl ((get_set s.bus x addr (Word.lo v)).trans (if_neg hx))
  | before hx _ ihf =>
    have hread := hx.bytes_after s
    obtain hxs | ⟨c, u, hxs, hfu⟩ := Access.bind_eq_error_iff.mp herror
    · exact .inl (get_congr (Access.after_of_error hxs ▸ hread) addr)
    · rw [Access.after_of_ok hxs] at hread
      obtain ⟨c', u', hxp, hfp⟩ := Access.bind_eq_ok_iff.mp hplain
      rw [hx.plain hxs] at hxp
      cases hxp
      rw [← get_congr hread]
      exact ihf c hfu hfp
  | after _ hf ihx =>
    obtain hxs | ⟨c, u, -, hfu⟩ := Access.bind_eq_error_iff.mp herror
    · obtain ⟨c, u, hxp, hfu⟩ := Access.bind_eq_ok_iff.mp hplain
      have hlocal := (Reading.ofLocal (hf c)).bytes_after u
      rw [Access.after_of_ok hfu] at hlocal
      rw [get_congr hlocal]
      exact ihx hxs hxp
    · obtain ⟨_, _, hok⟩ := (hf c).succeeds u
      rw [hok] at hfu
      cases hfu

/-- Where no access is refused it is settled whether the routine is entered. -/
theorem dispatch_of_faultless (h : w.bus.Faultless) : ∃ entered t, dispatch w = .ok entered t := by
  obtain ⟨cpu, m⟩ := w
  have hplain : m.plain = m := h.plain_eq
  rw [← hplain]
  cases hime : cpu.regs.ime with
  | false => exact ⟨false, _, dispatch_eq_ok_false_iff.mpr (.inl ⟨hime, rfl⟩)⟩
  | true =>
    obtain ⟨sources, u, hpending⟩ : ∃ sources u,
        pending (⟨cpu, m.plain⟩ : Circuit FlatMemory) = .ok sources u := ⟨_, _, rfl⟩
    cases hvblank : sources.vblank with
    | false =>
      exact ⟨false, u, dispatch_eq_ok_false_iff.mpr (.inr ⟨hime, sources, hpending, hvblank⟩)⟩
    | true =>
      cases hpending
      exact ⟨true, _, dispatch_eq_ok_true_iff.mpr ⟨hime, _, _, rfl, hvblank, rfl⟩⟩

/-- Looking at `IE` and `IF` leaves a trace in the journal and nothing else. -/
theorem Looks.flat (h : Looks w t) :
    t.cpu = w.cpu ∧ t.bus.bytes = w.bus.bytes ∧
      ∃ looks, (looks = [] ∨ looks = [Interrupts.enableAddr, Interrupts.requestAddr]) ∧
        t.bus.journal = (looks.map BusCall.read).foldl Array.push w.bus.journal := by
  refine ⟨h.cpu, ?_⟩
  obtain rfl | ⟨enabled, b, requested, b', henabled, hrequested, rfl⟩ := h
  · exact ⟨rfl, [], .inl rfl, rfl⟩
  · obtain ⟨-, -, rfl⟩ := read8_eq_ok_iff.mp henabled
    obtain ⟨-, -, rfl⟩ := read8_eq_ok_iff.mp hrequested
    exact ⟨rfl, _, .inr rfl, rfl⟩

end Exec

end Handheld
