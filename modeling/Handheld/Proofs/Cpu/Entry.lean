import Handheld.Memory.Flat
import Handheld.Proofs.Cpu.Halt

namespace Handheld

/-- A word that the bus writes is written as its low byte and then its high byte. -/
def Bus.LowFirst (β : Type) [Bus β] : Prop :=
  ∀ (addr w : UInt16) (b t : β), Bus.write16 addr w b = .ok () t →
    ∃ u, Bus.write8 addr (Word.lo w) b = .ok () u ∧
      Bus.write8 (addr + 1) (Word.hi w) u = .ok () t

theorem FlatMemory.lowFirst : Bus.LowFirst FlatMemory := by
  intro addr w b t h
  obtain ⟨_, u, hlow, hhigh⟩ := Access.bind_eq_ok_iff.mp h
  exact ⟨u, hlow, hhigh⟩

namespace Exec

variable {β : Type} [Bus β] {s t w : Circuit β}

/-- The processor accepts a v-blank interrupt: it is not stopped, it accepts interrupts, and bit 0
    is set in both `IE` and `IF` as the bus gives them. -/
def Accepts (w : Circuit β) : Prop :=
  w.cpu.stopped = false ∧ w.cpu.regs.ime = true ∧ ∃ enabled b requested b',
    Bus.read8 Interrupts.enableAddr w.bus = .ok enabled b ∧
    Bus.read8 Interrupts.requestAddr b = .ok requested b' ∧ enabled &&& requested &&& 0x01 ≠ 0

theorem vblank_ofByte (b : UInt8) : (Interrupts.ofByte b).vblank = true ↔ b &&& 0x01 ≠ 0 := by
  simp [Interrupts.ofByte]

theorem accepts_iff_of_dispatch {entered : Bool} (hw : w.cpu.stopped = false)
    (h : dispatch w = .ok entered t) : Accepts w ↔ entered = true := by
  unfold Accepts
  cases entered with
  | true =>
    obtain ⟨hime, sources, u, hpending, hvblank, -⟩ := dispatch_eq_ok_true_iff.mp h
    obtain ⟨enabled, b, requested, b', henabled, hrequested, rfl, -⟩ :=
      pending_eq_ok_iff.mp hpending
    simp only [hw, hime, true_and, iff_true]
    exact ⟨enabled, b, requested, b', henabled, hrequested, (vblank_ofByte _).mp hvblank⟩
  | false =>
    simp only [hw, true_and, Bool.false_eq_true, iff_false]
    rintro ⟨hime, enabled, b, requested, b', henabled, hrequested, hbit⟩
    obtain ⟨hno, -⟩ | ⟨-, sources, hpending, hvblank⟩ := dispatch_eq_ok_false_iff.mp h
    · rw [hime] at hno
      cases hno
    · have hfound := pending_eq_ok_iff.mpr
        ⟨enabled, b, requested, b', henabled, hrequested, rfl, rfl⟩
      rw [hfound] at hpending
      cases hpending
      rw [(vblank_ofByte _).mpr hbit] at hvblank
      cases hvblank

/-- The processor after an entry from `cpu`. The registers are put aside as they were, and none
    changes but the stack pointer, the program counter and what tells that interrupts are
    accepted. -/
def entered (cpu : Cpu) : Cpu :=
  { cpu with
    clock := cpu.clock + Interrupts.entryCycles
    clockCycles := cpu.clockCycles + 4 * Interrupts.entryCycles
    saved := some cpu.regs.toRegisterFile
    regs := { cpu.regs with
      sp := cpu.regs.sp - 2
      pc := Interrupts.vblankVector
      ime := false
      cost := Interrupts.entryCycles
      clockCost := 4 * Interrupts.entryCycles } }

/-- A word is stored at an address, which on a bus that writes words low byte first takes a write of
    each byte. -/
def Stores (addr v : UInt16) (b t : β) : Prop :=
  Bus.write16 addr v b = .ok () t ∧ (Bus.LowFirst β →
    ∃ u, Bus.write8 addr (Word.lo v) b = .ok () u ∧ Bus.write8 (addr + 1) (Word.hi v) u = .ok () t)

/-- The entry from `w` to `t`, with all that the processor asks of the bus: `IE` and `IF` are read,
    the program counter is pushed, and `IF` is read again and written back without bit 0. Then three
    cycles pass. -/
def Entry (w t : Circuit β) : Prop :=
  ∃ enabled b₁ requested b₂ b₃ remaining b₄ b₅,
    Bus.read8 Interrupts.enableAddr w.bus = .ok enabled b₁ ∧
    Bus.read8 Interrupts.requestAddr b₁ = .ok requested b₂ ∧
    Stores (w.cpu.regs.sp - 2) w.cpu.regs.pc b₂ b₃ ∧
    Bus.read8 Interrupts.requestAddr b₃ = .ok remaining b₄ ∧
    Bus.write8 Interrupts.requestAddr (remaining &&& 0xFE) b₄ = .ok () b₅ ∧
    t = ⟨entered w.cpu, Bus.tick Interrupts.entryCycles
      (Bus.report (.interruptEntry w.cpu.regs.pc) b₅)⟩

/-- Nothing but looking at `IE` and `IF` leads from `w` to `t`. -/
def Looks (w t : Circuit β) : Prop :=
  t = w ∨ ∃ enabled b requested b', Bus.read8 Interrupts.enableAddr w.bus = .ok enabled b ∧
    Bus.read8 Interrupts.requestAddr b = .ok requested b' ∧ t = { w with bus := b' }

theorem Entry.cpu (h : Entry w t) : t.cpu = entered w.cpu := by
  obtain ⟨_, _, _, _, _, _, _, _, -, -, -, -, -, rfl⟩ := h
  rfl

/-- Looking changes nothing of the processor. -/
theorem Looks.cpu (h : Looks w t) : t.cpu = w.cpu := by
  obtain rfl | ⟨_, _, _, _, -, -, rfl⟩ := h <;> rfl

theorem entry_of_dispatch (h : dispatch w = .ok true t) :
    Entry w (elapsed Interrupts.entryCycles t) := by
  obtain ⟨-, sources, _, hpending, -, henter⟩ := dispatch_eq_ok_true_iff.mp h
  obtain ⟨enabled, b₁, requested, b₂, henabled, hrequested, -, rfl⟩ :=
    pending_eq_ok_iff.mp hpending
  obtain ⟨_, _, hpush, hacknowledge, rfl⟩ := enterRoutine_eq_ok_iff.mp henter
  obtain ⟨b₃, hwrite, rfl⟩ := pushWord_eq_ok_iff.mp hpush
  obtain ⟨remaining, b₄, b₅, hread, hback, rfl⟩ := acknowledge_eq_ok_iff.mp hacknowledge
  exact ⟨enabled, b₁, requested, b₂, b₃, remaining, b₄, b₅, henabled, hrequested,
    ⟨hwrite, fun hlow => hlow _ _ _ _ hwrite⟩, hread, hback, rfl⟩

theorem looks_of_dispatch (h : dispatch w = .ok false t) : Looks w t := by
  obtain ⟨-, rfl⟩ | ⟨-, sources, hpending, -⟩ := dispatch_eq_ok_false_iff.mp h
  · exact .inl rfl
  · obtain ⟨enabled, b, requested, b', henabled, hrequested, -, rfl⟩ :=
      pending_eq_ok_iff.mp hpending
    exact .inr ⟨enabled, b, requested, b', henabled, hrequested, rfl⟩

/-- A step that succeeds in `t` after `c` cycles enters the routine exactly if the processor accepts
    the interrupt once the work is done and its time has passed; no other source is considered. -/
structure Dispatches (s t : Circuit β) (c n : Nat) (u : Circuit β) : Prop where
  work : work s = .ok n u
  enters_iff : Enters s t ↔ Accepts (elapsed n u)
  entry : Accepts (elapsed n u) → c = n + Interrupts.entryCycles ∧ Entry (elapsed n u) t
  otherwise : ¬ Accepts (elapsed n u) → c = n ∧ Looks (elapsed n u) t

theorem enters_iff_of_work {n : Nat} {u : Circuit β} (hs : s.cpu.stopped = false)
    (hwork : work s = .ok n u) :
    Enters s t ↔ u.cpu.stopped = false ∧
      ∃ v, dispatch (elapsed n u) = .ok true v ∧ t = elapsed Interrupts.entryCycles v := by
  unfold Enters
  constructor
  · rintro ⟨-, n', u', v, hwork', hu, hdispatch, rfl⟩
    rw [hwork] at hwork'
    cases hwork'
    exact ⟨hu, v, hdispatch, rfl⟩
  · rintro ⟨hu, v, hdispatch, rfl⟩
    exact ⟨hs, n, u, v, hwork, hu, hdispatch, rfl⟩

/-- Whether the step from `s` enters the routine. -/
def entering (s : Circuit β) : Bool :=
  match work s with
  | .ok n u => !s.cpu.stopped && !u.cpu.stopped && dispatch.run' (elapsed n u) == some true
  | .error _ _ => false

theorem entering_iff : entering s = true ↔ ∃ t, Enters s t := by
  unfold entering
  constructor
  · intro h
    cases hwork : work s with
    | ok n u =>
      simp only [hwork, Bool.and_eq_true, Bool.not_eq_true', beq_iff_eq] at h
      obtain ⟨⟨hs, hu⟩, hdispatch⟩ := h
      exact ⟨_, hs, n, u, _, hwork, hu, Access.eq_ok_of_run' hdispatch, rfl⟩
    | error e u => simp [hwork] at h
  · rintro ⟨t, hs, n, u, v, hwork, hu, hdispatch, -⟩
    simp [hwork, hs, hu, Access.run'_of_ok hdispatch]

theorem step_dispatches {c : Nat} (h : step s = .ok c t) (hs : s.cpu.stopped = false) :
    ∃ n u, Dispatches s t c n u := by
  obtain ⟨n, u, k, hwork, hfinish, rfl⟩ := (step_eq_ok_iff hs).mp h
  have henters := enters_iff_of_work (t := t) hs hwork
  obtain ⟨hu, rfl, rfl⟩ | ⟨hu, hdispatch, rfl⟩ | ⟨hu, v, hdispatch, rfl, rfl⟩ :=
    finishStep_eq_ok_iff.mp hfinish
  · have hu' : u.cpu.stopped = true := hu
    have hdeclines : ¬ Accepts (elapsed n u) := by
      rintro ⟨hrunning, -⟩
      rw [hu] at hrunning
      cases hrunning
    refine ⟨n, u, hwork, ?_, fun haccepts => absurd haccepts hdeclines, fun _ => ⟨rfl, .inl rfl⟩⟩
    rw [henters, hu']
    simp [hdeclines]
  · have hdeclines : ¬ Accepts (elapsed n u) := by
      rw [accepts_iff_of_dispatch hu hdispatch]
      exact Bool.false_ne_true
    refine ⟨n, u, hwork, ?_, fun haccepts => absurd haccepts hdeclines,
      fun _ => ⟨rfl, looks_of_dispatch hdispatch⟩⟩
    rw [henters, hdispatch]
    simp [hdeclines]
  · have haccepts : Accepts (elapsed n u) := (accepts_iff_of_dispatch hu hdispatch).mpr rfl
    refine ⟨n, u, hwork, ?_, fun _ => ⟨rfl, entry_of_dispatch hdispatch⟩,
      fun hdeclines => absurd haccepts hdeclines⟩
    rw [henters]
    exact ⟨fun _ => haccepts, fun _ => ⟨hu, v, hdispatch, rfl⟩⟩

/-- The step from `s` is interrupted: once its work is done and the time of it has passed, the
    processor accepts an interrupt. -/
def Interrupted (s : Circuit β) : Prop :=
  ∃ n u, work s = .ok n u ∧ Accepts (elapsed n u)

/-- A step that succeeds and is not interrupted only looks for interrupts after its work. -/
theorem looks_of_step {c : Nat} (h : step s = .ok c t) (hs : s.cpu.stopped = false)
    (hquiet : ¬ Interrupted s) : ∃ u, work s = .ok c u ∧ Looks (elapsed c u) t := by
  obtain ⟨n, u, hends⟩ := step_dispatches h hs
  obtain ⟨rfl, hlooks⟩ := hends.otherwise fun haccepts => hquiet ⟨n, u, hends.work, haccepts⟩
  exact ⟨u, hends.work, hlooks⟩

end Exec

end Handheld
