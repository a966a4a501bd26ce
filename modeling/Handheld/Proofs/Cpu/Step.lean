import Handheld.Proofs.Cpu.Stability

namespace Handheld.Exec

section Run

variable {β : Type} {s t : Circuit β} {e : Fault}

theorem cpu_bind {α : Type} (f : Cpu → Exec β α) (s : Circuit β) :
    (cpu >>= f) s = f s.cpu s := rfl

theorem regs_bind {α : Type} (f : Registers → Exec β α) (s : Circuit β) :
    (regs >>= f) s = f s.cpu.regs s := rfl

theorem modifyBus_bind {α : Type} (g : β → β) (f : Unit → Exec β α) (s : Circuit β) :
    (modifyBus g >>= f) s = f () { s with bus := g s.bus } := rfl

theorem pure_eq_ok_iff {α : Type} {a b : α} :
    (pure a : Exec β α) s = .ok b t ↔ b = a ∧ t = s := by
  simp [pure, EStateM.pure, eq_comm]

theorem pure_ne_error {α : Type} {a : α} : (pure a : Exec β α) s ≠ .error e t := by
  simp [pure, EStateM.pure]

end Run

variable {β : Type} [Bus β] {s t : Circuit β} {e : Fault}

/-- The state in which a step does its work: the bus knows that the step has begun. -/
def began (s : Circuit β) : Circuit β :=
  { s with bus := Bus.beginStep s.cpu.regs.pc s.bus }

/-- The work of a step: an instruction, or an idle cycle if the processor is parked. -/
def work : Exec β Nat := fun s =>
  (if s.cpu.halted then idle else runInstruction) (began s)

/-- The state after machine cycles have passed. -/
def elapsed (cycles : Nat) (s : Circuit β) : Circuit β where
  cpu := s.cpu.advanceClock cycles
  bus := Bus.tick cycles s.bus

theorem work_of_halted (h : s.cpu.halted = true) : work s = idle (began s) := by
  simp [work, h]

theorem work_of_running (h : s.cpu.halted = false) : work s = runInstruction (began s) := by
  simp [work, h]

theorem elapse_bind {α : Type} (cycles : Nat) (f : Unit → Exec β α) (s : Circuit β) :
    (elapse cycles >>= f) s = f () (elapsed cycles s) := rfl

theorem step_of_stopped (h : s.cpu.stopped = true) : step s = .ok 0 s := by
  unfold step
  rw [cpu_bind, if_pos h]
  rfl

theorem step_of_running (h : s.cpu.stopped = false) :
    step s = (work >>= fun cycles => elapse cycles >>= fun _ =>
      finishStep >>= fun more => pure (cycles + more) : Exec β Nat) s := by
  unfold step
  rw [cpu_bind, if_neg (by simp [h]), regs_bind, modifyBus_bind, cpu_bind]
  by_cases hh : s.cpu.halted = true <;> simp [bind, EStateM.bind, work, began, hh]

theorem step_eq_ok_iff (h : s.cpu.stopped = false) {c : Nat} :
    step s = .ok c t ↔
      ∃ n u k, work s = .ok n u ∧ finishStep (elapsed n u) = .ok k t ∧ c = n + k := by
  simp only [step_of_running h, Access.bind_eq_ok_iff, elapse_bind, pure_eq_ok_iff]
  constructor
  · rintro ⟨n, u, hwork, k, _, hfinish, rfl, rfl⟩
    exact ⟨n, u, k, hwork, hfinish, rfl⟩
  · rintro ⟨n, u, k, hwork, hfinish, rfl⟩
    exact ⟨n, u, hwork, k, t, hfinish, rfl, rfl⟩

theorem step_eq_error_iff (h : s.cpu.stopped = false) :
    step s = .error e t ↔
      work s = .error e t ∨ ∃ n u, work s = .ok n u ∧ finishStep (elapsed n u) = .error e t := by
  simp only [step_of_running h, Access.bind_eq_error_iff, elapse_bind, pure_ne_error, and_false,
    exists_false, or_false]

/-- The report of an instruction about to be executed, made if the processor is to report them. -/
def traced (pc : UInt16) (opcode : UInt8) (s : Circuit β) : Circuit β :=
  if s.cpu.trace then { s with bus := Bus.report (.executing pc opcode) s.bus } else s

@[simp]
theorem cpu_traced (pc : UInt16) (opcode : UInt8) (s : Circuit β) :
    (traced pc opcode s).cpu = s.cpu := by
  unfold traced
  split <;> rfl

/-- The state in which the cost of what just ran is noted. -/
def costing (cycles : Nat) (s : Circuit β) : Circuit β :=
  { s with cpu := { s.cpu with regs := s.cpu.regs.setCost cycles } }

/-- The state after the pending sources have been found: an enabled request ends the parking. -/
def woken (sources : Interrupts) (s : Circuit β) : Circuit β :=
  if sources.isEmpty then s else { s with cpu := { s.cpu with halted := false } }

omit [Bus β] in
theorem woken_eq (sources : Interrupts) (s : Circuit β) :
    woken sources s =
      { s with cpu := { s.cpu with halted := s.cpu.halted && sources.isEmpty } } := by
  unfold woken
  cases sources.isEmpty with
  | true => rw [if_pos rfl, Bool.and_true]
  | false => rw [if_neg Bool.false_ne_true, Bool.and_false]

theorem fetch8_eq_ok_iff {v : UInt8} :
    fetch8 s = .ok v t ↔ ∃ b, Bus.read8 s.cpu.regs.pc s.bus = .ok v b ∧
      t = ⟨{ s.cpu with regs := { s.cpu.regs with pc := s.cpu.regs.pc + 1 } }, b⟩ := by
  unfold fetch8 read8
  simp only [regs_bind, Access.bind_eq_ok_iff, onBus_eq_ok_iff]
  constructor
  · rintro ⟨w, _, ⟨b, hread, rfl⟩, _, _, hmodify, hpure⟩
    cases hmodify
    cases hpure
    exact ⟨b, hread, rfl⟩
  · rintro ⟨b, hread, rfl⟩
    exact ⟨v, _, ⟨b, hread, rfl⟩, (), _, rfl, rfl⟩

theorem pending_eq_ok_iff {sources : Interrupts} :
    pending s = .ok sources t ↔ ∃ enabled b requested b',
      Bus.read8 Interrupts.enableAddr s.bus = .ok enabled b ∧
      Bus.read8 Interrupts.requestAddr b = .ok requested b' ∧
      sources = .ofByte (enabled &&& requested) ∧ t = { s with bus := b' } := by
  unfold pending read8
  simp only [Access.bind_eq_ok_iff, onBus_eq_ok_iff, pure_eq_ok_iff]
  constructor
  · rintro ⟨enabled, _, ⟨b, henabled, rfl⟩, requested, _, ⟨b', hrequested, rfl⟩, rfl, rfl⟩
    exact ⟨enabled, b, requested, b', henabled, hrequested, rfl, rfl⟩
  · rintro ⟨enabled, b, requested, b', henabled, hrequested, rfl, rfl⟩
    exact ⟨enabled, _, ⟨b, henabled, rfl⟩, requested, _, ⟨b', hrequested, rfl⟩, rfl, rfl⟩

theorem pending_eq_error_iff :
    pending s = .error e t ↔
      (∃ b, Bus.read8 Interrupts.enableAddr s.bus = .error e b ∧ t = { s with bus := b }) ∨
      ∃ enabled b b', Bus.read8 Interrupts.enableAddr s.bus = .ok enabled b ∧
        Bus.read8 Interrupts.requestAddr b = .error e b' ∧ t = { s with bus := b' } := by
  unfold pending read8
  simp only [Access.bind_eq_error_iff, onBus_eq_ok_iff, onBus_eq_error_iff, pure_ne_error,
    and_false, exists_false, or_false]
  refine or_congr_right ?_
  constructor
  · rintro ⟨enabled, _, ⟨b, henabled, rfl⟩, b', hrequested, rfl⟩
    exact ⟨enabled, b, b', henabled, hrequested, rfl⟩
  · rintro ⟨enabled, b, b', henabled, hrequested, rfl⟩
    exact ⟨enabled, _, ⟨b, henabled, rfl⟩, b', hrequested, rfl⟩

theorem pushWord_eq_ok_iff {v : UInt16} :
    pushWord v s = .ok () t ↔ ∃ b, Bus.write16 (s.cpu.regs.sp - 2) v s.bus = .ok () b ∧
      t = ⟨{ s.cpu with regs := { s.cpu.regs with sp := s.cpu.regs.sp - 2 } }, b⟩ := by
  unfold pushWord
  simp only [regs_bind, Access.bind_eq_ok_iff, onBus_eq_ok_iff]
  constructor
  · rintro ⟨_, _, ⟨b, hwrite, rfl⟩, hmodify⟩
    cases hmodify
    exact ⟨b, hwrite, rfl⟩
  · rintro ⟨b, hwrite, rfl⟩
    exact ⟨(), _, ⟨b, hwrite, rfl⟩, rfl⟩

/-- A failed push leaves the processor as it was. -/
theorem pushWord_eq_error_iff {v : UInt16} :
    pushWord v s = .error e t ↔
      ∃ b, Bus.write16 (s.cpu.regs.sp - 2) v s.bus = .error e b ∧ t = { s with bus := b } := by
  unfold pushWord
  simp only [regs_bind, Access.bind_eq_error_iff, onBus_eq_error_iff]
  constructor
  · rintro (hwrite | ⟨_, _, _, hmodify⟩)
    · exact hwrite
    · cases hmodify
  · exact .inl

theorem acknowledge_eq_ok_iff :
    acknowledge s = .ok () t ↔ ∃ requested b b',
      Bus.read8 Interrupts.requestAddr s.bus = .ok requested b ∧
      Bus.write8 Interrupts.requestAddr (requested &&& 0xFE) b = .ok () b' ∧
      t = { s with bus := b' } := by
  unfold acknowledge read8 write8
  simp only [Access.bind_eq_ok_iff, onBus_eq_ok_iff]
  constructor
  · rintro ⟨requested, _, ⟨b, hread, rfl⟩, b', hwrite, rfl⟩
    exact ⟨requested, b, b', hread, hwrite, rfl⟩
  · rintro ⟨requested, b, b', hread, hwrite, rfl⟩
    exact ⟨requested, _, ⟨b, hread, rfl⟩, b', hwrite, rfl⟩

theorem acknowledge_eq_error_iff :
    acknowledge s = .error e t ↔
      (∃ b, Bus.read8 Interrupts.requestAddr s.bus = .error e b ∧ t = { s with bus := b }) ∨
      ∃ requested b b', Bus.read8 Interrupts.requestAddr s.bus = .ok requested b ∧
        Bus.write8 Interrupts.requestAddr (requested &&& 0xFE) b = .error e b' ∧
        t = { s with bus := b' } := by
  unfold acknowledge read8 write8
  simp only [Access.bind_eq_error_iff, onBus_eq_ok_iff, onBus_eq_error_iff]
  refine or_congr_right ?_
  constructor
  · rintro ⟨requested, _, ⟨b, hread, rfl⟩, b', hwrite, rfl⟩
    exact ⟨requested, b, b', hread, hwrite, rfl⟩
  · rintro ⟨requested, b, b', hread, hwrite, rfl⟩
    exact ⟨requested, _, ⟨b, hread, rfl⟩, b', hwrite, rfl⟩

theorem idle_eq_ok_iff {n : Nat} :
    idle s = .ok n t ↔ ∃ sources u, pending s = .ok sources u ∧ n = 1 ∧
      t = costing 1 (woken sources u) := by
  unfold idle
  rw [Access.bind_eq_ok_iff]
  refine exists_congr fun sources => exists_congr fun u => and_congr_right' ?_
  unfold woken
  cases sources.isEmpty with
  | true => exact ⟨fun h => by cases h; exact ⟨rfl, rfl⟩, fun ⟨hn, ht⟩ => by subst hn ht; rfl⟩
  | false => exact ⟨fun h => by cases h; exact ⟨rfl, rfl⟩, fun ⟨hn, ht⟩ => by subst hn ht; rfl⟩

theorem traced_bind {α : Type} (pc : UInt16) (opcode : UInt8) (f : Unit → Exec β α) :
    (cpu >>= fun c => if c.trace = true then report (.executing pc opcode) >>= f else f ()) s =
      f () (traced pc opcode s) := by
  rw [cpu_bind]
  unfold traced
  split <;> rfl

theorem runInstruction_eq_ok_iff {n : Nat} :
    runInstruction s = .ok n t ↔ ∃ opcode u v, fetch8 s = .ok opcode u ∧
      perform s.cpu.regs.pc opcode (traced s.cpu.regs.pc opcode u) = .ok n v ∧
      t = costing n v := by
  unfold runInstruction
  simp only [regs_bind, Access.bind_eq_ok_iff, traced_bind]
  constructor
  · rintro ⟨opcode, u, hfetch, k, v, hperform, _, _, hcost, hpure⟩
    cases hcost
    cases hpure
    exact ⟨opcode, u, v, hfetch, hperform, rfl⟩
  · rintro ⟨opcode, u, v, hfetch, hperform, rfl⟩
    exact ⟨opcode, u, hfetch, n, v, hperform, (), _, rfl, rfl⟩

/-- After its work a step enters the v-blank routine or adds nothing. -/
theorem finishStep_eq_ok_iff {k : Nat} :
    finishStep s = .ok k t ↔
      (s.cpu.stopped = true ∧ k = 0 ∧ t = s) ∨
      (s.cpu.stopped = false ∧ dispatch s = .ok false t ∧ k = 0) ∨
      (s.cpu.stopped = false ∧ ∃ u, dispatch s = .ok true u ∧
        t = elapsed Interrupts.entryCycles u ∧ k = Interrupts.entryCycles) := by
  unfold finishStep
  rw [cpu_bind]
  cases h : s.cpu.stopped with
  | true => simp [pure_eq_ok_iff]
  | false =>
    simp only [Bool.false_eq_true, if_false, Access.bind_eq_ok_iff, false_and, false_or, true_and]
    constructor
    · rintro ⟨entered, u, hdispatch, hrest⟩
      cases entered with
      | true =>
        rw [if_pos rfl, elapse_bind, pure_eq_ok_iff] at hrest
        exact .inr ⟨u, hdispatch, hrest.2, hrest.1⟩
      | false =>
        rw [if_neg (by simp), pure_eq_ok_iff] at hrest
        exact .inl ⟨hrest.2 ▸ hdispatch, hrest.1⟩
    · rintro (⟨hdispatch, rfl⟩ | ⟨u, hdispatch, rfl, rfl⟩)
      · exact ⟨false, t, hdispatch, rfl⟩
      · exact ⟨true, u, hdispatch, rfl⟩

theorem finishStep_eq_error_iff :
    finishStep s = .error e t ↔ s.cpu.stopped = false ∧ dispatch s = .error e t := by
  unfold finishStep
  rw [cpu_bind]
  cases h : s.cpu.stopped with
  | true => simp [pure_ne_error]
  | false =>
    simp only [Bool.false_eq_true, if_false, Access.bind_eq_error_iff, true_and]
    constructor
    · rintro (hdispatch | ⟨entered, u, -, hrest⟩)
      · exact hdispatch
      · cases entered <;> cases hrest
    · exact .inl

/-- The routine is entered if interrupts are accepted and v-blank is pending. -/
theorem dispatch_eq_ok_true_iff :
    dispatch s = .ok true t ↔
      s.cpu.regs.ime = true ∧ ∃ sources u, pending s = .ok sources u ∧
        sources.vblank = true ∧ enterRoutine u = .ok () t := by
  unfold dispatch
  rw [regs_bind]
  cases h : s.cpu.regs.ime with
  | false => simp [pure_eq_ok_iff]
  | true =>
    simp only [if_true, Access.bind_eq_ok_iff, true_and]
    constructor
    · rintro ⟨sources, u, hpending, hrest⟩
      cases hv : sources.vblank with
      | false => simp [hv, pure_eq_ok_iff] at hrest
      | true =>
        simp only [hv, if_true, Access.bind_eq_ok_iff, pure_eq_ok_iff] at hrest
        obtain ⟨_, _, henter, -, rfl⟩ := hrest
        exact ⟨sources, u, hpending, hv, henter⟩
    · rintro ⟨sources, u, hpending, hv, henter⟩
      refine ⟨sources, u, hpending, ?_⟩
      rw [if_pos hv, Access.bind_eq_ok_iff]
      exact ⟨(), t, henter, rfl⟩

/-- It is not entered if interrupts are not accepted or v-blank is not pending. -/
theorem dispatch_eq_ok_false_iff :
    dispatch s = .ok false t ↔
      (s.cpu.regs.ime = false ∧ t = s) ∨
      (s.cpu.regs.ime = true ∧ ∃ sources, pending s = .ok sources t ∧ sources.vblank = false) := by
  unfold dispatch
  rw [regs_bind]
  cases h : s.cpu.regs.ime with
  | false => simp [pure_eq_ok_iff]
  | true =>
    simp only [if_true, Access.bind_eq_ok_iff, true_and, Bool.true_eq_false, false_and, false_or]
    constructor
    · rintro ⟨sources, u, hpending, hrest⟩
      cases hv : sources.vblank with
      | true =>
        rw [hv, if_pos rfl] at hrest
        obtain ⟨_, _, -, hpure⟩ := Access.bind_eq_ok_iff.mp hrest
        cases hpure
      | false =>
        simp only [hv, Bool.false_eq_true, if_false, pure_eq_ok_iff, true_and] at hrest
        exact ⟨sources, hrest ▸ hpending, hv⟩
    · rintro ⟨sources, hpending, hv⟩
      refine ⟨sources, t, hpending, ?_⟩
      rw [if_neg (by simp [hv])]
      rfl

theorem dispatch_eq_error_iff :
    dispatch s = .error e t ↔
      s.cpu.regs.ime = true ∧ (pending s = .error e t ∨ ∃ sources u, pending s = .ok sources u ∧
        sources.vblank = true ∧ enterRoutine u = .error e t) := by
  unfold dispatch
  rw [regs_bind]
  cases h : s.cpu.regs.ime with
  | false => simp [pure_ne_error]
  | true =>
    simp only [if_true, Access.bind_eq_error_iff, true_and]
    refine or_congr_right (exists_congr fun sources => exists_congr fun u => and_congr_right' ?_)
    cases sources.vblank with
    | false => simp [pure_ne_error]
    | true =>
      simp only [if_true, Access.bind_eq_error_iff, pure_ne_error, and_false, exists_false,
        or_false, true_and]

theorem enterRoutine_eq_ok_iff :
    enterRoutine s = .ok () t ↔ ∃ u v, pushWord s.cpu.regs.pc s = .ok () u ∧
      acknowledge u = .ok () v ∧
      t = ⟨v.cpu.enterInterrupt, Bus.report (.interruptEntry s.cpu.regs.pc) v.bus⟩ := by
  unfold enterRoutine
  simp only [regs_bind, Access.bind_eq_ok_iff]
  constructor
  · rintro ⟨_, u, hpush, _, v, hacknowledge, _, _, hmodify, hreport⟩
    cases hmodify
    cases hreport
    exact ⟨u, v, hpush, hacknowledge, rfl⟩
  · rintro ⟨u, v, hpush, hacknowledge, rfl⟩
    exact ⟨(), u, hpush, (), v, hacknowledge, (), _, rfl, rfl⟩

theorem enterRoutine_eq_error_iff :
    enterRoutine s = .error e t ↔ pushWord s.cpu.regs.pc s = .error e t ∨
      ∃ u, pushWord s.cpu.regs.pc s = .ok () u ∧ acknowledge u = .error e t := by
  unfold enterRoutine
  simp only [regs_bind, Access.bind_eq_error_iff]
  refine or_congr_right ?_
  constructor
  · rintro ⟨_, u, hpush, hacknowledge | ⟨_, _, _, hmodify | ⟨_, _, _, hreport⟩⟩⟩
    · exact ⟨u, hpush, hacknowledge⟩
    · cases hmodify
    · cases hreport
  · rintro ⟨u, hpush, hacknowledge⟩
    exact ⟨(), u, hpush, .inl hacknowledge⟩

/-- The changes that a step may make to the processor apart from its registers and its clock. -/
inductive StepChange : (Cpu → Cpu) → Prop
  | perform {o : Opcode} {f : Cpu → Cpu} : o.Changes f → StepChange f
  | wake : StepChange fun cpu => { cpu with halted := false }
  | enter : StepChange Cpu.enterInterrupt

theorem StepChange.counters {f : Cpu → Cpu} (h : StepChange f) (cpu : Cpu) :
    (f cpu).clock = cpu.clock ∧ (f cpu).clockCycles = cpu.clockCycles := by
  cases h with
  | perform h => exact h.counters cpu
  | wake | enter => exact ⟨rfl, rfl⟩

theorem StepChange.stopped {f : Cpu → Cpu} (h : StepChange f) {cpu : Cpu}
    (hcpu : cpu.stopped = true) : (f cpu).stopped = true := by
  cases h with
  | perform h => exact h.stopped hcpu
  | wake | enter => exact hcpu

theorem idle_reading : Reading StepChange (idle : Exec β Nat) := by
  have rest : Local StepChange (setCost 1 >>= fun _ => pure 1 : Exec β Nat) :=
    .bind (.modifyRegs _) fun _ => .pure _
  refine .bind pending_reading fun sources => .ofLocal ?_
  split
  · exact .bind (.modifyCpu .wake) fun _ => rest
  · exact rest

/-- The work of a step has the shape of an instruction. -/
theorem work_orderly (halted : Bool) :
    Orderly StepChange (if halted = true then idle else runInstruction : Exec β Nat) := by
  split
  · exact .ofReading idle_reading
  · exact runInstruction_orderly fun _ _ h => .perform h

/-- No work moves a counter of the clock. -/
theorem counters_after_work (s : Circuit β) :
    (Access.after work s).cpu.clock = s.cpu.clock ∧
      (Access.after work s).cpu.clockCycles = s.cpu.clockCycles := by
  have hcounters : Cpu.Stable StepChange fun cpu (_ : β) =>
      cpu.clock = s.cpu.clock ∧ cpu.clockCycles = s.cpu.clockCycles := by
    refine ⟨fun _ _ _ h => h, fun cpu _ _ hf h => ?_⟩
    obtain ⟨hclock, hcycles⟩ := hf.counters cpu
    exact ⟨hclock.trans h.1, hcycles.trans h.2⟩
  exact (work_orderly s.cpu.halted).preserves hcounters (fun _ => Bus.stable_const _) (began s)
    ⟨rfl, rfl⟩

theorem acknowledge_orderly {K : (Cpu → Cpu) → Prop} : Orderly K (acknowledge : Exec β Unit) :=
  .before (.read8 _) fun _ => .write8 _ _

variable {K : (Cpu → Cpu) → Prop} {P : Cpu → β → Prop}

theorem enterRoutine_preserves (henter : K Cpu.enterInterrupt) (hcpu : Cpu.Stable K P)
    (hbus : ∀ cpu, Bus.Stable (P cpu)) :
    Access.Preserves (fun s => P s.cpu s.bus) (enterRoutine : Exec β Unit) := by
  have hlocal {α : Type} {act : Exec β α} (h : Local K act) :=
    h.preserves hcpu fun cpu => (hbus cpu).toReadStable
  exact (hlocal .regs).bind fun _ => ((pushWord_orderly _).preserves hcpu hbus).bind fun _ =>
    (acknowledge_orderly.preserves hcpu hbus).bind fun _ =>
      (hlocal (.modifyCpu henter)).bind fun _ => hlocal (.report _)

theorem dispatch_preserves (henter : K Cpu.enterInterrupt) (hcpu : Cpu.Stable K P)
    (hbus : ∀ cpu, Bus.Stable (P cpu)) :
    Access.Preserves (fun s => P s.cpu s.bus) (dispatch : Exec β Bool) := by
  have hread cpu := (hbus cpu).toReadStable
  have hlocal {α : Type} {act : Exec β α} (h : Local K act) := h.preserves hcpu hread
  refine (hlocal .regs).bind fun r => ?_
  split
  · refine (pending_reading.preserves hcpu hread).bind fun sources => ?_
    split
    · exact (enterRoutine_preserves henter hcpu hbus).bind fun _ => hlocal (.pure _)
    · exact hlocal (.pure _)
  · exact hlocal (.pure _)

theorem work_preserves (hcpu : Cpu.Stable StepChange P) (hbus : ∀ cpu, Bus.Stable (P cpu))
    (hbegin : ∀ cpu b, P cpu b → P cpu (Bus.beginStep cpu.regs.pc b)) :
    Access.Preserves (fun s => P s.cpu s.bus) (work : Exec β Nat) := fun s hs =>
  (work_orderly s.cpu.halted).preserves hcpu hbus (began s) (hbegin s.cpu s.bus hs)

theorem finishStep_preserves (henter : K Cpu.enterInterrupt) (hcpu : Cpu.Stable K P)
    (hbus : ∀ cpu, Bus.Stable (P cpu))
    (htick : ∀ n s, P s.cpu s.bus → P (elapsed n s).cpu (elapsed n s).bus) :
    Access.Preserves (fun s => P s.cpu s.bus) (finishStep : Exec β Nat) := by
  have hpure n : Access.Preserves (fun s => P s.cpu s.bus) (pure n : Exec β Nat) := fun _ hs => hs
  have hlook : Access.Preserves (fun s => P s.cpu s.bus) (Exec.cpu : Exec β Cpu) := fun _ hs => hs
  have helapse n : Access.Preserves (fun s => P s.cpu s.bus) (elapse n : Exec β Unit) := htick n
  refine hlook.bind fun cpu => ?_
  split
  · exact hpure _
  · refine (dispatch_preserves henter hcpu hbus).bind fun entered => ?_
    split
    · exact (helapse _).bind fun _ => hpure _
    · exact hpure _

/-- What neither an access nor a change of the processor nor the passing of time destroys lasts from
    the beginning of a step to its end. -/
theorem step_keeps_of_began (hcpu : Cpu.Stable StepChange P) (hbus : ∀ cpu, Bus.Stable (P cpu))
    (htick : ∀ n s, P s.cpu s.bus → P (elapsed n s).cpu (elapsed n s).bus)
    (hrunning : s.cpu.stopped = false) (hs : P (began s).cpu (began s).bus) :
    P (Access.after step s).cpu (Access.after step s).bus := by
  have hpure n : Access.Preserves (fun s => P s.cpu s.bus) (pure n : Exec β Nat) := fun _ hs => hs
  have helapse n : Access.Preserves (fun s => P s.cpu s.bus) (elapse n : Exec β Unit) := htick n
  have hparts : Access.Preserves (fun s => P s.cpu s.bus)
      ((if s.cpu.halted = true then idle else runInstruction) >>= fun cycles =>
        elapse cycles >>= fun _ => finishStep >>= fun more => pure (cycles + more) : Exec β Nat) :=
    ((work_orderly s.cpu.halted).preserves hcpu hbus).bind fun n => (helapse n).bind fun _ =>
      (finishStep_preserves .enter hcpu hbus htick).bind fun _ => hpure _
  unfold Access.after
  rw [step_of_running hrunning]
  exact hparts (began s) hs

/-- A property of processor and bus that nothing in a step destroys, be it an access, a change of
    the processor, the start of the step or the passing of time. -/
structure Lasting (P : Cpu → β → Prop) : Prop where
  cpu : Cpu.Stable StepChange P
  bus : ∀ cpu, Bus.Stable (P cpu)
  begin : ∀ cpu b, P cpu b → P cpu (Bus.beginStep cpu.regs.pc b)
  tick : ∀ n s, P s.cpu s.bus → P (elapsed n s).cpu (elapsed n s).bus

/-- What lasts is kept by a step, and is kept even if the step fails. -/
theorem Lasting.step_preserves (h : Lasting P) :
    Access.Preserves (fun s => P s.cpu s.bus) (step : Exec β Nat) := by
  intro s hs
  cases hstopped : s.cpu.stopped with
  | true =>
    rw [Access.after_of_ok (step_of_stopped hstopped)]
    exact hs
  | false => exact step_keeps_of_began h.cpu h.bus h.tick hstopped (h.begin s.cpu s.bus hs)

end Handheld.Exec
