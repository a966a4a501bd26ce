import Handheld.Proofs.Cpu.Entry

namespace Handheld

/-- Only the instruction made for it takes back the registers put aside. -/
theorem Opcode.Changes.saved {o : Opcode} {f : Cpu → Cpu} (h : o.Changes f)
    (ho : o ≠ .plain .reti) (cpu : Cpu) : (f cpu).saved = cpu.saved := by
  obtain ⟨_ | _ | _⟩ | _ := h
  · rfl
  · rfl
  · exact absurd rfl ho
  · rfl

namespace Exec

variable {β : Type} [Bus β] {s t u v z : Circuit β} {n c : Nat} {target : UInt16}

/-- The step from `s` executes a return from an interrupt. -/
def Returns (s : Circuit β) : Prop :=
  s.cpu.stopped = false ∧ s.cpu.halted = false ∧ ∃ opcode u,
    fetch8 (began s) = .ok opcode u ∧ Opcode.decode opcode = .plain .reti

theorem work_saved (hrunning : s.cpu.stopped = false) (hreturns : ¬ Returns s)
    (h : work s = .ok n t) : t.cpu.saved = s.cpu.saved := by
  cases hs : s.cpu.halted with
  | true =>
    rw [work_of_halted hs, idle_eq_ok_iff] at h
    obtain ⟨sources, u, hpending, -, rfl⟩ := h
    obtain ⟨_, _, _, _, -, -, -, rfl⟩ := pending_eq_ok_iff.mp hpending
    rw [woken_eq]
    rfl
  | false =>
    rw [work_of_running hs, runInstruction_eq_ok_iff] at h
    obtain ⟨opcode, u, v, hfetch, hperform, rfl⟩ := h
    have ho : Opcode.decode opcode ≠ .plain .reti := fun ho =>
      hreturns ⟨hrunning, hs, opcode, u, hfetch, ho⟩
    obtain ⟨b, -, rfl⟩ := fetch8_eq_ok_iff.mp hfetch
    have hkept : Access.Preserves (fun v : Circuit β => v.cpu.saved = s.cpu.saved)
        (perform (began s).cpu.regs.pc opcode) :=
      (perform_orderly _ opcode fun _ hf => hf).preserves
        (P := fun cpu _ => cpu.saved = s.cpu.saved)
        ⟨fun _ _ _ h => h, fun cpu _ _ hf h => (hf.saved ho cpu).trans h⟩
        fun _ => Bus.stable_const _
    have hfetched := congrArg Cpu.saved (cpu_traced (began s).cpu.regs.pc opcode
      ⟨{ s.cpu with regs := { s.cpu.regs with pc := s.cpu.regs.pc + 1 } }, b⟩)
    have hv : v.cpu.saved = s.cpu.saved := hkept.of_ok hfetched hperform
    exact hv

/-- A step that neither returns nor enters leaves the registers put aside as they are. -/
theorem step_saved (h : step s = .ok c t) (hreturns : ¬ Returns s) (henters : ¬ Enters s t) :
    t.cpu.saved = s.cpu.saved := by
  cases hs : s.cpu.stopped with
  | true =>
    rw [step_of_stopped hs] at h
    cases h
    rfl
  | false =>
    obtain ⟨n, u, hstep⟩ := step_dispatches h hs
    obtain ⟨-, hlooks⟩ := hstep.otherwise (mt hstep.enters_iff.mpr henters)
    have hu : u.cpu.saved = s.cpu.saved := work_saved hs hreturns hstep.work
    exact (congrArg Cpu.saved hlooks.cpu).trans hu

/-- Successful steps lead from `s` to `t`, and none of them returns from an interrupt or enters the
    routine. -/
inductive Handles (s : Circuit β) : Circuit β → Prop
  | refl : Handles s s
  | step {t u : Circuit β} {c : Nat} : Handles s t → step t = .ok c u → ¬ Returns t →
      ¬ Enters t u → Handles s u

theorem Handles.saved (h : Handles s t) : t.cpu.saved = s.cpu.saved := by
  induction h with
  | refl => rfl
  | step _ hstep hreturns henters ih => rw [step_saved hstep hreturns henters, ih]

/-- The step from `s` executes a return from an interrupt, for which `target` is on the stack. -/
def ReturnsTo (target : UInt16) (s : Circuit β) : Prop :=
  s.cpu.stopped = false ∧ s.cpu.halted = false ∧ ∃ opcode u b,
    fetch8 (began s) = .ok opcode u ∧ Opcode.decode opcode = .plain .reti ∧
    Bus.read16 s.cpu.regs.sp (traced s.cpu.regs.pc opcode u).bus = .ok target b

/-- The processor after a return to `target`. -/
def returned (target : UInt16) (cpu : Cpu) : Cpu :=
  { cpu with
    saved := none
    regs := { cpu.regs with
      toRegisterFile := cpu.saved.getD cpu.regs.toRegisterFile
      sp := cpu.regs.sp + 2
      pc := target
      ime := true
      cost := Instr.reti.cycles
      clockCost := 4 * Instr.reti.cycles } }

theorem popWord_eq_ok_iff {w : UInt16} :
    popWord s = .ok w t ↔ ∃ b, Bus.read16 s.cpu.regs.sp s.bus = .ok w b ∧
      t = ⟨{ s.cpu with regs := { s.cpu.regs with sp := s.cpu.regs.sp + 2 } }, b⟩ := by
  unfold popWord
  simp only [regs_bind, Access.bind_eq_ok_iff, onBus_eq_ok_iff]
  constructor
  · rintro ⟨w', _, ⟨b, hread, rfl⟩, _, _, hmodify, hpure⟩
    cases hmodify
    cases hpure
    exact ⟨b, hread, rfl⟩
  · rintro ⟨b, hread, rfl⟩
    exact ⟨w, _, ⟨b, hread, rfl⟩, (), _, rfl, rfl⟩

theorem perform_reti (pc : UInt16) {opcode : UInt8} {b : β}
    (ho : Opcode.decode opcode = .plain .reti)
    (hread : Bus.read16 s.cpu.regs.sp s.bus = .ok target b) :
    perform pc opcode s = .ok Instr.reti.cycles ⟨Cpu.leaveInterrupt { s.cpu with
      regs := { s.cpu.regs with sp := s.cpu.regs.sp + 2, pc := target } }, b⟩ := by
  have hpop := popWord_eq_ok_iff.mpr ⟨b, hread, rfl⟩
  have hreturn : returnToCaller s = .ok () _ := Access.bind_eq_ok_iff.mpr ⟨target, _, hpop, rfl⟩
  have hexecute : Instr.reti.execute s = .ok () _ :=
    Access.bind_eq_ok_iff.mpr ⟨(), _, hreturn, rfl⟩
  unfold perform
  rw [ho]
  exact Access.bind_eq_ok_iff.mpr ⟨(), _, hexecute, rfl⟩

theorem work_of_returnsTo (h : ReturnsTo target s) :
    ∃ z, work s = .ok Instr.reti.cycles z ∧ z.cpu = returned target s.cpu := by
  obtain ⟨-, hs, opcode, u, b, hfetch, ho, hread⟩ := h
  have hcpu : (traced s.cpu.regs.pc opcode u).cpu =
      { s.cpu with regs := { s.cpu.regs with pc := s.cpu.regs.pc + 1 } } := by
    obtain ⟨_, -, rfl⟩ := fetch8_eq_ok_iff.mp hfetch
    exact cpu_traced _ _ _
  have hperform := perform_reti (s := traced s.cpu.regs.pc opcode u) s.cpu.regs.pc ho
    (by rw [hcpu]; exact hread)
  have hrun := runInstruction_eq_ok_iff.mpr ⟨opcode, u, _, hfetch, hperform, rfl⟩
  refine ⟨_, (work_of_running hs).trans hrun, ?_⟩
  simp only [costing, hcpu]
  rfl

/-- The processor goes on with the registers `r`, accepts interrupts and has nothing put aside. -/
structure Resumes (r : Registers) (cpu : Cpu) : Prop where
  file : cpu.regs.toRegisterFile = r.toRegisterFile
  sp : cpu.regs.sp = r.sp
  pc : cpu.regs.pc = r.pc
  ime : cpu.regs.ime = true
  saved : cpu.saved = none

/-- A return to where the routine was entered from, with the stack pointer where the entry left it
    and the registers put aside untouched, undoes the entry. -/
theorem resumes_returned {r : Registers} {cpu : Cpu} (hsaved : cpu.saved = some r.toRegisterFile)
    (hsp : cpu.regs.sp = r.sp - 2) : Resumes r (returned r.pc cpu) where
  file := by simp [returned, hsaved]
  sp := by simp [returned, hsp]
  pc := rfl
  ime := rfl
  saved := rfl

/-- A step that enters the routine puts the registers aside as the work of the step left them, and
    they stay as they are until a return or another entry. A return that then finds the stack
    pointer and the word there as the entry left them brings all of them back. -/
theorem return_undoes_entry (henters : Enters s t) (hwork : work s = .ok n u)
    (hhandles : Handles t v) :
    Entry (elapsed n u) t ∧ v.cpu.saved = some u.cpu.regs.toRegisterFile ∧
      (ReturnsTo u.cpu.regs.pc v → v.cpu.regs.sp = t.cpu.regs.sp →
        (∃ k z, work v = .ok k z ∧ Resumes u.cpu.regs z.cpu) ∧
        ∀ c x, step v = .ok c x → ¬ Enters v x → Resumes u.cpu.regs x.cpu) := by
  have hentry : Entry (elapsed n u) t := by
    obtain ⟨-, w, hdispatch, rfl⟩ := (enters_iff_of_work henters.1 hwork).mp henters
    exact entry_of_dispatch hdispatch
  have ht : t.cpu = entered (elapsed n u).cpu := hentry.cpu
  have hsaved : v.cpu.saved = some u.cpu.regs.toRegisterFile := by
    rw [hhandles.saved, ht]
    rfl
  refine ⟨hentry, hsaved, fun hreturns hsp => ?_⟩
  obtain ⟨z, hz, hcpu⟩ := work_of_returnsTo hreturns
  have hresumes : Resumes u.cpu.regs z.cpu := by
    rw [hcpu]
    refine resumes_returned hsaved ?_
    rw [hsp, ht]
    rfl
  refine ⟨⟨_, z, hz, hresumes⟩, fun c x hstep hno => ?_⟩
  obtain ⟨k, w, hends⟩ := step_dispatches hstep hreturns.1
  obtain ⟨-, hlooks⟩ := hends.otherwise (mt hends.enters_iff.mpr hno)
  have hw := hends.work
  rw [hz] at hw
  cases hw
  rw [hlooks.cpu]
  exact { hresumes with }

/-- A program whose routine adds one to the accumulator and returns, about to be interrupted. -/
def counting : Circuit Observed :=
  requesting (Array.replicate Interrupts.vblankVector.toNat 0x00 ++ #[0x3C, 0xD9])

/-- The routine is entered. -/
def aboutToCount : Circuit Observed :=
  entryAfter 1 counting

/-- The routine is about to return. -/
def counted : Circuit Observed :=
  Access.after step aboutToCount

/-- The accumulator is changed by the routine and brought back by the return. -/
theorem return_undoes_entry_counting :
    ∃ u k z, Enters counting aboutToCount ∧ work counting = .ok 1 u ∧
      Handles aboutToCount counted ∧ counted.cpu.regs.a = u.cpu.regs.a + 1 ∧
      counted.cpu.saved = some u.cpu.regs.toRegisterFile ∧
      work counted = .ok k z ∧ Resumes u.cpu.regs z.cpu := by
  -- One evaluation for everything, so that the console is built once.
  obtain ⟨hentry, hopcode, henters, hstep, ha, hrunning, hhalted, hfetch, hread, hsp⟩ :
      EntryRuns 1 counting ∧ fetch8.run' (began aboutToCount) = some 0x3C ∧
      entering aboutToCount = false ∧ step.run' aboutToCount = some 1 ∧
      counted.cpu.regs.a = (Access.after work counting).cpu.regs.a + 1 ∧
      counted.cpu.stopped = false ∧ counted.cpu.halted = false ∧
      fetch8.run' (began counted) = some 0xD9 ∧
      (Bus.read16 counted.cpu.regs.sp).run' (traced counted.cpu.regs.pc 0xD9
        (Access.after fetch8 (began counted))).bus =
          some (Access.after work counting).cpu.regs.pc ∧
      counted.cpu.regs.sp = aboutToCount.cpu.regs.sp := by
    decide +kernel
  have hwork := Access.eq_ok_of_run' hentry.2.1
  have hplain : ¬ Returns aboutToCount := by
    rintro ⟨-, -, opcode, u, hfetch, ho⟩
    rw [Access.eq_ok_of_run' hopcode] at hfetch
    cases hfetch
    cases ho
  have hno : ¬ Enters aboutToCount counted := fun h => by
    rw [entering_iff.mpr ⟨_, h⟩] at henters
    cases henters
  have hhandles : Handles aboutToCount counted :=
    .step .refl (Access.eq_ok_of_run' hstep) hplain hno
  have hreturns : ReturnsTo (Access.after work counting).cpu.regs.pc counted :=
    ⟨hrunning, hhalted, 0xD9, _, _, Access.eq_ok_of_run' hfetch, rfl, Access.eq_ok_of_run' hread⟩
  obtain ⟨-, hsaved, hresumes⟩ := return_undoes_entry hentry.enters hwork hhandles
  obtain ⟨⟨k, z, hz, hback⟩, -⟩ := hresumes hreturns hsp
  exact ⟨_, k, z, hentry.enters, hwork, hhandles, ha, hsaved, hz, hback⟩

end Exec

end Handheld
