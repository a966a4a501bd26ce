import Handheld.Console.Basic
import Handheld.Proofs.Cpu.Step

namespace Handheld.Exec

variable {β : Type} [Bus β] {s t : Circuit β}

/-- The step from `s` succeeds in `t` and enters the v-blank routine. -/
def Enters (s t : Circuit β) : Prop :=
  s.cpu.stopped = false ∧ ∃ n u v, work s = .ok n u ∧ u.cpu.stopped = false ∧
    dispatch (elapsed n u) = .ok true v ∧ t = elapsed Interrupts.entryCycles v

/-- The work of the step from `s` leaves the processor parked: it is parked and no enabled source is
    requested yet, or it runs and the instruction it fetches parks it. -/
def Parks (s : Circuit β) : Prop :=
  if s.cpu.halted = true then
    ∃ sources u, pending (began s) = .ok sources u ∧ sources.isEmpty = true
  else
    ∃ opcode b, Bus.read8 s.cpu.regs.pc (began s).bus = .ok opcode b ∧
      Opcode.decode opcode = .plain .halt

theorem Enters.step_eq_ok (h : Enters s t) : ∃ c, step s = .ok c t := by
  obtain ⟨hs, n, u, v, hwork, hu, hdispatch, rfl⟩ := h
  exact ⟨_, (step_eq_ok_iff hs).mpr ⟨n, u, _, hwork,
    finishStep_eq_ok_iff.mpr (.inr (.inr ⟨hu, v, hdispatch, rfl, rfl⟩)), rfl⟩⟩

theorem pending_halted {sources : Interrupts} (h : pending s = .ok sources t) :
    t.cpu.halted = s.cpu.halted :=
  (pending_reading (K := fun _ => False)).preserves
    (P := fun cpu _ => cpu.halted = s.cpu.halted) ⟨fun _ _ _ h => h, fun _ _ _ h => h.elim⟩
    (fun _ => (Bus.stable_const _).toReadStable) |>.of_ok rfl h

/-- A running processor is parked by the instruction made for it and by no other. -/
theorem perform_halted_iff {pc : UInt16} {opcode : UInt8} {n : Nat} (hs : s.cpu.halted = false)
    (h : perform pc opcode s = .ok n t) :
    t.cpu.halted = true ↔ Opcode.decode opcode = .plain .halt := by
  by_cases ho : Opcode.decode opcode = .plain .halt
  · have hparked : t.cpu.halted = true := by
      unfold perform at h
      rw [ho] at h
      obtain ⟨_, u, hexecute, hpure⟩ := Access.bind_eq_ok_iff.mp h
      cases hexecute
      cases hpure
      rfl
    simp [hparked, ho]
  · have hkept : t.cpu.halted = false :=
      (perform_orderly pc opcode fun _ hf => hf).preserves (P := fun cpu _ => cpu.halted = false)
        ⟨fun _ _ _ h => h, fun cpu _ _ hf h => by rw [hf.halted ho cpu, h]⟩
        (fun _ => Bus.stable_const _) |>.of_ok hs h
    simp [hkept, ho]

theorem work_halted_iff {n : Nat} (h : work s = .ok n t) : t.cpu.halted = true ↔ Parks s := by
  cases hs : s.cpu.halted with
  | true =>
    rw [work_of_halted hs, idle_eq_ok_iff] at h
    obtain ⟨sources, u, hpending, -, rfl⟩ := h
    have hu : u.cpu.halted = true := (pending_halted hpending).trans hs
    have hwoken : (costing 1 (woken sources u)).cpu.halted = sources.isEmpty := by
      unfold woken
      cases sources.isEmpty <;> simp [costing, hu]
    simp only [Parks, hs, if_true, hwoken, hpending, EStateM.Result.ok.injEq]
    exact ⟨fun he => ⟨_, _, ⟨rfl, rfl⟩, he⟩, fun ⟨_, _, ⟨hsources, _⟩, he⟩ => hsources ▸ he⟩
  | false =>
    rw [work_of_running hs, runInstruction_eq_ok_iff] at h
    obtain ⟨opcode, u, v, hfetch, hperform, rfl⟩ := h
    obtain ⟨b, hread, rfl⟩ := fetch8_eq_ok_iff.mp hfetch
    have hv := perform_halted_iff (by rw [cpu_traced]; exact hs) hperform
    have hread' : Bus.read8 s.cpu.regs.pc (began s).bus = .ok opcode b := hread
    simp only [Parks, hs, Bool.false_eq_true, if_false, hread', EStateM.Result.ok.injEq]
    change v.cpu.halted = true ↔ _
    rw [hv]
    exact ⟨fun ho => ⟨_, _, ⟨rfl, rfl⟩, ho⟩, fun ⟨_, _, ⟨hopcode, _⟩, ho⟩ => hopcode ▸ ho⟩

theorem dispatch_entered (h : dispatch s = .ok true t) :
    t.cpu.regs.pc = Interrupts.vblankVector ∧ t.cpu.halted = s.cpu.halted ∧
      t.cpu.stopped = s.cpu.stopped := by
  have hkept := (dispatch_preserves (K := (· = Cpu.enterInterrupt))
    (P := fun cpu _ => cpu.halted = s.cpu.halted ∧ cpu.stopped = s.cpu.stopped) rfl
    ⟨fun _ _ _ h => h, fun _ _ _ hf h => hf ▸ h⟩ fun _ => Bus.stable_const _).of_ok ⟨rfl, rfl⟩ h
  obtain ⟨-, _, u, -, -, henter⟩ := dispatch_eq_ok_true_iff.mp h
  obtain ⟨_, v, -, -, rfl⟩ := enterRoutine_eq_ok_iff.mp henter
  exact ⟨rfl, hkept⟩

/-- After an entry the processor is at the routine. It goes on there at once unless the work of the
    step left it parked; a parked one idles, since its request is already taken back. -/
theorem parked_after_entry_iff (h : Enters s t) :
    (∃ c, step s = .ok c t) ∧ t.cpu.regs.pc = Interrupts.vblankVector ∧ t.cpu.stopped = false ∧
      (t.cpu.halted = true ↔ Parks s) ∧ (Parks s → work t = idle (began t)) ∧
      (¬ Parks s → work t = runInstruction (began t)) := by
  have hstep := h.step_eq_ok
  obtain ⟨-, n, u, v, hwork, hstopped, hdispatch, rfl⟩ := h
  obtain ⟨hpc, hhalted, hrunning⟩ := dispatch_entered hdispatch
  have hparked : v.cpu.halted = true ↔ Parks s := by
    rw [← work_halted_iff hwork, hhalted]
    rfl
  refine ⟨hstep, hpc, hrunning.trans hstopped, hparked, fun hp => ?_, fun hp => ?_⟩
  · exact work_of_halted (hparked.mpr hp)
  · exact work_of_running (Bool.eq_false_iff.mpr (mt hparked.mp hp))

/-- A fresh console with a boot program, for which the host has enabled and requested v-blank. -/
def requesting (program : Array UInt8) : Circuit Observed :=
  let console := Console.new { bootImage := some program }
  let enabled := (console.write8 Interrupts.enableAddr 1).console
  let requested := (enabled.write8 Interrupts.requestAddr 1).console
  ⟨requested.cpu, ⟨requested.board, #[]⟩⟩

/-- The state after `n` cycles of work and an entry, found by running the parts of a step. -/
def entryAfter (n : Nat) (s : Circuit β) : Circuit β :=
  elapsed Interrupts.entryCycles (Access.after dispatch (elapsed n (Access.after work s)))

/-- The entry is found where each part of the step succeeds. -/
def EntryRuns (n : Nat) (s : Circuit β) : Prop :=
  s.cpu.stopped = false ∧ work.run' s = some n ∧ (Access.after work s).cpu.stopped = false ∧
    dispatch.run' (elapsed n (Access.after work s)) = some true

instance (n : Nat) (s : Circuit β) : Decidable (EntryRuns n s) :=
  inferInstanceAs (Decidable (_ ∧ _))

theorem EntryRuns.enters {n : Nat} (h : EntryRuns n s) : Enters s (entryAfter n s) := by
  obtain ⟨hs, hwork, hstopped, hdispatch⟩ := h
  exact ⟨hs, n, _, _, Access.eq_ok_of_run' hwork, hstopped, Access.eq_ok_of_run' hdispatch, rfl⟩

/-- A program that does nothing is interrupted, and the routine runs. -/
theorem running_after_entry_from_nop :
    ∃ t, Enters (requesting #[0x00]) t ∧ (∃ c, step (requesting #[0x00]) = .ok c t) ∧
      t.cpu.regs.pc = Interrupts.vblankVector ∧ t.cpu.stopped = false ∧
      (t.cpu.halted = true ↔ Parks (requesting #[0x00])) ∧
      (Parks (requesting #[0x00]) → work t = idle (began t)) ∧
      (¬ Parks (requesting #[0x00]) → work t = runInstruction (began t)) := by
  have h : EntryRuns 1 (requesting #[0x00]) := by decide +kernel
  exact ⟨_, h.enters, parked_after_entry_iff h.enters⟩

/-- A program that parks the processor is interrupted in the same step, and the processor is parked
    at the routine: the next step idles there. -/
theorem parked_after_entry_from_halt :
    ∃ t, Enters (requesting #[0x76]) t ∧ t.cpu.halted = true ∧
      t.cpu.regs.pc = Interrupts.vblankVector ∧
      ∃ u, step t = .ok 1 u ∧ u.cpu.halted = true ∧ u.cpu.regs.pc = Interrupts.vblankVector := by
  -- One evaluation for everything, so that the console is built once.
  obtain ⟨hentry, hhalted, hpc, hstep, hnext⟩ :
      EntryRuns 1 (requesting #[0x76]) ∧
      (entryAfter 1 (requesting #[0x76])).cpu.halted = true ∧
      (entryAfter 1 (requesting #[0x76])).cpu.regs.pc = Interrupts.vblankVector ∧
      step.run' (entryAfter 1 (requesting #[0x76])) = some 1 ∧
      (Access.after step (entryAfter 1 (requesting #[0x76]))).cpu.halted = true ∧
      (Access.after step (entryAfter 1 (requesting #[0x76]))).cpu.regs.pc =
        Interrupts.vblankVector := by
    decide +kernel
  exact ⟨_, hentry.enters, hhalted, hpc, _, Access.eq_ok_of_run' hstep, hnext⟩

end Handheld.Exec
