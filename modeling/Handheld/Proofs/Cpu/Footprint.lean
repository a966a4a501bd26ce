import Handheld.Proofs.Cpu.Instruction

namespace Handheld

section Touches

variable {β : Type} [Bus β] (s : Circuit β) (m : FlatMemory) (operand next : UInt16)

theorem Instr.execute_touches (i : Instr) :
    Exec.Touches (i.effect s.cpu m operand next).parts i.execute s := by
  cases i with
  | nop | jpHl => exact Cpu.Keeps.refl s.cpu _
  | stop => exact Cpu.keeps_stopped (List.mem_singleton_self _) s.cpu true
  | halt => exact Cpu.keeps_halted (List.mem_singleton_self _) s.cpu true
  | di | ei => exact Cpu.keeps_ime (List.mem_singleton_self _) s.cpu _
  | ld dst src =>
    exact .bind (Exec.readOperand_touches src) fun v _ _ =>
      Exec.writeSlot_touches (List.Subset.refl _) v
  | ldWord dst =>
    exact .bind Exec.fetch16_touches fun w t _ => Cpu.keeps_setWord (List.Subset.refl _) t.cpu w
  | storeA p =>
    exact .bind (Exec.address_touches (List.Subset.refl _)) fun addr _ _ =>
      Exec.Touches.regs_bind (.onBus _)
  | loadA p =>
    have hparts : p.parts ⊆ p.parts ++ [.reg .a] := List.subset_append_left _ _
    have ha : .reg .a ∈ p.parts ++ [.reg .a] := List.mem_append_right _ (List.mem_singleton_self _)
    exact .bind (Exec.address_touches hparts) fun addr _ _ => .bind (.onBus _) fun v t _ =>
      Cpu.keeps_set ha t.cpu v
  | storeSp =>
    exact .bind Exec.fetch16_touches fun addr _ _ => Exec.Touches.regs_bind (.onBus _)
  | ldSpHl => exact Cpu.keeps_sp (List.mem_singleton_self _) s.cpu _
  | ldHlSpOffset =>
    exact .bind Exec.fetch8_touches fun e t _ =>
      (Cpu.keeps_setWord (List.subset_append_left _ _) t.cpu _).trans
        (Cpu.keeps_flags (List.mem_append_right _ (List.mem_singleton_self _)) _ _)
  | addSpOffset =>
    exact .bind Exec.fetch8_touches fun e t _ =>
      (Cpu.keeps_sp (List.mem_cons_self ..) t.cpu (Alu.addOffset t.cpu.regs.sp e).1).trans
        (Cpu.keeps_flags (List.mem_cons_of_mem _ (List.mem_singleton_self _)) _ _)
  | alu op src =>
    refine .bind (Exec.readOperand_touches src) fun v t _ => ?_
    cases op with
    | cp => exact Cpu.keeps_flags (List.mem_singleton_self _) t.cpu _
    | add | adc | sub | sbc | and | xor | or =>
      exact Cpu.keeps_setAccumulator (List.mem_cons_self ..)
        (List.mem_cons_of_mem _ (List.mem_singleton_self _)) t.cpu _
  | inc slot =>
    exact Exec.updateSlot_touches slot Alu.inc [.flags] (.inl (List.mem_singleton_self _))
  | dec slot =>
    exact Exec.updateSlot_touches slot Alu.dec [.flags] (.inl (List.mem_singleton_self _))
  | incWord r | decWord r => exact Cpu.keeps_setWord (List.Subset.refl _) s.cpu _
  | addHl r =>
    exact (Cpu.keeps_setWord (List.subset_append_left _ _) s.cpu _).trans
      (Cpu.keeps_flags (List.mem_append_right _ (List.mem_singleton_self _)) _ _)
  | rotateA _ | daa | cpl =>
    exact Cpu.keeps_setAccumulator (List.mem_cons_self ..)
      (List.mem_cons_of_mem _ (List.mem_singleton_self _)) s.cpu _
  | scf | ccf => exact Cpu.keeps_flags (List.mem_singleton_self _) s.cpu _
  | reti =>
    change Exec.Touches ([.sp] ++ ([.ime, .saved] ++ if s.cpu.saved.isSome then Part.file else []))
      Instr.reti.execute s
    have hreturn : Exec.Touches [.sp] Exec.returnToCaller s :=
      Exec.returnToCaller_touches (List.mem_singleton_self _)
    refine .bind (Exec.returnToCaller_touches (List.mem_cons_self ..)) fun _ t ht =>
      Cpu.keeps_leaveInterrupt (by simp) (by simp) t.cpu fun hfile => ?_
    rw [hreturn.of_ok ht .saved (by decide)] at hfile
    rw [if_pos hfile]
    exact List.Subset.trans (List.subset_append_right _ _) (List.subset_append_right _ _)
  | rst vector => exact Exec.callTo_touches (List.mem_singleton_self _) vector
  | push r => exact Exec.Touches.regs_bind (Exec.pushWord_touches (List.mem_singleton_self _) _)
  | pop r =>
    exact .bind (Exec.popWord_touches (List.mem_cons_self ..)) fun w t _ =>
      Cpu.keeps_setWord (List.subset_cons_self _ _) t.cpu w

theorem Branch.execute_touches (b : Branch) :
    Exec.Touches (b.effect s.cpu.regs m operand next).parts b.execute s := by
  have htaken (hcond : b.cond.holds s.cpu.regs.f = true) :
      (b.takenEffect s.cpu.regs m operand next).parts ⊆
        (b.effect s.cpu.regs m operand next).parts := by
    rw [Branch.effect, if_pos hcond]
    exact List.Subset.refl _
  cases b with
  | jp cond =>
    exact .bind Exec.fetch16_touches fun target t _ =>
      Exec.whenHolds_touches cond fun _ => Cpu.Keeps.refl t.cpu _
  | jr cond =>
    exact .bind Exec.fetch8_touches fun e t _ =>
      Exec.Touches.regs_bind (Exec.whenHolds_touches cond fun _ => Cpu.Keeps.refl t.cpu _)
  | call cond =>
    have hfetch : Exec.Touches [] Exec.fetch16 s := Exec.fetch16_touches
    refine .bind Exec.fetch16_touches fun target t ht => Exec.whenHolds_touches cond fun hcond => ?_
    have hflags : t.cpu.regs.f = s.cpu.regs.f := hfetch.of_ok ht .flags List.not_mem_nil
    exact Exec.callTo_touches (htaken (hflags ▸ hcond) (List.mem_singleton_self _)) target
  | ret cond =>
    exact Exec.whenHolds_touches cond fun hcond =>
      Exec.returnToCaller_touches (htaken hcond (List.mem_singleton_self _))

/-- What an extended instruction may change depends on neither registers nor memory. -/
theorem Extended.execute_touches (i : Extended) (r : Registers) :
    Exec.Touches (i.effect r m).parts i.execute s := by
  obtain ⟨op, target⟩ := i
  cases op with
  | shift shift =>
    exact Exec.updateSlot_touches target (Alu.shift shift) [.flags]
      (.inl (List.mem_singleton_self _))
  | bit n =>
    exact .bind (Exec.readSlot_touches target) fun v t _ =>
      Cpu.keeps_flags (List.mem_singleton_self _) t.cpu _
  | res n =>
    exact Exec.updateSlot_touches target (fun v f => (v &&& ~~~Alu.mask n, f)) []
      (.inr fun _ _ => rfl)
  | set n =>
    exact Exec.updateSlot_touches target (fun v f => (v ||| Alu.mask n, f)) []
      (.inr fun _ _ => rfl)

end Touches

/-- From `s` to `t` nothing changes but what the effect names. -/
structure Effect.Bounds (e : Effect) (s t : Circuit FlatMemory) : Prop where
  parts : ∀ p ∉ e.parts, p.Same s.cpu t.cpu
  bytes : ∀ addr ∉ e.stores.map Prod.fst, t.bus.get addr = s.bus.get addr

/-- Besides, pointers move as the effect tells. -/
structure Effect.Confines (e : Effect) (s t : Circuit FlatMemory) : Prop extends e.Bounds s t where
  moves : ∀ p ∈ e.moves, t.cpu.regs.getWord p.1 = p.2

/-- Time that passes, with no byte written meanwhile, does not matter. -/
theorem Effect.Bounds.elapsed {e : Effect} {s t u : Circuit FlatMemory} {n : Nat} (h : e.Bounds s u)
    (hcpu : t.cpu = (Exec.elapsed n u).cpu) (hbytes : t.bus.bytes = u.bus.bytes) :
    e.Bounds s t where
  parts p hp := by
    have hsame := h.parts p hp
    rw [hcpu]
    cases p <;> exact hsame
  bytes addr haddr := (FlatMemory.get_congr hbytes addr).trans (h.bytes addr haddr)

namespace Exec

variable {s t w : Circuit FlatMemory} {n : Nat} {e : Fault}

theorem flat_of_fetch8 {v : UInt8} (h : fetch8 s = .ok v t) :
    v = s.bus.get s.cpu.regs.pc ∧ t.cpu = s.cpu.ahead 1 ∧ t.bus.bytes = s.bus.bytes := by
  obtain ⟨b, hread, rfl⟩ := fetch8_eq_ok_iff.mp h
  obtain ⟨-, rfl, rfl⟩ := FlatMemory.read8_eq_ok_iff.mp hread
  exact ⟨rfl, rfl, rfl⟩

theorem perform_touches (s : Circuit FlatMemory) (pc : UInt16) {opcode : UInt8} {o : Opcode}
    (ho : Opcode.decode opcode = o) (hlegal : o ≠ .undefined) (next : UInt16) :
    Touches (o.effect s.cpu s.bus s.cpu.regs.pc next).parts (perform pc opcode) s := by
  unfold perform
  rw [ho]
  cases o with
  | plain i => exact .bind (i.execute_touches s s.bus _ next) fun _ t _ => Cpu.Keeps.refl t.cpu _
  | branch b => exact .bind (b.execute_touches s s.bus _ next) fun _ t _ => Cpu.Keeps.refl t.cpu _
  | extension =>
    refine .bind fetch8_touches fun b t hb => ?_
    obtain ⟨rfl, -, -⟩ := flat_of_fetch8 hb
    exact .bind (Extended.execute_touches t s.bus _ s.cpu.regs) fun _ u _ => Cpu.Keeps.refl u.cpu _
  | undefined => exact absurd rfl hlegal

theorem runInstruction_touches (hlegal : opcode s ≠ .undefined) :
    Touches (effect s).parts runInstruction (began s) := by
  unfold runInstruction
  refine Touches.regs_bind <| .bind fetch8_touches fun b t hb => ?_
  obtain ⟨hbyte, hcpu, hbytes⟩ := flat_of_fetch8 hb
  have hdecoded : Opcode.decode b = opcode s := congrArg Opcode.decode hbyte
  have hrest (u : Circuit FlatMemory) (hu : u.cpu = t.cpu) (hsame : u.bus.bytes = t.bus.bytes) :
      Touches (effect s).parts (do
        let cycles ← perform s.cpu.regs.pc b
        setCost cycles
        return cycles) u := by
    have hperform := perform_touches u s.cpu.regs.pc hdecoded hlegal (following s)
    rw [hu, hcpu, Opcode.effect_ahead, Opcode.effect_congr _ (hsame.trans hbytes)] at hperform
    exact .bind hperform fun _ v _ => Cpu.Keeps.refl v.cpu _
  refine .bind (Cpu.Keeps.refl t.cpu _) fun c u hu => ?_
  cases hu
  split
  · refine .bind (Cpu.Keeps.refl t.cpu _) fun _ u hu => ?_
    cases hu
    exact hrest _ rfl rfl
  · exact hrest t rfl rfl

/-- Whatever comes of the work, it changes no part of the processor but those that the table names
    for the instruction. -/
theorem work_touches (hrunning : s.cpu.halted = false) (hlegal : opcode s ≠ .undefined) :
    Touches (effect s).parts work s := by
  have hrun := runInstruction_touches hlegal
  unfold Touches Access.after at hrun ⊢
  rw [work_of_running hrunning]
  exact hrun

/-- Work that fails changes nothing but what the table names. -/
theorem bounds_of_work_error (hrunning : s.cpu.halted = false) (hlegal : opcode s ≠ .undefined)
    (hwork : work s = .error e t) : (effect s).Bounds s t := by
  refine ⟨(work_touches hrunning hlegal).of_error hwork, fun addr haddr => ?_⟩
  have hsame : s.bus.plain.bytes = s.bus.bytes := rfl
  obtain ⟨u, hplain, hleads⟩ := work_leads (s := s.map FlatMemory.plain)
    ⟨fun _ => rfl, fun _ => rfl⟩ hrunning hlegal
  have heffect : effect (s.map FlatMemory.plain) = effect s := Opcode.effect_congr _ hsame
  have hkept : u.bus.get addr = s.bus.get addr := by
    have hwritten := FlatMemory.get_congr hleads.bytes addr
    rw [heffect] at hwritten
    exact hwritten.trans (FlatMemory.get_written haddr _)
  obtain hbefore | hafter := (work_orderly s.cpu.halted).get_of_error hwork hplain addr
  · exact hbefore
  · exact hafter.trans hkept

/-- Work that succeeds is confined to what the table names. -/
theorem confines_of_work (hrunning : s.cpu.halted = false) (hlegal : opcode s ≠ .undefined)
    (hwork : work s = .ok n t) : (effect s).Confines s t := by
  obtain ⟨-, hleads⟩ := leads_of_work hrunning hlegal hwork
  refine ⟨⟨(work_touches hrunning hlegal).of_ok hwork, fun addr haddr => ?_⟩, hleads.moves⟩
  exact (FlatMemory.get_congr hleads.bytes addr).trans (FlatMemory.get_written haddr _)

/-- A refusal after the work, unless it is one of the entry, is a refusal of `IE` or `IF`. -/
theorem stays_of_finishStep_error (hquiet : ¬ Accepts w) (h : finishStep w = .error e t) :
    t.cpu = w.cpu ∧ t.bus.bytes = w.bus.bytes := by
  obtain ⟨hrunning, hdispatch⟩ := finishStep_eq_error_iff.mp h
  obtain ⟨hime, hpending | ⟨sources, u, hpending, hvblank, -⟩⟩ := dispatch_eq_error_iff.mp hdispatch
  · have hreading : Reading StepChange (pending : Exec FlatMemory Interrupts) := pending_reading
    refine ⟨?_, Access.after_of_error hpending ▸ hreading.bytes_after w⟩
    obtain ⟨b, -, rfl⟩ | ⟨_, _, b, -, -, rfl⟩ := pending_eq_error_iff.mp hpending <;> rfl
  · obtain ⟨enabled, b, requested, b', henabled, hrequested, rfl, -⟩ :=
      pending_eq_ok_iff.mp hpending
    exact absurd ⟨hrunning, hime, enabled, b, requested, b', henabled, hrequested,
      (vblank_ofByte _).mp hvblank⟩ hquiet

/-- Where interrupts are not accepted and the instruction does not touch that, no step is
    interrupted. -/
theorem not_interrupted_of_ime (hrunning : s.cpu.halted = false) (hlegal : opcode s ≠ .undefined)
    (hime : s.cpu.regs.ime = false) (hkept : .ime ∉ (effect s).parts) : ¬ Interrupted s := by
  rintro ⟨n, u, hwork, -, haccepts, -⟩
  have hsame : u.cpu.regs.ime = s.cpu.regs.ime :=
    (work_touches hrunning hlegal).of_ok hwork .ime hkept
  have hyes : u.cpu.regs.ime = true := haccepts
  rw [hyes, hime] at hsame
  cases hsame

/-- The step of a running processor that finds an instruction succeeds on a memory without faults;
    and with or without faults, if it is not interrupted, it is confined to what the instruction
    names, also if it fails. -/
theorem step_confined (hstopped : s.cpu.stopped = false) (hrunning : s.cpu.halted = false)
    (hlegal : opcode s ≠ .undefined) :
    (s.bus.Faultless → ∃ c t, step s = .ok c t) ∧
      (¬ Interrupted s → (∀ c t, step s = .ok c t → (effect s).Confines s t) ∧
        ∀ e t, step s = .error e t → (effect s).Bounds s t) := by
  refine ⟨fun hs => step_succeeds hs hstopped hrunning hlegal, fun hquiet =>
    ⟨fun c t hstep => ?_, fun e t hstep => ?_⟩⟩
  · obtain ⟨u, hwork, hlooks⟩ := looks_of_step hstep hstopped hquiet
    obtain ⟨hcpu, hbytes, -⟩ := hlooks.flat
    have hconfines := confines_of_work hrunning hlegal hwork
    exact ⟨hconfines.toBounds.elapsed hcpu hbytes, hcpu ▸ hconfines.moves⟩
  · obtain hwork | ⟨n, u, hwork, hfinish⟩ := (step_eq_error_iff hstopped).mp hstep
    · exact bounds_of_work_error hrunning hlegal hwork
    · obtain ⟨hcpu, hbytes⟩ := stays_of_finishStep_error
        (fun haccepts => hquiet ⟨n, u, hwork, haccepts⟩) hfinish
      exact (confines_of_work hrunning hlegal hwork).toBounds.elapsed hcpu hbytes

/-- A processor about to store the accumulator at the last address, where the register for enabled
    interrupts would be, and to move `HL` on from there. -/
def storingLast : Circuit FlatMemory :=
  ⟨{ regs := { a := 0x1F, h := 0xFF, l := 0xFF, pc := 0x0100 } }, FlatMemory.set {} 0x0100 0x22⟩

theorem opcode_storingLast : opcode storingLast = .plain (.storeA .hlInc) := by
  have hbyte : storingLast.bus.get storingLast.cpu.regs.pc = 0x22 := FlatMemory.get_set _ _ _ _
  unfold opcode
  rw [hbyte]
  decide

/-- Nothing but `HL` and the last byte changes, and `HL` starts over. -/
theorem step_confined_storingLast :
    ∃ c t, step storingLast = .ok c t ∧ t.cpu.regs.hl = 0 ∧ t.cpu.regs.f = storingLast.cpu.regs.f ∧
      ∀ addr, addr ≠ 0xFFFF → t.bus.get addr = storingLast.bus.get addr := by
  have heffect : effect storingLast =
      { parts := [.reg .h, .reg .l], moves := [(.hl, 0)], stores := [(0xFFFF, 0x1F)] } := by
    unfold effect
    rw [opcode_storingLast]
    decide
  have hlegal : opcode storingLast ≠ .undefined := by
    rw [opcode_storingLast]
    decide
  have hkept : .ime ∉ (effect storingLast).parts := by
    rw [heffect]
    decide
  obtain ⟨hsucceeds, hconfined⟩ := step_confined (s := storingLast) rfl rfl hlegal
  obtain ⟨c, t, hstep⟩ := hsucceeds ⟨fun _ => rfl, fun _ => rfl⟩
  have ht := (hconfined (not_interrupted_of_ime rfl hlegal rfl hkept)).1 c t hstep
  rw [heffect] at ht
  refine ⟨c, t, hstep, ht.moves (.hl, 0) (List.mem_singleton_self _), ht.parts .flags (by decide),
    fun addr haddr => ht.bytes addr ?_⟩
  simpa using haddr

end Exec

end Handheld
