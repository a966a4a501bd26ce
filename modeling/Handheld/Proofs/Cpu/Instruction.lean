import Handheld.Proofs.Cpu.Effect

namespace Handheld

theorem Registers.pc_setWord (r : Registers) (reg : Reg16) (w : UInt16) :
    (r.setWord reg w).pc = r.pc := by
  cases reg <;> rfl

/-- The address `n` bytes further on, counted one by one. -/
def skip : UInt16 → Nat → UInt16
  | addr, 0 => addr
  | addr, n + 1 => skip (addr + 1) n

theorem skip_eq (addr : UInt16) (n : Nat) : skip addr n = addr + UInt16.ofNat n := by
  induction n generalizing addr with
  | zero => exact (UInt16.add_zero addr).symm
  | succ n ih =>
    rw [skip, ih, UInt16.ofNat_add, UInt16.add_assoc, UInt16.add_comm 1]
    rfl

/-- The processor with its program counter `n` bytes further on. -/
def Cpu.ahead (x : Cpu) (n : Nat) : Cpu :=
  { x with regs := { x.regs with pc := skip x.regs.pc n } }

/-- The memory after `n` bytes from an address on have been read. -/
def FlatMemory.consumed (addr : UInt16) (n : Nat) (m : FlatMemory) : FlatMemory :=
  { m with journal := ((addresses addr n).map BusCall.read).foldl Array.push m.journal }

theorem fetch8_plain (cpu : Cpu) (m : FlatMemory) : Exec.fetch8 ⟨cpu, m.plain⟩ =
    .ok (m.get cpu.regs.pc) ⟨cpu.ahead 1, (m.consumed cpu.regs.pc 1).plain⟩ := rfl

theorem fetch16_plain (cpu : Cpu) (m : FlatMemory) : Exec.fetch16 ⟨cpu, m.plain⟩ =
    .ok (m.word cpu.regs.pc) ⟨cpu.ahead 2, (m.consumed cpu.regs.pc 2).plain⟩ := rfl

/-- On `s` the operation gives `a`, and the effect leads from `s` to where it ends. -/
def Effect.DoneBy {α : Type} (act : Exec FlatMemory α) (a : α) (code : List UInt16) (next : UInt16)
    (s : Circuit FlatMemory) (e : Effect) : Prop :=
  ∃ t, act s = .ok a t ∧ e.Leads code next s t

namespace Effect

variable {α γ : Type} {e : Effect} {code more : List UInt16} {next mid : UInt16}
  {s t u : Circuit FlatMemory} {act : Exec FlatMemory α} {a : α}

theorem calls_append (e : Effect) (code more : List UInt16) :
    e.calls (code ++ more) = code.map .read ++ e.calls more := by
  simp only [calls, List.append_assoc, List.map_append]

/-- What was read of the instruction before does not count as its effect. -/
theorem Leads.after (h : e.Leads more next u t) (hu : Leads {} code mid s u) :
    e.Leads (code ++ more) next s t where
  pc := h.pc
  moves := h.moves
  bytes := by
    have hbytes : u.bus.bytes = s.bus.bytes := hu.bytes
    rw [h.bytes]
    simp only [FlatMemory.written, hbytes]
  journal := by
    have hjournal : u.bus.journal = (code.map BusCall.read).foldl Array.push s.bus.journal := by
      rw [hu.journal]
      simp only [calls, List.append_nil, List.map_nil]
    rw [h.journal, hjournal, calls_append, List.foldl_append]

theorem DoneBy.after {x : Exec FlatMemory γ} (f : γ → Exec FlatMemory α) {c : γ}
    (h : e.DoneBy (f c) a more next u) (hx : x s = .ok c u) (hu : Leads {} code mid s u) :
    e.DoneBy (x >>= f) a (code ++ more) next s := by
  obtain ⟨t, hact, hleads⟩ := h
  exact ⟨t, Access.bind_eq_ok_iff.mpr ⟨c, u, hx, hact⟩, hleads.after hu⟩

theorem DoneBy.map (h : e.DoneBy act a code next s) (g : α → γ) :
    e.DoneBy (act >>= fun a => pure (g a)) (g a) code next s := by
  obtain ⟨t, hact, hleads⟩ := h
  exact ⟨t, Access.bind_eq_ok_iff.mpr ⟨a, t, hact, rfl⟩, hleads⟩

theorem DoneBy.whenHolds {act : Exec FlatMemory Unit} (cond : Cond)
    (h : e.DoneBy act () [] s.cpu.regs.pc s) :
    Effect.DoneBy (Exec.whenHolds cond act) (cond.holds s.cpu.regs.f) [] s.cpu.regs.pc s
      (if cond.holds s.cpu.regs.f then e else {}) := by
  unfold Exec.whenHolds
  cases hcond : cond.holds s.cpu.regs.f with
  | true =>
    obtain ⟨t, hact, hleads⟩ := h
    refine ⟨t, ?_, hleads⟩
    rw [Exec.regs_bind, hcond]
    exact Access.bind_eq_ok_iff.mpr ⟨(), t, hact, rfl⟩
  | false =>
    refine ⟨s, ?_, rfl, List.forall_mem_nil _, rfl, rfl⟩
    rw [Exec.regs_bind, hcond]
    rfl

end Effect

/-- Reading bytes of the instruction itself has no effect. -/
theorem leads_consumed (cpu : Cpu) (m : FlatMemory) (n : Nat) :
    Effect.Leads {} (addresses cpu.regs.pc n) (skip cpu.regs.pc n) ⟨cpu, m.plain⟩
      ⟨cpu.ahead n, (m.consumed cpu.regs.pc n).plain⟩ where
  journal := by
    simp only [Effect.calls, List.append_nil, List.map_nil]
    rfl

theorem updateSlot_doneBy (s : Slot) (f : UInt8 → Flags → UInt8 × Flags) (cpu : Cpu)
    (m : FlatMemory) (parts : List Part) :
    (s.update cpu.regs m f parts).DoneBy (Exec.updateSlot s f) () [] cpu.regs.pc
      ⟨cpu, m.plain⟩ := by
  cases s <;> exact ⟨_, rfl, rfl, List.forall_mem_nil _, rfl, rfl⟩

theorem jumpTo_doneBy (target : UInt16) (s : Circuit FlatMemory) :
    Effect.DoneBy (Exec.jumpTo target) () [] s.cpu.regs.pc s { target? := some target } :=
  ⟨_, rfl, rfl, List.forall_mem_nil _, rfl, rfl⟩

theorem callTo_doneBy (target : UInt16) (cpu : Cpu) (m : FlatMemory) :
    Effect.DoneBy (Exec.callTo target) () [] cpu.regs.pc ⟨cpu, m.plain⟩
      { Effect.push cpu.regs cpu.regs.pc with target? := some target } :=
  ⟨_, rfl, rfl, List.forall_mem_singleton.mpr rfl, rfl, rfl⟩

theorem returnToCaller_doneBy (cpu : Cpu) (m : FlatMemory) :
    (Effect.toCaller cpu.regs m).DoneBy Exec.returnToCaller () [] cpu.regs.pc ⟨cpu, m.plain⟩ :=
  ⟨_, rfl, rfl, List.forall_mem_singleton.mpr rfl, rfl, rfl⟩

/-- An instruction does what the table says, its opcode having been read. -/
theorem Instr.effect_doneBy (i : Instr) (cpu : Cpu) (m : FlatMemory) :
    (i.effect cpu m cpu.regs.pc (skip cpu.regs.pc (i.length - 1))).DoneBy i.execute ()
      (addresses cpu.regs.pc i.fetched) (skip cpu.regs.pc (i.length - 1)) ⟨cpu, m.plain⟩ := by
  cases i with
  | ld dst src =>
    obtain _ | _ := dst <;> obtain (_ | _) | _ := src <;>
      exact ⟨_, rfl, rfl, List.forall_mem_nil _, rfl, rfl⟩
  | ldWord dst =>
    have hpc := Registers.pc_setWord (cpu.ahead 2).regs dst (m.word cpu.regs.pc)
    exact ⟨_, rfl, hpc, List.forall_mem_nil _, rfl, rfl⟩
  | storeA p | loadA p =>
    cases p with
    | bc | de | highImm | highC | absolute => exact ⟨_, rfl, rfl, List.forall_mem_nil _, rfl, rfl⟩
    | hlInc | hlDec =>
      exact ⟨_, rfl, rfl, List.forall_mem_singleton.mpr (Word.ofBytes_hi_lo _), rfl, rfl⟩
  | alu op src =>
    cases op <;> obtain (_ | _) | _ := src <;>
      exact ⟨_, rfl, rfl, List.forall_mem_nil _, rfl, rfl⟩
  | inc s => exact updateSlot_doneBy s Alu.inc cpu m _
  | dec s => exact updateSlot_doneBy s Alu.dec cpu m _
  | incWord r | decWord r =>
    exact ⟨_, rfl, Registers.pc_setWord cpu.regs r _, List.forall_mem_nil _, rfl, rfl⟩
  | reti | rst _ | push _ => exact ⟨_, rfl, rfl, List.forall_mem_singleton.mpr rfl, rfl, rfl⟩
  | pop r => exact ⟨_, rfl, Registers.pc_setWord _ r _, List.forall_mem_nil _, rfl, rfl⟩
  | nop | stop | halt | di | ei | storeSp | ldSpHl | ldHlSpOffset | addSpOffset | addHl _
  | rotateA _ | daa | cpl | scf | ccf | jpHl => exact ⟨_, rfl, rfl, List.forall_mem_nil _, rfl, rfl⟩

theorem Branch.effect_doneBy (b : Branch) (cpu : Cpu) (m : FlatMemory) :
    (b.effect cpu.regs m cpu.regs.pc (skip cpu.regs.pc (b.length - 1))).DoneBy b.execute
      (b.cond.holds cpu.regs.f) (addresses cpu.regs.pc (b.length - 1))
      (skip cpu.regs.pc (b.length - 1)) ⟨cpu, m.plain⟩ := by
  cases b with
  | jp cond =>
    have htaken := jumpTo_doneBy (m.word cpu.regs.pc)
      ⟨cpu.ahead 2, (m.consumed cpu.regs.pc 2).plain⟩
    exact (htaken.whenHolds cond).after (fun target => Exec.whenHolds cond (Exec.jumpTo target))
      (fetch16_plain cpu m) (leads_consumed cpu m 2)
  | jr cond =>
    have htaken := jumpTo_doneBy (cpu.regs.pc + 1 + Word.signExtend (m.get cpu.regs.pc))
      ⟨cpu.ahead 1, (m.consumed cpu.regs.pc 1).plain⟩
    exact (htaken.whenHolds cond).after
      (fun e => Exec.regs >>= fun r => Exec.whenHolds cond (Exec.jumpTo (r.pc + Word.signExtend e)))
      (fetch8_plain cpu m) (leads_consumed cpu m 1)
  | call cond =>
    have htaken := callTo_doneBy (m.word cpu.regs.pc) (cpu.ahead 2) (m.consumed cpu.regs.pc 2)
    exact (htaken.whenHolds cond).after (fun target => Exec.whenHolds cond (Exec.callTo target))
      (fetch16_plain cpu m) (leads_consumed cpu m 2)
  | ret cond => exact (returnToCaller_doneBy cpu m).whenHolds cond

theorem Extended.effect_doneBy (i : Extended) (cpu : Cpu) (m : FlatMemory) :
    (i.effect cpu.regs m).DoneBy i.execute () [] cpu.regs.pc ⟨cpu, m.plain⟩ := by
  obtain ⟨op, target⟩ := i
  cases op with
  | shift s => exact updateSlot_doneBy target (Alu.shift s) cpu m _
  | bit n => cases target <;> exact ⟨_, rfl, rfl, List.forall_mem_nil _, rfl, rfl⟩
  | res n => exact updateSlot_doneBy target (fun v f => (v &&& ~~~Alu.mask n, f)) cpu m _
  | set n => exact updateSlot_doneBy target (fun v f => (v ||| Alu.mask n, f)) cpu m _

theorem Branch.surcharge_eq (b : Branch) (f : Flags) :
    b.surcharge f = if b.cond.holds f then b.takenCycles else 0 := by
  obtain cond | cond | cond | cond := b <;> cases cond <;> rfl

theorem Opcode.effect_doneBy (pc : UInt16) {opcode : UInt8} {o : Opcode}
    (ho : Opcode.decode opcode = o)
    (hlegal : o ≠ .undefined) (cpu : Cpu) (m : FlatMemory) :
    (o.effect cpu m cpu.regs.pc (skip cpu.regs.pc (o.length - 1))).DoneBy (Exec.perform pc opcode)
      (o.price cpu.regs.f m cpu.regs.pc) (addresses cpu.regs.pc o.fetched)
      (skip cpu.regs.pc (o.length - 1)) ⟨cpu, m.plain⟩ := by
  unfold Exec.perform
  rw [ho]
  cases o with
  | plain i => exact (i.effect_doneBy cpu m).map fun _ => i.cycles
  | branch b =>
    rw [Opcode.price, Branch.surcharge_eq]
    exact (b.effect_doneBy cpu m).map fun taken => b.cycles + if taken then b.takenCycles else 0
  | extension =>
    have hexecute := (Extended.decode (m.get cpu.regs.pc)).effect_doneBy (cpu.ahead 1)
      (m.consumed cpu.regs.pc 1)
    exact (hexecute.map fun _ => (Extended.decode (m.get cpu.regs.pc)).cycles).after
      (fun b => (Extended.decode b).execute >>= fun _ => pure (Extended.decode b).cycles)
      (fetch8_plain cpu m) (leads_consumed cpu m 1)
  | undefined => exact absurd rfl hlegal

/-- The program counter is no part that an effect depends on. -/
theorem Opcode.effect_ahead (o : Opcode) (cpu : Cpu) (n : Nat) (m : FlatMemory)
    (operand next : UInt16) : o.effect (cpu.ahead n) m operand next = o.effect cpu m operand next :=
  rfl

/-- Of the memory an effect depends on nothing but the bytes. -/
theorem Opcode.effect_congr (o : Opcode) {cpu : Cpu} {m m' : FlatMemory} {operand next : UInt16}
    (h : m'.bytes = m.bytes) : o.effect cpu m' operand next = o.effect cpu m operand next := by
  obtain ⟨_, _, _, _, _⟩ := m
  obtain ⟨_, _, _, _, _⟩ := m'
  cases h
  rfl

theorem Opcode.price_congr (o : Opcode) {f : Flags} {m m' : FlatMemory} {operand : UInt16}
    (h : m'.bytes = m.bytes) : o.price f m' operand = o.price f m operand := by
  obtain ⟨_, _, _, _, _⟩ := m
  obtain ⟨_, _, _, _, _⟩ := m'
  cases h
  rfl

namespace Exec

open FlatMemory

variable {s t u : Circuit FlatMemory} {c n : Nat}

theorem following_eq (s : Circuit FlatMemory) :
    following s = skip (s.cpu.regs.pc + 1) ((opcode s).length - 1) := by
  have hlength : (opcode s).length = (opcode s).length - 1 + 1 :=
    (Nat.sub_add_cancel (opcode s).length_pos).symm
  unfold following
  rw [← skip_eq, hlength]
  rfl

/-- The report of the instruction changes neither bytes nor journal. -/
theorem traced_plain (pc : UInt16) (b : UInt8) (cpu : Cpu) (m : FlatMemory) :
    ∃ m' : FlatMemory, traced pc b (⟨cpu, m.plain⟩ : Circuit FlatMemory) = ⟨cpu, m'.plain⟩ ∧
      m'.bytes = m.bytes ∧ m'.journal = m.journal := by
  unfold traced
  split
  · exact ⟨Bus.report (.executing pc b) m, rfl, rfl, rfl⟩
  · exact ⟨m, rfl, rfl, rfl⟩

/-- On a memory without faults the work of a running processor is the instruction at its program
    counter, if there is one. -/
theorem work_leads (hs : s.bus.Faultless) (hrunning : s.cpu.halted = false)
    (hlegal : opcode s ≠ .undefined) :
    ∃ t, work s = .ok (price s) t ∧ (effect s).Leads (code s) (following s) (began s) t := by
  obtain ⟨cpu, m⟩ := s
  have hplain : m.plain = m := hs.plain_eq
  have hfetch : fetch8 (began ⟨cpu, m⟩) = .ok (m.get cpu.regs.pc)
      ⟨cpu.ahead 1, ((m.note (.beginStep cpu.regs.pc)).consumed cpu.regs.pc 1).plain⟩ := by
    rw [← hplain]
    rfl
  obtain ⟨m', htraced, hbytes, hjournal⟩ := traced_plain cpu.regs.pc (m.get cpu.regs.pc)
    (cpu.ahead 1) ((m.note (.beginStep cpu.regs.pc)).consumed cpu.regs.pc 1)
  obtain ⟨t, hperform, hleads⟩ :=
    Opcode.effect_doneBy cpu.regs.pc rfl hlegal (cpu.ahead 1) m'
  have hrun := runInstruction_eq_ok_iff.mpr ⟨_, _, t, hfetch, htraced ▸ hperform, rfl⟩
  rw [Opcode.price_congr _ hbytes] at hrun
  rw [Opcode.effect_ahead, Opcode.effect_congr _ hbytes] at hleads
  have hopcode : Effect.Leads {} [cpu.regs.pc] (cpu.regs.pc + 1) (began ⟨cpu, m⟩)
      ⟨cpu.ahead 1, m'.plain⟩ :=
    { bytes := hbytes, journal := hjournal }
  have hrest : (effect ⟨cpu, m⟩).Leads (addresses (cpu.regs.pc + 1) (opcode ⟨cpu, m⟩).fetched)
      (following ⟨cpu, m⟩) ⟨cpu.ahead 1, m'.plain⟩ t := by
    unfold effect
    rw [following_eq]
    exact hleads
  -- The cost that is noted at the end is no part that an effect speaks of.
  exact ⟨_, (work_of_running hrunning).trans hrun, { hrest.after hopcode with }⟩

/-- With or without faults, work that succeeds is what the table says. -/
theorem leads_of_work (hrunning : s.cpu.halted = false) (hlegal : opcode s ≠ .undefined)
    (h : work s = .ok n u) :
    n = price s ∧ (effect s).Leads (code s) (following s) (began s) u := by
  have hsame : s.bus.plain.bytes = s.bus.bytes := rfl
  obtain ⟨t, hwork, hleads⟩ := work_leads (s := s.map plain) ⟨fun _ => rfl, fun _ => rfl⟩
    hrunning hlegal
  rw [work_plain h] at hwork
  obtain ⟨hprice, ht⟩ := EStateM.Result.ok.inj hwork
  rw [← ht] at hleads
  refine ⟨hprice.trans (Opcode.price_congr _ hsame), ?_⟩
  have heffect : effect (s.map plain) = effect s := Opcode.effect_congr _ hsame
  rw [heffect] at hleads
  exact { hleads with }

theorem faultless_of_work (hs : s.bus.Faultless) (h : work s = .ok n u) : u.bus.Faultless := by
  have hplain := work_plain h
  have hsame : s.map plain = s := congrArg (Circuit.mk s.cpu) hs.plain_eq
  rw [hsame, h] at hplain
  have hu : u.bus = u.bus.plain := congrArg Circuit.bus (EStateM.Result.ok.inj hplain).2
  rw [hu]
  exact ⟨fun _ => rfl, fun _ => rfl⟩

/-- On a memory without faults a step that finds an instruction succeeds. -/
theorem step_succeeds (hs : s.bus.Faultless) (hstopped : s.cpu.stopped = false)
    (hrunning : s.cpu.halted = false) (hlegal : opcode s ≠ .undefined) :
    ∃ c t, step s = .ok c t := by
  obtain ⟨u, hwork, -⟩ := work_leads hs hrunning hlegal
  have hu := faultless_of_work hs hwork
  have helapsed : (elapsed (price s) u).bus.Faultless := ⟨hu.1, hu.2⟩
  obtain ⟨k, t, hfinish⟩ : ∃ k t, finishStep (elapsed (price s) u) = .ok k t := by
    cases hended : u.cpu.stopped with
    | true => exact ⟨0, _, finishStep_eq_ok_iff.mpr (.inl ⟨hended, rfl, rfl⟩)⟩
    | false =>
      obtain ⟨entered, v, hdispatch⟩ := dispatch_of_faultless helapsed
      cases entered with
      | false => exact ⟨0, v, finishStep_eq_ok_iff.mpr (.inr (.inl ⟨hended, hdispatch, rfl⟩))⟩
      | true =>
        exact ⟨_, _, finishStep_eq_ok_iff.mpr (.inr (.inr ⟨hended, v, hdispatch, rfl, rfl⟩))⟩
  exact ⟨_, t, (step_eq_ok_iff hstopped).mpr ⟨_, u, k, hwork, hfinish, rfl⟩⟩

/-- A step that is not interrupted does what the table says, lets the time of it pass and looks
    whether an interrupt is due. -/
theorem leads_of_step (hstopped : s.cpu.stopped = false) (hrunning : s.cpu.halted = false)
    (hlegal : opcode s ≠ .undefined) (hquiet : ¬ Interrupted s) (hstep : step s = .ok c t) :
    c = price s ∧ ∃ u, (effect s).Leads (code s) (following s) (began s) u ∧
      Looks (elapsed c u) t := by
  obtain ⟨u, hwork, hlooks⟩ := looks_of_step hstep hstopped hquiet
  obtain ⟨hprice, hleads⟩ := leads_of_work hrunning hlegal hwork
  exact ⟨hprice, u, hleads, hlooks⟩

end Exec

end Handheld
