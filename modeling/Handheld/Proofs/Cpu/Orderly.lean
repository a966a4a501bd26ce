import Handheld.Cpu.Step
import Handheld.Proofs.Access

namespace Handheld

/-- What an instruction may change of the processor apart from its registers. -/
inductive Instr.Changes : Instr → (Cpu → Cpu) → Prop
  | stop : Changes .stop fun cpu =>
      { cpu with regs := { cpu.regs with pc := cpu.regs.pc + 1 }, stopped := true }
  | halt : Changes .halt fun cpu => { cpu with halted := true }
  | reti : Changes .reti Cpu.leaveInterrupt

/-- What may change of the processor, apart from its registers, when an opcode is performed. -/
inductive Opcode.Changes : Opcode → (Cpu → Cpu) → Prop
  | plain {i : Instr} {f : Cpu → Cpu} : i.Changes f → Changes (.plain i) f
  | undefined : Changes .undefined Cpu.stop

/-- No opcode moves a counter of the clock. -/
theorem Opcode.Changes.counters {o : Opcode} {f : Cpu → Cpu} (h : o.Changes f) (cpu : Cpu) :
    (f cpu).clock = cpu.clock ∧ (f cpu).clockCycles = cpu.clockCycles := by
  obtain ⟨_ | _ | _⟩ | _ := h <;> exact ⟨rfl, rfl⟩

/-- Only the instruction made for it parks the processor. -/
theorem Opcode.Changes.halted {o : Opcode} {f : Cpu → Cpu} (h : o.Changes f)
    (ho : o ≠ .plain .halt) (cpu : Cpu) : (f cpu).halted = cpu.halted := by
  obtain ⟨_ | _ | _⟩ | _ := h
  · rfl
  · exact absurd rfl ho
  · rfl
  · rfl

/-- No opcode lowers the stop flag. -/
theorem Opcode.Changes.stopped {o : Opcode} {f : Cpu → Cpu} (h : o.Changes f) {cpu : Cpu}
    (hcpu : cpu.stopped = true) : (f cpu).stopped = true := by
  obtain ⟨_ | _ | _⟩ | _ := h
  · rfl
  · exact hcpu
  · exact hcpu
  · rfl

namespace Exec

section Shape

variable {β : Type} [Bus β]

/-- The operation looks at the processor alone, changes registers or makes a change of `K`, and
    cannot fail. -/
inductive Local (K : (Cpu → Cpu) → Prop) : {α : Type} → Exec β α → Prop
  | pure {α : Type} (a : α) : Local K (pure a)
  | cpu : Local K cpu
  | regs : Local K regs
  | modifyRegs (f : Registers → Registers) : Local K (modifyRegs f)
  | modifyCpu {f : Cpu → Cpu} : K f → Local K (modifyCpu f)
  | report (n : Cpu.Notice) : Local K (report n)
  | bind {α γ : Type} {x : Exec β α} {f : α → Exec β γ} :
      Local K x → (∀ a, Local K (f a)) → Local K (x >>= f)

/-- The operation writes nothing to the bus. The only fault of its own is an undefined opcode. -/
inductive Reading (K : (Cpu → Cpu) → Prop) : {α : Type} → Exec β α → Prop
  | ofLocal {α : Type} {x : Exec β α} : Local K x → Reading K x
  | throw {α : Type} (opcode : UInt8) (addr : UInt16) :
      Reading K (throw (.illegalOpcode opcode addr) : Exec β α)
  | read8 (addr : UInt16) : Reading K (read8 addr)
  | read16 (addr : UInt16) : Reading K (onBus (Bus.read16 addr))
  | bind {α γ : Type} {x : Exec β α} {f : α → Exec β γ} :
      Reading K x → (∀ a, Reading K (f a)) → Reading K (x >>= f)

/-- The operation writes to the bus at most once, with nothing after it that can fail. -/
inductive Orderly (K : (Cpu → Cpu) → Prop) : {α : Type} → Exec β α → Prop
  | ofReading {α : Type} {x : Exec β α} : Reading K x → Orderly K x
  | write8 (addr : UInt16) (v : UInt8) : Orderly K (write8 addr v)
  | write16 (addr w : UInt16) : Orderly K (onBus (Bus.write16 addr w))
  | before {α γ : Type} {x : Exec β α} {f : α → Exec β γ} :
      Reading K x → (∀ a, Orderly K (f a)) → Orderly K (x >>= f)
  | after {α γ : Type} {x : Exec β α} {f : α → Exec β γ} :
      Orderly K x → (∀ a, Local K (f a)) → Orderly K (x >>= f)

variable {K : (Cpu → Cpu) → Prop}

theorem Orderly.ofLocal {α : Type} {x : Exec β α} (h : Local K x) : Orderly K x :=
  .ofReading (.ofLocal h)

theorem fetch8_reading : Reading K (fetch8 : Exec β UInt8) :=
  .bind (.ofLocal .regs) fun _ => .bind (.read8 _) fun _ =>
    .ofLocal (.bind (.modifyRegs _) fun _ => .pure _)

theorem fetch16_reading : Reading K (fetch16 : Exec β UInt16) :=
  .bind fetch8_reading fun _ => .bind fetch8_reading fun _ => .ofLocal (.pure _)

theorem readSlot_reading (s : Slot) : Reading K (readSlot s : Exec β UInt8) := by
  cases s with
  | reg r => exact .ofLocal (.bind .regs fun _ => .pure _)
  | atHl => exact .bind (.ofLocal .regs) fun _ => .read8 _

theorem writeSlot_orderly (s : Slot) (v : UInt8) : Orderly K (writeSlot s v : Exec β Unit) := by
  cases s with
  | reg r => exact .ofLocal (.modifyRegs (·.set r v))
  | atHl => exact .before (.ofLocal .regs) fun _ => .write8 _ _

theorem readOperand_reading (o : Operand) : Reading K (readOperand o : Exec β UInt8) := by
  cases o with
  | slot s => exact readSlot_reading s
  | imm => exact fetch8_reading

theorem address_reading (p : Pointer) : Reading K (address p : Exec β UInt16) := by
  cases p with
  | bc | de | highC => exact .ofLocal (.bind .regs fun _ => .pure _)
  | hlInc | hlDec =>
    exact .ofLocal (.bind .regs fun _ => .bind (.modifyRegs _) fun _ => .pure _)
  | highImm => exact .bind fetch8_reading fun _ => .ofLocal (.pure _)
  | absolute => exact fetch16_reading

theorem pushWord_orderly (w : UInt16) : Orderly K (pushWord w : Exec β Unit) :=
  .before (.ofLocal .regs) fun _ => .after (.write16 _ _) fun _ => .modifyRegs _

theorem popWord_reading : Reading K (popWord : Exec β UInt16) :=
  .bind (.ofLocal .regs) fun _ => .bind (.read16 _) fun _ =>
    .ofLocal (.bind (.modifyRegs _) fun _ => .pure _)

theorem updateSlot_orderly (s : Slot) (f : UInt8 → Flags → UInt8 × Flags) :
    Orderly K (updateSlot s f : Exec β Unit) :=
  .before (readSlot_reading s) fun _ => .before (.ofLocal .regs) fun _ =>
    .before (.ofLocal (.modifyRegs _)) fun _ => writeSlot_orderly s _

theorem callTo_orderly (target : UInt16) : Orderly K (callTo target : Exec β Unit) :=
  .before (.ofLocal .regs) fun _ => .after (pushWord_orderly _) fun _ => .modifyRegs _

theorem returnToCaller_reading : Reading K (returnToCaller : Exec β Unit) :=
  .bind popWord_reading fun _ => .ofLocal (.modifyRegs _)

theorem whenHolds_orderly (cond : Cond) {act : Exec β Unit} (h : Orderly K act) :
    Orderly K (whenHolds cond act) := by
  refine .before (.ofLocal .regs) fun r => ?_
  split
  · exact .after h fun _ => .pure _
  · exact .ofLocal (.pure _)

end Shape

end Exec

open Exec

section Instructions

variable {β : Type} [Bus β] {K : (Cpu → Cpu) → Prop}

theorem Instr.execute_orderly (i : Instr) (hK : ∀ f, i.Changes f → K f) :
    Orderly K (i.execute : Exec β Unit) := by
  unfold Instr.execute
  cases i with
  | nop => exact .ofLocal (.pure ())
  | stop =>
    exact .before (.ofLocal (.modifyCpu (hK _ .stop))) fun _ =>
      .ofLocal (.bind .regs fun _ => .report _)
  | halt => exact .ofLocal (.modifyCpu (hK _ .halt))
  | di | ei => exact .ofLocal (.modifyRegs _)
  | ld dst src => exact .before (readOperand_reading src) fun _ => writeSlot_orderly dst _
  | ldWord dst => exact .before fetch16_reading fun _ => .ofLocal (.modifyRegs _)
  | storeA dst =>
    exact .before (address_reading dst) fun _ => .before (.ofLocal .regs) fun _ => .write8 _ _
  | loadA src =>
    exact .before (address_reading src) fun _ => .before (.read8 _) fun _ =>
      .ofLocal (.modifyRegs _)
  | storeSp =>
    exact .before fetch16_reading fun _ => .before (.ofLocal .regs) fun _ => .write16 _ _
  | ldHlSpOffset | addSpOffset =>
    exact .before fetch8_reading fun _ => .ofLocal (.modifyRegs _)
  | alu op src => exact .before (readOperand_reading src) fun _ => .ofLocal (.modifyRegs _)
  | inc s | dec s => exact updateSlot_orderly s _
  | ldSpHl | incWord | decWord | addHl | rotateA | daa | cpl | scf | ccf | jpHl =>
    exact .ofLocal (.modifyRegs _)
  | reti =>
    exact .before returnToCaller_reading fun _ => .ofLocal (.modifyCpu (hK _ .reti))
  | rst vector => exact callTo_orderly vector
  | push reg => exact .before (.ofLocal .regs) fun _ => pushWord_orderly _
  | pop reg => exact .before popWord_reading fun _ => .ofLocal (.modifyRegs _)

theorem Branch.execute_orderly (b : Branch) : Orderly K (b.execute : Exec β Bool) := by
  cases b with
  | jp cond =>
    exact .before fetch16_reading fun _ => whenHolds_orderly cond (.ofLocal (.modifyRegs _))
  | jr cond =>
    exact .before fetch8_reading fun _ => .before (.ofLocal .regs) fun _ =>
      whenHolds_orderly cond (.ofLocal (.modifyRegs _))
  | call cond =>
    exact .before fetch16_reading fun _ => whenHolds_orderly cond (callTo_orderly _)
  | ret cond => exact whenHolds_orderly cond (.ofReading returnToCaller_reading)

theorem Extended.execute_orderly (i : Extended) : Orderly K (i.execute : Exec β Unit) := by
  unfold Extended.execute
  obtain ⟨op, target⟩ := i
  cases op with
  | shift s => exact updateSlot_orderly target _
  | bit n => exact .before (readSlot_reading target) fun _ => .ofLocal (.modifyRegs _)
  | res n | set n => exact updateSlot_orderly target _

namespace Exec

theorem perform_orderly (pc : UInt16) (opcode : UInt8)
    (hK : ∀ f, (Opcode.decode opcode).Changes f → K f) :
    Orderly K (perform pc opcode : Exec β Nat) := by
  unfold perform
  cases h : Opcode.decode opcode with
  | plain i =>
    refine .after (i.execute_orderly fun f hf => hK f ?_) fun _ => .pure _
    rw [h]
    exact .plain hf
  | branch b => exact .after b.execute_orderly fun _ => .pure _
  | extension =>
    exact .before fetch8_reading fun _ => .after (Extended.execute_orderly _) fun _ => .pure _
  | undefined =>
    refine .before (.ofLocal (.modifyCpu (hK _ ?_))) fun _ => .before (.ofLocal .regs) fun _ =>
      .before (.ofLocal (.report _)) fun _ => .ofReading (.throw _ _)
    rw [h]
    exact .undefined

theorem runInstruction_orderly (hK : ∀ (o : Opcode) f, o.Changes f → K f) :
    Orderly K (runInstruction : Exec β Nat) := by
  have rest (pc : UInt16) (opcode : UInt8) :
      Orderly K (do let cycles ← perform pc opcode; setCost cycles; return cycles : Exec β Nat) :=
    .after (perform_orderly pc opcode (hK _)) fun _ =>
      .bind (.modifyRegs _) fun _ => .pure _
  unfold runInstruction
  refine .before (.ofLocal .regs) fun r => .before fetch8_reading fun opcode =>
    .before (.ofLocal .cpu) fun cpu => ?_
  split
  · exact .before (.ofLocal (.report _)) fun _ => rest _ _
  · exact rest _ _

theorem pending_reading : Reading K (pending : Exec β Interrupts) :=
  .bind (.read8 _) fun _ => .bind (.read8 _) fun _ => .ofLocal (.pure _)

end Exec

end Instructions

end Handheld
