import Handheld.Proofs.Cpu.Step

namespace Handheld

/-- What an operation came to, with its state seen through `f`. -/
def Access.mapState {σ τ α : Type} (f : σ → τ) :
    EStateM.Result Fault σ α → EStateM.Result Fault τ α
  | .ok a s => .ok a (f s)
  | .error e s => .error e (f s)

/-- On states seen through `f` the second operation does what the first does. -/
def Access.Follows {σ τ α : Type} (f : σ → τ) (x : Access σ α) (y : Access τ α) : Prop :=
  ∀ s, y (f s) = mapState f (x s)

section Follows

variable {σ τ α γ : Type} {f : σ → τ}

theorem Access.Follows.pure (a : α) : Follows f (pure a : Access σ α) (pure a) :=
  fun _ => rfl

theorem Access.Follows.throw (e : Fault) : Follows f (throw e : Access σ α) (throw e) :=
  fun _ => rfl

theorem Access.Follows.bind {x : Access σ α} {y : Access τ α} {g : α → Access σ γ}
    {h : α → Access τ γ} (hx : Follows f x y) (hg : ∀ a, Follows f (g a) (h a)) :
    Follows f (x >>= g) (y >>= h) := by
  intro s
  have hy := hx s
  cases hrun : x s with
  | ok a t =>
    rw [hrun] at hy
    simp only [Bind.bind, EStateM.bind, hrun, hy, mapState]
    exact hg a t
  | error e t =>
    rw [hrun] at hy
    simp only [Bind.bind, EStateM.bind, hrun, hy, mapState]

theorem Access.Follows.of_ok {x : Access σ α} {y : Access τ α} (h : Follows f x y) {s u : σ} {a : α}
    (hx : x s = .ok a u) : y (f s) = .ok a (f u) := by
  rw [h s, hx]
  rfl

theorem Access.Follows.eq_ok {x : Access σ α} {y : Access τ α} (h : Follows f x y) {s : σ} {a : α}
    {t : τ} (hy : y (f s) = .ok a t) : ∃ u, x s = .ok a u ∧ t = f u := by
  rw [h s] at hy
  cases hx : x s <;> rw [hx] at hy <;> cases hy
  exact ⟨_, rfl, rfl⟩

theorem Access.Follows.eq_error {x : Access σ α} {y : Access τ α} (h : Follows f x y) {s : σ}
    {e : Fault} {t : τ} (hy : y (f s) = .error e t) : ∃ u, x s = .error e u ∧ t = f u := by
  rw [h s] at hy
  cases hx : x s <;> rw [hx] at hy <;> cases hy
  exact ⟨_, rfl, rfl⟩

theorem Access.Follows.after {x : Access σ α} {y : Access τ α} (h : Follows f x y) (s : σ) :
    Access.after y (f s) = f (Access.after x s) := by
  unfold Access.after
  rw [h s]
  cases x s <;> rfl

end Follows

/-- A map between buses that goes along with whatever a processor does with them. -/
structure Bus.Hom {β γ : Type} [Bus β] [Bus γ] (f : β → γ) : Prop where
  read8 : ∀ addr, Access.Follows f (Bus.read8 addr) (Bus.read8 addr)
  read16 : ∀ addr, Access.Follows f (Bus.read16 addr) (Bus.read16 addr)
  write8 : ∀ addr v, Access.Follows f (Bus.write8 addr v) (Bus.write8 addr v)
  write16 : ∀ addr w, Access.Follows f (Bus.write16 addr w) (Bus.write16 addr w)
  beginStep : ∀ pc b, Bus.beginStep pc (f b) = f (Bus.beginStep pc b)
  tick : ∀ n b, Bus.tick n (f b) = f (Bus.tick n b)
  report : ∀ n b, Bus.report n (f b) = f (Bus.report n b)

/-- The same processor at the other bus. -/
def Circuit.map {β γ : Type} (f : β → γ) (s : Circuit β) : Circuit γ :=
  ⟨s.cpu, f s.bus⟩

/-- At the other bus the second operation does what the first does. -/
abbrev Exec.Follows {β γ α : Type} (f : β → γ) (x : Exec β α) (y : Exec γ α) : Prop :=
  Access.Follows (Circuit.map f) x y

namespace Access.Follows

variable {β γ α : Type} {f : β → γ}

theorem cpu : Exec.Follows f Exec.cpu Exec.cpu := fun _ => rfl

theorem regs : Exec.Follows f Exec.regs Exec.regs := fun _ => rfl

theorem modifyCpu (g : Cpu → Cpu) : Exec.Follows f (Exec.modifyCpu g) (Exec.modifyCpu g) :=
  fun _ => rfl

theorem modifyRegs (g : Registers → Registers) :
    Exec.Follows f (Exec.modifyRegs g) (Exec.modifyRegs g) :=
  fun _ => rfl

theorem onBus {x : Access β α} {y : Access γ α} (h : Follows f x y) :
    Exec.Follows f (Exec.onBus x) (Exec.onBus y) := by
  intro s
  unfold Exec.onBus zoom
  change (match y (f s.bus) with | .ok a t => _ | .error e t => _) = _
  rw [h s.bus]
  cases x s.bus <;> rfl

theorem modifyBus {g : β → β} {h : γ → γ} (hgh : ∀ b, h (f b) = f (g b)) :
    Exec.Follows f (Exec.modifyBus g) (Exec.modifyBus h) := by
  intro s
  exact congrArg (fun b => EStateM.Result.ok () (Circuit.mk s.cpu b)) (hgh s.bus)

end Access.Follows

namespace Exec

variable {β γ : Type} {f : β → γ}

variable [Bus β] [Bus γ]

section Operands

variable (hf : Bus.Hom f)
include hf

theorem read8_follows (addr : UInt16) : Follows f (read8 addr) (read8 addr) :=
  .onBus (hf.read8 addr)

theorem write8_follows (addr : UInt16) (v : UInt8) : Follows f (write8 addr v) (write8 addr v) :=
  .onBus (hf.write8 addr v)

theorem report_follows (n : Cpu.Notice) : Follows f (report n) (report n) :=
  .modifyBus (hf.report n)

theorem fetch8_follows : Follows f fetch8 fetch8 :=
  .bind .regs fun _ => .bind (read8_follows hf _) fun _ => .bind (.modifyRegs _) fun _ => .pure _

theorem fetch16_follows : Follows f fetch16 fetch16 :=
  .bind (fetch8_follows hf) fun _ => .bind (fetch8_follows hf) fun _ => .pure _

theorem readSlot_follows (s : Slot) : Follows f (readSlot s) (readSlot s) := by
  cases s with
  | reg r => exact .bind .regs fun _ => .pure _
  | atHl => exact .bind .regs fun _ => read8_follows hf _

theorem writeSlot_follows (s : Slot) (v : UInt8) : Follows f (writeSlot s v) (writeSlot s v) := by
  cases s with
  | reg r => exact .modifyRegs (·.set r v)
  | atHl => exact .bind .regs fun _ => write8_follows hf _ _

theorem readOperand_follows (o : Operand) : Follows f (readOperand o) (readOperand o) := by
  cases o with
  | slot s => exact readSlot_follows hf s
  | imm => exact fetch8_follows hf

theorem address_follows (p : Pointer) : Follows f (address p) (address p) := by
  cases p with
  | bc | de | highC => exact .bind .regs fun _ => .pure _
  | hlInc | hlDec => exact .bind .regs fun _ => .bind (.modifyRegs _) fun _ => .pure _
  | highImm => exact .bind (fetch8_follows hf) fun _ => .pure _
  | absolute => exact fetch16_follows hf

theorem pushWord_follows (w : UInt16) : Follows f (pushWord w) (pushWord w) :=
  .bind .regs fun _ => .bind (.onBus (hf.write16 _ w)) fun _ => .modifyRegs _

theorem popWord_follows : Follows f popWord popWord :=
  .bind .regs fun _ => .bind (.onBus (hf.read16 _)) fun _ => .bind (.modifyRegs _) fun _ => .pure _

theorem updateSlot_follows (s : Slot) (g : UInt8 → Flags → UInt8 × Flags) :
    Follows f (updateSlot s g) (updateSlot s g) :=
  .bind (readSlot_follows hf s) fun _ => .bind .regs fun _ => .bind (.modifyRegs _) fun _ =>
    writeSlot_follows hf s _

theorem callTo_follows (target : UInt16) : Follows f (callTo target) (callTo target) :=
  .bind .regs fun _ => .bind (pushWord_follows hf _) fun _ => .modifyRegs _

theorem returnToCaller_follows : Follows f returnToCaller returnToCaller :=
  .bind (popWord_follows hf) fun _ => .modifyRegs _

omit [Bus β] [Bus γ] hf in
theorem whenHolds_follows (cond : Cond) {x : Exec β Unit} {y : Exec γ Unit} (h : Follows f x y) :
    Follows f (whenHolds cond x) (whenHolds cond y) := by
  refine .bind .regs fun r => ?_
  split
  · exact .bind h fun _ => .pure _
  · exact .pure _

end Operands

end Exec

section Instructions

open Exec

variable {β γ : Type} [Bus β] [Bus γ] {f : β → γ} (hf : Bus.Hom f)
include hf

theorem Instr.execute_follows (i : Instr) : Follows f i.execute i.execute := by
  unfold Instr.execute
  cases i with
  | nop => exact .pure ()
  | stop => exact .bind (.modifyCpu _) fun _ => .bind .regs fun _ => report_follows hf _
  | halt => exact .modifyCpu _
  | di | ei => exact .modifyRegs _
  | ld dst src => exact .bind (readOperand_follows hf src) fun _ => writeSlot_follows hf dst _
  | ldWord dst => exact .bind (fetch16_follows hf) fun _ => .modifyRegs _
  | storeA dst =>
    exact .bind (address_follows hf dst) fun _ => .bind .regs fun _ => write8_follows hf _ _
  | loadA src =>
    exact .bind (address_follows hf src) fun _ => .bind (read8_follows hf _) fun _ => .modifyRegs _
  | storeSp =>
    exact .bind (fetch16_follows hf) fun _ => .bind .regs fun _ => .onBus (hf.write16 _ _)
  | ldHlSpOffset | addSpOffset => exact .bind (fetch8_follows hf) fun _ => .modifyRegs _
  | alu op src => exact .bind (readOperand_follows hf src) fun _ => .modifyRegs _
  | inc s | dec s => exact updateSlot_follows hf s _
  | ldSpHl | incWord | decWord | addHl | rotateA | daa | cpl | scf | ccf | jpHl =>
    exact .modifyRegs _
  | reti => exact .bind (returnToCaller_follows hf) fun _ => .modifyCpu _
  | rst vector => exact callTo_follows hf vector
  | push reg => exact .bind .regs fun _ => pushWord_follows hf _
  | pop reg => exact .bind (popWord_follows hf) fun _ => .modifyRegs _

theorem Branch.execute_follows (b : Branch) : Follows f b.execute b.execute := by
  cases b with
  | jp cond => exact .bind (fetch16_follows hf) fun _ => whenHolds_follows cond (.modifyRegs _)
  | jr cond =>
    exact .bind (fetch8_follows hf) fun _ => .bind .regs fun _ =>
      whenHolds_follows cond (.modifyRegs _)
  | call cond =>
    exact .bind (fetch16_follows hf) fun _ => whenHolds_follows cond (callTo_follows hf _)
  | ret cond => exact whenHolds_follows cond (returnToCaller_follows hf)

theorem Extended.execute_follows (i : Extended) : Follows f i.execute i.execute := by
  unfold Extended.execute
  obtain ⟨op, target⟩ := i
  cases op with
  | shift s => exact updateSlot_follows hf target _
  | bit n => exact .bind (readSlot_follows hf target) fun _ => .modifyRegs _
  | res n | set n => exact updateSlot_follows hf target _

namespace Exec

theorem perform_follows (pc : UInt16) (opcode : UInt8) :
    Follows f (perform pc opcode) (perform pc opcode) := by
  unfold perform
  cases Opcode.decode opcode with
  | plain i => exact .bind (i.execute_follows hf) fun _ => .pure _
  | branch b => exact .bind (b.execute_follows hf) fun _ => .pure _
  | extension =>
    exact .bind (fetch8_follows hf) fun _ => .bind (Extended.execute_follows hf _) fun _ => .pure _
  | undefined =>
    exact .bind (.modifyCpu _) fun _ => .bind .regs fun _ => .bind (report_follows hf _) fun _ =>
      .throw _

theorem runInstruction_follows : Follows f runInstruction runInstruction := by
  have rest (pc : UInt16) (opcode : UInt8) :
      Follows f (do let cycles ← perform pc opcode; setCost cycles; return cycles)
        (do let cycles ← perform pc opcode; setCost cycles; return cycles) :=
    .bind (perform_follows hf pc opcode) fun _ => .bind (.modifyRegs _) fun _ => .pure _
  unfold runInstruction
  refine .bind .regs fun r => .bind (fetch8_follows hf) fun opcode => .bind .cpu fun cpu => ?_
  split
  · exact .bind (report_follows hf _) fun _ => rest _ _
  · exact rest _ _

theorem pending_follows : Follows f pending pending :=
  .bind (read8_follows hf _) fun _ => .bind (read8_follows hf _) fun _ => .pure _

theorem acknowledge_follows : Follows f acknowledge acknowledge :=
  .bind (read8_follows hf _) fun _ => write8_follows hf _ _

theorem enterRoutine_follows : Follows f enterRoutine enterRoutine :=
  .bind .regs fun _ => .bind (pushWord_follows hf _) fun _ =>
    .bind (acknowledge_follows hf) fun _ => .bind (.modifyCpu _) fun _ => report_follows hf _

theorem dispatch_follows : Follows f dispatch dispatch := by
  refine .bind .regs fun r => ?_
  split
  · refine .bind (pending_follows hf) fun sources => ?_
    split
    · exact .bind (enterRoutine_follows hf) fun _ => .pure _
    · exact .pure _
  · exact .pure _

theorem idle_follows : Follows f idle idle := by
  have rest : Follows f (do setCost 1; return 1) (do setCost 1; return 1) :=
    .bind (.modifyRegs _) fun _ => .pure _
  refine .bind (pending_follows hf) fun sources => ?_
  split
  · exact .bind (.modifyCpu _) fun _ => rest
  · exact rest

theorem work_follows : Follows f work work := by
  intro s
  -- What the work is depends on the state, so that it is compared at each state apart.
  have hbegan : began (s.map f) = (began s).map f :=
    congrArg (Circuit.mk s.cpu) (hf.beginStep s.cpu.regs.pc s.bus)
  unfold work
  rw [hbegan]
  change (if s.cpu.halted = true then idle else runInstruction) ((began s).map f) = _
  split
  · exact idle_follows hf (began s)
  · exact runInstruction_follows hf (began s)

theorem elapse_follows (cycles : Nat) : Follows f (elapse cycles) (elapse cycles) :=
  .bind (.modifyCpu _) fun _ => .modifyBus (hf.tick cycles)

theorem finishStep_follows : Follows f finishStep finishStep := by
  refine .bind .cpu fun cpu => ?_
  split
  · exact .pure _
  · refine .bind (dispatch_follows hf) fun entered => ?_
    split
    · exact .bind (elapse_follows hf _) fun _ => .pure _
    · exact .pure _

/-- A step does the same at either bus. -/
theorem step_follows : Follows f step step := by
  have rest (cycles : Nat) :
      Follows f (do elapse cycles; return cycles + (← finishStep))
        (do elapse cycles; return cycles + (← finishStep)) :=
    .bind (elapse_follows hf cycles) fun _ => .bind (finishStep_follows hf) fun _ => .pure _
  refine .bind .cpu fun cpu => ?_
  split
  · exact .pure _
  · refine .bind .regs fun r => .bind (.modifyBus (hf.beginStep r.pc)) fun _ =>
      .bind .cpu fun cpu => ?_
    split
    · exact .bind (idle_follows hf) fun cycles => rest cycles
    · exact .bind (runInstruction_follows hf) fun cycles => rest cycles

end Exec

end Instructions

end Handheld
