import Handheld.Proofs.Cpu.Step

namespace Handheld

/-- A part of the processor, apart from its program counter and what tells the time. -/
inductive Part
  | reg (r : Reg8)
  | flags | sp | ime
  | halted | stopped
  /-- The registers put aside by the latest interrupt. -/
  | saved
  | trace
  deriving DecidableEq, Repr

/-- The part is the same in two states of the processor. -/
def Part.Same (x y : Cpu) : Part → Prop
  | .reg r => y.regs.get r = x.regs.get r
  | .flags => y.regs.f = x.regs.f
  | .sp => y.regs.sp = x.regs.sp
  | .ime => y.regs.ime = x.regs.ime
  | .halted => y.halted = x.halted
  | .stopped => y.stopped = x.stopped
  | .saved => y.saved = x.saved
  | .trace => y.trace = x.trace

/-- What an interrupt puts aside. -/
def Part.file : List Part :=
  [.reg .a, .flags, .reg .b, .reg .c, .reg .d, .reg .e, .reg .h, .reg .l]

/-- The parts that make up a pair or pointer. -/
def Reg16.parts : Reg16 → List Part
  | .bc => [.reg .b, .reg .c]
  | .de => [.reg .d, .reg .e]
  | .hl => [.reg .h, .reg .l]
  | .sp => [.sp]
  | .af => [.reg .a, .flags]

/-- The register of a slot; memory is no part of the processor. -/
def Slot.parts : Slot → List Part
  | .reg r => [.reg r]
  | .atHl => []

/-- What moves when a pointer is used. -/
def Pointer.parts : Pointer → List Part
  | .hlInc | .hlDec => Reg16.hl.parts
  | .bc | .de | .highImm | .highC | .absolute => []

namespace Cpu

/-- Every part but those of a list is the same. -/
def Keeps (x y : Cpu) (parts : List Part) : Prop :=
  ∀ p, p ∉ parts → p.Same x y

variable {x y z : Cpu} {p : Part} {parts : List Part}

theorem Keeps.refl (x : Cpu) (parts : List Part) : x.Keeps x parts :=
  fun p _ => by cases p <;> rfl

theorem Keeps.trans (h : x.Keeps y parts) (h' : y.Keeps z parts) : x.Keeps z parts := by
  intro p hp
  have hxy := h p hp
  have hyz := h' p hp
  cases p <;> exact hyz.trans hxy

/-- To change no part but one of the list is enough. -/
theorem Keeps.of_others (h : p ∈ parts) (hothers : ∀ q, q ≠ p → q.Same x y) :
    x.Keeps y parts :=
  fun q hq => hothers q fun heq => hq (heq ▸ h)

theorem keeps_set {r : Reg8} (h : .reg r ∈ parts) (x : Cpu) (v : UInt8) :
    x.Keeps { x with regs := x.regs.set r v } parts := by
  refine .of_others h fun q hq => ?_
  cases q with
  | reg r' =>
    have hne : r ≠ r' := fun heq => hq (heq ▸ rfl)
    exact (RegisterFile.get_set _ r r' v).trans (if_neg hne)
  | flags => cases r <;> rfl
  | _ => rfl

theorem keeps_flags (h : .flags ∈ parts) (x : Cpu) (f : Flags) :
    x.Keeps { x with regs := { x.regs with f } } parts := by
  refine .of_others h fun q hq => ?_
  cases q with
  | flags => exact absurd rfl hq
  | reg r => cases r <;> rfl
  | _ => rfl

theorem keeps_sp (h : .sp ∈ parts) (x : Cpu) (w : UInt16) :
    x.Keeps { x with regs := { x.regs with sp := w } } parts :=
  .of_others h fun q hq => by cases q <;> first | rfl | exact absurd rfl hq

theorem keeps_ime (h : .ime ∈ parts) (x : Cpu) (ime : Bool) :
    x.Keeps { x with regs := { x.regs with ime } } parts :=
  .of_others h fun q hq => by cases q <;> first | rfl | exact absurd rfl hq

theorem keeps_halted (h : .halted ∈ parts) (x : Cpu) (halted : Bool) :
    x.Keeps { x with halted } parts :=
  .of_others h fun q hq => by cases q <;> first | rfl | exact absurd rfl hq

theorem keeps_stopped (h : .stopped ∈ parts) (x : Cpu) (stopped : Bool) :
    x.Keeps { x with stopped } parts :=
  .of_others h fun q hq => by cases q <;> first | rfl | exact absurd rfl hq

theorem keeps_saved (h : .saved ∈ parts) (x : Cpu) (saved : Option RegisterFile) :
    x.Keeps { x with saved } parts :=
  .of_others h fun q hq => by cases q <;> first | rfl | exact absurd rfl hq

theorem keeps_setAccumulator (ha : .reg .a ∈ parts) (hf : .flags ∈ parts) (x : Cpu)
    (af : UInt8 × Flags) : x.Keeps { x with regs := x.regs.setAccumulator af } parts :=
  (keeps_set ha x af.1).trans (keeps_flags hf _ af.2)

theorem keeps_setWord {reg : Reg16} (h : reg.parts ⊆ parts) (x : Cpu) (w : UInt16) :
    x.Keeps { x with regs := x.regs.setWord reg w } parts := by
  have htwo {p q : Part} (hpq : [p, q] ⊆ parts) : p ∈ parts ∧ q ∈ parts :=
    ⟨hpq (List.mem_cons_self ..), hpq (List.mem_cons_of_mem _ (List.mem_singleton_self _))⟩
  cases reg with
  | bc => exact (keeps_set (htwo h).1 x (Word.hi w)).trans (keeps_set (htwo h).2 _ (Word.lo w))
  | de => exact (keeps_set (htwo h).1 x (Word.hi w)).trans (keeps_set (htwo h).2 _ (Word.lo w))
  | hl => exact (keeps_set (htwo h).1 x (Word.hi w)).trans (keeps_set (htwo h).2 _ (Word.lo w))
  | sp => exact keeps_sp (h (List.mem_singleton_self _)) x w
  | af => exact keeps_setAccumulator (htwo h).1 (htwo h).2 x (Word.hi w, .ofByte (Word.lo w))

theorem keeps_file (h : Part.file ⊆ parts) (x : Cpu) (file : RegisterFile) :
    x.Keeps { x with regs := { x.regs with toRegisterFile := file } } parts := by
  intro p hp
  cases p with
  | flags => exact absurd (h (by decide)) hp
  | reg r => exact absurd (h (by cases r <;> decide)) hp
  | _ => rfl

/-- The registers come back if there are any to take back. -/
theorem keeps_leaveInterrupt (hime : .ime ∈ parts) (hsaved : .saved ∈ parts) (x : Cpu)
    (hfile : x.saved.isSome → Part.file ⊆ parts) : x.Keeps x.leaveInterrupt parts := by
  have hleave := (keeps_ime hime x true).trans (keeps_saved hsaved _ none)
  unfold leaveInterrupt
  cases hx : x.saved with
  | none => exact hleave
  | some file => exact hleave.trans (keeps_file (hfile (by rw [hx]; rfl)) _ file)

end Cpu

namespace Exec

section Operations

variable {α γ β : Type} {act : Exec β α} {x : Exec β γ} {s t : Circuit β} {parts : List Part}
  {a : α}

/-- Whatever comes of the operation on `s`, it changes no part of the processor but `parts`. -/
def Touches (parts : List Part) (act : Exec β α) (s : Circuit β) : Prop :=
  s.cpu.Keeps (Access.after act s).cpu parts

namespace Touches

theorem of_ok (h : Touches parts act s) (hact : act s = .ok a t) : s.cpu.Keeps t.cpu parts :=
  Access.after_of_ok hact ▸ h

theorem of_error {e : Fault} (h : Touches parts act s) (hact : act s = .error e t) :
    s.cpu.Keeps t.cpu parts :=
  Access.after_of_error hact ▸ h

theorem bind {f : γ → Exec β α} (hx : Touches parts x s)
    (hf : ∀ c u, x s = .ok c u → Touches parts (f c) u) : Touches parts (x >>= f) s := by
  unfold Touches
  cases hact : (x >>= f) s with
  | ok b t =>
    obtain ⟨c, u, hxs, hfu⟩ := Access.bind_eq_ok_iff.mp hact
    rw [Access.after_of_ok hact]
    exact (hx.of_ok hxs).trans ((hf c u hxs).of_ok hfu)
  | error e t =>
    rw [Access.after_of_error hact]
    obtain hxs | ⟨c, u, hxs, hfu⟩ := Access.bind_eq_error_iff.mp hact
    · exact hx.of_error hxs
    · exact (hx.of_ok hxs).trans ((hf c u hxs).of_error hfu)

/-- What reads the registers first touches what the rest touches. -/
theorem regs_bind {f : Registers → Exec β α} (h : Touches parts (f s.cpu.regs) s) :
    Touches parts (regs >>= f) s := h

theorem onBus (access : Access β α) : Touches parts (onBus access) s := by
  unfold Touches Exec.onBus
  rw [Access.after_zoom]
  exact .refl _ _

end Touches

end Operations

section Operands

variable {β : Type} [Bus β] {s : Circuit β} {parts : List Part}

theorem fetch8_touches : Touches parts fetch8 s :=
  Touches.regs_bind <| .bind (.onBus _) fun _ t _ => Cpu.Keeps.refl t.cpu _

theorem fetch16_touches : Touches parts fetch16 s :=
  .bind fetch8_touches fun _ _ _ => .bind fetch8_touches fun _ t _ => Cpu.Keeps.refl t.cpu _

theorem readSlot_touches (slot : Slot) : Touches parts (readSlot slot) s := by
  cases slot with
  | reg r => exact Cpu.Keeps.refl s.cpu _
  | atHl => exact Touches.regs_bind (.onBus _)

theorem writeSlot_touches {slot : Slot} (h : slot.parts ⊆ parts) (v : UInt8) :
    Touches parts (writeSlot slot v) s := by
  cases slot with
  | reg r => exact Cpu.keeps_set (h (List.mem_singleton_self _)) s.cpu v
  | atHl => exact Touches.regs_bind (.onBus _)

theorem readOperand_touches (o : Operand) : Touches parts (readOperand o) s := by
  cases o with
  | slot slot => exact readSlot_touches slot
  | imm => exact fetch8_touches

theorem address_touches {p : Pointer} (h : p.parts ⊆ parts) : Touches parts (address p) s := by
  cases p with
  | bc | de | highC => exact Cpu.Keeps.refl s.cpu _
  | hlInc | hlDec =>
    have hparts : Reg16.hl.parts ⊆ parts := h
    exact Cpu.keeps_setWord hparts s.cpu _
  | highImm => exact .bind fetch8_touches fun _ t _ => Cpu.Keeps.refl t.cpu _
  | absolute => exact fetch16_touches

theorem pushWord_touches (h : .sp ∈ parts) (w : UInt16) : Touches parts (pushWord w) s :=
  Touches.regs_bind <| .bind (.onBus _) fun _ t _ => Cpu.keeps_sp h t.cpu _

theorem popWord_touches (h : .sp ∈ parts) : Touches parts popWord s :=
  Touches.regs_bind <| .bind (.onBus _) fun _ t _ => Cpu.keeps_sp h t.cpu _

/-- Apart from its slot an update changes the flags, unless the function leaves them alone. -/
theorem updateSlot_touches (slot : Slot) (f : UInt8 → Flags → UInt8 × Flags) (parts : List Part)
    (h : .flags ∈ parts ∨ ∀ v flags, (f v flags).2 = flags) :
    Touches (parts ++ slot.parts) (updateSlot slot f) s := by
  have hslot : slot.parts ⊆ parts ++ slot.parts := List.subset_append_right _ _
  refine .bind (readSlot_touches slot) fun v t _ => Touches.regs_bind <|
    .bind ?_ fun _ _ _ => writeSlot_touches hslot _
  obtain hflags | hsame := h
  · exact Cpu.keeps_flags (List.mem_append_left _ hflags) t.cpu _
  · have hkept : Touches (parts ++ slot.parts)
        (modifyRegs fun r => { r with f := (f v t.cpu.regs.f).2 }) t := by
      rw [hsame]
      exact Cpu.Keeps.refl t.cpu _
    exact hkept

theorem callTo_touches (h : .sp ∈ parts) (target : UInt16) : Touches parts (callTo target) s :=
  Touches.regs_bind <| .bind (pushWord_touches h _) fun _ t _ => Cpu.Keeps.refl t.cpu _

theorem returnToCaller_touches (h : .sp ∈ parts) : Touches parts returnToCaller s :=
  .bind (popWord_touches h) fun _ t _ => Cpu.Keeps.refl t.cpu _

omit [Bus β] in
/-- An action with a condition touches what it touches if the condition holds. -/
theorem whenHolds_touches (cond : Cond) {act : Exec β Unit}
    (h : cond.holds s.cpu.regs.f = true → Touches parts act s) :
    Touches parts (whenHolds cond act) s := by
  refine Touches.regs_bind ?_
  split
  · next hcond => exact .bind (h hcond) fun _ t _ => Cpu.Keeps.refl t.cpu _
  · exact Cpu.Keeps.refl s.cpu _

end Operands

end Exec

end Handheld
