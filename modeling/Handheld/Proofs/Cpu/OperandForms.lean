import Handheld.Proofs.Cpu.Bytewise
import Handheld.Proofs.Cpu.Decoded

namespace Handheld

/-- An instruction whose operand is the byte in a slot. -/
inductive SlotOp
  | inc
  | dec
  | bits (op : BitOp)
  deriving DecidableEq, Repr, Inhabited

namespace SlotOp

/-- The instruction for a slot. -/
def decoded (o : SlotOp) (slot : Slot) : Decoded :=
  match o with
  | .inc => .plain (.inc slot)
  | .dec => .plain (.dec slot)
  | .bits op => .extended ⟨op, slot⟩

/-- What is made of a byte and the flags. A byte that is only tested is not put back. -/
def result (o : SlotOp) (v : UInt8) (f : Flags) : Option UInt8 × Flags :=
  match o with
  | .inc => (Alu.inc v f).map some id
  | .dec => (Alu.dec v f).map some id
  | .bits (.shift s) => (Alu.shift s v f).map some id
  | .bits (.bit n) => (none, Alu.testBit n v f)
  | .bits (.res n) => (some (v &&& ~~~Alu.mask n), f)
  | .bits (.set n) => (some (v ||| Alu.mask n), f)

end SlotOp

namespace Exec

variable {β : Type} [Bus β] {P : β → Prop} {s t u w : Circuit β} {v : UInt8}

/-- The step of `s` is an operation of the accumulator, for which it finds the operand `v` in a
    register, in memory or behind the opcode. -/
def Applies (op : AluOp) (v : UInt8) (s : Circuit β) : Prop :=
  ∃ src u w, ComesTo s (.plain (.alu op src)) u ∧ readOperand src u = .ok v w

theorem accumulator_ends (hs : Undisturbed s) {op : AluOp} (h : Applies op v s) :
    ∃ c u t, Ends s c u t ∧
      (t.cpu.regs.a, t.cpu.regs.f) = Alu.apply op s.cpu.regs.a s.cpu.regs.f v := by
  obtain ⟨src, u, w, hcomes, hread⟩ := h
  have hperform := alu_performs op src v u w hread
  have hexecute : (Decoded.plain (.alu op src)).execute u = .ok (Instr.alu op src).cycles _ :=
    Access.bind_eq_ok_iff.mpr ⟨(), _, hperform, rfl⟩
  obtain ⟨t, hends⟩ := hs.ends hcomes hexecute
  refine ⟨_, _, t, hends, ?_⟩
  rw [hends.cpu, Alu.apply_eq_turn]
  have hcpu := hcomes.cpu
  simp only [elapsed, costing, Cpu.regs_advanceClock, Registers.toRegisterFile_setCost,
    Registers.setAccumulator, hcpu]

/-- The step of `s` is an operation on a slot, in which it finds `v`; `w` is the state in which it
    has been read. -/
def Operates (o : SlotOp) (slot : Slot) (v : UInt8) (s w : Circuit β) : Prop :=
  ∃ u, ComesTo s (o.decoded slot) u ∧ readSlot slot u = .ok v w

/-- Between `w` and `t` a byte is put into a slot, or none, in which case the slot is let alone. -/
def PutsBack (slot : Slot) (b? : Option UInt8) (w t : Circuit β) : Prop :=
  match slot, b? with
  | .reg r, some b => t.cpu.regs.get r = b ∧ t.bus = w.bus
  | .atHl, some b => Bus.write8 w.cpu.regs.hl b w.bus = .ok () t.bus
  | .reg r, none => t.cpu.regs.get r = w.cpu.regs.get r ∧ t.bus = w.bus
  | .atHl, none => t.bus = w.bus

theorem cpu_readSlot {slot : Slot} (h : readSlot slot s = .ok v t) : t.cpu = s.cpu := by
  cases slot with
  | reg r =>
    cases h
    rfl
  | atHl =>
    obtain ⟨b, -, rfl⟩ := onBus_eq_ok_iff.mp h
    rfl

theorem granted_readSlot {slot : Slot} (hP : Bus.Granting P) (hs : P s.bus)
    (h : readSlot slot s = .ok v t) : P t.bus :=
  ((readSlot_reading (K := fun _ => False) slot).preserves (P := fun _ (b : β) => P b)
    ⟨fun _ _ _ h => h, fun _ _ _ _ h => h⟩ fun _ => hP.toReadStable).of_ok hs h

/-- A byte that is replaced is put back, after the flags have been set. -/
theorem updateSlot_putsBack {slot : Slot} (f : UInt8 → Flags → UInt8 × Flags)
    (hP : Bus.Granting P) (hu : P u.bus) (hread : readSlot slot u = .ok v w) :
    ∃ t, updateSlot slot f u = .ok () t ∧ t.cpu.regs.f = (f v u.cpu.regs.f).2 ∧
      PutsBack slot (some (f v u.cpu.regs.f).1) w t := by
  have hcpu := cpu_readSlot hread
  have hw := granted_readSlot hP hu hread
  unfold updateSlot
  rw [Access.bind_of_ok hread, regs_bind, hcpu]
  cases slot with
  | reg r =>
    refine ⟨_, rfl, ?_, ?_, rfl⟩
    · cases r <;> rfl
    · exact (RegisterFile.get_set _ r r _).trans (if_pos rfl)
  | atHl =>
    obtain ⟨b, hwrite⟩ := hP.write8_succeeds w.cpu.regs.hl (f v u.cpu.regs.f).1 w.bus hw
    refine ⟨⟨{ w.cpu with regs := { w.cpu.regs with f := (f v u.cpu.regs.f).2 } }, b⟩, ?_, rfl,
      hwrite⟩
    exact onBus_eq_ok_iff.mpr ⟨b, hwrite, rfl⟩

theorem slotOp_executes {slot : Slot} (o : SlotOp) (hP : Bus.Granting P) (hu : P u.bus)
    (hread : readSlot slot u = .ok v w) :
    ∃ n t, (o.decoded slot).execute u = .ok n t ∧ t.cpu.regs.f = (o.result v u.cpu.regs.f).2 ∧
      PutsBack slot (o.result v u.cpu.regs.f).1 w t := by
  have hupdate (f : UInt8 → Flags → UInt8 × Flags) := updateSlot_putsBack f hP hu hread
  have hcost {act : Exec β Unit} {n : Nat} {t : Circuit β} (h : act u = .ok () t) :
      (act >>= fun _ => pure n : Exec β Nat) u = .ok n t :=
    Access.bind_eq_ok_iff.mpr ⟨(), t, h, rfl⟩
  cases o with
  | inc =>
    obtain ⟨t, ht, hf, hback⟩ := hupdate Alu.inc
    exact ⟨_, t, hcost ht, hf, hback⟩
  | dec =>
    obtain ⟨t, ht, hf, hback⟩ := hupdate Alu.dec
    exact ⟨_, t, hcost ht, hf, hback⟩
  | bits op =>
    cases op with
    | shift s =>
      obtain ⟨t, ht, hf, hback⟩ := hupdate (Alu.shift s)
      exact ⟨_, t, hcost ht, hf, hback⟩
    | bit n =>
      have hcpu := cpu_readSlot hread
      have hexecute : (Extended.mk (.bit n) slot).execute u =
          .ok () { w with cpu := { w.cpu with
            regs := { w.cpu.regs with f := Alu.testBit n v w.cpu.regs.f } } } :=
        Access.bind_eq_ok_iff.mpr ⟨v, w, hread, rfl⟩
      refine ⟨_, _, hcost hexecute, congrArg (fun cpu => Alu.testBit n v cpu.regs.f) hcpu, ?_⟩
      cases slot with
      | reg r => exact ⟨by cases r <;> rfl, rfl⟩
      | atHl => rfl
    | res n =>
      obtain ⟨t, ht, hf, hback⟩ := hupdate fun v f => (v &&& ~~~Alu.mask n, f)
      exact ⟨_, t, hcost ht, hf, hback⟩
    | set n =>
      obtain ⟨t, ht, hf, hback⟩ := hupdate fun v f => (v ||| Alu.mask n, f)
      exact ⟨_, t, hcost ht, hf, hback⟩

theorem PutsBack.costing {slot : Slot} {b? : Option UInt8} (h : PutsBack slot b? w t) (n : Nat) :
    PutsBack slot b? w (costing n t) := by
  cases slot <;> cases b? <;> exact h

theorem slotOp_ends (hs : Undisturbed s) {o : SlotOp} {slot : Slot} (h : Operates o slot v s w) :
    ∃ c u t, Ends s c u t ∧ t.cpu.regs.f = (o.result v s.cpu.regs.f).2 ∧
      PutsBack slot (o.result v s.cpu.regs.f).1 w u := by
  obtain ⟨u, hcomes, hread⟩ := h
  obtain ⟨P, hP, hbus⟩ := hs.granting
  obtain ⟨n, x, hexecute, hf, hback⟩ :=
    slotOp_executes o hP (hcomes.granted hP hbus) hread
  obtain ⟨t, hends⟩ := hs.ends hcomes hexecute
  have hflags : u.cpu.regs.f = s.cpu.regs.f := by rw [hcomes.cpu]
  rw [hflags] at hf hback
  exact ⟨n, _, t, hends, (congrArg (·.regs.f) hends.cpu).trans hf, hback.costing n⟩

theorem rotateA_ends (hs : Undisturbed s) {shift : Shift}
    (h : ComesTo s (.plain (.rotateA shift)) u) :
    ∃ c u t, Ends s c u t ∧ t.cpu.regs.a = (Alu.shift shift s.cpu.regs.a s.cpu.regs.f).1 ∧
      t.cpu.regs.f = { (Alu.shift shift s.cpu.regs.a s.cpu.regs.f).2 with zero := false } := by
  obtain ⟨t, hends⟩ := hs.ends h (v := _) rfl
  refine ⟨_, _, t, hends, ?_, ?_⟩
  · rw [hends.cpu]
    simp only [elapsed, costing, h.cpu]
    rfl
  · rw [hends.cpu]
    simp only [elapsed, costing, h.cpu]
    rfl

/-- Whether an operand is in a register, in memory or behind the opcode, the accumulator and the
    flags come out the same, and so does the byte that is put back. The short rotations of the
    accumulator are the long ones but for the zero flag. No such step fails. -/
theorem operand_forms_agree {β' : Type} [Bus β'] {s' : Circuit β'} (hs : Undisturbed s)
    (hs' : Undisturbed s') (hflags : s'.cpu.regs.f = s.cpu.regs.f) :
    (∀ op v, Applies op v s → Applies op v s' → s'.cpu.regs.a = s.cpu.regs.a →
      ∃ c u t c' u' t', Ends s c u t ∧ Ends s' c' u' t' ∧
        t'.cpu.regs.a = t.cpu.regs.a ∧ t'.cpu.regs.f = t.cpu.regs.f) ∧
    (∀ o slot slot' v w w', Operates o slot v s w → Operates o slot' v s' w' →
      ∃ c u t c' u' t', Ends s c u t ∧ Ends s' c' u' t' ∧ t'.cpu.regs.f = t.cpu.regs.f ∧
        PutsBack slot (o.result v s.cpu.regs.f).1 w u ∧
        PutsBack slot' (o.result v s.cpu.regs.f).1 w' u') ∧
    ∀ shift u₀ u₀', ComesTo s (.plain (.rotateA shift)) u₀ →
      ComesTo s' (.extended ⟨.shift shift, .reg .a⟩) u₀' → s'.cpu.regs.a = s.cpu.regs.a →
      ∃ c u t c' u' t', Ends s c u t ∧ Ends s' c' u' t' ∧
        t.cpu.regs.a = t'.cpu.regs.a ∧ t.cpu.regs.f = { t'.cpu.regs.f with zero := false } := by
  refine ⟨?_, ?_, ?_⟩
  · intro op v h h' ha
    obtain ⟨c, u, t, hends, hresult⟩ := accumulator_ends hs h
    obtain ⟨c', u', t', hends', hresult'⟩ := accumulator_ends hs' h'
    rw [ha, hflags, ← hresult, Prod.mk.injEq] at hresult'
    exact ⟨c, u, t, c', u', t', hends, hends', hresult'⟩
  · intro o slot slot' v w w' h h'
    obtain ⟨c, u, t, hends, hf, hback⟩ := slotOp_ends hs h
    obtain ⟨c', u', t', hends', hf', hback'⟩ := slotOp_ends hs' h'
    rw [hflags] at hf' hback'
    exact ⟨c, u, t, c', u', t', hends, hends', hf'.trans hf.symm, hback, hback'⟩
  · intro shift u₀ u₀' h h' ha
    obtain ⟨c, u, t, hends, hvalue, hf⟩ := rotateA_ends hs h
    have hread : readSlot (.reg .a) u₀' = .ok s'.cpu.regs.a u₀' := by
      have hcpu : u₀'.cpu.regs.a = s'.cpu.regs.a := by rw [h'.cpu]
      rw [← hcpu]
      rfl
    obtain ⟨c', u', t', hends', hf', hback'⟩ :=
      slotOp_ends hs' (o := .bits (.shift shift)) ⟨u₀', h', hread⟩
    have hvalue' : t'.cpu.regs.a = (Alu.shift shift s'.cpu.regs.a s'.cpu.regs.f).1 :=
      (congrArg (·.regs.a) hends'.cpu).trans hback'.1
    rw [ha, hflags] at hvalue' hf'
    refine ⟨c, u, t, c', u', t', hends, hends', hvalue.trans hvalue'.symm, ?_⟩
    rw [hf, hf']
    rfl

/-- A processor about to execute an instruction of one or two bytes, with `0x9C` in `H` and `L` and
    in the memory where they point. -/
def poised (first second : UInt8) : Circuit FlatMemory where
  cpu := { regs := { a := 0x64, f := { carry := true }, h := 0x9C, l := 0x9C, ime := false } }
  bus := ((FlatMemory.set {} 0x0000 first).set 0x0001 second).set 0x9C9C 0x9C

variable {first second : UInt8} {d : Decoded}

theorem get_poised (first second : UInt8) : (poised first second).bus.get 0x0000 = first ∧
    (poised first second).bus.get 0x0001 = second ∧
    (poised first second).bus.get 0x9C9C = 0x9C := by
  simp [poised, FlatMemory.get_set]

theorem fetches_poised (first second : UInt8) :
    Fetches (poised first second) first (past (began (poised first second))) := by
  have hfetches : Fetches (poised first second) ((poised first second).bus.get 0x0000) _ :=
    fetches_of_readable rfl rfl rfl rfl
  rwa [(get_poised first second).1] at hfetches

theorem fetch8_past_poised (first second : UInt8) :
    fetch8 (past (began (poised first second))) =
      .ok second (past (past (began (poised first second)))) := by
  have hfetch : fetch8 (past (began (poised first second))) =
      .ok ((poised first second).bus.get 0x0001) _ := fetch8_of_readable rfl
  rwa [(get_poised first second).2.1] at hfetch

theorem undisturbed_poised {u v : Circuit FlatMemory} {n : Nat}
    (h : ComesTo (poised first second) d u) (hexecute : d.execute u = .ok n v)
    (hime : v.cpu.regs.ime = false) : Undisturbed (poised first second) :=
  ⟨⟨_, FlatMemory.granting, fun _ => rfl, fun _ => rfl⟩, h.quiet hexecute hime⟩

/-- The byte is added with the carry from behind the opcode as from `H`, halved in memory as in `L`,
    and the accumulator is rotated by both instructions for it. -/
theorem operand_forms_agree_poised :
    (∃ c u t c' u' t', Ends (poised 0x8C 0x00) c u t ∧ Ends (poised 0xCE 0x9C) c' u' t' ∧
      t'.cpu.regs.a = t.cpu.regs.a ∧ t'.cpu.regs.f = t.cpu.regs.f) ∧
    (∃ w w' c u t c' u' t', Ends (poised 0xCB 0x3D) c u t ∧ Ends (poised 0xCB 0x3E) c' u' t' ∧
      t'.cpu.regs.f = t.cpu.regs.f ∧ PutsBack (.reg .l) (some 0x4E) w u ∧
      PutsBack .atHl (some 0x4E) w' u') ∧
    ∃ c u t c' u' t', Ends (poised 0x17 0x00) c u t ∧ Ends (poised 0xCB 0x17) c' u' t' ∧
      t.cpu.regs.a = t'.cpu.regs.a ∧ t.cpu.regs.f = { t'.cpu.regs.f with zero := false } := by
  have hplain {first second : UInt8} {i : Instr} (h : Opcode.decode first = .plain i) :
      ComesTo (poised first second) (.plain i) (past (began (poised first second))) :=
    .plain (fetches_poised first second) h
  have hextended (second : UInt8) : ComesTo (poised 0xCB second) (.extended (.decode second))
      (past (past (began (poised 0xCB second)))) :=
    .extended (fetches_poised 0xCB second) (by decide) (fetch8_past_poised 0xCB second)
  refine ⟨?_, ?_, ?_⟩
  · have hregister : ComesTo (poised 0x8C 0x00) (.plain (.alu .adc (.slot (.reg .h)))) _ :=
      hplain (by decide)
    have himmediate : ComesTo (poised 0xCE 0x9C) (.plain (.alu .adc .imm)) _ := hplain (by decide)
    have hagree := operand_forms_agree (undisturbed_poised hregister rfl rfl)
      (undisturbed_poised himmediate rfl rfl) rfl
    exact hagree.1 .adc 0x9C ⟨_, _, _, hregister, rfl⟩
      ⟨_, _, _, himmediate, fetch8_past_poised 0xCE 0x9C⟩ rfl
  · have hregister : ComesTo (poised 0xCB 0x3D) (.extended ⟨.shift .srl, .reg .l⟩) _ :=
      hextended 0x3D
    have hmemory : ComesTo (poised 0xCB 0x3E) (.extended ⟨.shift .srl, .atHl⟩) _ :=
      hextended 0x3E
    have hread : readSlot .atHl (past (past (began (poised 0xCB 0x3E)))) =
        .ok ((poised 0xCB 0x3E).bus.get 0x9C9C) _ := rfl
    rw [(get_poised 0xCB 0x3E).2.2] at hread
    have hagree := operand_forms_agree (undisturbed_poised hregister rfl rfl)
      (undisturbed_poised hmemory rfl rfl) rfl
    exact ⟨_, _, hagree.2.1 (.bits (.shift .srl)) (.reg .l) .atHl 0x9C _ _ ⟨_, hregister, rfl⟩
      ⟨_, hmemory, hread⟩⟩
  · have hshort : ComesTo (poised 0x17 0x00) (.plain (.rotateA .rl)) _ := hplain (by decide)
    have hlong : ComesTo (poised 0xCB 0x17) (.extended ⟨.shift .rl, .reg .a⟩) _ :=
      hextended 0x17
    have hagree := operand_forms_agree (undisturbed_poised hshort rfl rfl)
      (undisturbed_poised hlong rfl rfl) rfl
    exact hagree.2.2 .rl _ _ hshort hlong rfl

end Exec

end Handheld
