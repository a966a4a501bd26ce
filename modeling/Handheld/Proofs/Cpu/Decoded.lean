import Handheld.Proofs.Cpu.Effect

namespace Handheld

/-- An instruction that has been decoded. -/
inductive Decoded
  | plain (i : Instr)
  | branch (b : Branch)
  | extended (i : Extended)
  deriving DecidableEq, Repr, Inhabited

namespace Decoded

/-- The number of bytes that tell the instruction, without its operands. -/
def opcodes : Decoded → Nat
  | .plain _ | .branch _ => 1
  | .extended _ => 2

/-- The number of bytes of the instruction. -/
def length : Decoded → Nat
  | .plain i => i.length
  | .branch b => b.length
  | .extended _ => 2

/-- Executes the instruction. The result is its cost. -/
def execute {β : Type} [Bus β] : Decoded → Exec β Nat
  | .plain i => do
    i.execute
    return i.cycles
  | .branch b => do
    let taken ← b.execute
    return b.cycles + if taken then b.takenCycles else 0
  | .extended i => do
    i.execute
    return i.cycles

end Decoded

namespace FlatMemory

theorem read8_keeps (addr : UInt16) :
    Access.Preserves Faultless (Bus.read8 addr : Access FlatMemory UInt8) := by
  intro m hm
  obtain ⟨hread, hwrite⟩ := hm
  have hok := read8_eq_ok_iff.mpr ⟨hread addr, rfl, rfl⟩
  rw [Access.after_of_ok hok]
  exact ⟨hread, hwrite⟩

theorem write8_keeps (addr : UInt16) (v : UInt8) :
    Access.Preserves Faultless (Bus.write8 addr v : Access FlatMemory Unit) := by
  intro m hm
  obtain ⟨hread, hwrite⟩ := hm
  have hok := write8_eq_ok_iff.mpr ⟨hwrite addr, (rfl : (m.set addr v).note (.write addr v) = _)⟩
  rw [Access.after_of_ok hok]
  exact ⟨hread, hwrite⟩

end FlatMemory

/-- A property of the bus under which it refuses nothing. Neither an access nor a step that begins
    nor the passing of time destroys it. -/
structure Bus.Granting {β : Type} [Bus β] (P : β → Prop) : Prop extends Bus.Obliging P where
  beginStep : ∀ pc b, P b → P (Bus.beginStep pc b)
  tick : ∀ n b, P b → P (Bus.tick n b)

namespace Exec

variable {β : Type} [Bus β] {P : β → Prop} {s t u v : Circuit β} {d : Decoded} {e : Fault}
  {opcode : UInt8} {n : Nat}

/-- A running processor fetches an opcode, and `u` is the state in which it has done so. -/
structure Fetches (s : Circuit β) (opcode : UInt8) (u : Circuit β) : Prop where
  running : s.cpu.stopped = false
  awake : s.cpu.halted = false
  fetched : ∃ v, fetch8 (began s) = .ok opcode v ∧ u = traced s.cpu.regs.pc opcode v

/-- The step of `s` comes to an instruction, and `u` is the state in which it is executed. -/
inductive ComesTo (s : Circuit β) : Decoded → Circuit β → Prop
  | plain {opcode : UInt8} {i : Instr} {u : Circuit β} :
      Fetches s opcode u → Opcode.decode opcode = .plain i → ComesTo s (.plain i) u
  | branch {opcode : UInt8} {b : Branch} {u : Circuit β} :
      Fetches s opcode u → Opcode.decode opcode = .branch b → ComesTo s (.branch b) u
  | extended {opcode second : UInt8} {u v : Circuit β} :
      Fetches s opcode u → Opcode.decode opcode = .extension → fetch8 u = .ok second v →
      ComesTo s (.extended (.decode second)) v

theorem Fetches.work_eq (h : Fetches s opcode u) : work s =
    (perform s.cpu.regs.pc opcode >>= fun n => setCost n >>= fun _ => pure n : Exec β Nat) u := by
  obtain ⟨v, hfetch, rfl⟩ := h.fetched
  rw [work_of_running h.awake]
  unfold runInstruction
  rw [regs_bind, Access.bind_of_ok hfetch, traced_bind]
  rfl

theorem Fetches.cpu (h : Fetches s opcode u) :
    u.cpu = { s.cpu with regs := { s.cpu.regs with pc := s.cpu.regs.pc + 1 } } := by
  obtain ⟨v, hfetch, rfl⟩ := h.fetched
  obtain ⟨b, -, rfl⟩ := fetch8_eq_ok_iff.mp hfetch
  exact cpu_traced _ _ _

theorem ComesTo.running (h : ComesTo s d u) : s.cpu.stopped = false := by
  cases h with
  | plain h _ | branch h _ | extended h _ _ => exact h.running

/-- After its opcode the work of a step is what the instruction does. -/
theorem ComesTo.work_eq (h : ComesTo s d u) : work s =
    (d.execute >>= fun n => setCost n >>= fun _ => pure n : Exec β Nat) u := by
  cases h with
  | plain h hdecode | branch h hdecode =>
    rw [h.work_eq]
    unfold perform
    rw [hdecode]
    rfl
  | extended h hdecode hsecond =>
    rw [h.work_eq]
    unfold perform
    rw [hdecode]
    simp only [bind_assoc]
    rw [Access.bind_of_ok hsecond]
    simp only [Decoded.execute, bind_assoc]

theorem ComesTo.work_of_ok (h : ComesTo s d u) (hexecute : d.execute u = .ok n v) :
    work s = .ok n (costing n v) := by
  rw [h.work_eq, Access.bind_of_ok hexecute]
  rfl

/-- An instruction that fails leaves the step where it failed. -/
theorem ComesTo.step_of_error (h : ComesTo s d u) (hexecute : d.execute u = .error e v) :
    step s = .error e v := by
  have hwork : work s = .error e v := by
    rw [h.work_eq]
    exact Access.bind_of_error hexecute
  exact (step_eq_error_iff h.running).mpr (.inl hwork)

/-- Up to the instruction nothing changes but the program counter. -/
theorem ComesTo.cpu (h : ComesTo s d u) : u.cpu =
    { s.cpu with regs := { s.cpu.regs with pc := s.cpu.regs.pc + UInt16.ofNat d.opcodes } } := by
  cases h with
  | plain h _ | branch h _ => exact h.cpu
  | extended h _ hsecond =>
    obtain ⟨b, -, rfl⟩ := fetch8_eq_ok_iff.mp hsecond
    rw [h.cpu]
    simp only [Decoded.opcodes]
    rw [UInt16.add_assoc]
    rfl

theorem ComesTo.granted (h : ComesTo s d u) (hP : Bus.Granting P) (hs : P s.bus) : P u.bus := by
  have hfetch := (fetch8_reading (K := fun _ => False)).preserves
    (P := fun _ (b : β) => P b) ⟨fun _ _ _ h => h, fun _ _ _ _ h => h⟩
    fun _ => hP.toReadStable
  have hopcode {opcode : UInt8} {u : Circuit β} (h : Fetches s opcode u) : P u.bus := by
    obtain ⟨v, hv, rfl⟩ := h.fetched
    have hbus : P v.bus := hfetch.of_ok (hP.beginStep _ _ hs) hv
    unfold traced
    split
    · exact hP.report _ _ hbus
    · exact hbus
  cases h with
  | plain h _ | branch h _ => exact hopcode h
  | extended h _ hsecond => exact hfetch.of_ok (hopcode h) hsecond

/-- The bus refuses nothing in the step of `s`, and the step is not interrupted. -/
structure Undisturbed (s : Circuit β) : Prop where
  granting : ∃ P : β → Prop, Bus.Granting P ∧ P s.bus
  quiet : ¬ Interrupted s

theorem pending_of_granting (hP : Bus.Granting P) (hs : P s.bus) :
    ∃ sources t, pending s = .ok sources t := by
  obtain ⟨enabled, b, henabled⟩ := hP.read8_succeeds Interrupts.enableAddr s.bus hs
  have hb : P b := (hP.read8 _).of_ok hs henabled
  obtain ⟨requested, b', hrequested⟩ := hP.read8_succeeds Interrupts.requestAddr b hb
  exact ⟨_, _, pending_eq_ok_iff.mpr
    ⟨enabled, b, requested, b', henabled, hrequested, rfl, rfl⟩⟩

/-- If nothing is refused and no interrupt accepted, a step ends with its work. -/
theorem finishStep_of_granting (hP : Bus.Granting P) (hs : P s.bus) (hquiet : ¬ Accepts s) :
    ∃ t, finishStep s = .ok 0 t := by
  cases hstopped : s.cpu.stopped with
  | true => exact ⟨s, finishStep_eq_ok_iff.mpr (.inl ⟨hstopped, rfl, rfl⟩)⟩
  | false =>
    have hends {t : Circuit β} (hdispatch : dispatch s = .ok false t) :
        ∃ t, finishStep s = .ok 0 t :=
      ⟨t, finishStep_eq_ok_iff.mpr (.inr (.inl ⟨hstopped, hdispatch, rfl⟩))⟩
    cases hime : s.cpu.regs.ime with
    | false => exact hends (dispatch_eq_ok_false_iff.mpr (.inl ⟨hime, rfl⟩))
    | true =>
      obtain ⟨sources, t, hpending⟩ := pending_of_granting hP hs
      cases hvblank : sources.vblank with
      | false =>
        exact hends (dispatch_eq_ok_false_iff.mpr (.inr ⟨hime, sources, hpending, hvblank⟩))
      | true =>
        obtain ⟨enabled, b, requested, b', henabled, hrequested, rfl, -⟩ :=
          pending_eq_ok_iff.mp hpending
        exact absurd ⟨hstopped, hime, enabled, b, requested, b', henabled, hrequested,
          (vblank_ofByte _).mp hvblank⟩ hquiet

/-- The step from `s` succeeds in `t` after `n` cycles. Its work ends in `u`, and nothing comes
    after it but the passing of time and a look for interrupts. -/
structure Ends (s : Circuit β) (n : Nat) (u t : Circuit β) : Prop where
  work : work s = .ok n u
  step : step s = .ok n t
  looks : Looks (elapsed n u) t

theorem Ends.cpu (h : Ends s n u t) : t.cpu = (elapsed n u).cpu :=
  h.looks.cpu

/-- An undisturbed step succeeds if its instruction does. -/
theorem Undisturbed.ends (hs : Undisturbed s) (h : ComesTo s d u)
    (hexecute : d.execute u = .ok n v) : ∃ t, Ends s n (costing n v) t := by
  obtain ⟨P, hP, hbus⟩ := hs.granting
  have hwork := h.work_of_ok hexecute
  have hkeeps := work_preserves (P := fun _ (b : β) => P b) ⟨fun _ _ _ h => h, fun _ _ _ _ h => h⟩
    (fun _ => hP.toStable) fun _ b hb => hP.beginStep _ b hb
  have hworked : P (costing n v).bus := hkeeps.of_ok hbus hwork
  obtain ⟨t, hfinish⟩ := finishStep_of_granting hP (s := elapsed n (costing n v))
    (hP.tick n _ hworked) fun haccepts => hs.quiet ⟨n, _, hwork, haccepts⟩
  have hstep : step s = .ok n t :=
    (step_eq_ok_iff h.running).mpr ⟨n, _, 0, hwork, hfinish, rfl⟩
  obtain ⟨w, hw, hlooks⟩ := looks_of_step hstep h.running hs.quiet
  rw [hwork] at hw
  cases hw
  exact ⟨t, hwork, hstep, hlooks⟩

/-- Where interrupts are not accepted after the instruction, the step is not interrupted. -/
theorem ComesTo.quiet (h : ComesTo s d u) (hexecute : d.execute u = .ok n v)
    (hime : v.cpu.regs.ime = false) : ¬ Interrupted s := by
  rintro ⟨m, w, hwork, -, haccepts, -⟩
  rw [h.work_of_ok hexecute] at hwork
  cases hwork
  have hyes : v.cpu.regs.ime = true := haccepts
  rw [hime] at hyes
  cases hyes

end Exec

namespace FlatMemory

/-- A memory without faults refuses nothing. -/
theorem granting : Bus.Granting Faultless where
  report _ _ h := h
  read8 addr := read8_keeps addr
  read16 addr := (read8_keeps addr).bind fun _ => (read8_keeps (addr + 1)).bind fun _ _ h => h
  write8 addr v := write8_keeps addr v
  write16 addr w := (write8_keeps addr _).bind fun _ => write8_keeps (addr + 1) _
  read8_succeeds addr m h := ⟨_, _, read8_eq_ok_iff.mpr ⟨h.1 addr, rfl, rfl⟩⟩
  read16_succeeds addr m h := by
    rw [← h.plain_eq]
    exact ⟨_, _, rfl⟩
  write8_succeeds addr v m h := ⟨_, write8_eq_ok_iff.mpr ⟨h.2 addr, rfl⟩⟩
  write16_succeeds addr w m h := by
    rw [← h.plain_eq]
    exact ⟨_, rfl⟩
  beginStep _ _ h := h
  tick _ _ h := h

end FlatMemory

namespace Exec

variable {s : Circuit FlatMemory}

/-- The processor past the byte at its program counter, which it has read. -/
def past (s : Circuit FlatMemory) : Circuit FlatMemory where
  cpu := { s.cpu with regs := { s.cpu.regs with pc := s.cpu.regs.pc + 1 } }
  bus := s.bus.note (.read s.cpu.regs.pc)

theorem fetch8_of_readable (h : s.bus.readFaults s.cpu.regs.pc = false) :
    fetch8 s = .ok (s.bus.get s.cpu.regs.pc) (past s) := by
  have hread := FlatMemory.read8_eq_ok_iff.mpr ⟨h, rfl, rfl⟩
  exact fetch8_eq_ok_iff.mpr ⟨_, hread, rfl⟩

theorem fetches_of_readable (hrunning : s.cpu.stopped = false) (hawake : s.cpu.halted = false)
    (htrace : s.cpu.trace = false) (h : s.bus.readFaults s.cpu.regs.pc = false) :
    Fetches s (s.bus.get s.cpu.regs.pc) (past (began s)) := by
  refine ⟨hrunning, hawake, past (began s), fetch8_of_readable h, ?_⟩
  unfold traced
  rw [if_neg]
  simp [past, began, htrace]

end Exec

end Handheld
