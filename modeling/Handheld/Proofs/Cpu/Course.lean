import Handheld.Proofs.Cpu.Footprint

namespace Handheld

theorem Extended.target_effect (i : Extended) (r : Registers) (m : FlatMemory) :
    (i.effect r m).target? = none := by
  obtain ⟨op, target⟩ := i
  cases op <;> rfl

namespace Exec

variable {s : Circuit FlatMemory}

/-- Where the processor goes on. Most instructions go on behind themselves, and so does a branch
    that is not taken; relative jumps count from there. -/
def destination (s : Circuit FlatMemory) : UInt16 :=
  match opcode s with
  | .plain .jpHl => s.cpu.regs.hl
  | .plain .reti => s.bus.word s.cpu.regs.sp
  | .plain (.rst vector) => vector
  | .branch b =>
    if b.cond.holds s.cpu.regs.f then
      match b with
      | .jp _ | .call _ => s.bus.word (s.cpu.regs.pc + 1)
      | .jr _ => s.cpu.regs.pc + 2 + Word.signExtend (s.bus.get (s.cpu.regs.pc + 1))
      | .ret _ => s.bus.word s.cpu.regs.sp
    else following s
  | _ => following s

/-- The step leaves the address behind its instruction on the stack. -/
def Calls (s : Circuit FlatMemory) : Prop :=
  (∃ vector, opcode s = .plain (.rst vector)) ∨
    ∃ cond, opcode s = .branch (.call cond) ∧ cond.holds s.cpu.regs.f = true

/-- The step takes the address it goes on at from the stack. -/
def Unwinds (s : Circuit FlatMemory) : Prop :=
  opcode s = .plain .reti ∨ ∃ cond, opcode s = .branch (.ret cond) ∧ cond.holds s.cpu.regs.f = true

/-- The step from `s` to `t` takes `c` machine cycles and goes the way of its instruction. -/
structure Course (s : Circuit FlatMemory) (c : Nat) (t : Circuit FlatMemory) : Prop where
  pc : t.cpu.regs.pc = destination s
  cost : c = price s
  calls : Calls s →
    t.cpu.regs.sp = s.cpu.regs.sp - 2 ∧ t.bus.word t.cpu.regs.sp = following s
  unwinds : Unwinds s → t.cpu.regs.sp = s.cpu.regs.sp + 2
  bytes : t.bus.bytes = (s.bus.written (effect s).stores).bytes
  /-- Whatever is read for the instruction is read before a byte is written. -/
  order : ∃ looks, (looks = [] ∨ looks = [Interrupts.enableAddr, Interrupts.requestAddr]) ∧
    t.bus.journal = s.bus.journal ++ (.beginStep s.cpu.regs.pc ::
      ((effect s).calls (code s) ++ .tick c :: looks.map BusCall.read)).toArray

theorem foldl_push_eq (calls : List BusCall) (journal : Array BusCall) :
    calls.foldl Array.push journal = journal ++ calls.toArray := by
  rw [← List.map_id calls]
  exact List.foldl_map.trans List.foldl_push_eq_append

theorem following_of_jr {cond : Cond} (h : opcode s = .branch (.jr cond)) :
    following s = s.cpu.regs.pc + 2 := by
  unfold following
  rw [h]
  rfl

theorem destination_of_call {cond : Cond} (h : opcode s = .branch (.call cond))
    (hcond : cond.holds s.cpu.regs.f = true) :
    destination s = s.bus.word (s.cpu.regs.pc + 1) := by
  unfold destination
  rw [h]
  exact if_pos hcond

/-- The table sends the processor to the destination. -/
theorem getD_target (s : Circuit FlatMemory) :
    (effect s).target?.getD (following s) = destination s := by
  unfold effect destination
  cases ho : opcode s with
  | plain i =>
    cases i with
    | alu op src => cases op <;> rfl
    | _ => rfl
  | branch b =>
    simp only [Opcode.effect, Branch.effect]
    split
    · cases b with
      | jr cond => simp only [Branch.takenEffect, following_of_jr ho, Option.getD_some]
      | jp | call | ret => rfl
    · rfl
  | extension => rw [Opcode.effect, Extended.target_effect, Option.getD_none]
  | undefined => rfl

theorem effect_of_calls (h : Calls s) :
    (effect s).moves = [(.sp, s.cpu.regs.sp - 2)] ∧
      (effect s).stores = FlatMemory.wordBytes (s.cpu.regs.sp - 2) (following s) := by
  unfold effect
  obtain ⟨vector, ho⟩ | ⟨cond, ho, hcond⟩ := h
  · rw [ho]
    exact ⟨rfl, rfl⟩
  · rw [ho, Opcode.effect, Branch.effect, Branch.cond, if_pos hcond]
    exact ⟨rfl, rfl⟩

theorem effect_of_unwinds (h : Unwinds s) : (effect s).moves = [(.sp, s.cpu.regs.sp + 2)] := by
  unfold effect
  obtain ho | ⟨cond, ho, hcond⟩ := h
  · rw [ho]
    rfl
  · rw [ho, Opcode.effect, Branch.effect, Branch.cond, if_pos hcond]
    rfl

/-- On a memory without faults a processor that runs, finds an instruction and is not interrupted
    takes the course of that instruction. -/
theorem step_course (hs : s.bus.Faultless) (hstopped : s.cpu.stopped = false)
    (hrunning : s.cpu.halted = false) (hlegal : opcode s ≠ .undefined) (hquiet : ¬ Interrupted s) :
    ∃ c t, step s = .ok c t ∧ Course s c t := by
  obtain ⟨c, t, hstep⟩ := step_succeeds hs hstopped hrunning hlegal
  obtain ⟨hprice, u, hleads, hlooks⟩ := leads_of_step hstopped hrunning hlegal hquiet hstep
  obtain ⟨hcpu, hbytes, looks, hlooks, hjournal⟩ := hlooks.flat
  have hwritten : t.bus.bytes = (s.bus.written (effect s).stores).bytes :=
    hbytes.trans hleads.bytes
  have hmoves : ∀ p ∈ (effect s).moves, t.cpu.regs.getWord p.1 = p.2 := hcpu ▸ hleads.moves
  refine ⟨c, t, hstep, {
    pc := (congrArg (·.regs.pc) hcpu).trans (hleads.pc.trans (getD_target s))
    cost := hprice
    calls := fun hcalls => ?_
    unwinds := fun hunwinds => ?_
    bytes := hwritten
    order := ⟨looks, hlooks, ?_⟩ }⟩
  · obtain ⟨hmove, hstores⟩ := effect_of_calls hcalls
    rw [hmove] at hmoves
    have hsp : t.cpu.regs.sp = s.cpu.regs.sp - 2 := hmoves _ (List.mem_singleton_self _)
    rw [hsp, FlatMemory.word_congr hwritten, hstores, FlatMemory.word_written]
    exact ⟨rfl, rfl⟩
  · rw [effect_of_unwinds hunwinds] at hmoves
    exact hmoves _ (List.mem_singleton_self _)
  · rw [← foldl_push_eq, List.foldl_cons, List.foldl_append, List.foldl_cons, hjournal]
    exact congrArg (fun j : Array BusCall => (looks.map BusCall.read).foldl Array.push
      (j.push (.tick c))) hleads.journal

/-- A processor about to execute a conditional call that lies across the end of the memory, with a
    stack that reaches into its operand. -/
def callingAcross : Circuit FlatMemory where
  cpu := { regs := { sp := 0x0001, pc := 0xFFFE } }
  bus := ((FlatMemory.set {} 0xFFFE 0xC4).set 0xFFFF 0x34).set 0x0000 0x12

theorem opcode_callingAcross : opcode callingAcross = .branch (.call .nz) := by
  have hbyte : callingAcross.bus.get 0xFFFE = 0xC4 := by
    simp only [callingAcross, FlatMemory.get_set]
    decide
  exact (congrArg Opcode.decode hbyte).trans (by decide)

/-- The operand is used as it was, although the address after the call is written over it. -/
theorem step_course_callingAcross :
    ∃ t, step callingAcross = .ok 5 t ∧ t.cpu.regs.pc = 0x1234 ∧ t.cpu.regs.sp = 0xFFFF ∧
      t.bus.word 0xFFFF = 0x0001 := by
  have ho := opcode_callingAcross
  have htaken : Cond.nz.holds callingAcross.cpu.regs.f = true := rfl
  have hlegal : opcode callingAcross ≠ .undefined := by
    rw [ho]
    decide
  have hkept : .ime ∉ (effect callingAcross).parts := by
    unfold effect
    rw [ho]
    decide
  have hnext : following callingAcross = 0x0001 := by
    unfold following
    rw [ho]
    rfl
  have hlow : callingAcross.bus.get 0xFFFF = 0x34 := by
    simp only [callingAcross, FlatMemory.get_set]
    decide
  have hhigh : callingAcross.bus.get 0x0000 = 0x12 := by
    simp only [callingAcross, FlatMemory.get_set]
    decide
  have hdestination : destination callingAcross = 0x1234 := by
    rw [destination_of_call ho htaken]
    exact (congr (congrArg Word.ofBytes hhigh) hlow).trans (by decide)
  have hprice : price callingAcross = 5 := by
    unfold price
    rw [ho]
    rfl
  obtain ⟨c, t, hstep, hcourse⟩ := step_course (s := callingAcross) ⟨fun _ => rfl, fun _ => rfl⟩
    rfl rfl hlegal (not_interrupted_of_ime rfl hlegal rfl hkept)
  obtain ⟨hsp, hword⟩ := hcourse.calls (.inr ⟨.nz, ho, htaken⟩)
  have hsp' : t.cpu.regs.sp = 0xFFFF := hsp
  rw [hcourse.cost, hprice] at hstep
  refine ⟨t, hstep, hcourse.pc.trans hdestination, hsp', ?_⟩
  rw [← hsp', hword, hnext]

end Exec

end Handheld
