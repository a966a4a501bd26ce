import Handheld.Proofs.Cpu.Course
import Handheld.Proofs.Cpu.Decoded
import Handheld.Proofs.Cpu.Stack

namespace Handheld.Exec

open FlatMemory

variable {s t u : Circuit FlatMemory} {base : UInt16} {live deepest : Nat} {c : Nat}

/-- No step makes an address refuse to be read or written. -/
theorem faultless_lasting : Lasting fun _ (m : FlatMemory) => m.Faultless where
  cpu := ⟨fun _ _ _ h => h, fun _ _ _ _ h => h⟩
  bus _ := FlatMemory.granting.toStable
  begin _ _ h := h
  tick _ _ h := h

theorem faultless_of_step (hs : s.bus.Faultless) (h : step s = .ok c t) : t.bus.Faultless :=
  faultless_lasting.step_preserves.of_ok hs h

/-- The processor executes an instruction in this step and is not interrupted. -/
structure Proceeds (s : Circuit FlatMemory) : Prop where
  running : s.cpu.stopped = false
  awake : s.cpu.halted = false
  quiet : ¬ Interrupted s

/-- What such a step does with the pointers and the memory is what the table says. -/
theorem Proceeds.leads (h : Proceeds s) (hs : s.bus.Faultless) (hlegal : opcode s ≠ .undefined) :
    ∃ c t, step s = .ok c t ∧ t.bus.Faultless ∧ t.cpu.regs.pc = destination s ∧
      (∀ p ∈ (effect s).moves, t.cpu.regs.getWord p.1 = p.2) ∧
      t.bus.bytes = (s.bus.written (effect s).stores).bytes := by
  obtain ⟨c, t, hstep⟩ := step_succeeds hs h.running h.awake hlegal
  obtain ⟨-, u, hleads, hlooks⟩ := leads_of_step h.running h.awake hlegal h.quiet hstep
  obtain ⟨hcpu, hbytes, -⟩ := hlooks.flat
  refine ⟨c, t, hstep, faultless_of_step hs hstep, ?_, ?_, hbytes.trans hleads.bytes⟩
  · rw [hcpu]
    exact hleads.pc.trans (getD_target s)
  · rw [hcpu]
    exact hleads.moves

/-- It keeps the parts of the processor that the table does not name. -/
theorem Proceeds.keeps (h : Proceeds s) (hlegal : opcode s ≠ .undefined)
    (hstep : step s = .ok c t) : s.cpu.Keeps t.cpu (effect s).parts := by
  obtain ⟨u, hwork, hlooks⟩ := looks_of_step hstep h.running h.quiet
  obtain ⟨hcpu, hbytes, -⟩ := hlooks.flat
  exact ((confines_of_work h.awake hlegal hwork).toBounds.elapsed hcpu hbytes).parts

/-- A call goes where it is to and leaves the address behind it on the stack. -/
theorem Proceeds.calls (h : Proceeds s) (hs : s.bus.Faultless) (hcalls : Calls s)
    (hsp : s.cpu.regs.sp = stackTop base live) :
    ∃ c t, step s = .ok c t ∧ t.bus.Faultless ∧ t.cpu.regs.pc = destination s ∧
      t.cpu.regs.sp = stackTop base (live + 1) ∧
      t.bus.bytes = (s.bus.written (wordBytes (stackTop base (live + 1)) (following s))).bytes := by
  have hlegal : opcode s ≠ .undefined := by
    obtain ⟨vector, ho⟩ | ⟨cond, ho, -⟩ := hcalls <;> simp [ho]
  obtain ⟨hmove, hstores⟩ := effect_of_calls hcalls
  obtain ⟨c, t, hstep, ht, hpc, hmoves, hbytes⟩ := h.leads hs hlegal
  rw [hmove] at hmoves
  rw [hstores, hsp, ← stackTop_succ] at hbytes
  refine ⟨c, t, hstep, ht, hpc, ?_, hbytes⟩
  rw [stackTop_succ, ← hsp]
  exact hmoves _ (List.mem_singleton_self _)

/-- A return goes where the word on the stack tells, and writes nothing. -/
theorem Proceeds.unwinds (h : Proceeds s) (hs : s.bus.Faultless) (hunwinds : Unwinds s)
    (hsp : s.cpu.regs.sp = stackTop base (live + 1)) :
    ∃ c t, step s = .ok c t ∧ t.bus.Faultless ∧
      t.cpu.regs.pc = s.bus.word (stackTop base (live + 1)) ∧
      t.cpu.regs.sp = stackTop base live ∧ t.bus.bytes = s.bus.bytes := by
  have hlegal : opcode s ≠ .undefined := by
    obtain ho | ⟨cond, ho, -⟩ := hunwinds <;> simp [ho]
  have hdestination : destination s = s.bus.word s.cpu.regs.sp := by
    unfold destination
    obtain ho | ⟨cond, ho, hcond⟩ := hunwinds
    · rw [ho]
    · rw [ho]
      exact if_pos hcond
  have hstores : (effect s).stores = [] := by
    unfold effect
    obtain ho | ⟨cond, ho, hcond⟩ := hunwinds
    · rw [ho]
      rfl
    · rw [ho, Opcode.effect, Branch.effect, Branch.cond, if_pos hcond]
      rfl
  obtain ⟨c, t, hstep, ht, hpc, hmoves, hbytes⟩ := h.leads hs hlegal
  rw [effect_of_unwinds hunwinds] at hmoves
  rw [hstores] at hbytes
  rw [hdestination, hsp] at hpc
  refine ⟨c, t, hstep, ht, hpc, ?_, hbytes⟩
  have hmoved : t.cpu.regs.sp = s.cpu.regs.sp + 2 := hmoves _ (List.mem_singleton_self _)
  rw [hmoved, hsp, stackTop_succ, UInt16.sub_add_cancel]

/-- Successful steps lead from `s` to `t`. -/
inductive Runs (s : Circuit FlatMemory) : Circuit FlatMemory → Prop
  | refl : Runs s s
  | step {t u : Circuit FlatMemory} {c : Nat} : Runs s t → step t = .ok c u → Runs s u

theorem Runs.faultless (h : Runs s t) (hs : s.bus.Faultless) : t.bus.Faultless := by
  induction h with
  | refl => exact hs
  | step _ hstep ih => exact faultless_of_step ih hstep

/-- To every call there is a return, before which whatever was called later has returned. With
    `live` words on the stack before, there are at no time more than `deepest`. Between calls and
    returns steps leave the stack pointer where it is and the bytes that are stacked as they are.
    The pairs are calls and their returns, in the order of the returns. -/
inductive Nested (base : UInt16) (deepest : Nat) : Nat → Circuit FlatMemory →
    List (Circuit FlatMemory × Circuit FlatMemory) → Circuit FlatMemory → Prop
  | nil {live : Nat} {s : Circuit FlatMemory} : Nested base deepest live s [] s
  | runs {live : Nat} {s t u : Circuit FlatMemory}
      {pairs : List (Circuit FlatMemory × Circuit FlatMemory)} :
      Runs s t → t.cpu.regs.sp = s.cpu.regs.sp → AgreeOn (Stacked base live) s.bus t.bus →
      Nested base deepest live t pairs u → Nested base deepest live s pairs u
  | bracket {live : Nat} {s t u : Circuit FlatMemory}
      {pairs later : List (Circuit FlatMemory × Circuit FlatMemory)} :
      live < deepest → Proceeds s → Calls s →
      Nested base deepest (live + 1) (Access.after step s) pairs t →
      Proceeds t → Unwinds t → Nested base deepest live (Access.after step t) later u →
      Nested base deepest live s (pairs ++ (s, t) :: later) u

/-- The call in `s` succeeds, and the return in `t` leads behind it, with the stack pointer where it
    was before the call. -/
def Rejoins (s t : Circuit FlatMemory) : Prop :=
  (∃ c u, step s = .ok c u ∧ u.cpu.regs.pc = destination s) ∧
    ∃ c u, step t = .ok c u ∧ u.cpu.regs.pc = following s ∧ u.cpu.regs.sp = s.cpu.regs.sp

theorem Nested.rejoins {pairs : List (Circuit FlatMemory × Circuit FlatMemory)}
    (h : Nested base deepest live s pairs t) (hdeepest : deepest ≤ 32768)
    (hs : s.bus.Faultless) (hsp : s.cpu.regs.sp = stackTop base live) :
    t.bus.Faultless ∧ t.cpu.regs.sp = stackTop base live ∧
      AgreeOn (Stacked base live) s.bus t.bus ∧ ∀ p ∈ pairs, Rejoins p.1 p.2 := by
  induction h with
  | nil => exact ⟨hs, hsp, .refl _ _, by simp⟩
  | @runs live s t u pairs hruns hsame hkept _ ih =>
    obtain ⟨hu, husp, hstacked, hpairs⟩ := ih (hruns.faultless hs) (hsame.trans hsp)
    exact ⟨hu, husp, hkept.trans hstacked, hpairs⟩
  | @bracket live s t u pairs later hlive hproceeds hcalls _ hproceeds' hunwinds _ ihcall ihmore =>
    have hroom : live < 32768 := Nat.lt_of_lt_of_le hlive hdeepest
    obtain ⟨c, s', hcall, hs', hpc, hsp', hbytes⟩ := hproceeds.calls hs hcalls hsp
    rw [Access.after_of_ok hcall] at ihcall
    obtain ⟨ht, htsp, hinner, hpairs⟩ := ihcall hs' hsp'
    obtain ⟨c', t', hreturn, ht', hpc', hsp'', hbytes'⟩ := hproceeds'.unwinds ht hunwinds htsp
    rw [Access.after_of_ok hreturn] at ihmore
    obtain ⟨hu, husp, houter, hlater⟩ := ihmore ht' hsp''
    obtain ⟨hword, hkept⟩ := word_of_agreeOn hroom hbytes hinner
    have hrejoins : Rejoins s t :=
      ⟨⟨c, s', hcall, hpc⟩, c', t', hreturn, hpc'.trans hword, hsp''.trans hsp.symm⟩
    refine ⟨hu, husp, ?_, ?_⟩
    · exact hkept.trans ((agreeOn_of_bytes _ hbytes').trans houter)
    · intro p hp
      rw [List.mem_append, List.mem_cons] at hp
      obtain hp | rfl | hp := hp
      · exact hpairs p hp
      · exact hrejoins
      · exact hlater p hp

/-- The stack gives words back in the reverse of the order in which it took them, wherever in the
    memory it begins and up to the size of the memory. The stack pointer ends where it began, and
    the bytes outside of the stack are as if nothing had been pushed. So subroutines, however they
    are nested, return to their callers. -/
theorem stack_gives_back {deepest : Nat} (hdeepest : deepest ≤ 32768) (hs : s.bus.Faultless) :
    (∀ calls pops, Bracketed s.cpu.regs.sp deepest 0 calls pops →
      ∃ t, stackCalls calls s = .ok pops t ∧ t.cpu = s.cpu ∧
        ∀ addr, ¬ Stacked s.cpu.regs.sp deepest addr →
          t.bus.get addr = (s.bus.written (StackCall.stores calls)).get addr) ∧
    ∀ pairs t, Nested s.cpu.regs.sp deepest 0 s pairs t →
      t.cpu.regs.sp = s.cpu.regs.sp ∧ ∀ p ∈ pairs, Rejoins p.1 p.2 := by
  have hsp : s.cpu.regs.sp = stackTop s.cpu.regs.sp 0 := (stackTop_zero _).symm
  constructor
  · intro calls pops hbracketed
    obtain ⟨t, ht⟩ := hbracketed.serves hdeepest hs hsp
    exact ⟨t, ht.run, ht.cpu, ht.outside⟩
  · intro pairs t hnested
    obtain ⟨-, htsp, -, hpairs⟩ := hnested.rejoins hdeepest hs hsp
    exact ⟨htsp.trans hsp.symm, hpairs⟩

/-- A processor about to call a subroutine that returns at once, with a stack that begins in the
    middle of the first word of the memory. -/
def callingBriefly : Circuit FlatMemory where
  cpu := { regs := { sp := 0x0001, pc := 0x0100 } }
  bus := (FlatMemory.set {} 0x0100 0xCF).set 0x0008 0xC9

theorem get_callingBriefly :
    callingBriefly.bus.get 0x0100 = 0xCF ∧ callingBriefly.bus.get 0x0008 = 0xC9 := by
  simp [callingBriefly, get_set]

theorem opcode_callingBriefly : opcode callingBriefly = .plain (.rst 0x0008) := by
  have hopcode : opcode callingBriefly = .decode (callingBriefly.bus.get 0x0100) := rfl
  rw [hopcode, get_callingBriefly.1]
  decide

/-- The call leads to a return, with a word on the stack that lies across the end of the memory. -/
theorem called_callingBriefly : Proceeds callingBriefly ∧
    Proceeds (Access.after step callingBriefly) ∧
    opcode (Access.after step callingBriefly) = .branch (.ret .always) := by
  have ho := opcode_callingBriefly
  have hlegal : opcode callingBriefly ≠ .undefined := by
    rw [ho]
    decide
  have hparts : (effect callingBriefly).parts = [.sp] := by
    unfold effect
    rw [ho]
    rfl
  have hproceeds : Proceeds callingBriefly :=
    ⟨rfl, rfl, not_interrupted_of_ime rfl hlegal rfl (by simp [hparts])⟩
  have htop : callingBriefly.cpu.regs.sp = stackTop 0x0001 0 := (stackTop_zero _).symm
  obtain ⟨c, t, hstep, -, hpc, -, hbytes⟩ :=
    hproceeds.calls ⟨fun _ => rfl, fun _ => rfl⟩ (.inl ⟨_, ho⟩) htop
  have hkeeps := hproceeds.keeps hlegal hstep
  rw [hparts] at hkeeps
  rw [Access.after_of_ok hstep]
  have hentered : t.cpu.regs.pc = 0x0008 := by
    rw [hpc, destination, ho]
  have hbyte : t.bus.get 0x0008 = 0xC9 := by
    rw [get_congr hbytes, get_written (by decide), get_callingBriefly.2]
  have hreturn : opcode t = .branch (.ret .always) := by
    rw [opcode, hentered, hbyte]
    decide
  have hlegal' : opcode t ≠ .undefined := by
    rw [hreturn]
    decide
  have hparts' : (effect t).parts = [.sp] := by
    unfold effect
    rw [hreturn]
    rfl
  have hrunning : t.cpu.stopped = false := hkeeps .stopped (by decide)
  have hawake : t.cpu.halted = false := hkeeps .halted (by decide)
  have hime : t.cpu.regs.ime = false := hkeeps .ime (by decide)
  have hquiet := not_interrupted_of_ime hawake hlegal' hime (by simp [hparts'])
  exact ⟨hproceeds, ⟨hrunning, hawake, hquiet⟩, hreturn⟩

/-- The words of two brackets come back, with a byte written in between; and the subroutine
    returns. -/
theorem stack_gives_back_callingBriefly :
    (∃ t, stackCalls [.push 0x1234, .store 0x8000 0x56, .push 0xABCD, .pop, .pop] callingBriefly =
      .ok [0xABCD, 0x1234] t ∧ t.cpu = callingBriefly.cpu ∧ t.bus.get 0x8000 = 0x56) ∧
    Rejoins callingBriefly (Access.after step callingBriefly) := by
  have hdeepest : 2 ≤ 32768 := by decide
  have hgives := stack_gives_back hdeepest (s := callingBriefly) ⟨fun _ => rfl, fun _ => rfl⟩
  constructor
  · have hinner : Bracketed 0x0001 2 1 [.store 0x8000 0x56, .push 0xABCD, .pop] [0xABCD] :=
      .store (by decide) (.bracket (by decide) .nil .nil)
    have hbracketed : Bracketed 0x0001 2 0
        [.push 0x1234, .store 0x8000 0x56, .push 0xABCD, .pop, .pop] [0xABCD, 0x1234] :=
      .bracket (by decide) hinner .nil
    obtain ⟨t, hrun, hcpu, houtside⟩ := hgives.1 _ _ hbracketed
    refine ⟨t, hrun, hcpu, (houtside 0x8000 (by decide)).trans ?_⟩
    exact get_set callingBriefly.bus 0x8000 0x8000 0x56
  · obtain ⟨hproceeds, hproceeds', ho⟩ := called_callingBriefly
    have hnested : Nested 0x0001 2 0 callingBriefly
        [(callingBriefly, Access.after step callingBriefly)] _ :=
      .bracket (by decide) hproceeds (.inl ⟨_, opcode_callingBriefly⟩) .nil hproceeds'
        (.inr ⟨_, ho, rfl⟩) .nil
    exact (hgives.2 _ _ hnested).2 _ (List.mem_singleton_self _)

end Handheld.Exec
