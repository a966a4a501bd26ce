import Handheld.Proofs.Cpu.Account
import Handheld.Proofs.Cpu.Decoded
import Handheld.Proofs.Cpu.Instruction
import Handheld.Proofs.Cpu.Return

namespace Handheld.Exec

variable {β : Type} [Bus β] {s t u w : Circuit β} {d : Decoded} {e : Fault} {n : Nat}
  {x : UInt16}

/-- A failed pop leaves the processor as it was. -/
theorem popWord_eq_error_iff :
    popWord s = .error e t ↔
      ∃ b, Bus.read16 s.cpu.regs.sp s.bus = .error e b ∧ t = { s with bus := b } := by
  unfold popWord
  simp only [regs_bind, Access.bind_eq_error_iff, onBus_eq_error_iff]
  constructor
  · rintro (hread | ⟨_, _, _, hmodify | ⟨_, _, _, hpure⟩⟩)
    · exact hread
    · cases hmodify
    · cases hpure
  · exact .inl

theorem cpu_fetch16 (h : fetch16 s = .ok x t) : t.cpu = s.cpu.ahead 2 := by
  obtain ⟨lo, u, hlo, hrest⟩ := Access.bind_eq_ok_iff.mp h
  obtain ⟨hi, v, hhi, hpure⟩ := Access.bind_eq_ok_iff.mp hrest
  obtain ⟨b, -, rfl⟩ := fetch8_eq_ok_iff.mp hlo
  obtain ⟨b', -, rfl⟩ := fetch8_eq_ok_iff.mp hhi
  cases hpure
  rfl

/-- The step of `s` comes to where its instruction pushes the word, and `u` is the state there. -/
inductive Pushes (s : Circuit β) : Decoded → UInt16 → Circuit β → Prop
  | push {reg : Reg16} {u : Circuit β} :
      ComesTo s (.plain (.push reg)) u →
      Pushes s (.plain (.push reg)) (u.cpu.regs.getWord reg) u
  | rst {vector : UInt16} {u : Circuit β} :
      ComesTo s (.plain (.rst vector)) u → Pushes s (.plain (.rst vector)) u.cpu.regs.pc u
  | call {cond : Cond} {target : UInt16} {u v : Circuit β} :
      ComesTo s (.branch (.call cond)) u → fetch16 u = .ok target v →
      cond.holds s.cpu.regs.f = true → Pushes s (.branch (.call cond)) v.cpu.regs.pc v

theorem Pushes.cpu (h : Pushes s d x u) : u.cpu = s.cpu.ahead d.length := by
  cases h with
  | push h | rst h => exact h.cpu
  | call h hfetch _ => rw [cpu_fetch16 hfetch, h.cpu]; rfl

theorem callTo_of_error (target : UInt16) (h : pushWord s.cpu.regs.pc s = .error e t) :
    callTo target s = .error e t :=
  Access.bind_eq_error_iff.mpr (.inr ⟨_, s, rfl, Access.bind_of_error h⟩)

omit [Bus β] in
theorem whenHolds_of_error {cond : Cond} {act : Exec β Unit}
    (hcond : cond.holds s.cpu.regs.f = true) (h : act s = .error e t) :
    whenHolds cond act s = .error e t := by
  unfold whenHolds
  rw [regs_bind, if_pos hcond]
  exact Access.bind_of_error h

/-- A push that fails makes its instruction fail, past its bytes and with nothing else changed. -/
theorem Pushes.step_of_error (h : Pushes s d x u) (hpush : pushWord x u = .error e t) :
    step s = .error e t ∧ t.cpu = s.cpu.ahead d.length := by
  have hcpu : t.cpu = s.cpu.ahead d.length := by
    obtain ⟨b, -, rfl⟩ := pushWord_eq_error_iff.mp hpush
    exact h.cpu
  refine ⟨?_, hcpu⟩
  cases h with
  | push hcomes =>
    exact hcomes.step_of_error (Access.bind_of_error hpush)
  | @rst vector u hcomes =>
    have hcall := callTo_of_error vector hpush
    exact hcomes.step_of_error (Access.bind_of_error hcall)
  | @call cond target v u hcomes hfetch hcond =>
    have hholds : cond.holds u.cpu.regs.f = true := by
      rw [cpu_fetch16 hfetch, hcomes.cpu]
      exact hcond
    have hcall := whenHolds_of_error hholds (callTo_of_error target hpush)
    have hexecute : (Branch.call cond).execute v = .error e t :=
      Access.bind_eq_error_iff.mpr (.inr ⟨target, u, hfetch, hcall⟩)
    exact hcomes.step_of_error (Access.bind_of_error hexecute)

/-- The step of `s` comes to where its instruction pops a word, and `u` is the state there. -/
inductive Pops (s : Circuit β) : Decoded → Circuit β → Prop
  | pop {reg : Reg16} {u : Circuit β} :
      ComesTo s (.plain (.pop reg)) u → Pops s (.plain (.pop reg)) u
  | ret {cond : Cond} {u : Circuit β} :
      ComesTo s (.branch (.ret cond)) u → cond.holds s.cpu.regs.f = true →
      Pops s (.branch (.ret cond)) u
  | reti {u : Circuit β} : ComesTo s (.plain .reti) u → Pops s (.plain .reti) u

theorem Pops.cpu (h : Pops s d u) : u.cpu = s.cpu.ahead d.length := by
  cases h with
  | pop h | ret h _ | reti h => exact h.cpu

theorem returnToCaller_of_error (h : popWord s = .error e t) : returnToCaller s = .error e t :=
  Access.bind_of_error h

/-- A pop that fails makes its instruction fail, past its bytes and with nothing else changed. -/
theorem Pops.step_of_error (h : Pops s d u) (hpop : popWord u = .error e t) :
    step s = .error e t ∧ t.cpu = s.cpu.ahead d.length := by
  have hcpu : t.cpu = s.cpu.ahead d.length := by
    obtain ⟨b, -, rfl⟩ := popWord_eq_error_iff.mp hpop
    exact h.cpu
  have hreturn := returnToCaller_of_error hpop
  refine ⟨?_, hcpu⟩
  cases h with
  | @pop reg _ hcomes =>
    have hexecute : (Instr.pop reg).execute u = .error e t :=
      Access.bind_of_error hpop
    exact hcomes.step_of_error (Access.bind_of_error hexecute)
  | @ret cond _ hcomes hcond =>
    have hholds : cond.holds u.cpu.regs.f = true := by
      rw [hcomes.cpu]
      exact hcond
    have hexecute : (Branch.ret cond).execute u = .error e t :=
      whenHolds_of_error hholds hreturn
    exact hcomes.step_of_error (Access.bind_of_error hexecute)
  | reti hcomes =>
    have hexecute : Instr.reti.execute u = .error e t :=
      Access.bind_of_error hreturn
    exact hcomes.step_of_error (Access.bind_of_error hexecute)

/-- The work of the step of `s` takes `n` cycles and ends in `w`. After it the step comes to where
    the return address of the v-blank routine is pushed, and `u` is the state there. -/
structure ComesToEntry (s : Circuit β) (n : Nat) (w u : Circuit β) : Prop where
  running : s.cpu.stopped = false
  work : work s = .ok n w
  lasting : w.cpu.stopped = false
  accepting : w.cpu.regs.ime = true
  pending : ∃ sources, pending (elapsed n w) = .ok sources u ∧ sources.vblank = true

theorem cpu_pending {sources : Interrupts} (h : pending s = .ok sources t) : t.cpu = s.cpu := by
  obtain ⟨_, _, _, _, -, -, -, rfl⟩ := pending_eq_ok_iff.mp h
  rfl

theorem ComesToEntry.cpu (h : ComesToEntry s n w u) : u.cpu = (elapsed n w).cpu := by
  obtain ⟨sources, hpending, -⟩ := h.pending
  exact cpu_pending hpending

/-- An entry whose push fails leaves the processor as it was after the work and the time that it
    took. -/
theorem ComesToEntry.step_of_error (h : ComesToEntry s n w u)
    (hpush : pushWord w.cpu.regs.pc u = .error e t) :
    step s = .error e t ∧ t.cpu = (elapsed n w).cpu := by
  have hcpu : t.cpu = (elapsed n w).cpu := by
    obtain ⟨b, -, rfl⟩ := pushWord_eq_error_iff.mp hpush
    exact h.cpu
  have hpc : w.cpu.regs.pc = u.cpu.regs.pc := by
    rw [h.cpu]
    rfl
  rw [hpc] at hpush
  have henter : enterRoutine u = .error e t := enterRoutine_eq_error_iff.mpr (.inl hpush)
  obtain ⟨sources, hpending, hvblank⟩ := h.pending
  have hdispatch : dispatch (elapsed n w) = .error e t :=
    dispatch_eq_error_iff.mpr ⟨h.accepting, .inr ⟨sources, u, hpending, hvblank, henter⟩⟩
  have hfinish : finishStep (elapsed n w) = .error e t :=
    finishStep_eq_error_iff.mpr ⟨h.lasting, hdispatch⟩
  exact ⟨(step_eq_error_iff h.running).mpr (.inr ⟨n, w, h.work, hfinish⟩), hcpu⟩

/-- Of an entry whose push fails nothing is asked after the push. -/
theorem ComesToEntry.record (h : ComesToEntry s n w u)
    (hpush : pushWord w.cpu.regs.pc u = .error e t) :
    stepRecord s = workRecord s ++ .tick n :: (pendingRequests.map .granted ++
      [.refused (.write16 (w.cpu.regs.sp - 2) w.cpu.regs.pc)]) := by
  obtain ⟨sources, hpending, hvblank⟩ := h.pending
  obtain ⟨w, hwork, rfl⟩ := (work_follows Recorded.hom).eq_ok (s := recorded s) h.work
  obtain ⟨u, hfound, rfl⟩ := (pending_follows Recorded.hom).eq_ok (s := elapsed n w) hpending
  obtain ⟨t, hrefused, rfl⟩ := (pushWord_follows Recorded.hom _).eq_error hpush
  have hentry : ComesToEntry (recorded s) n w u :=
    ⟨h.running, hwork, h.lasting, h.accepting, sources, hfound, hvblank⟩
  have hsp : u.cpu.regs.sp = w.cpu.regs.sp := by
    rw [hentry.cpu]
    rfl
  have hwritten : t.bus.record =
      u.bus.record ++ [.refused (.write16 (w.cpu.regs.sp - 2) w.cpu.regs.pc)] := by
    obtain ⟨b, hwrite, rfl⟩ := pushWord_eq_error_iff.mp hrefused
    rw [← hsp]
    exact Recorded.record_of_asking_eq_error hwrite
  have hlooked := (record_of_pending_eq_ok hfound).2
  unfold stepRecord
  rw [Access.after_of_error (hentry.step_of_error hrefused).1, hwritten, hlooked,
    record_elapsed_of_work hwork, List.append_assoc, List.append_assoc]
  rfl

/-- A push or a pop that fails moves nothing, whichever of its bytes is refused. The instruction
    ends past its bytes with the processor as it was. An entry into the v-blank routine leaves the
    processor as the work of the step left it, and does not go on to acknowledge the request. -/
theorem failed_stack_access_moves_nothing (s : Circuit β) :
    (∀ d x u e t, Pushes s d x u → pushWord x u = .error e t →
      step s = .error e t ∧ t.cpu = s.cpu.ahead d.length) ∧
    (∀ d u e t, Pops s d u → popWord u = .error e t →
      step s = .error e t ∧ t.cpu = s.cpu.ahead d.length) ∧
    ∀ n w u e t, ComesToEntry s n w u → pushWord w.cpu.regs.pc u = .error e t →
      step s = .error e t ∧ t.cpu = (elapsed n w).cpu ∧
        stepRecord s = workRecord s ++ .tick n :: (pendingRequests.map .granted ++
          [.refused (.write16 (w.cpu.regs.sp - 2) w.cpu.regs.pc)]) := by
  refine ⟨?_, ?_, ?_⟩
  · intro d x u e t hpushes hfailed
    exact hpushes.step_of_error hfailed
  · intro d u e t hpops hfailed
    exact hpops.step_of_error hfailed
  · intro n w u e t hentry hfailed
    obtain ⟨hstep, hcpu⟩ := hentry.step_of_error hfailed
    exact ⟨hstep, hcpu, hentry.record hfailed⟩

/-- A memory with an instruction and a request for v-blank, which refuses its first address. -/
def refusingFirst (opcode : UInt8) : FlatMemory :=
  { ((FlatMemory.set {} 0x0200 opcode).set Interrupts.requestAddr 0x01).set
      Interrupts.enableAddr 0x01 with
    readFaults := (· == 0x0000)
    writeFaults := (· == 0x0000) }

theorem get_refusingFirst (opcode : UInt8) : (refusingFirst opcode).get 0x0200 = opcode ∧
    (refusingFirst opcode).get Interrupts.enableAddr = 0x01 ∧
    (refusingFirst opcode).get Interrupts.requestAddr = 0x01 := by
  have hget (addr : UInt16) : (refusingFirst opcode).get addr =
      (((FlatMemory.set {} 0x0200 opcode).set Interrupts.requestAddr 0x01).set
        Interrupts.enableAddr 0x01).get addr := FlatMemory.get_congr rfl addr
  simp [hget, FlatMemory.get_set, Interrupts.enableAddr, Interrupts.requestAddr]

/-- A processor about to execute the instruction, in a routine that accepts interrupts. -/
def balked (opcode : UInt8) (sp : UInt16) : Circuit FlatMemory where
  cpu := { regs := { sp, pc := 0x0200, ime := true }, saved := some {} }
  bus := refusingFirst opcode

theorem fetches_balked (opcode : UInt8) (sp : UInt16) :
    Fetches (balked opcode sp) opcode (past (began (balked opcode sp))) := by
  have hfetches : Fetches (balked opcode sp) ((refusingFirst opcode).get 0x0200) _ :=
    fetches_of_readable rfl rfl rfl rfl
  rwa [(get_refusingFirst opcode).1] at hfetches

/-- The word lies across the end of the memory, so that its low byte is granted and its high byte
    refused. -/
theorem failed_stack_access_moves_nothing_balked :
    (∃ e t, step (balked 0xC5 0x0001) = .error e t ∧ t.cpu = (balked 0xC5 0x0001).cpu.ahead 1) ∧
    (∃ e t, step (balked 0xD9 0xFFFF) = .error e t ∧ t.cpu = (balked 0xD9 0xFFFF).cpu.ahead 1) ∧
    ∃ e t, step (balked 0x00 0x0001) = .error e t ∧ t.cpu.regs.sp = 0x0001 ∧
      t.cpu.regs.pc = 0x0201 ∧ t.cpu.regs.ime = true ∧ t.cpu.saved = some {} := by
  have hplain {opcode : UInt8} {sp : UInt16} {i : Instr} (h : Opcode.decode opcode = .plain i) :
      ComesTo (balked opcode sp) (.plain i) (past (began (balked opcode sp))) :=
    .plain (fetches_balked opcode sp) h
  refine ⟨?_, ?_, ?_⟩
  · have hcomes : ComesTo (balked 0xC5 0x0001) (.plain (.push .bc)) _ := hplain (by decide)
    have hmoves := failed_stack_access_moves_nothing (balked 0xC5 0x0001)
    exact ⟨_, _, hmoves.1 _ _ _ _ _ (.push hcomes) rfl⟩
  · have hcomes : ComesTo (balked 0xD9 0xFFFF) (.plain .reti) _ := hplain (by decide)
    have hmoves := failed_stack_access_moves_nothing (balked 0xD9 0xFFFF)
    exact ⟨_, _, hmoves.2.1 _ _ _ _ (.reti hcomes) rfl⟩
  · have hcomes : ComesTo (balked 0x00 0x0001) (.plain .nop) _ := hplain (by decide)
    have hwork : work (balked 0x00 0x0001) = .ok 1 _ := hcomes.work_of_ok rfl
    have hpending : pending (elapsed 1 (costing 1 (past (began (balked 0x00 0x0001))))) =
        .ok (.ofByte ((refusingFirst 0x00).get Interrupts.enableAddr &&&
          (refusingFirst 0x00).get Interrupts.requestAddr)) _ := rfl
    rw [(get_refusingFirst 0x00).2.1, (get_refusingFirst 0x00).2.2] at hpending
    have hmoves := failed_stack_access_moves_nothing (balked 0x00 0x0001)
    have hfails := hmoves.2.2 1 _ _ _ _ ⟨rfl, hwork, rfl, rfl, _, hpending, by decide⟩ rfl
    exact ⟨_, _, hfails.1, rfl, rfl, rfl, rfl⟩

end Handheld.Exec
