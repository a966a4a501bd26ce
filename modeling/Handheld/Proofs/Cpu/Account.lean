import Handheld.Proofs.Cpu.Record

namespace Handheld

theorem Slot.cycles_bounds (register memory : Nat) (h : register ≤ memory) (s : Slot) :
    register ≤ s.cycles register memory ∧ s.cycles register memory ≤ memory := by
  cases s with
  | reg r => exact ⟨Nat.le_refl register, h⟩
  | atHl => exact ⟨h, Nat.le_refl memory⟩

theorem Instr.cycles_bounds (i : Instr) : 1 ≤ i.cycles ∧ i.cycles ≤ 4 := by
  cases i with
  | ld dst src =>
    have hdst := dst.cycles_bounds 1 2 (by decide)
    have hdst' := dst.cycles_bounds 2 3 (by decide)
    cases src with
    | slot src =>
      have hsrc := src.cycles_bounds 1 2 (by decide)
      simp only [cycles]
      omega
    | imm =>
      simp only [cycles]
      omega
  | alu op src =>
    cases src with
    | slot src =>
      have hsrc := src.cycles_bounds 1 2 (by decide)
      simp only [cycles]
      omega
    | imm => simp only [cycles]; omega
  | inc s | dec s =>
    have hslot := s.cycles_bounds 1 3 (by decide)
    simp only [cycles]
    omega
  | storeA p | loadA p => cases p <;> decide
  | _ => simp only [cycles]; omega

theorem Branch.cycles_bounds (b : Branch) (taken : Bool) :
    1 ≤ b.cycles + (if taken then b.takenCycles else 0) ∧
      b.cycles + (if taken then b.takenCycles else 0) ≤ 5 := by
  obtain cond | cond | cond | cond := b <;> cases cond <;> cases taken <;> decide

theorem Extended.cycles_bounds (i : Extended) : 2 ≤ i.cycles ∧ i.cycles ≤ 4 := by
  obtain ⟨op, target⟩ := i
  have hread := target.cycles_bounds 2 3 (by decide)
  have hupdate := target.cycles_bounds 2 4 (by decide)
  cases op <;> simp only [cycles] <;> omega

namespace Exec

variable {β : Type} [Bus β] {s t u : Circuit β} {e : Fault} {n : Nat}

theorem perform_cost {pc : UInt16} {opcode : UInt8} (h : perform pc opcode s = .ok n t) :
    1 ≤ n ∧ n ≤ 5 := by
  unfold perform at h
  cases hdecode : Opcode.decode opcode with
  | plain i =>
    rw [hdecode] at h
    obtain ⟨_, u, -, hpure⟩ := Access.bind_eq_ok_iff.mp h
    obtain ⟨rfl, -⟩ := pure_eq_ok_iff.mp hpure
    have hbounds := i.cycles_bounds
    omega
  | branch b =>
    rw [hdecode] at h
    obtain ⟨taken, u, -, hpure⟩ := Access.bind_eq_ok_iff.mp h
    obtain ⟨rfl, -⟩ := pure_eq_ok_iff.mp hpure
    exact b.cycles_bounds taken
  | extension =>
    rw [hdecode] at h
    obtain ⟨byte, u, -, hrest⟩ := Access.bind_eq_ok_iff.mp h
    obtain ⟨_, v, -, hpure⟩ := Access.bind_eq_ok_iff.mp hrest
    obtain ⟨rfl, -⟩ := pure_eq_ok_iff.mp hpure
    have hbounds := (Extended.decode byte).cycles_bounds
    omega
  | undefined =>
    rw [hdecode] at h
    cases h

/-- The work of a step costs between one and five cycles, which are noted in both units. -/
theorem work_cost (h : work s = .ok n t) :
    1 ≤ n ∧ n ≤ 5 ∧ t.cpu.regs.cost = n ∧ t.cpu.regs.clockCost = 4 * n := by
  cases hhalted : s.cpu.halted with
  | true =>
    rw [work_of_halted hhalted] at h
    obtain ⟨sources, u, -, rfl, rfl⟩ := idle_eq_ok_iff.mp h
    exact ⟨by decide, by decide, rfl, rfl⟩
  | false =>
    rw [work_of_running hhalted] at h
    obtain ⟨opcode, u, v, -, hperform, rfl⟩ := runInstruction_eq_ok_iff.mp h
    obtain ⟨hpos, hle⟩ := perform_cost hperform
    exact ⟨hpos, hle, rfl, rfl⟩

/-- What lasts through accesses and changes of the processor is kept by a step even if time destroys
    it, as long as the time is no more than that of a step's work. -/
theorem step_preserves_of_cost {P : Cpu → β → Prop} (hcpu : Cpu.Stable StepChange P)
    (hbus : ∀ cpu, Bus.Stable (P cpu))
    (hbegin : ∀ cpu b, P cpu b → P cpu (Bus.beginStep cpu.regs.pc b))
    (htick : ∀ n ≤ 5, ∀ s, P s.cpu s.bus → P (elapsed n s).cpu (elapsed n s).bus) :
    Access.Preserves (fun s => P s.cpu s.bus) (step : Exec β Nat) := by
  have hwork := work_preserves hcpu hbus hbegin
  have hdispatch := dispatch_preserves .enter hcpu hbus
  intro s hs
  cases hstopped : s.cpu.stopped with
  | true =>
    rw [Access.after_of_ok (step_of_stopped hstopped)]
    exact hs
  | false =>
    have helapsed {n : Nat} {u : Circuit β} (h : work s = .ok n u) :
        P (elapsed n u).cpu (elapsed n u).bus :=
      htick n (work_cost h).2.1 u (hwork.of_ok hs h)
    cases hstep : step s with
    | ok c t =>
      rw [Access.after_of_ok hstep]
      obtain ⟨n, u, k, hrun, hfinish, -⟩ := (step_eq_ok_iff hstopped).mp hstep
      obtain ⟨-, -, rfl⟩ | ⟨-, hdeclines, -⟩ | ⟨-, v, henters, rfl, -⟩ :=
        finishStep_eq_ok_iff.mp hfinish
      · exact helapsed hrun
      · exact hdispatch.of_ok (helapsed hrun) hdeclines
      · exact htick Interrupts.entryCycles (by decide) v (hdispatch.of_ok (helapsed hrun) henters)
    | error e t =>
      rw [Access.after_of_error hstep]
      obtain hrun | ⟨n, u, hrun, hfinish⟩ := (step_eq_error_iff hstopped).mp hstep
      · exact hwork.of_error hs hrun
      · exact hdispatch.of_error (helapsed hrun) (finishStep_eq_error_iff.mp hfinish).2

/-- The same processor, with a record begun at its bus. -/
def recorded (s : Circuit β) : Circuit (Recorded β) :=
  ⟨s.cpu, ⟨s.bus, []⟩⟩

/-- What passes between processor and bus in the work of a step. -/
def workRecord (s : Circuit β) : List Exchange :=
  (Access.after work (recorded s)).bus.record

/-- What passes between processor and bus in a step. -/
def stepRecord (s : Circuit β) : List Exchange :=
  (Access.after step (recorded s)).bus.record

/-- The work of the step was granted all that it asked for. -/
def WorkGranted (s : Circuit β) : Prop :=
  ∃ asked : List Request, workRecord s = .beginStep s.cpu.regs.pc :: asked.map .granted

/-- The step takes `c` cycles for its work. After their tick it is at most found out what is
    pending. -/
def EndsAfterWork (s : Circuit β) (c : Nat) (t : Circuit β) : Prop :=
  ∃ asked ∈ [[], pendingRequests],
    stepRecord s = workRecord s ++ .tick c :: asked.map .granted ∧ t.cpu.regs.cost = c

/-- Three of the cycles of the step are for entering the v-blank routine. What the entry asks for
    comes between the tick for the work and its own. -/
def EndsAfterEntry (s : Circuit β) (c : Nat) (t : Circuit β) : Prop :=
  ∃ n u requested, work s = .ok n u ∧ c = n + 3 ∧ t.cpu.regs.cost = 3 ∧
    stepRecord s = workRecord s ++ .tick n ::
      ((pendingRequests ++ entryRequests u.cpu.regs requested).map .granted ++ [.tick 3])

/-- The account of a step from `s` to `t` that takes `c` cycles. -/
structure Settles (s : Circuit β) (c : Nat) (t : Circuit β) : Prop where
  bounds : 1 ≤ c ∧ c ≤ 8
  clock : t.cpu.clock = s.cpu.clock + c
  clockCycles : t.cpu.clockCycles = s.cpu.clockCycles + 4 * c
  clockCost : t.cpu.regs.clockCost = 4 * t.cpu.regs.cost
  work : WorkGranted s
  order : EndsAfterWork s c t ∨ EndsAfterEntry s c t

/-- The step fails in its work, before any tick. -/
def FailsBeforeTick (s t : Circuit β) : Prop :=
  (t.cpu.clock = s.cpu.clock ∧ t.cpu.clockCycles = s.cpu.clockCycles) ∧
    stepRecord s = workRecord s ∧
    (WorkGranted s ∨ ∃ (asked : List Request) (r : Request),
      workRecord s = .beginStep s.cpu.regs.pc :: asked.map .granted ++ [.refused r])

/-- The step fails after the tick for its work, when an access is refused with which the v-blank
    routine would be entered. -/
def FailsAfterTick (s t : Circuit β) : Prop :=
  WorkGranted s ∧ ∃ n u requested asked r, work s = .ok n u ∧
    (t.cpu.clock = s.cpu.clock + n ∧ t.cpu.clockCycles = s.cpu.clockCycles + 4 * n) ∧
    stepRecord s = workRecord s ++ .tick n :: (asked.map .granted ++ [.refused r]) ∧
    asked ++ [r] <+: pendingRequests ++ entryRequests u.cpu.regs requested

/-- What the work of a step comes to, with the record of it. -/
theorem work_of_recorded {u : Circuit (Recorded β)} (h : work (recorded s) = .ok n u) :
    work s = .ok n (u.map Recorded.bus) ∧ u.bus.record = workRecord s ∧
      (u.cpu.clock = s.cpu.clock ∧ u.cpu.clockCycles = s.cpu.clockCycles) ∧ WorkGranted s := by
  have hrecord : u.bus.record = workRecord s := by
    unfold workRecord
    rw [Access.after_of_ok h]
  have hcounters := counters_after_work (recorded s)
  rw [Access.after_of_ok h] at hcounters
  obtain ⟨asked, hasked⟩ := grants_of_work_eq_ok h
  rw [hrecord] at hasked
  exact ⟨(work_follows Recorded.hom).of_ok h, hrecord, hcounters, asked, hasked⟩

theorem record_elapsed_of_work {u : Circuit (Recorded β)} (h : work (recorded s) = .ok n u) :
    (elapsed n u).bus.record = workRecord s ++ [.tick n] := by
  rw [← (work_of_recorded h).2.1]
  rfl

/-- What is settled if the processor stays as the tick for the work leaves it. -/
theorem settles_of_work {u v : Circuit (Recorded β)} (hwork : work (recorded s) = .ok n u)
    (hcpu : v.cpu = (elapsed n u).cpu) {asked : List Request}
    (hasked : asked ∈ [[], pendingRequests])
    (hrecord : stepRecord s = (elapsed n u).bus.record ++ asked.map .granted) :
    Settles s n (v.map Recorded.bus) := by
  obtain ⟨hpos, hle, hcost, hclockCost⟩ := work_cost hwork
  obtain ⟨-, -, ⟨hclock, hcycles⟩, hgranted⟩ := work_of_recorded hwork
  rw [record_elapsed_of_work hwork, List.append_assoc] at hrecord
  have hnoted : v.cpu.regs.cost = n ∧ v.cpu.regs.clockCost = 4 * n := by
    rw [hcpu]
    exact ⟨hcost, hclockCost⟩
  refine ⟨⟨hpos, by omega⟩, ?_, ?_, ?_, hgranted, .inl ⟨asked, hasked, hrecord, hnoted.1⟩⟩
  · exact (congrArg Cpu.clock hcpu).trans (congrArg (· + n) hclock)
  · exact (congrArg Cpu.clockCycles hcpu).trans (congrArg (· + 4 * n) hcycles)
  · change v.cpu.regs.clockCost = 4 * v.cpu.regs.cost
    rw [hnoted.1, hnoted.2]

/-- What is settled if the routine is entered, which pays for itself and notes its own cost. -/
theorem settles_of_entry {u v : Circuit (Recorded β)} (hwork : work (recorded s) = .ok n u)
    (hdispatch : dispatch (elapsed n u) = .ok true v)
    (hrecord : stepRecord s = v.bus.record ++ [.tick 3]) :
    Settles s (n + 3) ((elapsed 3 v).map Recorded.bus) := by
  obtain ⟨hpos, hle, -, -⟩ := work_cost hwork
  obtain ⟨hplain, -, ⟨hclock, hcycles⟩, hgranted⟩ := work_of_recorded hwork
  obtain ⟨hentered, requested, hafter⟩ := record_of_dispatch_eq_ok_true hdispatch
  rw [hafter, record_elapsed_of_work hwork, List.append_assoc, List.append_assoc] at hrecord
  have hcounters : v.cpu.clock = s.cpu.clock + n ∧
      v.cpu.clockCycles = s.cpu.clockCycles + 4 * n := by
    rw [hentered]
    exact ⟨congrArg (· + n) hclock, congrArg (· + 4 * n) hcycles⟩
  have hnoted : v.cpu.regs.cost = 3 ∧ v.cpu.regs.clockCost = 4 * 3 := by
    rw [hentered]
    exact ⟨rfl, rfl⟩
  refine ⟨⟨by omega, by omega⟩, ?_, ?_, ?_, hgranted,
    .inr ⟨n, u.map Recorded.bus, requested, hplain, rfl, hnoted.1, hrecord⟩⟩
  · change v.cpu.clock + 3 = s.cpu.clock + (n + 3)
    rw [hcounters.1, Nat.add_assoc]
  · change v.cpu.clockCycles + 4 * 3 = s.cpu.clockCycles + 4 * (n + 3)
    rw [hcounters.2, Nat.mul_add, Nat.add_assoc]
  · change v.cpu.regs.clockCost = 4 * v.cpu.regs.cost
    rw [hnoted.1, hnoted.2]

theorem settles_of_step_eq_ok {c : Nat} (hs : s.cpu.stopped = false) (h : step s = .ok c t) :
    Settles s c t := by
  obtain ⟨t, hrun, rfl⟩ := (step_follows Recorded.hom).eq_ok (s := recorded s) h
  have hrecord : stepRecord s = t.bus.record := by
    unfold stepRecord
    rw [Access.after_of_ok hrun]
  obtain ⟨n, u, k, hwork, hfinish, rfl⟩ := (step_eq_ok_iff (s := recorded s) hs).mp hrun
  obtain ⟨-, rfl, rfl⟩ | ⟨-, hdispatch, rfl⟩ | ⟨-, v, hdispatch, rfl, rfl⟩ :=
    finishStep_eq_ok_iff.mp hfinish
  · have hnone : [] ∈ [[], pendingRequests] := by simp
    exact settles_of_work hwork rfl hnone (hrecord.trans (List.append_nil _).symm)
  · obtain ⟨hcpu, asked, hasked, hafter⟩ := record_of_dispatch_eq_ok_false hdispatch
    exact settles_of_work hwork hcpu hasked (hrecord.trans hafter)
  · exact settles_of_entry hwork hdispatch hrecord

theorem fails_of_step_eq_error (hs : s.cpu.stopped = false) (h : step s = .error e t) :
    FailsBeforeTick s t ∨ FailsAfterTick s t := by
  obtain ⟨t, hrun, rfl⟩ := (step_follows Recorded.hom).eq_error (s := recorded s) h
  have hstep : stepRecord s = t.bus.record := by
    unfold stepRecord
    rw [Access.after_of_error hrun]
  obtain hwork | ⟨n, u, hwork, hfinish⟩ := (step_eq_error_iff (s := recorded s) hs).mp hrun
  · have hrecord : stepRecord s = workRecord s := by
      unfold workRecord
      rw [hstep, Access.after_of_error hwork]
    have hcounters := counters_after_work (recorded s)
    rw [Access.after_of_error hwork] at hcounters
    refine .inl ⟨hcounters, hrecord, ?_⟩
    rw [WorkGranted, ← hrecord, hstep]
    obtain ⟨hgranted, -⟩ | hrefused := refuses_of_work_eq_error hwork
    · exact .inl hgranted
    · exact .inr hrefused
  · obtain ⟨hplain, -, ⟨hclock, hcycles⟩, hgranted⟩ := work_of_recorded hwork
    obtain ⟨-, hdispatch⟩ := finishStep_eq_error_iff.mp hfinish
    obtain ⟨⟨hfailed, hfailedCycles⟩, requested, asked, r, hprefix, hafter⟩ :=
      record_of_dispatch_eq_error hdispatch
    refine .inr ⟨hgranted, n, u.map Recorded.bus, requested, asked, r, hplain, ⟨?_, ?_⟩, ?_,
      hprefix⟩
    · exact hfailed.trans (congrArg (· + n) hclock)
    · exact hfailedCycles.trans (congrArg (· + 4 * n) hcycles)
    · rw [hstep, hafter, record_elapsed_of_work hwork, List.append_assoc, List.append_assoc]
      rfl

/-- A step that does anything tells its bus so first, and once. -/
def BeginsOnce (s : Circuit β) : Prop :=
  ∃ rest, stepRecord s = .beginStep s.cpu.regs.pc :: rest ∧ ∀ pc, .beginStep pc ∉ rest

theorem Settles.beginsOnce {c : Nat} (h : Settles s c t) : BeginsOnce s := by
  obtain ⟨asked, hwork⟩ := h.work
  obtain ⟨more, -, hstep, -⟩ | ⟨n, u, requested, -, -, -, hstep⟩ := h.order
  · rw [hwork] at hstep
    exact ⟨_, hstep, by simp⟩
  · rw [hwork] at hstep
    exact ⟨_, hstep, by simp⟩

theorem FailsBeforeTick.beginsOnce (h : FailsBeforeTick s t) : BeginsOnce s := by
  obtain ⟨-, hstep, ⟨asked, hwork⟩ | ⟨asked, r, hwork⟩⟩ := h
  · exact ⟨_, hstep.trans hwork, by simp⟩
  · exact ⟨_, hstep.trans hwork, by simp⟩

theorem FailsAfterTick.beginsOnce (h : FailsAfterTick s t) : BeginsOnce s := by
  obtain ⟨⟨asked, hwork⟩, n, u, requested, more, r, -, -, hstep, -⟩ := h
  rw [hwork] at hstep
  exact ⟨_, hstep, by simp⟩

/-- Every step accounts for its cycles and for the order of its accesses, on any bus. The record is
    that of the step itself, for keeping it does not change what the step comes to. -/
theorem step_accounted (s : Circuit β) :
    step s = Access.mapState (Circuit.map Recorded.bus) (step (recorded s)) ∧
    if s.cpu.stopped then step s = .ok 0 s ∧ stepRecord s = []
    else BeginsOnce s ∧
      match step s with
      | .ok c t => Settles s c t
      | .error _ t => FailsBeforeTick s t ∨ FailsAfterTick s t := by
  refine ⟨step_follows Recorded.hom (recorded s), ?_⟩
  cases hs : s.cpu.stopped with
  | true =>
    have hrun : step (recorded s) = .ok 0 (recorded s) := step_of_stopped hs
    refine ⟨step_of_stopped hs, ?_⟩
    unfold stepRecord
    rw [Access.after_of_ok hrun]
    rfl
  | false =>
    cases hstep : step s with
    | ok c t =>
      have hsettles := settles_of_step_eq_ok hs hstep
      exact ⟨hsettles.beginsOnce, hsettles⟩
    | error e t =>
      have hfails := fails_of_step_eq_error hs hstep
      exact ⟨hfails.elim FailsBeforeTick.beginsOnce FailsAfterTick.beginsOnce, hfails⟩

end Exec

end Handheld
