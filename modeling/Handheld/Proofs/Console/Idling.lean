import Handheld.Proofs.Console.Frames
import Handheld.Proofs.Console.Portions
import Handheld.Proofs.Timer.Counter

namespace Handheld

theorem Lcd.advance_add (m n : Nat) (l : Lcd) :
    l.advance (m + n) =
      (((l.advance m).1.advance n).1, (l.advance m).2 ++ ((l.advance m).1.advance n).2) := by
  simp only [advance, Raster.advance_add]

namespace Board

theorem advance_add (m n : Nat) (b : Board) :
    (b.advance (m + n)).1 = ((b.advance m).1.advance n).1 := by
  simp only [advance, Timer.advance_add, Timer.any_overflow, Nat.mul_add, Lcd.advance_add,
    List.any_append, Bool.or_assoc]
  rfl

/-- The boot program gives way at the beginning of a step, whatever time has passed. -/
theorem beginStep_advance (pc : UInt16) (n : Nat) (b : Board) :
    (b.advance n).1.beginStep pc = ((b.beginStep pc).advance n).1 := rfl

/-- It gives way once. -/
theorem beginStep_beginStep (pc : UInt16) (b : Board) :
    (b.beginStep pc).beginStep pc = b.beginStep pc := by
  unfold beginStep
  rw [Bool.and_assoc, Bool.and_self]

end Board

namespace Console

variable {c : Console} {n : Nat}

/-- The console after `n` machine cycles that pass at once, in which the processor does nothing. -/
def fastForward (n : Nat) (c : Console) : Console :=
  let (timer, overflows) := c.board.timer.advance n
  let (lcd, signals) := c.board.lcd.advance (4 * n)
  let requested :=
    { c.board.requested with
      timer := c.board.requested.timer || 0 < overflows
      vblank := c.board.requested.vblank || signals.any (·.isFrame) }
  let overlay := c.board.overlay && c.cpu.regs.pc != 0x0100
  { c with
    cpu := { c.cpu with
      clock := c.cpu.clock + n
      clockCycles := c.cpu.clockCycles + 4 * n
      regs := { c.cpu.regs with cost := 1, clockCost := 4 } }
    board := { c.board with timer, lcd, requested, overlay } }

theorem fastForward_eq (n : Nat) (c : Console) :
    c.fastForward n =
      { c with
        cpu := { c.cpu with regs := c.cpu.regs.setCost 1 }.advanceClock n
        board := ((c.board.beginStep c.cpu.regs.pc).advance n).1 } := rfl

theorem fastForward_add (m n : Nat) (c : Console) :
    c.fastForward (m + n) = (c.fastForward m).fastForward n := by
  simp only [fastForward_eq, Cpu.advanceClock, Registers.setCost, Board.beginStep_advance,
    Board.beginStep_beginStep, Board.advance_add, Nat.mul_add, Nat.add_assoc]

/-- What is quiet in the end has been quiet before. -/
theorem quiet_of_fastForward (h : (c.fastForward n).board.Quiet) : c.board.Quiet :=
  h.of_advance (b := c.board.beginStep c.cpu.regs.pc)

/-- Nothing calls the processor before the next step, nor after the time of its work has passed. -/
structure StaysQuiet (c : Console) : Prop where
  before : c.board.Quiet
  after : ∀ k s, Exec.work c.circuit = .ok k s → (Exec.elapsed k s).bus.board.Quiet

/-- What `n` steps of a parked processor come to. -/
structure PassesTime (c : Console) (n : Nat) : Prop where
  results : ∀ k < n, (c.stepped k).step.result = .ok 1
  console : c.stepped n = c.fastForward n
  /-- The renderer is given what it would be given if the time passed at once. -/
  pictures : pictures (c.play (List.replicate n .step)).2 =
    pictures (Lcd.pass (4 * n) (c.board.lcd, c.board.requested)).2

theorem elapsed_idled (c : Console) :
    (Exec.elapsed 1 c.idled).bus.board = (c.fastForward 1).board := by
  change (((Exec.began c.circuit).bus.board).advance 1).1 = _
  rw [began_board]
  rfl

section Halted

variable (hhalted : c.cpu.halted = true) (hrunning : c.cpu.stopped = false)

include hhalted in
/-- It is quiet throughout a step if it is so at its end. -/
theorem staysQuiet_iff : c.StaysQuiet ↔ (c.fastForward 1).board.Quiet := by
  constructor
  · rintro ⟨hbefore, hafter⟩
    rw [← elapsed_idled]
    exact hafter 1 c.idled (work_of_quiet hhalted hbefore)
  · intro h
    have hbefore : c.board.Quiet := quiet_of_fastForward h
    refine ⟨hbefore, fun k s hwork => ?_⟩
    rw [work_of_quiet hhalted hbefore] at hwork
    cases hwork
    rw [elapsed_idled]
    exact h

include hhalted hrunning in
theorem step_of_quiet (h : c.StaysQuiet) :
    c.step = ⟨c.fastForward 1, .ok 1, (Exec.elapsed 1 c.idled).bus.events⟩ := by
  have hafter := (staysQuiet_iff hhalted).mp h
  rw [← elapsed_idled] at hafter
  rw [step_of_ok (step_eq_of_quiet hhalted hrunning h.before hafter), elapsed_idled]
  rfl

include hhalted hrunning in
theorem pictures_step_of_quiet (h : c.StaysQuiet) :
    pictures c.step.events = pictures (Lcd.pass 4 (c.board.lcd, c.board.requested)).2 := by
  have hbegan : pictures (Exec.began c.circuit).bus.events = [] :=
    Observed.pictures_beginStep c.cpu.regs.pc ⟨c.board, #[]⟩
  obtain ⟨-, -, htick⟩ := Lcd.tick_display 1 (Exec.began c.circuit).bus
  rw [began_board, hbegan] at htick
  rw [step_of_quiet hhalted hrunning h]
  exact htick

theorem play_steps_succ (n : Nat) (c : Console) :
    c.play (List.replicate (n + 1) .step) =
      ((c.stepped n).step.console,
        (c.play (List.replicate n .step)).2 ++ (c.stepped n).step.events) := by
  rw [List.replicate_succ', play_append]
  simp [play, Operation.perform, stepped]

theorem stepped_succ (n : Nat) (c : Console) : c.stepped (n + 1) = (c.stepped n).step.console := by
  rw [stepped, play_steps_succ]

include hhalted hrunning in
/-- An idle cycle comes to the same as the time it takes. -/
theorem passesTime_one (h : c.StaysQuiet) : c.PassesTime 1 := by
  refine ⟨fun k hk => ?_, ?_, ?_⟩
  · rw [Nat.lt_one_iff.mp hk]
    exact congrArg Reply.result (step_of_quiet hhalted hrunning h)
  · exact congrArg Reply.console (step_of_quiet hhalted hrunning h)
  · change pictures (c.step.events ++ #[]) = _
    rw [Array.append_empty]
    exact pictures_step_of_quiet hhalted hrunning h

include hhalted hrunning in
/-- One more idle cycle follows on the time that has passed. -/
theorem PassesTime.succ (h : c.PassesTime n) (hquiet : (c.stepped n).StaysQuiet) :
    c.PassesTime (n + 1) := by
  rw [h.console] at hquiet
  have hstep := step_of_quiet (c := c.fastForward n) hhalted hrunning hquiet
  have hpictures := pictures_step_of_quiet (c := c.fastForward n) hhalted hrunning hquiet
  refine ⟨fun k hk => ?_, ?_, ?_⟩
  · obtain hlt | rfl := Nat.lt_succ_iff_lt_or_eq.mp hk
    · exact h.results k hlt
    · rw [h.console, hstep]
  · rw [stepped_succ, h.console, hstep, fastForward_add]
  · rw [play_steps_succ, pictures_append, h.console, hpictures, h.pictures, Nat.mul_succ,
      Lcd.pass_add, pictures_append]
    rfl

include hhalted hrunning in
theorem passesTime (hn : 0 < n) (hquiet : ∀ k < n, (c.stepped k).StaysQuiet) : c.PassesTime n := by
  induction hn with
  | refl => exact passesTime_one hhalted hrunning (hquiet 0 Nat.one_pos)
  | @step n _ ih =>
    have hrest : c.PassesTime n := ih fun k hk => hquiet k (Nat.lt_succ_of_lt hk)
    exact hrest.succ hhalted hrunning (hquiet n (Nat.lt_succ_self n))

include hhalted hrunning in
/-- It is quiet throughout some steps if it is so at the end of their time. -/
theorem forall_staysQuiet_iff (hn : 0 < n) :
    (∀ k < n, (c.stepped k).StaysQuiet) ↔ (c.fastForward n).board.Quiet := by
  induction hn with
  | refl =>
    rw [← staysQuiet_iff hhalted]
    refine ⟨fun h => h 0 Nat.one_pos, fun h k hk => ?_⟩
    rw [Nat.lt_one_iff.mp hk]
    exact h
  | @step n hn ih =>
    have hlast (h : ∀ k < n, (c.stepped k).StaysQuiet) :
        (c.stepped n).StaysQuiet ↔ (c.fastForward (n + 1)).board.Quiet := by
      rw [(passesTime hhalted hrunning hn h).console, fastForward_add]
      exact staysQuiet_iff hhalted
    constructor
    · intro h
      exact (hlast fun k hk => h k (Nat.lt_succ_of_lt hk)).mp (h n (Nat.lt_succ_self n))
    · intro h
      have hbefore : ∀ k < n, (c.stepped k).StaysQuiet := by
        rw [Nat.succ_eq_add_one, fastForward_add] at h
        exact ih.mpr (quiet_of_fastForward h)
      intro k hk
      obtain hlt | rfl := Nat.lt_succ_iff_lt_or_eq.mp hk
      · exact hbefore k hlt
      · exact (hlast hbefore).mpr h

include hhalted in
theorem work_of_called (h : ¬ c.board.Quiet) :
    ∃ s, Exec.work c.circuit = .ok 1 s ∧ s.cpu.halted = false := by
  obtain ⟨sources, hpending, hsources⟩ : ∃ sources,
      Exec.pending (Exec.began c.circuit) = .ok sources (Exec.began c.circuit) ∧
        sources.isEmpty = false := by
    refine ⟨_, Exec.pending_eq _, ?_⟩
    rw [began_board, Bool.eq_false_iff]
    exact mt Board.quiet_iff_isEmpty.mpr h
  refine ⟨Exec.costing 1 (Exec.woken sources (Exec.began c.circuit)), ?_, ?_⟩
  · rw [Exec.work_of_halted hhalted]
    exact Exec.idle_eq_ok_iff.mpr ⟨sources, _, hpending, rfl, rfl⟩
  · rw [Exec.woken_eq, hsources, Bool.and_false]
    rfl

theorem finishStep_halted : Access.Preserves (fun s => s.cpu.halted = false)
    (Exec.finishStep : Exec Observed Nat) :=
  Exec.finishStep_preserves (K := (· = Cpu.enterInterrupt)) (P := fun cpu _ => cpu.halted = false)
    rfl ⟨fun _ _ _ h => h, fun _ _ _ hf h => hf ▸ h⟩ (fun _ => Bus.stable_const _) fun _ _ h => h

include hhalted hrunning in
/-- A parked processor that is called is parked no longer, whether it enters a routine or not. -/
theorem step_of_called (h : ¬ c.board.Quiet) : c.step.console.cpu.halted = false := by
  obtain ⟨s, hwork, hs⟩ := work_of_called hhalted h
  cases hstep : Exec.step c.circuit with
  | ok k t =>
    obtain ⟨n, u, m, hwork', hfinish, -⟩ := (Exec.step_eq_ok_iff hrunning).mp hstep
    rw [hwork] at hwork'
    cases hwork'
    rw [step_of_ok hstep]
    exact finishStep_halted.of_ok (s := Exec.elapsed 1 s) hs hfinish
  | error e t =>
    obtain herror | ⟨n, u, hwork', hfinish⟩ := (Exec.step_eq_error_iff hrunning).mp hstep
    · rw [hwork] at herror
      cases herror
    · rw [hwork] at hwork'
      cases hwork'
      rw [step_of_error hstep]
      exact finishStep_halted.of_error (s := Exec.elapsed 1 s) hs hfinish

end Halted

/-- As long as nothing calls a parked processor, its steps take a machine cycle each and come to the
    same as their time passing at once; whether anything does can be told at the end of that time.
    The first step that finds it called ends the parking, whether interrupts are accepted or not. -/
theorem parked_until_called (hhalted : c.cpu.halted = true) (hrunning : c.cpu.stopped = false) :
    (∀ n, 0 < n → (∀ k < n, (c.stepped k).StaysQuiet) → c.PassesTime n) ∧
    (∀ n, 0 < n → ((∀ k < n, (c.stepped k).StaysQuiet) ↔ (c.fastForward n).board.Quiet)) ∧
    (¬ c.board.Quiet → c.step.console.cpu.halted = false) :=
  ⟨fun _ => passesTime hhalted hrunning, fun _ => forall_staysQuiet_iff hhalted hrunning,
    step_of_called hhalted hrunning⟩

/-- A parked console that waits for v-blank or a button. -/
def waiting : Console :=
  (parked.write8 Interrupts.enableAddr 0x11).console

/-- The same console a hundred cycles later, when a button is pressed. -/
def called : Console :=
  (waiting.fastForward 100).setButton .start true

theorem parked_until_called_waiting :
    waiting.cpu.halted = true ∧ waiting.cpu.stopped = false ∧
      (∀ k < 100, (waiting.stepped k).StaysQuiet) ∧ waiting.PassesTime 100 ∧
      called.cpu.halted = true ∧ called.cpu.stopped = false ∧ ¬ called.board.Quiet ∧
      called.step.console.cpu.halted = false := by
  -- One evaluation for both, since the second console comes of the first.
  obtain ⟨hhalted, hrunning, hend, hstill, hready, hcalled⟩ :
      waiting.cpu.halted = true ∧ waiting.cpu.stopped = false ∧
        (waiting.fastForward 100).board.Quiet ∧
        called.cpu.halted = true ∧ called.cpu.stopped = false ∧ ¬ called.board.Quiet := by
    decide +kernel
  obtain ⟨hpasses, hiff, -⟩ := parked_until_called hhalted hrunning
  obtain ⟨-, -, hwakes⟩ := parked_until_called hstill hready
  have hquiet := (hiff 100 (by decide)).mpr hend
  exact ⟨hhalted, hrunning, hquiet, hpasses 100 (by decide) hquiet, hstill, hready, hcalled,
    hwakes hcalled⟩

end Console

end Handheld
