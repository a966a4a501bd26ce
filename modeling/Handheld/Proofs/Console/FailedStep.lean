import Handheld.Proofs.Console.Operation

namespace Handheld

namespace Exec

variable {s t : Circuit Observed} {e : Fault}

/-- On the board it can always be told what is pending. -/
theorem pending_eq (s : Circuit Observed) :
    pending s = .ok (.ofByte (s.bus.board.enabled &&& s.bus.board.requested.toByte)) s :=
  pending_eq_ok_iff.mpr ⟨_, _, _, _, Observed.read8_enabled s.bus, Observed.read8_requested s.bus,
    rfl, rfl⟩

/-- On the board a request can always be taken back. -/
theorem acknowledge_ne_error : acknowledge s ≠ .error e t := by
  intro h
  obtain ⟨b, hread, -⟩ | ⟨requested, b, b', hread, hwrite, -⟩ := acknowledge_eq_error_iff.mp h
  · rw [Observed.read8_requested] at hread
    cases hread
  · have hboard : Board.write8 Interrupts.requestAddr (requested &&& 0xFE) b.board = .ok ()
        (b.board.setRegister .interruptRequest (requested &&& 0xFE)) := rfl
    obtain ⟨_, hok⟩ := Observed.write8_of_ok hboard
    rw [hok] at hwrite
    cases hwrite

/-- Work that fails takes no time and leaves the board as the step began it. -/
theorem work_eq_error (hs : s.bus.board.WellFormed) (h : work s = .error e t) :
    t.bus.shown = (s.bus.board.beginStep s.cpu.regs.pc, pictures s.bus.events) ∧
      t.cpu.clock = s.cpu.clock ∧ t.cpu.clockCycles = s.cpu.clockCycles := by
  have hbegan : (began s).bus.shown =
      (s.bus.board.beginStep s.cpu.regs.pc, pictures s.bus.events) := by
    change (s.bus.beginStep s.cpu.regs.pc).shown = _
    rw [Observed.shown, Observed.board_beginStep, Observed.pictures_beginStep]
  refine ⟨?_, ?_⟩
  · rw [← hbegan]
    refine (work_orderly s.cpu.halted).view_of_error Observed.refusesWhole ?_ h
    rw [hbegan]
    exact hs.beginStep s.cpu.regs.pc
  · rw [← Access.after_of_error h]
    exact counters_after_work s

/-- On the board an entry fails only where the return address cannot be pushed. -/
theorem pushWord_of_dispatch_eq_error (h : dispatch s = .error e t) :
    pushWord s.cpu.regs.pc s = .error e t := by
  obtain ⟨-, hpending | ⟨sources, u, hpending, -, henter⟩⟩ := dispatch_eq_error_iff.mp h
  · rw [pending_eq] at hpending
    cases hpending
  · rw [pending_eq] at hpending
    cases hpending
    obtain hpush | ⟨u, -, hacknowledge⟩ := enterRoutine_eq_error_iff.mp henter
    · exact hpush
    · exact absurd hacknowledge acknowledge_ne_error

/-- An entry that fails has changed nothing. -/
theorem dispatch_eq_error (hs : s.bus.board.WellFormed) (h : dispatch s = .error e t) :
    t.cpu = s.cpu ∧ t.bus.shown = s.bus.shown := by
  have hpush := pushWord_of_dispatch_eq_error h
  have hcpu : t.cpu = s.cpu := by
    obtain ⟨b, -, rfl⟩ := pushWord_eq_error_iff.mp hpush
    rfl
  exact ⟨hcpu,
    (pushWord_orderly (K := fun _ => False) _).view_of_error Observed.refusesWhole hs hpush⟩

end Exec

namespace Console

/-- The step fails in fetching or executing. Only the processor's registers and flags may have
    changed, and the boot program may have given way when the step began. -/
def FailsInWork (c : Console) (e : Fault) : Prop :=
  ∃ t, Exec.work c.circuit = .error e t ∧
    (t.cpu.clock = c.cpu.clock ∧ t.cpu.clockCycles = c.cpu.clockCycles) ∧
    c.step.console =
      { c with cpu := t.cpu.stop, board := c.board.beginStep c.cpu.regs.pc } ∧
    pictures c.step.events = []

/-- The step fails in the entry into the v-blank routine. What the work and the time it takes have
    left stays, with the stop flag raised. -/
def FailsInEntry (c : Console) (e : Fault) : Prop :=
  ∃ n s t, Exec.work c.circuit = .ok n s ∧ Exec.dispatch (Exec.elapsed n s) = .error e t ∧
    c.step.console =
      { c with cpu := (Exec.elapsed n s).cpu.stop, board := (Exec.elapsed n s).bus.board } ∧
    pictures c.step.events = pictures (Exec.elapsed n s).bus.events

/-- Nothing that would make the console run changes it. -/
structure Idles (c : Console) : Prop where
  stopped : c.cpu.stopped = true
  step : c.step = ⟨c, .ok 0, #[]⟩
  stepFrame : c.stepFrame = ⟨c, .ok (), #[]⟩
  run : ∀ {σ : Type} (host : Host σ) (frames : Nat) (s : σ),
    host.cancelled (host.tell s (.runStart c.cpu.regs.pc)) = false →
      (c.run host frames s).console = c ∧ (c.run host frames s).ending = .stopped

variable {c : Console} {e : Fault}

theorem step_fails (hc : c.board.WellFormed) (h : c.step.result = .error e) :
    c.FailsInWork e ∨ c.FailsInEntry e := by
  have hrunning : c.cpu.stopped = false := by
    cases hstopped : c.cpu.stopped with
    | false => rfl
    | true =>
      rw [step_of_stopped hstopped] at h
      cases h
  cases hstep : Exec.step c.circuit with
  | ok n s =>
    rw [step_of_ok hstep] at h
    cases h
  | error e' s =>
    have hfailed := step_of_error hstep
    rw [hfailed] at h
    cases h
    obtain hwork | ⟨n, u, hwork, hfinish⟩ := (Exec.step_eq_error_iff hrunning).mp hstep
    · obtain ⟨hshown, hcounters⟩ := Exec.work_eq_error hc hwork
      have hboard : s.bus.board = c.board.beginStep c.cpu.regs.pc := congrArg Prod.fst hshown
      have hpictures : pictures s.bus.events = [] := congrArg Prod.snd hshown
      refine .inl ⟨s, hwork, hcounters, ?_, ?_⟩
      · rw [hfailed, hboard]
      · rw [hfailed, hpictures]
    · have hdispatch := (Exec.finishStep_eq_error_iff.mp hfinish).2
      have hu : u.bus.board.WellFormed :=
        (Exec.work_preserves wellFormed_lasting.cpu wellFormed_lasting.bus
          wellFormed_lasting.begin).of_ok (s := c.circuit) hc hwork
      obtain ⟨hcpu, hshown⟩ := Exec.dispatch_eq_error (hu.advance n) hdispatch
      have hboard : s.bus.board = (Exec.elapsed n u).bus.board := congrArg Prod.fst hshown
      have hpictures : pictures s.bus.events = pictures (Exec.elapsed n u).bus.events :=
        congrArg Prod.snd hshown
      refine .inr ⟨n, u, s, hwork, hdispatch, ?_, ?_⟩
      · rw [hfailed, hcpu, hboard]
      · rw [hfailed, hpictures]

theorem stepWhile_of_stopped (h : c.cpu.stopped = true) (start fuel : Nat)
    (events : Array Event) : stepWhile start fuel c events = ⟨c, .ok (), events⟩ := by
  cases fuel with
  | zero => rfl
  | succ fuel => simp [stepWhile, h]

theorem idles_of_stopped (h : c.cpu.stopped = true) : c.Idles where
  stopped := h
  step := step_of_stopped h
  stepFrame := stepWhile_of_stopped h _ _ _
  run host frames s hcancelled := by
    unfold run runLoop
    simp [hcancelled, h]

/-- The flag is lowered by nothing but a restart and a host that does so by hand. -/
theorem stopped_lasting : Lasting fun cpu _ => cpu.stopped = true where
  cpu := ⟨fun _ _ _ h => h, fun _ _ _ hf h => hf.stopped h⟩
  bus _ := Bus.stable_const _
  begin _ _ h := h
  tick _ _ h := h
  button _ _ _ _ h := h

/-- A failed step is atomic on the board: it fails in its work or in the entry that follows, and
    leaves no trace of what failed. From then on the console idles, whatever the host does, until
    it restarts the console or lowers the stop flag by hand. -/
theorem failed_step_atomic (hc : c.Reachable) (h : c.step.result = .error e) :
    (c.FailsInWork e ∨ c.FailsInEntry e) ∧
      ∀ ops : List Operation,
        (∀ op ∈ ops, ¬ op.Restarts ∧
          op.AdjustsBy fun f => ∀ cpu : Cpu, cpu.stopped = true → (f cpu).stopped = true) →
        (c.step.console.play ops).1.Idles := by
  refine ⟨step_fails hc.wellFormed h, fun ops hops => idles_of_stopped ?_⟩
  refine play_induction (P := fun c _ => c.cpu.stopped = true)
    (fun op hop c _ hstopped => ?_) ?_
  · obtain ⟨hrestarts, hadjusts⟩ := hops op hop
    exact stopped_lasting.perform hrestarts (hadjusts.mono fun f hf cpu _ => hf cpu) hstopped
  · obtain ⟨t, -, -, hconsole, -⟩ | ⟨n, s, t, -, -, hconsole, -⟩ := step_fails hc.wellFormed h
    · rw [hconsole]
      rfl
    · rw [hconsole]
      rfl

/-- A console whose boot program begins with an undefined opcode. -/
def misprogrammed : Console :=
  new { bootImage := some #[0xED] }

theorem failed_step_atomic_misprogrammed :
    ∃ e, misprogrammed.step.result = .error e ∧
      (misprogrammed.FailsInWork e ∨ misprogrammed.FailsInEntry e) ∧
      ∀ ops : List Operation,
        (∀ op ∈ ops, ¬ op.Restarts ∧
          op.AdjustsBy fun f => ∀ cpu : Cpu, cpu.stopped = true → (f cpu).stopped = true) →
        (misprogrammed.step.console.play ops).1.Idles := by
  have hfails : misprogrammed.step.result.toOption = none := by decide +kernel
  cases hresult : misprogrammed.step.result with
  | ok n =>
    rw [hresult] at hfails
    cases hfails
  | error e => exact ⟨e, rfl, failed_step_atomic ⟨_, [], rfl⟩ hresult⟩

end Console

end Handheld
