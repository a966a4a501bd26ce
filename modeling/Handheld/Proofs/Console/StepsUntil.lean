import Handheld.Proofs.Console.FailedStep
import Handheld.Proofs.Console.Pace

namespace Handheld

namespace Raster

variable {r : Raster} {k t x : Nat}

/-- In the line after a frame was finished, the time since then is on the display's clock. -/
theorem InStep.vblank_begins (h : r.InStep t) (ht : t + 4560 = cyclesPerFrame * k + x)
    (hx : x < 456) : r.mode = .vBlank ∧ r.line = vblankLine ∧ r.clock = x := by
  have hplace := h.place
  have hclock := h.clock_lt
  have hend := r.mode.lead_add_budget_le
  simp only [cyclesPerFrame_eq] at ht hplace
  have hline : r.line = vblankLine := by
    rw [vblankLine]
    omega
  have hmode : r.mode = .vBlank := h.vblank_iff.mpr (by rw [hline]; decide)
  rw [hmode, hline, Lcd.Mode.lead, vblankLine] at hplace
  exact ⟨hmode, hline, by omega⟩

end Raster

namespace Console

/-- How steps come to an end. -/
inductive Finale
  /-- What they were taken for has come about. -/
  | done
  /-- The processor was stopped before that. -/
  | stopped
  | failed (e : Fault)
  deriving DecidableEq, Repr, Inhabited

namespace Finale

/-- What is told about the end of a frame. -/
def result : Finale → Except Fault Unit
  | .done | .stopped => .ok ()
  | .failed e => .error e

/-- What is told about the end of a run. -/
def ending : Finale → RunEnd
  | .done => .cancelled
  | .stopped => .stopped
  | .failed e => .failed e

theorem ending_injective {x y : Finale} (h : x.ending = y.ending) : x = y := by
  cases x <;> cases y <;> cases h <;> rfl

end Finale

/-- From `c` exactly `n` steps are taken, which lead to `d` and end there with `x`: before each step
    it is seen to whether `done` holds, and then whether the processor is stopped. -/
inductive StepsUntil (done : Console → Prop) : Console → Nat → Console → Finale → Prop
  | done {c : Console} : done c → StepsUntil done c 0 c .done
  | stopped {c : Console} : ¬ done c → c.cpu.stopped = true → StepsUntil done c 0 c .stopped
  | failed {c : Console} {e : Fault} : ¬ done c → c.cpu.stopped = false →
      c.step.result = .error e → StepsUntil done c 1 c.step.console (.failed e)
  | step {c d : Console} {k n : Nat} {x : Finale} : ¬ done c → c.cpu.stopped = false →
      c.step.result = .ok k → StepsUntil done c.step.console n d x → StepsUntil done c (n + 1) d x

/-- What a way of ending tells of the console that it leaves. -/
def Finale.EndsAt (done : Console → Prop) (d : Console) : Finale → Prop
  | .done => done d
  | .stopped => ¬ done d ∧ d.cpu.stopped = true
  | .failed _ => d.cpu.stopped = true

/-- The console has finished so many frames. -/
def Finished (goal : Nat) (c : Console) : Prop :=
  goal ≤ c.frames

variable {done done' : Console → Prop} {c d e : Console} {goal k m n t : Nat} {x y : Finale}
  {fault : Fault}

theorem stopped_of_step_fails (h : c.step.result = .error fault) :
    c.step.console.cpu.stopped = true := by
  cases hstep : Exec.step c.circuit with
  | ok n s =>
    rw [step_of_ok hstep] at h
    cases h
  | error e' s =>
    rw [step_of_error hstep]
    rfl

namespace StepsUntil

/-- What holds where the steps end. -/
theorem ends (h : StepsUntil done c n d x) : x.EndsAt done d := by
  induction h with
  | done hdone => exact hdone
  | stopped hdone hstopped => exact ⟨hdone, hstopped⟩
  | failed _ _ herror => exact stopped_of_step_fails herror
  | step _ _ _ _ ih => exact ih

/-- Nothing is done for what has already come about. -/
theorem of_done (h : StepsUntil done c n d x) (hc : done c) : n = 0 ∧ d = c ∧ x = .done := by
  cases h with
  | done => exact ⟨rfl, rfl, rfl⟩
  | stopped hnot | failed hnot | step hnot => exact absurd hc hnot

theorem frames_le (h : StepsUntil done c n d x) : c.frames ≤ d.frames := by
  induction h with
  | done | stopped => exact Nat.le_refl _
  | failed => exact frames_le_step _
  | step _ _ _ _ ih => exact Nat.le_trans (frames_le_step _) ih

/-- What has come about may be the start of what is awaited next. -/
theorem trans (h : StepsUntil done c n d .done) (h' : StepsUntil done' d m e y)
    (hdone : ∀ c, done' c → done c) : StepsUntil done' c (n + m) e y := by
  generalize hx : Finale.done = x at h
  induction h with
  | done =>
    rw [Nat.zero_add]
    exact h'
  | stopped | failed => cases hx
  | @step c _ k n _ hc hrunning hstep _ ih =>
    rw [Nat.add_right_comm]
    exact .step (fun h => hc (hdone c h)) hrunning hstep (ih h' hx)

/-- Steps that end for another reason end so too if more is awaited. -/
theorem extend (h : StepsUntil done c n d x) (hx : x ≠ .done) (hdone : ∀ c, done' c → done c) :
    StepsUntil done' c n d x := by
  induction h with
  | done => exact absurd rfl hx
  | stopped hc hstopped => exact .stopped (fun h => hc (hdone _ h)) hstopped
  | failed hc hrunning herror => exact .failed (fun h => hc (hdone _ h)) hrunning herror
  | step hc hrunning hstep _ ih => exact .step (fun h => hc (hdone _ h)) hrunning hstep (ih hx)

end StepsUntil

/-- So many frames are finished once the last of them has been due. -/
theorem finished_iff (h : c.board.lcd.raster.InStep t) :
    c.Finished goal ↔ Raster.cyclesPerFrame * goal ≤ t + 4560 := by
  have hframes : c.frames = (t + 4560) / Raster.cyclesPerFrame := h.frames
  unfold Finished
  rw [hframes, Raster.cyclesPerFrame_eq]
  omega

theorem not_finished_iff (h : c.board.lcd.raster.InStep t) :
    ¬ c.Finished goal ↔ t + 4560 < Raster.cyclesPerFrame * goal := by
  rw [finished_iff h, Nat.not_le]

/-- To wait for frames always comes to an end. Each step brings them nearer. -/
theorem exists_stepsUntil {fuel : Nat} (h : c.board.lcd.raster.InStep t)
    (hfuel : Raster.cyclesPerFrame * goal ≤ t + 4560 + 4 * fuel) :
    ∃ n ≤ fuel, ∃ d x, StepsUntil (Finished goal) c n d x := by
  induction fuel generalizing c t with
  | zero => exact ⟨0, Nat.le_refl 0, c, .done, .done ((finished_iff h).mpr hfuel)⟩
  | succ fuel ih =>
    by_cases hgoal : c.Finished goal
    · exact ⟨0, Nat.zero_le _, c, .done, .done hgoal⟩
    cases hstopped : c.cpu.stopped with
    | true => exact ⟨0, Nat.zero_le _, c, .stopped, .stopped hgoal hstopped⟩
    | false =>
      cases hresult : c.step.result with
      | error e => exact ⟨1, by omega, _, _, .failed hgoal hstopped hresult⟩
      | ok k =>
        obtain ⟨m, -, -, hinStep, hpos⟩ := step_time h
        have hlater := hpos hstopped k hresult
        obtain ⟨n, hn, d, x, hrest⟩ := ih hinStep (by omega)
        exact ⟨n + 1, Nat.succ_le_succ hn, d, x, .step hgoal hstopped hresult hrest⟩

/-- The wait ends less than 32 clock cycles after the last frame was due. -/
theorem StepsUntil.time (h : StepsUntil (Finished goal) c n d x) (hgoal : ¬ c.Finished goal)
    (hc : c.board.lcd.raster.InStep t) :
    ∃ m, d.cpu.clockCycles = c.cpu.clockCycles + 4 * m ∧
      d.board.lcd.raster.InStep (t + 4 * m) ∧
      t + 4 * m + 4560 < Raster.cyclesPerFrame * goal + 32 := by
  induction h generalizing t with
  | done hdone => exact absurd hdone hgoal
  | stopped =>
    have hbefore := (not_finished_iff hc).mp hgoal
    exact ⟨0, rfl, hc, by omega⟩
  | failed =>
    have hbefore := (not_finished_iff hc).mp hgoal
    obtain ⟨m, hle, hclock, hinStep, -⟩ := step_time hc
    exact ⟨m, hclock, hinStep, by omega⟩
  | @step c d k n x _ _ _ hrest ih =>
    have hbefore := (not_finished_iff hc).mp hgoal
    obtain ⟨m, hle, hclock, hinStep, -⟩ := step_time hc
    by_cases hfinished : c.step.console.Finished goal
    · -- This step was the last one.
      obtain ⟨-, rfl, -⟩ := hrest.of_done hfinished
      exact ⟨m, hclock, hinStep, by omega⟩
    · obtain ⟨m', hclock', hinStep', hbound⟩ := ih hfinished hinStep
      have htime : t + 4 * m + 4 * m' = t + 4 * (m + m') := by omega
      rw [htime] at hinStep' hbound
      exact ⟨m + m', by omega, hinStep', hbound⟩

/-- No step finishes more frames than are awaited. -/
theorem StepsUntil.frames_le_goal (h : StepsUntil (Finished goal) c n d x)
    (hgoal : ¬ c.Finished goal) (hc : c.Reachable) : d.frames ≤ goal := by
  obtain ⟨t, ht⟩ := hc.inStep
  obtain ⟨m, -, hinStep, hbound⟩ := h.time hgoal ht
  have hnext : ¬ d.Finished (goal + 1) := by
    rw [not_finished_iff hinStep]
    simp only [Raster.cyclesPerFrame_eq] at hbound ⊢
    omega
  exact Nat.le_of_lt_succ (Nat.lt_of_not_le hnext)

section StepWhile

variable {start fuel : Nat} {events : Array Event}

theorem stepWhile_of_frames_ne (h : c.frames ≠ start) :
    stepWhile start fuel c events = ⟨c, .ok (), events⟩ := by
  cases fuel with
  | zero => rfl
  | succ fuel => rw [stepWhile, if_pos (.inl h)]

theorem stepWhile_of_ok (hframes : c.frames = start) (hrunning : c.cpu.stopped = false)
    (hstep : c.step.result = .ok k) :
    stepWhile start (fuel + 1) c events =
      stepWhile start fuel c.step.console (events ++ c.step.events) := by
  rw [stepWhile, if_neg (by simp [hframes, hrunning])]
  simp only [hstep]

theorem stepWhile_of_error (hframes : c.frames = start) (hrunning : c.cpu.stopped = false)
    (hstep : c.step.result = .error fault) :
    stepWhile start (fuel + 1) c events =
      ⟨c.step.console, .error fault, events ++ c.step.events⟩ := by
  rw [stepWhile, if_neg (by simp [hframes, hrunning])]
  simp only [hstep]

/-- A frame is the steps until one more is finished. -/
theorem StepsUntil.stepWhile (h : StepsUntil (Finished (start + 1)) c n d x)
    (hstart : start ≤ c.frames) (hfuel : n ≤ fuel) :
    (stepWhile start fuel c events).console = d ∧
      (stepWhile start fuel c events).result = x.result := by
  have hwaits {c : Console} (hstart : start ≤ c.frames) (hgoal : ¬ c.Finished (start + 1)) :
      c.frames = start :=
    Nat.le_antisymm (Nat.le_of_lt_succ (Nat.lt_of_not_le hgoal)) hstart
  induction h generalizing fuel events with
  | @done c hdone =>
    have hframes : c.frames ≠ start := Nat.ne_of_gt hdone
    rw [stepWhile_of_frames_ne hframes]
    exact ⟨rfl, rfl⟩
  | stopped _ hstopped =>
    rw [stepWhile_of_stopped hstopped]
    exact ⟨rfl, rfl⟩
  | failed hgoal hrunning herror =>
    obtain ⟨fuel, rfl⟩ := Nat.exists_eq_add_of_le' hfuel
    rw [stepWhile_of_error (hwaits hstart hgoal) hrunning herror]
    exact ⟨rfl, rfl⟩
  | @step c _ _ n _ hgoal hrunning hstep _ ih =>
    obtain ⟨more, rfl⟩ := Nat.exists_eq_add_of_le' hfuel
    rw [← Nat.add_assoc, stepWhile_of_ok (hwaits hstart hgoal) hrunning hstep]
    exact ih (Nat.le_trans hstart (frames_le_step c)) (Nat.le_add_left n more)

end StepWhile

section RunLoop

variable {σ : Type} {host : Host σ} {s : σ} {fuel : Nat}

/-- The host calls a run off as soon as it has been given this many more frames. -/
def Host.CallsOffAfter (host : Host σ) (s : σ) (frames : Nat) : Prop :=
  ∀ events : Array Event,
    host.cancelled (events.foldl host.react s) = decide (frames ≤ framesIn events)

/-- The frames that it is given count. -/
theorem Host.CallsOffAfter.foldl {frames : Nat} (h : host.CallsOffAfter s frames)
    (events : Array Event) :
    host.CallsOffAfter (events.foldl host.react s) (frames - framesIn events) := by
  intro more
  have hall := h (events ++ more)
  rw [Array.foldl_append, framesIn_append] at hall
  rw [hall, decide_eq_decide]
  omega

theorem Host.CallsOffAfter.cancelled {frames : Nat} (h : host.CallsOffAfter s frames) :
    host.cancelled s = decide (frames = 0) := by
  have hnow := h #[]
  rw [Array.foldl_empty] at hnow
  rw [hnow, decide_eq_decide]
  exact Nat.le_zero

/-- A host that counts the frames down calls a run off when none are left. -/
theorem Host.callsOffAfter_of_countdown (left : σ → Nat)
    (hreact : ∀ s e, left (host.react s e) = left s - if e.isFrame then 1 else 0)
    (hcancelled : ∀ s, host.cancelled s = decide (left s = 0)) (s : σ) :
    host.CallsOffAfter s (left s) := by
  intro events
  have hleft : left (events.foldl host.react s) = left s - framesIn events := by
    unfold framesIn
    rw [← Array.foldl_toList]
    induction events.toList generalizing s with
    | nil => rfl
    | cons e es ih => rw [List.foldl_cons, ih, hreact, List.countP_cons, Nat.sub_sub, Nat.add_comm]
  rw [hcancelled, hleft, decide_eq_decide]
  exact Nat.sub_eq_zero_iff_le

theorem runLoop_of_cancelled (h : host.cancelled s = true) :
    runLoop host (fuel + 1) c s = ⟨c, host.tell s (.runCancelled c.frames), .cancelled⟩ := by
  rw [runLoop, if_pos h]

theorem runLoop_of_stopped (h : host.cancelled s = false) (hstopped : c.cpu.stopped = true) :
    runLoop host (fuel + 1) c s =
      ⟨c, host.tell s (.runStopped c.cpu.regs.pc c.frames), .stopped⟩ := by
  rw [runLoop, if_neg (by simp [h]), if_pos hstopped]

theorem runLoop_of_ok (h : host.cancelled s = false) (hrunning : c.cpu.stopped = false)
    (hstep : c.step.result = .ok k) :
    runLoop host (fuel + 1) c s =
      runLoop host fuel c.step.console (c.step.events.foldl host.react s) := by
  rw [runLoop, if_neg (by simp [h]), if_neg (by simp [hrunning])]
  simp only [hstep]

theorem runLoop_of_error (h : host.cancelled s = false) (hrunning : c.cpu.stopped = false)
    (hstep : c.step.result = .error fault) :
    runLoop host (fuel + 1) c s =
      ⟨c.step.console, host.tell (c.step.events.foldl host.react s) (.runFailed fault),
        .failed fault⟩ := by
  rw [runLoop, if_neg (by simp [h]), if_neg (by simp [hrunning])]
  simp only [hstep]

/-- A run is the steps until the host has been given its frames. -/
theorem StepsUntil.runLoop (h : StepsUntil (Finished goal) c n d x)
    (hhost : host.CallsOffAfter s (goal - c.frames)) (hfuel : n ≤ fuel) :
    (runLoop host (fuel + 1) c s).console = d ∧
      (runLoop host (fuel + 1) c s).ending = x.ending := by
  have hcalls {c : Console} {s : σ} (hhost : host.CallsOffAfter s (goal - c.frames))
      (hgoal : ¬ c.Finished goal) : host.cancelled s = false := by
    have hless : c.frames < goal := Nat.lt_of_not_le hgoal
    rw [hhost.cancelled, decide_eq_false_iff_not]
    omega
  induction h generalizing fuel s with
  | done hdone =>
    have hcancelled : host.cancelled s = true := by
      rw [hhost.cancelled, decide_eq_true_iff]
      exact Nat.sub_eq_zero_of_le hdone
    rw [runLoop_of_cancelled hcancelled]
    exact ⟨rfl, rfl⟩
  | stopped hgoal hstopped =>
    rw [runLoop_of_stopped (hcalls hhost hgoal) hstopped]
    exact ⟨rfl, rfl⟩
  | failed hgoal hrunning herror =>
    rw [runLoop_of_error (hcalls hhost hgoal) hrunning herror]
    exact ⟨rfl, rfl⟩
  | @step c _ _ n _ hgoal hrunning hstep _ ih =>
    obtain ⟨more, rfl⟩ := Nat.exists_eq_add_of_le' hfuel
    have hrest := hhost.foldl c.step.events
    rw [Nat.sub_sub, ← step_frames] at hrest
    rw [runLoop_of_ok (hcalls hhost hgoal) hrunning hstep, ← Nat.add_assoc]
    exact ih hrest (Nat.le_add_left n more)

end RunLoop

end Console

end Handheld
