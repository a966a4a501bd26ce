import Handheld.Proofs.Console.Frame

namespace Handheld.Console

variable {c d : Console} {goal k n : Nat} {x y : Finale} {e : Fault}

/-- Takes frames one by one; the results come in order. -/
def stepFrames : Nat → Console → Console × List (Except Fault Unit)
  | 0, c => (c, [])
  | frames + 1, c =>
    let rest := stepFrames frames c.stepFrame.console
    (rest.1, c.stepFrame.result :: rest.2)

/-- The fault that is reported first, if any is. -/
def firstFault (results : List (Except Fault Unit)) : Option Fault :=
  results.findSome? fun
    | .ok () => none
    | .error e => some e

theorem stepFrames_of_stopped (h : c.cpu.stopped = true) (frames : Nat) :
    (stepFrames frames c).1 = c ∧ firstFault (stepFrames frames c).2 = none := by
  induction frames with
  | zero => exact ⟨rfl, rfl⟩
  | succ frames ih =>
    have hidle : c.stepFrame = ⟨c, .ok (), #[]⟩ := stepWhile_of_stopped h _ _ _
    rw [stepFrames, hidle]
    exact ih

/-- What is wrong with the steps, if anything is. -/
def Finale.fault? : Finale → Option Fault
  | .failed e => some e
  | .done | .stopped => none

/-- Frames taken one by one are the steps until the last of them is finished. -/
theorem stepFrames_stepsUntil (hc : c.Reachable) (frames : Nat) :
    ∃ n ≤ stepsPerFrame * frames, ∃ x,
      StepsUntil (Finished (c.frames + frames)) c n (stepFrames frames c).1 x ∧
        firstFault (stepFrames frames c).2 = x.fault? := by
  induction frames generalizing c with
  | zero => exact ⟨0, Nat.zero_le _, .done, .done (Nat.le_refl c.frames), rfl⟩
  | succ frames ih =>
    obtain ⟨n, hn, x, hfirst, hresult⟩ := stepFrame_stepsUntil hc
    have hmore (d : Console) (hd : d.Finished (c.frames + (frames + 1))) :
        d.Finished (c.frames + 1) :=
      Nat.le_trans (Nat.add_le_add_left (Nat.le_add_left 1 frames) _) hd
    rw [stepFrames, Nat.mul_succ]
    cases x with
    | done =>
      -- The frame is finished, and the others follow.
      obtain ⟨m, hm, y, hrest, hfault⟩ := ih hc.stepFrame
      rw [(hfirst.frame_begins hc).1, Nat.add_assoc, Nat.add_comm 1] at hrest
      refine ⟨n + m, by omega, y, hfirst.trans hrest hmore, ?_⟩
      rw [hresult]
      exact hfault
    | stopped =>
      -- No other frame changes anything.
      obtain ⟨hsame, hnone⟩ := stepFrames_of_stopped hfirst.ends.2 frames
      rw [hsame, hresult]
      exact ⟨n, by omega, .stopped, hfirst.extend nofun hmore, hnone⟩
    | failed e =>
      obtain ⟨hsame, -⟩ := stepFrames_of_stopped hfirst.ends frames
      rw [hsame, hresult]
      exact ⟨n, by omega, .failed e, hfirst.extend nofun hmore, rfl⟩

/-- The console after `n` steps. -/
def stepped (c : Console) (n : Nat) : Console :=
  (play (List.replicate n .step) c).1

/-- Steps that succeed, or none at all, lead to where `P` holds. -/
def LeadsTo (P : Console → Prop) (c : Console) : Prop :=
  ∃ n, P (c.stepped n) ∧ ∀ k < n, ∃ m, (c.stepped k).step.result = .ok m

/-- Where a way of ending is found, in terms of the number of frames that are awaited. -/
def Finale.FoundAt (goal : Nat) (c : Console) : Finale → Prop
  | .done => c.Finished goal
  | .stopped => ¬ c.Finished goal ∧ c.cpu.stopped = true
  | .failed e => ¬ c.Finished goal ∧ c.step.result = .error e

theorem leadsTo_iff {P : Console → Prop} :
    c.LeadsTo P ↔ P c ∨ (∃ m, c.step.result = .ok m) ∧ c.step.console.LeadsTo P := by
  constructor
  · rintro ⟨n, hn, hok⟩
    cases n with
    | zero => exact .inl hn
    | succ n =>
      refine .inr ⟨hok 0 (Nat.zero_lt_succ n), n, hn, fun k hk => ?_⟩
      exact hok (k + 1) (Nat.succ_lt_succ hk)
  · rintro (hnow | ⟨hfirst, n, hn, hok⟩)
    · exact ⟨0, hnow, nofun⟩
    · refine ⟨n + 1, hn, fun k hk => ?_⟩
      cases k with
      | zero => exact hfirst
      | succ k => exact hok k (Nat.lt_of_succ_lt_succ hk)

theorem stepped_of_stopped (h : c.cpu.stopped = true) (n : Nat) : c.stepped n = c := by
  induction n with
  | zero => rfl
  | succ n ih =>
    have hstep : c.step.console = c := by
      rw [step_of_stopped h]
    change c.step.console.stepped n = c
    rw [hstep, ih]

theorem frames_le_stepped (c : Console) (n : Nat) : c.frames ≤ (c.stepped n).frames := by
  induction n generalizing c with
  | zero => exact Nat.le_refl _
  | succ n ih => exact Nat.le_trans (frames_le_step c) (ih c.step.console)

/-- Where as many frames are finished as are awaited, no other end is found any more. -/
theorem leadsTo_of_finished (h : c.Finished goal) :
    c.LeadsTo (y.FoundAt goal) ↔ y = .done := by
  have hlater (n : Nat) : (c.stepped n).Finished goal := Nat.le_trans h (frames_le_stepped c n)
  constructor
  · rintro ⟨n, hn, -⟩
    cases y with
    | done => rfl
    | stopped => exact absurd (hlater n) hn.1
    | failed e => exact absurd (hlater n) hn.1
  · rintro rfl
    exact leadsTo_iff.mpr (.inl h)

theorem leadsTo_of_stopped (h : ¬ c.Finished goal) (hstopped : c.cpu.stopped = true) :
    c.LeadsTo (y.FoundAt goal) ↔ y = .stopped := by
  constructor
  · rintro ⟨n, hn, -⟩
    rw [stepped_of_stopped hstopped] at hn
    cases y with
    | done => exact absurd hn h
    | stopped => rfl
    | failed e =>
      have hfails := hn.2
      rw [step_of_stopped hstopped] at hfails
      cases hfails
  · rintro rfl
    exact leadsTo_iff.mpr (.inl ⟨h, hstopped⟩)

theorem leadsTo_of_error (h : ¬ c.Finished goal) (hrunning : c.cpu.stopped = false)
    (herror : c.step.result = .error e) :
    c.LeadsTo (y.FoundAt goal) ↔ y = .failed e := by
  rw [leadsTo_iff, herror]
  constructor
  · rintro (hnow | ⟨⟨m, hok⟩, -⟩)
    · cases y with
      | done => exact absurd hnow h
      | stopped =>
        obtain ⟨-, hstopped⟩ := hnow
        rw [hrunning] at hstopped
        cases hstopped
      | failed e' =>
        obtain ⟨-, hfails⟩ := hnow
        rw [herror] at hfails
        cases hfails
        rfl
    · cases hok
  · rintro rfl
    exact .inl ⟨h, herror⟩

theorem leadsTo_of_ok (h : ¬ c.Finished goal) (hrunning : c.cpu.stopped = false)
    (hok : c.step.result = .ok k) :
    c.LeadsTo (y.FoundAt goal) ↔ c.step.console.LeadsTo (y.FoundAt goal) := by
  have hnow : ¬ y.FoundAt goal c := by
    intro hfound
    cases y with
    | done => exact h hfound
    | stopped =>
      obtain ⟨-, hstopped⟩ := hfound
      rw [hrunning] at hstopped
      cases hstopped
    | failed e =>
      obtain ⟨-, hfails⟩ := hfound
      rw [hok] at hfails
      cases hfails
  rw [leadsTo_iff, or_iff_right hnow]
  exact and_iff_right ⟨k, hok⟩

/-- Steps end in the one way that is found on the way. -/
theorem StepsUntil.leadsTo_iff_eq (h : StepsUntil (Finished goal) c n d x) :
    c.LeadsTo (y.FoundAt goal) ↔ x = y := by
  rw [eq_comm]
  induction h with
  | done hdone => exact leadsTo_of_finished hdone
  | stopped hgoal hstopped => exact leadsTo_of_stopped hgoal hstopped
  | failed hgoal hrunning herror => exact leadsTo_of_error hgoal hrunning herror
  | step hgoal hrunning hok _ ih => exact (leadsTo_of_ok hgoal hrunning hok).trans ih

/-- A run that is called off after some frames, against these frames taken one by one. -/
structure RunsFrames {σ : Type} (c : Console) (frames : Nat) (run : Run σ) : Prop where
  console : run.console = (stepFrames frames c).1
  cancelled : run.ending = .cancelled ↔ c.LeadsTo (Finished (c.frames + frames))
  stopped : run.ending = .stopped ↔
    c.LeadsTo fun d => ¬ d.Finished (c.frames + frames) ∧ d.cpu.stopped = true
  failed : ∀ e, run.ending = .failed e ↔
    c.LeadsTo fun d => ¬ d.Finished (c.frames + frames) ∧ d.step.result = .error e
  reported : ∀ e, run.ending = .failed e ↔ firstFault (stepFrames frames c).2 = some e
  ends : run.ending ≠ .unfinished

section Run

variable {σ : Type} {host : Host σ} {s : σ} {frames limit : Nat}

/-- A run is the steps until the last of its frames is finished, in which it comes to the same as
    the frames taken one by one. -/
theorem run_stepsUntil (hc : c.Reachable) (hhost : host.CallsOffAfter s frames)
    (hlimit : frames ≤ limit) :
    ∃ n ≤ stepsPerFrame * frames, ∃ x,
      StepsUntil (Finished (c.frames + frames)) c n (stepFrames frames c).1 x ∧
        firstFault (stepFrames frames c).2 = x.fault? ∧
        (c.run host limit s).console = (stepFrames frames c).1 ∧
        (c.run host limit s).ending = x.ending := by
  obtain ⟨n, hn, x, hsteps, hfault⟩ := stepFrames_stepsUntil hc frames
  have hstart : host.CallsOffAfter (host.tell s (.runStart c.cpu.regs.pc))
      (c.frames + frames - c.frames) := by
    rw [Nat.add_sub_cancel_left]
    exact hhost.foldl #[.notice (.console (.runStart c.cpu.regs.pc))]
  have hfuel : n ≤ stepsPerFrame * limit := Nat.le_trans hn (Nat.mul_le_mul_left _ hlimit)
  obtain ⟨hconsole, hending⟩ := hsteps.runLoop hstart hfuel
  exact ⟨n, hn, x, hsteps, hfault, hconsole, hending⟩

theorem runsFrames (hc : c.Reachable) (hhost : host.CallsOffAfter s frames)
    (hlimit : frames ≤ limit) : c.RunsFrames frames (c.run host limit s) := by
  obtain ⟨n, -, x, hsteps, hfault, hconsole, hending⟩ := run_stepsUntil hc hhost hlimit
  have hfound (y : Finale) :
      (c.run host limit s).ending = y.ending ↔ c.LeadsTo (y.FoundAt (c.frames + frames)) := by
    rw [hending, hsteps.leadsTo_iff_eq]
    exact ⟨Finale.ending_injective, congrArg Finale.ending⟩
  refine ⟨hconsole, hfound .done, hfound .stopped, fun e => hfound (.failed e), fun e => ?_, ?_⟩
  · rw [hfault, hending]
    cases x <;> simp [Finale.ending, Finale.fault?]
  · rw [hending]
    cases x <;> nofun

/-- A run whose host waits for some frames leaves the console as these frames would, taken one by
    one. It is called off if they are finished without a fault, it fails with the fault of the step
    that fails before they are, which is the one that the frames report first, and it stops if the
    processor is found stopped before they are. A run that is called off as it starts takes no
    step. -/
theorem run_frame_by_frame (hc : c.Reachable) (frames limit : Nat) :
    (host.CallsOffAfter s frames → frames ≤ limit →
      c.RunsFrames frames (c.run host limit s)) ∧
    (host.cancelled (host.tell s (.runStart c.cpu.regs.pc)) = true →
      c.run host limit s =
        ⟨c, host.tell (host.tell s (.runStart c.cpu.regs.pc)) (.runCancelled c.frames),
          .cancelled⟩) :=
  ⟨runsFrames hc, runLoop_of_cancelled⟩

/-- A host that is content with two frames. -/
def twoFrames : Host Nat where
  react seen
    | .frame _ => seen + 1
    | _ => seen
  cancelled seen := 2 ≤ seen

theorem twoFrames_callsOff : twoFrames.CallsOffAfter 0 2 := by
  refine Host.callsOffAfter_of_countdown (2 - ·) (fun seen e => ?_) (fun seen => ?_) 0
  · cases e <;> rfl
  · change decide _ = decide _
    rw [decide_eq_decide]
    exact Nat.sub_eq_zero_iff_le.symm

/-- The parked console idles through two frames, and takes no step for a host that has had them. -/
theorem run_frame_by_frame_parked :
    parked.Reachable ∧ twoFrames.CallsOffAfter 0 2 ∧
      parked.RunsFrames 2 (parked.run twoFrames 2 0) ∧
      (parked.run twoFrames 2 0).ending = .cancelled ∧
      parked.run twoFrames 2 2 = ⟨parked, 2, .cancelled⟩ := by
  have hruns : parked.RunsFrames 2 (parked.run twoFrames 2 0) :=
    (run_frame_by_frame parked_reachable 2 2).1 twoFrames_callsOff (Nat.le_refl 2)
  have hcancelled : parked.run twoFrames 2 2 = ⟨parked, 2, .cancelled⟩ :=
    (run_frame_by_frame parked_reachable 2 2).2 rfl
  refine ⟨parked_reachable, twoFrames_callsOff, hruns, ?_, hcancelled⟩
  obtain ⟨n, -, x, hsteps, -⟩ := stepFrames_stepsUntil parked_reachable 2
  obtain ⟨rfl, -⟩ := hsteps.of_parked parked_parked
  exact hruns.cancelled.mpr (hsteps.leadsTo_iff_eq (y := .done).mpr rfl)

end Run

end Handheld.Console
