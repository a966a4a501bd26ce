import Handheld.Proofs.Console.Frames
import Handheld.Runner.Session

namespace Handheld.Runner

open Console (Finished StepsUntil)

/-- The limiter calls a run off as soon as it has seen the rest of its frames. -/
theorem Limiter.callsOffAfter (filter : Log.Filter) (l : Limiter) :
    (host filter).CallsOffAfter l (l.limit - l.seen) := by
  refine Console.Host.callsOffAfter_of_countdown (fun l => l.limit - l.seen) (fun l e => ?_)
    (fun l => ?_) l
  · cases e with
    | notice | scanline => rfl
    | frame view =>
      have hcounted : (l.countFrame filter view).limit = l.limit ∧
          (l.countFrame filter view).seen = l.seen + 1 := by
        simp only [countFrame]
        split <;> exact ⟨rfl, rfl⟩
      change (l.countFrame filter view).limit - (l.countFrame filter view).seen = _
      rw [hcounted.1, hcounted.2]
      rfl
  · change decide _ = decide _
    rw [decide_eq_decide]
    exact Nat.sub_eq_zero_iff_le.symm

section Session

variable (filter : Log.Filter) (images : Images) (frames : Nat)

/-- The console of a session, as its run begins. -/
def sessionConsole : Console :=
  ((Console.switchOn (config filter images.boot)).console.load images.cartridge).console

/-- The limiter, which has been told by then how the console was set up. -/
def sessionLimiter : Limiter :=
  ((Console.switchOn (config filter images.boot)).events ++
    ((Console.switchOn (config filter images.boot)).console.load images.cartridge).events).foldl
      (Limiter.host filter).react { limit := frames }

/-- The run of a session. -/
def sessionRun : Console.Run Limiter :=
  (sessionConsole filter images).run (Limiter.host filter) frames
    (sessionLimiter filter images frames)

/-- How a session ends is how its run ends. -/
theorem play_result :
    (play filter images frames).result =
      match (sessionRun filter images frames).ending with
      | .stopped => .ok .stopped
      | .failed e => .error (.fault e)
      | .cancelled | .unfinished => .ok .cancelled := by
  cases hending : (sessionRun filter images frames).ending <;>
    simp only [sessionRun, sessionConsole, sessionLimiter] at hending <;>
    simp only [play, hending]

theorem sessionConsole_reachable : (sessionConsole filter images).Reachable :=
  ⟨config filter images.boot, [.load images.cartridge], rfl⟩

theorem framesIn_warnings (config : Config) : framesIn config.warnings = 0 := by
  unfold Config.warnings
  split
  · split <;> rfl
  · rfl

/-- No frame is finished while the console is set up. -/
theorem sessionLimiter_callsOff :
    (Limiter.host filter).CallsOffAfter (sessionLimiter filter images frames) frames := by
  have hsetup : framesIn ((Console.switchOn (config filter images.boot)).events ++
      ((Console.switchOn (config filter images.boot)).console.load images.cartridge).events) =
        0 := by
    rw [framesIn_append]
    change framesIn (config filter images.boot).warnings + 0 = 0
    rw [framesIn_warnings]
  have hcounted := (Limiter.callsOffAfter filter { limit := frames }).foldl
    ((Console.switchOn (config filter images.boot)).events ++
      ((Console.switchOn (config filter images.boot)).console.load images.cartridge).events)
  rw [hsetup] at hcounted
  exact hcounted

/-- What a session comes to whose run ends so. -/
def sessionResult : Console.Finale → Except Error Exit
  | .done => .ok .cancelled
  | .stopped => .ok .stopped
  | .failed e => .error (.fault e)

/-- The run of a session is the steps until its frames are finished. -/
theorem sessionRun_stepsUntil :
    ∃ n ≤ 17556 * frames, ∃ x,
      StepsUntil (Finished frames) (sessionConsole filter images) n
        (sessionRun filter images frames).console x ∧
      (sessionRun filter images frames).ending = x.ending ∧
      (play filter images frames).result = sessionResult x := by
  have hstart : (sessionConsole filter images).frames = 0 := rfl
  obtain ⟨n, hn, x, hsteps, -, hconsole, hending⟩ :=
    Console.run_stepsUntil (sessionConsole_reachable filter images)
      (sessionLimiter_callsOff filter images frames) (Nat.le_refl frames)
  rw [← hconsole, hstart, Nat.zero_add] at hsteps
  have hrun : (sessionRun filter images frames).ending = x.ending := hending
  refine ⟨n, hn, x, hsteps, hrun, ?_⟩
  rw [play_result, hrun]
  cases x <;> rfl

variable {filter images frames} {d : Console} {n : Nat} {x : Console.Finale}

/-- Steps from the start of a session finish no more than its frames, in no more than their time. -/
theorem session_bounds (h : StepsUntil (Finished frames) (sessionConsole filter images) n d x) :
    d.frames ≤ frames ∧ d.cpu.clockCycles ≤ 70224 * frames := by
  have hstart : (sessionConsole filter images).frames = 0 := rfl
  have hclock : (sessionConsole filter images).cpu.clockCycles = 0 :=
    (Console.counters_powerOn _).2
  have hinStep : (sessionConsole filter images).board.lcd.raster.InStep 0 := Raster.powerOn_inStep
  by_cases hgoal : (sessionConsole filter images).Finished frames
  · obtain ⟨-, rfl, -⟩ := h.of_done hgoal
    rw [hstart, hclock]
    exact ⟨Nat.zero_le _, Nat.zero_le _⟩
  · refine ⟨h.frames_le_goal hgoal (sessionConsole_reachable filter images), ?_⟩
    obtain ⟨m, hlater, -, hbound⟩ := h.time hgoal hinStep
    rw [Raster.cyclesPerFrame_eq] at hbound
    omega

variable (filter images frames)

/-- What a session comes to that is to last for some frames. -/
structure SessionEnds : Prop where
  /-- The run comes to an end, as the steps until its frames are finished do, and the session tells
      which. -/
  ends : ∃ n ≤ 17556 * frames, ∃ x,
    StepsUntil (Finished frames) (sessionConsole filter images) n
      (sessionRun filter images frames).console x ∧
    (sessionRun filter images frames).ending = x.ending ∧
    (play filter images frames).result = sessionResult x
  clock : (sessionRun filter images frames).console.cpu.clockCycles ≤ 70224 * frames
  cancelled : (play filter images frames).result = .ok .cancelled →
    (sessionRun filter images frames).console.frames = frames
  stopped : (play filter images frames).result = .ok .stopped →
    (sessionRun filter images frames).console.frames < frames
  failed : ∀ e, (play filter images frames).result = .error e → (∃ fault, e = .fault fault) ∧
    (sessionRun filter images frames).console.frames ≤ frames
  nothing : frames = 0 → (play filter images frames).result = .ok .cancelled ∧
    (sessionRun filter images frames).console = sessionConsole filter images

theorem sessionEnds : SessionEnds filter images frames := by
  obtain ⟨n, hn, x, hsteps, hending, hresult⟩ := sessionRun_stepsUntil filter images frames
  obtain ⟨hframes, hclock⟩ := session_bounds hsteps
  refine ⟨⟨n, hn, x, hsteps, hending, hresult⟩, hclock, fun hok => ?_, fun hok => ?_,
    fun e herror => ?_, fun hnone => ?_⟩
  · rw [hresult] at hok
    cases x with
    | done => exact Nat.le_antisymm hframes hsteps.ends
    | stopped | failed => cases hok
  · rw [hresult] at hok
    cases x with
    | stopped => exact Nat.lt_of_not_le hsteps.ends.1
    | done | failed => cases hok
  · rw [hresult] at herror
    cases x with
    | failed fault =>
      cases herror
      exact ⟨⟨fault, rfl⟩, hframes⟩
    | done | stopped => cases herror
  · have hgoal : (sessionConsole filter images).Finished frames := by
      rw [hnone]
      exact Nat.zero_le _
    obtain ⟨-, hsame, rfl⟩ := hsteps.of_done hgoal
    exact ⟨hresult, hsame⟩

end Session

/-- The files that a session is to read hold these images. -/
structure Readable {m : Type → Type} [Monad m] (read : Storage.Reader m) (o : Options)
    (images : Images) : Prop where
  cartridge : read o.cartridge = pure (.ok images.cartridge.image)
  boot : (o.bootImage = none ∧ images.boot = none) ∨ ∃ path bytes,
    o.bootImage = some path ∧ images.boot = some bytes ∧ read path = pure (.ok bytes)

section Read

variable {m : Type → Type} [Monad m] [LawfulMonad m] {read : Storage.Reader m} {o : Options}
  {images : Images}

theorem Readable.readImages (h : Readable read o images) :
    readImages read o = pure (.ok images) := by
  have hcartridge : Cartridge.ofFile o.cartridge (.ok images.cartridge.image) =
      .ok images.cartridge := by
    simp [Cartridge.ofFile, Cartridge.ofImage, Cartridge.ofImage?, images.cartridge.image_nonempty]
  obtain ⟨hpath, hboot⟩ | ⟨path, bytes, hpath, hboot, hread⟩ := h.boot
  · simp only [Runner.readImages, h.cartridge, pure_bind, hcartridge, hpath, ← hboot]
  · simp only [Runner.readImages, h.cartridge, pure_bind, hcartridge, hpath, hread, ← hboot]

/-- Whatever the cartridge and the boot program do, a session whose images can be read comes to an
    end after at most 17556 steps for each of its frames. If it is called off, just these frames are
    finished; if it stops, fewer are; and if it fails, it does so for a fault of the console, and no
    more are. -/
theorem run_ends (h : Readable read o images) (filter : Log.Filter) :
    run read filter o = pure (play filter images o.frames) ∧
      SessionEnds filter images o.frames := by
  refine ⟨?_, sessionEnds filter images o.frames⟩
  simp only [run, h.readImages, pure_bind]

end Read

/-- Images of a cartridge and of a boot program that parks the processor. -/
def parkingImages : Images :=
  ⟨⟨#[0], by decide⟩, some #[0x76]⟩

/-- The files that hold them. -/
def readParking : Storage.Reader Id
  | "boot" => .ok #[0x76]
  | _ => .ok #[0]

theorem run_ends_parking :
    Readable readParking ⟨"cartridge", 3, some "boot"⟩ parkingImages ∧
      run readParking ⟨[]⟩ ⟨"cartridge", 3, some "boot"⟩ = play ⟨[]⟩ parkingImages 3 ∧
      SessionEnds ⟨[]⟩ parkingImages 3 ∧
      (play ⟨[]⟩ parkingImages 3).result = .ok .cancelled := by
  have hreadable : Readable readParking ⟨"cartridge", 3, some "boot"⟩ parkingImages :=
    ⟨rfl, .inr ⟨"boot", #[0x76], rfl, rfl, rfl⟩⟩
  obtain ⟨hplay, hends⟩ := run_ends hreadable ⟨[]⟩
  refine ⟨hreadable, hplay, hends, ?_⟩
  obtain ⟨n, -, x, hsteps, -, hresult⟩ := hends.ends
  -- The first step parks the processor.
  have hfirst : (sessionConsole ⟨[]⟩ parkingImages).cpu.stopped = false ∧
      (sessionConsole ⟨[]⟩ parkingImages).step.result.toOption.isSome = true ∧
      (sessionConsole ⟨[]⟩ parkingImages).step.console.cpu.halted = true ∧
      (sessionConsole ⟨[]⟩ parkingImages).step.console.cpu.stopped = false ∧
      (sessionConsole ⟨[]⟩ parkingImages).step.console.board.enabled = 0 := by
    decide +kernel
  obtain ⟨hrunning, hsucceeds, hhalted, hstill, hdisabled⟩ := hfirst
  have hdone : x = .done := hsteps.of_parking hrunning hsucceeds ⟨hhalted, hstill, hdisabled⟩
  rw [hresult, hdone]
  rfl

end Handheld.Runner
