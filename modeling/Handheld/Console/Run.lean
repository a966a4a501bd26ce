import Handheld.Console.Basic

namespace Handheld.Console

/-- Enough steps for any frame: a step takes at least one machine cycle. -/
def stepsPerFrame : Nat :=
  Raster.cyclesPerFrame / 4

/-- Takes at most `fuel` steps, until the number of frames is no longer `start`. -/
def stepWhile (start : Nat) : Nat → Console → Array Event → Reply Unit
  | 0, c, events => ⟨c, .ok (), events⟩
  | fuel + 1, c, events =>
    if c.frames ≠ start ∨ c.cpu.stopped then ⟨c, .ok (), events⟩
    else
      let r := c.step
      match r.result with
      | .ok _ => stepWhile start fuel r.console (events ++ r.events)
      | .error e => ⟨r.console, .error e, events ++ r.events⟩

/-- Runs until a frame is finished or the processor stops. -/
def stepFrame (c : Console) : Reply Unit :=
  stepWhile c.frames stepsPerFrame c #[]

/-- The party that a run is made for: it takes note of events and may call the run off. -/
structure Host (σ : Type) where
  react : σ → Event → σ
  cancelled : σ → Bool

/-- Why a run ended. -/
inductive RunEnd
  /-- The host called it off. -/
  | cancelled
  /-- The processor was stopped. -/
  | stopped
  | failed (fault : Fault)
  /-- The steps that were counted out are used up. -/
  | unfinished
  deriving DecidableEq, Repr, Inhabited

/-- What a run comes to. -/
structure Run (σ : Type) where
  console : Console
  host : σ
  ending : RunEnd

section

variable {σ : Type}

/-- Tells the host about a notice. -/
@[inline]
def Host.tell (host : Host σ) (s : σ) (n : Notice) : σ :=
  host.react s (.notice (.console n))

/-- Takes at most `fuel` steps, looking before each whether there is cause to end. -/
def runLoop (host : Host σ) : Nat → Console → σ → Run σ
  | 0, c, s => ⟨c, s, .unfinished⟩
  | fuel + 1, c, s =>
    if host.cancelled s then
      ⟨c, host.tell s (.runCancelled c.frames), .cancelled⟩
    else if c.cpu.stopped then
      ⟨c, host.tell s (.runStopped c.cpu.regs.pc c.frames), .stopped⟩
    else
      let r := c.step
      let s := r.events.foldl host.react s
      match r.result with
      | .ok _ => runLoop host fuel r.console s
      | .error e => ⟨r.console, host.tell s (.runFailed e), .failed e⟩

/-- Runs until the host calls it off, the processor stops or a step fails. The host must call the
    run off within `frames` frames, or it ends unfinished. -/
def run (host : Host σ) (frames : Nat) (c : Console) (s : σ) : Run σ :=
  runLoop host (stepsPerFrame * frames + 1) c (host.tell s (.runStart c.cpu.regs.pc))

end

end Handheld.Console
