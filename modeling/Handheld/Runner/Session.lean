import Handheld.Console.Run
import Handheld.Log.Filter
import Handheld.Runner.Error

namespace Handheld.Runner

/-- How a session ends that does not fail. -/
inductive Exit
  /-- The frames are up. -/
  | cancelled
  /-- The processor was stopped. -/
  | stopped
  deriving DecidableEq, Repr, Inhabited

def Exit.text : Exit → String
  | .cancelled => "Cancelled"
  | .stopped => "Stopped"

/-- What the runner itself reports. -/
inductive Notice
  | running (cartridge : String) (frames : Nat)
  | frameCount (frames : Nat) (lcdc : UInt8)
  | finished (frames cycles : Nat) (exit : Exit)
  deriving DecidableEq, Repr, Inhabited

/-- The log record of a notice. -/
def Notice.record (n : Notice) : Log.Record :=
  ⟨.info, .runner,
    match n with
    | .running cartridge frames => s!"Running '{cartridge}' for {frames} frames"
    | .frameCount frames lcdc => s!"Frame {frames} (LCDC=0x{Hex.byte lcdc})"
    | .finished frames cycles exit =>
      s!"Finished after {frames} frames ({cycles} machine cycles), exit {exit.text}"⟩

/-- Adds a record to a log if the filter lets it through. -/
def addRecord (filter : Log.Filter) (log : Array Log.Record) (r : Log.Record) :
    Array Log.Record :=
  if filter.passes r then log.push r else log

/-- The host of a session: it counts frames, calls the run off at the limit and keeps the log. -/
structure Limiter where
  limit : Nat
  seen : Nat := 0
  log : Array Log.Record := #[]
  deriving DecidableEq, Repr, Inhabited

namespace Limiter

/-- The frames between two reports of their number. -/
def reportPeriod : Nat := 60

/-- The limit is reached. -/
def reached (l : Limiter) : Bool :=
  l.limit ≤ l.seen

/-- Adds to the log. -/
def write (filter : Log.Filter) (l : Limiter) (r : Log.Record) : Limiter :=
  { l with log := addRecord filter l.log r }

/-- Counts a frame and reports the number now and then. -/
def countFrame (filter : Log.Filter) (l : Limiter) (view : View) : Limiter :=
  let l := { l with seen := l.seen + 1 }
  if l.seen % reportPeriod = 0 then l.write filter (Notice.frameCount l.seen view.lcdc).record
  else l

/-- Takes note of an event. -/
def react (filter : Log.Filter) (l : Limiter) : Event → Limiter
  | .notice n => l.write filter n.record
  | .scanline _ => l
  | .frame view => l.countFrame filter view

/-- The host that this makes. -/
def host (filter : Log.Filter) : Console.Host Limiter :=
  ⟨react filter, reached⟩

end Limiter

/-- What a session comes to. -/
structure Outcome where
  result : Except Error Exit
  log : Array Log.Record

/-- The images that a session needs. -/
structure Images where
  cartridge : Cartridge
  boot : Option (Array UInt8)

/-- Reads the images, the cartridge first. -/
def readImages {m : Type → Type} [Monad m] (read : Storage.Reader m) (o : Options) :
    m (Except Error Images) := do
  match Cartridge.ofFile o.cartridge (← read o.cartridge) with
  | .error e => return .error (.cartridge e)
  | .ok cartridge =>
    match o.bootImage with
    | none => return .ok ⟨cartridge, none⟩
    | some path =>
      match ← read path with
      | .error cause => return .error (.bootImage path cause)
      | .ok boot => return .ok ⟨cartridge, some boot⟩

/-- The configuration for a session: without a boot image the boot program is skipped, and
    instructions are traced if the log has a use for that. -/
def config (filter : Log.Filter) (boot : Option (Array UInt8)) : Config where
  bootImage := boot
  skipBoot := boot.isNone
  trace := filter.enabled .cpu .trace

/-- Runs a cartridge until `frames` frames are finished, it stops or it fails. -/
def play (filter : Log.Filter) (images : Images) (frames : Nat) : Outcome :=
  let started := Console.switchOn (config filter images.boot)
  let loaded := started.console.load images.cartridge
  let host := Limiter.host filter
  let limiter := (started.events ++ loaded.events).foldl host.react { limit := frames }
  let run := loaded.console.run host frames limiter
  let finish (exit : Exit) : Outcome :=
    let notice := Notice.finished run.console.frames run.console.cpu.clock exit
    ⟨.ok exit, addRecord filter run.host.log notice.record⟩
  match run.ending with
  | .stopped => finish .stopped
  | .failed e => ⟨.error (.fault e), run.host.log⟩
  -- The limiter calls the run off before its steps are used up.
  | .cancelled | .unfinished => finish .cancelled

/-- Reads the images and runs them. -/
def run {m : Type → Type} [Monad m] (read : Storage.Reader m) (filter : Log.Filter)
    (o : Options) : m Outcome := do
  match ← readImages read o with
  | .error e => return ⟨.error e, #[]⟩
  | .ok images => return play filter images o.frames

/-- The whole program, given its arguments. -/
def runArgs {m : Type → Type} [Monad m] (read : Storage.Reader m) (filter : Log.Filter)
    (args : List String) : m Outcome := do
  match Options.ofArgs args with
  | .error e => return ⟨.error (.options e), #[]⟩
  | .ok o =>
    let log := addRecord filter #[] (Notice.running o.cartridge o.frames).record
    let outcome ← run read filter o
    return { outcome with log := log ++ outcome.log }

namespace Outcome

/-- The report of an error, line by line; nothing if all went well. -/
def report (o : Outcome) : List String :=
  match o.result with
  | .ok _ => []
  | .error e => e.report

/-- The exit code. -/
def code (o : Outcome) : UInt32 :=
  match o.result with
  | .ok _ => 0
  | .error _ => 1

end Outcome

end Handheld.Runner
