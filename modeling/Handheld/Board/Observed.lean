import Handheld.Board.Access
import Handheld.Board.Time
import Handheld.Console.Notice
import Handheld.Cpu.Bus

namespace Handheld

/-- A board and what has been observed on it, oldest first. -/
structure Observed where
  board : Board
  events : Array Event := #[]

namespace Observed

/-- Adds an event. -/
def note (o : Observed) (e : Event) : Observed :=
  { o with events := o.events.push e }

/-- Adds a notice of the board. -/
def notice (o : Observed) (n : Board.Notice) : Observed :=
  o.note (.notice (.board n))

/-- Adds a notice of the board if there is one. -/
def notice? (o : Observed) : Option Board.Notice → Observed
  | some n => o.notice n
  | none => o

/-- What is reported about a write that succeeds. -/
def writeNotice? (b : Board) (addr : UInt16) (v : UInt8) : Option Board.Notice :=
  match Region.of addr with
  | .romFixed | .romBanked => (b.mapper.notice? addr v).map .mapper
  | .io => if IoRegister.of addr = .dma then some (.transfer (Word.pageStart v)) else none
  | _ => none

/-- Performs an access of the board. A refusal is reported; success is reported as `n` says. -/
@[inline]
def perform {α : Type} (n : Option Board.Notice) (act : Access Board α) : Access Observed α :=
  fun o =>
    match act o.board with
    | .ok a board => .ok a ({ o with board }.notice? n)
    | .error e board => .error e ({ o with board }.notice (.refused e))

/-- Reads a byte. -/
def read8 (addr : UInt16) : Access Observed UInt8 :=
  perform none (Access.observe fun b => b.read8 addr)

/-- Writes a byte. -/
def write8 (addr : UInt16) (v : UInt8) : Access Observed Unit := fun o =>
  perform (writeNotice? o.board addr v) (Board.write8 addr v) o

/-- Tries a write out. A refusal is reported, as a refused write would be. -/
def tryWrite (addr : UInt16) (v : UInt8) : Access Observed Unit :=
  perform none (Access.observe fun b => b.checkWrite addr v)

/-- Writes a word, of which no half is left behind by a refusal. -/
def write16 (addr : UInt16) (w : UInt16) : Access Observed Unit := do
  tryWrite (addr + 1) (Word.hi w)
  write8 addr (Word.lo w)
  write8 (addr + 1) (Word.hi w)

/-- A step begins at `pc`. -/
def beginStep (pc : UInt16) (o : Observed) : Observed :=
  let leaves := o.board.overlay && pc == 0x0100
  { o with board := o.board.beginStep pc }.notice? (if leaves then some .leftBootProgram else none)

/-- The events of a signal of the display. -/
def signalEvents (lcd : Lcd) : Raster.Signal → List Event
  | .scanline line => [.scanline (lcd.viewOf (.scanline line))]
  | .frame number => [.notice (.board (.vblank number)), .frame (lcd.viewOf (.frame number))]

/-- The events of a stretch of time. -/
def timeEvents (b : Board) (passed : Board.Passed) : List Event :=
  List.replicate passed.overflows (.notice (.board (.timerOverflow b.timer.tma))) ++
    passed.signals.flatMap (signalEvents b.lcd)

/-- Lets machine cycles pass. -/
def tick (cycles : Nat) (o : Observed) : Observed :=
  let (board, passed) := o.board.advance cycles
  { board, events := o.events ++ (timeEvents board passed).toArray }

instance : Bus Observed where
  read8 := read8
  write8 := write8
  write16 := write16
  beginStep := beginStep
  tick := tick
  report n o := o.note (.notice (.cpu n))

end Observed

end Handheld
