namespace Handheld.Log

/-- Severity, from the gravest to the most detailed. -/
inductive Level
  | error | warn | info | debug | trace
  deriving DecidableEq, Repr, Inhabited

/-- The place of a level in the order of severity. -/
def Level.rank : Level → Nat
  | .error => 1
  | .warn => 2
  | .info => 3
  | .debug => 4
  | .trace => 5

def Level.text : Level → String
  | .error => "ERROR"
  | .warn => "WARN"
  | .info => "INFO"
  | .debug => "DEBUG"
  | .trace => "TRACE"

/-- The part of the program that a record comes from. -/
inductive Origin
  | cpu | machine | runner
  deriving DecidableEq, Repr, Inhabited

/-- The name under which filters select an origin. -/
def Origin.target : Origin → String
  | .cpu => "dotmatrix_gb::cpu"
  | .machine => "dotmatrix_gb::machine"
  | .runner => "dotmatrix"

/-- One line of the log. -/
structure Record where
  level : Level
  origin : Origin
  message : String
  deriving DecidableEq, Repr, Inhabited

/-- A record as one line of text. -/
def Record.line (r : Record) : String :=
  s!"{r.level.text} {r.message}"

end Handheld.Log
