import Handheld.Runner.Session
import Std.Time.DateTime

namespace Handheld.CommandLine

/-- The operating system's code and words for an error. Codes are also given as the number that
    makes zero with them in 32 bits. -/
def failureOf (e : IO.Error) : Storage.Failure :=
  let known (code : UInt32) (details : String) : Storage.Failure :=
    .ofCode (min code (0 - code)).toNat details
  match e with
  | .noFileOrDirectory _ code details => known code details
  | .inappropriateType _ code details => known code details
  | .permissionDenied _ code details => known code details
  | .invalidArgument _ code details => known code details
  | .resourceExhausted _ code details => known code details
  | .hardwareFault code details => known code details
  | .otherError code details => known code details
  | e => ⟨0, toString e⟩

/-- Reads a file of the operating system. -/
def readFile : Storage.Reader IO := fun path => do
  match ← (IO.FS.readBinFile path).toBaseIO with
  | .ok bytes => return .ok bytes.data
  | .error e => return .error (failureOf e)

/-- The present time, as log lines give it. -/
def now : IO String := do
  let t ← Std.Time.Timestamp.now
  let d := Std.Time.PlainDateTime.ofWallTime (Std.Time.Timestamp.toWallTime t .zero)
  let two (n : Int) : String := String.ofList ((toString n).toList.leftpad 2 '0')
  return s!"{d.year.toInt}-{two d.month.val}-{two d.day.val}T" ++
    s!"{two d.hour.val}:{two d.minute.val}:{two d.second.val}Z"

/-- Writes a record with the time and its origin. -/
def writeRecord (r : Log.Record) : IO Unit := do
  let time ← now
  let level := String.ofList (r.level.text.toList.rightpad 5 ' ')
  IO.eprintln s!"[{time} {level} {r.origin.target}] {r.message}"

end Handheld.CommandLine

open Handheld Handheld.CommandLine in
/-- Runs the program on its arguments. The environment sets the log filter. -/
def main (args : List String) : IO UInt32 := do
  let filter := Log.Filter.parse (← IO.getEnv "RUST_LOG")
  let outcome ← Runner.runArgs readFile filter args
  outcome.log.forM writeRecord
  outcome.report.forM fun line => IO.eprintln line
  return outcome.code
