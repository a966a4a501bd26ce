import Handheld.Text.Decimal

namespace Handheld.Runner

/-- What to run. -/
structure Options where
  cartridge : String
  frames : Nat
  bootImage : Option String
  deriving DecidableEq, Repr, Inhabited

/-- What is wrong with a command line. -/
inductive OptionsError
  | missingCartridge
  | badFrameCount (text : String) (cause : Decimal.Error)
  | unexpected (arg : String)
  deriving DecidableEq, Repr, Inhabited

namespace Options

/-- The frames to run when no number is given. -/
def defaultFrames : Nat := 600

def usage : String := "usage: dotmatrix <cartridge> [frames] [boot-image]"

/-- Reads the number of frames. -/
def parseFrames (text : String) : Except OptionsError Nat :=
  match Decimal.parse text with
  | .ok n => .ok n
  | .error cause => .error (.badFrameCount text cause)

/-- Reads the arguments from left to right. -/
def ofArgs : List String → Except OptionsError Options
  | [] => .error .missingCartridge
  | [cartridge] => .ok ⟨cartridge, defaultFrames, none⟩
  | cartridge :: frames :: rest => do
    let frames ← parseFrames frames
    match rest with
    | [] => return ⟨cartridge, frames, none⟩
    | [bootImage] => return ⟨cartridge, frames, some bootImage⟩
    | _ :: extra :: _ => throw (.unexpected extra)

end Options

namespace OptionsError

def message : OptionsError → String
  | .missingCartridge => s!"missing cartridge path\n{Options.usage}"
  | .badFrameCount text _ => s!"invalid frame count '{text}'"
  | .unexpected arg => s!"unexpected argument '{arg}'\n{Options.usage}"

/-- What lies behind the error, if anything does. -/
def cause? : OptionsError → Option Decimal.Error
  | .badFrameCount _ cause => some cause
  | _ => none

end OptionsError

end Handheld.Runner
