import Handheld.Cartridge.Basic
import Handheld.Storage.Directory
import Handheld.Text.Quoted

namespace Handheld

/-- Why there is no cartridge. -/
inductive Cartridge.LoadError
  | unreadable (path : String) (cause : Storage.Failure)
  | empty
  deriving DecidableEq, Repr, Inhabited

namespace Cartridge.LoadError

def message : LoadError → String
  | .unreadable path _ => s!"failed to load cartridge {Quoted.encode path}"
  | .empty => "cartridge image is empty"

/-- What lies behind the error, if anything does. -/
def cause? : LoadError → Option Storage.Failure
  | .unreadable _ cause => some cause
  | .empty => none

end Cartridge.LoadError

namespace Cartridge

/-- The cartridge with this image. -/
def ofImage (image : Array UInt8) : Except LoadError Cartridge :=
  match ofImage? image with
  | some c => .ok c
  | none => .error .empty

/-- The cartridge in the file at `path`, given what reading it came to. -/
def ofFile (path : String) (contents : Except Storage.Failure (Array UInt8)) :
    Except LoadError Cartridge :=
  match contents with
  | .ok image => ofImage image
  | .error cause => .error (.unreadable path cause)

end Cartridge

end Handheld
