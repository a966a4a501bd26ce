import Handheld.Cartridge.Load
import Handheld.Fault
import Handheld.Runner.Options

namespace Handheld.Runner

/-- A reason to give up. -/
inductive Error
  | options (e : OptionsError)
  | cartridge (e : Cartridge.LoadError)
  | bootImage (path : String) (cause : Storage.Failure)
  | fault (e : Fault)
  deriving DecidableEq, Repr, Inhabited

namespace Error

/-- The messages of an error and of what lies behind it, outermost first. -/
def chain : Error → List String
  | .options e => e.message :: (e.cause?.map Decimal.Error.message).toList
  | .cartridge e =>
    "cannot start without a cartridge" :: e.message ::
      (e.cause?.map Storage.Failure.message).toList
  | .bootImage path cause => [s!"failed to read boot image {path}", cause.message]
  | .fault e => [e.message]

/-- The causes of an error, one to a line; several are numbered. -/
def causeLines : List String → List String
  | [] => []
  | [cause] => ["", "Caused by:", "    " ++ cause]
  | causes =>
    "" :: "Caused by:" :: causes.zipIdx.map fun (cause, i) =>
      String.ofList ((toString i).toList.leftpad 5 ' ') ++ ": " ++ cause

/-- The report of an error, line by line. -/
def report (e : Error) : List String :=
  match e.chain with
  | [] => []
  | message :: causes => ("Error: " ++ message) :: causeLines causes

end Error

end Handheld.Runner
