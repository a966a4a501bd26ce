import Handheld.Log.Level

namespace Handheld.Log

/-- Lets records of origins whose name starts with `target` through, down to `level`; with no
    level, none of them. -/
structure Directive where
  target : String := ""
  level : Option Level
  deriving DecidableEq, Repr, Inhabited

/-- Directives, of which the one with the longest matching target decides about a record. -/
structure Filter where
  directives : List Directive
  deriving DecidableEq, Repr, Inhabited

/-- The level with a given name, in any case; `off` lets nothing through. -/
def Level.named? (name : String) : Option (Option Level) :=
  match name.toLower with
  | "off" => some none
  | "error" => some (some .error)
  | "warn" => some (some .warn)
  | "info" => some (some .info)
  | "debug" => some (some .debug)
  | "trace" => some (some .trace)
  | _ => none

namespace Directive

/-- Reads `level`, `target` or `target=level`; a target alone is let through at every level. -/
def parse? (text : String) : Option Directive :=
  match (text.splitOn "=").map fun part => part.trimAscii.toString with
  | [""] => none
  | [part] =>
    match Level.named? part with
    | some level => some ⟨"", level⟩
    | none => some ⟨part, some .trace⟩
  | [target, ""] => some ⟨target, some .trace⟩
  | [target, name] => (Level.named? name).map fun level => ⟨target, level⟩
  | _ => none

/-- The directive speaks about this origin. -/
def covers (d : Directive) (origin : Origin) : Bool :=
  origin.target.startsWith d.target

/-- The directive lets records of this level through. -/
def admits (d : Directive) (level : Level) : Bool :=
  match d.level with
  | some deepest => level.rank ≤ deepest.rank
  | none => false

end Directive

namespace Filter

/-- One level for every origin. -/
def everywhere (level : Option Level) : Filter :=
  ⟨[{ level }]⟩

/-- Reads directives separated by commas, skipping those that make no sense. Without any, and
    where nothing is asked for at all, errors alone are logged. -/
def parse (text : Option String) : Filter :=
  match ((text.getD "").splitOn ",").filterMap Directive.parse? with
  | [] => everywhere (some .error)
  | directives => ⟨directives⟩

/-- The directive that decides about an origin: of the longest targets, the last one given. -/
def decisive? (f : Filter) (origin : Origin) : Option Directive :=
  (f.directives.filter (·.covers origin)).foldl
    (fun best d =>
      match best with
      | some b => if b.target.length ≤ d.target.length then some d else some b
      | none => some d)
    none

/-- Records of this origin and level are logged. -/
def enabled (f : Filter) (origin : Origin) (level : Level) : Bool :=
  match f.decisive? origin with
  | some d => d.admits level
  | none => false

/-- The record is logged. -/
def passes (f : Filter) (r : Record) : Bool :=
  f.enabled r.origin r.level

end Filter

end Handheld.Log
