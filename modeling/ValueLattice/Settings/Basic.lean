import ValueLattice.Fault
import ValueLattice.Host.Reader

/-!
# Settings

How much is logged and how sets of integers are widened. A settings file is a JSON record; both
settings are optional there, unknown fields are ignored at the top and refused below `widening`.
All issues of a file are reported, those of a field in front of the unknown fields beside it.

* `ofHost` reads the contents of a file;
* `load` reads a file and puts overrides, which nothing validates, in the place of its settings.
-/

namespace ValueLattice

/-- How much is logged. -/
inductive Verbosity where
  /-- Nothing. -/
  | quiet
  /-- Everything. -/
  | debug
  /-- Everything but debug messages. -/
  | standard
  /-- As `standard`, under a name of the caller's. -/
  | other (name : String)
deriving DecidableEq

namespace Verbosity

/-- The name of a verbosity. -/
def name : Verbosity → String
  | quiet => "quiet"
  | debug => "debug"
  | standard => "default"
  | other name => name

/-- The names that a file may use. -/
def names : List String := [quiet.name, debug.name, standard.name]

/-- The verbosity with the given name. -/
def ofName (name : String) : Verbosity :=
  if name = quiet.name then quiet
  else if name = debug.name then debug
  else if name = standard.name then standard
  else other name

end Verbosity

/-- How sets of integers that keep growing are widened. -/
inductive Strategy where
  /-- To the range before narrowing, or to the whole domain if none is recorded. -/
  | wideRange
  /-- To the whole domain. -/
  | domain
  /-- As `domain`, under a name of the caller's. -/
  | other (name : String)
deriving DecidableEq

namespace Strategy

/-- The name of a strategy. -/
def name : Strategy → String
  | wideRange => "wide-range"
  | domain => "domain"
  | other name => name

/-- The names that a file may use. -/
def names : List String := [wideRange.name, domain.name]

/-- The strategy with the given name. -/
def ofName (name : String) : Strategy :=
  if name = wideRange.name then wideRange
  else if name = domain.name then domain
  else other name

end Strategy

/-- The settings of an analysis. -/
structure Settings where
  /-- How much is logged. -/
  verbosity : Verbosity := .standard
  /-- How sets of integers are widened. -/
  strategy : Strategy := .wideRange
deriving DecidableEq

namespace Settings

/-! ## Contents of a file -/

/-- The name of the type of a host value. -/
def typeName : HostValue → String
  | .absent => "undefined"
  | .null => "null"
  | .bool _ => "boolean"
  | .number x => if x = .nan then "nan" else "number"
  | .integer _ => "bigint"
  | .text _ => "string"
  | .list _ => "array"
  | .record _ => "object"

/-- The text of an optional field that allows for some texts only. -/
def readChoice (path allowed : List String) : HostValue → Except Issue (Option String)
  | .absent => .ok none
  | .text s => if s ∈ allowed then .ok (some s) else .error ⟨path, .notAllowed allowed s⟩
  | v => .error ⟨path, .wrongType (alternatives allowed) (typeName v)⟩

/-- The name of the strategy below `widening`. -/
def readStrategy : HostValue → Except Issue (Option String)
  | .absent => .ok none
  | .record fields =>
    readChoice ["widening", "strategy"] Strategy.names (HostValue.field "strategy" (.record fields))
  | v => .error ⟨["widening"], .wrongType "object" (typeName v)⟩

/-- The issue of the unknown fields below `widening`. -/
def unknownFields : HostValue → List Issue
  | .record fields =>
    match (fields.map (·.1)).filter (· ≠ "strategy") with
    | [] => []
    | names => [⟨["widening"], .unknownFields names⟩]
  | _ => []

/-- The issue of a field, if it has one. -/
def issueOf {α : Type} : Except Issue α → List Issue
  | .ok _ => []
  | .error i => [i]

/-- The settings in the contents of a file, or all issues of the contents. -/
def ofHost (v : HostValue) : Except (List Issue) Settings :=
  match v with
  | .record _ =>
    let widening := v.field "widening"
    let verbosity := readChoice ["verbosity"] Verbosity.names (v.field "verbosity")
    let strategy := readStrategy widening
    match verbosity, strategy, unknownFields widening with
    | .ok verbosity, .ok strategy, [] =>
      .ok ⟨(verbosity.map .ofName).getD .standard, (strategy.map .ofName).getD .wideRange⟩
    | verbosity, strategy, unknown => .error (issueOf verbosity ++ issueOf strategy ++ unknown)
  | v => .error [⟨[], .wrongType "object" (typeName v)⟩]

/-! ## Files -/

/-- A settings file, as far as there is one. -/
inductive File where
  /-- No file is named. -/
  | unnamed
  /-- The file at the path does not exist. -/
  | missing (path : String)
  /-- The file at the path has the given contents. -/
  | contents (path text : String)
deriving DecidableEq

/-- The path of a file. -/
def File.path? : File → Option String
  | unnamed => none
  | missing path => some path
  | contents path _ => some path

/-- The value that the contents of a file stand for, an empty record for no file. -/
def File.value : File → Except Fault HostValue
  | unnamed => .ok (.record [])
  | missing path => .error (.unreadableSettings path .missing)
  | contents path text =>
    match HostValue.ofJson? text with
    | some v => .ok v
    | none => .error (.unreadableSettings path .notJson)

/-- What the caller sets, whatever a file says. -/
structure Overrides where
  /-- How much is logged. -/
  verbosity : Option Verbosity := none
  /-- How sets of integers are widened. -/
  strategy : Option Strategy := none

/-- The settings of a file under the given overrides. Issues of the file count even where an
override replaces the setting. -/
def load (file : File) (overrides : Overrides) : Except Fault Settings := do
  let value ← file.value
  match ofHost value with
  | .error issues => .error (.rejectedSettings issues)
  | .ok settings =>
    .ok ⟨overrides.verbosity.getD settings.verbosity, overrides.strategy.getD settings.strategy⟩

end Settings

end ValueLattice
