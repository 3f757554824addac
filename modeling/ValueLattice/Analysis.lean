import ValueLattice.Element.Checked
import ValueLattice.Logging.Tree

/-!
# Analyses

An analysis has settings and a root logger that follows their verbosity. Its lattice is the lattice
of elements as a solver uses it: it widens as the settings say and notes every widening.

* `Analysis.start` makes an analysis; issues of its settings file become one execution fault;
* `Lattice.widen` widens and logs a debug message below the logger `lattice`; `Lattice.checkedWiden`
  does so with the checks of the operations.
-/

namespace ValueLattice

/-- What a verbosity wants of the sinks. -/
def Verbosity.mapping : Verbosity → Logging.Mapping
  | quiet => .quiet
  | debug => .verbose
  | _ => .standard

/-- The settings and the loggers of an analysis. -/
structure Analysis where
  /-- The settings. -/
  settings : Settings
  /-- The loggers. -/
  loggers : Logging.Tree

namespace Analysis

/-- The heading above the issues of a settings file. -/
def heading (file : Settings.File) : String :=
  "Error parsing " ++ product ++ " configuration" ++ (file.path?.map (" " ++ ·)).getD ""

/-- The help below the issues of a settings file. -/
def help : String :=
  "Expected: \x7b verbosity?: quiet|debug|default, widening?: \x7b strategy?: wide-range|domain \x7d \x7d"

/-- Starts an analysis with the settings of a file under the given overrides. -/
def start (file : Settings.File) (overrides : Settings.Overrides) (saving : Bool) :
    Except Fault Analysis :=
  match Settings.load file overrides with
  | .ok settings => .ok ⟨settings, .root settings.verbosity.mapping saving none⟩
  | .error fault => .error (fault.explain (heading file) help)

end Analysis

/-- The lattice of elements, as an analysis uses it. -/
structure Lattice where
  /-- How sets of integers are widened. -/
  strategy : Strategy
  /-- The logger that widenings are noted by. -/
  logger : Logging.LoggerId

namespace Lattice

/-- The lattice of an analysis, and the loggers with the one of the lattice. -/
def ofAnalysis (a : Analysis) : Lattice × Logging.Tree :=
  let (logger, loggers) := a.loggers.child Logging.Tree.rootId "lattice"
  (⟨a.settings.strategy, logger⟩, loggers)

/-- The lattice as a host value: its logger and its strategy. -/
def toHost (l : Lattice) (loggers : Logging.Tree) : HostValue :=
  .record [("logger", loggers.toHost l.logger), ("strategy", .text l.strategy.name)]

/-- Whether every value of the first element is a value of the second one. -/
def leq (r : Registry) (a b : Element) : Bool :=
  Element.covers r b a

/-- Widens an old state by a new one and notes it if that goes beyond their join. -/
def widen (l : Lattice) (r : Registry) (loggers : Logging.Tree) (old new : Element) :
    Element × Logging.Tree :=
  (Element.widen r l.strategy old new,
    match Element.widenNote? r l.strategy old new with
    | some note => loggers.put l.logger .debug (.text note)
    | none => loggers)

/-- Widens an old state by a new one with the checks of the operations, and notes it if that goes
beyond their join. -/
def checkedWiden (l : Lattice) (r : Registry) (loggers : Logging.Tree) (old new : Element) :
    Except Fault (Element × Logging.Tree) := do
  let widened ← Element.Checked.widen r l.strategy old new
  pure (widened, (l.widen r loggers old new).2)

end Lattice

end ValueLattice
