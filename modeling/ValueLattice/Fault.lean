import ValueLattice.Element.Basic
import ValueLattice.Host.Dump
import ValueLattice.Settings.Issue
import ValueLattice.Version

/-!
# Faults

Everything that can go wrong, as a cause. Internal faults come from misuse of the library; their
report may show the value concerned and the calls that led there. Execution faults come from the
surroundings, such as a settings file.

* `Fault.report?` is what an internal fault reports, `Fault.message` the whole text of any fault;
* `Fault.explain` turns issues of a settings file into an execution fault.
-/

namespace ValueLattice

/-- Why a settings file cannot be read. -/
inductive ReadFailure where
  /-- There is no such file. -/
  | missing
  /-- Its contents are not JSON. -/
  | notJson
deriving DecidableEq

/-- What can go wrong. -/
inductive Fault where
  /-- An integer needs more than 64 bits. -/
  | outsideLong (value : Int)
  /-- A number is not a 32-bit integer. -/
  | notAnInt (value : Double)
  /-- A range has members outside the domain of a width. -/
  | outsideWidth (range : RangeSet) (width : IntegralWidth)
  /-- An element that is not a set of integers was narrowed. -/
  | cannotNarrow (kind : ElementKind) (range : RangeSet)
  /-- An object reference was to be always null. -/
  | alwaysNullObject
  /-- A local object was to be possibly null. -/
  | localMayBeNull (nullability : Nullability)
  /-- A host value is not a primitive literal of 64 bits at most. -/
  | invalidPrimitive (value : HostValue)
  /-- A host value is not a payload. -/
  | unsupportedObject (value : HostValue)
  /-- A constant was to belong to an element that is not an object reference. -/
  | notAReference (kind : ElementKind) (value : HostValue)
  /-- A case that should not occur did. -/
  | impossibleCase (value : HostValue)
  /-- An internal fault in the words of the caller. -/
  | internal (message : String) (subject : HostValue) (trace : Bool)
  /-- A number that is not an integer was taken for one. -/
  | notAnInteger (value : Double)
  /-- The messages of a logger that does not save them were asked for. -/
  | messagesNotSaved
  /-- A settings file cannot be read. -/
  | unreadableSettings (path : String) (failure : ReadFailure)
  /-- The contents of a settings file have issues. -/
  | rejectedSettings (issues : List Settings.Issue)
  /-- An execution fault in the words of the caller. -/
  | execution (message : String)
  /-- Any other fault. -/
  | other (message : String)

namespace Fault

/-- The classes of faults. -/
inductive Class where
  /-- Misuse of the library. -/
  | internal
  /-- Trouble with the surroundings. -/
  | execution
  /-- A settings file with issues. -/
  | schema
  /-- A number without an integer value. -/
  | numeric
  /-- Anything else. -/
  | other
deriving DecidableEq

/-- The class of a fault. -/
def faultClass : Fault → Class
  | notAnInteger _ => .numeric
  | messagesNotSaved => .execution
  | unreadableSettings _ _ => .execution
  | rejectedSettings _ => .schema
  | execution _ => .execution
  | other _ => .other
  | _ => .internal

/-! ## Reports of internal faults -/

/-- What an internal fault reports: a message, the value concerned if there is one, and whether the
calls that led there are shown. -/
structure Report where
  /-- The message. -/
  message : String
  /-- The value concerned, or `absent`. -/
  subject : HostValue := .absent
  /-- Whether the calls are shown. -/
  trace : Bool := false

/-- The report of an internal fault. -/
def report? : Fault → Option Report
  | outsideLong n =>
    some { message := "Value " ++ Text.integer n ++ " is outside of the 64-bit signed domain" }
  | notAnInt x => some { message := "Not an int value: " ++ x.text }
  | outsideWidth range width =>
    some { message := "Range " ++ range.text ++ " is not representable as " ++ width.name }
  | cannotNarrow kind range =>
    some { message := "Cannot narrow " ++ kind.name ++ " by " ++ range.text }
  | alwaysNullObject =>
    some {
      message := "Reference types cannot have null nullability, use DfTypes.NULL"
      trace := true }
  | localMayBeNull n =>
    some { message := "Local objects are not null, got nullability: " ++ n.name, trace := true }
  | invalidPrimitive v => some { message := "Invalid primitive constant supplied", subject := v }
  | unsupportedObject v => some { message := "Unsupported constant object", subject := v }
  | notAReference kind v =>
    some { message := "Not a reference type: " ++ kind.name, subject := v, trace := true }
  | impossibleCase v => some { message := "Reached impossible case", subject := v, trace := true }
  | internal message subject trace => some { message, subject, trace }
  | _ => none

/-- The line between the parts of a report. -/
def separator : String :=
  String.ofList (List.replicate 60 '=')

/-- The text of a report, with the given trace of calls. -/
def Report.text (trace : String) (r : Report) : String :=
  "\n".intercalate
    (["Internal " ++ product ++ " Error:", r.message] ++
      (r.subject.dump?.map fun dump => separator ++ "\n" ++ dump).toList ++
      (if r.trace then [separator, "Backtrace: " ++ trace, separator] else []) ++
      ["Using " ++ product ++ " " ++ version])

/-! ## Messages -/

/-- What the surroundings contribute to messages. -/
structure Surroundings where
  /-- The trace of calls. -/
  trace : String
  /-- The words for a file that cannot be read. -/
  cause : ReadFailure → String

/-- The lines about the issues of a settings file. -/
def issueLines (issues : List Settings.Issue) : String :=
  "\n".intercalate (issues.map (·.line))

/-- The text of an execution fault. -/
def executionText (message : String) : String :=
  "Execution Error:\n" ++ message

/-- The whole text of a fault. -/
def message (s : Surroundings) (f : Fault) : String :=
  match f with
  | notAnInteger x => x.text ++ " is not an integer"
  | messagesNotSaved => executionText "JSON logging not enabled for this logger instance"
  | unreadableSettings path failure =>
    executionText ("Could not load or parse config file (" ++ path ++ "): " ++ s.cause failure)
  | rejectedSettings issues => issueLines issues
  | execution text => executionText text
  | other text => text
  | f => (f.report?.map (Report.text s.trace)).getD ""

/-- Turns issues of a settings file into an execution fault, under a heading and with some help
below them. Other faults stay what they are. -/
def explain (heading help : String) : Fault → Fault
  | rejectedSettings issues =>
    execution
      ((if heading.isEmpty then "" else heading ++ "\n") ++ issueLines issues ++
        if help.isEmpty then "" else "\n\n" ++ help)
  | f => f

end Fault

end ValueLattice
