import ValueLattice.Logging.Journal

/-!
# Trees of loggers

A logger has sinks, a journal and a label. It either saves the messages it gets, so that they can be
read back, or prints them to the sinks, never both; messages on a silenced level vanish. Every
logger is made with sinks and a journal of its own. A child then gets those of its parent instead.

* `create` makes a logger, `child` one below another logger, `put` logs a message;
* `saved` reads back what a logger saved;
* `child_eq_of_some`, `put_eq_of_some`: what they do to a tree.
-/

namespace ValueLattice.Logging

/-- The number of a logger in its tree. -/
abbrev LoggerId := Nat

/-- A logger. Its sinks and its journal may be those of other loggers as well. -/
structure Logger where
  /-- The number of its sinks. -/
  sinks : Nat
  /-- The number of its journal. -/
  journal : Nat
  /-- Whether messages are saved and not printed. -/
  saving : Bool
  /-- What stands in front of its messages. -/
  label : Option String
deriving DecidableEq

namespace Logger

/-- The label of a child with the given name. -/
def labelOfChild (l : Logger) (name : String) : String :=
  match l.label with
  | none => name
  | some label => label ++ ":" ++ name

/-- A text behind the label. -/
def format (l : Logger) (text : String) : String :=
  match l.label with
  | none => text
  | some label => "[" ++ label ++ "] " ++ text

end Logger

/-- Loggers with their sinks and journals, in the order in which they were made, and what they
printed. -/
structure Tree where
  /-- The sinks. -/
  sinks : List Sinks := []
  /-- The journals. -/
  journals : List Journal := []
  /-- The loggers. -/
  loggers : List Logger := []
  /-- The printed messages with their sinks, in order. -/
  printed : List (String × String) := []

namespace Tree

/-- Makes a logger with sinks and a journal of its own. -/
def create (t : Tree) (mapping : Mapping) (saving : Bool) (label : Option String) :
    LoggerId × Tree :=
  (t.loggers.length,
    { t with
      sinks := t.sinks ++ [.ofMapping mapping]
      journals := t.journals ++ [.empty]
      loggers := t.loggers ++ [⟨t.sinks.length, t.journals.length, saving, label⟩] })

/-- A tree with nothing but a root. -/
def root (mapping : Mapping) (saving : Bool) (label : Option String) : Tree :=
  (({} : Tree).create mapping saving label).2

/-- The number of the root. -/
def rootId : LoggerId := 0

/-- Makes a logger below another one, whose sinks and journal it gets. -/
def child (t : Tree) (parent : LoggerId) (name : String) : LoggerId × Tree :=
  match t.loggers[parent]? with
  | none => (parent, t)
  | some p =>
    let (id, t) := t.create .standard p.saving (some (p.labelOfChild name))
    (id,
      { t with
        loggers := t.loggers.modify id fun c => { c with sinks := p.sinks, journal := p.journal } })

/-- The sink of a logger for a level. -/
def sink? (t : Tree) (l : Logger) (level : Level) : Option String :=
  (t.sinks[l.sinks]?).bind (·.get level)

/-- Logs a message. -/
def put (t : Tree) (logger : LoggerId) (level : Level) (m : Message) : Tree :=
  match t.loggers[logger]? with
  | none => t
  | some l =>
    match t.sink? l level with
    | none => t
    | some sink =>
      let text := l.format m.content
      if l.saving then { t with journals := t.journals.modify l.journal (·.enter level text) }
      else { t with printed := t.printed ++ [(sink, text)] }

/-- The messages that a logger saved. -/
def saved (t : Tree) (logger : LoggerId) : Except Fault Journal :=
  match t.loggers[logger]? with
  | none => .error .messagesNotSaved
  | some l =>
    if l.saving then .ok ((t.journals[l.journal]?).getD .empty) else .error .messagesNotSaved

/-- A logger as a host value: whether messages are saved, and the label. The sinks and the messages
are not shown. -/
def toHost (t : Tree) (logger : LoggerId) : HostValue :=
  match t.loggers[logger]? with
  | none => .absent
  | some l =>
    .record [("saveJson", .bool l.saving), ("prefix", (l.label.map .text).getD .absent),
      ("jsonLogs", .record []), ("logFunctions", .record [])]

variable {t : Tree} {parent logger : LoggerId} {l : Logger}

theorem child_eq_of_some (h : t.loggers[parent]? = some l) (name : String) :
    t.child parent name = (t.loggers.length,
      { t with
        sinks := t.sinks ++ [.standard]
        journals := t.journals ++ [.empty]
        loggers := t.loggers ++ [{ l with label := some (l.labelOfChild name) }] }) := by
  have hmodify (c : Logger) (f : Logger → Logger) :
      (t.loggers ++ [c]).modify t.loggers.length f = t.loggers ++ [f c] :=
    List.modifyTailIdx_add (List.modifyHead f) 0 t.loggers [c]
  simp only [child, h, create, hmodify]
  rfl

theorem child_eq_of_none (h : t.loggers[parent]? = none) (name : String) :
    t.child parent name = (parent, t) := by
  rw [child, h]

theorem put_eq_of_some (h : t.loggers[logger]? = some l) (level : Level) (m : Message) :
    t.put logger level m =
      match t.sink? l level with
      | none => t
      | some sink =>
        if l.saving then
          { t with journals := t.journals.modify l.journal (·.enter level (l.format m.content)) }
        else { t with printed := t.printed ++ [(sink, l.format m.content)] } := by
  rw [put, h]

theorem put_eq_of_none (h : t.loggers[logger]? = none) (level : Level) (m : Message) :
    t.put logger level m = t := by
  rw [put, h]

end Tree

end ValueLattice.Logging
