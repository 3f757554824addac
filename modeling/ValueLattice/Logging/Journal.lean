import ValueLattice.Fault

/-!
# Levels, sinks and journals

Messages have levels. Each level has a sink or is silenced, and a journal keeps the messages of each
level that are saved and not printed.

* `PerLevel` is a table with one entry for every level;
* `Sinks.ofMapping` overrides the default sinks level by level.
-/

namespace ValueLattice.Logging

/-- The levels of messages. -/
inductive Level where
  /-- Details for developers. -/
  | debug
  /-- Information. -/
  | info
  /-- Warnings. -/
  | warn
  /-- Errors. -/
  | error
deriving DecidableEq

/-- The name of a level. -/
def Level.name : Level → String
  | debug => "debug"
  | info => "info"
  | warn => "warn"
  | error => "error"

/-- All levels. -/
def Level.all : List Level := [debug, info, warn, error]

/-! ## Tables -/

/-- A table with one entry for every level. -/
structure PerLevel (α : Type) where
  /-- The entry of debug messages. -/
  debug : α
  /-- The entry of information. -/
  info : α
  /-- The entry of warnings. -/
  warn : α
  /-- The entry of errors. -/
  error : α
deriving DecidableEq

namespace PerLevel

variable {α : Type}

/-- The table with one entry throughout. -/
def const (a : α) : PerLevel α := ⟨a, a, a, a⟩

/-- The entry of a level. -/
def get (x : PerLevel α) : Level → α
  | .debug => x.debug
  | .info => x.info
  | .warn => x.warn
  | .error => x.error

/-- The table with another entry for one level. -/
def set (x : PerLevel α) (level : Level) (a : α) : PerLevel α :=
  match level with
  | .debug => { x with debug := a }
  | .info => { x with info := a }
  | .warn => { x with warn := a }
  | .error => { x with error := a }

@[simp] theorem get_const (a : α) (level : Level) : (const a).get level = a := by
  cases level <;> rfl

theorem get_set (x : PerLevel α) (level : Level) (a : α) (other : Level) :
    (x.set level a).get other = if other = level then a else x.get other := by
  cases level <;> cases other <;> rfl

end PerLevel

/-! ## Sinks -/

/-- The names of the sinks of all levels; a level without one is silenced. -/
abbrev Sinks := PerLevel (Option String)

/-- What a caller wants of the sinks. A level that is mapped gets the sink it is mapped to, or is
silenced; the others keep theirs. -/
abbrev Mapping := PerLevel (Option (Option String))

namespace Mapping

/-- Nothing is mapped. -/
def standard : Mapping := .const none

/-- All levels that have a sink by default are silenced. -/
def quiet : Mapping := ⟨none, some none, some none, some none⟩

/-- Debug messages get a sink. -/
def verbose : Mapping := ⟨some (some "log"), none, none, none⟩

end Mapping

namespace Sinks

/-- The default sinks. -/
def standard : Sinks := ⟨none, some "log", some "warn", some "error"⟩

/-- The sinks with the one that a level is mapped to. -/
def override (sinks : Sinks) (mapping : Mapping) (level : Level) : Sinks :=
  match mapping.get level with
  | some sink => sinks.set level sink
  | none => sinks

/-- The default sinks, each overridden if its level is mapped. -/
def ofMapping (mapping : Mapping) : Sinks :=
  Level.all.foldl (override · mapping ·) standard

theorem get_override (sinks : Sinks) (mapping : Mapping) (level other : Level) :
    (sinks.override mapping level).get other =
      if other = level then (mapping.get level).getD (sinks.get level) else sinks.get other := by
  unfold override
  split
  · next sink hsink => rw [PerLevel.get_set, hsink, Option.getD_some]
  · next hsink =>
    split
    · next hlevel => rw [hlevel, hsink, Option.getD_none]
    · rfl

theorem get_ofMapping (mapping : Mapping) (level : Level) :
    (ofMapping mapping).get level = (mapping.get level).getD (standard.get level) := by
  cases level <;> simp [ofMapping, Level.all, get_override]

end Sinks

/-! ## Messages -/

/-- What is logged: a text, or an error with a message. -/
inductive Message where
  /-- A text. -/
  | text (text : String)
  /-- An error. -/
  | error (message : String)
deriving DecidableEq

/-- The text of a message. -/
def Message.content : Message → String
  | text s => s
  | error s => s

/-- The saved messages of every level, in order. -/
abbrev Journal := PerLevel (List String)

namespace Journal

/-- A journal without messages. -/
def empty : Journal := .const []

/-- Enters a text behind the ones of its level. -/
def enter (j : Journal) (level : Level) (text : String) : Journal :=
  j.set level (j.get level ++ [text])

@[simp] theorem get_empty (level : Level) : empty.get level = [] :=
  PerLevel.get_const [] level

theorem get_enter (j : Journal) (level : Level) (text : String) (other : Level) :
    (j.enter level text).get other =
      j.get other ++ if other = level then [text] else [] := by
  rw [enter, PerLevel.get_set]
  split
  · next h => rw [h]
  · rw [List.append_nil]

end Journal

end ValueLattice.Logging
