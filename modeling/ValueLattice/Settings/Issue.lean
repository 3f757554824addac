/-!
# Issues of a settings file

What a settings file may get wrong, and where. An issue is a cause together with the names of the
fields that lead to it.
-/

namespace ValueLattice.Settings

/-- What is wrong with a value. -/
inductive Cause where
  /-- The value is of another type. -/
  | wrongType (expected received : String)
  /-- The text is not one of the allowed ones. -/
  | notAllowed (allowed : List String) (received : String)
  /-- The record has fields that nothing knows. -/
  | unknownFields (names : List String)
deriving DecidableEq

/-- A cause and the place it was found at. -/
structure Issue where
  /-- The names of the fields that lead to the value. -/
  path : List String
  /-- What is wrong with the value. -/
  cause : Cause
deriving DecidableEq

/-- A name between single quotes. -/
def singleQuoted (name : String) : String :=
  "'" ++ name ++ "'"

/-- The allowed texts of a field. -/
def alternatives (allowed : List String) : String :=
  " | ".intercalate (allowed.map singleQuoted)

/-- The description of a cause. -/
def Cause.message : Cause → String
  | wrongType expected received => "Expected " ++ expected ++ ", received " ++ received
  | notAllowed allowed received =>
    "Invalid enum value. Expected " ++ alternatives allowed ++ ", received " ++
      singleQuoted received
  | unknownFields names =>
    "Unrecognized key(s) in object: " ++ ", ".intercalate (names.map singleQuoted)

/-- The line of a report about an issue. -/
def Issue.line (i : Issue) : String :=
  "- " ++ i.cause.message ++ " at " ++
    if i.path.isEmpty then "root" else " > ".intercalate i.path

end ValueLattice.Settings
