import ValueLattice.Double.Text
import ValueLattice.Host.Value
import ValueLattice.Text.Quoted

/-!
# Dumps of host values

A dump shows a value over several lines, two blanks deeper with every list or record. Absent
fields are left out and absent items are shown as `null`, and so are numbers that are not finite.
The dump of a record `a` with the list of 1 and a negative zero:

    {
      "a": [
        1,
        0
      ]
    }
-/

namespace ValueLattice.HostValue

/-- The blanks at the start of a line. -/
def margin (depth : Nat) : String :=
  String.ofList (List.replicate (2 * depth) ' ')

/-- Entries between brackets, one on each line. -/
def block (opening closing : String) (depth : Nat) (entries : List String) : String :=
  if entries.isEmpty then opening ++ closing
  else
    opening ++ "\n" ++ margin (depth + 1) ++ (",\n" ++ margin (depth + 1)).intercalate entries ++
      "\n" ++ margin depth ++ closing

/-- The dump of a number. -/
def dumpNumber : Double → String
  | .finite negative index h => (Double.finite negative index h).text
  | _ => "null"

/-- Whether there is no value. -/
def isAbsent : HostValue → Bool
  | absent => true
  | _ => false

mutual

/-- The dump of a value that starts at the given depth. -/
def dumpAt (depth : Nat) : HostValue → String
  | absent => "null"
  | null => "null"
  | bool b => Text.boolean b
  | number x => dumpNumber x
  | integer n => Text.integer n
  | text s => Text.quoted Text.isUnprintable s
  | list items => block "[" "]" depth (dumpItems (depth + 1) items)
  | record fields => block "\x7b" "\x7d" depth (dumpFields (depth + 1) fields)

/-- The dumps of the items of a list. -/
def dumpItems (depth : Nat) : List HostValue → List String
  | [] => []
  | item :: items => dumpAt depth item :: dumpItems depth items

/-- The dumps of the fields of a record, absent ones left out. -/
def dumpFields (depth : Nat) : List (String × HostValue) → List String
  | [] => []
  | (name, value) :: fields =>
    if value.isAbsent then dumpFields depth fields
    else
      (Text.quoted Text.isUnprintable name ++ ": " ++ dumpAt depth value) :: dumpFields depth fields

end

/-- The dump of a value; there is none of `absent`. -/
def dump? (v : HostValue) : Option String :=
  if v.isAbsent then none else some (dumpAt 0 v)

end ValueLattice.HostValue
