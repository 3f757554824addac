import ValueLattice.Double.Rounding
import ValueLattice.Host.Value
import ValueLattice.Text.Units

/-!
# Reading host values

The JSON grammar in its strict form: no comments, no trailing commas, no byte order mark, four blank
characters, and nothing but blanks behind the value. Numbers are rounded to the nearest double.
Of two fields with one name the later value counts.

* `readString`, `readNumber`: the scalars, each followed by the rest of the text;
* `readValue`: any value; the fuel bounds the depth of the recursion, and twice the length of the
  text is always enough, since of two nested calls one consumes a character;
* `HostValue.ofJson?` reads a whole text.
-/

namespace ValueLattice

namespace Json

/-! ## Strings -/

/-- The value of a hexadecimal digit. -/
def hexValue? (c : Char) : Option Nat :=
  if '0' ≤ c ∧ c ≤ '9' then some (c.toNat - 48)
  else if 'a' ≤ c ∧ c ≤ 'f' then some (c.toNat - 87)
  else if 'A' ≤ c ∧ c ≤ 'F' then some (c.toNat - 55)
  else none

/-- The unit written with four hexadecimal digits. -/
def hexUnit? (a b c d : Char) : Option Nat := do
  let a ← hexValue? a
  let b ← hexValue? b
  let c ← hexValue? c
  let d ← hexValue? d
  some (((a * 16 + b) * 16 + c) * 16 + d)

/-- The unit that a letter after a backslash stands for. -/
def escapedUnit? : Char → Option Nat
  | '"' => some 0x22
  | '\\' => some 0x5C
  | '/' => some 0x2F
  | 'b' => some 0x08
  | 'f' => some 0x0C
  | 'n' => some 0x0A
  | 'r' => some 0x0D
  | 't' => some 0x09
  | _ => none

/-- Puts units in front of those that were read. -/
def prepend (units : List Nat) (read : List Nat × List Char) : List Nat × List Char :=
  (units ++ read.1, read.2)

/-- The units of a string up to its closing quote, and what follows it. -/
def readString : List Char → Option (List Nat × List Char)
  | [] => none
  | '"' :: rest => some ([], rest)
  | '\\' :: 'u' :: a :: b :: c :: d :: rest =>
    match hexUnit? a b c d with
    | some unit => (readString rest).map (prepend [unit])
    | none => none
  | '\\' :: letter :: rest =>
    match escapedUnit? letter with
    | some unit => (readString rest).map (prepend [unit])
    | none => none
  | c :: rest => if c.toNat < 0x20 then none else (readString rest).map (prepend (Text.charUnits c))

/-! ## Numbers -/

/-- The number that a list of digits stands for. -/
def digitsValue (digits : List Char) : Nat :=
  digits.foldl (fun n c => n * 10 + (c.toNat - 48)) 0

/-- The digits at the start of a text, at least one. -/
def readDigits (cs : List Char) : Option (List Char × List Char) :=
  match cs.takeWhile Char.isDigit with
  | [] => none
  | digits => some (digits, cs.dropWhile Char.isDigit)

/-- A minus sign, if there is one. -/
def readMinus : List Char → Bool × List Char
  | '-' :: rest => (true, rest)
  | rest => (false, rest)

/-- The digits in front of the point: a zero stands alone. -/
def readWhole : List Char → Option (List Char × List Char)
  | '0' :: rest => some (['0'], rest)
  | rest => readDigits rest

/-- The digits behind the point, if there is one. -/
def readFraction : List Char → Option (List Char × List Char)
  | '.' :: rest => readDigits rest
  | rest => some ([], rest)

/-- The digits of an exponent with an optional sign. -/
def readSigned : List Char → Option (Int × List Char)
  | '+' :: rest => (readDigits rest).map fun read => ((digitsValue read.1 : Int), read.2)
  | '-' :: rest => (readDigits rest).map fun read => (-(digitsValue read.1 : Int), read.2)
  | rest => (readDigits rest).map fun read => ((digitsValue read.1 : Int), read.2)

/-- The exponent, if there is one. -/
def readExponent : List Char → Option (Int × List Char)
  | 'e' :: rest => readSigned rest
  | 'E' :: rest => readSigned rest
  | rest => some (0, rest)

/-- A number, and what follows it. -/
def readNumber (cs : List Char) : Option (Double × List Char) := do
  let (negative, cs) := readMinus cs
  let (whole, cs) ← readWhole cs
  let (fraction, cs) ← readFraction cs
  let (exponent, cs) ← readExponent cs
  some (Double.ofNumeral negative (digitsValue (whole ++ fraction)) (exponent - fraction.length), cs)

/-! ## Values -/

/-- Whether a character may stand between the parts of a value. -/
def isBlank (c : Char) : Bool :=
  c == ' ' || c == '\t' || c == '\n' || c == '\r'

/-- The text without the blanks at its start. -/
def skipBlanks (cs : List Char) : List Char :=
  cs.dropWhile isBlank

/-- The text that the units of a string stand for. -/
def textOfUnits (units : List Nat) : String :=
  String.ofList (Text.ofUnits units)

mutual

/-- A value, and what follows it. -/
def readValue : Nat → List Char → Option (HostValue × List Char)
  | 0, _ => none
  | fuel + 1, cs =>
    match cs with
    | 'n' :: 'u' :: 'l' :: 'l' :: rest => some (.null, rest)
    | 't' :: 'r' :: 'u' :: 'e' :: rest => some (.bool true, rest)
    | 'f' :: 'a' :: 'l' :: 's' :: 'e' :: rest => some (.bool false, rest)
    | '"' :: rest => (readString rest).map fun read => (.text (textOfUnits read.1), read.2)
    | '[' :: rest =>
      match skipBlanks rest with
      | ']' :: rest => some (.list [], rest)
      | rest => (readItems fuel rest).map fun read => (.list read.1, read.2)
    | '{' :: rest =>
      match skipBlanks rest with
      | '}' :: rest => some (.record [], rest)
      | rest => (readFields fuel rest).map fun read => (.ofFields read.1, read.2)
    | _ => (readNumber cs).map fun read => (.number read.1, read.2)

/-- The items of a list that has some, up to the closing bracket. -/
def readItems : Nat → List Char → Option (List HostValue × List Char)
  | 0, _ => none
  | fuel + 1, cs =>
    match readValue fuel (skipBlanks cs) with
    | none => none
    | some (item, rest) =>
      match skipBlanks rest with
      | ',' :: rest => (readItems fuel rest).map fun read => (item :: read.1, read.2)
      | ']' :: rest => some ([item], rest)
      | _ => none

/-- The fields of a record that has some, up to the closing brace. -/
def readFields : Nat → List Char → Option (List (String × HostValue) × List Char)
  | 0, _ => none
  | fuel + 1, cs =>
    match skipBlanks cs with
    | '"' :: rest =>
      match readString rest with
      | none => none
      | some (name, rest) =>
        match skipBlanks rest with
        | ':' :: rest =>
          match readValue fuel (skipBlanks rest) with
          | none => none
          | some (value, rest) =>
            match skipBlanks rest with
            | ',' :: rest =>
              (readFields fuel rest).map fun read => ((textOfUnits name, value) :: read.1, read.2)
            | '}' :: rest => some ([(textOfUnits name, value)], rest)
            | _ => none
        | _ => none
    | _ => none

end

end Json

/-- The value that a JSON text stands for, if it is one. -/
def HostValue.ofJson? (s : String) : Option HostValue :=
  let cs := s.toList
  match Json.readValue (2 * cs.length + 2) (Json.skipBlanks cs) with
  | some (value, rest) => if (Json.skipBlanks rest).isEmpty then some value else none
  | none => none

end ValueLattice
