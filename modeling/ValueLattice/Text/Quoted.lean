/-!
# Quoted texts

A text between double quotes. Quotes, backslashes and five control characters have a letter of
their own after a backslash; every other character that may not stand for itself is written as
`\u` and four lower-case hexadecimal digits. Which characters those are is a parameter:

* `isControl`: the characters below U+0020, for keys and texts of elements;
* `isUnprintable`: also the invisible characters of the basic plane, for dumps.
-/

namespace ValueLattice.Text

/-- The hexadecimal digit of a number below sixteen. -/
def hexDigit (n : Nat) : Char :=
  if n < 10 then Char.ofNat (48 + n) else Char.ofNat (87 + n)

/-- The four hexadecimal digits of a 16-bit unit. -/
def hexUnit (u : Nat) : List Char :=
  [hexDigit (u / 0x1000 % 16), hexDigit (u / 0x100 % 16), hexDigit (u / 0x10 % 16),
    hexDigit (u % 16)]

/-- The letter that follows the backslash for a character with a short form. -/
def shortEscape? : Char → Option Char
  | '"' => some '"'
  | '\\' => some '\\'
  | '\x08' => some 'b'
  | '\t' => some 't'
  | '\n' => some 'n'
  | '\x0c' => some 'f'
  | '\r' => some 'r'
  | _ => none

/-- The written form of one character inside the quotes. -/
def quotedChar (hidden : Nat → Bool) (c : Char) : List Char :=
  match shortEscape? c with
  | some letter => ['\\', letter]
  | none => if hidden c.toNat then '\\' :: 'u' :: hexUnit c.toNat else [c]

/-- The text between double quotes, with the characters that `hidden` selects written by their
number. -/
def quoted (hidden : Nat → Bool) (s : String) : String :=
  String.ofList ('"' :: s.toList.flatMap (quotedChar hidden) ++ ['"'])

/-- The control characters below U+0020. -/
def isControl (n : Nat) : Bool := n < 0x20

/-- Closed ranges of invisible characters of the basic plane, ascending. -/
def unprintableRanges : List (Nat × Nat) :=
  [(0x0000, 0x001F), (0x007F, 0x009F), (0x00AD, 0x00AD), (0x0600, 0x0604), (0x070F, 0x070F),
    (0x17B4, 0x17B5), (0x200C, 0x200F), (0x2028, 0x202F), (0x2060, 0x206F), (0xFEFF, 0xFEFF),
    (0xFFF0, 0xFFFF)]

/-- The invisible characters of the basic plane, control characters included. -/
def isUnprintable (n : Nat) : Bool :=
  unprintableRanges.any fun r => r.1 ≤ n && n ≤ r.2

end ValueLattice.Text
