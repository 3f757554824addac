import ValueLattice.Literal
import ValueLattice.Text.Quoted

/-!
# Payloads of reference constants

The objects that a reference constant may stand for: strings, members of enumerations, declared
fields, type literals, and boxed primitive literals. Every name is non-empty.

* `ofHost?` reads a payload, ignoring fields it does not know; `toHost` writes the record it is read
  from;
* `ofHost?_toHost`: a valid payload is read from the record it is written as;
* `key` identifies a payload, `text` is the readable text.
-/

namespace ValueLattice

/-- The object that a reference constant stands for. -/
inductive Payload where
  /-- A string. -/
  | string (value : String)
  /-- A member of an enumeration. -/
  | enumMember (type name : String)
  /-- A declared field of a type. -/
  | declaredField (owner name type : String)
  /-- A type as an object. -/
  | typeLiteral (name : String)
  /-- A boxed primitive. -/
  | boxed (literal : Literal)
deriving DecidableEq

namespace Payload

/-- The invariant of payloads: names are not empty, and a boxed literal belongs to its type. -/
def Valid : Payload → Prop
  | string _ => True
  | enumMember type name => type ≠ "" ∧ name ≠ ""
  | declaredField owner name type => owner ≠ "" ∧ name ≠ "" ∧ type ≠ ""
  | typeLiteral name => name ≠ ""
  | boxed literal => literal.InDomain

/-! ## Reading and writing -/

/-- The payload of the given kind that a record stands for. -/
def ofKind? (kind : String) (v : HostValue) : Option Payload :=
  if kind = "string" then (v.field "value").text?.map string
  else if kind = "enum" then do
    let type ← (v.field "enumType").name?
    let name ← (v.field "name").name?
    some (enumMember type name)
  else if kind = "field" then do
    let owner ← (v.field "owner").name?
    let name ← (v.field "name").name?
    let type ← (v.field "type").name?
    some (declaredField owner name type)
  else if kind = "class" then (v.field "typeName").name?.map typeLiteral
  else if kind = "boxed" then (Literal.ofTagged? (v.field "literal")).map boxed
  else none

/-- The payload that a host value stands for. -/
def ofHost? (v : HostValue) : Option Payload := do
  let kind ← (v.field "kind").text?
  ofKind? kind v

/-- The record that a payload is read from. -/
def toHost : Payload → HostValue
  | string value => .record [("kind", .text "string"), ("value", .text value)]
  | enumMember type name =>
    .record [("kind", .text "enum"), ("enumType", .text type), ("name", .text name)]
  | declaredField owner name type =>
    .record [("kind", .text "field"), ("owner", .text owner), ("name", .text name),
      ("type", .text type)]
  | typeLiteral name => .record [("kind", .text "class"), ("typeName", .text name)]
  | boxed literal => .record [("kind", .text "boxed"), ("literal", literal.toHost)]

/-- A valid payload is read from the record it is written as. -/
theorem ofHost?_toHost {p : Payload} (h : p.Valid) : ofHost? p.toHost = some p := by
  cases p with
  | string s => rfl
  | enumMember type name =>
    simp [ofHost?, toHost, ofKind?, HostValue.field, HostValue.text?, List.lookup_cons,
      HostValue.name?_text h.1, HostValue.name?_text h.2]
  | declaredField owner name type =>
    simp [ofHost?, toHost, ofKind?, HostValue.field, HostValue.text?, List.lookup_cons,
      HostValue.name?_text h.1, HostValue.name?_text h.2.1, HostValue.name?_text h.2.2]
  | typeLiteral name =>
    have hname : name ≠ "" := h
    simp [ofHost?, toHost, ofKind?, HostValue.field, HostValue.text?, List.lookup_cons,
      HostValue.name?_text hname]
  | boxed literal =>
    have hliteral : literal.InDomain := h
    simp [ofHost?, toHost, ofKind?, HostValue.field, HostValue.text?, List.lookup_cons,
      Literal.ofTagged?_toHost hliteral]

/-! ## Texts -/

/-- The text that identifies a payload. -/
def key : Payload → String
  | string value => "string:" ++ Text.quoted Text.isControl value
  | enumMember type name => "enum:" ++ type ++ "." ++ name
  | declaredField owner name type => "field:" ++ owner ++ "." ++ name ++ ":" ++ type
  | typeLiteral name => "class:" ++ name
  | boxed literal => "boxed:" ++ literal.type.name ++ ":" ++ literal.text

/-- The readable text of a payload. -/
def text : Payload → String
  | string value => Text.quoted Text.isControl value
  | enumMember type name => type ++ "." ++ name
  | declaredField owner name _ => owner ++ "." ++ name
  | typeLiteral name => name ++ ".class"
  | boxed literal => literal.text

end Payload

end ValueLattice
