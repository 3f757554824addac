import ValueLattice.Element.Basic
import ValueLattice.Host.Dump

/-!
# Elements as host values

Elements and their parts as records, so that a report can show them. The fields are those of the
element's kind, in a fixed order; a wide range or an exact class that there is none of is absent.
A hierarchy shows its root and keeps its declarations to itself.
-/

namespace ValueLattice

/-- An interval as a record of its bounds. -/
def Interval.toHost (i : Interval) : HostValue :=
  .record [("low", .integer i.low), ("high", .integer i.high)]

/-- A range set as a record of its intervals. -/
def RangeSet.toHost (s : RangeSet) : HostValue :=
  .record [("items", .list (s.intervals.map Interval.toHost))]

/-- A hierarchy as a record of its root. -/
def Hierarchy.toHost (h : Hierarchy) : HostValue :=
  .record [("root", .text h.root), ("types", .record []), ("supertypeCache", .record [])]

/-- A constraint as a record; the greatest and the least one show nothing. -/
def Constraint.toHost (r : Registry) : Constraint → HostValue
  | nominal id (.exact name) =>
    .record [("system", (r.hierarchy id).toHost), ("exactType", .text name), ("bounds", .list [])]
  | nominal id (.bounds names) =>
    .record [("system", (r.hierarchy id).toHost), ("exactType", .absent),
      ("bounds", .list (names.map .text))]
  | _ => .record []

namespace Element

/-- A record with the kind of an element and more fields. -/
def kindRecord (kind : ElementKind) (fields : List (String × HostValue)) : HostValue :=
  .record (("kind", .text kind.name) :: fields)

/-- The record of a reference with the given special field. -/
def shapeToHost (r : Registry) (shape : ObjectShape) (field : HostValue) : HostValue :=
  kindRecord .reference
    [("constraint", shape.constraint.toHost r),
      ("nullability", .text shape.nullability.general.name),
      ("mutability", .text shape.mutability.name), ("specialField", field),
      ("local", .bool shape.isLocal)]

/-- The record of a set of floating-point numbers. -/
def floatingToHost (width : FloatingWidth) (set : FloatingSet) : HostValue :=
  kindRecord (kind (floating width set))
    (("width", .text width.name) ::
      match set with
      | .only x => [("value", .number x)]
      | .allBut xs => [("excluded", .list (xs.map .number))]
      | _ => [])

/-- An element as a record. -/
def toHost (r : Registry) : Element → HostValue
  | boolean (.only b) => kindRecord .booleanConstant [("value", .bool b)]
  | integral s =>
    kindRecord .integral
      [("width", .text s.width.name), ("range", s.range.toHost),
        ("wideRange", (s.wide.map RangeSet.toHost).getD .absent)]
  | floating width set => floatingToHost width set
  | object shape none => shapeToHost r shape .absent
  | object shape (some (name, value)) =>
    shapeToHost r shape (.record [("field", .text name), ("value", toHost r value)])
  | constant c =>
    kindRecord .referenceConstant
      [("constant", c.payload.toHost), ("constraint", c.constraint.toHost r),
        ("synthesized", .bool c.synthesized)]
  | e => kindRecord e.kind []

end Element

end ValueLattice
