import ValueLattice.Element.Join
import ValueLattice.Element.Make
import ValueLattice.Element.Text
import ValueLattice.Settings.Basic

/-!
# Widening

A set of integers that keeps growing is widened so that an iteration ends: to the range it had
before conditions narrowed it, or to the whole domain of its width. Other elements widen to their
join.

* `widen` is the widened element, `widenNote?` what is worth logging about it.
-/

namespace ValueLattice.Element

/-- What a growing set of integers is widened to. -/
def widenTarget (strategy : Strategy) (s : IntegralSet) : Element :=
  if strategy = .wideRange ∧ s.wide.isSome then toWide (integral s) else integral (.all s.width)

/-- Widens an old state by a new one. -/
def widen (r : Registry) (strategy : Strategy) (old new : Element) : Element :=
  match join r old new with
  | integral s => if covers r old (integral s) then integral s else widenTarget strategy s
  | e => e

/-- The note on a widening that goes beyond the join. -/
def widenNote? (r : Registry) (strategy : Strategy) (old new : Element) : Option String :=
  let widened := widen r strategy old new
  if (join r old new).same widened then none
  else some ("Widening " ++ old.text ++ " -> " ++ widened.text)

end ValueLattice.Element
