/-!
# Name and version

What the reports of internal faults call the product.
-/

namespace ValueLattice

/-- The name of the product. -/
def product : String := "dflattice"

/-- The version of the product. -/
def version : String := "0.4.0"

end ValueLattice
